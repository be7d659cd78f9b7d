import GridCircuit.Circuit.Timing
import GridCircuit.Proofs.Connectivity
import Mathlib.Algebra.Ring.Nat

/-!
# What a drawing means

The behaviour of a drawing of built-in parts, step by step, stated on the drawing alone: classes of
cells have levels, connectors look around for a wire and for something that is no wire, and a tick
first computes every class that is no wire from what the wires carried before it, and then every wire
from what it is given. There are no tables, no connections and no order of updates here.
-/

namespace GridCircuit

namespace Grid

/-- The class on the first neighbour that is in a class and has an accepted code. -/
noncomputable def side? (g : Grid) (accept : Code → Bool) (p : Pos) : Option Pos :=
  (p.neighbors.find? fun q => q ∈ g.positions ∧ (g.get q).groups = true ∧ accept (g.get q) = true).map
    g.root

/-- The wire next to a connector. -/
noncomputable def wireSide? (g : Grid) (p : Pos) : Option Pos := g.side? Code.isWire p

/-- What else is next to a connector. -/
noncomputable def otherSide? (g : Grid) (p : Pos) : Option Pos := g.side? (!·.isWire) p

/-- The inputs of a class, in row-major order. -/
noncomputable def inputsOf (g : Grid) (h : Pos) : List Pos :=
  g.positions.filter fun p => g.get p = .input ∧ g.otherSide? p = some h

/-- The first clock input of a class. -/
noncomputable def clockOf? (g : Grid) (h : Pos) : Option Pos :=
  g.positions.find? fun p => g.get p = .clockInput ∧ g.otherSide? p = some h

/-- The outputs that lead to a wire. -/
noncomputable def outputsTo (g : Grid) (h : Pos) : List Pos :=
  g.positions.filter fun p => g.get p = .output ∧ g.wireSide? p = some h

/-- The buttons, in row-major order of their first cells. -/
noncomputable def buttonHeads (g : Grid) : List Pos := g.heads.filter fun h => g.get h = .button

end Grid

/-- The number whose `i`-th bit is the `i`-th level, of which the first 64 count. -/
def displayed (levels : List Bool) : Nat :=
  ((levels.take 64).zipIdx.map fun (level, i) => if level then 2 ^ i else 0).sum

/-- The state of a drawing between two steps. Classes are named by their first cells. -/
structure Snapshot where
  /-- Number of completed ticks. -/
  ticks : Nat := 0
  level : Pos → Bool := fun _ => false
  /-- What each class gave to its outputs in the last tick. -/
  given : Pos → Bool := fun _ => false
  /-- The clock level that each class saw in the last tick. -/
  seen : Pos → Bool := fun _ => false
  /-- The number on each display. -/
  shown : Pos → Nat := fun _ => 0

/-- What happens to a running circuit. -/
inductive Action where
  | tick (now : Times)
  | toggle (n : Nat)

namespace Snapshot

variable (g : Grid) (s : Snapshot)

/-- The level of the wire next to a connector, low without a wire. -/
noncomputable def onWire (p : Pos) : Bool := (g.wireSide? p).any s.level

/-- The levels that a class reads. -/
noncomputable def reads (h : Pos) : List Bool := (g.inputsOf h).map (s.onWire g)

/-- The clock level that a class reads. -/
noncomputable def clock (h : Pos) : Bool := (g.clockOf? h).any (s.onWire g)

/-- The next level of a class that is no wire. A clock is low after its first tick and flips in each
later one; a flip-flop takes its first input when its clock rises. -/
noncomputable def next (h : Pos) : Bool :=
  match g.get h with
  | .and => !(s.reads g h).isEmpty && (s.reads g h).all id
  | .or => (s.reads g h).any id
  | .xor => ((s.reads g h)[0]?.getD false).xor ((s.reads g h)[1]?.getD false)
  | .not => !(s.reads g h)[0]?.getD false
  | .battery => true
  | .clock => s.ticks ≠ 0 && !s.level h
  | .flipFlop =>
    if s.clock g h && !s.seen h then (s.reads g h)[0]?.getD false else s.level h
  | .button => s.level h
  | .display => displayed (s.reads g h) ≠ 0
  | _ => false

/-- What a class that is no wire gives to its outputs next. A display gives nothing. -/
noncomputable def gives (h : Pos) : Bool := g.get h ≠ .display && s.next g h

noncomputable def tick : Snapshot where
  ticks := s.ticks + 1
  level h :=
    if g.get h = .wire then (g.outputsTo h).any fun p => (g.otherSide? p).any (s.gives g)
    else s.next g h
  given := s.gives g
  seen := s.clock g
  shown h := displayed (s.reads g h)

/-- Flip the `n`-th button, if there is one. -/
noncomputable def toggle (n : Nat) : Snapshot :=
  match g.buttonHeads[n]? with
  | some b => { s with level := fun h => if h = b then !s.level h else s.level h }
  | none => s

/-- The state after some actions. -/
noncomputable def run (s : Snapshot) : List Action → Snapshot
  | [] => s
  | .tick _ :: actions => run (s.tick g) actions
  | .toggle n :: actions => run (s.toggle g n) actions

/-- The level that shows at a cell; none where nothing is drawn. -/
noncomputable def observe (p : Pos) : Option Bool :=
  if p ∈ g.positions then
    match g.get p with
    | .empty => none
    | .cross => some false
    | .input | .clockInput => some (s.onWire g p)
    | .output => some ((g.otherSide? p).any s.given)
    | _ => some (s.level (g.root p))
  else
    none

/-- The numbers that show on the displays. -/
noncomputable def displays : List (Pos × Nat) :=
  (g.heads.filter fun h => g.get h = .display).map fun h => (h, s.shown h)

end Snapshot

end GridCircuit
