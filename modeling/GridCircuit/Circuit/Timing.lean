import GridCircuit.Grid.Pos

/-!
# Clocks and edges

Every clock reads the time for itself, so the clocks of one tick may read different times.
-/

namespace GridCircuit

/-- The times that are read in a tick. A clock is found by the first cells of the parts that it lies in,
the outermost first, and its own. -/
structure Times where
  read : List Pos → Nat

namespace Times

def all (t : Nat) : Times := ⟨fun _ => t⟩

/-- The time that is read by who ticks the circuit. -/
def own (now : Times) : Nat := now.read []

/-- The times that are read inside the part with this first cell. -/
def inside (now : Times) (p : Pos) : Times := ⟨fun place => now.read (p :: place)⟩

instance : Coe Nat Times := ⟨all⟩

instance (t : Nat) : OfNat Times t := ⟨all t⟩

@[simp] theorem read_all (t : Nat) (place : List Pos) : (all t).read place = t := rfl

@[simp] theorem inside_all (t : Nat) (p : Pos) : (all t).inside p = all t := rfl

end Times

/-- Remembers the last level it was shown. -/
structure EdgeDetector where
  last : Bool := false
deriving DecidableEq, Repr, Inhabited

/-- Show a level; true if it is high after a low one. -/
def EdgeDetector.rising (d : EdgeDetector) (level : Bool) : Bool × EdgeDetector :=
  (level && !d.last, ⟨level⟩)

/-- A clock signal. Times are in milliseconds. -/
structure ClockPhase where
  period : Nat
  /-- The time of the last flip, or of the first poll. -/
  lastFlip : Option Nat := none
  high : Bool := false
deriving DecidableEq, Repr, Inhabited

/-- Bring a clock up to date; `high` of the result is its level. The first poll starts the timer and a
later one flips the level once a period has passed. Time that runs backwards counts as no time. -/
def ClockPhase.poll (c : ClockPhase) (now : Nat) : ClockPhase :=
  match c.lastFlip with
  | none => { c with lastFlip := some now }
  | some flip =>
    if c.period ≤ now - flip then { c with lastFlip := some now, high := !c.high } else c

end GridCircuit
