import GridCircuit.Grid.Basic

/-!
# Connected groups

Orthogonally adjacent cells of one code form a group; connectors and crosses belong to none. `label`
computes the groups by relabelling the whole plane, row by row, until a pass changes nothing: a cell
takes the group of its equal left neighbour, else of its equal upper neighbour, else keeps its own,
else opens a new one. Where two groups meet, all cells of one are moved into the other.

`joinThroughCrosses` then unites the wire groups that face each other across a cross cell, on each
axis by itself.

Groups are numbered from one by signed 32-bit integers, zero and less being the marks of other cells. A
pass takes one new number a cell at most, so the numbers of a grid with fewer than `2147483647` cells
stay in that range; what is said of building a grid is said of such grids.
-/

namespace GridCircuit

/-- Why a drawing cannot be built at all. -/
inductive BuildError where
  | diverged (passes : Nat)
deriving DecidableEq, Repr

def BuildError.message : BuildError → String
  | diverged passes => s!"labeling did not converge after {passes} passes"

/-- What labelling says of one cell. -/
inductive Mark where
  | empty
  | connector
  | cross
  | group (id : Nat)
deriving DecidableEq, Repr, Inhabited

namespace Mark

/-- The number that stands for a mark. -/
def toInt : Mark → Int
  | empty => 0
  | connector => -1
  | cross => -2
  | group id => id + 1

def ofInt? : Int → Option Mark
  | .ofNat 0 => some empty
  | .ofNat (id + 1) => some (group id)
  | .negSucc 0 => some connector
  | .negSucc 1 => some cross
  | .negSucc _ => none

def groupId? : Mark → Option Nat
  | group id => some id
  | _ => none

end Mark

abbrev Labels := Plane Mark

namespace Labels

/-- Move every cell of group `src` into group `dst`. Marks other than two different groups change
nothing. -/
def union (l : Labels) (src dst : Mark) : Labels :=
  match src, dst with
  | .group a, .group b => if a = b then l else l.map fun m => if m = .group a then .group b else m
  | _, _ => l

def positionsOf (l : Labels) (m : Mark) : List Pos :=
  (l.entries.filter fun e => e.2 = m).map (·.1)

/-- The groups in the order of their first cells. -/
def groups (l : Labels) : List Nat := (l.cells.toList.filterMap Mark.groupId?).eraseDups

/-- The group of the cell at `p`, provided that the grid holds code `c` there. -/
def groupOf? (l : Labels) (g : Grid) (c : Code) (p : Pos) : Option Nat :=
  if g.get p = c then (l.get p).groupId? else none

end Labels

/-- The state of a relabelling pass: the marks so far, the next unused group and whether anything
changed in this pass. -/
structure Relabelling where
  labels : Labels
  next : Nat
  changed : Bool

namespace Relabelling

def put (s : Relabelling) (p : Pos) (m : Mark) : Relabelling :=
  if s.labels.get p = m then s else { s with labels := s.labels.set p m, changed := true }

/-- Move group `other`, if there is one, into group `target`. -/
def absorb (s : Relabelling) (target : Nat) (other : Option Nat) : Relabelling :=
  match other with
  | some id =>
    if id = target then s
    else { s with labels := Labels.union s.labels (.group id) (.group target), changed := true }
  | none => s

def visitGroup (g : Grid) (s : Relabelling) (p : Pos) (c : Code) : Relabelling :=
  let left := Labels.groupOf? s.labels g c p.left
  let up := Labels.groupOf? s.labels g c p.up
  let own := (s.labels.get p).groupId?
  match (left.or up).or own with
  | some target => ((s.absorb target up).absorb target own).put p (.group target)
  | none => { s with next := s.next + 1 }.put p (.group s.next)

def visit (g : Grid) (s : Relabelling) (p : Pos) : Relabelling :=
  match g.get p with
  | .empty => s.put p .empty
  | .input | .output | .clockInput => s.put p .connector
  | .cross => s.put p .cross
  | c => visitGroup g s p c

def pass (g : Grid) (s : Relabelling) : Relabelling :=
  g.bounds.cells.foldl (visit g) { s with changed := false }

/-- Relabel until nothing changes, at most `n` times. -/
def settle (g : Grid) : Nat → Relabelling → Option Labels
  | 0, _ => none
  | n + 1, s =>
    let s' := pass g s
    if s'.changed then settle g n s' else some s'.labels

end Relabelling

namespace Labels

/-- The groups of a grid. One pass per cell and one more are tried. -/
def ofGrid (g : Grid) : Except BuildError Labels :=
  let passes := g.size + 1
  let start : Relabelling := ⟨Plane.fill g.width g.height .empty, 0, false⟩
  match Relabelling.settle g passes start with
  | some l => .ok l
  | none => .error (.diverged passes)

/-- Unite the groups at two positions if both hold wire; the first group stays. -/
def joinWires (g : Grid) (l : Labels) (a b : Pos) : Labels :=
  if (g.get a).isWire && (g.get b).isWire then union l (l.get b) (l.get a) else l

/-- Unite the wires on the two sides of one cross, left with right and above with below. -/
def joinAcross (g : Grid) (l : Labels) (p : Pos) : Labels :=
  joinWires g (joinWires g l p.left p.right) p.up p.down

def crosses (l : Labels) : List Pos := l.positionsOf .cross

/-- Unite wires straight through every cross. -/
def joinThroughCrosses (g : Grid) (l : Labels) : Labels := l.crosses.foldl (joinAcross g) l

end Labels

end GridCircuit
