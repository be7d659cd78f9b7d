/-!
# Positions and rectangles

Cells are addressed by two 32-bit coordinates. Every move saturates at the ends of the range, so a
step off an edge gives a position outside every grid instead of one on the opposite edge.
-/

namespace GridCircuit

/-- A cell coordinate: `x` grows to the right, `y` grows downwards. -/
structure Pos where
  x : Int32
  y : Int32
deriving DecidableEq, Repr, Inhabited

namespace Pos

def origin : Pos := ⟨0, 0⟩

/-- Column first, then row. -/
instance : Ord Pos where
  compare := compareLex (compareOn x) (compareOn y)

instance : Std.TransOrd Pos :=
  inferInstanceAs (Std.TransCmp (compareLex (compareOn x) (compareOn y)))

instance : Std.LawfulEqOrd Pos where
  eq_of_compare {a b} h := by
    have h' : (compare a.x b.x).then (compare a.y b.y) = .eq := h
    rw [Ordering.then_eq_eq] at h'
    obtain ⟨ax, ay⟩ := a
    obtain ⟨bx, bY⟩ := b
    simp only [Std.LawfulEqCmp.compare_eq_iff_eq] at h'
    exact h'.1 ▸ h'.2 ▸ rfl

/-- The sum of two coordinates, held inside the 32-bit range. -/
def saturatingAdd (a b : Int32) : Int32 := Int32.ofIntClamp (a.toInt + b.toInt)

def offset (p d : Pos) : Pos := ⟨saturatingAdd p.x d.x, saturatingAdd p.y d.y⟩

def up (p : Pos) : Pos := p.offset ⟨0, -1⟩
def down (p : Pos) : Pos := p.offset ⟨0, 1⟩
def left (p : Pos) : Pos := p.offset ⟨-1, 0⟩
def right (p : Pos) : Pos := p.offset ⟨1, 0⟩

/-- The four orthogonal neighbours in the order in which a connector looks for something to attach. -/
def neighbors (p : Pos) : List Pos := [p.up, p.left, p.down, p.right]

end Pos

/-- A rectangle of cells: `min` is inside and `max` is outside. A rectangle whose `max` is not beyond
its `min` on some axis has no cells. -/
structure Rect where
  min : Pos
  max : Pos
deriving DecidableEq, Repr

namespace Rect

/-- The smallest rectangle that holds both corner cells. -/
def ofCorners (a b : Pos) : Rect where
  min := ⟨Min.min a.x b.x, Min.min a.y b.y⟩
  max := ⟨Pos.saturatingAdd (Max.max a.x b.x) 1, Pos.saturatingAdd (Max.max a.y b.y) 1⟩

def width (r : Rect) : Nat := (r.max.x.toInt - r.min.x.toInt).toNat
def height (r : Rect) : Nat := (r.max.y.toInt - r.min.y.toInt).toNat

/-- Number of cells. -/
def area (r : Rect) : Nat := r.width * r.height

def contains (r : Rect) (p : Pos) : Bool :=
  r.min.x ≤ p.x && p.x < r.max.x && r.min.y ≤ p.y && p.y < r.max.y

/-- The `i`-th cell in row-major order. -/
def cell (r : Rect) (i : Nat) : Pos :=
  ⟨Int32.ofInt (r.min.x.toInt + (i % r.width : Nat)), Int32.ofInt (r.min.y.toInt + (i / r.width : Nat))⟩

/-- The first `n` cells in row-major order, fewer if the rectangle is smaller. -/
def firstCells (r : Rect) (n : Nat) : List Pos := (List.range (Min.min n r.area)).map r.cell

/-- Every cell in row-major order. -/
def cells (r : Rect) : List Pos := (List.range r.area).map r.cell

end Rect

end GridCircuit
