import GridCircuit.Grid.Pos

/-!
# Planes

A plane is a `width × height` matrix of values stored row by row. Reading outside it gives the
default value and writing outside it changes nothing, so nothing here reports a bounds error.

Sizes are 64-bit words, and the number of stored cells is the product of the sides. What happens if that
product is no word depends on the arithmetic. Where overflow is checked the program stops, so that there
is no plane (`fill?`). Where it is not, the product is cut modulo `2 ^ 64` (`fill`), and there are fewer
cells than the sides say. A plane whose product is a word is `Exact`: it is the same either way.
-/

namespace GridCircuit

/-- The number of values of a 64-bit word. -/
def wordSize : Nat := UInt64.size

/-- The number of cells stored for the given sides, where overflow is not checked. -/
def cellCount (width height : Nat) : Nat := width * height % wordSize

theorem cellCount_of_lt {width height : Nat} (h : width * height < wordSize) :
    cellCount width height = width * height :=
  Nat.mod_eq_of_lt h

structure Plane (α : Type) where
  width : Nat
  height : Nat
  cells : Vector α (cellCount width height)
deriving DecidableEq, Repr

namespace Plane

variable {α : Type}

/-- The product of the sides fits a word, so that there is a stored cell for each pair of coordinates. -/
def Exact (g : Plane α) : Prop := g.width * g.height < wordSize

instance (g : Plane α) : Decidable g.Exact := inferInstanceAs (Decidable (_ < _))

/-- A plane that holds one value everywhere. -/
def fill (width height : Nat) (a : α) : Plane α := ⟨width, height, Vector.replicate _ a⟩

/-- The same where overflow is checked; no result is a program that stops. -/
def fill? (width height : Nat) (a : α) : Option (Plane α) :=
  if width * height < wordSize then some (fill width height a) else none

/-- The position of the `i`-th stored cell. -/
def posOf (width i : Nat) : Pos := ⟨Int32.ofNat (i % width), Int32.ofNat (i / width)⟩

/-- A plane whose cells are computed from their positions. -/
def tabulate (width height : Nat) (f : Pos → α) : Plane α :=
  ⟨width, height, Vector.ofFn fun i => f (posOf width i)⟩

def size (g : Plane α) : Nat := cellCount g.width g.height

/-- The rectangle from the origin to the far corner. The sides are cut to 32 bits. -/
def bounds (g : Plane α) : Rect := ⟨Pos.origin, ⟨Int32.ofNat g.width, Int32.ofNat g.height⟩⟩

/-- Where a position is stored; `none` outside the plane. -/
def index? (g : Plane α) (p : Pos) : Option Nat :=
  if 0 ≤ p.x.toInt ∧ 0 ≤ p.y.toInt ∧ p.x.toInt.toNat < g.width ∧ p.y.toInt.toNat < g.height then
    some ((p.y.toInt.toNat * g.width + p.x.toInt.toNat) % wordSize)
  else
    none

def inBounds (g : Plane α) (p : Pos) : Bool := (g.index? p).isSome

/-- The value at a position, the default outside. -/
def get [Inhabited α] (g : Plane α) (p : Pos) : α :=
  ((g.index? p).bind (g.cells[·]?)).getD default

/-- Write one cell; nothing happens outside. -/
def set (g : Plane α) (p : Pos) (a : α) : Plane α :=
  match g.index? p with
  | some i => { g with cells := g.cells.setIfInBounds i a }
  | none => g

def setAll (g : Plane α) (writes : List (Pos × α)) : Plane α :=
  writes.foldl (fun g w => g.set w.1 w.2) g

def map (f : α → α) (g : Plane α) : Plane α := { g with cells := g.cells.map f }

/-- Replace every cell by a function of its position and value. -/
def mapPos (f : Pos → α → α) (g : Plane α) : Plane α :=
  { g with cells := g.cells.mapIdx fun i a => f (posOf g.width i) a }

/-- Every stored cell with its position, in row-major order. -/
def entries (g : Plane α) : List (Pos × α) :=
  g.cells.toList.zipIdx.map fun (a, i) => (posOf g.width i, a)

end Plane

end GridCircuit
