import GridCircuit.Grid.Code
import GridCircuit.Grid.Plane

/-!
# Grids

A grid is a plane of cell codes: the drawing as the editor sees it. Reading outside gives an empty
cell and writing outside is dropped; pasting at an offset relies on both.
-/

namespace GridCircuit

abbrev Grid := Plane Code

namespace Grid

/-- The grid without any painted cell. -/
def blank (width height : Nat) : Grid := Plane.fill width height .empty

/-- The same where overflow is checked. -/
def blank? (width height : Nat) : Option Grid := Plane.fill? width height .empty

/-- The painted cells in row-major order. -/
def occupied (g : Grid) : List (Pos × Code) := g.entries.filter fun e => !e.2.isEmpty

def isBlank (g : Grid) : Bool := g.cells.all (·.isEmpty)

def delete (g : Grid) (p : Pos) : Grid := g.set p .empty

def clear (g : Grid) : Grid := g.map fun _ => .empty

def clearRect (g : Grid) (r : Rect) : Grid := g.mapPos fun p c => if r.contains p then .empty else c

/-- Put the painted cells of `src` over this grid, the origin of `src` at `corner`. Empty cells of `src`
cover nothing. -/
def overlay (g src : Grid) (corner : Pos) : Grid :=
  g.setAll (src.occupied.map fun e => (e.1.offset corner, e.2))

/-- Change the size and keep the cells that still fit. -/
def resize (g : Grid) (width height : Nat) : Grid := (blank width height).overlay g Pos.origin

/-- A copy of a rectangle as a grid of its own; what lies outside this grid is empty in it. -/
def copyRect (g : Grid) (r : Rect) : Grid := .tabulate r.width r.height fun p => g.get (p.offset r.min)

/-- Replace the painted cells one after another in row-major order, with effects in `m`. -/
def remapM {m : Type → Type} [Monad m] (g : Grid) (f : Code → m Code) : m Grid := do
  let cells ← g.cells.mapM fun c => if c.isEmpty then pure c else f c
  return { g with cells }

def remap (g : Grid) (f : Code → Code) : Grid := Id.run (g.remapM fun c => pure (f c))

/-- Paint rows of codes, their first cell at `corner`. An empty code erases. -/
def paint (g : Grid) (rows : List (List Code)) (corner : Pos) : Grid :=
  g.setAll <| rows.zipIdx.flatMap fun (row, y) =>
    row.zipIdx.map fun (c, x) => (Pos.offset ⟨Int32.ofNat x, Int32.ofNat y⟩ corner, c)

/-- A grid as large as the rows of codes that are painted on it. -/
def ofRows (rows : List (List Code)) : Grid :=
  (blank (rows.foldl (fun w row => max w row.length) 0) rows.length).paint rows Pos.origin

end Grid

end GridCircuit
