import GridCircuit.Circuit.Assemble
import GridCircuit.Field.Basic
import GridCircuit.Grid.Labels

/-!
# Building circuits

A field is built into a circuit group by group. A group whose code cannot be made into a component
stays a hole and is reported. A connector looks up, left, down and right: the first wire it meets is
its wire side, the first other component its other side.

A custom part may be a field of its own, which is built again for every component made from it.
Parts may contain themselves, so there is a bound on how deep they are built.
-/

namespace GridCircuit

/-- Parts inside parts are built to this depth. -/
def maxNesting : Nat := 32

/-- Why a group of cells cannot be made into a component. -/
inductive HoleReason where
  | unregistered (code : Code)
  | tooDeep (name : String)
  | broken (name : String) (error : BuildError)
  | unresolved (name reason : String)
deriving DecidableEq, Repr

def HoleReason.message : HoleReason → String
  | unregistered code => s!"no component registered for code {code.raw}"
  | tooDeep name => s!"`{name}` is nested more than {maxNesting} levels deep"
  | broken name error => s!"`{name}`: {error.message}"
  | unresolved name reason => s!"`{name}` is unresolved: {reason}"

/-- A group that was left out, by its first cell. -/
structure BuildIssue where
  pos : Pos
  code : Code
  reason : HoleReason
deriving DecidableEq, Repr

/-- A circuit and what was left out of it and of the circuits inside it. -/
structure Build where
  circuit : Circuit
  issues : List BuildIssue

structure Group where
  id : Nat
  code : Code
  cells : List Pos
deriving DecidableEq, Repr

abbrev Making := Except HoleReason (Kind × List BuildIssue)

namespace Group

def firstCell (g : Group) : Pos := g.cells.headD Pos.origin

/-- The groups of a labelled grid, ordered by first cell. -/
def all (grid : Grid) (labels : Labels) : List Group :=
  labels.groups.map fun id =>
    let cells := labels.positionsOf (.group id)
    ⟨id, grid.get (cells.headD Pos.origin), cells⟩

def part? (g : Group) : Making → Option (Nat × Part)
  | .ok (kind, _) => some (g.id, ⟨g.code, kind, g.cells⟩)
  | .error _ => none

def issues (g : Group) : Making → List BuildIssue
  | .ok (_, inner) => inner
  | .error reason => [⟨g.firstCell, g.code, reason⟩]

end Group

namespace Site

/-- The part that covers a cell, given the group of each part. -/
def partAt? (labels : Labels) (ids : List Nat) (p : Pos) : Option Nat :=
  (labels.get p).groupId?.bind fun id => ids.findIdx? (· = id)

/-- The first part next to a cell that lies on a neighbour whose code satisfies a condition. -/
def neighbor? (grid : Grid) (labels : Labels) (ids : List Nat) (p : Pos) (accept : Code → Bool) :
    Option Nat :=
  p.neighbors.findSome? fun q => if accept (grid.get q) then partAt? labels ids q else none

def ofConnector? (grid : Grid) (labels : Labels) (ids : List Nat) (p : Pos) : Option Site :=
  (ConnectionKind.ofCode? (grid.get p)).map fun kind =>
    ⟨p, kind, neighbor? grid labels ids p Code.isWire, neighbor? grid labels ids p (!·.isWire)⟩

/-- All sites of a grid: its crosses and then its connectors. -/
def all (grid : Grid) (labels : Labels) (ids : List Nat) : List Site :=
  labels.crosses.map (⟨·, .cross, none, none⟩)
    ++ (labels.positionsOf .connector).filterMap (ofConnector? grid labels ids)

end Site

/-- Build a grid, given how codes are made into components. -/
def Grid.build (grid : Grid) (name : String) (make : Code → Making) : Except BuildError Build := do
  let labels ← Labels.ofGrid grid
  let labels := Labels.joinThroughCrosses grid labels
  let made := (Group.all grid labels).map fun g => (g, make g.code)
  let parts := made.filterMap fun (g, m) => g.part? m
  let sites := Site.all grid labels (parts.map (·.1))
  return ⟨Circuit.assemble name (parts.map (·.2)) sites, made.flatMap fun (g, m) => g.issues m⟩

/-- Make a code into a component. `nest` makes a named part that is a field. -/
def Registry.make (r : Registry Field) (clockPeriod : Nat) (nest : String → Field → Making)
    (c : Code) : Making :=
  match Kind.builtin? clockPeriod c with
  | some kind => .ok (kind, [])
  | none =>
    match r.lookup? c with
    | none => .error (.unregistered c)
    | some e =>
      match e.source with
      | .script script => .ok (.scripted { script }, [])
      | .circuit field => nest e.name field
      | .unresolved reason => .error (.unresolved e.name reason)

namespace Field

/-- The component that a built field is as a part. -/
def nestBuild (name : String) : Except BuildError Build → Making
  | .ok b => .ok (.nested b.circuit.pins b.circuit, b.issues)
  | .error e => .error (.broken name e)

/-- Build a field with parts inside it to the given depth. -/
def buildWithin (rs : Registries) (clockPeriod : Nat) : Nat → Field → Except BuildError Build
  | 0, f =>
    f.grid.build f.name <| (rs.get f.registry).make clockPeriod fun name _ => .error (.tooDeep name)
  | depth + 1, f =>
    f.grid.build f.name <| (rs.get f.registry).make clockPeriod fun name inner =>
      nestBuild name (buildWithin rs clockPeriod depth inner)

def build (rs : Registries) (clockPeriod : Nat) (f : Field) : Except BuildError Build :=
  buildWithin rs clockPeriod maxNesting f

end Field

end GridCircuit
