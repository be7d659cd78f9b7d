import GridCircuit.Grid.Basic
import GridCircuit.Registry

/-!
# Fields

A field is a grid together with the registry that gives its custom codes a meaning. Fields may share
a registry, as copies do with what they were cut from; so a field only names its registry, and
`Registries` keeps them all.
-/

namespace GridCircuit

/-- Names one of the registries in use. -/
structure RegistryId where
  index : Nat
deriving DecidableEq, Repr, Inhabited

structure Field where
  name : String
  grid : Grid
  registry : RegistryId

/-- The registries in use. None is ever removed. -/
structure Registries where
  all : Array (Registry Field) := #[]

namespace Registries

instance : Inhabited Registries := ⟨{}⟩

def get (rs : Registries) (id : RegistryId) : Registry Field := rs.all[id.index]?.getD {}

def put (rs : Registries) (id : RegistryId) (r : Registry Field) : Registries :=
  ⟨rs.all.setIfInBounds id.index r⟩

/-- Keep one more registry. -/
def add (rs : Registries) (r : Registry Field) : Registries × RegistryId :=
  (⟨rs.all.push r⟩, ⟨rs.all.size⟩)

/-- Register a part in one of the registries. -/
def register (rs : Registries) (id : RegistryId) (name : String) (source : Source Field) :
    Registries × Code :=
  let (r, code) := (rs.get id).register name source
  (rs.put id r, code)

end Registries

namespace Field

def paint (f : Field) (rows : List (List Code)) (corner : Pos) : Field :=
  { f with grid := f.grid.paint rows corner }

def set (f : Field) (p : Pos) (c : Code) : Field := { f with grid := f.grid.set p c }

def delete (f : Field) (p : Pos) : Field := { f with grid := f.grid.delete p }

def clear (f : Field) : Field := { f with grid := f.grid.clear }

def resize (f : Field) (width height : Nat) : Field := { f with grid := f.grid.resize width height }

/-- A rectangle as a field of its own that shares the registry. -/
def copy (f : Field) (r : Rect) : Field := { f with grid := f.grid.copyRect r }

/-- Copy a rectangle and empty it. Gives the part and what is left. -/
def cut (f : Field) (r : Rect) : Field × Field :=
  (f.copy r, { f with grid := f.grid.clearRect r })

/-- Put a field over this one with its origin at `corner`. The parts of a foreign registry are added
here by name, and the codes follow their names; a custom code without a name is left out. -/
def paste (rs : Registries) (f src : Field) (corner : Pos) : Registries × Field :=
  if f.registry = src.registry then
    (rs, { f with grid := f.grid.overlay src.grid corner })
  else
    let (r, codes) := (rs.get f.registry).absorb (rs.get src.registry)
    (rs.put f.registry r,
      { f with grid := f.grid.overlay (src.grid.remap (Registry.recode codes)) corner })

end Field

end GridCircuit
