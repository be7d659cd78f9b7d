import GridCircuit.Document
import GridCircuit.Field.Basic

/-!
# Drawings

A drawing is what a document describes: a grid, and a registry with all parts that the document
names, each of which may be a drawing again. It is a plain value; opening it as a field gives its
registries an identity that copies can share.
-/

namespace GridCircuit

structure Drawing where
  name : String
  grid : Grid
  registry : Registry Drawing

instance : Inhabited Drawing := ⟨⟨"", Grid.blank 0 0, {}⟩⟩

namespace Drawing

/-- Register the parts of a document in the order of their saved codes. Gives the code that each
saved code becomes. -/
def registerAll (source : String → Source Drawing) (codes : List (Nat × String)) :
    Registry Drawing × List (Nat × Code) :=
  codes.foldl (fun (r, renamed) (saved, part) =>
    let (r, code) := r.register part (source part)
    (r, renamed ++ [(saved, code)])) ({}, [])

/-- The code for a saved one. A custom code without a name becomes empty. -/
def rename (renamed : List (Nat × Code)) (saved : Nat) : Code :=
  let code := Code.ofRaw saved
  if code.isCustom then (renamed.lookup saved).getD .empty else code

/-- The drawing that a document describes, given what the parts are that it names. -/
def ofDocument (source : String → Source Drawing) (name : String) (d : Document) : Drawing :=
  let (registry, renamed) := registerAll source d.customCodes
  let grid := (Grid.blank d.width.toNat d.height.toNat).setAll <|
    d.blocks.map fun e => (e.pos, rename renamed e.block.toNat)
  ⟨name, grid, registry⟩

mutual

/-- Whether the grid of a drawing and those of all drawings in it are exact. -/
def isExact : Drawing → Bool
  | ⟨_, grid, ⟨entries⟩⟩ => decide grid.Exact && areExact entries

def areExact : List (Entry Drawing) → Bool
  | [] => true
  | ⟨_, source⟩ :: rest => isExactSource source && areExact rest

def isExactSource : Source Drawing → Bool
  | .script _ => true
  | .circuit drawing => isExact drawing
  | .unresolved _ => true

end

mutual

/-- Open a drawing as a field with a registry of its own, and the drawings in it likewise. -/
def install (rs : Registries) : Drawing → Registries × Field
  | ⟨name, grid, ⟨entries⟩⟩ =>
    let (rs, entries) := installEntries rs entries
    let (rs, id) := rs.add ⟨entries⟩
    (rs, ⟨name, grid, id⟩)

def installEntries (rs : Registries) : List (Entry Drawing) → Registries × List (Entry Field)
  | [] => (rs, [])
  | ⟨name, source⟩ :: rest =>
    let (rs, source) := installSource rs source
    let (rs, rest) := installEntries rs rest
    (rs, ⟨name, source⟩ :: rest)

def installSource (rs : Registries) : Source Drawing → Registries × Source Field
  | .script script => (rs, .script script)
  | .circuit drawing =>
    let (rs, field) := install rs drawing
    (rs, .circuit field)
  | .unresolved reason => (rs, .unresolved reason)

end

end Drawing

/-- The document of a field. Only custom codes that are painted are listed. -/
def Field.toDocument (rs : Registries) (f : Field) : Document :=
  let painted := f.grid.occupied
  { width := UInt64.ofNat f.grid.width
    height := UInt64.ofNat f.grid.height
    blocks := painted.map fun e => ⟨e.1, UInt32.ofNat e.2.raw⟩
    components := .ofList <| painted.filterMap fun e =>
      ((rs.get f.registry).lookup? e.2).map fun part => (toString e.2.raw, part.name) }

end GridCircuit
