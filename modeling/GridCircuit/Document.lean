import GridCircuit.Decimal
import GridCircuit.Grid.Pos
import GridCircuit.Json.Read
import GridCircuit.Json.Record
import GridCircuit.Json.Write
import GridCircuit.KeyMap

/-!
# Save documents

The persisted form of a drawing: its size, its painted cells, and a name for each custom code among
them. Codes are the raw 32-bit numbers of the writer; a reader gives every name a code of its own.
-/

namespace GridCircuit

structure BlockEntry where
  pos : Pos
  block : UInt32
deriving DecidableEq, Repr

structure Document where
  width : UInt64
  height : UInt64
  blocks : List BlockEntry
  /-- Custom code, in decimal, to the name of the part. -/
  components : KeyMap String String
deriving DecidableEq

namespace Document

def blank : Document := ⟨0, 0, [], ∅⟩

instance : Inhabited Document := ⟨blank⟩

def posOfJson? (j : Json) : Option Pos := do
  let field ← j.record? ["x", "y"]
  let x ← (← field "x").int32?
  let y ← (← field "y").int32?
  return ⟨x, y⟩

def entryOfJson? (j : Json) : Option BlockEntry := do
  let field ← j.record? ["pos", "block"]
  let pos ← posOfJson? (← field "pos")
  let block ← (← field "block").uint32?
  return ⟨pos, block⟩

def componentOfJson? : Option String × Json → Option (String × String)
  | (some key, .string (some name)) => some (key, name)
  | _ => none

/-- Names by code. Of two fields with one key the later counts. -/
def componentsOfJson? : Json → Option (KeyMap String String)
  | .object fields => (fields.mapM componentOfJson?).map KeyMap.ofList
  | _ => none

def fieldNames : List String := ["width", "height", "blocks", "components"]

def ofJson? (j : Json) : Option Document := do
  let field ← j.record? fieldNames
  let width ← (← field "width").uint64?
  let height ← (← field "height").uint64?
  let blocks ← Json.orDefault (field "blocks") [] fun j => j.items?.bind (·.mapM entryOfJson?)
  let components ← Json.orDefault (field "components") ∅ componentsOfJson?
  return ⟨width, height, blocks, components⟩

/-- Read a document. A malformed text reads as the blank document. -/
def parse (text : String) : Document := ((Json.parse? text).bind ofJson?).getD blank

def posToJson (p : Pos) : Json := .record [("x", .int p.x.toInt), ("y", .int p.y.toInt)]

def entryToJson (e : BlockEntry) : Json :=
  .record [("pos", posToJson e.pos), ("block", .int e.block.toNat)]

def toJson (d : Document) : Json :=
  .record
    [("width", .int d.width.toNat),
     ("height", .int d.height.toNat),
     ("blocks", .array (d.blocks.map entryToJson)),
     ("components", .record (d.components.entries.map fun e => (e.1, .ofText e.2)))]

/-- The text of a document. -/
def render (d : Document) : String := d.toJson.pretty

/-- The custom codes with their names, in the order of their keys. A key that is no 32-bit number is
passed over. -/
def customCodes (d : Document) : List (Nat × String) :=
  d.components.entries.filterMap fun (key, name) => (Decimal.parse? UInt32.size key).map (·, name)

end Document

end GridCircuit
