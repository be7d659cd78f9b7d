import GridCircuit.Field.Drawing
import GridCircuit.Files.Basic

/-!
# Loading

A name that ends in `.json` is a document and loads as a drawing with all its parts; any other name
is the source of a script. The chain of documents being opened is carried along: a document on the
chain includes itself and is not opened again. A part that cannot be loaded stays in the drawing,
unresolved.

Loading ends on every set of files: each document opened inside another is one more name on the
chain, and only finitely many names can be read.
-/

namespace GridCircuit

/-- Why a part or a document cannot be loaded. -/
inductive LoadError where
  | io (name : String) (cause : IoError)
  | cycle (name : String)
  | script (cause : ScriptError)
deriving DecidableEq, Repr

def LoadError.message : LoadError → String
  | io name cause => s!"cannot read `{name}`: {cause.text}"
  | cycle name => s!"`{name}` includes itself"
  | script cause => cause.message

def isDocumentName (name : String) : Bool := ".json".toList.isSuffixOf name.toList

/-- What is made of a part that was, or was not, loaded. -/
def Source.ofLoaded {φ : Type} : Except LoadError (Source φ) → Source φ
  | .ok source => source
  | .error e => .unresolved e.message

def loadScript (files : FileSource) (host : ScriptHost) (name : String) : Except LoadError Script :=
  match files.read name with
  | .error cause => .error (.io name cause)
  | .ok source => (host name source).mapError .script

/-- The part that a name stands for, given how documents are opened. -/
def loadPart (files : FileSource) (host : ScriptHost)
    (openDocument : String → Except LoadError Drawing) (name : String) :
    Except LoadError (Source Drawing) :=
  if isDocumentName name then (openDocument name).map .circuit
  else (loadScript files host name).map .script

theorem length_filter_notMem_lt {names chain : List String} {name : String} (hn : name ∈ names)
    (hc : name ∉ chain) :
    (names.filter (· ∉ name :: chain)).length < (names.filter (· ∉ chain)).length := by
  have hsplit : names.filter (· ∉ name :: chain) = (names.filter (· ∉ chain)).filter (· ≠ name) := by
    rw [List.filter_filter]
    congr 1
    funext s
    simp [not_or]
  rw [hsplit]
  refine List.length_filter_lt_length_iff_exists.2 ⟨name, ?_, by simp⟩
  simp [hn, hc]

/-- Open a document that is reached through the documents on `chain`. -/
def openDrawing (files : FileSource) (host : ScriptHost) (chain : List String) (name : String) :
    Except LoadError Drawing :=
  if _hc : name ∈ chain then .error (.cycle name)
  else
    match _h : files.read name with
    | .error cause => .error (.io name cause)
    | .ok text =>
      let part := loadPart files host fun inner => openDrawing files host (name :: chain) inner
      .ok (Drawing.ofDocument (fun inner => .ofLoaded (part inner)) name (Document.parse text))
termination_by (files.names.filter (· ∉ chain)).length
decreasing_by exact length_filter_notMem_lt (files.mem_names _h) _hc

/-- Load the part that a name stands for, inside the documents on `chain`. -/
def resolvePart (files : FileSource) (host : ScriptHost) (chain : List String) (name : String) :
    Except LoadError (Source Drawing) :=
  loadPart files host (openDrawing files host chain) name

/-- The drawing of a document that is given as such. -/
def loadDocument (files : FileSource) (host : ScriptHost) (chain : List String) (name : String)
    (d : Document) : Drawing :=
  Drawing.ofDocument (fun part => .ofLoaded (resolvePart files host chain part)) name d

/-- The same where overflow is checked: the program stops at the first grid that cannot be made. The grid
of the document is made before those of its parts. -/
def loadDocument? (files : FileSource) (host : ScriptHost) (chain : List String) (name : String)
    (d : Document) : Option Drawing :=
  (Grid.blank? d.width.toNat d.height.toNat).bind fun _ =>
    let drawing := loadDocument files host chain name d
    if drawing.isExact then some drawing else none

section Opening

variable {files : FileSource} {host : ScriptHost} {chain : List String} {name : String}

theorem openDrawing_of_mem (h : name ∈ chain) :
    openDrawing files host chain name = .error (.cycle name) := by
  rw [openDrawing, dif_pos h]

theorem openDrawing_of_error (h : name ∉ chain) {cause : IoError}
    (hread : files.read name = .error cause) :
    openDrawing files host chain name = .error (.io name cause) := by
  rw [openDrawing, dif_neg h]
  split
  case h_1 cause' hread' =>
    rw [hread] at hread'
    cases hread'
    rfl
  case h_2 text hread' =>
    rw [hread] at hread'
    cases hread'

theorem openDrawing_of_ok (h : name ∉ chain) {text : String} (hread : files.read name = .ok text) :
    openDrawing files host chain name =
      .ok (loadDocument files host (name :: chain) name (Document.parse text)) := by
  rw [openDrawing, dif_neg h]
  split
  case h_1 cause hread' =>
    rw [hread] at hread'
    cases hread'
  case h_2 text' hread' =>
    rw [hread] at hread'
    cases hread'
    rfl

end Opening

namespace Field

/-- Open a document as a field. -/
def openDocument (files : FileSource) (host : ScriptHost) (rs : Registries) (name : String) :
    Except LoadError (Registries × Field) :=
  (openDrawing files host [] name).map (Drawing.install rs)

/-- Whether a part is registered and resolved. -/
def resolvedCode? (rs : Registries) (f : Field) (name : String) : Option Code :=
  ((rs.get f.registry).codeOf? name).filter fun code =>
    ((rs.get f.registry).lookup? code).any (·.source.isResolved)

/-- Load a part and register it under its name. A part that is there and resolved is not loaded. -/
def loadComponent (files : FileSource) (host : ScriptHost) (rs : Registries) (f : Field)
    (name : String) : Except LoadError (Registries × Code) :=
  match f.resolvedCode? rs name with
  | some code => .ok (rs, code)
  | none =>
    (resolvePart files host [] name).map fun source =>
      let (rs, source) := Drawing.installSource rs source
      rs.register f.registry name source

end Field

end GridCircuit
