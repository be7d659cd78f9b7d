import GridCircuit.Field.Load

/-!
# The loader

Loading as it is carried out: one loader serves many requests and keeps, from one to the next, the
stack of documents that are being opened. A document is put on the stack before its parts are loaded
and taken off after them. Opening a document loads its parts, and a part may be a document again: how deep
this goes is told by the files. So the definitions are given a depth, and a loader that would have to go
deeper has no answer.
-/

namespace GridCircuit

structure Loader where
  /-- The documents being opened, the innermost first. -/
  stack : List String := []
  /-- Every drawing that was made of a file, with the stack at that time. Nothing reads it. -/
  made : List (List String × Drawing) := []

/-- Loading within a depth that is given: `none` is a loader that would have to go deeper. -/
abbrev Loading := StateT Loader Option

namespace Loader

def enter (name : String) : Loading Unit := modify fun l => { l with stack := name :: l.stack }

/-- Take the innermost document, which has become a drawing, off the stack. -/
def leave (drawing : Drawing) : Loading Unit :=
  modify fun l => { stack := l.stack.tail, made := l.made ++ [(l.stack, drawing)] }

def resolve (files : FileSource) (host : ScriptHost)
    (openDocument : String → Loading (Except LoadError Drawing)) (name : String) :
    Loading (Except LoadError (Source Drawing)) := do
  if isDocumentName name then
    return (← openDocument name).map .circuit
  else
    return (loadScript files host name).map .script

/-- Make the drawing that a document describes. Its parts are loaded in the order of their keys. -/
def ofDocument (files : FileSource) (host : ScriptHost)
    (openDocument : String → Loading (Except LoadError Drawing)) (name : String) (d : Document) :
    Loading Drawing := do
  let (registry, renamed) ← d.customCodes.foldlM (fun (r, renamed) (saved, part) => do
    let source ← resolve files host openDocument part
    let (r, code) := Registry.register r part (.ofLoaded source)
    return (r, renamed ++ [(saved, code)])) (({} : Registry Drawing), ([] : List (Nat × Code)))
  let grid := (Grid.blank d.width.toNat d.height.toNat).setAll <|
    d.blocks.map fun e => (e.pos, Drawing.rename renamed e.block.toNat)
  return ⟨name, grid, registry⟩

/-- Open a document. What is inside it is opened one level deeper. -/
def openDocument (files : FileSource) (host : ScriptHost) :
    Nat → String → Loading (Except LoadError Drawing)
  | 0, _ => failure
  | depth + 1, name => do
    if name ∈ (← get).stack then
      return .error (.cycle name)
    match files.read name with
    | .error cause => return .error (.io name cause)
    | .ok text =>
      enter name
      let drawing ← ofDocument files host (openDocument files host depth) name (Document.parse text)
      leave drawing
      return .ok drawing

inductive Request where
  | openDocument (name : String)
  | ofDocument (name : String) (document : Document)
  | resolve (name : String)

inductive Answer where
  | opened (result : Except LoadError Drawing)
  | drawn (drawing : Drawing)
  | resolved (result : Except LoadError (Source Drawing))

def serve (files : FileSource) (host : ScriptHost) (depth : Nat) : Request → Loading Answer
  | .openDocument name => .opened <$> openDocument files host depth name
  | .ofDocument name document =>
    .drawn <$> ofDocument files host (openDocument files host depth) name document
  | .resolve name => .resolved <$> resolve files host (openDocument files host depth) name

def serveAll (files : FileSource) (host : ScriptHost) (depth : Nat) (requests : List Request) :
    Loading (List Answer) := requests.mapM (serve files host depth)

end Loader

end GridCircuit
