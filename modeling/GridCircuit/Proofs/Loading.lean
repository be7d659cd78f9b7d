import GridCircuit.Field.Loader
import Mathlib.Data.List.Forall2
import Mathlib.Data.List.Nodup
import Mathlib.Data.List.Perm.Subperm

/-!
# Loading ends

A loader answers every request. What it answers is what the chain of documents on its stack lets one
read off the files, and its stack is afterwards what it was before. A document is opened only while its
name is not on the stack, so no name comes twice in a chain of documents that are being opened, and each
level deeper there is one name less that can be read.
-/

namespace GridCircuit

namespace Document

/-- The names under the keys that are numbers, in the order of the keys. -/
def numberedNames (d : Document) : List String :=
  (d.components.entries.filter fun e => (Decimal.parse? UInt32.size e.1).isSome).map (·.2)

theorem customCodes_names (d : Document) : d.customCodes.map (·.2) = d.numberedNames := by
  rw [customCodes, numberedNames]
  induction d.components.entries with
  | nil => rfl
  | cons e es ih =>
    cases hkey : Decimal.parse? UInt32.size e.1 with
    | none => simp [hkey, ih]
    | some n => simp [hkey, ih]

end Document

namespace Loader

/-- The drawings that opening a document inside `chain` makes, each with the stack at that time. -/
def drawings (files : FileSource) (host : ScriptHost) (chain : List String) (name : String) :
    List (List String × Drawing) :=
  if _hc : name ∈ chain then []
  else
    match _h : files.read name with
    | .error _ => []
    | .ok text =>
      let d := Document.parse text
      let inner := d.customCodes.flatMap fun e =>
        if isDocumentName e.2 then drawings files host (name :: chain) e.2 else []
      inner ++ [(name :: chain, loadDocument files host (name :: chain) name d)]
termination_by (files.names.filter (· ∉ chain)).length
decreasing_by exact length_filter_notMem_lt (files.mem_names _h) _hc

/-- The drawings that resolving a part makes. -/
def partDrawings (files : FileSource) (host : ScriptHost) (chain : List String) (part : String) :
    List (List String × Drawing) :=
  if isDocumentName part then drawings files host chain part else []

/-- The drawings that the parts of a document make. -/
def documentDrawings (files : FileSource) (host : ScriptHost) (chain : List String) (d : Document) :
    List (List String × Drawing) :=
  d.customCodes.flatMap fun e => partDrawings files host chain e.2

variable {files : FileSource} {host : ScriptHost} {chain : List String} {name : String}

theorem drawings_of_mem (h : name ∈ chain) : drawings files host chain name = [] := by
  rw [drawings, dif_pos h]

theorem drawings_of_error (h : name ∉ chain) {cause : IoError}
    (hread : files.read name = .error cause) : drawings files host chain name = [] := by
  rw [drawings, dif_neg h]
  split
  case h_1 => rfl
  case h_2 text hread' =>
    rw [hread] at hread'
    cases hread'

theorem drawings_of_ok (h : name ∉ chain) {text : String} (hread : files.read name = .ok text) :
    drawings files host chain name =
      documentDrawings files host (name :: chain) (Document.parse text) ++
        [(name :: chain, loadDocument files host (name :: chain) name (Document.parse text))] := by
  rw [drawings, dif_neg h]
  split
  case h_1 cause hread' =>
    rw [hread] at hread'
    cases hread'
  case h_2 text' hread' =>
    rw [hread] at hread'
    cases hread'
    rfl

section Run

variable {α β : Type} {l : Loader}

/-- The loader after more drawings were made. -/
def add (l : Loader) (made : List (List String × Drawing)) : Loader := ⟨l.stack, l.made ++ made⟩

@[simp] theorem add_stack (made : List (List String × Drawing)) : (l.add made).stack = l.stack := rfl

@[simp] theorem add_nil : l.add [] = l := by rw [add, List.append_nil]

@[simp] theorem add_add (made more : List (List String × Drawing)) :
    (l.add made).add more = l.add (made ++ more) := by rw [add, add, add, List.append_assoc]

theorem pure_apply (a : α) : (pure a : Loading α) l = some (a, l) := rfl

theorem bind_apply {x : Loading α} {f : α → Loading β} {a : α} {l' : Loader}
    (h : x l = some (a, l')) : (x >>= f) l = f a l' := by
  show (x l).bind _ = _
  rw [h]
  rfl

theorem map_apply {x : Loading α} (f : α → β) {a : α} {l' : Loader} (h : x l = some (a, l')) :
    (f <$> x) l = some (f a, l') := by
  show (x l).bind _ = _
  rw [h]
  rfl

/-- What comes of a document is what the chain of documents on the stack allows for. -/
def OpensBy (files : FileSource) (host : ScriptHost) (chain : List String)
    (opener : String → Loading (Except LoadError Drawing)) : Prop :=
  ∀ name (l : Loader), l.stack = chain → opener name l =
    some (openDrawing files host chain name, l.add (drawings files host chain name))

variable {opener : String → Loading (Except LoadError Drawing)}

theorem resolve_apply (hopen : OpensBy files host chain opener) (part : String)
    (hl : l.stack = chain) : resolve files host opener part l =
      some (resolvePart files host chain part, l.add (partDrawings files host chain part)) := by
  rw [resolve, resolvePart, loadPart, partDrawings]
  split
  · rw [bind_apply (hopen part l hl)]
    rfl
  · rw [add_nil]
    rfl

/-- Parts that can be resolved are registered one after the other. -/
theorem foldlM_resolve (hopen : OpensBy files host chain opener) (codes : List (Nat × String))
    (acc : Registry Drawing × List (Nat × Code)) (hl : l.stack = chain) :
    codes.foldlM (m := Loading) (fun (r, renamed) (saved, part) => do
        let source ← resolve files host opener part
        let (r, code) := Registry.register r part (.ofLoaded source)
        return (r, renamed ++ [(saved, code)])) acc l =
      some (codes.foldl (fun (r, renamed) (saved, part) =>
          let (r, code) := r.register part (.ofLoaded (resolvePart files host chain part))
          (r, renamed ++ [(saved, code)])) acc,
        l.add (codes.flatMap fun e => partDrawings files host chain e.2)) := by
  induction codes generalizing acc l with
  | nil => rw [List.foldlM_nil, List.foldl_nil, List.flatMap_nil, add_nil, pure_apply]
  | cons e codes ih =>
    rw [List.foldlM_cons, List.foldl_cons, List.flatMap_cons, ← add_add]
    rw [bind_apply (bind_apply (resolve_apply hopen e.2 hl))]
    exact ih _ hl

theorem ofDocument_apply (hopen : OpensBy files host chain opener) (name : String) (d : Document)
    (hl : l.stack = chain) : ofDocument files host opener name d l =
      some (loadDocument files host chain name d, l.add (documentDrawings files host chain d)) := by
  rw [ofDocument, bind_apply (foldlM_resolve hopen d.customCodes _ hl)]
  rfl

/-- A depth is enough if it is more than the names that can still be read. The stack decides what
comes of a document and is left as it was. -/
theorem openDocument_apply (depth : Nat) : ∀ chain : List String,
    (files.names.filter (· ∉ chain)).length < depth →
      OpensBy files host chain (openDocument files host depth) := by
  induction depth with
  | zero => exact fun _ hdepth => absurd hdepth (Nat.not_lt_zero _)
  | succ depth ih =>
    intro chain hdepth name l hl
    have hget : (get : Loading Loader) l = some (l, l) := rfl
    rw [openDocument, bind_apply hget]
    by_cases hmem : name ∈ chain
    · rw [if_pos (hl ▸ hmem), openDrawing_of_mem hmem, drawings_of_mem hmem, add_nil, pure_apply]
    · rw [if_neg (hl ▸ hmem)]
      cases hread : files.read name with
      | error cause =>
        rw [openDrawing_of_error hmem hread, drawings_of_error hmem hread, add_nil]
        rfl
      | ok text =>
        have hless := length_filter_notMem_lt (files.mem_names hread) hmem
        have hinner := ih (name :: chain) (by omega)
        have henter : enter name l = some ((), ⟨name :: l.stack, l.made⟩) := rfl
        have hdocument := ofDocument_apply (l := ⟨name :: l.stack, l.made⟩) hinner name
          (Document.parse text) (congrArg (name :: ·) hl)
        rw [openDrawing_of_ok hmem hread, drawings_of_ok hmem hread]
        show (enter name >>= _) l = _
        rw [bind_apply henter, bind_apply hdocument]
        subst hl
        rw [← add_add]
        rfl

end Run

/-- What a loader answers that has the documents on `chain` on its stack. -/
def answer (files : FileSource) (host : ScriptHost) (chain : List String) : Request → Answer
  | .openDocument name => .opened (openDrawing files host chain name)
  | .ofDocument name d => .drawn (loadDocument files host chain name d)
  | .resolve name => .resolved (resolvePart files host chain name)

/-- The drawings that serving a request makes. -/
def requestDrawings (files : FileSource) (host : ScriptHost) (chain : List String) :
    Request → List (List String × Drawing)
  | .openDocument name => drawings files host chain name
  | .ofDocument _ d => documentDrawings files host chain d
  | .resolve name => partDrawings files host chain name

theorem opensBy_of_lt {depth : Nat} (h : files.names.length < depth) (chain : List String) :
    OpensBy files host chain (openDocument files host depth) :=
  openDocument_apply depth chain (Nat.lt_of_le_of_lt (List.length_filter_le _ _) h)

/-- Every request is answered. -/
theorem serve_apply {depth : Nat} (h : files.names.length < depth) (request : Request) (l : Loader) :
    serve files host depth request l = some (answer files host l.stack request,
      l.add (requestDrawings files host l.stack request)) := by
  have hopen : OpensBy files host l.stack (openDocument files host depth) := opensBy_of_lt h l.stack
  cases request with
  | openDocument name => exact map_apply _ (hopen name l rfl)
  | ofDocument name d => exact map_apply _ (ofDocument_apply hopen name d rfl)
  | resolve name => exact map_apply _ (resolve_apply hopen name rfl)

theorem serveAll_apply {depth : Nat} (h : files.names.length < depth) (requests : List Request)
    (l : Loader) : serveAll files host depth requests l =
      some (requests.map (answer files host l.stack),
        l.add (requests.flatMap (requestDrawings files host l.stack))) := by
  induction requests generalizing l with
  | nil => rw [serveAll, List.mapM_nil, List.flatMap_nil, add_nil, pure_apply, List.map_nil]
  | cons request requests ih =>
    rw [serveAll, List.mapM_cons, bind_apply (serve_apply h request l)]
    have hrest := ih (l.add (requestDrawings files host l.stack request))
    rw [serveAll] at hrest
    rw [bind_apply hrest, add_add, List.map_cons, List.flatMap_cons]
    rfl

/-- A document that names a part under a custom code. -/
def Names (files : FileSource) (document part : String) : Prop :=
  ∃ text, files.read document = .ok text ∧ part ∈ (Document.parse text).numberedNames

/-- A chain of documents that are opened inside `base`, the innermost first: the first of them is
`root`, and each of the others is a part of the one that was opened before it. -/
inductive Nested (files : FileSource) (base : List String) (root : String) : List String → Prop
  | root {text : String} (new : root ∉ base) (readable : files.read root = .ok text) :
      Nested files base root [root]
  | part {name outer text : String} {chain : List String}
      (inside : Nested files base root (outer :: chain)) (named : Names files outer name)
      (document : isDocumentName name = true) (new : name ∉ outer :: chain ++ base)
      (readable : files.read name = .ok text) : Nested files base root (name :: outer :: chain)

namespace Nested

variable {base : List String} {root : String}

theorem nodup (h : Nested files base root chain) : chain.Nodup := by
  induction h with
  | root new readable => exact List.nodup_singleton root
  | part inside named document new readable ih =>
    exact List.nodup_cons.2 ⟨fun hmem => new (List.mem_append_left base hmem), ih⟩

theorem notMem_base (h : Nested files base root chain) : ∀ n ∈ chain, n ∉ base := by
  induction h with
  | root new readable => simpa using new
  | part inside named document new readable ih =>
    refine List.forall_mem_cons.2 ⟨fun hmem => new (List.mem_append_right _ hmem), ih⟩

theorem readable (h : Nested files base root chain) :
    ∀ n ∈ chain, ∃ text, files.read n = .ok text := by
  induction h with
  | root new readable => simpa using ⟨_, readable⟩
  | part inside named document new readable ih => exact List.forall_mem_cons.2 ⟨⟨_, readable⟩, ih⟩

/-- There are at least as many files as documents being opened. -/
theorem length_le (h : Nested files base root chain) : chain.length ≤ files.names.length := by
  refine (List.subperm_of_subset h.nodup fun n hn => ?_).length_le
  obtain ⟨text, hread⟩ := h.readable n hn
  exact files.mem_names hread

/-- What is opened inside a part of a document is opened inside the document. -/
theorem inside_root {part text : String} (h : Nested files (root :: base) part chain)
    (hnew : root ∉ base) (hread : files.read root = .ok text) (hnamed : Names files root part)
    (hdocument : isDocumentName part = true) : Nested files base root (chain ++ [root]) := by
  induction h with
  | root new readable =>
    exact .part (.root hnew hread) hnamed hdocument new readable
  | part inside named document new readable ih =>
    exact .part ih named document (by simpa using new) readable

end Nested

/-- A drawing is made of the document that is opened, or of a document inside that. -/
theorem drawings_induction {P : List String → String → List String × Drawing → Prop}
    (made : ∀ chain name text, name ∉ chain → files.read name = .ok text →
      P chain name (name :: chain, loadDocument files host (name :: chain) name (Document.parse text)))
    (inside : ∀ chain name text part e, name ∉ chain → files.read name = .ok text →
      part ∈ (Document.parse text).numberedNames → isDocumentName part = true →
      P (name :: chain) part e → P chain name e)
    (chain : List String) (name : String) : ∀ e ∈ drawings files host chain name, P chain name e := by
  induction chain, name using openDrawing.induct files host with
  | case1 chain name hmem => simp [drawings_of_mem hmem]
  | case2 chain name hmem cause hread => simp [drawings_of_error hmem hread]
  | case3 chain name hmem text hread ih =>
    intro e he
    rw [drawings_of_ok hmem hread, List.mem_append, documentDrawings, List.mem_flatMap] at he
    rcases he with ⟨code, hcode, he⟩ | he
    · rw [partDrawings] at he
      split at he
      case isTrue hdocument =>
        have hpart : code.2 ∈ (Document.parse text).numberedNames := by
          rw [← Document.customCodes_names]
          exact List.mem_map_of_mem hcode
        exact inside chain name text code.2 e hmem hread hpart hdocument (ih code.2 e he)
      case isFalse => cases he
    · rw [List.mem_singleton.1 he]
      exact made chain name text hmem hread

/-- The drawings made of files come with the chains of documents they were opened through. -/
theorem nested_of_mem_drawings (chain : List String) (name : String) :
    ∀ e ∈ drawings files host chain name, ∃ inner, e.1 = inner ++ chain ∧
      Nested files chain name inner := by
  refine drawings_induction
    (P := fun chain name e => ∃ inner, e.1 = inner ++ chain ∧ Nested files chain name inner)
    ?_ ?_ chain name
  · intro chain name text hnew hread
    exact ⟨[name], rfl, .root hnew hread⟩
  · rintro chain name text part e hnew hread hpart hdocument ⟨inner, hinner, hnested⟩
    refine ⟨inner ++ [name], by rw [hinner, List.append_assoc, List.singleton_append], ?_⟩
    exact hnested.inside_root hnew hread ⟨text, hread, hpart⟩ hdocument

theorem nested_of_mem_requestDrawings (chain : List String) (request : Request) :
    ∀ e ∈ requestDrawings files host chain request, ∃ inner root, e.1 = inner ++ chain ∧
      Nested files chain root inner := by
  have hpart : ∀ part, ∀ e ∈ partDrawings files host chain part, ∃ inner root,
      e.1 = inner ++ chain ∧ Nested files chain root inner := by
    intro part e he
    rw [partDrawings] at he
    split at he
    case isTrue =>
      obtain ⟨inner, h⟩ := nested_of_mem_drawings chain part e he
      exact ⟨inner, part, h⟩
    case isFalse => cases he
  intro e he
  cases request with
  | openDocument name =>
    obtain ⟨inner, h⟩ := nested_of_mem_drawings chain name e he
    exact ⟨inner, name, h⟩
  | ofDocument name d =>
    obtain ⟨code, hcode, he⟩ := List.mem_flatMap.1 he
    exact hpart code.2 e he
  | resolve name => exact hpart name e he

/-- Whatever the files are, every request to a loader is answered, and no loader has to go deeper than
there are files. The answer is the one that the documents on its stack allow for, the stack is the same
afterwards, and the documents that are opened in between form chains without repetition. So a new
loader serves any requests in a row, and answers each as if it were the first. -/
theorem serve_returns (files : FileSource) (host : ScriptHost) (l : Loader) (request : Request)
    (requests : List Request) :
    (∃ made, (∀ depth > files.names.length, serve files host depth request l =
        some (answer files host l.stack request, ⟨l.stack, l.made ++ made⟩)) ∧
      ∀ e ∈ made, ∃ inner root, e.1 = inner ++ l.stack ∧ Nested files l.stack root inner ∧
        inner.Nodup ∧ (∀ n ∈ inner, n ∉ l.stack) ∧ inner.length ≤ files.names.length) ∧
    ∃ answers made, (∀ depth > files.names.length,
        serveAll files host depth requests {} = some (answers, ⟨[], made⟩) ∧
        List.Forall₂ (fun r a => ∃ l', serve files host depth r {} = some (a, l')) requests answers) ∧
      ∀ e ∈ made, e.1.Nodup ∧ e.1.length ≤ files.names.length := by
  constructor
  · refine ⟨requestDrawings files host l.stack request, fun depth h => serve_apply h request l, ?_⟩
    intro e he
    obtain ⟨inner, root, hchain, hnested⟩ := nested_of_mem_requestDrawings l.stack request e he
    exact ⟨inner, root, hchain, hnested, hnested.nodup, hnested.notMem_base, hnested.length_le⟩
  · refine ⟨_, _, fun depth h => ⟨serveAll_apply h requests {}, ?_⟩, fun e he => ?_⟩
    · rw [List.forall₂_map_right_iff, List.forall₂_same]
      exact fun r _ => ⟨_, serve_apply h r {}⟩
    · obtain ⟨r, hr, he⟩ := List.mem_flatMap.1 he
      obtain ⟨inner, root, hchain, hnested⟩ := nested_of_mem_requestDrawings [] r e he
      rw [hchain, List.append_nil]
      exact ⟨hnested.nodup, hnested.length_le⟩

end Loader

end GridCircuit
