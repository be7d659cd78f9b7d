import GridCircuit.Proofs.Histories
import GridCircuit.Proofs.Loading

/-!
# What opening a document records

Each part of a document that is opened is recorded in the drawing made of it: as an inclusion in itself
exactly if the part is a document on the chain that led here, else as what its file and the script host
say. A document on the chain matters only to a part that leads back to it; any other part is loaded as a
new loader would load it.
-/

namespace GridCircuit

namespace LoadError

/-- The first letter of a message tells what failed. -/
def initial : LoadError → Option Char
  | io _ _ => some 'c'
  | cycle _ => "`".toList.head?
  | script _ => some 's'

theorem head?_message (e : LoadError) : e.message.toList.head? = e.initial := by
  cases e with
  | io name cause =>
    show ("cannot read `" ++ name ++ "`: " ++ cause.text).toList.head? = _
    simp only [String.toList_append]
    rfl
  | cycle name =>
    show ("`" ++ name ++ "` includes itself").toList.head? = _
    simp only [String.toList_append]
    rfl
  | script cause =>
    cases cause with
    | compile name message =>
      show ("script `" ++ name ++ "` failed to compile: " ++ message).toList.head? = _
      simp only [String.toList_append]
      rfl
    | failed name message =>
      show ("script `" ++ name ++ "` failed: " ++ message).toList.head? = _
      simp only [String.toList_append]
      rfl

theorem initial_cycle_ne_io {name name' : String} {cause : IoError} :
    (cycle name).initial ≠ (io name' cause).initial :=
  show "`".toList.head? ≠ some 'c' by decide

theorem initial_cycle_ne_script {name : String} {cause : ScriptError} :
    (cycle name).initial ≠ (script cause).initial :=
  show "`".toList.head? ≠ some 's' by decide

theorem initial_io_ne_script {name : String} {cause : IoError} {cause' : ScriptError} :
    (io name cause).initial ≠ (script cause').initial :=
  show some 'c' ≠ some 's' by decide

/-- Failures of different kinds are recorded in different words. -/
theorem ofLoaded_ne {e e' : LoadError} (h : e.initial ≠ e'.initial) :
    (Source.ofLoaded (.error e) : Source Drawing) ≠ .unresolved e'.message := by
  intro he
  have hmessage : e.message = e'.message := Source.unresolved.inj he
  rw [← head?_message, ← head?_message, hmessage] at h
  exact h rfl

theorem message_io_eq_iff (name : String) (cause cause' : IoError) :
    (io name cause).message = (io name cause').message ↔ cause.text = cause'.text := by
  show "cannot read `" ++ name ++ "`: " ++ cause.text = "cannot read `" ++ name ++ "`: " ++ cause'.text ↔ _
  exact String.append_right_inj _

end LoadError

namespace Drawing

variable {source : String → Source Drawing} {codes : List (Nat × String)} {name : String}

/-- Every part is recorded with the source of its name, also when it is named twice. -/
theorem source_of_mem_registerAll (source : String → Source Drawing) (codes : List (Nat × String)) :
    ∀ e ∈ (registerAll source codes).1.entries, e.source = source e.name := by
  refine registerAll_induction (P := fun r => ∀ e ∈ r.entries, e.source = source e.name) nofun ?_ codes
  intro r part hr
  have hsame : ∀ e, r.find? part = some e → e.source = source part := by
    intro e he
    obtain rfl : e.name = part := of_decide_eq_true (List.find?_some he :)
    exact hr e (List.mem_of_find?_eq_some he)
  obtain ⟨i, -, hregister⟩ | ⟨-, hregister⟩ := Registry.register_cases hsame
  · rw [hregister]
    exact hr
  · rw [hregister]
    intro e he
    rcases List.mem_append.1 he with he | he
    · exact hr e he
    · rw [List.mem_singleton] at he
      rw [he]

/-- The names are registered in the order in which they first come. -/
theorem names_registerAll (source : String → Source Drawing) (codes : List (Nat × String)) :
    (registerAll source codes).1.names = (codes.map (·.2)).eraseDups := by
  induction codes using List.reverseRecOn with
  | nil => rfl
  | append_singleton codes e ih =>
    rw [registerAll_snoc, Registry.names_register, ih, List.map_append, List.eraseDups_append,
      List.map_singleton]
    split
    case isTrue h =>
      have hknown : [e.2].removeAll (codes.map (·.2)) = [] := by
        simp [List.removeAll, List.mem_eraseDups.1 h]
      rw [hknown, List.eraseDups_nil, List.append_nil]
    case isFalse h =>
      have hnew : [e.2].removeAll (codes.map (·.2)) = [e.2] := by
        simp [List.removeAll, mt List.mem_eraseDups.2 h]
      rw [hnew]
      rfl

theorem mem_names_registerAll :
    name ∈ (registerAll source codes).1.names ↔ name ∈ codes.map (·.2) := by
  rw [names_registerAll, List.mem_eraseDups]

/-- What is found under the name of a part. -/
theorem lookup?_registerAll (source : String → Source Drawing) (h : name ∈ codes.map (·.2)) :
    ∃ code, (registerAll source codes).1.codeOf? name = some code ∧
      (registerAll source codes).1.lookup? code = some ⟨name, source name⟩ := by
  have hnodup := nodup_names_registerAll source codes
  obtain ⟨e, he, rfl⟩ := List.mem_map.1 ((@mem_names_registerAll source codes name).2 h)
  obtain ⟨i, hi⟩ := List.mem_iff_getElem?.1 he
  have hlookup : (registerAll source codes).1.lookup? (.custom i) = some ⟨e.name, source e.name⟩ := by
    rw [← source_of_mem_registerAll source codes e he]
    exact hi
  exact ⟨_, (Registry.codeOf?_eq_some_iff hnodup).2 ⟨_, hlookup, rfl⟩, hlookup⟩

/-- Only the sources of its parts matter to the drawing of a document. -/
theorem ofDocument_congr {source' : String → Source Drawing} {d : Document}
    (h : ∀ part ∈ d.numberedNames, source part = source' part) (name : String) :
    ofDocument source name d = ofDocument source' name d := by
  have hcodes : registerAll source d.customCodes = registerAll source' d.customCodes := by
    refine List.foldl_ext _ _ _ fun (r, renamed) (saved, part) he => ?_
    have hpart : source part = source' part := by
      apply h
      rw [← Document.customCodes_names]
      exact List.mem_map_of_mem he
    simp only [hpart]
  rw [ofDocument, ofDocument, hcodes]

end Drawing

namespace Loader

open LoadError

variable {files : FileSource} {host : ScriptHost} {chain : List String} {name : String}

/-- Documents that are reached from a name through the parts of documents. -/
def Reaches (files : FileSource) : String → String → Prop :=
  Relation.ReflTransGen fun document part => isDocumentName document = true ∧ Names files document part

/-- The documents below matter to a part only if it leads to one of them. -/
theorem resolvePart_congr (chain below : List String)
    (hopen : isDocumentName name = true →
      openDrawing files host (chain ++ below) name = openDrawing files host chain name) :
    resolvePart files host (chain ++ below) name = resolvePart files host chain name := by
  rw [resolvePart, resolvePart, loadPart, loadPart]
  split
  case isTrue h => rw [hopen h]
  case isFalse => rfl

theorem openDrawing_append (below : List String) (chain : List String) (name : String) :
    isDocumentName name = true →
    (∀ a, Reaches files name a → isDocumentName a = true → a ∉ below) →
      openDrawing files host (chain ++ below) name = openDrawing files host chain name := by
  induction chain, name using openDrawing.induct files host with
  | case1 chain name hmem =>
    intro _ _
    rw [openDrawing_of_mem hmem, openDrawing_of_mem (List.mem_append_left below hmem)]
  | case2 chain name hmem cause hread =>
    intro hname hfree
    have hnew : name ∉ chain ++ below :=
      List.mem_append.not.2 (not_or.2 ⟨hmem, hfree name .refl hname⟩)
    rw [openDrawing_of_error hmem hread, openDrawing_of_error hnew hread]
  | case3 chain name hmem text hread ih =>
    intro hname hfree
    have hnew : name ∉ chain ++ below :=
      List.mem_append.not.2 (not_or.2 ⟨hmem, hfree name .refl hname⟩)
    rw [openDrawing_of_ok hmem hread, openDrawing_of_ok hnew hread]
    refine congrArg Except.ok (Drawing.ofDocument_congr (fun part hpart => ?_) name)
    refine congrArg Source.ofLoaded (resolvePart_congr (name :: chain) below fun hdocument => ?_)
    exact ih part hdocument fun a ha => hfree a (.head ⟨hname, text, hread, hpart⟩ ha)

/-- What comes of a part, by what is said about it before anything is loaded. -/
inductive Outcome (files : FileSource) (host : ScriptHost) (chain : List String) (name : String) :
    Except LoadError (Source Drawing) → Prop
  | cycle (document : isDocumentName name = true) (open' : name ∈ chain) :
      Outcome files host chain name (.error (.cycle name))
  | unreadable {cause : IoError} (new : ¬ (isDocumentName name = true ∧ name ∈ chain))
      (read : files.read name = .error cause) :
      Outcome files host chain name (.error (.io name cause))
  | rejected {text : String} {e : ScriptError} (script : isDocumentName name = false)
      (read : files.read name = .ok text) (compile : host name text = .error e) :
      Outcome files host chain name (.error (.script e))
  | resolved {text : String} {source : Source Drawing}
      (new : ¬ (isDocumentName name = true ∧ name ∈ chain)) (read : files.read name = .ok text)
      (accepted : isDocumentName name = true ∨ ∃ script, host name text = .ok script)
      (isResolved : source.isResolved = true) : Outcome files host chain name (.ok source)

theorem outcome_loadScript (hscript : isDocumentName name = false) :
    Outcome files host chain name ((loadScript files host name).map .script) := by
  have hnew : ¬ (isDocumentName name = true ∧ name ∈ chain) := by simp [hscript]
  rw [loadScript]
  cases hread : files.read name with
  | error cause => exact .unreadable hnew hread
  | ok text =>
    cases hcompile : host name text with
    | error e =>
      simp only [hcompile]
      exact .rejected hscript hread hcompile
    | ok script =>
      simp only [hcompile]
      exact .resolved hnew hread (.inr ⟨script, hcompile⟩) rfl

theorem outcome_openDrawing (hdocument : isDocumentName name = true) :
    Outcome files host chain name ((openDrawing files host chain name).map .circuit) := by
  by_cases hmem : name ∈ chain
  · rw [openDrawing_of_mem hmem]
    exact .cycle hdocument hmem
  · have hnew : ¬ (isDocumentName name = true ∧ name ∈ chain) := fun h => hmem h.2
    cases hread : files.read name with
    | error cause =>
      rw [openDrawing_of_error hmem hread]
      exact .unreadable hnew hread
    | ok text =>
      rw [openDrawing_of_ok hmem hread]
      exact .resolved hnew hread (.inl hdocument) rfl

theorem outcome_resolvePart (files : FileSource) (host : ScriptHost) (chain : List String)
    (name : String) : Outcome files host chain name (resolvePart files host chain name) := by
  rw [resolvePart, loadPart]
  split
  case isTrue h => exact outcome_openDrawing h
  case isFalse h => exact outcome_loadScript (by simpa using h)

/-- What is recorded of the part `name` of a document that was opened through `chain`. -/
structure Recorded (files : FileSource) (host : ScriptHost) (chain : List String) (name : String)
    (source : Source Drawing) : Prop where
  /-- A cycle is reported exactly for a document on the chain. -/
  cycle : source = .unresolved (LoadError.cycle name).message ↔
    isDocumentName name = true ∧ name ∈ chain
  unreadable : ∀ cause, source = .unresolved (LoadError.io name cause).message ↔
    ¬ (isDocumentName name = true ∧ name ∈ chain) ∧
      ∃ kind, files.read name = .error ⟨kind, cause.text⟩
  rejected : ∀ e, source = .unresolved (LoadError.script e).message ↔
    isDocumentName name = false ∧
      ∃ text e', files.read name = .ok text ∧ host name text = .error e' ∧ e'.message = e.message
  resolved : source.isResolved = true ↔
    ¬ (isDocumentName name = true ∧ name ∈ chain) ∧
      ∃ text, files.read name = .ok text ∧
        (isDocumentName name = true ∨ ∃ script, host name text = .ok script)
  /-- A part that does not lead back to the chain is what a new loader finds. -/
  fresh : (∀ a, Reaches files name a → isDocumentName a = true → a ∉ chain) →
    ∃ result l, (∀ depth > files.names.length,
      serve files host depth (.resolve name) {} = some (.resolved result, l)) ∧
      source = .ofLoaded result

/-- A script that the host rejects is not accepted as a document either. -/
theorem not_accepted_of_rejected {text : String} {e : ScriptError}
    (hscript : isDocumentName name = false) (hcompile : host name text = .error e) :
    ¬ (isDocumentName name = true ∨ ∃ script, host name text = .ok script) := by
  rintro (hdocument | ⟨script, hok⟩)
  · rw [hscript] at hdocument
    cases hdocument
  · rw [hcompile] at hok
    cases hok

/-- What an unreadable file is recorded with tells the text of its error. -/
theorem ofLoaded_io_eq_iff {cause : IoError} (hread : files.read name = .error cause)
    (cause' : IoError) : Source.ofLoaded (.error (.io name cause)) =
      (.unresolved (LoadError.io name cause').message : Source Drawing) ↔
        ∃ kind, files.read name = .error ⟨kind, cause'.text⟩ := by
  rw [hread, Source.ofLoaded, Source.unresolved.injEq, message_io_eq_iff]
  constructor
  · intro h
    exact ⟨cause.kind, by rw [← h]⟩
  · rintro ⟨kind, h⟩
    rw [Except.error.inj h]

/-- What a rejected script is recorded with tells the message of the host. -/
theorem ofLoaded_script_eq_iff {text : String} {e : ScriptError} (hread : files.read name = .ok text)
    (hcompile : host name text = .error e) (e' : ScriptError) : Source.ofLoaded (.error (.script e)) =
      (.unresolved (LoadError.script e').message : Source Drawing) ↔
        ∃ text e₀, files.read name = .ok text ∧ host name text = .error e₀ ∧
          e₀.message = e'.message := by
  rw [Source.ofLoaded, Source.unresolved.injEq]
  constructor
  · exact fun h => ⟨text, e, hread, hcompile, h⟩
  · rintro ⟨text', e₀, hread', hcompile', h⟩
    obtain rfl := Except.ok.inj (hread.symm.trans hread')
    obtain rfl := Except.error.inj (hcompile.symm.trans hcompile')
    exact h

theorem recorded_resolvePart (files : FileSource) (host : ScriptHost) (chain : List String)
    (name : String) :
    Recorded files host chain name (.ofLoaded (resolvePart files host chain name)) := by
  have hfresh : (∀ a, Reaches files name a → isDocumentName a = true → a ∉ chain) →
      ∃ result l, (∀ depth > files.names.length,
        serve files host depth (.resolve name) {} = some (.resolved result, l)) ∧
        Source.ofLoaded (resolvePart files host chain name) = .ofLoaded result := by
    intro hfree
    refine ⟨_, _, fun depth h => serve_apply h (.resolve name) {}, ?_⟩
    rw [← resolvePart_congr [] chain fun hdocument => openDrawing_append chain [] name hdocument hfree]
    rfl
  have houtcome := outcome_resolvePart files host chain name
  generalize resolvePart files host chain name = result at houtcome hfresh
  cases houtcome with
  | cycle hdocument hmem =>
    have hcycle := And.intro hdocument hmem
    exact {
      cycle := iff_of_true rfl hcycle
      unreadable := fun _ => iff_of_false (ofLoaded_ne initial_cycle_ne_io) fun h => h.1 hcycle
      rejected := fun _ => iff_of_false (ofLoaded_ne initial_cycle_ne_script)
        fun h => nomatch hdocument.symm.trans h.1
      resolved := iff_of_false nofun fun h => h.1 hcycle
      fresh := hfresh }
  | @unreadable cause hnew hread =>
    exact {
      cycle := iff_of_false (ofLoaded_ne initial_cycle_ne_io.symm) hnew
      unreadable := fun cause' => by rw [ofLoaded_io_eq_iff hread, and_iff_right hnew]
      rejected := fun _ => iff_of_false (ofLoaded_ne initial_io_ne_script)
        fun ⟨_, _, _, h, _⟩ => nomatch hread.symm.trans h
      resolved := iff_of_false nofun fun ⟨_, _, h, _⟩ => nomatch hread.symm.trans h
      fresh := hfresh }
  | @rejected text e hscript hread hcompile =>
    have hnew : ¬ (isDocumentName name = true ∧ name ∈ chain) := fun h =>
      nomatch hscript.symm.trans h.1
    exact {
      cycle := iff_of_false (ofLoaded_ne initial_cycle_ne_script.symm) hnew
      unreadable := fun _ => iff_of_false (ofLoaded_ne initial_io_ne_script.symm)
        fun ⟨_, _, h⟩ => nomatch hread.symm.trans h
      rejected := fun e' => by rw [ofLoaded_script_eq_iff hread hcompile, and_iff_right hscript]
      resolved := iff_of_false nofun fun ⟨_, text', hread', haccepted⟩ => by
        obtain rfl := Except.ok.inj (hread.symm.trans hread')
        exact not_accepted_of_rejected hscript hcompile haccepted
      fresh := hfresh }
  | @resolved text source hnew hread haccepted hresolved =>
    have hsource : ∀ reason, source ≠ .unresolved reason := fun reason h => by
      rw [h] at hresolved
      cases hresolved
    exact {
      cycle := iff_of_false (hsource _) hnew
      unreadable := fun _ => iff_of_false (hsource _) fun ⟨_, _, h⟩ => nomatch hread.symm.trans h
      rejected := fun _ => iff_of_false (hsource _) fun ⟨hscript, text', e, hread', hcompile, _⟩ => by
        obtain rfl := Except.ok.inj (hread.symm.trans hread')
        exact not_accepted_of_rejected hscript hcompile haccepted
      resolved := iff_of_true hresolved ⟨hnew, text, hread, haccepted⟩
      fresh := hfresh }

/-- The drawing of the document that is opened is among the drawings that are made. -/
theorem mem_drawings_of_openDrawing {d : Drawing} (h : openDrawing files host chain name = .ok d) :
    (name :: chain, d) ∈ drawings files host chain name := by
  by_cases hmem : name ∈ chain
  · rw [openDrawing_of_mem hmem] at h
    cases h
  · cases hread : files.read name with
    | error cause =>
      rw [openDrawing_of_error hmem hread] at h
      cases h
    | ok text =>
      rw [openDrawing_of_ok hmem hread] at h
      rw [drawings_of_ok hmem hread, Except.ok.inj h]
      exact List.mem_append_right _ (List.mem_singleton.2 rfl)

/-- What the parts of a document make is made when the document is opened. -/
theorem mem_drawings_of_part {text part : String} (hnew : name ∉ chain)
    (hread : files.read name = .ok text) (hpart : part ∈ (Document.parse text).numberedNames)
    (hdocument : isDocumentName part = true) {e : List String × Drawing}
    (he : e ∈ drawings files host (name :: chain) part) : e ∈ drawings files host chain name := by
  rw [← Document.customCodes_names] at hpart
  obtain ⟨code, hcode, rfl⟩ := List.mem_map.1 hpart
  rw [drawings_of_ok hnew hread, List.mem_append, documentDrawings, List.mem_flatMap]
  exact .inl ⟨code, hcode, by rwa [partDrawings, if_pos hdocument]⟩

theorem registry_loadDocument (chain : List String) (name : String) (d : Document) :
    (loadDocument files host chain name d).registry =
      (Drawing.registerAll (fun part => .ofLoaded (resolvePart files host chain part))
        d.customCodes).1 := rfl

/-- The drawings inside a drawing are made with it, one document deeper. -/
theorem mem_drawings_of_source (chain : List String) (name : String) :
    ∀ e ∈ drawings files host chain name, ∀ entry ∈ e.2.registry.entries, ∀ d,
      entry.source = .circuit d → (entry.name :: e.1, d) ∈ drawings files host chain name := by
  refine drawings_induction (P := fun chain name e => ∀ entry ∈ e.2.registry.entries, ∀ d,
    entry.source = .circuit d → (entry.name :: e.1, d) ∈ drawings files host chain name)
    ?_ ?_ chain name
  · intro chain name text hnew hread entry hentry d hd
    rw [registry_loadDocument] at hentry
    rw [Drawing.source_of_mem_registerAll _ _ entry hentry] at hd
    obtain ⟨hdocument, hopen⟩ := openDrawing_of_ofLoaded hd
    have hpart : entry.name ∈ (Document.parse text).numberedNames := by
      rw [← Document.customCodes_names]
      exact Drawing.mem_names_registerAll.1 (List.mem_map_of_mem hentry)
    exact mem_drawings_of_part hnew hread hpart hdocument (mem_drawings_of_openDrawing hopen)
  · intro chain name text part e hnew hread hpart hdocument ih entry hentry d hd
    exact mem_drawings_of_part hnew hread hpart hdocument (ih entry hentry d hd)

/-- A drawing has an entry for each part that its document, the innermost of the chain, names. -/
def RecordsParts (files : FileSource) (host : ScriptHost) (e : List String × Drawing) : Prop :=
  ∃ document rest text, e.1 = document :: rest ∧ files.read document = .ok text ∧
    ∀ part ∈ (Document.parse text).numberedNames, ∃ code source,
      e.2.registry.codeOf? part = some code ∧ e.2.registry.lookup? code = some ⟨part, source⟩ ∧
        Recorded files host e.1 part source

theorem recordsParts_of_mem_drawings (chain : List String) (name : String) :
    ∀ e ∈ drawings files host chain name, RecordsParts files host e := by
  refine drawings_induction (P := fun _ _ => RecordsParts files host) ?_ ?_ chain name
  · intro chain name text hnew hread
    refine ⟨name, chain, text, rfl, hread, fun part hpart => ?_⟩
    rw [← Document.customCodes_names] at hpart
    obtain ⟨code, hcode, hlookup⟩ := Drawing.lookup?_registerAll
      (fun part => .ofLoaded (resolvePart files host (name :: chain) part)) hpart
    rw [registry_loadDocument]
    exact ⟨code, _, hcode, hlookup, recorded_resolvePart files host (name :: chain) part⟩
  · exact fun _ _ _ _ _ _ _ _ _ h => h

/-- Every drawing that is made while a document is opened comes with a chain of documents, from the
one that is opened down to the one that the drawing is made of; each part that this document names is
recorded in the drawing by what the chain, the files and the script host say of it. The drawing of the
opened document and the drawings inside each drawing are among them. -/
theorem openDocument_records (files : FileSource) (host : ScriptHost) (root : String)
    (before : List (List String × Drawing)) : ∃ result made,
      (∀ depth > files.names.length, openDocument files host depth root ⟨[], before⟩ =
        some (result, ⟨[], before ++ made⟩)) ∧
      (∀ d, result = .ok d → ([root], d) ∈ made) ∧
      ∀ e ∈ made, Nested files [] root e.1 ∧
        (∀ entry ∈ e.2.registry.entries, ∀ d, entry.source = .circuit d →
          (entry.name :: e.1, d) ∈ made) ∧
        RecordsParts files host e := by
  refine ⟨_, _, fun depth h => opensBy_of_lt h [] root ⟨[], before⟩ rfl, ?_,
    fun e he => ⟨?_, ?_, ?_⟩⟩
  · exact fun d hd => mem_drawings_of_openDrawing hd
  · obtain ⟨inner, hinner, hnested⟩ := nested_of_mem_drawings [] root e he
    rwa [hinner, List.append_nil]
  · exact mem_drawings_of_source [] root e he
  · exact recordsParts_of_mem_drawings [] root e he

end Loader

/-- A document of one cell with these components. -/
def sampleText (components : String) : String :=
  "\x7b\"width\":1,\"height\":1,\"components\":\x7b" ++ components ++ "\x7d\x7d"

/-- A document with two parts that share a third one; the left part also names the document itself. -/
def sampleShelf : MemoryFiles :=
  (((({} : MemoryFiles).write "base.json" (sampleText "")).write "left.json"
    (sampleText "\"15\":\"base.json\",\"16\":\"top.json\"")).write "right.json"
    (sampleText "\"15\":\"base.json\"")).write "top.json"
    (sampleText "\"15\":\"left.json\",\"16\":\"right.json\"")

/-- What is recorded in a drawing: for each part its name and why it is missing, if it is. -/
def Drawing.recorded (d : Drawing) : List (String × Option String) :=
  d.registry.entries.map fun e => (e.name, match e.source with
    | .unresolved reason => some reason
    | _ => none)

theorem Loader.sampleShelf_records : ∃ result made,
    openDocument sampleShelf.source ScriptHost.none 5 "top.json" ⟨[], []⟩ =
      some (result, ⟨[], made⟩) ∧
    made.map (fun e => (e.1, e.2.recorded)) =
      [(["base.json", "left.json", "top.json"], []),
        (["left.json", "top.json"],
          [("base.json", none), ("top.json", some "`top.json` includes itself")]),
        (["base.json", "right.json", "top.json"], []),
        (["right.json", "top.json"], [("base.json", none)]),
        (["top.json"], [("left.json", none), ("right.json", none)])] ∧
    ∀ e ∈ made, RecordsParts sampleShelf.source ScriptHost.none e := by
  have hmade : (openDocument sampleShelf.source ScriptHost.none 5 "top.json" ⟨[], []⟩).map
      (fun e => e.2.made.map fun e => (e.1, e.2.recorded)) =
        some [(["base.json", "left.json", "top.json"], []),
          (["left.json", "top.json"],
            [("base.json", none), ("top.json", some "`top.json` includes itself")]),
          (["base.json", "right.json", "top.json"], []),
          (["right.json", "top.json"], [("base.json", none)]),
          (["top.json"], [("left.json", none), ("right.json", none)])] := by decide +kernel
  obtain ⟨result, made, hopen, -, hrecords⟩ :=
    openDocument_records sampleShelf.source ScriptHost.none "top.json" []
  have hfive := hopen 5 (by decide +kernel)
  rw [hfive] at hmade
  exact ⟨result, made, hfive, Option.some.inj hmade, fun e he => (hrecords e he).2.2⟩

end GridCircuit
