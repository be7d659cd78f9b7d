import GridCircuit.Proofs.SaveOpen
import GridCircuit.Proofs.Upgrades

/-!
# Histories of registries

Fields are made, copied from each other and pasted into each other, and parts are registered and loaded
into their registries, in any order. Which fields share a registry does not matter: through all of it a
code that was given to a name means that name, and a source that was found stays.
-/

namespace GridCircuit

namespace Drawing

/-- No registry of the drawing or of a drawing in it has a name twice. -/
inductive Distinct : Drawing → Prop
  | intro {name : String} {grid : Grid} {entries : List (Entry Drawing)}
      (names : (Registry.mk entries).names.Nodup)
      (inner : ∀ e ∈ entries, ∀ d, e.source = .circuit d → Distinct d) :
      Distinct ⟨name, grid, ⟨entries⟩⟩

theorem registerAll_induction {source : String → Source Drawing} {P : Registry Drawing → Prop}
    (hempty : P {}) (hstep : ∀ r part, P r → P (r.register part (source part)).1)
    (codes : List (Nat × String)) : P (registerAll source codes).1 := by
  induction codes using List.reverseRecOn with
  | nil => exact hempty
  | append_singleton codes e ih =>
    rw [registerAll_snoc]
    exact hstep _ e.2 ih

theorem nodup_names_registerAll (source : String → Source Drawing) (codes : List (Nat × String)) :
    (registerAll source codes).1.names.Nodup :=
  registerAll_induction (P := fun r => r.names.Nodup) List.nodup_nil
    (fun r part hr => r.nodup_names_register hr part _) codes

/-- A document gives a name to one part only. -/
theorem distinct_ofDocument {source : String → Source Drawing}
    (h : ∀ part d, source part = .circuit d → d.Distinct) (name : String) (doc : Document) :
    (ofDocument source name doc).Distinct := by
  have hnames := nodup_names_registerAll source doc.customCodes
  have hall : (registerAll source doc.customCodes).1.All fun s => ∀ d, s = .circuit d → d.Distinct :=
    registerAll_induction nofun (fun r part hr => hr.register (h part) part) doc.customCodes
  exact .intro hnames hall

end Drawing

section Loading

variable {files : FileSource} {host : ScriptHost} {chain : List String} {name : String}

theorem loadPart_cases {openDocument : String → Except LoadError Drawing} {source : Source Drawing}
    (h : loadPart files host openDocument name = .ok source) :
    (∃ script, source = .script script) ∨
      isDocumentName name = true ∧ ∃ d, openDocument name = .ok d ∧ source = .circuit d := by
  rw [loadPart] at h
  split at h
  case isTrue hdocument =>
    cases hopen : openDocument name with
    | error e => rw [hopen] at h; cases h
    | ok d => rw [hopen] at h; cases h; exact .inr ⟨hdocument, d, rfl, rfl⟩
  case isFalse =>
    cases hload : loadScript files host name with
    | error e => rw [hload] at h; cases h
    | ok script => rw [hload] at h; cases h; exact .inl ⟨script, rfl⟩

/-- A part that became a drawing is a document that could be opened. -/
theorem openDrawing_of_ofLoaded {d : Drawing}
    (h : Source.ofLoaded (resolvePart files host chain name) = .circuit d) :
    isDocumentName name = true ∧ openDrawing files host chain name = .ok d := by
  cases hpart : resolvePart files host chain name with
  | error e => rw [hpart] at h; cases h
  | ok source =>
    rw [hpart] at h
    obtain rfl : source = .circuit d := h
    obtain ⟨script, hscript⟩ | ⟨hdocument, d', hopen, hd⟩ := loadPart_cases hpart
    · cases hscript
    · cases hd
      exact ⟨hdocument, hopen⟩

theorem distinct_openDrawing (files : FileSource) (host : ScriptHost) (chain : List String)
    (name : String) : ∀ d, openDrawing files host chain name = .ok d → d.Distinct := by
  induction chain, name using openDrawing.induct files host with
  | case1 chain name hmem =>
    intro d hd
    rw [openDrawing_of_mem hmem] at hd
    cases hd
  | case2 chain name hmem cause hread =>
    intro d hd
    rw [openDrawing_of_error hmem hread] at hd
    cases hd
  | case3 chain name hmem text hread ih =>
    intro d hd
    rw [openDrawing_of_ok hmem hread] at hd
    obtain rfl := Except.ok.inj hd
    refine Drawing.distinct_ofDocument (fun part inner hinner => ?_) name _
    obtain ⟨-, hopen⟩ := openDrawing_of_ofLoaded hinner
    exact ih part inner hopen

/-- A part that is loaded is no mere name. -/
theorem resolvePart_cases {source : Source Drawing}
    (h : resolvePart files host chain name = .ok source) :
    source.isResolved = true ∧ ∀ d, source = .circuit d → d.Distinct := by
  obtain ⟨script, rfl⟩ | ⟨-, d, hopen, rfl⟩ := loadPart_cases h
  · exact ⟨rfl, nofun⟩
  · refine ⟨rfl, ?_⟩
    rintro _ ⟨⟩
    exact distinct_openDrawing files host chain name d hopen

end Loading

namespace Drawing

variable {rs : Registries}

/-- What opening a drawing, or entries or sources with drawings in them, does to the registries. -/
structure Opens (rs rs' : Registries) (P : Prop) : Prop where
  sound : rs'.Sound
  within : rs.Within rs'
  result : P

theorem opens_source {source : Source Drawing} (hs : rs.Sound)
    (h : ∀ d, source = .circuit d → ∀ rs : Registries, rs.Sound →
      Opens rs (install rs d).1 ((install rs d).1.Has (install rs d).2.registry)) :
    Opens rs (installSource rs source).1
      ((installSource rs source).1.Holds (installSource rs source).2) := by
  cases source with
  | script script =>
    rw [installSource]
    exact ⟨hs, .refl rs, trivial⟩
  | circuit d =>
    rw [installSource]
    exact h d rfl rs hs
  | unresolved reason =>
    rw [installSource]
    exact ⟨hs, .refl rs, trivial⟩

theorem opens_entries {entries : List (Entry Drawing)} (hs : rs.Sound)
    (h : ∀ e ∈ entries, ∀ d, e.source = .circuit d → ∀ rs : Registries, rs.Sound →
      Opens rs (install rs d).1 ((install rs d).1.Has (install rs d).2.registry)) :
    Opens rs (installEntries rs entries).1
      ((Registry.mk (installEntries rs entries).2).All (installEntries rs entries).1.Holds) := by
  induction entries generalizing rs with
  | nil =>
    rw [installEntries]
    refine ⟨hs, .refl rs, fun e he => ?_⟩
    cases he
  | cons e entries ih =>
    obtain ⟨name, source⟩ := e
    obtain ⟨hs', hwithin, hsource⟩ := opens_source hs (h _ List.mem_cons_self)
    obtain ⟨hs'', hwithin', hentries⟩ := ih hs' fun e he => h e (List.mem_cons_of_mem _ he)
    rw [installEntries]
    refine ⟨hs'', hwithin.trans hwithin', fun e he => ?_⟩
    obtain rfl | he := List.mem_cons.1 he
    · exact hsource.mono fun id hid => (hwithin' id hid).1
    · exact hentries e he

/-- Opening a drawing adds registries for it and the drawings in it. -/
theorem opens_install {d : Drawing} (hd : d.Distinct) : ∀ rs : Registries, rs.Sound →
    Opens rs (install rs d).1 ((install rs d).1.Has (install rs d).2.registry) := by
  induction hd with
  | intro names inner ih =>
    rename_i name grid entries
    intro rs hs
    obtain ⟨hs', hwithin, hall⟩ := opens_entries hs ih
    have hnames : (Registry.mk (installEntries rs entries).2).names.Nodup := by
      rw [Registry.names, installEntries_names]
      exact names
    obtain ⟨hs'', hwithin'⟩ := hs'.add hnames hall
    rw [install]
    exact ⟨hs'', hwithin.trans hwithin', Registries.has_add.2 (.inr rfl)⟩

theorem isResolved_installSource (rs : Registries) (source : Source Drawing) :
    (installSource rs source).2.isResolved = source.isResolved := by
  cases source <;> rw [installSource] <;> rfl

end Drawing

namespace Field

variable {rs rs' : Registries} {f f' : Field} {files : FileSource} {host : ScriptHost}
  {name : String} {c : Code}

theorem opens_openDocument (hs : rs.Sound)
    (h : openDocument files host rs name = .ok (rs', f')) :
    rs'.Sound ∧ rs.Within rs' ∧ rs'.Has f'.registry := by
  rw [openDocument] at h
  cases hopen : openDrawing files host [] name with
  | error e => rw [hopen] at h; cases h
  | ok d =>
    rw [hopen] at h
    have hinstall : Drawing.install rs d = (rs', f') := Except.ok.inj h
    obtain ⟨hs', hwithin, hhas⟩ :=
      Drawing.opens_install (distinct_openDrawing files host [] name d hopen) rs hs
    rw [hinstall] at hs' hwithin hhas
    exact ⟨hs', hwithin, hhas⟩

/-- What a load does to the registries: the part has the code and is resolved, and all other entries
that were there are as they were. -/
structure Loads (rs : Registries) (f : Field) (name : String) (rs' : Registries) (c : Code) : Prop where
  code : (rs'.get f.registry).codeOf? name = some c
  resolved : ∃ e, (rs'.get f.registry).lookup? c = some e ∧ e.name = name ∧
    e.source.isResolved = true
  others : ∀ id c', rs.Has id → id ≠ f.registry ∨ c' ≠ c →
    (rs'.get id).lookup? c' = (rs.get id).lookup? c'

theorem loads_of_loadComponent (hs : rs.Sound) (hf : rs.Has f.registry)
    (h : loadComponent files host rs f name = .ok (rs', c)) :
    rs'.Sound ∧ rs.Evolves rs' ∧ Loads rs f name rs' c := by
  rw [loadComponent] at h
  split at h
  case h_1 known hknown =>
    obtain ⟨rfl, rfl⟩ := Prod.mk.inj (Except.ok.inj h)
    obtain ⟨hcode, hresolved⟩ := Option.filter_eq_some_iff.1 hknown
    obtain ⟨e, he, hresolved⟩ := (Option.any_eq_true _ _).1 hresolved
    obtain ⟨d, hd, hname⟩ := (Registry.codeOf?_eq_some_iff (hs.distinct _)).1 hcode
    obtain rfl := Option.some.inj (he.symm.trans hd)
    exact ⟨hs, .refl rs, hcode, ⟨e, he, hname, hresolved⟩, fun _ _ _ _ => rfl⟩
  case h_2 =>
    cases hpart : resolvePart files host [] name with
    | error e => rw [hpart] at h; cases h
    | ok source =>
      rw [hpart] at h
      obtain ⟨hresolved, hdistinct⟩ := resolvePart_cases hpart
      obtain ⟨hs₁, hwithin, hholds⟩ := Drawing.opens_source hs fun d hd rs hrs =>
        Drawing.opens_install (hdistinct d hd) rs hrs
      have hsource := Drawing.isResolved_installSource rs source
      rw [hresolved] at hsource
      have hregister : (Drawing.installSource rs source).1.register f.registry name
          (Drawing.installSource rs source).2 = (rs', c) := Except.ok.inj h
      generalize Drawing.installSource rs source = installed at hregister hs₁ hwithin hholds hsource
      obtain ⟨rs₁, part⟩ := installed
      obtain ⟨hf₁, hget⟩ := hwithin f.registry hf
      obtain ⟨hs', hevolves⟩ := hs₁.register hf₁ name hholds
      obtain ⟨hrs', rfl⟩ := Prod.mk.inj hregister
      rw [hregister] at hs' hevolves
      have hput : rs'.get f.registry = ((rs₁.get f.registry).register name part).1 := by
        rw [← hrs']
        exact Registries.get_put hf₁ _
      refine ⟨hs', hwithin.evolves.trans hevolves, ?_, ?_, fun id c' hid hne => ?_⟩
      · rw [hput]
        exact Registry.codeOf?_register _ name part
      · rw [hput]
        obtain ⟨e, he, hname, hpart⟩ := Registry.lookup?_register (rs₁.get f.registry) name part
        exact ⟨e, he, hname, hpart hsource⟩
      · by_cases he : id = f.registry
        · subst he
          rw [hput, Registry.lookup?_register_of_ne (hne.resolve_left fun h => h rfl), hget]
        · rw [← hrs', ← (hwithin id hid).2]
          exact congrArg (·.lookup? c') (Registries.get_put_of_ne he _)

theorem evolves_paste (hs : rs.Sound) (hf : rs.Has f.registry) (src : Field) (corner : Pos) :
    (f.paste rs src corner).1.Sound ∧ rs.Evolves (f.paste rs src corner).1 := by
  rw [paste]
  split
  · exact ⟨hs, .refl rs⟩
  · exact hs.put hf (Registry.keeps_absorb _ _)
      (Registry.nodup_names_absorb (hs.distinct _) (hs.distinct _))
      ((hs.closed _).absorb (hs.closed _))

theorem registry_paste (rs : Registries) (f src : Field) (corner : Pos) :
    (f.paste rs src corner).2.registry = f.registry := by
  rw [paste]
  split <;> rfl

end Field

/-- Fields and the registries that they share. -/
structure Workspace where
  registries : Registries := {}
  fields : List Field := []

/-- What can be done in a workspace. Fields are named by their numbers. -/
inductive Operation where
  /-- Start an empty field with a registry of its own. -/
  | create (name : String) (width height : Nat)
  | openDocument (files : FileSource) (host : ScriptHost) (name : String)
  /-- Change the cells of a field. -/
  | draw (field : Nat) (grid : Grid)
  /-- Take the drawing behind a code as a field. -/
  | extract (field : Nat) (c : Code)
  /-- Register a part; a part that is a drawing is a field as it is now. -/
  | register (field : Nat) (name : String) (source : Source Nat)
  | load (field : Nat) (files : FileSource) (host : ScriptHost) (name : String)
  | copy (field : Nat) (r : Rect)
  | cut (field : Nat) (r : Rect)
  | paste (field src : Nat) (corner : Pos)

/-- What an operation gives back. -/
inductive Answer where
  | done
  | code (c : Code)
  | error (e : LoadError)

namespace Workspace

def source? (w : Workspace) : Source Nat → Option (Source Field)
  | .script script => some (.script script)
  | .circuit field => w.fields[field]?.map .circuit
  | .unresolved reason => some (.unresolved reason)

/-- Do something; none if there is no such field, or no drawing behind the code. -/
def perform? (w : Workspace) : Operation → Option (Workspace × Answer)
  | .create name width height =>
    let (rs, id) := w.registries.add {}
    some (⟨rs, w.fields ++ [⟨name, .blank width height, id⟩]⟩, .done)
  | .openDocument files host name =>
    match Field.openDocument files host w.registries name with
    | .ok (rs, f) => some (⟨rs, w.fields ++ [f]⟩, .done)
    | .error e => some (w, .error e)
  | .draw i grid =>
    w.fields[i]?.map fun f => ({ w with fields := w.fields.set i { f with grid } }, .done)
  | .extract i c =>
    (w.fields[i]?.bind fun f => (w.registries.get f.registry).lookup? c).bind fun e =>
      match e.source with
      | .circuit inner => some ({ w with fields := w.fields ++ [inner] }, .done)
      | .script _ | .unresolved _ => none
  | .register i name source =>
    w.fields[i]?.bind fun f => (w.source? source).map fun source =>
      let (rs, c) := w.registries.register f.registry name source
      ({ w with registries := rs }, .code c)
  | .load i files host name =>
    w.fields[i]?.map fun f =>
      match f.loadComponent files host w.registries name with
      | .ok (rs, c) => ({ w with registries := rs }, .code c)
      | .error e => (w, .error e)
  | .copy i r => w.fields[i]?.map fun f => ({ w with fields := w.fields ++ [f.copy r] }, .done)
  | .cut i r =>
    w.fields[i]?.map fun f =>
      let (part, rest) := f.cut r
      ({ w with fields := w.fields.set i rest ++ [part] }, .done)
  | .paste i j corner =>
    w.fields[i]?.bind fun f => w.fields[j]?.map fun src =>
      let (rs, f) := f.paste w.registries src corner
      (⟨rs, w.fields.set i f⟩, .done)

def run? (w : Workspace) : List Operation → Option Workspace
  | [] => some w
  | op :: ops => (w.perform? op).bind fun (w, _) => run? w ops

variable {w w' : Workspace} {op : Operation} {answer : Answer}

/-- The registries are sound, and every field has one of them. -/
structure Sound (w : Workspace) : Prop where
  registries : w.registries.Sound
  fields : ∀ f ∈ w.fields, w.registries.Has f.registry

theorem Sound.field (h : w.Sound) {i : Nat} {f : Field} (hf : w.fields[i]? = some f) :
    w.registries.Has f.registry :=
  h.fields f (List.mem_of_getElem? hf)

theorem Sound.source (h : w.Sound) {part : Source Nat} {source : Source Field}
    (hs : w.source? part = some source) : w.registries.Holds source := by
  cases part with
  | script script => cases hs; trivial
  | unresolved reason => cases hs; trivial
  | circuit i =>
    obtain ⟨f, hf, rfl⟩ := Option.map_eq_some_iff.1 hs
    exact h.field hf

/-- Registries evolve, and further fields have some of them. -/
theorem Sound.grow (h : w.Sound) {rs : Registries} (hs : rs.Sound) (he : w.registries.Evolves rs)
    {fields : List Field} (hf : ∀ f ∈ fields, f ∈ w.fields ∨ rs.Has f.registry) :
    Sound ⟨rs, fields⟩ ∧ w.registries.Evolves rs := by
  refine ⟨⟨hs, fun f hmem => ?_⟩, he⟩
  obtain hold | hnew := hf f hmem
  · exact he.has _ (h.fields f hold)
  · exact hnew

theorem mem_snoc {fields : List Field} {g : Field} {P : Field → Prop} (hg : P g) :
    ∀ f ∈ fields ++ [g], f ∈ fields ∨ P f := by
  intro f hf
  obtain hf | hf := List.mem_append.1 hf
  · exact .inl hf
  · rw [List.mem_singleton.1 hf]
    exact .inr hg

theorem mem_set {fields : List Field} {i : Nat} {g : Field} {P : Field → Prop} (hg : P g) :
    ∀ f ∈ fields.set i g, f ∈ fields ∨ P f := by
  intro f hf
  obtain hf | rfl := List.mem_or_eq_of_mem_set hf
  · exact .inl hf
  · exact .inr hg

/-- Whatever is done, registries evolve. -/
theorem Sound.perform? (h : w.Sound) (hop : w.perform? op = some (w', answer)) :
    w'.Sound ∧ w.registries.Evolves w'.registries := by
  cases op with
  | create name width height =>
    cases hop
    obtain ⟨hs, hwithin⟩ := h.registries.add (r := {}) List.nodup_nil nofun
    exact h.grow hs hwithin.evolves (mem_snoc (Registries.has_add.2 (.inr rfl)))
  | openDocument files host name =>
    rw [Workspace.perform?] at hop
    split at hop
    case h_1 rs f hopen =>
      cases hop
      obtain ⟨hs, hwithin, hhas⟩ := Field.opens_openDocument h.registries hopen
      exact h.grow hs hwithin.evolves (mem_snoc hhas)
    case h_2 =>
      cases hop
      exact ⟨h, .refl _⟩
  | draw i grid =>
    obtain ⟨f, hf, hop⟩ := Option.map_eq_some_iff.1 hop
    cases hop
    have hreg := h.field hf
    exact h.grow h.registries (.refl _) (mem_set hreg)
  | extract i c =>
    obtain ⟨e, he, hop⟩ := Option.bind_eq_some_iff.1 hop
    obtain ⟨f, hf, he⟩ := Option.bind_eq_some_iff.1 he
    obtain ⟨n, -, hn⟩ := Registry.lookup?_eq_some_iff.1 he
    have hholds := h.registries.closed _ e (List.mem_of_getElem? hn)
    split at hop
    case h_1 inner hinner =>
      cases hop
      rw [hinner] at hholds
      exact h.grow h.registries (.refl _) (mem_snoc hholds)
    case h_2 => cases hop
    case h_3 => cases hop
  | register i name source =>
    obtain ⟨f, hf, hop⟩ := Option.bind_eq_some_iff.1 hop
    obtain ⟨part, hpart, hop⟩ := Option.map_eq_some_iff.1 hop
    cases hop
    obtain ⟨hs, he⟩ := h.registries.register (h.field hf) name (h.source hpart)
    exact h.grow hs he fun f hf => .inl hf
  | load i files host name =>
    obtain ⟨f, hf, hop⟩ := Option.map_eq_some_iff.1 hop
    split at hop
    case h_1 rs c hload =>
      cases hop
      obtain ⟨hs, he, -⟩ := Field.loads_of_loadComponent h.registries (h.field hf) hload
      exact h.grow hs he fun f hf => .inl hf
    case h_2 =>
      cases hop
      exact ⟨h, .refl _⟩
  | copy i r =>
    obtain ⟨f, hf, hop⟩ := Option.map_eq_some_iff.1 hop
    cases hop
    have hreg := h.field hf
    exact h.grow h.registries (.refl _) (mem_snoc hreg)
  | cut i r =>
    obtain ⟨f, hf, hop⟩ := Option.map_eq_some_iff.1 hop
    cases hop
    have hreg := h.field hf
    refine h.grow h.registries (.refl _) fun g hg => ?_
    obtain hg | hg := List.mem_append.1 hg
    · obtain hg | rfl := List.mem_or_eq_of_mem_set hg
      · exact .inl hg
      · exact .inr hreg
    · rw [List.mem_singleton.1 hg]
      exact .inr hreg
  | paste i j corner =>
    obtain ⟨f, hf, hop⟩ := Option.bind_eq_some_iff.1 hop
    obtain ⟨src, -, hop⟩ := Option.map_eq_some_iff.1 hop
    have hreg := h.field hf
    obtain ⟨hs, he⟩ := Field.evolves_paste h.registries hreg src corner
    rw [← Field.registry_paste w.registries f src corner] at hreg
    generalize f.paste w.registries src corner = pasted at hop hs he hreg
    cases hop
    exact h.grow hs he (mem_set (he.has _ hreg))

theorem Sound.run? {ops : List Operation} (h : w.Sound) (hops : w.run? ops = some w') :
    w'.Sound ∧ w.registries.Evolves w'.registries := by
  induction ops generalizing w with
  | nil =>
    obtain rfl := Option.some.inj hops
    exact ⟨h, .refl _⟩
  | cons op ops ih =>
    obtain ⟨⟨u, answer⟩, hop, hops⟩ := Option.bind_eq_some_iff.1 hops
    obtain ⟨hu, he⟩ := h.perform? hop
    obtain ⟨hw, he'⟩ := ih hu hops
    exact ⟨hw, he.trans he'⟩

theorem sound_empty : Sound {} := ⟨Registries.sound_empty, nofun⟩

/-- What is the case with codes after a history, what a further one leaves of it, and what the answers
to the next operation say. -/
theorem codes_stable {past later : List Operation} {u v : Workspace}
    (hu : run? {} past = some u) (hv : u.run? later = some v) :
    (∀ id, (u.registries.get id).names.Nodup) ∧
    (∀ id n c, (u.registries.get id).codeOf? n = some c ↔
      ∃ e, (u.registries.get id).lookup? c = some e ∧ e.name = n) ∧
    (∀ id n c, (u.registries.get id).codeOf? n = some c →
      (v.registries.get id).codeOf? n = some c) ∧
    (∀ id c e, (u.registries.get id).lookup? c = some e →
      ∃ e', (v.registries.get id).lookup? c = some e' ∧ e'.name = e.name ∧
        (e'.source = e.source ∨ e.source.isResolved = false ∧ e'.source.isResolved = true)) ∧
    (∀ i n source w c, u.perform? (.register i n source) = some (w, .code c) →
      ∃ f, u.fields[i]? = some f ∧ (w.registries.get f.registry).codeOf? n = some c) ∧
    (∀ i files host n w c, u.perform? (.load i files host n) = some (w, .code c) →
      ∃ f, u.fields[i]? = some f ∧ Field.Loads u.registries f n w.registries c) ∧
    (∀ op w e, u.perform? op = some (w, .error e) → w = u) := by
  have hs := (sound_empty.run? hu).1
  obtain ⟨hs', he⟩ := hs.run? hv
  refine ⟨hs.registries.distinct, ?_, ?_, ?_, ?_, ?_, ?_⟩
  · exact fun id n c => Registry.codeOf?_eq_some_iff (hs.registries.distinct id)
  · exact fun id n c hc =>
      (he.keeps id).codeOf? (hs.registries.distinct id) (hs'.registries.distinct id) hc
  · exact fun id c e hc => (he.keeps id).lookup? hc
  · intro i n source w c hop
    obtain ⟨f, hf, hop⟩ := Option.bind_eq_some_iff.1 hop
    obtain ⟨part, -, hop⟩ := Option.map_eq_some_iff.1 hop
    cases hop
    refine ⟨f, hf, ?_⟩
    show ((u.registries.put f.registry _).get f.registry).codeOf? n = _
    rw [Registries.get_put (hs.field hf)]
    exact Registry.codeOf?_register _ n part
  · intro i files host n w c hop
    obtain ⟨f, hf, hop⟩ := Option.map_eq_some_iff.1 hop
    split at hop
    case h_1 rs c' hload =>
      cases hop
      exact ⟨f, hf, (Field.loads_of_loadComponent hs.registries (hs.field hf) hload).2.2⟩
    case h_2 => cases hop
  · intro op w e hop
    cases op with
    | openDocument files host name =>
      rw [Workspace.perform?] at hop
      split at hop <;> cases hop
      rfl
    | load i files host name =>
      obtain ⟨f, -, hop⟩ := Option.map_eq_some_iff.1 hop
      split at hop <;> cases hop
      rfl
    | create name width height => cases hop
    | draw i grid => obtain ⟨f, -, hop⟩ := Option.map_eq_some_iff.1 hop; cases hop
    | copy i r => obtain ⟨f, -, hop⟩ := Option.map_eq_some_iff.1 hop; cases hop
    | cut i r => obtain ⟨f, -, hop⟩ := Option.map_eq_some_iff.1 hop; cases hop
    | extract i c =>
      obtain ⟨e', -, hop⟩ := Option.bind_eq_some_iff.1 hop
      split at hop <;> cases hop
    | register i name source =>
      obtain ⟨f, -, hop⟩ := Option.bind_eq_some_iff.1 hop
      obtain ⟨part, -, hop⟩ := Option.map_eq_some_iff.1 hop
      cases hop
    | paste i j corner =>
      obtain ⟨f, -, hop⟩ := Option.bind_eq_some_iff.1 hop
      obtain ⟨src, -, hop⟩ := Option.map_eq_some_iff.1 hop
      cases hop

end Workspace

/-- A name without a part is copied and merged into another library. -/
def sampleBorrowing : List Operation :=
  [.create "here" 2 1, .create "there" 2 1, .register 1 "own" (.circuit 0),
    .register 0 "gate" (.unresolved "missing"), .copy 0 ⟨⟨0, 0⟩, ⟨1, 0⟩⟩, .paste 1 2 ⟨0, 0⟩]

/-- The part is found through the copy, and merged once more. -/
def sampleArrival : List Operation :=
  [.load 2 (MemoryFiles.write {} "gate" "").source
      (fun name _ => .ok ⟨name, .instant, fun inputs _ memory => (memory, .ok inputs)⟩) "gate",
    .paste 1 0 ⟨0, 0⟩]

theorem sampleBorrowing_stable : ∃ u v, Workspace.run? {} sampleBorrowing = some u ∧
    u.run? sampleArrival = some v ∧
    (u.registries.get ⟨1⟩).codeOf? "gate" = some (.custom 1) ∧
    (v.registries.get ⟨1⟩).codeOf? "gate" = some (.custom 1) ∧
    ∃ e e', (u.registries.get ⟨1⟩).lookup? (.custom 1) = some e ∧ e.source.isResolved = false ∧
      (v.registries.get ⟨1⟩).lookup? (.custom 1) = some e' ∧ e'.source.isResolved = true ∧
        e'.name = e.name := by
  have hrun : (Workspace.run? {} sampleBorrowing).any (fun u =>
      decide ((u.registries.get ⟨1⟩).codeOf? "gate" = some (.custom 1)) &&
        ((u.registries.get ⟨1⟩).lookup? (.custom 1)).any (!·.source.isResolved) &&
        (u.run? sampleArrival).any fun v =>
          ((v.registries.get ⟨1⟩).lookup? (.custom 1)).any (·.source.isResolved)) = true := by
    decide +kernel
  simp only [Option.any_eq_true, Bool.and_eq_true, decide_eq_true_eq, Bool.not_eq_true'] at hrun
  obtain ⟨u, hu, ⟨hcode, e, he, hbefore⟩, v, hv, e', he', hafter⟩ := hrun
  obtain ⟨-, -, hstable, hkept, -⟩ := Workspace.codes_stable hu hv
  obtain ⟨d, hd, hname, -⟩ := hkept _ _ _ he
  obtain rfl := Option.some.inj (he'.symm.trans hd)
  exact ⟨u, v, hu, hv, hcode, hstable _ _ _ hcode, e, e', he, hbefore, he', hafter, hname⟩

end GridCircuit
