import GridCircuit.Proofs.Embedded
import GridCircuit.Proofs.Renaming
import GridCircuit.Proofs.Run

/-!
# Holes

A custom code that cannot be made into a component is a hole in the drawing. The circuit is the one of
the drawing without these cells: they take no side of a connector, part no wires, and get no number.
What is reported without them is what is reported from inside the parts.
-/

namespace GridCircuit

theorem Site.eq_of_fields {s t : Site} (hpos : s.pos = t.pos) (hkind : s.kind = t.kind)
    (hwire : s.wire = t.wire) (hother : s.other = t.other) : s = t := by
  cases s
  cases t
  simp_all

theorem flatMap_filter_of_nil {α β : Type} {P : α → Bool} {F : α → List β} {xs : List α}
    (h : ∀ x ∈ xs, P x = false → F x = []) : (xs.filter P).flatMap F = xs.flatMap F := by
  induction xs with
  | nil => rfl
  | cons x xs ih =>
    have ih := ih fun y hy => h y (List.mem_cons_of_mem x hy)
    cases hx : P x with
    | true => rw [List.filter_cons_of_pos hx, List.flatMap_cons, List.flatMap_cons, ih]
    | false =>
      have hnil := h x List.mem_cons_self hx
      rw [List.filter_cons_of_neg (by simp [hx]), List.flatMap_cons, hnil, List.nil_append, ih]

namespace Grid

variable {g : Grid} {make : Code → Making} {name : String} {p : Pos} {c : Code}

/-- A custom code stays if it can be made. -/
def keepMade (make : Code → Making) (c : Code) : Code :=
  if c.isCustom && !(make c).isOk then .empty else c

/-- The drawing with empty cells for the codes that cannot be made. -/
def withoutHoles (g : Grid) (make : Code → Making) : Grid := g.map (keepMade make)

theorem get_withoutHoles (g : Grid) (make : Code → Making) (p : Pos) :
    (g.withoutHoles make).get p = keepMade make (g.get p) :=
  Plane.get_map g rfl p

/-- A code stays, unless it is custom and cannot be made. -/
theorem keepMade_cases (make : Code → Making) (c : Code) :
    keepMade make c = c ∧ (c.isCustom = false ∨ (make c).isOk = true) ∨
      keepMade make c = .empty ∧ c.isCustom = true ∧ (make c).isOk = false := by
  rw [keepMade]
  split
  case isTrue h => exact .inr ⟨rfl, by simpa using h⟩
  case isFalse h =>
    refine .inl ⟨rfl, ?_⟩
    cases hc : c.isCustom with
    | false => exact .inl rfl
    | true => exact .inr (by simpa [hc] using h)

/-- A hole is not live, and neither is an empty cell. -/
theorem live_withoutHoles (hf : Faithful make) :
    (g.withoutHoles make).Live make p ↔ g.Live make p := by
  have hpos : p ∈ (g.withoutHoles make).positions ↔ p ∈ g.positions := Iff.rfl
  rw [Live, Live, hpos, get_withoutHoles]
  obtain ⟨hkeep, -⟩ | ⟨hempty, hcustom, hbroken⟩ := keepMade_cases make (g.get p)
  · rw [hkeep]
  · have hnone : (make .empty).isOk = false := by
      by_contra hok
      cases hf.groups .empty (by simpa using hok)
    rw [hempty, hbroken, hnone]
    cases hc : g.get p <;> rw [hc] at hcustom <;> first | cases hcustom; done | simp [Code.isConnector]

theorem get_withoutHoles_of_live (h : g.Live make p) : (g.withoutHoles make).get p = g.get p := by
  rw [get_withoutHoles]
  obtain ⟨hkeep, -⟩ | ⟨-, hcustom, hbroken⟩ := keepMade_cases make (g.get p)
  · exact hkeep
  · obtain ⟨-, hc | hc | hok⟩ := h
    · cases hg : g.get p <;> rw [hg] at hc hcustom <;> first | cases hc; done | cases hcustom
    · rw [hc] at hcustom
      cases hcustom
    · rw [hok] at hbroken
      cases hbroken

/-- A drawing lies in one of the same size with the same live cells. -/
theorem Embeds.of_live {s g : Grid} (hpos : ∀ p, p ∈ s.positions → p ∈ g.positions)
    (hplace : ∀ p, g.place p = s.place p) (hlive : ∀ p, g.Live make p ↔ s.Live make p)
    (hget : ∀ p, s.Live make p → g.get p = s.get p) : Embeds id id s make g make := by
  constructor
  case recodes => exact (CarriesOver.refl make).toRecodes
  case get_eq => exact hget
  case mem => exact fun p hp => hpos p hp.1
  case injective => exact fun p q _ _ he => he
  case order =>
    intro p q _ _ hlt
    rw [id, id, hplace, hplace]
    exact hlt
  case neighbors => exact fun p _ => List.map_id _
  case beside => exact fun p _ q _ hq => (hlive q).1 hq

theorem embeds_withoutHoles (hf : Faithful make) :
    Embeds id id g make (g.withoutHoles make) make :=
  .of_live (fun _ => id) (fun _ => rfl) (fun _ => live_withoutHoles hf)
    fun _ => get_withoutHoles_of_live

theorem withoutHoles_embeds (hf : Faithful make) :
    Embeds id id (g.withoutHoles make) make g make :=
  .of_live (fun _ => id) (fun _ => rfl) (fun _ => (live_withoutHoles hf).symm)
    fun _ hp => (get_withoutHoles_of_live ((live_withoutHoles hf).1 hp)).symm

theorem builtHeads_withoutHoles (hf : Faithful make) :
    (g.withoutHoles make).builtHeads make = g.builtHeads make := by
  have hsub := (withoutHoles_embeds (g := g) hf).builtHeads_sublist
  have hsub' := (embeds_withoutHoles (g := g) hf).builtHeads_sublist
  rw [List.map_id] at hsub hsub'
  exact hsub.antisymm hsub'

theorem junctions_withoutHoles (hf : Faithful make) :
    (g.withoutHoles make).junctions = g.junctions := by
  have hsub := (withoutHoles_embeds (g := g) hf).junctions_sublist
  have hsub' := (embeds_withoutHoles (g := g) hf).junctions_sublist
  rw [List.map_id] at hsub hsub'
  exact hsub.antisymm hsub'

/-- The classes and junctions keep their numbers. -/
def numbering_withoutHoles (g : Grid) (hf : Faithful make) :
    Numbering id g make (g.withoutHoles make) make where
  component := RelEmbedding.refl _
  connection := RelEmbedding.refl _
  heads := fun i => by rw [builtHeads_withoutHoles hf, Option.map_id]; rfl
  junctions := fun id => by rw [junctions_withoutHoles hf, Option.map_id]; rfl

theorem siteOf_withoutHoles (hf : Faithful make) (hp : g.Live make p) :
    (g.withoutHoles make).siteOf make p = g.siteOf make p := by
  obtain ⟨hkind, hwire, hother⟩ := (embeds_withoutHoles hf).siteOf_eq (numbering_withoutHoles g hf) hp
  have hsame : ∀ o : Option Nat, o.map (numbering_withoutHoles g hf).component = o :=
    fun _ => Option.map_id'
  rw [hsame] at hwire hother
  exact Site.eq_of_fields ((siteOf_pos p).trans (siteOf_pos p).symm) hkind hwire hother

theorem partOf_withoutHoles (hf : Faithful make) (hp : g.Live make p) :
    (g.withoutHoles make).partOf make p = g.partOf make p := by
  have hclass := (embeds_withoutHoles hf).classOf_eq hp
  rw [List.map_id] at hclass
  rw [partOf, partOf, get_withoutHoles_of_live hp]
  exact congrArg (Part.mk _ _) hclass

/-- Holes leave no trace in the circuit. -/
theorem circuitOf_withoutHoles (hf : Faithful make) :
    (g.withoutHoles make).circuitOf name make = g.circuitOf name make := by
  rw [circuitOf, circuitOf, builtHeads_withoutHoles hf, junctions_withoutHoles hf]
  congr 1
  · exact List.map_congr_left fun p hp => partOf_withoutHoles hf (Embeds.live_of_builtHead hp)
  · exact List.map_congr_left fun p hp => siteOf_withoutHoles hf (Embeds.live_of_junction hp)

/-- Every class that is left can be made. -/
theorem heads_withoutHoles (hf : Faithful make)
    (hfixed : ∀ c : Code, c.groups = true → c.isCustom = false → (make c).isOk = true) :
    (g.withoutHoles make).heads = g.builtHeads make := by
  rw [← builtHeads_withoutHoles hf, builtHeads, List.filter_eq_self.2]
  intro p hp
  have hg := (mem_heads.1 hp).2.1
  rw [get_withoutHoles] at hg ⊢
  obtain ⟨hkeep, hc | hok⟩ | ⟨hempty, -⟩ := keepMade_cases make (g.get p)
  · rw [hkeep] at hg ⊢
    exact hfixed _ hg hc
  · rw [hkeep]
    exact hok
  · rw [hempty] at hg
    cases hg

end Grid

namespace Field

variable {rs : Registries} {clockPeriod depth : Nat} {f : Field} {c : Code} {reason : HoleReason}

/-- The field with empty cells for the codes that cannot be made at its depth. -/
def withoutHoles (rs : Registries) (clockPeriod depth : Nat) (f : Field) : Field :=
  { f with grid := f.grid.withoutHoles (f.maker rs clockPeriod depth) }

/-- What is reported for a class of its own: why it was left out. -/
def ownIssues (rs : Registries) (clockPeriod depth : Nat) (f : Field) (p : Pos) : List BuildIssue :=
  match f.maker rs clockPeriod depth (f.grid.get p) with
  | .ok _ => []
  | .error reason => [⟨p, f.grid.get p, reason⟩]

/-- What is reported from inside the part that a code stands for. -/
def insideIssues (rs : Registries) (clockPeriod : Nat) : Nat → Field → Code → List BuildIssue
  | 0, _, _ => []
  | depth + 1, f, c =>
    match (rs.drawingOf? f c).map (buildWithin rs clockPeriod depth) with
    | some (.ok b) => b.issues
    | _ => []

/-- Why a custom code cannot be made. Parts themselves are always built, so there is no other reason. -/
inductive Missing (rs : Registries) : Nat → Field → Code → HoleReason → Prop where
  | unregistered (depth : Nat) (f : Field) (c : Code)
      (h : (rs.get f.registry).lookup? c = none) :
      Missing rs depth f c (.unregistered c)
  | unresolved (depth : Nat) (f : Field) (c : Code) (name reason : String)
      (h : (rs.get f.registry).lookup? c = some ⟨name, .unresolved reason⟩) :
      Missing rs depth f c (.unresolved name reason)
  | tooDeep (f : Field) (c : Code) (name : String) (drawing : Field)
      (h : (rs.get f.registry).lookup? c = some ⟨name, .circuit drawing⟩) :
      Missing rs 0 f c (.tooDeep name)

/-- A code that is left out when the field is built at a depth. -/
def Hole (rs : Registries) (depth : Nat) (f : Field) (c : Code) : Prop :=
  c.isCustom = true ∧ ∃ reason, Missing rs depth f c reason

theorem maker_eq_error_iff (hr : rs.Exact) (hc : c.isCustom = true) :
    f.maker rs clockPeriod depth c = .error reason ↔ Missing rs depth f c reason := by
  rw [maker_custom rs clockPeriod depth f hc]
  constructor
  · intro h
    split at h
    case h_1 hl =>
      cases h
      exact .unregistered _ _ _ hl
    case h_2 => cases h
    case h_3 name drawing hl =>
      cases h
      exact .tooDeep _ _ _ _ hl
    case h_4 name drawing depth hl =>
      have hd : rs.drawingOf? f c = some drawing := by rw [Registries.drawingOf?, hl, Option.bind_some]
      obtain ⟨b, hb, -⟩ := buildWithin_circuitOf rs clockPeriod depth (hr.drawingOf? hd)
      rw [hb] at h
      cases h
    case h_5 hl =>
      cases h
      exact .unresolved _ _ _ _ _ hl
  · intro h
    cases h with
    | unregistered _ _ _ hl => rw [hl]
    | unresolved _ _ _ _ _ hl => rw [hl]
    | tooDeep _ _ _ _ hl => rw [hl]

theorem hole_iff (hr : rs.Exact) (clockPeriod : Nat) : Hole rs depth f c ↔
    c.isCustom = true ∧ (f.maker rs clockPeriod depth c).isOk = false := by
  rw [Hole]
  refine and_congr_right fun hc => ?_
  cases hm : f.maker rs clockPeriod depth c with
  | ok made =>
    refine iff_of_false ?_ Bool.noConfusion
    rintro ⟨reason, hmissing⟩
    rw [(maker_eq_error_iff hr hc).2 hmissing] at hm
    cases hm
  | error reason => exact iff_of_true ⟨reason, (maker_eq_error_iff hr hc).1 hm⟩ rfl

/-- Holes become empty, and all other cells stay. -/
theorem get_withoutHoles (hr : rs.Exact) (clockPeriod depth : Nat) (f : Field) (p : Pos) :
    (Hole rs depth f (f.grid.get p) →
        (f.withoutHoles rs clockPeriod depth).grid.get p = .empty) ∧
      (¬Hole rs depth f (f.grid.get p) →
        (f.withoutHoles rs clockPeriod depth).grid.get p = f.grid.get p) := by
  have hget := f.grid.get_withoutHoles (f.maker rs clockPeriod depth) p
  rw [hole_iff hr clockPeriod]
  obtain ⟨hkeep, hmade⟩ | ⟨hempty, hhole⟩ :=
    Grid.keepMade_cases (f.maker rs clockPeriod depth) (f.grid.get p)
  · refine ⟨fun hhole => ?_, fun _ => hget.trans hkeep⟩
    rw [hhole.1, hhole.2] at hmade
    obtain hmade | hmade := hmade <;> cases hmade
  · exact ⟨fun _ => hget.trans hempty, fun hnot => absurd hhole hnot⟩

/-- What is reported from inside is what comes with the component. -/
theorem insideIssues_eq (rs : Registries) (clockPeriod depth : Nat) (f : Field) (c : Code) :
    f.insideIssues rs clockPeriod depth c =
      match f.maker rs clockPeriod depth c with
      | .ok (_, inner) => inner
      | .error _ => [] := by
  cases hc : c.isCustom with
  | false =>
    have hdrawing : rs.drawingOf? f c = none := by
      cases c <;> first | rfl | cases hc
    have hinside : f.insideIssues rs clockPeriod depth c = [] := by
      cases depth with
      | zero => rfl
      | succ depth => rw [insideIssues, hdrawing]; rfl
    rw [hinside]
    split
    case h_1 kind inner hm =>
      obtain ⟨-, rfl⟩ | ⟨hcustom, -⟩ := maker_cases hm
      · rfl
      · rw [hc] at hcustom
        cases hcustom
    case h_2 => rfl
  | true =>
    rw [maker_custom rs clockPeriod depth f hc]
    cases depth with
    | zero =>
      rw [insideIssues]
      rcases (rs.get f.registry).lookup? c with _ | ⟨name, _ | _ | _⟩ <;> rfl
    | succ depth =>
      rw [insideIssues, Registries.drawingOf?]
      rcases (rs.get f.registry).lookup? c with _ | ⟨name, _ | drawing | _⟩ <;> try rfl
      dsimp only [Option.bind_some, Option.map_some]
      cases buildWithin rs clockPeriod depth drawing <;> rfl

/-- The report for a class tells why it was left out, or what was left out inside. -/
theorem issuesAt_eq (rs : Registries) (clockPeriod depth : Nat) (f : Field) (p : Pos) :
    f.grid.issuesAt (f.maker rs clockPeriod depth) p =
      f.ownIssues rs clockPeriod depth p ++
        f.insideIssues rs clockPeriod depth (f.grid.get p) := by
  rw [insideIssues_eq, Grid.issuesAt, ownIssues]
  cases f.maker rs clockPeriod depth (f.grid.get p) with
  | ok made => rfl
  | error reason => rfl

/-- Without its holes, a field gives the same circuit and reports what is reported from inside. -/
theorem buildWithin_withoutHoles (rs : Registries) (clockPeriod depth : Nat) (f : Field)
    (he : f.grid.Exact) :
    buildWithin rs clockPeriod depth (f.withoutHoles rs clockPeriod depth) =
      .ok ⟨f.grid.circuitOf f.name (f.maker rs clockPeriod depth),
        f.grid.heads.flatMap fun p => f.insideIssues rs clockPeriod depth (f.grid.get p)⟩ := by
  have hf := f.maker_faithful rs clockPeriod depth
  have hmaker : (f.withoutHoles rs clockPeriod depth).maker rs clockPeriod depth =
      f.maker rs clockPeriod depth := by cases depth <;> rfl
  have hexact : (f.grid.withoutHoles (f.maker rs clockPeriod depth)).Exact := he
  have hinside : ∀ p ∈ f.grid.builtHeads (f.maker rs clockPeriod depth),
      (f.grid.withoutHoles (f.maker rs clockPeriod depth)).issuesAt (f.maker rs clockPeriod depth) p =
        f.insideIssues rs clockPeriod depth (f.grid.get p) := by
    intro p hp
    rw [insideIssues_eq, Grid.issuesAt,
      Grid.get_withoutHoles_of_live (Grid.Embeds.live_of_builtHead hp)]
    obtain ⟨inner, hmake⟩ := Grid.make_of_mem_builtHeads hp
    rw [hmake]
  have hnone : ∀ p ∈ f.grid.heads, (f.maker rs clockPeriod depth (f.grid.get p)).isOk = false →
      f.insideIssues rs clockPeriod depth (f.grid.get p) = [] := by
    intro p _ hbroken
    rw [insideIssues_eq]
    cases hm : f.maker rs clockPeriod depth (f.grid.get p) with
    | ok made =>
      rw [hm] at hbroken
      cases hbroken
    | error reason => rfl
  rw [buildWithin_eq, hmaker, withoutHoles, Grid.build_eq hexact, Grid.circuitOf_withoutHoles hf,
    Grid.heads_withoutHoles hf (f.maker_fixed rs clockPeriod depth), List.flatMap_congr hinside,
    Grid.builtHeads, flatMap_filter_of_nil hnone]

/-- A field without its holes is built into the same circuit, which does the same. Only what is
reported from inside its parts is reported then. -/
theorem build_withoutHoles (rs : Registries) (clockPeriod depth : Nat) (f : Field)
    (h : f.Labellable rs) :
    (∀ p, (Hole rs depth f (f.grid.get p) →
          (f.withoutHoles rs clockPeriod depth).grid.get p = .empty) ∧
        (¬Hole rs depth f (f.grid.get p) →
          (f.withoutHoles rs clockPeriod depth).grid.get p = f.grid.get p)) ∧
      ∃ b b', buildWithin rs clockPeriod depth f = .ok b ∧
        buildWithin rs clockPeriod depth (f.withoutHoles rs clockPeriod depth) = .ok b' ∧
        b'.circuit = b.circuit ∧
        b.issues = f.grid.heads.flatMap (fun p => f.ownIssues rs clockPeriod depth p ++
          f.insideIssues rs clockPeriod depth (f.grid.get p)) ∧
        b'.issues = f.grid.heads.flatMap (fun p =>
          f.insideIssues rs clockPeriod depth (f.grid.get p)) ∧
        ∀ actions, b'.circuit.run actions = b.circuit.run actions := by
  have he := h.grid.exact
  have hb := (buildWithin_eq rs clockPeriod depth f).trans (Grid.build_eq he f.name _)
  have hb' := buildWithin_withoutHoles rs clockPeriod depth f he
  refine ⟨f.get_withoutHoles h.exact clockPeriod depth, _, _, hb, hb', rfl, ?_, rfl, fun _ => rfl⟩
  exact List.flatMap_congr fun p _ => issuesAt_eq rs clockPeriod depth f p

end Field

/-- A part that is a hole itself inside, and a part that is only known by name. -/
def gappedRegistries : Registries :=
  ⟨#[⟨[⟨"gap", .circuit ⟨"gap", ⟨1, 1, #v[.custom 0]⟩, ⟨1⟩⟩⟩, ⟨"ghost", .unresolved "missing"⟩]⟩, {}]⟩

def sampleGaps : Field where
  name := "gaps"
  grid := ⟨3, 2, #v[.custom 1, .output, .wire, .custom 9, .input, .custom 0]⟩
  registry := ⟨0⟩

theorem sampleGaps_labellable : sampleGaps.Labellable gappedRegistries := by
  constructor
  case grid => decide
  case parts =>
    simp [gappedRegistries]
    decide

theorem sampleGaps_withoutHoles : sampleGaps.Labellable gappedRegistries ∧
    (sampleGaps.withoutHoles gappedRegistries 0 maxNesting).grid.cells.toList =
      [.empty, .output, .wire, .empty, .input, .custom 0] ∧
    ∃ b b', sampleGaps.build gappedRegistries 0 = .ok b ∧
      (sampleGaps.withoutHoles gappedRegistries 0 maxNesting).build gappedRegistries 0 = .ok b' ∧
      b'.circuit = b.circuit ∧
      b.issues = sampleGaps.grid.heads.flatMap (fun p =>
        sampleGaps.ownIssues gappedRegistries 0 maxNesting p ++
          sampleGaps.insideIssues gappedRegistries 0 maxNesting (sampleGaps.grid.get p)) ∧
      b'.issues = sampleGaps.grid.heads.flatMap (fun p =>
        sampleGaps.insideIssues gappedRegistries 0 maxNesting (sampleGaps.grid.get p)) ∧
      ∀ actions, b'.circuit.run actions = b.circuit.run actions :=
  ⟨sampleGaps_labellable, by decide +kernel,
    (Field.build_withoutHoles gappedRegistries 0 maxNesting sampleGaps sampleGaps_labellable).2⟩

end GridCircuit
