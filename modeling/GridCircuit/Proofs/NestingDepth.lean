import GridCircuit.Proofs.Holes
import GridCircuit.Proofs.InPlace

/-!
# How deep parts are built

Registries may refer to each other and to themselves, so the parts inside parts of a field need not come
to an end. Building does: the circuits inside the circuit of a field are those of the grids that are met
on the way down, level by level, to the depth that is allowed, and no further. A grid at that depth gives
one issue for each of its classes that would lead further down.
-/

namespace GridCircuit

namespace Circuit

/-- The circuits inside a circuit at a depth, where it is at depth zero itself. -/
def circuitsAt : Nat → Circuit → List Circuit
  | 0, c => [c]
  | n + 1, c => (c.components.filterMap Component.inner?).flatMap (circuitsAt n)

end Circuit

def HoleReason.isTooDeep : HoleReason → Bool
  | tooDeep _ => true
  | _ => false

def Kind.inner? : Kind → Option Circuit
  | nested _ inner => some inner
  | _ => none

/-- The circuit inside what a code is made into. -/
def Making.inner? : Making → Option Circuit
  | .ok (kind, _) => kind.inner?
  | .error _ => none

namespace Field

/-- The grids that are used as parts in a field, one for each class whose code stands for a grid. -/
noncomputable def uses (rs : Registries) (f : Field) : List Field :=
  f.grid.heads.filterMap fun p => rs.drawingOf? f (f.grid.get p)

/-- The grids that are met at a depth below a field, once for each way down. -/
noncomputable def usesAt (rs : Registries) : Nat → Field → List Field
  | 0, f => [f]
  | n + 1, f => (f.uses rs).flatMap (usesAt rs n)

/-- The issue for a class whose code stands for a grid, where this is too deep. -/
def tooDeepAt? (rs : Registries) (f : Field) (p : Pos) : Option BuildIssue :=
  match (rs.get f.registry).lookup? (f.grid.get p) with
  | some ⟨name, .circuit _⟩ => some ⟨p, f.grid.get p, .tooDeep name⟩
  | _ => none

/-- Every custom code in the field can be made. -/
def Complete (rs : Registries) (f : Field) : Prop :=
  ∀ p ∈ f.grid.heads, (f.grid.get p).isCustom = true →
    ∃ e, (rs.get f.registry).lookup? (f.grid.get p) = some e ∧ e.source.isResolved = true

/-- The field leads down through a number of grids, each used once in the one before, and there is nothing
else that could be reported. -/
def Chain (rs : Registries) : Nat → Field → Prop
  | 0, f => f.Complete rs ∧ f.uses rs = []
  | n + 1, f => f.Complete rs ∧ ∃ g, f.uses rs = [g] ∧ Chain rs n g

variable {rs : Registries} {clockPeriod depth n : Nat} {f g : Field} {c : Code} {p : Pos}

theorem drawingOf?_eq_some_iff : rs.drawingOf? f c = some g ↔
    ∃ name, (rs.get f.registry).lookup? c = some ⟨name, .circuit g⟩ := by
  rw [Registries.drawingOf?]
  rcases (rs.get f.registry).lookup? c with _ | ⟨name, _ | drawing | _⟩ <;> simp

theorem isCustom_of_drawingOf? (h : rs.drawingOf? f c = some g) : c.isCustom = true := by
  obtain ⟨name, hl⟩ := drawingOf?_eq_some_iff.1 h
  exact Registry.lookup?_isCustom hl

/-- A grid below the bound is built as a part. -/
theorem maker_of_drawing (hr : rs.Exact) (clockPeriod depth : Nat) (h : rs.drawingOf? f c = some g) :
    ∃ b, buildWithin rs clockPeriod depth g = .ok b ∧
      b.circuit = g.grid.circuitOf g.name (g.maker rs clockPeriod depth) ∧
      f.maker rs clockPeriod (depth + 1) c = .ok (.nested b.circuit.pins b.circuit, b.issues) := by
  obtain ⟨name, hl⟩ := drawingOf?_eq_some_iff.1 h
  obtain ⟨b, hb, hc⟩ := buildWithin_circuitOf rs clockPeriod depth (hr.drawingOf? h)
  refine ⟨b, hb, hc, ?_⟩
  rw [maker_custom _ _ _ _ (isCustom_of_drawingOf? h), hl]
  dsimp only
  rw [hb]
  rfl

theorem maker_of_drawing_zero (clockPeriod : Nat) (h : rs.drawingOf? f c = some g) :
    ∃ name, (rs.get f.registry).lookup? c = some ⟨name, .circuit g⟩ ∧
      f.maker rs clockPeriod 0 c = .error (.tooDeep name) := by
  obtain ⟨name, hl⟩ := drawingOf?_eq_some_iff.1 h
  refine ⟨name, hl, ?_⟩
  rw [maker_custom _ _ _ _ (isCustom_of_drawingOf? h), hl]

section Circuits

/-- The circuits inside the circuit of a grid are those inside what its classes are made into. -/
theorem filterMap_inner? (make : Code → Making) (g : Grid) (name : String) :
    (g.circuitOf name make).components.filterMap Component.inner? =
      g.heads.filterMap fun p => (make (g.get p)).inner? := by
  have hinner : Component.inner? = Kind.inner? ∘ Component.kind := by
    funext m
    rw [Component.inner?, Function.comp_apply]
    cases m.kind <;> rfl
  have hkinds : (g.circuitOf name make).components.map (·.kind) =
      (g.builtHeads make).map fun p => (make (g.get p)).kind := by
    have ht := congrArg (List.map fun e : Code × Kind × List Pos => e.2.1)
      (Grid.circuitOf_components g name make)
    rwa [List.map_map, List.map_map] at ht
  rw [hinner, ← List.filterMap_map, hkinds, List.filterMap_map, Grid.builtHeads, List.filterMap_filter]
  congr 1
  funext p
  show (if (make (g.get p)).isOk = true then (make (g.get p)).kind.inner? else none) = _
  cases make (g.get p) <;> rfl

theorem inner?_maker_zero (rs : Registries) (clockPeriod : Nat) (f : Field) (c : Code) :
    (f.maker rs clockPeriod 0 c).inner? = none := by
  cases hm : f.maker rs clockPeriod 0 c with
  | error reason => rfl
  | ok made =>
    obtain ⟨kind, inner⟩ := made
    cases kind
    case nested pins circuit =>
      obtain ⟨drawing, b, depth, hdepth, -⟩ := nested_of_maker hm
      cases hdepth
    all_goals rfl

theorem inner?_maker_succ (hr : rs.Exact) (f : Field) (c : Code) :
    (f.maker rs clockPeriod (depth + 1) c).inner? =
      (rs.drawingOf? f c).map fun g => g.grid.circuitOf g.name (g.maker rs clockPeriod depth) := by
  cases hd : rs.drawingOf? f c with
  | some g =>
    obtain ⟨b, -, hc, hmaker⟩ := maker_of_drawing hr clockPeriod depth hd
    rw [hmaker, Option.map_some, ← hc]
    rfl
  | none =>
    cases hm : f.maker rs clockPeriod (depth + 1) c with
    | error reason => rfl
    | ok made =>
      obtain ⟨kind, inner⟩ := made
      cases kind
      case nested pins circuit =>
        obtain ⟨drawing, b, depth', -, hd', -⟩ := nested_of_maker hm
        cases hd.symm.trans hd'
      all_goals rfl

/-- The circuit of a field that may lead down to a depth, level by level. -/
theorem circuitsAt_circuitOf (hr : rs.Exact) (hn : n ≤ depth) (f : Field) :
    Circuit.circuitsAt n (f.grid.circuitOf f.name (f.maker rs clockPeriod depth)) =
      (f.usesAt rs n).map fun g => g.grid.circuitOf g.name (g.maker rs clockPeriod (depth - n)) := by
  induction n generalizing f depth with
  | zero => rfl
  | succ n ih =>
    obtain ⟨depth, rfl⟩ : ∃ d, depth = d + 1 := ⟨depth - 1, by omega⟩
    have hn : n ≤ depth := Nat.le_of_succ_le_succ hn
    rw [Circuit.circuitsAt, filterMap_inner?, usesAt, uses, Nat.add_sub_add_right]
    simp only [inner?_maker_succ hr]
    rw [← List.map_filterMap, List.flatMap_map, List.map_flatMap]
    exact List.flatMap_congr fun g _ => ih hn g

theorem circuitsAt_of_lt (hr : rs.Exact) (hn : depth < n) (f : Field) :
    Circuit.circuitsAt n (f.grid.circuitOf f.name (f.maker rs clockPeriod depth)) = [] := by
  induction depth generalizing f n with
  | zero =>
    obtain ⟨n, rfl⟩ : ∃ k, n = k + 1 := ⟨n - 1, by omega⟩
    rw [Circuit.circuitsAt, filterMap_inner?]
    simp only [inner?_maker_zero]
    rw [List.filterMap_none, List.flatMap_nil]
  | succ depth ih =>
    obtain ⟨n, rfl⟩ : ∃ k, n = k + 1 := ⟨n - 1, by omega⟩
    rw [Circuit.circuitsAt, filterMap_inner?]
    simp only [inner?_maker_succ hr]
    rw [← List.map_filterMap, List.flatMap_map, List.flatMap_eq_nil_iff]
    exact fun g _ => ih (Nat.lt_of_succ_lt_succ hn) g

end Circuits

/-- How a circuit at a depth is made of a grid, as far as circuits inside it go. -/
structure Nests (rs : Registries) (clockPeriod n : Nat) (g : Field) (d : Circuit) : Prop where
  built : ∃ b, buildWithin rs clockPeriod (maxNesting - n) g = .ok b ∧ d = b.circuit
  /-- A class whose code stands for a grid is a circuit inside exactly above the bound. -/
  inner_iff : ∀ p ∈ g.grid.positions, (rs.drawingOf? g (g.grid.get p)).isSome = true →
    ((∃ m ∈ d.components, m.cells = g.grid.classOf p ∧ m.inner?.isSome = true) ↔ n < maxNesting)
  /-- At the bound it is a hole. -/
  hole : n = maxNesting → ∀ p ∈ g.grid.positions, (rs.drawingOf? g (g.grid.get p)).isSome = true →
    ∀ m ∈ d.components, p ∉ m.cells
  only : ∀ m ∈ d.components, m.inner?.isSome = true → (rs.drawingOf? g m.code).isSome = true

/-- Above the bound a class whose code stands for a grid is a circuit inside. -/
theorem exists_inner (hr : rs.Exact) (clockPeriod depth : Nat) (hp : p ∈ g.grid.positions)
    (hd : rs.drawingOf? g (g.grid.get p) = some f) :
    ∃ m ∈ (g.grid.circuitOf g.name (g.maker rs clockPeriod (depth + 1))).components,
      m.cells = g.grid.classOf p ∧ m.inner?.isSome = true := by
  have hrealized : g.grid.Realized (g.maker rs clockPeriod (depth + 1))
      ⟨g.grid.circuitOf g.name (g.maker rs clockPeriod (depth + 1)), _⟩ :=
    Grid.circuitOf_realized (g.maker_faithful rs clockPeriod (depth + 1))
  obtain ⟨b, -, -, hmaker⟩ := maker_of_drawing hr clockPeriod depth hd
  obtain ⟨i, hi, -⟩ := hrealized.component_of_cell p hp (by rw [hmaker]; rfl)
  obtain ⟨m, hm, hcells⟩ := Option.map_eq_some_iff.1 hi
  have hmem := List.mem_of_getElem? hm
  obtain ⟨hget, issues, hmake⟩ := hrealized.made m hmem
  rw [← hget p (hcells ▸ Grid.self_mem_classOf hp), hmaker] at hmake
  obtain ⟨hkind, -⟩ := Prod.mk.inj (Except.ok.inj hmake)
  exact ⟨m, hmem, hcells, by rw [Component.inner?_of_nested hkind.symm]; rfl⟩

/-- At the bound it is a hole. -/
theorem hole_of_drawing (clockPeriod : Nat) (hd : rs.drawingOf? g (g.grid.get p) = some f) :
    ∀ m ∈ (g.grid.circuitOf g.name (g.maker rs clockPeriod 0)).components, p ∉ m.cells := by
  have hrealized : g.grid.Realized (g.maker rs clockPeriod 0)
      ⟨g.grid.circuitOf g.name (g.maker rs clockPeriod 0), _⟩ :=
    Grid.circuitOf_realized (g.maker_faithful rs clockPeriod 0)
  intro m hm hpm
  obtain ⟨name, -, hmaker⟩ := maker_of_drawing_zero clockPeriod hd
  obtain ⟨hget, issues, hmake⟩ := hrealized.made m hm
  rw [← hget p hpm, hmaker] at hmake
  cases hmake

theorem nests (hr : rs.Exact) (he : g.grid.Exact) (clockPeriod : Nat) (hn : n ≤ maxNesting) :
    Nests rs clockPeriod n g
      (g.grid.circuitOf g.name (g.maker rs clockPeriod (maxNesting - n))) := by
  obtain ⟨b, hb, hc⟩ := buildWithin_circuitOf rs clockPeriod (maxNesting - n) he
  have hbelow : ∀ m ∈ b.circuit.components, m.inner?.isSome = true →
      n < maxNesting ∧ (rs.drawingOf? g m.code).isSome = true := by
    intro m hm hinner
    obtain ⟨inner, hinner⟩ := Option.isSome_iff_exists.1 hinner
    obtain ⟨pins, hk⟩ := Component.nested_of_inner? hinner
    obtain ⟨drawing, -, depth, hdepth, hd, -⟩ := drawing_of_nested he hb hm hk
    exact ⟨by omega, by rw [hd]; rfl⟩
  rw [← hc]
  constructor
  case built => exact ⟨b, hb, rfl⟩
  case inner_iff =>
    intro p hp hdrawing
    obtain ⟨drawing, hd⟩ := Option.isSome_iff_exists.1 hdrawing
    constructor
    · rintro ⟨m, hm, -, hinner⟩
      exact (hbelow m hm hinner).1
    · intro hlt
      obtain ⟨depth, hdepth⟩ : ∃ d, maxNesting - n = d + 1 := ⟨maxNesting - n - 1, by omega⟩
      rw [hc, hdepth]
      exact exists_inner hr clockPeriod depth hp hd
  case hole =>
    intro hbound p hp hdrawing
    obtain ⟨drawing, hd⟩ := Option.isSome_iff_exists.1 hdrawing
    rw [hc, hbound, Nat.sub_self]
    exact hole_of_drawing clockPeriod hd
  case only => exact fun m hm hinner => (hbelow m hm hinner).2

section Issues

/-- Only a grid is too deep, and only where nothing may be built inside. -/
theorem tooDeep_of_maker {reason : HoleReason} (hr : rs.Exact)
    (hm : f.maker rs clockPeriod depth c = .error reason) (ht : reason.isTooDeep = true) :
    depth = 0 ∧ (rs.drawingOf? f c).isSome = true := by
  cases hc : c.isCustom with
  | false =>
    have hreason : reason = .unregistered c := by
      cases c <;> first | cases hc; done | (cases depth <;> cases hm <;> rfl)
    rw [hreason] at ht
    cases ht
  | true =>
    cases (maker_eq_error_iff hr hc).1 hm with
    | tooDeep _ _ name g hl => exact ⟨rfl, by rw [drawingOf?_eq_some_iff.2 ⟨name, hl⟩]; rfl⟩
    | _ => cases ht

theorem issuesAt_of_no_drawing (hd : rs.drawingOf? f (f.grid.get p) = none) (clockPeriod depth : Nat) :
    f.grid.issuesAt (f.maker rs clockPeriod depth) p = f.ownIssues rs clockPeriod depth p := by
  have hinside : f.insideIssues rs clockPeriod depth (f.grid.get p) = [] := by
    cases depth with
    | zero => rfl
    | succ depth =>
      rw [insideIssues, hd]
      rfl
  rw [issuesAt_eq, hinside, List.append_nil]

theorem issuesAt_of_drawing (hr : rs.Exact) (hd : rs.drawingOf? f (f.grid.get p) = some g)
    (clockPeriod depth : Nat) : f.grid.issuesAt (f.maker rs clockPeriod (depth + 1)) p =
      g.grid.heads.flatMap (g.grid.issuesAt (g.maker rs clockPeriod depth)) := by
  obtain ⟨b, hb, -, hmaker⟩ := maker_of_drawing hr clockPeriod depth hd
  have hissues := (buildWithin_eq rs clockPeriod depth g).symm.trans hb
  rw [Grid.build_eq (hr.drawingOf? hd)] at hissues
  obtain rfl := Except.ok.inj hissues
  rw [Grid.issuesAt, hmaker]

/-- Codes that stand for no grid are never too deep. -/
theorem tooDeep_of_no_drawing (hr : rs.Exact)
    (hd : rs.drawingOf? f (f.grid.get p) = none) (clockPeriod depth : Nat) :
    (f.grid.issuesAt (f.maker rs clockPeriod depth) p).filter (·.reason.isTooDeep) = [] := by
  rw [issuesAt_of_no_drawing hd, List.filter_eq_nil_iff, ownIssues]
  intro issue hissue ht
  cases hm : f.maker rs clockPeriod depth (f.grid.get p) with
  | ok made =>
    rw [hm] at hissue
    cases hissue
  | error reason =>
    rw [hm, List.mem_singleton] at hissue
    obtain ⟨-, hsome⟩ := tooDeep_of_maker hr hm (by rwa [hissue] at ht)
    rw [hd] at hsome
    cases hsome

theorem tooDeep_zero (hr : rs.Exact) (clockPeriod : Nat) (f : Field) (p : Pos) :
    (f.grid.issuesAt (f.maker rs clockPeriod 0) p).filter (·.reason.isTooDeep) =
      (f.tooDeepAt? rs p).toList := by
  cases hd : rs.drawingOf? f (f.grid.get p) with
  | none =>
    have hnone : f.tooDeepAt? rs p = none := by
      rw [tooDeepAt?]
      split
      case h_1 name g hl =>
        rw [drawingOf?_eq_some_iff.2 ⟨name, hl⟩] at hd
        cases hd
      case h_2 => rfl
    rw [tooDeep_of_no_drawing hr hd, hnone]
    rfl
  | some g =>
    obtain ⟨name, hl, hmaker⟩ := maker_of_drawing_zero clockPeriod hd
    rw [Grid.issuesAt, hmaker, tooDeepAt?, hl]
    rfl

/-- What only comes from classes that stand for grids comes from the grids that are used. -/
theorem flatMap_heads {α : Type} {F : Pos → List α} {G : Field → List α}
    (hnone : ∀ p ∈ f.grid.heads, rs.drawingOf? f (f.grid.get p) = none → F p = [])
    (hsome : ∀ p g, rs.drawingOf? f (f.grid.get p) = some g → F p = G g) :
    f.grid.heads.flatMap F = (f.uses rs).flatMap G := by
  rw [uses, List.filterMap_eq_flatMap_toList, List.flatMap_assoc]
  refine List.flatMap_congr fun p hp => ?_
  cases hd : rs.drawingOf? f (f.grid.get p) with
  | none => exact hnone p hp hd
  | some g => rw [hsome p g hd, Option.toList_some, List.flatMap_singleton]

/-- The grids that are too deep are those used in the grids at the bound. -/
theorem tooDeep_issues (hr : rs.Exact) (clockPeriod depth : Nat) (f : Field) :
    (f.grid.heads.flatMap (f.grid.issuesAt (f.maker rs clockPeriod depth))).filter
        (·.reason.isTooDeep) =
      (f.usesAt rs depth).flatMap fun g => g.grid.heads.filterMap (g.tooDeepAt? rs) := by
  induction depth generalizing f with
  | zero =>
    rw [List.filter_flatMap, usesAt, List.flatMap_singleton, List.filterMap_eq_flatMap_toList]
    exact List.flatMap_congr fun p _ => tooDeep_zero hr clockPeriod f p
  | succ depth ih =>
    rw [List.filter_flatMap, usesAt, List.flatMap_assoc]
    refine flatMap_heads (fun p _ hd => tooDeep_of_no_drawing hr hd clockPeriod (depth + 1)) ?_
    intro p g hd
    rw [issuesAt_of_drawing hr hd]
    exact ih g

/-- In a field whose custom codes can all be made, a class without a grid is not reported. -/
theorem issuesAt_of_complete (hc : f.Complete rs) (hp : p ∈ f.grid.heads)
    (hd : rs.drawingOf? f (f.grid.get p) = none) (clockPeriod depth : Nat) :
    f.grid.issuesAt (f.maker rs clockPeriod depth) p = [] := by
  have hok : (f.maker rs clockPeriod depth (f.grid.get p)).isOk = true := by
    cases hcustom : (f.grid.get p).isCustom with
    | false => exact maker_fixed rs clockPeriod depth f _ (Grid.mem_heads.1 hp).2.1 hcustom
    | true =>
      obtain ⟨⟨name, source⟩, hl, hresolved⟩ := hc p hp hcustom
      rw [maker_custom rs clockPeriod depth f hcustom, hl]
      cases source with
      | script script => rfl
      | circuit g =>
        rw [drawingOf?_eq_some_iff.2 ⟨name, hl⟩] at hd
        cases hd
      | unresolved reason => cases hresolved
  rw [issuesAt_of_no_drawing hd, ownIssues]
  cases hm : f.maker rs clockPeriod depth (f.grid.get p) with
  | ok made => rfl
  | error reason =>
    rw [hm] at hok
    cases hok

/-- A chain is built with nothing to report as far as it may be deep. -/
theorem issues_of_chain (hr : rs.Exact) (hc : f.Chain rs n) (clockPeriod depth : Nat) :
    f.grid.heads.flatMap (f.grid.issuesAt (f.maker rs clockPeriod depth)) = [] ↔ n ≤ depth := by
  induction n generalizing f depth with
  | zero =>
    obtain ⟨hcomplete, huses⟩ := hc
    refine iff_of_true (List.flatMap_eq_nil_iff.2 fun p hp => ?_) depth.zero_le
    exact issuesAt_of_complete hcomplete hp (List.filterMap_eq_nil_iff.1 huses p hp) clockPeriod depth
  | succ n ih =>
    obtain ⟨hcomplete, g, huses, hchain⟩ := hc
    cases depth with
    | zero =>
      have hg : g ∈ f.uses rs := by rw [huses]; exact List.mem_singleton_self g
      obtain ⟨p, hp, hd⟩ := List.mem_filterMap.1 hg
      refine iff_of_false (fun hnil => ?_) n.not_succ_le_zero
      obtain ⟨name, -, hmaker⟩ := maker_of_drawing_zero clockPeriod hd
      have hissue := List.flatMap_eq_nil_iff.1 hnil p hp
      rw [Grid.issuesAt, hmaker] at hissue
      cases hissue
    | succ depth =>
      rw [flatMap_heads (fun p hp hd => issuesAt_of_complete hcomplete hp hd _ _)
        (fun p g hd => issuesAt_of_drawing hr hd clockPeriod depth), huses, List.flatMap_singleton,
        Nat.add_le_add_iff_right]
      exact ih hchain depth

end Issues

/-- The grids met on the way down have sides whose product fits a word, too. -/
theorem exact_of_mem_usesAt (hr : rs.Exact) (he : f.grid.Exact) (hg : g ∈ f.usesAt rs n) :
    g.grid.Exact := by
  induction n generalizing f with
  | zero => rwa [List.mem_singleton.1 hg]
  | succ n ih =>
    obtain ⟨h, hh, hg⟩ := List.mem_flatMap.1 hg
    obtain ⟨p, -, hd⟩ := List.mem_filterMap.1 hh
    exact ih (hr.drawingOf? hd) hg

/-- How a field is built when its parts lead down without end. -/
structure BoundedNesting (rs : Registries) (clockPeriod : Nat) (f : Field) (b : Build) : Prop where
  /-- The circuits at a depth are those of the grids met there. -/
  circuits : ∀ n ≤ maxNesting,
    List.Forall₂ (Nests rs clockPeriod n) (f.usesAt rs n) (b.circuit.circuitsAt n)
  bounded : ∀ n > maxNesting, b.circuit.circuitsAt n = []
  /-- There is one issue for each class that would lead below the bound. -/
  issues : b.issues.filter (·.reason.isTooDeep) =
    (f.usesAt rs maxNesting).flatMap fun g => g.grid.heads.filterMap (g.tooDeepAt? rs)
  chain : ∀ n, f.Chain rs n → (b.issues = [] ↔ n ≤ maxNesting)

/-- Every field is built, whatever its registries refer to, and no deeper than the bound. -/
theorem build_boundedNesting (h : f.Labellable rs) (clockPeriod : Nat) :
    ∃ b, f.build rs clockPeriod = .ok b ∧ f.BoundedNesting rs clockPeriod b := by
  have hr := h.exact
  have he := h.grid.exact
  refine ⟨_, (buildWithin_eq rs clockPeriod maxNesting f).trans (Grid.build_eq he f.name _), ?_⟩
  constructor
  case circuits =>
    intro n hn
    dsimp only
    rw [circuitsAt_circuitOf hr hn, List.forall₂_map_right_iff, List.forall₂_same]
    exact fun g hg => nests hr (exact_of_mem_usesAt hr he hg) clockPeriod hn
  case bounded => exact fun n hn => circuitsAt_of_lt hr hn f
  case issues => exact tooDeep_issues hr clockPeriod maxNesting f
  case chain => exact fun n hc => issues_of_chain hr hc clockPeriod maxNesting

end Field

/-- A grid of one cell. -/
def Grid.single (c : Code) : Grid := ⟨1, 1, #v[c]⟩

theorem Grid.heads_single {c : Code} (hc : c.groups = true) : (single c).heads = [Pos.origin] := by
  have hpos : (single c).positions = [Pos.origin] :=
    show Rect.cells ⟨Pos.origin, ⟨1, 1⟩⟩ = [Pos.origin] by decide
  have horigin : Pos.origin ∈ (single c).positions := hpos ▸ List.mem_singleton_self _
  have hroot : (single c).root Pos.origin = Pos.origin :=
    List.mem_singleton.1 (hpos ▸ root_mem_positions horigin)
  rw [heads, hpos, List.filter_singleton]
  simp [hroot, hc, show (single c).get Pos.origin = c from rfl]

/-- A step of a ladder of grids, which is the next step, or a wire at the end. -/
def rung (n i : Nat) : Field :=
  ⟨"rung", .single (if i < n then .custom i else .wire), ⟨0⟩⟩

def ladder (n : Nat) : Registries :=
  ⟨#[⟨(List.range n).map fun i => ⟨"rung", .circuit (rung n (i + 1))⟩⟩]⟩

theorem rung_labellable (n : Nat) : (rung n 0).Labellable (ladder n) := by
  constructor
  case grid => exact show 1 * 1 < 2147483647 by decide
  case parts =>
    intro r hr e he drawing hs
    obtain rfl := List.mem_singleton.1 (Array.mem_toList_iff.2 hr)
    obtain ⟨i, -, rfl⟩ := List.mem_map.1 he
    obtain rfl := Source.circuit.inj hs
    exact show 1 * 1 < 2147483647 by decide

theorem lookup?_ladder {n i : Nat} (hi : i < n) : ((ladder n).get ⟨0⟩).lookup? (.custom i) =
    some ⟨"rung", .circuit (rung n (i + 1))⟩ := by
  have hget : ((List.range n).map fun i => (⟨"rung", .circuit (rung n (i + 1))⟩ : Entry Field))[i]? =
      some ⟨"rung", .circuit (rung n (i + 1))⟩ := by
    rw [List.getElem?_map, List.getElem?_range hi]
    rfl
  exact hget

/-- From a step, a ladder leads down through all that follow. -/
theorem rung_chain {n i k : Nat} (hk : i + k = n) : (rung n i).Chain (ladder n) k := by
  induction k generalizing i with
  | zero =>
    have hgrid : rung n i = ⟨"rung", .single .wire, ⟨0⟩⟩ := by
      rw [rung, if_neg (by omega)]
    rw [hgrid, Field.Chain, Field.uses, Grid.heads_single rfl]
    refine ⟨fun p hp hcustom => ?_, rfl⟩
    rw [Grid.heads_single rfl] at hp
    obtain rfl := List.mem_singleton.1 hp
    cases hcustom
  | succ k ih =>
    have hi : i < n := by omega
    have hgrid : rung n i = ⟨"rung", .single (.custom i), ⟨0⟩⟩ := by
      rw [rung, if_pos hi]
    have hdrawing : (ladder n).drawingOf? (rung n i) (.custom i) = some (rung n (i + 1)) :=
      Field.drawingOf?_eq_some_iff.2 ⟨"rung", lookup?_ladder hi⟩
    refine ⟨fun p hp _ => ?_, rung n (i + 1), ?_, ih (by omega)⟩
    · rw [hgrid] at hp ⊢
      rw [Grid.heads_single rfl] at hp
      obtain rfl := List.mem_singleton.1 hp
      exact ⟨_, lookup?_ladder hi, rfl⟩
    · rw [hgrid] at hdrawing ⊢
      rw [Field.uses, Grid.heads_single rfl]
      exact List.filterMap_cons_some hdrawing

/-- Two registries with a part each that is a part of the other registry. -/
def loopedRegistries : Registries :=
  ⟨#[⟨[⟨"left", .circuit ⟨"left", .single (.custom 0), ⟨1⟩⟩⟩]⟩,
    ⟨[⟨"right", .circuit ⟨"right", .single (.custom 0), ⟨0⟩⟩⟩]⟩]⟩

def sampleLoop : Field := ⟨"loop", .single (.custom 0), ⟨0⟩⟩

/-- What leads around in circles is built down to the bound, and a ladder without an issue as far as its
last step is no deeper. -/
theorem sampleLoop_boundedNesting : sampleLoop.Labellable loopedRegistries ∧
    (∃ b, sampleLoop.build loopedRegistries 0 = .ok b ∧
      b.issues.map (fun issue => (issue.pos, issue.code, issue.reason.message)) =
        [(⟨0, 0⟩, .custom 0, "`left` is nested more than 32 levels deep")] ∧
      sampleLoop.BoundedNesting loopedRegistries 0 b) ∧
    ((rung 32 0).Chain (ladder 32) 32 ∧
      ∃ b, (rung 32 0).build (ladder 32) 0 = .ok b ∧ b.issues = []) ∧
    (rung 33 0).Chain (ladder 33) 33 ∧
      ∃ b, (rung 33 0).build (ladder 33) 0 = .ok b ∧ b.issues ≠ [] := by
  have h : sampleLoop.Labellable loopedRegistries :=
    ⟨by decide, by simp [loopedRegistries, Grid.single, Grid.Labellable]⟩
  have hissues : (sampleLoop.build loopedRegistries 0).toOption.map (fun b =>
      b.issues.map fun issue => (issue.pos, issue.code, issue.reason.message)) =
        some [(⟨0, 0⟩, .custom 0, "`left` is nested more than 32 levels deep")] := by
    decide +kernel
  refine ⟨h, ?_, ⟨rung_chain rfl, ?_⟩, rung_chain rfl, ?_⟩
  · obtain ⟨b, hb, hbounded⟩ := Field.build_boundedNesting h 0
    rw [hb] at hissues
    exact ⟨b, hb, Option.some.inj hissues, hbounded⟩
  · obtain ⟨b, hb, hbounded⟩ := Field.build_boundedNesting (rung_labellable 32) 0
    exact ⟨b, hb, (hbounded.chain 32 (rung_chain rfl)).2 (by decide)⟩
  · obtain ⟨b, hb, hbounded⟩ := Field.build_boundedNesting (rung_labellable 33) 0
    refine ⟨b, hb, fun hnil => ?_⟩
    exact absurd ((hbounded.chain 33 (rung_chain rfl)).1 hnil) (by decide)

end GridCircuit
