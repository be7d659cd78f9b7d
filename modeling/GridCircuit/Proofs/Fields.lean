import GridCircuit.Proofs.Assembly
import GridCircuit.Proofs.Components

/-!
# The circuit of a field

What the circuit made from a drawing looks like: its components are the classes that can be made, its
connections sit on the junctions, no cell is covered twice, and the sides of every connection are
found by looking around its cell. The depth bound on parts inside parts only shows in which codes can
be made.
-/

namespace GridCircuit

/-- A way of making components gives wires for wire cells and buttons for button cells, and nothing
else is a wire or a button. -/
structure Faithful (make : Code → Making) : Prop where
  wire_isOk : (make .wire).isOk = true
  button_isOk : (make .button).isOk = true
  isWire_iff : ∀ c kind inner, make c = .ok (kind, inner) → (kind.isWire = true ↔ c = .wire)
  isButton_iff : ∀ c kind inner, make c = .ok (kind, inner) → (kind.isButton = true ↔ c = .button)
  groups : ∀ c, (make c).isOk = true → c.groups = true

namespace Field

/-- How the codes of a field are made when parts inside it may be nested to a depth. -/
def maker (rs : Registries) (clockPeriod : Nat) : Nat → Field → Code → Making
  | 0, f => (rs.get f.registry).make clockPeriod fun name _ => .error (.tooDeep name)
  | depth + 1, f => (rs.get f.registry).make clockPeriod fun name inner =>
      nestBuild name (buildWithin rs clockPeriod depth inner)

theorem buildWithin_eq (rs : Registries) (clockPeriod depth : Nat) (f : Field) :
    buildWithin rs clockPeriod depth f = f.grid.build f.name (maker rs clockPeriod depth f) := by
  cases depth <;> rfl

theorem kind_of_nestBuild {name : String} {b : Except BuildError Build} {kind : Kind}
    {inner : List BuildIssue} (h : nestBuild name b = .ok (kind, inner)) :
    ∃ b', b = .ok b' ∧ kind = .nested b'.circuit.pins b'.circuit ∧ inner = b'.issues := by
  cases b with
  | error e => cases h
  | ok b' =>
    cases h
    exact ⟨b', rfl, rfl, rfl⟩

end Field

/-- What a code can be made into: a built-in kind, a scripted one, or what `nest` makes. -/
theorem Registry.make_cases {r : Registry Field} {period : Nat} {nest : String → Field → Making}
    {c : Code} {kind : Kind} {inner : List BuildIssue} (h : r.make period nest c = .ok (kind, inner)) :
    (Kind.builtin? period c = some kind ∧ inner = []) ∨
      ∃ e, r.lookup? c = some e ∧
        ((∃ script, e.source = .script script ∧ kind = .scripted { script } ∧ inner = []) ∨
          ∃ f, e.source = .circuit f ∧ nest e.name f = .ok (kind, inner)) := by
  unfold Registry.make at h
  split at h
  case h_1 k hk =>
    cases h
    exact .inl ⟨hk, rfl⟩
  case h_2 =>
    split at h
    case h_1 => cases h
    case h_2 e he =>
      split at h
      case h_1 script hs =>
        cases h
        exact .inr ⟨e, he, .inl ⟨script, hs, rfl, rfl⟩⟩
      case h_2 f hs => exact .inr ⟨e, he, .inr ⟨f, hs, h⟩⟩
      case h_3 => cases h

theorem Registry.lookup?_isCustom {r : Registry Field} {c : Code} {e : Entry Field}
    (h : r.lookup? c = some e) : c.isCustom = true := by
  cases c <;> first | rfl | cases h

theorem Registry.make_kinds {r : Registry Field} {period : Nat} {nest : String → Field → Making}
    {c : Code} {kind : Kind} {inner : List BuildIssue}
    (hn : ∀ name drawing, nest name drawing = .ok (kind, inner) →
      ∃ pins circuit, kind = .nested pins circuit) (h : r.make period nest c = .ok (kind, inner)) :
    Kind.builtin? period c = some kind ∧ inner = [] ∨ c.isCustom = true ∧
      ((∃ script, kind = .scripted { script }) ∨ ∃ pins circuit, kind = .nested pins circuit) := by
  obtain hk | ⟨e, he, hs⟩ := Registry.make_cases h
  · exact .inl hk
  · refine .inr ⟨Registry.lookup?_isCustom he, ?_⟩
    obtain ⟨script, -, hs, -⟩ | ⟨drawing, -, hd⟩ := hs
    · exact .inl ⟨script, hs⟩
    · exact .inr (hn _ _ hd)

/-- What the codes of a field are made into. -/
theorem Field.maker_cases {rs : Registries} {clockPeriod depth : Nat} {f : Field} {c : Code}
    {kind : Kind} {inner : List BuildIssue}
    (h : f.maker rs clockPeriod depth c = .ok (kind, inner)) :
    Kind.builtin? clockPeriod c = some kind ∧ inner = [] ∨ c.isCustom = true ∧
      ((∃ script, kind = .scripted { script }) ∨ ∃ pins circuit, kind = .nested pins circuit) := by
  cases depth with
  | zero =>
    rw [maker] at h
    refine Registry.make_kinds (fun name drawing hn => ?_) h
    cases hn
  | succ depth =>
    rw [maker] at h
    refine Registry.make_kinds (fun name drawing hn => ?_) h
    obtain ⟨b, -, rfl, -⟩ := kind_of_nestBuild hn
    exact ⟨_, _, rfl⟩

theorem Field.maker_custom (rs : Registries) (clockPeriod depth : Nat) (f : Field) {c : Code}
    (hc : c.isCustom = true) :
    f.maker rs clockPeriod depth c =
      match (rs.get f.registry).lookup? c, depth with
      | none, _ => .error (.unregistered c)
      | some ⟨_, .script script⟩, _ => .ok (.scripted { script }, [])
      | some ⟨name, .circuit _⟩, 0 => .error (.tooDeep name)
      | some ⟨name, .circuit drawing⟩, depth + 1 =>
        nestBuild name (buildWithin rs clockPeriod depth drawing)
      | some ⟨name, .unresolved reason⟩, _ => .error (.unresolved name reason) := by
  have hbuiltin : Kind.builtin? clockPeriod c = none := by
    cases c <;> first | rfl | cases hc
  cases depth <;> simp only [maker, Registry.make, hbuiltin] <;>
    rcases (rs.get f.registry).lookup? c with _ | ⟨name, _ | _ | _⟩ <;> rfl

theorem Field.maker_fixed (rs : Registries) (clockPeriod depth : Nat) (f : Field) (c : Code)
    (hg : c.groups = true) (hc : c.isCustom = false) :
    (f.maker rs clockPeriod depth c).isOk = true := by
  cases c <;> first | cases hg; done | cases hc; done | cases depth <;> rfl

theorem Field.maker_faithful (rs : Registries) (clockPeriod depth : Nat) (f : Field) :
    Faithful (f.maker rs clockPeriod depth) := by
  constructor
  case wire_isOk => cases depth <;> rfl
  case button_isOk => cases depth <;> rfl
  case isWire_iff =>
    intro c kind inner h
    obtain ⟨hk, -⟩ | ⟨hc, ⟨script, rfl⟩ | ⟨pins, circuit, rfl⟩⟩ := maker_cases h
    · cases c <;> cases hk <;> simp [Kind.isWire]
    all_goals cases c <;> simp_all [Code.isCustom, Code.customIndex?, Kind.isWire]
  case isButton_iff =>
    intro c kind inner h
    obtain ⟨hk, -⟩ | ⟨hc, ⟨script, rfl⟩ | ⟨pins, circuit, rfl⟩⟩ := maker_cases h
    · cases c <;> cases hk <;> simp [Kind.isButton]
    all_goals cases c <;> simp_all [Code.isCustom, Code.customIndex?, Kind.isButton]
  case groups =>
    intro c h
    cases hm : f.maker rs clockPeriod depth c with
    | error e => simp [hm, Except.isOk, Except.toBool] at h
    | ok m =>
      obtain ⟨hk, -⟩ | ⟨hc, -⟩ := maker_cases hm
      · cases c <;> first | rfl | cases hk
      · cases c <;> first | rfl | cases hc

namespace Grid

variable {g : Grid} {make : Code → Making} {name : String} {p q : Pos}

/-- The kind of the connection on a junction. -/
def junctionKind (g : Grid) (p : Pos) : ConnectionKind :=
  (ConnectionKind.ofCode? (g.get p)).getD .cross

theorem mem_junctions : p ∈ g.junctions ↔
    p ∈ g.positions ∧ (g.get p = .cross ∨ (g.get p).isConnector = true) := by
  simp [junctions, ← and_or_left]

theorem groups_of_mem_junctions (hp : p ∈ g.junctions) : (g.get p).groups = false := by
  obtain ⟨-, hc | hc⟩ := mem_junctions.1 hp
  · rw [hc]
    rfl
  · simp [Code.groups, hc]

theorem ofCode?_junction (hp : p ∈ g.junctions) :
    ConnectionKind.ofCode? (g.get p) = some (g.junctionKind p) := by
  obtain ⟨-, hc⟩ := mem_junctions.1 hp
  cases hg : g.get p <;> simp_all [junctionKind, ConnectionKind.ofCode?, Code.isConnector]

theorem junctions_nodup (g : Grid) : g.junctions.Nodup := by
  refine List.nodup_append.2
    ⟨g.positions_nodup.filter _, g.positions_nodup.filter _, fun p hp q hq he => ?_⟩
  subst he
  have hc : g.get p = .cross := by simpa using (List.mem_filter.1 hp).2
  have hc' := (List.mem_filter.1 hq).2
  simp [hc, Code.isConnector] at hc'

theorem siteOf_kind (p : Pos) : (g.siteOf make p).kind = g.junctionKind p := by
  rw [siteOf, junctionKind]
  split
  case isTrue h => rw [h]; rfl
  case isFalse => rfl

theorem siteOf_pos (p : Pos) : (g.siteOf make p).pos = p := by
  rw [siteOf]
  split <;> rfl

theorem circuitOf_components (g : Grid) (name : String) (make : Code → Making) :
    (g.circuitOf name make).components.map (fun m => (m.code, m.kind, m.cells)) =
      (g.builtHeads make).map fun p => (g.get p, (make (g.get p)).kind, g.classOf p) := by
  apply List.ext_getElem?
  intro i
  rw [List.getElem?_map, circuitOf, components_getElem?, List.getElem?_map, List.getElem?_map]
  cases (g.builtHeads make)[i]? <;> rfl

theorem circuitOf_connections (g : Grid) (name : String) (make : Code → Making) :
    (g.circuitOf name make).connections.toList.map (fun k => (k.pos, k.kind)) =
      g.junctions.map fun p => (p, g.junctionKind p) := by
  apply List.ext_getElem?
  intro id
  rw [List.getElem?_map, Array.getElem?_toList]
  show Option.map _ (Site.connections (g.junctions.map (g.siteOf make)))[id]? = _
  rw [Site.connections_getElem?, List.getElem?_map, List.getElem?_map]
  cases hp : g.junctions[id]? with
  | none => rfl
  | some p => simp [siteOf_pos, siteOf_kind]

/-- The classes that are made and the junctions, in the order of the tables. -/
theorem covered_circuitOf :
    (g.circuitOf name make).covered = (g.builtHeads make).flatMap g.classOf ++ g.junctions := by
  have hm := congrArg (List.map fun e : Code × Kind × List Pos => e.2.2)
    (circuitOf_components g name make)
  have hk := congrArg (List.map fun e : Pos × ConnectionKind => e.1)
    (circuitOf_connections g name make)
  simp only [List.map_map, Function.comp_def, List.map_id'] at hm hk
  rw [Circuit.covered, hk, List.flatMap_def, hm, ← List.flatMap_def]

/-- Cells of different classes are different, and no junction is in a class. -/
theorem covered_nodup : (g.circuitOf name make).covered.Nodup := by
  rw [covered_circuitOf, List.nodup_append, List.nodup_flatMap]
  refine ⟨⟨fun p _ => g.positions_nodup.filter _, ?_⟩, g.junctions_nodup, ?_⟩
  · refine (g.builtHeads_nodup make).imp_of_mem fun hp hq hne => ?_
    intro x hxp hxq
    obtain ⟨hp₁, -, hp₃⟩ := mem_heads.1 (mem_builtHeads.1 hp).1
    obtain ⟨hq₁, -, hq₃⟩ := mem_heads.1 (mem_builtHeads.1 hq).1
    have hE := g.connected_equivalence
    have hc := hE.trans (mem_classOf.1 hxp).2 (hE.symm (mem_classOf.1 hxq).2)
    exact hne (hp₃ ▸ hq₃ ▸ (root_eq_iff hp₁ hq₁).2 hc)
  · intro p hp q hq he
    subst he
    obtain ⟨h, hh, hph⟩ := List.mem_flatMap.1 hp
    have hg := (mem_heads.1 (mem_builtHeads.1 hh).1).2.1
    rw [← (mem_classOf.1 hph).2.get_eq, groups_of_mem_junctions hq] at hg
    cases hg

theorem mem_heads_of_mem_builtHeads (hp : p ∈ g.builtHeads make) : p ∈ g.heads :=
  (mem_builtHeads.1 hp).1

/-- What the tables of the circuit hold, entry by entry. -/
theorem circuitOf_component_iff {i : Nat} {m : Component} :
    (g.circuitOf name make).components[i]? = some m ↔
      ∃ h, (g.builtHeads make)[i]? = some h ∧
        m = (g.partOf make h).toComponent (g.circuitOf name make).connections i := by
  rw [circuitOf, components_eq_some]
  simp only [List.getElem?_map, Option.map_eq_some_iff]
  constructor
  · intro h
    obtain ⟨_, ⟨h, hh, rfl⟩, hm⟩ := h
    exact ⟨h, hh, hm⟩
  · intro h
    obtain ⟨h, hh, hm⟩ := h
    exact ⟨_, ⟨h, hh, rfl⟩, hm⟩

/-- A code that can be made is made into its kind. -/
theorem make_of_mem_builtHeads (hp : p ∈ g.builtHeads make) :
    ∃ inner, make (g.get p) = .ok ((make (g.get p)).kind, inner) := by
  have hok := (mem_builtHeads.1 hp).2
  cases hm : make (g.get p) with
  | error e => simp [hm, Except.isOk, Except.toBool] at hok
  | ok m => exact ⟨m.2, rfl⟩

theorem isButton_of_mem (hf : Faithful make) (hp : p ∈ g.builtHeads make) :
    (make (g.get p)).kind.isButton = true ↔ g.get p = .button := by
  obtain ⟨inner, hm⟩ := make_of_mem_builtHeads hp
  exact hf.isButton_iff _ _ _ hm

/-- The buttons are the classes of button cells. -/
theorem circuitOf_buttons (hf : Faithful make) :
    (g.circuitOf name make).buttons.map ((g.circuitOf name make).components[·]?.map Component.cells) =
      (g.heads.filter fun p => g.get p = .button).map fun p => some (g.classOf p) := by
  have hcells : ((g.circuitOf name make).components.filter Component.isButton).map (·.cells) =
      (g.heads.filter fun p => g.get p = .button).map g.classOf := by
    have ht := congrArg (fun es => (es.filter fun e : Code × Kind × List Pos => e.2.1.isButton).map
      (·.2.2)) (circuitOf_components g name make)
    simp only [List.filter_map, List.map_map, Function.comp_def] at ht
    refine ht.trans ?_
    congr 1
    rw [builtHeads, List.filter_filter]
    apply List.filter_congr
    intro p hp
    rw [Bool.eq_iff_iff, Bool.and_eq_true, decide_eq_true_iff]
    constructor
    · intro h
      exact (isButton_of_mem hf (mem_builtHeads.2 ⟨hp, h.2⟩)).1 h.1
    · intro h
      have hok : (make (g.get p)).isOk = true := by rw [h]; exact hf.button_isOk
      exact ⟨(isButton_of_mem hf (mem_builtHeads.2 ⟨hp, hok⟩)).2 h, hok⟩
  have hb := map_getElem?_filter_range (g.circuitOf name make).components Component.isButton
  have hb' := congrArg (List.map (Option.map Component.cells)) hb
  rw [List.map_map, List.map_map] at hb'
  refine hb'.trans ?_
  have hsome := congrArg (List.map some) hcells
  rwa [List.map_map, List.map_map] at hsome

/-- A build has the classes of a drawing that can be made as its components, and nothing else. -/
structure Realized (g : Grid) (make : Code → Making) (b : Build) : Prop where
  /-- Each class that can be made is one component, listed by first cell. -/
  components_eq : b.circuit.components.map (·.cells) =
    (g.heads.filter fun p => (make (g.get p)).isOk).map g.classOf
  component_of_cell : ∀ p ∈ g.positions, (make (g.get p)).isOk = true →
    ∃! i : Nat, (b.circuit.components[i]?).map Component.cells = some (g.classOf p)
  made : ∀ m ∈ b.circuit.components,
    (∀ p ∈ m.cells, g.get p = m.code) ∧ ∃ inner, make m.code = .ok (m.kind, inner)
  /-- Each other class is one issue at its first cell, in the same order. -/
  issues_eq : b.issues = g.heads.flatMap (g.issuesAt make)
  buttons_eq : b.circuit.buttons.map (b.circuit.components[·]?.map Component.cells) =
    (g.heads.filter fun p => g.get p = .button).map fun p => some (g.classOf p)
  connections_eq : b.circuit.connections.toList.map (·.pos) =
    (g.positions.filter fun p => g.get p = .cross) ++
      g.positions.filter fun p => (g.get p).isConnector
  connection_kind : ∀ k ∈ b.circuit.connections.toList,
    ConnectionKind.ofCode? (g.get k.pos) = some k.kind
  /-- The circuit answers for the cells that are covered, and none is covered twice. -/
  level_isSome : ∀ p, (b.circuit.levelAt? p).isSome = true ↔ b.circuit.covered.count p = 1
  covered_iff : ∀ p, p ∈ b.circuit.covered ↔ p ∈ g.positions ∧
    ((g.get p).isConnector = true ∨ g.get p = .cross ∨ (make (g.get p)).isOk = true)
  level_component : ∀ m ∈ b.circuit.components, ∀ p ∈ m.cells,
    b.circuit.levelAt? p = some m.level
  level_connection : ∀ k ∈ b.circuit.connections.toList, b.circuit.levelAt? k.pos = some k.active

theorem covered_iff (hf : Faithful make) : p ∈ (g.circuitOf name make).covered ↔ p ∈ g.positions ∧
    ((g.get p).isConnector = true ∨ g.get p = .cross ∨ (make (g.get p)).isOk = true) := by
  rw [covered_circuitOf, List.mem_append, mem_junctions, List.mem_flatMap]
  constructor
  · intro h
    obtain ⟨h, hh, hp⟩ | ⟨hp, hc⟩ := h
    · obtain ⟨hp, hc⟩ := mem_classOf.1 hp
      exact ⟨hp, .inr (.inr (hc.get_eq ▸ (mem_builtHeads.1 hh).2))⟩
    · exact ⟨hp, hc.elim (fun h => .inr (.inl h)) .inl⟩
  · intro h
    obtain ⟨hp, hc | hc | hc⟩ := h
    · exact .inr ⟨hp, .inr hc⟩
    · exact .inr ⟨hp, .inl hc⟩
    · refine .inl ⟨g.root p, mem_builtHeads.2 ⟨root_mem_heads hp (hf.groups _ hc), ?_⟩, ?_⟩
      · rw [get_root hp]
        exact hc
      · rw [classOf_root hp]
        exact self_mem_classOf hp

theorem count_eq_one_iff {α : Type} [DecidableEq α] {xs : List α} (h : xs.Nodup) {a : α} :
    xs.count a = 1 ↔ a ∈ xs := by
  constructor
  · intro hc
    exact List.count_pos_iff.1 (by omega)
  · exact List.count_eq_one_of_mem h

/-- The number of the component for a class that is made. -/
theorem classOf_index (hf : Faithful make) (hp : p ∈ g.positions)
    (hok : (make (g.get p)).isOk = true) :
    ∃! i : Nat, ((g.circuitOf name make).components[i]?).map Component.cells = some (g.classOf p) := by
  have hcells : ∀ i : Nat, ((g.circuitOf name make).components[i]?).map Component.cells =
      ((g.builtHeads make)[i]?).map g.classOf := by
    intro i
    have ht := congrArg (fun es : List (Code × Kind × List Pos) => (es[i]?).map (·.2.2))
      (circuitOf_components g name make)
    simpa only [List.getElem?_map, Option.map_map, Function.comp_def] using ht
  have hroot : g.root p ∈ g.builtHeads make :=
    mem_builtHeads.2 ⟨root_mem_heads hp (hf.groups _ hok), by rw [get_root hp]; exact hok⟩
  obtain ⟨i, hi⟩ := List.getElem?_of_mem hroot
  refine ⟨i, ?_, fun j hj => ?_⟩
  · exact (hcells i).trans (by rw [hi, Option.map_some, classOf_root hp])
  obtain ⟨h, hh, hc⟩ := Option.map_eq_some_iff.1 ((hcells j).symm.trans hj)
  obtain ⟨hh₁, -, hh₃⟩ := mem_heads.1 (mem_heads_of_mem_builtHeads (List.mem_of_getElem? hh))
  have hconn : g.Connected h p := (mem_classOf.1 (hc ▸ self_mem_classOf hp)).2
  have heq : h = g.root p := hh₃.symm.trans ((root_eq_iff hh₁ hp).2 hconn)
  obtain ⟨hlt, hget⟩ := List.getElem?_eq_some_iff.1 hh
  obtain ⟨hlt', hget'⟩ := List.getElem?_eq_some_iff.1 hi
  exact ((g.builtHeads_nodup make).getElem_inj_iff).1 (hget.trans (heq.trans hget'.symm))

/-- Building a drawing realizes its classes. -/
theorem circuitOf_realized (hf : Faithful make) :
    g.Realized make ⟨g.circuitOf name make, g.heads.flatMap (g.issuesAt make)⟩ := by
  have hn : (g.circuitOf name make).covered.Nodup := covered_nodup
  constructor
  case components_eq =>
    have ht := congrArg (List.map fun e : Code × Kind × List Pos => e.2.2)
      (circuitOf_components g name make)
    rwa [List.map_map, List.map_map] at ht
  case component_of_cell => exact fun p hp hok => classOf_index hf hp hok
  case made =>
    intro m hm
    obtain ⟨i, hi⟩ := List.getElem?_of_mem hm
    obtain ⟨h, hh, rfl⟩ := circuitOf_component_iff.1 hi
    refine ⟨fun p hp => (mem_classOf.1 hp).2.get_eq, ?_⟩
    exact make_of_mem_builtHeads (List.mem_of_getElem? hh)
  case issues_eq => rfl
  case buttons_eq => exact circuitOf_buttons hf
  case connections_eq =>
    have ht := congrArg (List.map fun e : Pos × ConnectionKind => e.1)
      (circuitOf_connections g name make)
    rw [List.map_map, List.map_map] at ht
    exact ht.trans (List.map_id' _)
  case connection_kind =>
    intro k hk
    have hmem := List.mem_map_of_mem (f := fun k : Connection => (k.pos, k.kind)) hk
    rw [circuitOf_connections, List.mem_map] at hmem
    obtain ⟨p, hp, he⟩ := hmem
    obtain ⟨rfl, hkind⟩ := Prod.mk.inj he
    rw [ofCode?_junction hp, hkind]
  case level_isSome =>
    intro p
    rw [Circuit.levelAt?_isSome, count_eq_one_iff hn]
  case covered_iff => exact fun p => covered_iff hf
  case level_component => exact fun m hm p hp => Circuit.levelAt?_component hn hm hp
  case level_connection => exact fun k hk => Circuit.levelAt?_connection hn hk

end Grid

/-- The components of a built field are exactly the classes of its drawing that can be made. -/
theorem Field.build_realized (rs : Registries) (clockPeriod : Nat) (f : Field)
    (he : f.grid.Exact) : ∃ b, f.build rs clockPeriod = .ok b ∧
      f.grid.Realized (f.maker rs clockPeriod maxNesting) b := by
  have hb : f.build rs clockPeriod = .ok _ :=
    (buildWithin_eq rs clockPeriod maxNesting f).trans (Grid.build_eq he f.name _)
  exact ⟨_, hb, Grid.circuitOf_realized (f.maker_faithful rs clockPeriod maxNesting)⟩

/-- A button and a wire with an output between them, and a hole below. -/
def sampleField : Field where
  name := "sample"
  grid := ⟨3, 2, #v[.button, .output, .wire, .empty, .custom 0, .wire]⟩
  registry := ⟨0⟩

theorem sampleField_realized : sampleField.grid.Exact ∧ ∃ b, sampleField.build {} 0 = .ok b ∧
    sampleField.grid.Realized (sampleField.maker {} 0 maxNesting) b :=
  ⟨by decide, Field.build_realized {} 0 sampleField (by decide)⟩

end GridCircuit
