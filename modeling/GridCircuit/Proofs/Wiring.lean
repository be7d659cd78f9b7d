import GridCircuit.Proofs.Fields

/-!
# How a built circuit is attached

Every connection of a built circuit looks around its cell: the wire on the first wire cell is one of
its ends, the first component that is no wire is the other. The kind of the connection says which of
the two writes. A component has one clock, the first that asks for it. The same holds for the circuits
inside, each with respect to the drawing it was made from.
-/

namespace GridCircuit

namespace Grid

/-- The first wire cell next to a cell. -/
def wireNear? (g : Grid) (p : Pos) : Option Pos :=
  p.neighbors.find? fun q => q ∈ g.positions ∧ g.get q = .wire

/-- The first cell next to a cell whose code is made into a component that is no wire. -/
def otherNear? (g : Grid) (made : Code → Bool) (p : Pos) : Option Pos :=
  p.neighbors.find? fun q => q ∈ g.positions ∧ made (g.get q) = true ∧ g.get q ≠ .wire

end Grid

namespace Circuit

/-- The wire on the first wire cell next to a cell. -/
def wireSide? (c : Circuit) (g : Grid) (p : Pos) : Option Nat := (g.wireNear? p).bind c.componentAt?

/-- The first component next to a cell that is no wire. -/
def otherSide? (c : Circuit) (g : Grid) (made : Code → Bool) (p : Pos) : Option Nat :=
  (g.otherNear? made p).bind c.componentAt?

/-- The circuit is wired, and by what lies around the connectors of the drawing. The codes in `made` are
those that are made into components. -/
structure Attached (c : Circuit) (g : Grid) (made : Code → Bool) : Prop where
  wired : c.Wired
  /-- Every cell of such a code has a component, so what a connector finds next to it is one. -/
  component_iff : ∀ p, (c.componentAt? p).isSome = true ↔ p ∈ g.positions ∧ made (g.get p) = true
  code_eq : ∀ p i m, c.componentAt? p = some i → c.components[i]? = some m → m.code = g.get p
  connections_eq : c.connections.toList.map (·.pos) =
    (g.positions.filter fun p => g.get p = .cross) ++
      g.positions.filter fun p => (g.get p).isConnector
  kind_eq : ∀ k ∈ c.connections.toList, ConnectionKind.ofCode? (g.get k.pos) = some k.kind
  output : ∀ k ∈ c.connections.toList, k.kind = .output →
    k.driver = c.otherSide? g made k.pos ∧ k.sink = c.wireSide? g k.pos
  input : ∀ k ∈ c.connections.toList, k.kind = .input →
    k.driver = c.wireSide? g k.pos ∧ k.sink = c.otherSide? g made k.pos
  /-- Only the clock connection that a component has taken ends in it. -/
  clockInput : ∀ (id : Nat) (k : Connection), c.connections[id]? = some k → k.kind = .clockInput →
    k.driver = c.wireSide? g k.pos ∧ k.sink = (c.otherSide? g made k.pos).filter fun i =>
      c.components[i]?.any fun m => m.clock = some id
  clock_eq : ∀ (i : Nat) (m : Component), c.components[i]? = some m →
    m.clock = c.connections.findIdx? fun k =>
      k.kind = .clockInput && c.otherSide? g made k.pos = some i

end Circuit

/-- The drawing behind a code of a field, if it is one. -/
def Registries.drawingOf? (rs : Registries) (f : Field) (c : Code) : Option Field :=
  ((rs.get f.registry).lookup? c).bind fun e =>
    match e.source with
    | .circuit drawing => some drawing
    | _ => none

/-- Whether a code of a field is made into a component when parts may be nested to a depth. A custom one
is if it stands for a script, or for a drawing that is not too deep. -/
def Registries.makes (rs : Registries) (f : Field) (depth : Nat) (c : Code) : Bool :=
  c.groups && (!c.isCustom || ((rs.get f.registry).lookup? c).any fun e =>
    match e.source with
    | .script _ => true
    | .circuit _ => 0 < depth
    | .unresolved _ => false)

/-- The pins are connections of the circuit, in rising order. -/
structure Pins.Within (pins : Pins) (bus : Bus) : Prop where
  lt_size : ∀ id, id ∈ pins.inputs ∨ id ∈ pins.outputs ∨ pins.clock = some id → id < bus.size
  rising : pins.inputs.Pairwise (· < ·) ∧ pins.outputs.Pairwise (· < ·)

/-- A circuit is attached as its field asks, and so is every circuit inside it, for the drawing that
the code of its component names. The pins of an inner circuit are those that it has. -/
inductive Field.Attached (rs : Registries) : Nat → Field → Circuit → Prop where
  | intro {depth : Nat} {f : Field} {c : Circuit} (attached : c.Attached f.grid (rs.makes f depth))
      (nested : ∀ m ∈ c.components, ∀ pins inner, m.kind = .nested pins inner →
        pins = inner.pins ∧ pins.Within inner.connections ∧
          (rs.drawingOf? f m.code).isSome = true)
      (inside : ∀ m ∈ c.components, ∀ pins inner, m.kind = .nested pins inner →
        ∀ drawing, rs.drawingOf? f m.code = some drawing →
          Field.Attached rs (depth - 1) drawing inner) :
      Field.Attached rs depth f c

/-- The grids of all drawings in the registries have sides whose product fits a word. -/
def Registries.Exact (rs : Registries) : Prop :=
  ∀ r ∈ rs.all, ∀ e ∈ r.entries, ∀ drawing, e.source = .circuit drawing → drawing.grid.Exact

/-- No grid that is labelled when a field is built has as many cells as there are labels. -/
structure Field.Labellable (rs : Registries) (f : Field) : Prop where
  grid : f.grid.Labellable
  parts : ∀ r ∈ rs.all, ∀ e ∈ r.entries, ∀ drawing, e.source = .circuit drawing →
    drawing.grid.Labellable

theorem Field.Labellable.exact {rs : Registries} {f : Field} (h : f.Labellable rs) : rs.Exact :=
  fun r hr e he drawing hd => (h.parts r hr e he drawing hd).exact

theorem Registries.Exact.drawingOf? {rs : Registries} (hr : rs.Exact) {f : Field} {c : Code}
    {drawing : Field} (h : rs.drawingOf? f c = some drawing) : drawing.grid.Exact := by
  obtain ⟨e, he, hs⟩ := Option.bind_eq_some_iff.1 h
  obtain ⟨i, -, hi⟩ := Option.bind_eq_some_iff.1 he
  have hsource : e.source = .circuit drawing := by
    split at hs
    case h_1 d hd => rw [hd, Option.some.inj hs]
    case h_2 => cases hs
  have hmem : rs.get f.registry ∈ rs.all := by
    rw [Registries.get] at hi ⊢
    cases hget : rs.all[f.registry.index]? with
    | none => simp [hget] at hi
    | some r => exact Array.mem_of_getElem? hget
  exact hr _ hmem e (List.mem_of_getElem? hi) drawing hsource

/-- Looking for the first element that gives a result is looking for the first accepted one, if every
accepted one gives a result. -/
theorem findSome?_eq_find?_bind {α β : Type} {F G : α → Option β} {P : α → Bool}
    (hF : ∀ a, F a = if P a then G a else none) (hG : ∀ a, P a = true → (G a).isSome = true) :
    ∀ xs : List α, xs.findSome? F = (xs.find? P).bind G := by
  intro xs
  induction xs with
  | nil => rfl
  | cons a xs ih =>
    rw [List.findSome?_cons, List.find?_cons, hF]
    cases hP : P a with
    | false => simpa using ih
    | true =>
      obtain ⟨b, hb⟩ := Option.isSome_iff_exists.1 (hG a hP)
      simp [hb]

theorem findIdx?_toList {α : Type} (xs : Array α) (P : α → Bool) :
    xs.findIdx? P = xs.toList.findIdx? P := by
  cases xs
  exact List.findIdx?_toArray _ _

namespace Grid

variable {g : Grid} {make : Code → Making} {name : String} {p q : Pos} {i : Nat}

theorem indexOf?_eq_some (h : g.indexOf? make q = some i) :
    (g.builtHeads make)[i]? = some (g.root q) ∧ q ∈ g.positions ∧ (g.get q).groups = true := by
  obtain ⟨hlt, hP, -⟩ := List.findIdx?_eq_some_iff_getElem.1 h
  have hroot : (g.builtHeads make)[i] = g.root q := by simpa using hP
  have hget : (g.builtHeads make)[i]? = some (g.root q) := hroot ▸ List.getElem?_eq_getElem hlt
  exact ⟨hget, root_mem_heads_iff.1 (mem_heads_of_mem_builtHeads (List.mem_of_getElem? hget))⟩

theorem indexOf?_isSome (hf : Faithful make) (hq : q ∈ g.positions)
    (hok : (make (g.get q)).isOk = true) : (g.indexOf? make q).isSome = true := by
  have hroot : g.root q ∈ g.builtHeads make :=
    mem_builtHeads.2 ⟨root_mem_heads hq (hf.groups _ hok), by rw [get_root hq]; exact hok⟩
  rw [indexOf?, List.findIdx?_isSome, List.any_eq_true]
  exact ⟨_, hroot, by simp⟩

theorem componentAt?_circuitOf (q : Pos) :
    (g.circuitOf name make).componentAt? q = g.indexOf? make q := by
  have hcells := congrArg (List.map fun e : Code × Kind × List Pos => e.2.2)
    (circuitOf_components g name make)
  rw [List.map_map, List.map_map] at hcells
  have hfind := congrArg (List.findIdx? fun cells : List Pos => decide (q ∈ cells)) hcells
  rw [List.findIdx?_map, List.findIdx?_map] at hfind
  refine hfind.trans (findIdx?_congr fun h hh => ?_)
  obtain ⟨hh₁, -, hh₃⟩ := mem_heads.1 (mem_heads_of_mem_builtHeads hh)
  simp only [Function.comp_apply, decide_eq_decide, mem_classOf]
  constructor
  · intro h
    obtain ⟨hq, hc⟩ := h
    exact hh₃.symm.trans ((root_eq_iff hh₁ hq).2 hc)
  · intro he
    have hq := (root_mem_heads_iff.1 (he ▸ mem_heads_of_mem_builtHeads hh)).1
    exact ⟨hq, (root_eq_iff hh₁ hq).1 (hh₃.trans he)⟩

theorem mem_positions_of_indexOf? (h : (g.indexOf? make q).isSome = true) : q ∈ g.positions := by
  obtain ⟨i, hi⟩ := Option.isSome_iff_exists.1 h
  exact (indexOf?_eq_some hi).2.1

theorem indexOf?_isSome_iff (hf : Faithful make) : (g.indexOf? make q).isSome = true ↔
    q ∈ g.positions ∧ (make (g.get q)).isOk = true := by
  refine ⟨fun h => ⟨mem_positions_of_indexOf? h, ?_⟩, fun ⟨hq, hok⟩ => indexOf?_isSome hf hq hok⟩
  obtain ⟨i, hi⟩ := Option.isSome_iff_exists.1 h
  obtain ⟨hroot, hq, -⟩ := indexOf?_eq_some hi
  obtain ⟨inner, hmake⟩ := make_of_mem_builtHeads (List.mem_of_getElem? hroot)
  rw [← get_root hq, hmake]
  rfl

/-- The component that looking around finds is that at the first cell of the right kind. -/
theorem neighborIndex?_eq (hf : Faithful make) (accept : Code → Bool) (name : String) (p : Pos) :
    g.neighborIndex? make p accept = (p.neighbors.find? fun q =>
      q ∈ g.positions ∧ (make (g.get q)).isOk = true ∧ accept (g.get q) = true).bind
        (g.circuitOf name make).componentAt? := by
  have hindex : (g.circuitOf name make).componentAt? = g.indexOf? make :=
    funext fun q => componentAt?_circuitOf q
  rw [neighborIndex?, hindex]
  refine findSome?_eq_find?_bind (fun q => ?_) (fun q hq => ?_) p.neighbors
  · by_cases hq : (g.indexOf? make q).isSome = true
    · obtain ⟨hpos, hok⟩ := (indexOf?_isSome_iff hf).1 hq
      simp [hpos, hok]
    · rw [Option.not_isSome_iff_eq_none.1 hq, ite_self, ite_self]
  · obtain ⟨hpos, hok, -⟩ := of_decide_eq_true hq
    exact indexOf?_isSome hf hpos hok

variable {made : Code → Bool}

theorem wireSide?_circuitOf (hf : Faithful make) (p : Pos) :
    (g.circuitOf name make).wireSide? g p = g.neighborIndex? make p Code.isWire := by
  rw [neighborIndex?_eq hf _ name, Circuit.wireSide?, wireNear?]
  congr 2
  funext q
  rw [decide_eq_decide]
  refine and_congr_right fun _ => ⟨fun hw => ?_, fun ⟨_, hw⟩ => of_decide_eq_true hw⟩
  rw [hw]
  exact ⟨hf.wire_isOk, rfl⟩

theorem otherSide?_circuitOf (hf : Faithful make) (hm : ∀ c, made c = (make c).isOk) (p : Pos) :
    (g.circuitOf name make).otherSide? g made p = g.neighborIndex? make p (!·.isWire) := by
  rw [neighborIndex?_eq hf _ name, Circuit.otherSide?, otherNear?]
  simp only [hm, Code.isWire, Bool.not_eq_true', decide_eq_false_iff_not]

/-- Sides that looking around finds are as they should be: wires here, everything else there. -/
theorem neighborIndex?_part (hf : Faithful make) {accept : Code → Bool}
    (h : g.neighborIndex? make p accept = some i) :
    ∃ c part, ((g.builtHeads make).map (g.partOf make))[i]? = some part ∧
      accept c = true ∧ (part.kind.isWire = true ↔ c = .wire) := by
  obtain ⟨q, -, hq⟩ := List.exists_of_findSome?_eq_some h
  split at hq
  case isFalse => cases hq
  case isTrue ha =>
    obtain ⟨hroot, hpos, -⟩ := indexOf?_eq_some hq
    obtain ⟨inner, hmake⟩ := make_of_mem_builtHeads (List.mem_of_getElem? hroot)
    refine ⟨g.get q, g.partOf make (g.root q), by rw [List.getElem?_map, hroot]; rfl, ha, ?_⟩
    rw [partOf, hf.isWire_iff _ _ _ hmake, get_root hpos]

theorem siteOf_fits (hf : Faithful make) (p : Pos) :
    (g.siteOf make p).Fits ((g.builtHeads make).map (g.partOf make)) := by
  unfold siteOf
  split
  case isTrue =>
    constructor
    · intro i h
      cases h
    · intro i h
      cases h
  case isFalse =>
    constructor
    · intro i h
      obtain ⟨c, part, hp, hc, hw⟩ := neighborIndex?_part hf h
      exact ⟨part, hp, hw.2 (by simpa [Code.isWire] using hc)⟩
    · intro i h
      have h : g.neighborIndex? make p (!·.isWire) = some i := h
      obtain ⟨c, part, hp, hc, hw⟩ := neighborIndex?_part hf h
      refine ⟨part, hp, ?_⟩
      rw [← Bool.not_eq_true, hw]
      simpa [Code.isWire] using hc

theorem circuitOf_wired (hf : Faithful make) : (g.circuitOf name make).Wired := by
  apply Circuit.assemble_wired
  intro s hs
  obtain ⟨p, -, rfl⟩ := List.mem_map.1 hs
  exact siteOf_fits hf p

/-- The connections of the circuit, entry by entry. -/
theorem circuitOf_connection_iff {id : Nat} {k : Connection} :
    (g.circuitOf name make).connections[id]? = some k ↔ ∃ p, g.junctions[id]? = some p ∧
      k = { pos := p, kind := g.junctionKind p, driver := (g.siteOf make p).driver
            sink := (g.siteOf make p).sink (g.junctions.map (g.siteOf make)) id } := by
  rw [circuitOf, Circuit.assemble, Site.connections_eq_some]
  simp only [List.getElem?_map, Option.map_eq_some_iff]
  constructor
  · intro h
    obtain ⟨_, ⟨p, hp, rfl⟩, hk⟩ := h
    exact ⟨p, hp, by rw [hk, siteOf_pos, siteOf_kind]⟩
  · intro h
    obtain ⟨p, hp, hk⟩ := h
    exact ⟨_, ⟨p, hp, rfl⟩, by rw [hk, siteOf_pos, siteOf_kind]⟩

section Sides

variable {made : Code → Bool} (hf : Faithful make) (hmade : ∀ c, made c = (make c).isOk)

include hf hmade

/-- The sides of a connector are what its cell sees. -/
theorem siteOf_sides (name : String) (hp : g.junctionKind p ≠ .cross) :
    (g.siteOf make p).wire = (g.circuitOf name make).wireSide? g p ∧
      (g.siteOf make p).other = (g.circuitOf name make).otherSide? g made p := by
  have hc : g.get p ≠ .cross := fun h => hp (by rw [junctionKind, h]; rfl)
  rw [siteOf, if_neg hc, wireSide?_circuitOf hf, otherSide?_circuitOf hf hmade]
  exact ⟨rfl, rfl⟩

/-- The clock of a part is found by looking around the clock connectors in order. -/
theorem clockOf?_circuitOf :
    Site.clockOf? (g.junctions.map (g.siteOf make)) i =
      (g.circuitOf name make).connections.findIdx? fun k =>
        k.kind = .clockInput && (g.circuitOf name make).otherSide? g made k.pos = some i := by
  have hkinds := congrArg (List.findIdx? fun e : Pos × ConnectionKind =>
    e.2 = .clockInput && (g.circuitOf name make).otherSide? g made e.1 = some i)
    (circuitOf_connections g name make)
  rw [List.findIdx?_map, List.findIdx?_map] at hkinds
  rw [Site.clockOf?, List.findIdx?_map, findIdx?_toList]
  refine Eq.trans (findIdx?_congr fun p _ => ?_) hkinds.symm
  simp only [Function.comp_apply, Site.clocks, siteOf_kind]
  by_cases hk : g.junctionKind p = .clockInput
  · have hne : g.junctionKind p ≠ .cross := by simp [hk]
    rw [(siteOf_sides hf hmade name hne).2]
  · simp [hk]

/-- The ends of a connection are the two sides of its cell, in the order of its kind. -/
theorem circuitOf_ends {id : Nat} {k : Connection}
    (hk : (g.circuitOf name make).connections[id]? = some k) (hc : k.kind ≠ .cross) :
    ∃ s : Site, s.kind = k.kind ∧ s.wire = (g.circuitOf name make).wireSide? g k.pos ∧
      s.other = (g.circuitOf name make).otherSide? g made k.pos ∧ k.driver = s.driver ∧
      k.sink = s.sink (g.junctions.map (g.siteOf make)) id := by
  obtain ⟨p, -, rfl⟩ := circuitOf_connection_iff.1 hk
  obtain ⟨hw, ho⟩ := siteOf_sides hf hmade name hc
  exact ⟨_, siteOf_kind p, hw, ho, rfl, rfl⟩

end Sides

theorem circuitOf_clock {m : Component} (hm : (g.circuitOf name make).components[i]? = some m) :
    m.clock = Site.clockOf? (g.junctions.map (g.siteOf make)) i := by
  obtain ⟨h, -, rfl⟩ := circuitOf_component_iff.1 hm
  exact Site.clock_eq _

theorem circuitOf_attached (hf : Faithful make) {made : Code → Bool}
    (hmade : ∀ c, made c = (make c).isOk) : (g.circuitOf name make).Attached g made := by
  have hr : g.Realized make ⟨g.circuitOf name make, _⟩ := circuitOf_realized hf
  constructor
  case wired => exact circuitOf_wired hf
  case component_iff =>
    intro p
    rw [componentAt?_circuitOf, indexOf?_isSome_iff hf, hmade]
  case code_eq =>
    intro p i m hi hm
    rw [componentAt?_circuitOf] at hi
    obtain ⟨hroot, hp, -⟩ := indexOf?_eq_some hi
    obtain ⟨h, hh, rfl⟩ := circuitOf_component_iff.1 hm
    obtain rfl := Option.some.inj (hroot.symm.trans hh)
    exact get_root hp
  case connections_eq => exact hr.connections_eq
  case kind_eq => exact hr.connection_kind
  case output =>
    intro k hk hkind
    obtain ⟨id, hid⟩ := Array.getElem?_of_mem (Array.mem_toList_iff.1 hk)
    obtain ⟨s, hs, hw, ho, hdriver, hsink⟩ := circuitOf_ends hf hmade hid (by simp [hkind])
    rw [hkind] at hs
    simp [hdriver, hsink, Site.driver, Site.sink, hs, hw, ho]
  case input =>
    intro k hk hkind
    obtain ⟨id, hid⟩ := Array.getElem?_of_mem (Array.mem_toList_iff.1 hk)
    obtain ⟨s, hs, hw, ho, hdriver, hsink⟩ := circuitOf_ends hf hmade hid (by simp [hkind])
    rw [hkind] at hs
    simp [hdriver, hsink, Site.driver, Site.sink, hs, hw, ho]
  case clockInput =>
    intro id k hid hkind
    obtain ⟨s, hs, hw, ho, hdriver, hsink⟩ := circuitOf_ends hf hmade hid (by simp [hkind])
    rw [hkind] at hs
    simp only [hdriver, hsink, Site.driver, Site.sink, hs, hw, ho, true_and]
    cases hside : (g.circuitOf name make).otherSide? g made k.pos with
    | none => rfl
    | some i =>
      obtain ⟨q, -, hq⟩ := Option.bind_eq_some_iff.1 hside
      rw [componentAt?_circuitOf] at hq
      have hm : (g.circuitOf name make).components[i]? = some _ :=
        circuitOf_component_iff.2 ⟨_, (indexOf?_eq_some hq).1, rfl⟩
      rw [Option.filter_some, Option.filter_some, hm, Option.any_some, circuitOf_clock hm]
  case clock_eq =>
    intro i m hm
    rw [circuitOf_clock hm, clockOf?_circuitOf hf hmade]

end Grid

theorem Circuit.pins_within (c : Circuit) : c.pins.Within c.connections := by
  constructor
  case lt_size =>
    intro id h
    obtain h | h | h := h
    · obtain ⟨k, hk, -⟩ := mem_connectionsWhere.1 h
      exact (Array.getElem?_eq_some_iff.1 hk).1
    · obtain ⟨k, hk, -⟩ := mem_connectionsWhere.1 h
      exact (Array.getElem?_eq_some_iff.1 hk).1
    · exact (Array.findIdx?_eq_some_iff_getElem.1 h).1
  case rising => exact ⟨pairwise_connectionsWhere _ _, pairwise_connectionsWhere _ _⟩

namespace Field

variable {rs : Registries} {clockPeriod : Nat}

/-- A circuit inside a circuit was built from the drawing that the code names, one level down. -/
theorem nested_of_maker {depth : Nat} {f : Field} {c : Code} {pins : Pins} {inner : Circuit}
    {issues : List BuildIssue}
    (h : f.maker rs clockPeriod depth c = .ok (.nested pins inner, issues)) :
    ∃ drawing b depth', depth = depth' + 1 ∧ rs.drawingOf? f c = some drawing ∧
      buildWithin rs clockPeriod depth' drawing = .ok b ∧ inner = b.circuit ∧ pins = inner.pins := by
  have hmake : ∀ nest, (rs.get f.registry).make clockPeriod nest c = .ok (.nested pins inner, issues) →
      ∃ name drawing, rs.drawingOf? f c = some drawing ∧
        nest name drawing = .ok (.nested pins inner, issues) := by
    intro nest hn
    obtain ⟨hk, -⟩ | ⟨e, he, ⟨script, -, hs, -⟩ | ⟨drawing, hs, hn⟩⟩ := Registry.make_cases hn
    · cases c <;> cases hk
    · cases hs
    · exact ⟨e.name, drawing, by simp [Registries.drawingOf?, he, hs], hn⟩
  cases depth with
  | zero =>
    rw [maker] at h
    obtain ⟨name, drawing, -, hn⟩ := hmake _ h
    cases hn
  | succ depth =>
    rw [maker] at h
    obtain ⟨name, drawing, hd, hn⟩ := hmake _ h
    obtain ⟨b, hb, hkind, -⟩ := kind_of_nestBuild hn
    obtain ⟨rfl, rfl⟩ := Kind.nested.inj hkind
    exact ⟨drawing, b, depth, rfl, hd, hb, rfl, rfl⟩

theorem buildWithin_circuitOf (rs : Registries) (clockPeriod depth : Nat) {f : Field}
    (he : f.grid.Exact) :
    ∃ b, buildWithin rs clockPeriod depth f = .ok b ∧
      b.circuit = f.grid.circuitOf f.name (f.maker rs clockPeriod depth) :=
  ⟨_, (buildWithin_eq rs clockPeriod depth f).trans (Grid.build_eq he f.name _), rfl⟩

/-- The circuit inside a component of a built circuit was built itself, one level down. -/
theorem drawing_of_nested {depth : Nat} {f : Field} (he : f.grid.Exact) {b : Build}
    (hb : buildWithin rs clockPeriod depth f = .ok b) {m : Component} (hm : m ∈ b.circuit.components)
    {pins : Pins} {inner : Circuit} (hkind : m.kind = .nested pins inner) :
    ∃ drawing b' depth', depth = depth' + 1 ∧ rs.drawingOf? f m.code = some drawing ∧
      buildWithin rs clockPeriod depth' drawing = .ok b' ∧ inner = b'.circuit ∧ pins = inner.pins := by
  obtain ⟨b', hb', hc⟩ := buildWithin_circuitOf rs clockPeriod depth he
  obtain rfl := Except.ok.inj (hb.symm.trans hb')
  rw [hc] at hm
  obtain ⟨i, hi⟩ := List.getElem?_of_mem hm
  obtain ⟨h, hh, rfl⟩ := Grid.circuitOf_component_iff.1 hi
  obtain ⟨issues, hmake⟩ := Grid.make_of_mem_builtHeads (List.mem_of_getElem? hh)
  have hkind' : (f.maker rs clockPeriod depth (f.grid.get h)).kind = .nested pins inner := hkind
  rw [hkind'] at hmake
  exact nested_of_maker hmake

/-- The codes that are made are those that stand for something, as parts themselves are always built. -/
theorem maker_isOk (hr : rs.Exact) (depth : Nat) (f : Field) (c : Code) :
    rs.makes f depth c = (f.maker rs clockPeriod depth c).isOk := by
  by_cases hg : c.groups = true
  · rw [Registries.makes, hg, Bool.true_and]
    by_cases hc : c.isCustom = true
    · rw [hc, Bool.not_true, Bool.false_or, maker_custom rs clockPeriod depth f hc]
      cases hl : (rs.get f.registry).lookup? c with
      | none => rfl
      | some e =>
        obtain ⟨name, source⟩ := e
        rw [Option.any_some]
        cases source with
        | script script => rfl
        | unresolved reason => rfl
        | circuit drawing =>
          cases depth with
          | zero => rfl
          | succ depth =>
            have hd : rs.drawingOf? f c = some drawing := by
              rw [Registries.drawingOf?, hl, Option.bind_some]
            obtain ⟨b, hb, -⟩ := buildWithin_circuitOf rs clockPeriod depth (hr.drawingOf? hd)
            dsimp only
            rw [hb]
            rfl
    · have hfixed := Bool.eq_false_iff.2 hc
      rw [hfixed, maker_fixed rs clockPeriod depth f c hg hfixed]
      rfl
  · have hno : (f.maker rs clockPeriod depth c).isOk = false :=
      Bool.eq_false_iff.2 fun hok => hg ((f.maker_faithful rs clockPeriod depth).groups c hok)
    rw [Registries.makes, Bool.eq_false_iff.2 hg, Bool.false_and, hno]

/-- What holds of a built circuit as soon as it holds of the circuits inside holds of all of them. -/
theorem buildWithin_induction {P : Nat → Field → Circuit → Prop} (hr : rs.Exact)
    (step : ∀ depth f b, f.grid.Exact → buildWithin rs clockPeriod depth f = .ok b →
      (∀ m ∈ b.circuit.components, ∀ pins inner, m.kind = .nested pins inner → pins = inner.pins ∧
        ∃ drawing, rs.drawingOf? f m.code = some drawing ∧ P (depth - 1) drawing inner) →
      P depth f b.circuit)
    {depth : Nat} {f : Field} (he : f.grid.Exact) {b : Build}
    (hb : buildWithin rs clockPeriod depth f = .ok b) : P depth f b.circuit := by
  induction depth using Nat.strong_induction_on generalizing f b with
  | _ depth ih =>
    refine step depth f b he hb fun m hm pins inner hk => ?_
    obtain ⟨drawing, b', depth', rfl, hd, hb', rfl, hpins⟩ := drawing_of_nested he hb hm hk
    exact ⟨hpins, drawing, hd, ih depth' (Nat.lt_succ_self _) (hr.drawingOf? hd) hb'⟩

theorem buildWithin_attached (hr : rs.Exact) {depth : Nat} {f : Field} (he : f.grid.Exact) {b : Build}
    (hb : buildWithin rs clockPeriod depth f = .ok b) : Field.Attached rs depth f b.circuit := by
  refine buildWithin_induction (P := Field.Attached rs) hr (fun depth f b he hb below => ?_) he hb
  have hattached : b.circuit.Attached f.grid (rs.makes f depth) := by
    obtain ⟨b', hb', hc⟩ := buildWithin_circuitOf rs clockPeriod depth he
    obtain rfl := Except.ok.inj (hb.symm.trans hb')
    rw [hc]
    exact Grid.circuitOf_attached (f.maker_faithful rs clockPeriod depth) (maker_isOk hr depth f)
  refine .intro hattached ?_ ?_
  · intro m hm pins inner hkind
    obtain ⟨rfl, drawing, hd, -⟩ := below m hm pins inner hkind
    exact ⟨rfl, inner.pins_within, by rw [hd]; rfl⟩
  · intro m hm pins inner hkind drawing hd
    obtain ⟨-, drawing', hd', hinner⟩ := below m hm pins inner hkind
    obtain rfl := Option.some.inj (hd.symm.trans hd')
    exact hinner

/-- Every field is built into a circuit that is attached as its drawing asks, at every depth. -/
theorem build_attached (f : Field) (h : f.Labellable rs) :
    ∃ b, f.build rs clockPeriod = .ok b ∧ Field.Attached rs maxNesting f b.circuit := by
  obtain ⟨b, hb, -⟩ := buildWithin_circuitOf rs clockPeriod maxNesting h.grid.exact
  exact ⟨b, hb, buildWithin_attached h.exact h.grid.exact hb⟩

end Field

/-- Registries with one part, a drawing of an inverter with its connectors. -/
def sampleRegistries : Registries :=
  ⟨#[⟨[⟨"inverter", .circuit ⟨"inverter", ⟨5, 1, #v[.wire, .input, .not, .output, .wire]⟩, ⟨1⟩⟩⟩]⟩]⟩

theorem sampleRegistries_exact : sampleRegistries.Exact := by
  simp [Registries.Exact, sampleRegistries]
  decide

theorem sampleField_labellable : sampleField.Labellable sampleRegistries := by
  constructor
  case grid => decide
  case parts =>
    simp [sampleRegistries]
    decide

theorem sampleField_attached : sampleField.Labellable sampleRegistries ∧
    ∃ b, sampleField.build sampleRegistries 0 = .ok b ∧
      Field.Attached sampleRegistries maxNesting sampleField b.circuit :=
  ⟨sampleField_labellable, Field.build_attached sampleField sampleField_labellable⟩

end GridCircuit
