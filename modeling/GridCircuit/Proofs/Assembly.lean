import GridCircuit.Circuit.Assemble
import Mathlib.Data.List.Nodup

/-!
# Assembled circuits are wired consistently

The two tables of a circuit name each other's entries. `Wired` says that the names agree, that every
connection has at most one writer and one reader, and that one of the two is a wire and the other is
not. It holds of every circuit put together from sites that have wires on their wire side only. A
clock connection that came too late is covered: it has no reader.
-/

namespace GridCircuit

namespace Component

/-- The connections a component listens to. -/
def readers (m : Component) : List Nat := m.inputs ++ m.clock.toList

/-- The connections a component has to do with. -/
def pins (m : Component) : List Nat := m.readers ++ m.outputs

theorem mem_readers {m : Component} {id : Nat} :
    id ∈ m.readers ↔ id ∈ m.inputs ∨ m.clock = some id := by
  simp [readers]

end Component

/-- Both tables of a circuit agree on who is connected to whom. -/
structure Circuit.Wired (c : Circuit) : Prop where
  driver_iff : ∀ (id : Nat) (k : Connection), c.connections[id]? = some k → ∀ i,
    k.driver = some i ↔ ∃ m, c.components[i]? = some m ∧ id ∈ m.outputs
  sink_iff : ∀ (id : Nat) (k : Connection), c.connections[id]? = some k → ∀ i,
    k.sink = some i ↔ ∃ m, c.components[i]? = some m ∧ (id ∈ m.inputs ∨ m.clock = some id)
  ids_lt : ∀ m ∈ c.components, ∀ id ∈ m.pins, id < c.connections.size
  readers_nodup : (c.components.flatMap (·.readers)).Nodup
  writers_nodup : (c.components.flatMap (·.outputs)).Nodup
  rising : ∀ m ∈ c.components, m.inputs.Pairwise (· < ·) ∧ m.outputs.Pairwise (· < ·)
  sides : ∀ k ∈ c.connections.toList, ∀ (i : Nat) (m : Component), c.components[i]? = some m →
    (k.driver = some i → (m.isWire = true ↔ k.kind ≠ .output)) ∧
      (k.sink = some i → (m.isWire = true ↔ k.kind = .output))
  crosses : ∀ k ∈ c.connections.toList, k.kind = .cross → k.driver = none ∧ k.sink = none

/-- A site with a wire on its wire side and something else on its other side, if anything. -/
structure Site.Fits (parts : List Part) (s : Site) : Prop where
  wire_side : ∀ i, s.wire = some i → ∃ p, parts[i]? = some p ∧ p.kind.isWire = true
  other_side : ∀ i, s.other = some i → ∃ p, parts[i]? = some p ∧ p.kind.isWire = false

namespace Circuit

theorem mem_connectionsWhere {bus : Bus} {P : Connection → Bool} {id : Nat} :
    id ∈ connectionsWhere bus P ↔ ∃ k, bus[id]? = some k ∧ P k = true := by
  rw [connectionsWhere, List.mem_filter, List.mem_range, Option.any_eq_true]
  constructor
  · exact fun h => h.2
  · intro h
    obtain ⟨k, hk, hP⟩ := h
    exact ⟨(Array.getElem?_eq_some_iff.1 hk).1, k, hk, hP⟩

theorem pairwise_connectionsWhere (bus : Bus) (P : Connection → Bool) :
    (connectionsWhere bus P).Pairwise (· < ·) := List.pairwise_lt_range.filter _

end Circuit

section Assemble

variable {name : String} {parts : List Part} {sites : List Site} {i id : Nat}

namespace Site

theorem connections_getElem? :
    (connections sites)[id]? = (sites[id]?).map fun s =>
      { pos := s.pos, kind := s.kind, driver := s.driver, sink := s.sink sites id } := by
  simp [connections, List.getElem?_zipIdx, Function.comp_def]

theorem connections_eq_some {k : Connection} :
    (connections sites)[id]? = some k ↔ ∃ s, sites[id]? = some s ∧
      k = { pos := s.pos, kind := s.kind, driver := s.driver, sink := s.sink sites id } := by
  rw [connections_getElem?, Option.map_eq_some_iff]
  simp only [eq_comm]

/-- Of the clock connections to a part only the first ends in it. -/
theorem sink_clock {s : Site} (hk : s.kind = .clockInput) :
    s.sink sites id = some i ↔ s.other = some i ∧ clockOf? sites i = some id := by
  simp [sink, hk, Option.filter_eq_some_iff]

/-- The first clock connection that asks for a part is the only one that ends in it. -/
theorem clockOf?_eq_some : clockOf? sites i = some id ↔
    ∃ k, (connections sites)[id]? = some k ∧ k.sink = some i ∧ k.kind = .clockInput := by
  constructor
  · intro h
    obtain ⟨hlt, hP, -⟩ := List.findIdx?_eq_some_iff_getElem.1 h
    obtain ⟨hk, ho⟩ : sites[id].kind = .clockInput ∧ sites[id].other = some i := by
      simpa [clocks] using hP
    exact ⟨_, connections_eq_some.2 ⟨_, List.getElem?_eq_getElem hlt, rfl⟩,
      (sink_clock hk).2 ⟨ho, h⟩, hk⟩
  · intro h
    obtain ⟨k, hk, hs, hc⟩ := h
    obtain ⟨s, -, rfl⟩ := connections_eq_some.1 hk
    exact ((sink_clock hc).1 hs).2

/-- A part takes the first clock connection that asks for it. -/
theorem clock_eq (p : Part) : (p.toComponent (connections sites) i).clock = clockOf? sites i := by
  show (connections sites).findIdx? (fun k => k.sink = some i && k.kind = .clockInput) = _
  cases hf : (connections sites).findIdx? fun k => k.sink = some i && k.kind = .clockInput with
  | none =>
    rw [eq_comm, ← Option.not_isSome_iff_eq_none, Option.isSome_iff_exists]
    intro h
    obtain ⟨id, hid⟩ := h
    obtain ⟨k, hk, hs, hc⟩ := clockOf?_eq_some.1 hid
    have hmem := Array.mem_of_getElem? hk
    have := Array.findIdx?_eq_none_iff.1 hf k hmem
    simp [hs, hc] at this
  | some n =>
    obtain ⟨hlt, hP, -⟩ := Array.findIdx?_eq_some_iff_getElem.1 hf
    exact (clockOf?_eq_some.2 ⟨_, Array.getElem?_eq_getElem hlt, by simpa using hP⟩).symm

end Site

theorem components_getElem? :
    (Circuit.assemble name parts sites).components[i]? =
      (parts[i]?).map fun p => p.toComponent (Site.connections sites) i := by
  simp [Circuit.assemble, List.getElem?_zipIdx, Function.comp_def]

theorem mem_toComponent_outputs {p : Part} {bus : Bus} :
    id ∈ (p.toComponent bus i).outputs ↔ ∃ k, bus[id]? = some k ∧ k.driver = some i := by
  rw [Part.toComponent, Circuit.mem_connectionsWhere]
  simp

theorem mem_toComponent_readers {p : Part} :
    id ∈ (p.toComponent (Site.connections sites) i).readers ↔
      ∃ k, (Site.connections sites)[id]? = some k ∧ k.sink = some i := by
  rw [Component.mem_readers, Site.clock_eq, Part.toComponent, Circuit.mem_connectionsWhere,
    Site.clockOf?_eq_some]
  constructor
  · intro h
    obtain ⟨k, hk, h⟩ | ⟨k, hk, h, -⟩ := h
    · exact ⟨k, hk, by simp_all⟩
    · exact ⟨k, hk, h⟩
  · intro h
    obtain ⟨k, hk, h⟩ := h
    by_cases hc : k.kind = .clockInput
    · exact .inr ⟨k, hk, h, hc⟩
    · exact .inl ⟨k, hk, by simp [h, hc]⟩

theorem components_eq_some {m : Component} :
    (Circuit.assemble name parts sites).components[i]? = some m ↔
      ∃ p, parts[i]? = some p ∧ m = p.toComponent (Site.connections sites) i := by
  rw [components_getElem?, Option.map_eq_some_iff]
  simp only [eq_comm]

theorem mem_components {m : Component} : m ∈ (Circuit.assemble name parts sites).components ↔
    ∃ (i : Nat) (p : Part), parts[i]? = some p ∧ m = p.toComponent (Site.connections sites) i := by
  rw [List.mem_iff_getElem?]
  simp only [components_eq_some]

section Owner

variable {f : Component → List Nat} {owner : Connection → Option Nat}
  (hf : ∀ (i id : Nat) (p : Part), id ∈ f (p.toComponent (Site.connections sites) i) ↔
    ∃ k, (Site.connections sites)[id]? = some k ∧ owner k = some i)

include hf

/-- A table that lists for each part what it owns agrees with the owners. -/
theorem owner_iff {k : Connection} (hk : (Site.connections sites)[id]? = some k)
    (hpart : ∀ i, owner k = some i → ∃ p, parts[i]? = some p) (i : Nat) :
    owner k = some i ↔
      ∃ m, (Circuit.assemble name parts sites).components[i]? = some m ∧ id ∈ f m := by
  constructor
  · intro ho
    obtain ⟨p, hp⟩ := hpart i ho
    exact ⟨_, components_eq_some.2 ⟨p, hp, rfl⟩, (hf i id p).2 ⟨k, hk, ho⟩⟩
  · intro h
    obtain ⟨m, hm, hid⟩ := h
    obtain ⟨p, -, rfl⟩ := components_eq_some.1 hm
    obtain ⟨k', hk', ho⟩ := (hf i id p).1 hid
    rwa [Option.some.inj (hk.symm.trans hk')]

/-- What one part owns no other part owns. -/
theorem nodup_flatMap_components
    (hnodup : ∀ (i : Nat) (p : Part), (f (p.toComponent (Site.connections sites) i)).Nodup) :
    ((Circuit.assemble name parts sites).components.flatMap f).Nodup := by
  rw [List.nodup_flatMap]
  constructor
  · intro m hm
    obtain ⟨i, p, -, rfl⟩ := mem_components.1 hm
    exact hnodup i p
  · apply List.pairwise_iff_getElem.2
    intro i j hi hj hij id h₁ h₂
    obtain ⟨p, -, hp⟩ := components_eq_some.1 (List.getElem?_eq_getElem hi)
    obtain ⟨q, -, hq⟩ := components_eq_some.1 (List.getElem?_eq_getElem hj)
    obtain ⟨k, hk, ho⟩ := (hf i id p).1 (hp ▸ h₁)
    obtain ⟨k', hk', ho'⟩ := (hf j id q).1 (hq ▸ h₂)
    have hkk : k = k' := Option.some.inj (hk.symm.trans hk')
    have hij' : i = j := Option.some.inj (ho.symm.trans (hkk ▸ ho'))
    omega

end Owner

theorem toComponent_readers_nodup (p : Part) :
    (p.toComponent (Site.connections sites) i).readers.Nodup := by
  rw [Component.readers, List.nodup_append]
  refine ⟨(Circuit.pairwise_connectionsWhere _ _).imp Nat.ne_of_lt, ?_, ?_⟩
  · cases (p.toComponent (Site.connections sites) i).clock <;> simp
  · intro id hin id' hclock he
    subst he
    obtain ⟨k, hk, hkind⟩ := Circuit.mem_connectionsWhere.1 hin
    obtain ⟨k', hk', -, hclock⟩ := Site.clockOf?_eq_some.1
      ((Site.clock_eq p).symm.trans (Option.mem_toList.1 hclock))
    cases Option.some.inj (hk.symm.trans hk')
    simp [hclock] at hkind

theorem Site.Fits.driver {s : Site} (h : s.Fits parts) (hd : s.driver = some i) :
    ∃ p, parts[i]? = some p ∧ (p.kind.isWire = true ↔ s.kind ≠ .output) := by
  cases hk : s.kind <;> simp only [Site.driver, hk, reduceCtorEq] at hd
  · obtain ⟨p, hp, hw⟩ := h.wire_side i hd
    exact ⟨p, hp, by simp [hw]⟩
  · obtain ⟨p, hp, hw⟩ := h.other_side i hd
    exact ⟨p, hp, by simp [hw]⟩
  · obtain ⟨p, hp, hw⟩ := h.wire_side i hd
    exact ⟨p, hp, by simp [hw]⟩

theorem Site.Fits.sink {s : Site} (h : s.Fits parts) (hs : s.sink sites id = some i) :
    ∃ p, parts[i]? = some p ∧ (p.kind.isWire = true ↔ s.kind = .output) := by
  cases hk : s.kind <;> simp only [Site.sink, hk, reduceCtorEq] at hs
  · obtain ⟨p, hp, hw⟩ := h.other_side i hs
    exact ⟨p, hp, by simp [hw]⟩
  · obtain ⟨p, hp, hw⟩ := h.wire_side i hs
    exact ⟨p, hp, by simp [hw]⟩
  · obtain ⟨p, hp, hw⟩ := h.other_side i (Option.filter_eq_some_iff.1 hs).1
    exact ⟨p, hp, by simp [hw]⟩

theorem toComponent_pins_lt (p : Part)
    (hid : id ∈ (p.toComponent (Site.connections sites) i).pins) :
    id < (Site.connections sites).size := by
  have hk : ∃ k, (Site.connections sites)[id]? = some k := by
    rw [Component.pins, List.mem_append] at hid
    obtain h | h := hid
    · obtain ⟨k, hk, -⟩ := mem_toComponent_readers.1 h
      exact ⟨k, hk⟩
    · obtain ⟨k, hk, -⟩ := mem_toComponent_outputs.1 h
      exact ⟨k, hk⟩
  obtain ⟨k, hk⟩ := hk
  exact (Array.getElem?_eq_some_iff.1 hk).1

theorem Site.exists_of_connection (hf : ∀ s ∈ sites, s.Fits parts) {k : Connection}
    (hk : (Site.connections sites)[id]? = some k) : ∃ s : Site, s.Fits parts ∧
      k = { pos := s.pos, kind := s.kind, driver := s.driver, sink := s.sink sites id } := by
  obtain ⟨s, hs, hk⟩ := Site.connections_eq_some.1 hk
  exact ⟨s, hf s (List.mem_of_getElem? hs), hk⟩

/-- Whatever is put together from fitting sites is wired. -/
theorem Circuit.assemble_wired (hf : ∀ s ∈ sites, s.Fits parts) :
    (Circuit.assemble name parts sites).Wired := by
  have hsite : ∀ k ∈ (Site.connections sites).toList, ∃ (id : Nat) (s : Site), s.Fits parts ∧
      k = { pos := s.pos, kind := s.kind, driver := s.driver, sink := s.sink sites id } := by
    intro k hk
    obtain ⟨id, hid⟩ := List.getElem?_of_mem hk
    exact ⟨id, Site.exists_of_connection hf (by simpa using hid)⟩
  have houtputs : ∀ (i id : Nat) (p : Part),
      id ∈ (p.toComponent (Site.connections sites) i).outputs ↔
        ∃ k, (Site.connections sites)[id]? = some k ∧ k.driver = some i :=
    fun _ _ _ => mem_toComponent_outputs
  have hreaders : ∀ (i id : Nat) (p : Part),
      id ∈ (p.toComponent (Site.connections sites) i).readers ↔
        ∃ k, (Site.connections sites)[id]? = some k ∧ k.sink = some i :=
    fun _ _ _ => mem_toComponent_readers
  constructor
  case driver_iff =>
    intro id k hk
    refine owner_iff houtputs hk fun i hd => ?_
    obtain ⟨s, hs, rfl⟩ := Site.exists_of_connection hf hk
    obtain ⟨p, hp, -⟩ := hs.driver hd
    exact ⟨p, hp⟩
  case sink_iff =>
    intro id k hk
    simp only [← Component.mem_readers]
    refine owner_iff hreaders hk fun i hd => ?_
    obtain ⟨s, hs, rfl⟩ := Site.exists_of_connection hf hk
    obtain ⟨p, hp, -⟩ := hs.sink hd
    exact ⟨p, hp⟩
  case ids_lt =>
    intro m hm id hid
    obtain ⟨i, p, -, rfl⟩ := mem_components.1 hm
    exact toComponent_pins_lt p hid
  case readers_nodup => exact nodup_flatMap_components hreaders fun i p => toComponent_readers_nodup p
  case writers_nodup =>
    exact nodup_flatMap_components houtputs fun i p =>
      (pairwise_connectionsWhere _ _).imp Nat.ne_of_lt
  case rising =>
    intro m hm
    obtain ⟨i, p, -, rfl⟩ := mem_components.1 hm
    exact ⟨pairwise_connectionsWhere _ _, pairwise_connectionsWhere _ _⟩
  case sides =>
    intro k hk i m hm
    obtain ⟨id, s, hs, rfl⟩ := hsite k hk
    obtain ⟨p, hp, rfl⟩ := components_eq_some.1 hm
    constructor
    · intro hd
      obtain ⟨p', hp', hw⟩ := hs.driver hd
      rwa [Option.some.inj (hp.symm.trans hp')]
    · intro hd
      obtain ⟨p', hp', hw⟩ := hs.sink hd
      rwa [Option.some.inj (hp.symm.trans hp')]
  case crosses =>
    intro k hk hc
    obtain ⟨id, s, -, rfl⟩ := hsite k hk
    simp only at hc
    simp [Site.driver, Site.sink, hc]

end Assemble

end GridCircuit
