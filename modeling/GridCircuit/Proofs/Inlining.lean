import GridCircuit.Proofs.Runs
import Mathlib.Data.List.Zip

/-!
# An inner circuit laid out in place

A circuit that is a component of another one may be laid out in its place instead. Its pins then are
the connections outside that they stand for, as far as both sides have pins; the rest of its
connections and its components are added to the tables outside. Where only gates are at the pins of the
inner circuit, its wires keep to the connections that are added.
-/

namespace GridCircuit

/-- Outer connections, each with the inner connection that it is to be one with. -/
abbrev Joints := List (Nat × Nat)

namespace Joints

/-- The inner connections that are joined to no outer one. -/
def free (joints : Joints) (size : Nat) : List Nat :=
  (List.range size).filter fun id => id ∉ joints.map (·.2)

/-- The number of an inner connection where the free ones follow `base` outer ones. -/
def place (joints : Joints) (base size id : Nat) : Nat :=
  match joints.find? (·.2 = id) with
  | some joint => joint.1
  | none => base + (joints.free size).idxOf id

variable {joints : Joints} {base size i j o : Nat}

theorem mem_free : i ∈ joints.free size ↔ i < size ∧ i ∉ joints.map (·.2) := by
  rw [free, List.mem_filter, List.mem_range, decide_eq_true_iff]

theorem place_free (hi : i ∉ joints.map (·.2)) :
    joints.place base size i = base + (joints.free size).idxOf i := by
  have hnone : joints.find? (·.2 = i) = none := by
    apply List.find?_eq_none.2
    intro joint hmem he
    exact hi (of_decide_eq_true he ▸ List.mem_map_of_mem hmem)
  rw [place, hnone]

section Joined

variable (hn : (joints.map (·.2)).Nodup)

include hn

theorem place_joined (h : (o, i) ∈ joints) : joints.place base size i = o := by
  rw [place]
  cases hfind : joints.find? (·.2 = i) with
  | none =>
    have hno := List.find?_eq_none.1 hfind _ h
    exact absurd (decide_eq_true rfl) hno
  | some joint =>
    have hmem := List.mem_of_find?_eq_some hfind
    have he : joint.2 = i := by simpa using List.find?_some hfind
    exact congrArg Prod.fst (List.inj_on_of_nodup_map hn hmem h he)

/-- An inner connection is joined, or follows the outer ones. -/
theorem place_cases (base size i : Nat) : (∃ o, (o, i) ∈ joints ∧ joints.place base size i = o) ∨
    (i ∉ joints.map (·.2) ∧ joints.place base size i = base + (joints.free size).idxOf i) := by
  by_cases hi : i ∈ joints.map (·.2)
  · obtain ⟨⟨o, i'⟩, hmem, rfl⟩ := List.mem_map.1 hi
    exact .inl ⟨o, hmem, place_joined hn hmem⟩
  · exact .inr ⟨hi, place_free hi⟩

/-- Only joined connections get the number of an outer one. -/
theorem joined_of_place_lt (h : joints.place base size i < base) :
    (joints.place base size i, i) ∈ joints := by
  obtain ⟨o, hmem, ho⟩ | ⟨-, ho⟩ := place_cases hn base size i
  · exact ho ▸ hmem
  · omega

theorem place_injective (houter : (joints.map (·.1)).Nodup) (hlt : ∀ joint ∈ joints, joint.1 < base)
    (hi : i < size) (h : joints.place base size i = joints.place base size j) : i = j := by
  obtain ⟨o, hmem, ho⟩ | ⟨hfree, ho⟩ := place_cases hn base size i <;>
    obtain ⟨o', hmem', ho'⟩ | ⟨hfree', ho'⟩ := place_cases hn base size j
  · have he : o = o' := ho.symm.trans (h.trans ho')
    exact congrArg Prod.snd (List.inj_on_of_nodup_map houter hmem hmem' he)
  · have hless := hlt _ hmem
    dsimp only at hless
    omega
  · have hless := hlt _ hmem'
    dsimp only at hless
    omega
  · have he : (joints.free size).idxOf i = (joints.free size).idxOf j := by omega
    exact (List.idxOf_inj (mem_free.2 ⟨hi, hfree⟩)).1 he

end Joined

end Joints

namespace Pins

/-- The outer connections that an inner circuit is fed from, with the pins that take the levels. -/
def entries (pins : Pins) (host : Component) : Joints :=
  host.inputs.zip pins.inputs ++ host.clock.toList.zip pins.clock.toList

/-- The outer connections that an inner circuit writes, with the pins that give the levels. -/
def exits (pins : Pins) (host : Component) : Joints := host.outputs.zip pins.outputs

/-- The outer connections that are pins of the inner circuit too. -/
def joints (pins : Pins) (host : Component) : Joints := pins.entries host ++ pins.exits host

theorem feed_eq (pins : Pins) (host : Component) (outer inner : Bus) :
    pins.feed host.inputs host.clock outer inner =
      Bus.driveAll inner ((pins.entries host).map fun joint => (joint.2, Bus.level outer joint.1)) := by
  unfold feed
  rw [entries, List.map_append]
  cases host.clock with
  | none => rfl
  | some o =>
    cases pins.clock with
    | none => rfl
    | some i => rfl

theorem results_eq (pins : Pins) (host : Component) (inner : Bus) :
    pins.results host.outputs inner =
      (pins.exits host).map fun joint => (joint.1, Bus.level inner joint.2) := rfl

end Pins

/-- The component with its connections renumbered. -/
def Component.renumber (f : Nat → Nat) (m : Component) : Component :=
  { m with inputs := m.inputs.map f, outputs := m.outputs.map f, clock := m.clock.map f }

theorem Component.renumber_copies (f : Nat → Nat) (m : Component) : m.Copies f (m.renumber f) :=
  ⟨rfl, rfl, rfl, rfl, rfl⟩

/-- The circuit that the component is. -/
def Component.inner? (m : Component) : Option Circuit :=
  match m.kind with
  | .nested _ inner => some inner
  | _ => none

theorem Component.inner?_of_nested {m : Component} {pins : Pins} {inner : Circuit}
    (h : m.kind = .nested pins inner) : m.inner? = some inner := by
  rw [inner?, h]

theorem Component.nested_of_inner? {m : Component} {inner : Circuit} (h : m.inner? = some inner) :
    ∃ pins, m.kind = .nested pins inner := by
  rw [inner?] at h
  split at h
  case h_1 pins inner' hk => exact ⟨pins, Option.some.inj h ▸ hk⟩
  case h_2 => cases h

/-- The connection with the ends that a table of components gives it. -/
def Connection.attach (components : List Component) (id : Nat) (k : Connection) : Connection :=
  { k with
    driver := components.findIdx? (id ∈ ·.outputs)
    sink := components.findIdx? (id ∈ ·.readers) }

section Replaced

variable {α : Type} {xs : List α} {n : Nat} (hn : n < xs.length) (zs : List α)

include hn

/-- Where an entry stands once one is taken out and others are added behind. -/
theorem getElem?_eraseIdx_append {i : Nat} (hi : i ≠ n) (hlt : i < xs.length) :
    (xs.eraseIdx n ++ zs)[if i < n then i else i - 1]? = xs[i]? := by
  have hlen := List.length_eraseIdx_of_lt hn
  by_cases h : i < n
  · rw [if_pos h, List.getElem?_append_left (by omega), List.getElem?_eraseIdx, if_pos h]
  · have hsucc : i - 1 + 1 = i := by omega
    rw [if_neg h, List.getElem?_append_left (by omega), List.getElem?_eraseIdx, if_neg (by omega), hsucc]

theorem getElem?_eraseIdx_append_right (j : Nat) :
    (xs.eraseIdx n ++ zs)[xs.length - 1 + j]? = zs[j]? := by
  rw [← List.length_eraseIdx_of_lt hn, List.getElem?_append_right (Nat.le_add_right _ _),
    Nat.add_sub_cancel_left]

theorem eraseIdx_append_cases {i : Nat} {a : α} (h : (xs.eraseIdx n ++ zs)[i]? = some a) :
    (∃ i', i' ≠ n ∧ xs[i']? = some a ∧ (if i' < n then i' else i' - 1) = i) ∨
      ∃ j : Nat, zs[j]? = some a ∧ xs.length - 1 + j = i := by
  rw [List.getElem?_append, List.length_eraseIdx_of_lt hn] at h
  split at h
  case isTrue =>
    rw [List.getElem?_eraseIdx] at h
    split at h
    case isTrue hi => exact .inl ⟨i, Nat.ne_of_lt hi, h, if_pos hi⟩
    case isFalse hi => exact .inl ⟨i + 1, by omega, h, if_neg (by omega)⟩
  case isFalse => exact .inr ⟨_, h, by omega⟩

end Replaced

namespace Circuit

/-- A component of a circuit that is a circuit itself. -/
structure Nesting (c : Circuit) where
  index : Nat
  host : Component
  pins : Pins
  inner : Circuit
  host_eq : c.components[index]? = some host
  kind_eq : host.kind = .nested pins inner

/-- What an input pin leads to, and what an output pin comes from, is no wire. -/
def GatedPins (c : Circuit) : Prop :=
  (∀ id ∈ c.pins.inputs, ∀ k ∈ c.connections[id]?, ∀ i ∈ k.sink, ∀ m ∈ c.components[i]?,
      m.isWire = false) ∧
    ∀ id ∈ c.pins.outputs, ∀ k ∈ c.connections[id]?, ∀ i ∈ k.driver, ∀ m ∈ c.components[i]?,
      m.isWire = false

instance (c : Circuit) : Decidable c.GatedPins := inferInstanceAs (Decidable (_ ∧ _))

namespace Nesting

variable {c : Circuit}

def joints (u : c.Nesting) : Joints := u.pins.joints u.host

/-- The inner connections that have no number outside yet. -/
def free (u : c.Nesting) : List Nat := u.joints.free u.inner.connections.size

/-- The number of an inner connection once the inner circuit is laid out. -/
def place (u : c.Nesting) (id : Nat) : Nat :=
  u.joints.place c.connections.size u.inner.connections.size id

/-- The number of another component once the inner circuit is laid out. -/
def shift (u : c.Nesting) (i : Nat) : Nat := if i < u.index then i else i - 1

/-- The number of an inner component once the inner circuit is laid out. -/
def shiftInner (_ : c.Nesting) (j : Nat) : Nat := c.components.length - 1 + j

/-- The other components, and then those inside. -/
def components (u : c.Nesting) : List Component :=
  c.components.eraseIdx u.index ++ u.inner.components.map (·.renumber u.place)

/-- The circuit with the inner one laid out in place. -/
def flat (u : c.Nesting) : Circuit where
  name := c.name
  components := u.components
  connections := (c.connections ++ (u.free.filterMap (u.inner.connections[·]?)).toArray).mapIdx
    (Connection.attach u.components)
  ticks := c.ticks

/-- A nesting in circuits whose tables agree, with nothing but gates at the pins inside. -/
structure Fits (u : c.Nesting) : Prop where
  outer : c.Wired
  inner : u.inner.Wired
  pins_eq : u.pins = u.inner.pins
  gated : u.inner.GatedPins

section Tables

variable (u : c.Nesting) {i j id : Nat} {m : Component}

theorem index_lt : u.index < c.components.length := (List.getElem?_eq_some_iff.1 u.host_eq).1

theorem host_isWire : u.host.isWire = false := by rw [Component.isWire, u.kind_eq]; rfl

theorem shift_injective (hi : i ≠ u.index) (hj : j ≠ u.index) (h : u.shift i = u.shift j) : i = j := by
  unfold shift at h
  split at h <;> split at h <;> omega

theorem shift_lt (hi : i ≠ u.index) (hlt : i < c.components.length) :
    u.shift i < c.components.length - 1 := by
  have hindex := u.index_lt
  unfold shift
  split <;> omega

theorem shift_ne_shiftInner (hi : i ≠ u.index) (hlt : i < c.components.length) (j : Nat) :
    u.shift i ≠ u.shiftInner j := by
  have h := u.shift_lt hi hlt
  unfold shiftInner
  omega

theorem flat_outer (hi : i ≠ u.index) (hm : c.components[i]? = some m) :
    u.flat.components[u.shift i]? = some m :=
  (getElem?_eraseIdx_append u.index_lt _ hi (List.getElem?_eq_some_iff.1 hm).1).trans hm

theorem flat_inner (hm : u.inner.components[j]? = some m) :
    u.flat.components[u.shiftInner j]? = some (m.renumber u.place) := by
  refine (getElem?_eraseIdx_append_right u.index_lt _ j).trans ?_
  rw [List.getElem?_map, hm, Option.map_some]

/-- A component of the flat circuit stands outside, or is an inner one with other numbers. -/
theorem flat_cases (hm : u.flat.components[i]? = some m) :
    (∃ i', i' ≠ u.index ∧ c.components[i']? = some m ∧ u.shift i' = i) ∨
      ∃ j n, u.inner.components[j]? = some n ∧ u.shiftInner j = i ∧ m = n.renumber u.place := by
  obtain houter | ⟨j, hj, he⟩ := eraseIdx_append_cases u.index_lt _ hm
  · exact .inl houter
  · rw [List.getElem?_map, Option.map_eq_some_iff] at hj
    obtain ⟨n, hn, rfl⟩ := hj
    exact .inr ⟨j, n, hn, he, rfl⟩

theorem flat_connection (hid : id < c.connections.size) :
    u.flat.connections[id]? = (c.connections[id]?).map (Connection.attach u.components id) := by
  show (Array.mapIdx _ _)[id]? = _
  rw [Array.getElem?_mapIdx, Array.getElem?_append_left hid]

/-- The free inner connections follow the outer ones. -/
theorem flat_connection_free (hid : id ∈ u.free) : u.flat.connections[u.place id]? =
    (u.inner.connections[id]?).map (Connection.attach u.components (u.place id)) := by
  have hlt := (Joints.mem_free.1 hid).1
  have hall : u.free.filterMap (u.inner.connections[·]?) =
      u.free.map fun id => (u.inner.connections[id]?).getD default := by
    rw [← List.filterMap_eq_map]
    apply List.filterMap_congr
    intro id hid
    simp [Array.getElem?_eq_getElem (Joints.mem_free.1 hid).1]
  have hplace : u.place id = c.connections.size + u.free.idxOf id :=
    Joints.place_free (Joints.mem_free.1 hid).2
  have hentry : (c.connections ++ (u.free.filterMap (u.inner.connections[·]?)).toArray)[u.place id]? =
      u.inner.connections[id]? := by
    rw [hplace, Array.getElem?_append_right (Nat.le_add_right _ _), Nat.add_sub_cancel_left, hall,
      List.getElem?_toArray, List.getElem?_map, List.getElem?_idxOf hid]
    simp [Array.getElem?_eq_getElem hlt]
  show (Array.mapIdx _ _)[u.place id]? = _
  rw [Array.getElem?_mapIdx, hentry]

end Tables

end Nesting

section PinsOf

variable {c : Circuit} {i id : Nat} {m : Component}

theorem input_pin (h : id ∈ c.pins.inputs) : ∃ k, c.connections[id]? = some k ∧ k.driver = none ∧
    k.kind ≠ .clockInput := by
  obtain ⟨k, hk, hP⟩ := mem_connectionsWhere.1 h
  refine ⟨k, hk, ?_⟩
  simp only [Bool.and_eq_true, Option.isNone_iff_eq_none, decide_eq_true_iff] at hP
  exact ⟨hP.1.2, hP.1.1.2⟩

theorem output_pin (h : id ∈ c.pins.outputs) : ∃ k, c.connections[id]? = some k ∧
    k.driver.isSome = true ∧ k.sink = none := by
  obtain ⟨k, hk, hP⟩ := mem_connectionsWhere.1 h
  refine ⟨k, hk, ?_⟩
  simp only [Bool.and_eq_true, Option.isNone_iff_eq_none] at hP
  exact ⟨hP.1.2, hP.2⟩

theorem clock_pin (h : c.pins.clock = some id) : ∃ k, c.connections[id]? = some k ∧
    k.driver = none ∧ k.kind = .clockInput := by
  obtain ⟨hlt, hP, -⟩ := Array.findIdx?_eq_some_iff_getElem.1 h
  refine ⟨_, Array.getElem?_eq_getElem hlt, ?_⟩
  simp only [Bool.and_eq_true, Option.isNone_iff_eq_none, decide_eq_true_iff] at hP
  exact ⟨hP.1.2, hP.1.1⟩

/-- A pin that is fed has no driver. -/
theorem fed_pin (h : id ∈ c.pins.inputs ∨ c.pins.clock = some id) :
    ∃ k, c.connections[id]? = some k ∧ k.driver = none := by
  obtain hin | hclock := h
  · obtain ⟨k, hk, hd, -⟩ := input_pin hin
    exact ⟨k, hk, hd⟩
  · obtain ⟨k, hk, hd, -⟩ := clock_pin hclock
    exact ⟨k, hk, hd⟩

theorem pins_nodup (c : Circuit) :
    (c.pins.inputs ++ c.pins.clock.toList ++ c.pins.outputs).Nodup := by
  have hrising := c.pins_within.rising
  refine List.Nodup.append (List.Nodup.append (hrising.1.imp Nat.ne_of_lt) ?_ ?_)
    (hrising.2.imp Nat.ne_of_lt) ?_
  · cases c.pins.clock <;> simp
  · intro id hin hclock
    obtain ⟨k, hk, -, hkind⟩ := input_pin hin
    obtain ⟨k', hk', -, hkind'⟩ := clock_pin (Option.mem_toList.1 hclock)
    obtain rfl := Option.some.inj (hk.symm.trans hk')
    exact hkind hkind'
  · intro id hin hout
    obtain ⟨k, hk, hd⟩ := fed_pin ((List.mem_append.1 hin).imp_right Option.mem_toList.1)
    obtain ⟨k', hk', hd', -⟩ := output_pin hout
    obtain rfl := Option.some.inj (hk.symm.trans hk')
    rw [hd] at hd'
    cases hd'

theorem Wired.component_pins_nodup (h : c.Wired) (hm : c.components[i]? = some m) : m.pins.Nodup := by
  have hmem := List.mem_of_getElem? hm
  refine List.Nodup.append ((List.nodup_flatMap.1 h.readers_nodup).1 m hmem)
    ((List.nodup_flatMap.1 h.writers_nodup).1 m hmem) ?_
  exact fun id hr ho => h.isWire_ne hm hm hr ho rfl

/-- No wire is at a pin. -/
theorem GatedPins.not_wire (hg : c.GatedPins) (h : c.Wired) (hm : c.components[i]? = some m)
    (hid : id ∈ c.pins.inputs ∨ c.pins.clock = some id ∨ id ∈ c.pins.outputs) (hmem : id ∈ m.pins) :
    m.isWire = false := by
  obtain hr | ho := List.mem_append.1 hmem
  · obtain ⟨k, hk, hs⟩ := h.sink_of_mem hm hr
    obtain hin | hclock | hout := hid
    · exact hg.1 id hin k hk i hs m hm
    · obtain ⟨k', hk', -, hkind⟩ := clock_pin hclock
      obtain rfl := Option.some.inj (hk.symm.trans hk')
      have hlist : k ∈ c.connections.toList := List.mem_of_getElem? (Array.getElem?_toList.trans hk)
      have hside := (h.sides k hlist i m hm).2 hs
      rw [hkind] at hside
      simpa using hside
    · obtain ⟨k', hk', -, hs'⟩ := output_pin hout
      obtain rfl := Option.some.inj (hk.symm.trans hk')
      rw [hs'] at hs
      cases hs
  · obtain ⟨k, hk, hd⟩ := h.driver_of_mem hm ho
    obtain hfed | hout := or_assoc.2 hid
    · obtain ⟨k', hk', hd'⟩ := fed_pin hfed
      obtain rfl := Option.some.inj (hk.symm.trans hk')
      rw [hd'] at hd
      cases hd
    · exact hg.2 id hout k hk i hd m hm

end PinsOf

theorem map_fst_zip_sublist {α β : Type} : ∀ (xs : List α) (ys : List β),
    ((xs.zip ys).map (·.1)).Sublist xs := by
  intro xs
  induction xs with
  | nil => exact fun _ => List.Sublist.refl _
  | cons x xs ih =>
    intro ys
    cases ys with
    | nil => exact List.nil_sublist _
    | cons y ys => exact (ih ys).cons_cons x

theorem map_snd_zip_sublist {α β : Type} (xs : List α) (ys : List β) :
    ((xs.zip ys).map (·.2)).Sublist ys := by
  have h := map_fst_zip_sublist ys xs
  rw [← List.zip_swap, List.map_map] at h
  exact h

namespace Nesting

variable {c : Circuit} {u : c.Nesting} {i j id o : Nat} {m n : Component}

theorem mem_entries_inner (h : (o, i) ∈ u.pins.entries u.host) :
    i ∈ u.pins.inputs ∨ u.pins.clock = some i := by
  obtain h | h := List.mem_append.1 h
  · exact .inl (List.of_mem_zip h).2
  · exact .inr (Option.mem_toList.1 (List.of_mem_zip h).2)

theorem mem_entries_outer (h : (o, i) ∈ u.pins.entries u.host) : o ∈ u.host.readers := by
  obtain h | h := List.mem_append.1 h
  · exact List.mem_append_left _ (List.of_mem_zip h).1
  · exact List.mem_append_right _ (List.of_mem_zip h).1

theorem mem_exits_outer (h : (o, i) ∈ u.pins.exits u.host) : o ∈ u.host.outputs :=
  (List.of_mem_zip h).1

theorem mem_joints_outer (h : (o, i) ∈ u.joints) : o ∈ u.host.pins := by
  obtain h | h := List.mem_append.1 h
  · exact List.mem_append_left _ (mem_entries_outer h)
  · exact List.mem_append_right _ (mem_exits_outer h)

theorem mem_joints_inner (h : (o, i) ∈ u.joints) :
    i ∈ u.pins.inputs ∨ u.pins.clock = some i ∨ i ∈ u.pins.outputs := by
  obtain h | h := List.mem_append.1 h
  · exact (mem_entries_inner h).elim .inl fun hc => .inr (.inl hc)
  · exact .inr (.inr (List.of_mem_zip h).2)

theorem joints_outer_sublist (u : c.Nesting) : (u.joints.map (·.1)).Sublist u.host.pins := by
  rw [joints, Pins.joints, Pins.entries, Pins.exits, List.map_append, List.map_append]
  exact ((map_fst_zip_sublist _ _).append (map_fst_zip_sublist _ _)).append (map_fst_zip_sublist _ _)

theorem joints_inner_sublist (u : c.Nesting) : (u.joints.map (·.2)).Sublist
    (u.pins.inputs ++ u.pins.clock.toList ++ u.pins.outputs) := by
  rw [joints, Pins.joints, Pins.entries, Pins.exits, List.map_append, List.map_append]
  exact ((map_snd_zip_sublist _ _).append (map_snd_zip_sublist _ _)).append (map_snd_zip_sublist _ _)

theorem mem_renumber_pins (n : Component) :
    id ∈ (n.renumber u.place).pins ↔ ∃ a ∈ n.pins, u.place a = id := by
  rw [(n.renumber_copies u.place).pins, List.mem_map]

section Fits

variable (h : u.Fits)

include h

theorem Fits.joints_outer_nodup : (u.joints.map (·.1)).Nodup :=
  (h.outer.component_pins_nodup u.host_eq).sublist u.joints_outer_sublist

theorem Fits.joints_inner_nodup : (u.joints.map (·.2)).Nodup := by
  have hn := u.inner.pins_nodup
  rw [← h.pins_eq] at hn
  exact hn.sublist u.joints_inner_sublist

theorem Fits.host_pin_lt (hid : id ∈ u.host.pins) : id < c.connections.size :=
  h.outer.ids_lt u.host (List.mem_of_getElem? u.host_eq) id hid

theorem Fits.place_injective (hi : i < u.inner.connections.size) (he : u.place i = u.place j) : i = j :=
  Joints.place_injective h.joints_inner_nodup h.joints_outer_nodup
    (fun _ hmem => h.host_pin_lt (mem_joints_outer hmem)) hi he

theorem Fits.place_joined (hoi : (o, i) ∈ u.joints) : u.place i = o :=
  Joints.place_joined h.joints_inner_nodup hoi

/-- An inner connection is joined to a pin outside, or is added behind the outer connections. -/
theorem Fits.place_cases (hi : i < u.inner.connections.size) :
    (∃ o, (o, i) ∈ u.joints ∧ u.place i = o) ∨ (i ∈ u.free ∧ c.connections.size ≤ u.place i) := by
  obtain hjoined | ⟨hfree, hplace⟩ := Joints.place_cases h.joints_inner_nodup c.connections.size
    u.inner.connections.size i
  · exact .inl hjoined
  · exact .inr ⟨Joints.mem_free.2 ⟨hi, hfree⟩, by rw [place, hplace]; exact Nat.le_add_right _ _⟩

theorem Fits.joined_of_place_lt (hlt : u.place i < c.connections.size) : (u.place i, i) ∈ u.joints :=
  Joints.joined_of_place_lt h.joints_inner_nodup hlt

theorem Fits.inner_pin_lt (hn : u.inner.components[j]? = some n) (hid : id ∈ n.pins) :
    id < u.inner.connections.size :=
  h.inner.ids_lt n (List.mem_of_getElem? hn) id hid

/-- The wires inside keep to the free connections. -/
theorem Fits.wire_free (hn : u.inner.components[j]? = some n) (hw : n.isWire = true)
    (hid : id ∈ n.pins) : id ∈ u.free := by
  refine Joints.mem_free.2 ⟨h.inner_pin_lt hn hid, fun hjoined => ?_⟩
  obtain ⟨⟨o, i⟩, hmem, rfl⟩ := List.mem_map.1 hjoined
  have hpin := mem_joints_inner hmem
  rw [h.pins_eq] at hpin
  have hgate := h.gated.not_wire h.inner hn hpin hid
  rw [hw] at hgate
  cases hgate

/-- No component inside writes an entry. -/
theorem Fits.entry_unwritten (hoi : (o, i) ∈ u.pins.entries u.host)
    (hn : u.inner.components[j]? = some n) : i ∉ n.outputs := by
  intro hout
  obtain ⟨k, hk, hd⟩ := h.inner.driver_of_mem hn hout
  have hpin := mem_entries_inner hoi
  rw [h.pins_eq] at hpin
  obtain ⟨k', hk', hd'⟩ := fed_pin hpin
  obtain rfl := Option.some.inj (hk.symm.trans hk')
  rw [hd'] at hd
  cases hd

theorem Fits.outer_gate_apart (hi : i ≠ u.index) (hm : c.components[i]? = some m)
    (hw : m.isWire = false) : m.pins.Disjoint u.host.pins :=
  h.outer.apart false i (mem_numbers.2 ⟨m, hm, hw⟩) u.index
    (mem_numbers.2 ⟨u.host, u.host_eq, u.host_isWire⟩) hi m u.host hm u.host_eq

theorem Fits.outer_pin_lt (hm : c.components[i]? = some m) (hid : id ∈ m.pins) :
    id < c.connections.size :=
  h.outer.ids_lt m (List.mem_of_getElem? hm) id hid

/-- Of the gates, or of the wires, no outer one has a pin in common with an inner one. -/
theorem Fits.sides_apart (hi : i ≠ u.index) (hm : c.components[i]? = some m)
    (hn : u.inner.components[j]? = some n) (hw : m.isWire = n.isWire) :
    ∀ id ∈ n.pins, u.place id ∉ m.pins := by
  intro id hid hmem
  have hjoined := h.joined_of_place_lt (h.outer_pin_lt hm hmem)
  cases hwire : n.isWire with
  | false => exact h.outer_gate_apart hi hm (hw.trans hwire) hmem (mem_joints_outer hjoined)
  | true => exact (Joints.mem_free.1 (h.wire_free hn hwire hid)).2 (List.mem_map_of_mem hjoined)

theorem Fits.flat_apart (wires : Bool) : u.flat.Apart (u.flat.numbers wires) := by
  intro i hi j hj hij m n hm hn
  have hwm := isWire_of_mem_numbers hi hm
  have hwn := isWire_of_mem_numbers hj hn
  obtain ⟨i', hi', hm', rfl⟩ | ⟨i', m', hm', rfl, rfl⟩ := u.flat_cases hm <;>
    obtain ⟨j', hj', hn', rfl⟩ | ⟨j', n', hn', rfl, rfl⟩ := u.flat_cases hn
  · exact h.outer.apart wires i' (mem_numbers.2 ⟨m, hm', hwm⟩) j' (mem_numbers.2 ⟨n, hn', hwn⟩)
      (fun he => hij (congrArg u.shift he)) m n hm' hn'
  · intro id hidm hidn
    obtain ⟨a, ha, rfl⟩ := (mem_renumber_pins n').1 hidn
    exact h.sides_apart hi' hm' hn' (hwm.trans hwn.symm) a ha hidm
  · intro id hidm hidn
    obtain ⟨a, ha, rfl⟩ := (mem_renumber_pins m').1 hidm
    exact h.sides_apart hj' hn' hm' (hwn.trans hwm.symm) a ha hidn
  · intro id hidm hidn
    obtain ⟨a, ha, rfl⟩ := (mem_renumber_pins m').1 hidm
    obtain ⟨b, hb, he⟩ := (mem_renumber_pins n').1 hidn
    obtain rfl := h.place_injective (h.inner_pin_lt hn' hb) he
    exact h.inner.apart wires i' (mem_numbers.2 ⟨m', hm', hwm⟩) j' (mem_numbers.2 ⟨n', hn', hwn⟩)
      (fun he => hij (congrArg u.shiftInner he)) m' n' hm' hn' ha hb

end Fits

end Nesting

end Circuit

end GridCircuit
