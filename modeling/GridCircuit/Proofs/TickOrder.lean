import GridCircuit.Proofs.Timeless
import GridCircuit.Proofs.Wiring

/-!
# The order inside a tick does not matter

In every state that a built circuit can come to, a tick gives the same whatever the order in which its
two halves go through the table: either every order completes, with one outcome, or every order fails.
Which script is reported then may differ. With clocks of period zero, only the noted times of their flips
depend on the times that they read.
-/

namespace GridCircuit

namespace Circuit

/-- What a circuit can become: by ticks, completed or not, by toggles, and by driving connections from
outside. -/
inductive Reachable (c₀ : Circuit) : Circuit → Prop where
  | start : Reachable c₀ c₀
  | tick {c : Circuit} (now : Times) : Reachable c₀ c → Reachable c₀ (c.tick now).1
  | toggle {c : Circuit} (events : List Nat) : Reachable c₀ c → Reachable c₀ (c.toggleAll events)
  | drive {c : Circuit} (id : Nat) (level : Bool) : Reachable c₀ c → Reachable c₀ (c.drive id level)

variable {c c₀ c' c₁ c₂ c₁' c₂' : Circuit} {now now' : Times} {is js : List Nat}

section Wired

variable {i j id : Nat} {m n : Component}

theorem Wired.exists_connection (h : c.Wired) (hm : c.components[i]? = some m) (hid : id ∈ m.pins) :
    ∃ k, c.connections[id]? = some k :=
  ⟨_, Array.getElem?_eq_getElem (h.ids_lt m (List.mem_of_getElem? hm) id hid)⟩

theorem Wired.sink_of_mem (h : c.Wired) (hm : c.components[i]? = some m) (hid : id ∈ m.readers) :
    ∃ k, c.connections[id]? = some k ∧ k.sink = some i := by
  obtain ⟨k, hk⟩ := h.exists_connection hm (List.mem_append_left _ hid)
  exact ⟨k, hk, (h.sink_iff id k hk i).2 ⟨m, hm, Component.mem_readers.1 hid⟩⟩

theorem Wired.driver_of_mem (h : c.Wired) (hm : c.components[i]? = some m) (hid : id ∈ m.outputs) :
    ∃ k, c.connections[id]? = some k ∧ k.driver = some i := by
  obtain ⟨k, hk⟩ := h.exists_connection hm (List.mem_append_right _ hid)
  exact ⟨k, hk, (h.driver_iff id k hk i).2 ⟨m, hm, hid⟩⟩

theorem Wired.reader_unique (h : c.Wired) (hm : c.components[i]? = some m)
    (hn : c.components[j]? = some n) (hidm : id ∈ m.readers) (hidn : id ∈ n.readers) : i = j := by
  obtain ⟨k, hk, hs⟩ := h.sink_of_mem hm hidm
  obtain ⟨k', hk', hs'⟩ := h.sink_of_mem hn hidn
  obtain rfl := Option.some.inj (hk.symm.trans hk')
  exact Option.some.inj (hs.symm.trans hs')

theorem Wired.writer_unique (h : c.Wired) (hm : c.components[i]? = some m)
    (hn : c.components[j]? = some n) (hidm : id ∈ m.outputs) (hidn : id ∈ n.outputs) : i = j := by
  obtain ⟨k, hk, hd⟩ := h.driver_of_mem hm hidm
  obtain ⟨k', hk', hd'⟩ := h.driver_of_mem hn hidn
  obtain rfl := Option.some.inj (hk.symm.trans hk')
  exact Option.some.inj (hd.symm.trans hd')

/-- A connection has a wire at one end and no wire at the other. -/
theorem Wired.isWire_ne (h : c.Wired) (hm : c.components[i]? = some m)
    (hn : c.components[j]? = some n) (hr : id ∈ m.readers) (ho : id ∈ n.outputs) :
    m.isWire ≠ n.isWire := by
  obtain ⟨k, hk, hsink⟩ := h.sink_of_mem hm hr
  obtain ⟨k', hk', hdriver⟩ := h.driver_of_mem hn ho
  obtain rfl := Option.some.inj (hk.symm.trans hk')
  have hmem : k ∈ c.connections.toList := List.mem_of_getElem? (Array.getElem?_toList.trans hk)
  have hwm := (h.sides k hmem i m hm).2 hsink
  have hwn := (h.sides k hmem j n hn).1 hdriver
  intro he
  rw [he, hwn] at hwm
  by_cases hkind : k.kind = .output
  · exact hwm.2 hkind hkind
  · exact hkind (hwm.1 hkind)

/-- Of two wires, or two other components, each has its pins for itself. -/
theorem Wired.apart (h : c.Wired) (wires : Bool) : c.Apart (c.numbers wires) := by
  intro i hi j hj hij m n hm hn id hidm hidn
  have hwm := isWire_of_mem_numbers hi hm
  have hwn := isWire_of_mem_numbers hj hn
  apply hij
  rw [Component.pins, List.mem_append] at hidm hidn
  obtain hidm | hidm := hidm <;> obtain hidn | hidn := hidn
  · exact h.reader_unique hm hn hidm hidn
  · exact absurd (hwm.trans hwn.symm) (h.isWire_ne hm hn hidm hidn)
  · exact absurd (hwn.trans hwm.symm) (h.isWire_ne hn hm hidn hidm)
  · exact h.writer_unique hm hn hidm hidn

end Wired

theorem tick_shape (t : Times) (c : Circuit) : (c.tick t).1.shape = c.shape := by
  rw [tick_eq, tickInOrder]
  have hg := updateInOrder_shape t (c.numbers false) c
  cases h₁ : updateInOrder t (c.numbers false) c with
  | mk c₁ failure =>
    rw [h₁] at hg
    cases failure with
    | some failure => exact hg
    | none =>
      have hw := updateInOrder_shape t (c.numbers true) c₁
      dsimp only
      cases h₂ : updateInOrder t (c.numbers true) c₁ with
      | mk c₂ failure =>
        rw [h₂] at hw
        cases failure <;> exact hw.trans hg

theorem tick_untimed (t : Times) (hu : c.Untimed) : (c.tick t).1.Untimed := by
  have hm : ∀ m ∈ c.components, ∀ bus, (m.update t bus).value.Untimed :=
    fun m hm bus => Component.update_untimed (untimedAll_iff.1 hu m hm) t bus
  have hg := updateGates_untimed hm hu c.connections
  rw [tick, completeTick]
  split
  · exact hg
  · exact updateWires_untimed t hg _

/-- A toggle changes the level of one component, if anything. -/
theorem toggle_cases (c : Circuit) (n : Nat) : (c.toggle? n).getD c = c ∨ ∃ id : Nat,
    (c.toggle? n).getD c =
      { c with components := c.components.modify id fun m => { m with level := !m.level } } := by
  rw [toggle?]
  cases c.buttons[n]? with
  | none => exact .inl rfl
  | some id => exact .inr ⟨id, rfl⟩

/-- Toggles keep whatever does not depend on the levels of components. -/
theorem toggleAll_induction (P : Circuit → Prop) (hP : ∀ (c : Circuit) (id : Nat), P c →
      P { c with components := c.components.modify id fun m => { m with level := !m.level } }) :
    ∀ (events : List Nat) (c : Circuit), P c → P (c.toggleAll events) := by
  intro events
  induction events with
  | nil => exact fun c h => h
  | cons n events ih =>
    intro c h
    refine ih _ ?_
    show P ((c.toggle? n).getD c)
    obtain he | ⟨id, he⟩ := c.toggle_cases n
    · rwa [he]
    · rw [he]
      exact hP c id h

theorem flip_shape (c : Circuit) (id : Nat) : shape { c with
    components := c.components.modify id fun m => { m with level := !m.level } } = c.shape := by
  apply List.ext_getElem?
  intro j
  simp only [Circuit.shape, List.getElem?_map, List.getElem?_modify]
  cases c.components[j]? with
  | none => rfl
  | some m =>
    simp only [Option.map_eq_map, Option.map_some]
    split <;> rfl

theorem untimed_level {m : Component} (h : m.Untimed) (level : Bool) :
    Component.Untimed { m with level } := by
  obtain ⟨code, kind, _, cells, inputs, outputs, clock⟩ := m
  cases kind
  case nested pins inner => cases inner; exact h
  all_goals exact h

theorem Reachable.shape (h : Reachable c₀ c) : c.shape = c₀.shape := by
  induction h with
  | start => rfl
  | tick t _ ih => exact (tick_shape t _).trans ih
  | drive id level _ ih => exact ih
  | toggle events _ ih =>
    exact toggleAll_induction (·.shape = c₀.shape) (fun c id h => (flip_shape c id).trans h) events _ ih

theorem Reachable.untimed (h : Reachable c₀ c) (hu : c₀.Untimed) : c.Untimed := by
  induction h with
  | start => exact hu
  | tick t _ ih => exact tick_untimed t ih
  | drive id level _ ih => exact ih
  | toggle events _ ih =>
    refine toggleAll_induction Untimed (fun c id h => untimedAll_iff.2 fun m hm => ?_) events _ ih
    obtain ⟨j, hj⟩ := List.getElem?_of_mem hm
    rw [List.getElem?_modify] at hj
    obtain ⟨n, hn, rfl⟩ := Option.map_eq_some_iff.1 hj
    have hun := untimedAll_iff.1 h n (List.mem_of_getElem? hn)
    split
    · exact untimed_level hun _
    · exact hun

theorem Reachable.apart (h : Reachable c₀ c) (hw : c₀.Wired) (wires : Bool) :
    c.Apart (c.numbers wires) := apart_of_shape hw.apart h.shape wires

/-- The outcome of acting at once does not depend on how the components are listed. -/
theorem Simultaneous.congr (h : Simultaneous now is c c') (hm : ∀ i, i ∈ js ↔ i ∈ is) :
    Simultaneous now js c c' := by
  constructor
  case name => exact h.name
  case ticks => exact h.ticks
  case components => simpa only [hm] using h.components
  case touched => exact fun i hi => h.touched i ((hm i).1 hi)
  case untouched => exact fun id hid => h.untouched id fun i hi => hid i ((hm i).2 hi)

theorem ext_getElem? (hn : c.name = c'.name) (ht : c.ticks = c'.ticks)
    (hc : ∀ i : Nat, c.components[i]? = c'.components[i]?)
    (hb : ∀ id : Nat, c.connections[id]? = c'.connections[id]?) : c = c' := by
  cases c
  cases c'
  obtain rfl := List.ext_getElem? hc
  obtain rfl := Array.ext_getElem? hb
  obtain rfl : _ = _ := hn
  obtain rfl : _ = _ := ht
  rfl

theorem timeless_getElem? (h : c₁.timeless = c₂.timeless) (i : Nat) :
    (c₁.components[i]?).map Component.timeless = (c₂.components[i]?).map Component.timeless := by
  have hc := congrArg Circuit.components h
  simp only [timeless, timelessAll_eq_map] at hc
  rw [← List.getElem?_map, ← List.getElem?_map, hc]

theorem timeless_eq (hn : c.name = c'.name) (ht : c.ticks = c'.ticks)
    (hc : ∀ i : Nat, (c.components[i]?).map Component.timeless =
      (c'.components[i]?).map Component.timeless)
    (hb : ∀ id : Nat, c.connections[id]? = c'.connections[id]?) : c.timeless = c'.timeless := by
  refine ext_getElem? hn ht (fun i => ?_) hb
  rw [timeless, timeless, timelessAll_eq_map, timelessAll_eq_map, List.getElem?_map,
    List.getElem?_map, hc]

theorem exists_of_timeless (h : c₁.timeless = c₂.timeless) {i : Nat} {m₁ : Component}
    (hm₁ : c₁.components[i]? = some m₁) :
    ∃ m₂, c₂.components[i]? = some m₂ ∧ m₁.timeless = m₂.timeless := by
  have hm := timeless_getElem? h i
  rw [hm₁, Option.map_some, eq_comm, Option.map_eq_some_iff] at hm
  obtain ⟨m₂, hm₂, he⟩ := hm
  exact ⟨m₂, hm₂, he.symm⟩

theorem pins_of_timeless {m₁ m₂ : Component} (h : m₁.timeless = m₂.timeless) : m₁.pins = m₂.pins := by
  apply Component.pins_of_shape
  rw [← m₁.timeless_shape, h, m₂.timeless_shape]

theorem connections_of_timeless (h : c₁.timeless = c₂.timeless) : c₁.connections = c₂.connections := by
  have hb := congrArg Circuit.connections h
  exact hb

/-- A component does the same in circuits that differ in the times of clocks only. -/
theorem update_alike (hu₁ : c₁.Untimed) (hu₂ : c₂.Untimed) (h : c₁.timeless = c₂.timeless)
    {i : Nat} {m₁ m₂ : Component} (hm₁ : c₁.components[i]? = some m₁)
    (hm₂ : c₂.components[i]? = some m₂) (t₁ t₂ : Times) : Alike Component.timeless
      (m₁.update t₁ c₁.connections) (m₂.update t₂ c₂.connections) := by
  have hm := timeless_getElem? h i
  rw [hm₁, hm₂, Option.map_some, Option.map_some, Option.some.injEq] at hm
  have hb := connections_of_timeless h
  have h₁ := Component.update_timeless (untimedAll_iff.1 hu₁ m₁ (List.mem_of_getElem? hm₁)) t₁ 0
    c₁.connections
  have h₂ := Component.update_timeless (untimedAll_iff.1 hu₂ m₂ (List.mem_of_getElem? hm₂)) t₂ 0
    c₂.connections
  rw [hm, hb] at h₁
  rw [hb]
  exact ⟨h₁.value.trans h₂.value.symm, h₁.bus.trans h₂.bus.symm, h₁.failure.trans h₂.failure.symm⟩

theorem Simultaneous.timeless_components (h₁ : Simultaneous now is c₁ c₁')
    (h₂ : Simultaneous now' is c₂ c₂') (hu₁ : c₁.Untimed) (hu₂ : c₂.Untimed)
    (h : c₁.timeless = c₂.timeless) (j : Nat) :
    (c₁'.components[j]?).map Component.timeless = (c₂'.components[j]?).map Component.timeless := by
  rw [h₁.components, h₂.components]
  cases hm₁ : c₁.components[j]? with
  | none =>
    have hm := timeless_getElem? h j
    rw [hm₁, Option.map_none, eq_comm, Option.map_eq_none_iff] at hm
    rw [hm]
    rfl
  | some m₁ =>
    obtain ⟨m₂, hm₂, he⟩ := exists_of_timeless h hm₁
    rw [hm₂]
    simp only [Option.map_some, Option.some.injEq]
    split
    · exact (update_alike hu₁ hu₂ h hm₁ hm₂ _ _).value
    · exact he

/-- Acting at once gives the same at any times, except for the times that clocks note. -/
theorem Simultaneous.timeless (h₁ : Simultaneous now is c₁ c₁') (h₂ : Simultaneous now' is c₂ c₂')
    (hu₁ : c₁.Untimed) (hu₂ : c₂.Untimed) (h : c₁.timeless = c₂.timeless) :
    c₁'.timeless = c₂'.timeless := by
  have hname := congrArg Circuit.name h
  have hticks := congrArg Circuit.ticks h
  refine timeless_eq ((h₁.name.trans hname).trans h₂.name.symm)
    ((h₁.ticks.trans hticks).trans h₂.ticks.symm) (h₁.timeless_components h₂ hu₁ hu₂ h) fun id => ?_
  obtain ⟨i, hi, m₁, hm₁, hid⟩ | ⟨hfree, hsame⟩ := h₁.touched_or id
  · obtain ⟨m₂, hm₂, he⟩ := exists_of_timeless h hm₁
    rw [h₁.touched i hi m₁ hm₁ id hid, h₂.touched i hi m₂ hm₂ id (pins_of_timeless he ▸ hid),
      (update_alike hu₁ hu₂ h hm₁ hm₂ _ _).bus]
  · rw [hsame, h₂.untouched id, connections_of_timeless h]
    intro i hi m₂ hm₂
    obtain ⟨m₁, hm₁, he⟩ := exists_of_timeless h.symm hm₂
    rw [pins_of_timeless he]
    exact hfree i hi m₁ hm₁

/-- Both halves of a tick, each at once. -/
def TickedAtOnce (now : Times) (c c' : Circuit) : Prop :=
  ∃ c₁ c₂, Simultaneous now (c.numbers false) c c₁ ∧ Simultaneous now (c.numbers true) c₁ c₂ ∧
    c' = { c₂ with ticks := c₂.ticks + 1 }

/-- The wires are the same after the first half. -/
theorem TickedAtOnce.halves (h : TickedAtOnce now c c') : ∃ c₁ c₂,
    Simultaneous now (c.numbers false) c c₁ ∧ Simultaneous now (c₁.numbers true) c₁ c₂ ∧
      c' = { c₂ with ticks := c₂.ticks + 1 } := by
  obtain ⟨c₁, c₂, h₁, h₂, hc'⟩ := h
  rw [numbers_of_shape h₁.shape.symm] at h₂
  exact ⟨c₁, c₂, h₁, h₂, hc'⟩

theorem Simultaneous.unique (h₁ : Simultaneous now is c c₁) (h₂ : Simultaneous now is c c₂) :
    c₁ = c₂ := by
  refine ext_getElem? (h₁.name.trans h₂.name.symm) (h₁.ticks.trans h₂.ticks.symm)
    (fun j => (h₁.components j).trans (h₂.components j).symm) fun id => ?_
  obtain ⟨i, hi, m, hm, hid⟩ | ⟨hfree, hsame⟩ := h₁.touched_or id
  · exact (h₁.touched i hi m hm id hid).trans (h₂.touched i hi m hm id hid).symm
  · exact hsame.trans (h₂.untouched id hfree).symm

theorem TickedAtOnce.unique (h₁ : TickedAtOnce now c c₁) (h₂ : TickedAtOnce now c c₂) : c₁ = c₂ := by
  obtain ⟨a₁, b₁, ha₁, hb₁, rfl⟩ := h₁
  obtain ⟨a₂, b₂, ha₂, hb₂, rfl⟩ := h₂
  obtain rfl := ha₁.unique ha₂
  rw [hb₁.unique hb₂]

theorem Simultaneous.untimed (h : Simultaneous now is c c') (hu : c.Untimed) : c'.Untimed := by
  apply untimedAll_iff.2
  intro m hm
  obtain ⟨j, hj⟩ := List.getElem?_of_mem hm
  rw [h.components] at hj
  obtain ⟨n, hn, rfl⟩ := Option.map_eq_some_iff.1 hj
  have hun := untimedAll_iff.1 hu n (List.mem_of_getElem? hn)
  split
  · exact Component.update_untimed hun _ _
  · exact hun

theorem TickedAtOnce.timeless (h₁ : TickedAtOnce now c c₁) (h₂ : TickedAtOnce now' c c₂)
    (hu : c.Untimed) : c₁.timeless = c₂.timeless := by
  obtain ⟨a₁, b₁, ha₁, hb₁, rfl⟩ := h₁
  obtain ⟨a₂, b₂, ha₂, hb₂, rfl⟩ := h₂
  have ha := ha₁.timeless ha₂ hu hu rfl
  have hb := hb₁.timeless hb₂ (ha₁.untimed hu) (ha₂.untimed hu) ha
  have ht := congrArg (fun c => { c with ticks := c.ticks + 1 }) hb
  exact ht

/-- Wires are never the reason of a failure. -/
theorem not_fails_wires (c : Circuit) (h : ∀ i ∈ is, i ∈ c.numbers true) : ¬ c.Fails now is := by
  intro h
  obtain ⟨i, hi, m, hm, hf⟩ := h
  rw [Component.update_wire (isWire_of_mem_numbers (h i hi) hm)] at hf
  cases hf

theorem Apart.of_mem (ha : c.Apart js) (h : ∀ i ∈ is, i ∈ js) : c.Apart is :=
  fun i hi j hj => ha i (h i hi) j (h j hj)

theorem lt_of_mem_numbers {wires : Bool} {i : Nat} (h : i ∈ c.numbers wires) :
    i < c.components.length := by
  obtain ⟨m, hm, -⟩ := mem_numbers.1 h
  exact (List.getElem?_eq_some_iff.1 hm).1

/-- One half of a tick in any order. -/
theorem updateInOrder_perm (now : Times) {wires : Bool} (ha : c.Apart (c.numbers wires))
    (hp : is.Perm (c.numbers wires)) :
    (¬ c.Fails now (c.numbers wires) ∧ ∃ c', updateInOrder now is c = (c', none) ∧
        Simultaneous now (c.numbers wires) c c') ∨
      (c.Fails now (c.numbers wires) ∧ ∃ c' failure, updateInOrder now is c = (c', some failure)) := by
  have hmem : ∀ i, i ∈ c.numbers wires ↔ i ∈ is := fun i => hp.mem_iff.symm
  have hnodup : is.Nodup := hp.nodup_iff.2 (c.numbers_nodup wires)
  have hfails : c.Fails now is ↔ c.Fails now (c.numbers wires) := by simp only [Fails, hmem]
  rw [← hfails]
  obtain ⟨hf, c', hc', h⟩ | hf := updateInOrder_spec now is c hnodup
    (fun i hi => lt_of_mem_numbers ((hmem i).2 hi)) (ha.of_mem fun i hi => (hmem i).2 hi)
  · exact .inl ⟨hf, c', hc', h.congr hmem⟩
  · exact .inr hf

/-- A tick in any order fails if some component does, and is the tick at once otherwise. -/
theorem tickInOrder_spec (now : Times) (ha : ∀ wires, c.Apart (c.numbers wires)) {gates wires : List Nat}
    (hg : gates.Perm (c.numbers false)) (hw : wires.Perm (c.numbers true)) :
    (¬ c.Fails now (c.numbers false) ∧
        ∃ c', c.tickInOrder now gates wires = (c', none) ∧ TickedAtOnce now c c') ∨
      (c.Fails now (c.numbers false) ∧
        ∃ c' failure, c.tickInOrder now gates wires = (c', some failure)) := by
  rw [tickInOrder]
  obtain ⟨hf, c₁, hc₁, h₁⟩ | ⟨hf, c₁, failure, hc₁⟩ := updateInOrder_perm now (ha false) hg
  · refine .inl ⟨hf, ?_⟩
    have hnum : c₁.numbers true = c.numbers true := numbers_of_shape h₁.shape true
    have ha₁ : c₁.Apart (c₁.numbers true) := hnum ▸ (ha true).of_shape h₁.shape
    obtain ⟨-, c₂, hc₂, h₂⟩ | ⟨hf₂, -⟩ := updateInOrder_perm now ha₁ (hnum ▸ hw)
    · rw [hc₁]
      dsimp only
      rw [hc₂]
      exact ⟨_, rfl, c₁, c₂, h₁, hnum ▸ h₂, rfl⟩
    · exact absurd hf₂ (not_fails_wires c₁ fun i hi => hi)
  · rw [hc₁]
    exact .inr ⟨hf, c₁, failure, rfl⟩

/-- Whether a component fails does not depend on the time either. -/
theorem fails_iff (hu : c.Untimed) : c.Fails now is ↔ c.Fails now' is := by
  have hone : ∀ {now now' : Times}, c.Fails now is → c.Fails now' is := by
    rintro now now' ⟨i, hi, m, hm, hf⟩
    exact ⟨i, hi, m, hm, (update_alike hu hu rfl hm hm now now').failure ▸ hf⟩
  exact ⟨hone, hone⟩

/-- In every circuit whose components have their pins for themselves, the order inside a tick does not
matter: all orders complete and agree, or all fail. -/
theorem agree_of_apart (ha : ∀ wires, c.Apart (c.numbers wires)) (hu : c.Untimed) :
    (∃ outcome : Times → Circuit,
        (∀ now now', (outcome now).timeless = (outcome now').timeless) ∧
        ∀ now gates wires, gates.Perm (c.numbers false) → wires.Perm (c.numbers true) →
          c.tickInOrder now gates wires = (outcome now, none)) ∨
      ∀ now gates wires, gates.Perm (c.numbers false) → wires.Perm (c.numbers true) →
        ∃ c' failure, c.tickInOrder now gates wires = (c', some failure) := by
  by_cases hf : c.Fails 0 (c.numbers false)
  · refine .inr fun now gates wires hg hw => ?_
    obtain ⟨hn, -⟩ | ⟨-, h⟩ := tickInOrder_spec now ha hg hw
    · exact absurd ((fails_iff hu).1 hf) hn
    · exact h
  · have hok : ∀ now gates wires, gates.Perm (c.numbers false) → wires.Perm (c.numbers true) →
        ∃ c', c.tickInOrder now gates wires = (c', none) ∧ TickedAtOnce now c c' := by
      intro now gates wires hg hw
      obtain ⟨-, h⟩ | ⟨hn, -⟩ := tickInOrder_spec now ha hg hw
      · exact h
      · exact absurd ((fails_iff hu).1 hn) hf
    have hsame := fun now => hok now _ _ (.refl _) (.refl _)
    refine .inl ⟨fun now => (hsame now).choose, fun now now' => ?_, fun now gates wires hg hw => ?_⟩
    · exact (hsame now).choose_spec.2.timeless (hsame now').choose_spec.2 hu
    · obtain ⟨c', hc', h⟩ := hok now gates wires hg hw
      rw [hc', h.unique (hsame now).choose_spec.2]

end Circuit

/-- What a field is built into at period zero has no clock with a period, at any depth. -/
theorem Field.buildWithin_untimed {rs : Registries} (hr : rs.Exact) :
    ∀ (depth : Nat) (f : Field), f.grid.Exact → ∀ b, buildWithin rs 0 depth f = .ok b →
      b.circuit.Untimed := by
  intro depth
  induction depth using Nat.strong_induction_on with
  | _ depth ih =>
    intro f he b hb
    obtain ⟨b', hb', hc⟩ := buildWithin_circuitOf rs 0 depth he
    obtain rfl := Except.ok.inj (hb.symm.trans hb')
    rw [hc]
    apply untimedAll_iff.2
    intro m hm
    obtain ⟨i, hi⟩ := List.getElem?_of_mem hm
    obtain ⟨h, hh, rfl⟩ := Grid.circuitOf_component_iff.1 hi
    obtain ⟨issues, hmake⟩ := Grid.make_of_mem_builtHeads (List.mem_of_getElem? hh)
    rw [Part.toComponent, Grid.partOf]
    generalize (f.maker rs 0 depth (f.grid.get h)).kind = kind at hmake
    cases kind
    case nested pins inner =>
      obtain ⟨drawing, b, depth', rfl, hd, hb, rfl, -⟩ := nested_of_maker hmake
      have hinner := ih depth' (Nat.lt_succ_self _) drawing (hr.drawingOf? hd) b hb
      generalize b.circuit = inner at hinner
      cases inner
      exact hinner
    case clock phase =>
      obtain ⟨hk, -⟩ | ⟨-, ⟨script, hk⟩ | ⟨pins, circuit, hk⟩⟩ := maker_cases hmake
      · cases hc : f.grid.get h <;> rw [hc] at hk <;> cases hk
        rfl
      · cases hk
      · cases hk
    all_goals trivial

/-- In every state of every built circuit whose clocks have no period, the order inside a tick does not
matter; the tick that runs is one of the orders. -/
theorem Field.tick_order_irrelevant (rs : Registries) (clockPeriod : Nat) {f : Field}
    (he : f.grid.Exact) {b : Build} (hb : f.build rs clockPeriod = .ok b) (hu : b.circuit.Untimed)
    {c : Circuit} (hc : b.circuit.Reachable c) :
    (∀ t, c.tick t = c.tickInOrder t (c.numbers false) (c.numbers true)) ∧
      ((∃ outcome : Times → Circuit,
          (∀ now now', (outcome now).timeless = (outcome now').timeless) ∧
          ∀ now gates wires, gates.Perm (c.numbers false) → wires.Perm (c.numbers true) →
            c.tickInOrder now gates wires = (outcome now, none)) ∨
        ∀ now gates wires, gates.Perm (c.numbers false) → wires.Perm (c.numbers true) →
          ∃ c' failure, c.tickInOrder now gates wires = (c', some failure)) := by
  obtain ⟨b', hb', hcircuit⟩ := buildWithin_circuitOf rs clockPeriod maxNesting he
  obtain rfl := Except.ok.inj (hb.symm.trans hb')
  have hw : b.circuit.Wired := by
    rw [hcircuit]
    exact Grid.circuitOf_wired (f.maker_faithful rs clockPeriod maxNesting)
  exact ⟨fun t => c.tick_eq t, Circuit.agree_of_apart (hc.apart hw) (hc.untimed hu)⟩

theorem sampleField_tick_order : sampleField.grid.Exact ∧
    ∃ b, sampleField.build sampleRegistries 0 = .ok b ∧ b.circuit.Untimed ∧
      b.circuit.Reachable (b.circuit.tick 0).1 ∧
      ((∀ t, (b.circuit.tick 0).1.tick t = (b.circuit.tick 0).1.tickInOrder t
          ((b.circuit.tick 0).1.numbers false) ((b.circuit.tick 0).1.numbers true)) ∧
        ((∃ outcome : Times → Circuit,
            (∀ now now', (outcome now).timeless = (outcome now').timeless) ∧
            ∀ now gates wires, gates.Perm ((b.circuit.tick 0).1.numbers false) →
              wires.Perm ((b.circuit.tick 0).1.numbers true) →
              (b.circuit.tick 0).1.tickInOrder now gates wires = (outcome now, none)) ∨
          ∀ now gates wires, gates.Perm ((b.circuit.tick 0).1.numbers false) →
            wires.Perm ((b.circuit.tick 0).1.numbers true) →
            ∃ c' failure, (b.circuit.tick 0).1.tickInOrder now gates wires = (c', some failure))) := by
  have he : sampleField.grid.Exact := by decide
  obtain ⟨b, hb, -⟩ := Field.buildWithin_circuitOf sampleRegistries 0 maxNesting he
  have hu := Field.buildWithin_untimed sampleRegistries_exact maxNesting sampleField he b hb
  have hr : b.circuit.Reachable (b.circuit.tick 0).1 := .tick 0 .start
  exact ⟨he, b, hb, hu, hr, Field.tick_order_irrelevant sampleRegistries 0 he hb hu hr⟩

end GridCircuit
