import GridCircuit.Proofs.Copies
import GridCircuit.Proofs.TickOrder

/-!
# Circuits inside circuits follow

A placement says where some components and connections of a circuit are found in another one. When
each chosen component has a copy there and no stranger touches what is placed, one half of a tick keeps
the two in step; so the part does in the larger circuit what it does alone.
-/

namespace GridCircuit

/-- Where some components and connections of a circuit are found in another one. -/
structure Placement where
  component : Nat → Nat
  connection : Nat → Nat
  /-- The components that have a copy. -/
  chosen : Nat → Prop
  /-- The connections that are placed. -/
  placed : Nat → Prop
  /-- The connections whose changes count. -/
  full : Nat → Prop

namespace Circuit

variable {P : Placement} {wires : Bool} {c c' d d' : Circuit} {i j : Nat} {m m' : Component} {t : Nat}

/-- What is placed is the same in both circuits. -/
structure Follows (P : Placement) (c c' : Circuit) : Prop where
  component : ∀ i m, P.chosen i → c.components[i]? = some m →
    ∃ m', c'.components[P.component i]? = some m' ∧ m.Copies P.connection m'
  connection : ∀ id, P.placed id →
    Connection.Tracks (P.full id) (c.connections[id]?) (c'.connections[P.connection id]?)

/-- Of the wires, or of the other components, only the chosen ones and their copies touch what is
placed. -/
structure Secluded (P : Placement) (wires : Bool) (c c' : Circuit) : Prop where
  injective : ∀ a b, P.placed a → P.placed b → P.connection a = P.connection b → a = b
  pins : ∀ i m, P.chosen i → c.components[i]? = some m → m.isWire = wires →
    ∀ id ∈ m.pins, P.placed id
  full : ∀ i m, P.chosen i → c.components[i]? = some m → m.isWire = wires → wires = false →
    ∀ id ∈ m.inputs, P.full id
  others : ∀ i m, ¬ P.chosen i → c.components[i]? = some m → m.isWire = wires →
    ∀ id ∈ m.pins, ¬ P.placed id
  strangers : ∀ j m', c'.components[j]? = some m' → m'.isWire = wires →
    (∃ i m, P.chosen i ∧ c.components[i]? = some m ∧ P.component i = j) ∨
      ∀ id, P.placed id → P.connection id ∉ m'.pins

/-- Who touches what does not change while circuits run. -/
theorem Secluded.of_shape (h : Secluded P wires c c') (hc : d.shape = c.shape)
    (hc' : d'.shape = c'.shape) : Secluded P wires d d' := by
  constructor
  case injective => exact h.injective
  case pins =>
    intro i m hi hm hw id hid
    obtain ⟨n, hn, hs⟩ := exists_of_shape hc hm
    rw [Component.isWire_of_shape hs] at hw
    exact h.pins i n hi hn hw id (Component.pins_of_shape hs ▸ hid)
  case full =>
    intro i m hi hm hw hwires id hid
    obtain ⟨n, hn, hs⟩ := exists_of_shape hc hm
    rw [Component.isWire_of_shape hs] at hw
    exact h.full i n hi hn hw hwires id (Component.inputs_of_shape hs ▸ hid)
  case others =>
    intro i m hi hm hw id hid
    obtain ⟨n, hn, hs⟩ := exists_of_shape hc hm
    rw [Component.isWire_of_shape hs] at hw
    exact h.others i n hi hn hw id (Component.pins_of_shape hs ▸ hid)
  case strangers =>
    intro j m' hm' hw
    obtain ⟨n', hn', hs'⟩ := exists_of_shape hc' hm'
    rw [Component.isWire_of_shape hs'] at hw
    obtain ⟨i, n, hi, hn, hij⟩ | hfree := h.strangers j n' hn' hw
    · obtain ⟨m, hm, -⟩ := exists_of_shape hc.symm hn
      exact .inl ⟨i, m, hi, hm, hij⟩
    · exact .inr fun id hid => Component.pins_of_shape hs' ▸ hfree id hid

section Half

variable (hF : Follows P c c') (hS : Secluded P wires c c')

include hF hS

theorem Follows.seenBy (hi : P.chosen i) (hm : c.components[i]? = some m) (hw : m.isWire = wires) :
    m.SeenBy P.connection P.full c.connections c'.connections := by
  have hpins := hS.pins i m hi hm hw
  refine ⟨fun a ha b hb => hS.injective a b (hpins a ha) (hpins b hb),
    fun id hid => hF.connection id (hpins id hid), fun hwire => ?_⟩
  exact hS.full i m hi hm hw (hw.symm.trans hwire)

/-- A chosen component and its copy do the same. -/
theorem Follows.update (hi : P.chosen i) (hm : c.components[i]? = some m) (hw : m.isWire = wires)
    (t : Nat) : ∃ m', c'.components[P.component i]? = some m' ∧ m'.isWire = wires ∧
      m.Copies P.connection m' ∧ Component.StepCopies P.connection P.full m.pins
        (m.update (.all t) c.connections) (m'.update (.all t) c'.connections) := by
  obtain ⟨m', hm', hcopy⟩ := hF.component i m hi hm
  exact ⟨m', hm', hcopy.isWire.trans hw, hcopy, hcopy.update (hF.seenBy hS hi hm hw) t⟩

/-- A chosen component that fails makes the larger circuit fail. -/
theorem Follows.fails (hi : P.chosen i) (hm : c.components[i]? = some m) (hw : m.isWire = wires)
    (hfail : (m.update (.all t) c.connections).failure.isSome = true) :
    c'.Fails (.all t) (c'.numbers wires) := by
  obtain ⟨m', hm', hw', -, hstep⟩ := hF.update hS hi hm hw t
  exact ⟨_, mem_numbers.2 ⟨m', hm', hw'⟩, m', hm', hstep.failure.trans hfail⟩

/-- A copy that fails makes its circuit fail. -/
theorem Follows.fails_of_copy (hi : P.chosen i) (hm : c.components[i]? = some m)
    (hm' : c'.components[P.component i]? = some m') (hw : m'.isWire = wires)
    (hfail : (m'.update (.all t) c'.connections).failure.isSome = true) :
    c.Fails (.all t) (c.numbers wires) := by
  obtain ⟨m'', hm'', hcopy⟩ := hF.component i m hi hm
  obtain rfl := Option.some.inj (hm'.symm.trans hm'')
  have hwire := hcopy.isWire.symm.trans hw
  have hstep := hcopy.update (hF.seenBy hS hi hm hwire) t
  exact ⟨i, mem_numbers.2 ⟨m, hm, hwire⟩, m, hm, hstep.failure.symm.trans hfail⟩

variable (h : Simultaneous (.all t) (c.numbers wires) c d)
  (h' : Simultaneous (.all t) (c'.numbers wires) c' d')

include h h'

theorem Follows.half_component (hi : P.chosen i) (hm : d.components[i]? = some m) :
    ∃ m', d'.components[P.component i]? = some m' ∧ m.Copies P.connection m' := by
  rw [h.components] at hm
  obtain ⟨n, hn, rfl⟩ := Option.map_eq_some_iff.1 hm
  obtain ⟨n', hn', hcopy⟩ := hF.component i n hi hn
  refine ⟨_, by rw [h'.components, hn', Option.map_some], ?_⟩
  by_cases hw : n.isWire = wires
  · rw [if_pos (mem_numbers.2 ⟨n, hn, hw⟩), if_pos (mem_numbers.2 ⟨n', hn', hcopy.isWire.trans hw⟩)]
    exact (hcopy.update (hF.seenBy hS hi hn hw) t).value
  · rw [if_neg fun hmem => hw (isWire_of_mem_numbers hmem hn),
      if_neg fun hmem => hw (hcopy.isWire.symm.trans (isWire_of_mem_numbers hmem hn'))]
    exact hcopy

theorem Follows.half_connection (id : Nat) (hid : P.placed id) :
    Connection.Tracks (P.full id) (d.connections[id]?) (d'.connections[P.connection id]?) := by
  obtain ⟨i, hi, m, hm, hpin⟩ | ⟨hfree, hsame⟩ := h.touched_or id
  · have hw := isWire_of_mem_numbers hi hm
    have hchosen : P.chosen i := by
      by_contra hno
      exact hS.others i m hno hm hw id hpin hid
    obtain ⟨m', hm', hw', hcopy, hstep⟩ := hF.update hS hchosen hm hw t
    have hpin' : P.connection id ∈ m'.pins := hcopy.pins ▸ List.mem_map_of_mem hpin
    rw [h.touched i hi m hm id hpin,
      h'.touched _ (mem_numbers.2 ⟨m', hm', hw'⟩) m' hm' _ hpin']
    exact hstep.bus id hpin
  · rw [hsame, h'.untouched]
    · exact hF.connection id hid
    · intro j hj m' hm' hpin'
      have hw' := isWire_of_mem_numbers hj hm'
      obtain ⟨i, m, hi, hm, rfl⟩ | hstranger := hS.strangers j m' hm' hw'
      · obtain ⟨n', hn', hcopy⟩ := hF.component i m hi hm
        obtain rfl := Option.some.inj (hm'.symm.trans hn')
        have hw := hcopy.isWire.symm.trans hw'
        rw [hcopy.pins, List.mem_map] at hpin'
        obtain ⟨a, ha, he⟩ := hpin'
        obtain rfl := hS.injective a id (hS.pins i m hi hm hw a ha) hid he
        exact hfree i (mem_numbers.2 ⟨m, hm, hw⟩) m hm ha
      · exact hstranger id hid hpin'

/-- One half of a tick keeps a part in step with the larger circuit. -/
theorem Follows.half : Follows P d d' :=
  ⟨fun _ _ hi hm => hF.half_component hS h h' hi hm, fun id hid => hF.half_connection hS h h' id hid⟩

end Half

/-- One tick keeps a part in step with the larger circuit. -/
theorem Follows.ticked (hF : Follows P c c') (hS : ∀ wires, Secluded P wires c c')
    (h : TickedAtOnce (.all t) c d) (h' : TickedAtOnce (.all t) c' d') : Follows P d d' := by
  obtain ⟨c₁, c₂, h₁, h₂, rfl⟩ := h.halves
  obtain ⟨c₁', c₂', h₁', h₂', rfl⟩ := h'.halves
  have hhalf := hF.half (hS false) h₁ h₁'
  obtain ⟨hcomponent, hconnection⟩ :=
    hhalf.half ((hS true).of_shape h₁.shape h₁'.shape) h₂ h₂'
  exact ⟨hcomponent, hconnection⟩

/-- Turn the level of one component over. -/
def flip (c : Circuit) (id : Nat) : Circuit :=
  { c with components := c.components.modify id fun m => { m with level := !m.level } }

theorem toggle?_eq (c : Circuit) (n : Nat) : c.toggle? n = (c.buttons[n]?).map c.flip := rfl

theorem flip_getElem? (c : Circuit) (id i : Nat) : (c.flip id).components[i]? =
    (c.components[i]?).map fun m => if id = i then { m with level := !m.level } else m := by
  rw [flip, List.getElem?_modify]
  by_cases h : id = i <;> simp [h]

/-- A flipped circuit has components that differ in their levels alone. -/
theorem exists_of_mem_flip {m : Component} {id : Nat} (hm : m ∈ (c.flip id).components) :
    ∃ m₀ ∈ c.components, ∃ level, m = { m₀ with level } := by
  obtain ⟨i, hi⟩ := List.getElem?_of_mem hm
  rw [flip_getElem?, Option.map_eq_some_iff] at hi
  obtain ⟨m₀, hm₀, rfl⟩ := hi
  refine ⟨m₀, List.mem_of_getElem? hm₀, ?_⟩
  split
  · exact ⟨!m₀.level, rfl⟩
  · exact ⟨m₀.level, by cases m₀; rfl⟩

/-- The level of a component and that of its copy are turned over. -/
theorem Follows.flip (hF : Follows P c c')
    (hinj : ∀ i, P.chosen i → P.component j = P.component i → j = i) :
    Follows P (c.flip j) (c'.flip (P.component j)) := by
  refine ⟨fun i m hi hm => ?_, hF.connection⟩
  rw [flip_getElem?] at hm
  obtain ⟨n, hn, rfl⟩ := Option.map_eq_some_iff.1 hm
  obtain ⟨n', hn', hcopy⟩ := hF.component i n hi hn
  have hiff : P.component j = P.component i ↔ j = i := ⟨hinj i hi, congrArg P.component⟩
  refine ⟨_, by rw [flip_getElem?, hn', Option.map_some], ?_⟩
  simp only [hiff]
  split
  · exact ⟨hcopy.kind, congrArg (!·) hcopy.level, hcopy.inputs, hcopy.outputs, hcopy.clock⟩
  · exact hcopy

/-- The level of a component that is no copy is turned over. -/
theorem Follows.flip_stranger (hF : Follows P c c') (hj : ∀ i, P.chosen i → j ≠ P.component i) :
    Follows P c (c'.flip j) := by
  refine ⟨fun i m hi hm => ?_, hF.connection⟩
  obtain ⟨m', hm', hcopy⟩ := hF.component i m hi hm
  exact ⟨m', by rw [flip_getElem?, hm', Option.map_some, if_neg (hj i hi)], hcopy⟩

/-- A tick either completes, both halves at once, or fails because some component does. -/
theorem tick_cases (ha : ∀ wires, c.Apart (c.numbers wires)) (t : Times) :
    (¬ c.Fails t (c.numbers false) ∧
        ∃ c', c.tick t = (c', none) ∧ TickedAtOnce t c c') ∨
      (c.Fails t (c.numbers false) ∧ ∃ c' failure, c.tick t = (c', some failure)) := by
  rw [tick_eq]
  exact tickInOrder_spec _ ha (List.Perm.refl _) (List.Perm.refl _)

theorem tick_of_fails (ha : ∀ wires, c.Apart (c.numbers wires)) {t : Times}
    (h : c.Fails t (c.numbers false)) : ∃ c' failure, c.tick t = (c', some failure) := by
  obtain ⟨hn, -⟩ | ⟨-, htick⟩ := tick_cases ha t
  · exact absurd h hn
  · exact htick

theorem tick_of_not_fails (ha : ∀ wires, c.Apart (c.numbers wires)) {t : Times}
    (h : ¬ c.Fails t (c.numbers false)) :
    ∃ c', c.tick t = (c', none) ∧ TickedAtOnce t c c' := by
  obtain ⟨-, htick⟩ | ⟨hfails, -⟩ := tick_cases ha t
  · exact htick
  · exact absurd hfails h

end Circuit

end GridCircuit
