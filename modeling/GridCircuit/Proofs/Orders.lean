import GridCircuit.Proofs.Locality

/-!
# Updates one after another

A tick in any order: some components are updated one after another, each clock at a time of its own. When
their pins have nothing in common, every one of them acts on the circuit as it was before, so the
outcome is the same in any order; `Simultaneous` states it without an order. The tick that runs is the
one in table order.
-/

namespace GridCircuit

namespace Circuit

/-- Update the component with a number. -/
def updateAt (now : Times) (c : Circuit) (i : Nat) : Circuit × Option ScriptFailure :=
  match c.components[i]? with
  | none => (c, none)
  | some m =>
    let s := m.update now c.connections
    ({ c with components := c.components.set i s.value, connections := s.bus }, s.failure)

/-- Update some components one after another, up to the first failure. -/
def updateInOrder (now : Times) : List Nat → Circuit → Circuit × Option ScriptFailure
  | [], c => (c, none)
  | i :: is, c =>
    match c.updateAt now i with
    | (c, none) => updateInOrder now is c
    | (c, some failure) => (c, some failure)

/-- The numbers of the wires, or of all other components. -/
def numbers (c : Circuit) (wires : Bool) : List Nat :=
  (c.components.zipIdx.filter fun e => e.1.isWire = wires).map (·.2)

/-- One tick: some components in order, then others if none has failed. -/
def tickInOrder (now : Times) (gates wires : List Nat) (c : Circuit) :
    Circuit × Option ScriptFailure :=
  match updateInOrder now gates c with
  | (c, some failure) => (c, some failure)
  | (c, none) =>
    match updateInOrder now wires c with
    | (c, some failure) => (c, some failure)
    | (c, none) => ({ c with ticks := c.ticks + 1 }, none)

/-- Some components have all acted on the circuit as it was. -/
structure Simultaneous (now : Times) (is : List Nat) (c c' : Circuit) : Prop where
  name : c'.name = c.name
  ticks : c'.ticks = c.ticks
  components : ∀ j : Nat, c'.components[j]? = (c.components[j]?).map fun m =>
    if j ∈ is then (m.update now c.connections).value else m
  touched : ∀ i ∈ is, ∀ m, c.components[i]? = some m → ∀ id ∈ m.pins,
    c'.connections[id]? = (m.update now c.connections).bus[id]?
  untouched : ∀ id : Nat, (∀ i ∈ is, ∀ m, c.components[i]? = some m → id ∉ m.pins) →
    c'.connections[id]? = c.connections[id]?

/-- Some component cannot be updated. -/
def Fails (now : Times) (is : List Nat) (c : Circuit) : Prop :=
  ∃ i ∈ is, ∃ m, c.components[i]? = some m ∧ (m.update now c.connections).failure.isSome = true

/-- Components whose pins have nothing in common. -/
def Apart (c : Circuit) (is : List Nat) : Prop :=
  ∀ i ∈ is, ∀ j ∈ is, i ≠ j → ∀ m n, c.components[i]? = some m → c.components[j]? = some n →
    m.pins.Disjoint n.pins

/-- What an update leaves alone about the components. -/
def shape (c : Circuit) : List (Bool × List Nat × List Nat × Option Nat) :=
  c.components.map Component.shape

variable {now : Times} {is js : List Nat} {c c' : Circuit} {i : Nat} {m : Component}

theorem mem_numbers {wires : Bool} :
    i ∈ c.numbers wires ↔ ∃ m, c.components[i]? = some m ∧ m.isWire = wires := by
  rw [numbers, List.mem_map]
  constructor
  · intro h
    obtain ⟨e, he, rfl⟩ := h
    obtain ⟨hmem, hw⟩ := List.mem_filter.1 he
    exact ⟨e.1, List.mem_zipIdx_iff_getElem?.1 hmem, of_decide_eq_true hw⟩
  · intro h
    obtain ⟨m, hm, hw⟩ := h
    exact ⟨(m, i), List.mem_filter.2 ⟨List.mem_zipIdx_iff_getElem?.2 hm, decide_eq_true hw⟩, rfl⟩

theorem isWire_of_mem_numbers {wires : Bool} (hi : i ∈ c.numbers wires)
    (hm : c.components[i]? = some m) : m.isWire = wires := by
  obtain ⟨n, hn, hw⟩ := mem_numbers.1 hi
  obtain rfl := Option.some.inj (hm.symm.trans hn)
  exact hw

theorem numbers_nodup (c : Circuit) (wires : Bool) : (c.numbers wires).Nodup := by
  have hall : (c.components.zipIdx.map (·.2)).Nodup := by
    rw [List.zipIdx_map_snd]
    exact List.nodup_range' ..
  exact hall.sublist (List.filter_sublist.map _)

theorem shape_getElem? (h : c.shape = c'.shape) :
    (c.components[i]?).map Component.shape = (c'.components[i]?).map Component.shape := by
  have hi := congrArg (·[i]?) h
  simpa only [shape, List.getElem?_map] using hi

theorem exists_of_shape (h : c.shape = c'.shape) (hm : c.components[i]? = some m) :
    ∃ n, c'.components[i]? = some n ∧ m.shape = n.shape := by
  have hi := shape_getElem? (i := i) h
  rw [hm, Option.map_some, eq_comm, Option.map_eq_some_iff] at hi
  obtain ⟨n, hn, hs⟩ := hi
  exact ⟨n, hn, hs.symm⟩

theorem Apart.of_shape (ha : c.Apart is) (h : c'.shape = c.shape) : c'.Apart is := by
  intro i hi j hj hij m n hm hn
  obtain ⟨m', hm', hsm⟩ := exists_of_shape h hm
  obtain ⟨n', hn', hsn⟩ := exists_of_shape h hn
  rw [Component.pins_of_shape hsm, Component.pins_of_shape hsn]
  exact ha i hi j hj hij m' n' hm' hn'

theorem numbers_of_shape (h : c.shape = c'.shape) (wires : Bool) :
    c.numbers wires = c'.numbers wires := by
  have hnum : ∀ c : Circuit, c.numbers wires =
      (c.shape.zipIdx.filter fun e => e.1.1 = wires).map (·.2) := by
    intro c
    rw [numbers, shape, List.zipIdx_map, List.filter_map, List.map_map]
    rfl
  rw [hnum, hnum, h]

/-- What is apart stays so while circuits run. -/
theorem apart_of_shape {d : Circuit} (ha : ∀ wires, c.Apart (c.numbers wires))
    (h : d.shape = c.shape) (wires : Bool) : d.Apart (d.numbers wires) := by
  rw [numbers_of_shape h]
  exact (ha wires).of_shape h

theorem updateAt_shape (now : Times) (c : Circuit) (i : Nat) : (c.updateAt now i).1.shape = c.shape := by
  unfold updateAt
  split
  case h_1 => rfl
  case h_2 m hm =>
    apply List.ext_getElem?
    intro j
    simp only [shape, List.getElem?_map, List.getElem?_set]
    by_cases hj : i = j
    · subst hj
      obtain ⟨hlt, rfl⟩ := List.getElem?_eq_some_iff.1 hm
      simp [hlt, Component.update_shape]
    · simp [hj]

theorem updateInOrder_shape (now : Times) (is : List Nat) :
    ∀ c : Circuit, (updateInOrder now is c).1.shape = c.shape := by
  induction is with
  | nil => exact fun _ => rfl
  | cons i is ih =>
    intro c
    have hi := c.updateAt_shape now i
    unfold updateInOrder
    split
    case h_1 c' h =>
      rw [h] at hi
      exact (ih c').trans hi
    case h_2 c' failure h =>
      rw [h] at hi
      exact hi

theorem updateAt_spec (hm : c.components[i]? = some m) {failure : Option ScriptFailure}
    (h : c.updateAt now i = (c', failure)) :
    Simultaneous now [i] c c' ∧ failure = (m.update now c.connections).failure := by
  simp only [updateAt, hm] at h
  obtain ⟨rfl, rfl⟩ := Prod.mk.inj h
  obtain ⟨hlt, hget⟩ := List.getElem?_eq_some_iff.1 hm
  refine ⟨?_, rfl⟩
  constructor
  case name => rfl
  case ticks => rfl
  case components =>
    intro j
    rw [List.getElem?_set]
    by_cases hj : i = j
    · subst hj
      simp [hlt, hget]
    · simp [hj, Ne.symm hj]
  case touched =>
    intro j hj n hn id hid
    obtain rfl := List.mem_singleton.1 hj
    obtain rfl := Option.some.inj (hm.symm.trans hn)
    rfl
  case untouched =>
    intro id hid
    exact Component.update_frame _ (hid i (List.mem_singleton_self i) m hm)

theorem Simultaneous.shape (h : Simultaneous now is c c') : c'.shape = c.shape := by
  apply List.ext_getElem?
  intro j
  rw [Circuit.shape, Circuit.shape, List.getElem?_map, List.getElem?_map, h.components,
    Option.map_map]
  congr 1
  funext m
  rw [Function.comp_apply]
  split
  · exact Component.update_shape _ _ _
  · rfl

/-- A connection is touched by one of the components, or by none. -/
theorem Simultaneous.touched_or (h : Simultaneous now is c c') (id : Nat) :
    (∃ i ∈ is, ∃ m, c.components[i]? = some m ∧ id ∈ m.pins) ∨
      ((∀ i ∈ is, ∀ m, c.components[i]? = some m → id ∉ m.pins) ∧
        c'.connections[id]? = c.connections[id]?) := by
  by_cases htouch : ∃ i ∈ is, ∃ m, c.components[i]? = some m ∧ id ∈ m.pins
  · exact .inl htouch
  · have hfree : ∀ i ∈ is, ∀ m, c.components[i]? = some m → id ∉ m.pins :=
      fun i hi m hm hid => htouch ⟨i, hi, m, hm, hid⟩
    exact .inr ⟨hfree, h.untouched id hfree⟩

/-- An update of other components changes neither a component nor what it looks at. -/
theorem Simultaneous.elsewhere (h : Simultaneous now is c c') (hi : i ∉ is)
    (hm : c.components[i]? = some m)
    (hd : ∀ j ∈ is, ∀ n, c.components[j]? = some n → m.pins.Disjoint n.pins) :
    c'.components[i]? = some m ∧ Bus.Agree m.pins c'.connections c.connections := by
  constructor
  · rw [h.components, hm]
    simp [hi]
  · intro id hid
    exact h.untouched id fun j hj n hn hidn => hd j hj n hn hid hidn

/-- After one update, the others that are apart from it still do what they did before. -/
theorem Simultaneous.later {c₁ : Circuit} (h₁ : Simultaneous now [i] c c₁) (ha : c.Apart (i :: is))
    (hi : i ∉ is) {j : Nat} (hj : j ∈ is) (hm : c.components[j]? = some m) :
    c₁.components[j]? = some m ∧ Bus.Agree m.pins c₁.connections c.connections ∧
      Step.Matches c₁.connections c.connections
        (m.update now c₁.connections) (m.update now c.connections) := by
  have hne : j ≠ i := fun he => hi (he ▸ hj)
  obtain ⟨hm₁, hagree⟩ := h₁.elsewhere (by simpa using hne) hm fun k hk n hn => by
    obtain rfl := List.mem_singleton.1 hk
    exact ha j (List.mem_cons_of_mem _ hj) k List.mem_cons_self hne m n hm hn
  refine ⟨hm₁, hagree, Component.update_local _ fun id hid => ?_⟩
  exact hagree id (List.mem_append_left _ hid)

/-- Components that are apart act on the same circuit, one after the other or at once. -/
theorem Simultaneous.cons {c₁ : Circuit} (h₁ : Simultaneous now [i] c c₁)
    (h₂ : Simultaneous now is c₁ c') (ha : c.Apart (i :: is)) (hi : i ∉ is) :
    Simultaneous now (i :: is) c c' := by
  have hpins : ∀ (k : Nat) (n : Component), c₁.components[k]? = some n →
      ∃ n' : Component, c.components[k]? = some n' ∧ n.pins = n'.pins := by
    intro k n hn
    obtain ⟨n', hn', hs⟩ := exists_of_shape h₁.shape hn
    exact ⟨n', hn', Component.pins_of_shape hs⟩
  constructor
  case name => rw [h₂.name, h₁.name]
  case ticks => rw [h₂.ticks, h₁.ticks]
  case components =>
    intro j
    rw [h₂.components, h₁.components]
    cases hm : c.components[j]? with
    | none => rfl
    | some m =>
      by_cases hj : j = i
      · subst hj
        simp [hi]
      · by_cases hjs : j ∈ is
        · simp [hj, hjs, (h₁.later ha hi hjs hm).2.2.value]
        · simp [hj, hjs]
  case touched =>
    intro j hj m hm id hid
    obtain rfl | hjs := List.mem_cons.1 hj
    · rw [← h₁.touched j (by simp) m hm id hid]
      refine h₂.untouched id fun k hk n hn hidn => ?_
      obtain ⟨n', hn', hp⟩ := hpins k n hn
      have hne : j ≠ k := fun he => hi (he ▸ hk)
      exact ha j hj k (List.mem_cons_of_mem _ hk) hne m n' hm hn' hid (hp ▸ hidn)
    · obtain ⟨hm₁, hagree, hlocal⟩ := h₁.later ha hi hjs hm
      rw [h₂.touched j hjs m hm₁ id hid]
      exact hlocal.bus id (hagree id hid)
  case untouched =>
    intro id hid
    have h₁' : c₁.connections[id]? = c.connections[id]? := by
      refine h₁.untouched id fun k hk => ?_
      obtain rfl := List.mem_singleton.1 hk
      exact hid k List.mem_cons_self
    rw [← h₁']
    refine h₂.untouched id fun k hk n hn => ?_
    obtain ⟨n', hn', hp⟩ := hpins k n hn
    exact hp ▸ hid k (List.mem_cons_of_mem _ hk) n' hn'

theorem Simultaneous.fails_iff {c₁ : Circuit} (h₁ : Simultaneous now [i] c c₁)
    (ha : c.Apart (i :: is)) (hi : i ∉ is) : c₁.Fails now is ↔ c.Fails now is := by
  constructor
  · intro h
    obtain ⟨j, hj, n, hn, hf⟩ := h
    obtain ⟨m, hm, -⟩ := exists_of_shape h₁.shape hn
    obtain ⟨hm₁, -, hlocal⟩ := h₁.later ha hi hj hm
    obtain rfl := Option.some.inj (hn.symm.trans hm₁)
    exact ⟨j, hj, n, hm, hlocal.failure ▸ hf⟩
  · intro h
    obtain ⟨j, hj, m, hm, hf⟩ := h
    obtain ⟨hm₁, -, hlocal⟩ := h₁.later ha hi hj hm
    exact ⟨j, hj, m, hm₁, hlocal.failure ▸ hf⟩

theorem fails_cons (hm : c.components[i]? = some m) : c.Fails now (i :: is) ↔
    (m.update now c.connections).failure.isSome = true ∨ c.Fails now is := by
  simp [Fails, hm]

/-- Updates of components that are apart either all succeed, and then have acted at once, or fail,
and then one of them fails on the circuit as it was. -/
theorem updateInOrder_spec (now : Times) :
    ∀ (is : List Nat) (c : Circuit), is.Nodup → (∀ i ∈ is, i < c.components.length) → c.Apart is →
      (¬ c.Fails now is ∧ ∃ c', updateInOrder now is c = (c', none) ∧ Simultaneous now is c c') ∨
        (c.Fails now is ∧ ∃ c' failure, updateInOrder now is c = (c', some failure)) := by
  intro is
  induction is with
  | nil =>
    intro c _ _ _
    refine .inl ⟨fun h => ?_, c, rfl, ⟨rfl, rfl, ?_, ?_, fun _ _ => rfl⟩⟩
    · obtain ⟨i, hi, -⟩ := h
      cases hi
    · simp
    · simp
  | cons i is ih =>
    intro c hn hlt ha
    obtain ⟨hi, hn⟩ := List.nodup_cons.1 hn
    have hm := List.getElem?_eq_getElem (hlt i List.mem_cons_self)
    rw [updateInOrder, fails_cons hm]
    cases hu : c.updateAt now i with
    | mk c₁ failure =>
      obtain ⟨h₁, hfailure⟩ := updateAt_spec hm hu
      rw [← hfailure]
      cases failure with
      | some failure => exact .inr ⟨.inl rfl, c₁, failure, rfl⟩
      | none =>
        have hlen : c₁.components.length = c.components.length := by
          simpa [shape] using congrArg List.length h₁.shape
        have ha₁ : c₁.Apart is := Apart.of_shape (c := c)
          (fun j hj k hk => ha j (List.mem_cons_of_mem _ hj) k (List.mem_cons_of_mem _ hk)) h₁.shape
        have hlt₁ : ∀ j ∈ is, j < c₁.components.length :=
          fun j hj => hlen ▸ hlt j (List.mem_cons_of_mem _ hj)
        rw [← h₁.fails_iff ha hi]
        obtain ⟨hf, c', hc', h₂⟩ | ⟨hf, hc'⟩ := ih c₁ hn hlt₁ ha₁
        · exact .inl ⟨by simpa using hf, c', hc', h₁.cons h₂ ha hi⟩
        · exact .inr ⟨.inr hf, hc'⟩

/-- The numbers of the wires, or of the others, in the rest of a table. -/
def numbersFrom (wires : Bool) (k : Nat) (cs : List Component) : List Nat :=
  ((cs.zipIdx k).filter fun e => e.1.isWire = wires).map (·.2)

theorem numbersFrom_cons (wires : Bool) (k : Nat) (m : Component) (cs : List Component) :
    numbersFrom wires k (m :: cs) =
      if m.isWire = wires then k :: numbersFrom wires (k + 1) cs
      else numbersFrom wires (k + 1) cs := by
  rw [numbersFrom, List.zipIdx_cons, List.filter_cons]
  by_cases h : m.isWire = wires <;> simp [h, numbersFrom]

theorem updateAt_append (t : Times) (name : String) (done : List Component) (m : Component)
    (cs : List Component) (bus : Bus) (ticks : Nat) :
    updateAt t ⟨name, done ++ m :: cs, bus, ticks⟩ done.length =
      (⟨name, done ++ (m.update t bus).value :: cs, (m.update t bus).bus, ticks⟩,
        (m.update t bus).failure) := by
  simp [updateAt]

/-- The first half of a tick goes through the rest of the table. -/
theorem updateInOrder_gates (t : Times) (name : String) (ticks : Nat) :
    ∀ (cs done : List Component) (bus : Bus),
      updateInOrder t (numbersFrom false done.length cs) ⟨name, done ++ cs, bus, ticks⟩ =
        (⟨name, done ++ (updateGates t cs bus).value, (updateGates t cs bus).bus, ticks⟩,
          (updateGates t cs bus).failure) := by
  intro cs
  induction cs with
  | nil => exact fun done bus => rfl
  | cons m cs ih =>
    intro done bus
    have hnext := fun (m' : Component) (bus : Bus) => ih (done ++ [m']) bus
    simp only [List.length_append, List.length_singleton, List.append_assoc,
      List.singleton_append] at hnext
    rw [numbersFrom_cons]
    cases hw : m.isWire with
    | true => simpa [updateGates, hw] using hnext m bus
    | false =>
      rw [if_pos rfl, updateInOrder, updateAt_append]
      simp only [updateGates, hw]
      cases hu : m.update t bus with
      | mk m' bus' failure =>
        cases failure with
        | none => simpa using hnext m' bus'
        | some failure => simp

/-- The second half never fails. -/
theorem updateInOrder_wires (t : Times) (name : String) (ticks : Nat) :
    ∀ (cs done : List Component) (bus : Bus),
      updateInOrder t (numbersFrom true done.length cs) ⟨name, done ++ cs, bus, ticks⟩ =
        (⟨name, done ++ (updateWires t cs bus).1, (updateWires t cs bus).2, ticks⟩, none) := by
  intro cs
  induction cs with
  | nil => exact fun done bus => rfl
  | cons m cs ih =>
    intro done bus
    have hnext := fun (m' : Component) (bus : Bus) => ih (done ++ [m']) bus
    simp only [List.length_append, List.length_singleton, List.append_assoc,
      List.singleton_append] at hnext
    rw [numbersFrom_cons]
    cases hw : m.isWire with
    | false => simpa [updateWires, hw] using hnext m bus
    | true =>
      rw [if_pos rfl, updateInOrder, updateAt_append, Component.update_wire hw]
      simpa [updateWires, hw, Component.updatePlain] using hnext _ _

/-- A tick is one of the orders: each half in the order of the table. -/
theorem tick_eq (t : Times) (c : Circuit) :
    c.tick t = c.tickInOrder t (c.numbers false) (c.numbers true) := by
  obtain ⟨name, components, connections, ticks⟩ := c
  have hg : updateInOrder t (numbers ⟨name, components, connections, ticks⟩ false) _ = _ :=
    updateInOrder_gates t name ticks components [] connections
  rw [List.nil_append, List.nil_append] at hg
  set gates := updateGates t components connections with hgates
  have hw : updateInOrder t (numbers ⟨name, gates.value, gates.bus, ticks⟩ true) _ = _ :=
    updateInOrder_wires t name ticks gates.value [] gates.bus
  rw [List.nil_append, List.nil_append] at hw
  have hshape := updateInOrder_shape t (numbers ⟨name, components, connections, ticks⟩ false)
    ⟨name, components, connections, ticks⟩
  rw [hg] at hshape
  rw [tickInOrder, tick, completeTick, ← hgates, hg]
  cases gates.failure with
  | some failure => rfl
  | none =>
    dsimp only
    rw [← numbers_of_shape hshape true, hw]

end Circuit

end GridCircuit
