import GridCircuit.Proofs.Instants

/-!
# Nothing comes from where there is no driver

In every run of a built circuit, a connection without driver stays low at the top. Inside a component
that is a circuit the same holds, except for the pins that the component is fed: each of them has the
level that the connection outside had when the component was last updated. No other level gets in or out:
what is written inside goes out through the output pins alone.

The invariant says for a circuit and all circuits inside it that whatever nobody writes and nobody feeds
is low. Fed connections have no driver, so a tick inside leaves them alone.
-/

namespace GridCircuit

/-- Only what was a circuit before is one after an update, with the same pins. -/
theorem Component.nested_of_update {now : Times} {m : Component} {bus : Bus} {pins : Pins}
    {inner : Circuit} (h : (m.update now bus).value.kind = .nested pins inner) :
    ∃ inner₀, m.kind = .nested pins inner₀ := by
  obtain ⟨code, kind, level, cells, inputs, outputs, clock⟩ := m
  cases kind
  case nested pins₀ inner₀ =>
    obtain ⟨name, components, connections, ticks⟩ := inner₀
    simp only [Component.update] at h
    split at h
    all_goals
      obtain ⟨rfl, -⟩ := Kind.nested.inj h
      exact ⟨_, rfl⟩
  case scripted unit =>
    have hscripted : (updateScripted ⟨code, .scripted unit, level, cells, inputs, outputs, clock⟩
        unit bus).value.kind = .nested pins inner := h
    unfold updateScripted at hscripted
    split at hscripted
    · rw [runScript] at hscripted
      split at hscripted <;> cases hscripted
    · cases hscripted
  all_goals cases h

namespace Circuit

/-- What one action makes of a circuit. A tick that fails leaves behind what it has done. -/
def act (c : Circuit) : Action → Circuit
  | .tick now => (c.tick now).1
  | .toggle n => (c.toggle? n).getD c

def after (c : Circuit) (actions : List Action) : Circuit := actions.foldl act c

/-- The connections around the component at a place when the action updates it, if it does. -/
def updatedBy? (c : Circuit) (i : Nat) (path : List Nat) : Action → Option Bus
  | .tick now => (c.updating? now i path).map (·.2)
  | .toggle _ => none

/-- The connections around the component at a place when it was last updated in the course of some
actions. -/
def lastUpdate? (i : Nat) (path : List Nat) : List Action → Circuit → Option Bus
  | [], _ => none
  | action :: actions, c =>
    (lastUpdate? i path actions (c.act action)).or (c.updatedBy? i path action)

/-- The circuit at a path. -/
def inside? : List Nat → Circuit → Option Circuit
  | [], c => some c
  | k :: path, c => ((c.components[k]?).bind Component.inner?).bind (inside? path)

/-- The circuit at a path as its tick begins within a tick of the whole, unless that stops before, and the
times that its clocks read in this tick. -/
def ticking? (now : Times) : List Nat → Circuit → Option (Times × Circuit)
  | [], c => some (now, c)
  | k :: path, c =>
    (c.moment? now k).bind fun e => (e.1.entered? e.2).bind (ticking? (now.inside e.1.firstCell) path)

/-- The connections of the circuit at a path, between two actions or in the course of a tick. -/
inductive Shows (path : List Nat) (c : Circuit) : Bus → Prop
  | between {d : Circuit} (inside : c.inside? path = some d) : Shows path c d.connections
  | during {now times : Times} {d : Circuit} {bus : Bus}
      (ticking : c.ticking? now path = some (times, d)) (stage : bus ∈ d.during times) :
      Shows path c bus

variable {fed : List Nat} {now times : Times} {i k id : Nat} {path : List Nat} {c c' d inner : Circuit}
  {m : Component} {pins : Pins} {bus : Bus} {writes : List (Nat × Bool)}

section Places

theorem located?_eq (i : Nat) (path : List Nat) (c : Circuit) : c.located? i path =
    (c.inside? path).bind fun d => (d.components[i]?).map (·, d.connections) := by
  induction path generalizing c with
  | nil => rfl
  | cons k path ih =>
    have ih : located? i path = fun c => (inside? path c).bind _ := funext ih
    rw [located?, inside?, ih]
    simp only [Option.bind_assoc]

theorem updating?_eq (now : Times) (i : Nat) (path : List Nat) (c : Circuit) : c.updating? now i path =
    (c.ticking? now path).bind fun e => e.2.moment? e.1 i := by
  induction path generalizing c now with
  | nil => rfl
  | cons k path ih =>
    have ih : ∀ now, updating? now i path = fun c => (ticking? now path c).bind _ :=
      fun now => funext (ih now)
    rw [updating?, ticking?]
    simp only [ih, Option.bind_assoc]

theorem inside?_append (i : Nat) (path : List Nat) (c : Circuit) :
    c.inside? (path ++ [i]) = (c.located? i path).bind (·.1.inner?) := by
  induction path generalizing c with
  | nil =>
    rw [List.nil_append, inside?, located?, Option.bind_map]
    exact Option.bind_fun_some _
  | cons k path ih =>
    have ih : inside? (path ++ [i]) = fun c => (located? i path c).bind _ := funext ih
    rw [List.cons_append, inside?, located?, ih]
    simp only [Option.bind_assoc]

theorem ticking?_append (now : Times) (i : Nat) (path : List Nat) (c : Circuit) :
    c.ticking? now (path ++ [i]) = (c.ticking? now path).bind fun d =>
      (d.2.moment? d.1 i).bind fun e => (e.1.entered? e.2).map (d.1.inside e.1.firstCell, ·) := by
  induction path generalizing c now with
  | nil =>
    rw [List.nil_append, ticking?, ticking?, Option.bind_some]
    congr 1
    funext e
    cases e.1.entered? e.2 <;> rfl
  | cons k path ih =>
    have ih : ∀ now, ticking? now (path ++ [i]) = fun c => (ticking? now path c).bind _ :=
      fun now => funext (ih now)
    rw [List.cons_append, ticking?, ticking?]
    simp only [ih, Option.bind_assoc]

theorem inside?_congr (h : c'.components = c.components) (hd : c'.inside? path = some d) :
    ∃ e, c.inside? path = some e ∧ d.components = e.components := by
  cases path with
  | nil =>
    obtain rfl := Option.some.inj hd
    exact ⟨c, rfl, h⟩
  | cons k path =>
    rw [inside?, h] at hd
    exact ⟨d, hd, rfl⟩

theorem entered?_eq_some (h : m.entered? bus = some d) :
    ∃ pins inner, m.kind = .nested pins inner ∧ d.components = inner.components := by
  rw [Component.entered?] at h
  split at h
  case h_1 pins inner hk => exact ⟨pins, inner, hk, by rw [← Option.some.inj h]⟩
  case h_2 => cases h

/-- Being fed on the way does not change which components there are. -/
theorem inside?_of_ticking? (h : c.ticking? now path = some (times, d)) :
    ∃ e, c.inside? path = some e ∧ d.components = e.components := by
  induction path generalizing c now with
  | nil =>
    obtain ⟨-, rfl⟩ := Prod.mk.inj (Option.some.inj h)
    exact ⟨c, rfl, rfl⟩
  | cons k path ih =>
    rw [ticking?] at h
    obtain ⟨⟨m, bus⟩, hm, h⟩ := Option.bind_eq_some_iff.1 h
    obtain ⟨d', hd', h⟩ := Option.bind_eq_some_iff.1 h
    obtain ⟨pins, inner, hk, hsame⟩ := entered?_eq_some hd'
    obtain ⟨e, he, hde⟩ := ih h
    obtain ⟨e', he', hee⟩ := inside?_congr hsame he
    refine ⟨e', ?_, hde.trans hee⟩
    rw [inside?, (moment?_eq_some_iff.1 hm).1, Option.bind_some, Component.inner?_of_nested hk,
      Option.bind_some, he']

end Places

/-- What nobody writes is low, except for the connections that are fed. -/
structure Sealed (fed : List Nat) (c : Circuit) : Prop where
  wired : c.Wired
  driverless : ∀ id ∈ fed, ∀ k, c.connections[id]? = some k → k.driver = none
  low : ∀ id, id ∉ fed → c.Unwritten id → Bus.level c.connections id = false

/-- A circuit is sealed, and so is every circuit inside it, with the pins that it is fed. -/
inductive Tight : Circuit → List Nat → Prop
  | intro {c : Circuit} {fed : List Nat} (here : c.Sealed fed)
      (pins_eq : ∀ m ∈ c.components, ∀ pins inner, m.kind = .nested pins inner → pins = inner.pins)
      (within : ∀ m ∈ c.components, ∀ pins inner, m.kind = .nested pins inner →
        Tight inner ((pins.entries m).map (·.2))) : Tight c fed

namespace Sealed

theorem congr (h : c.Sealed fed) (hwiring : c'.wiring = c.wiring)
    (hwritten : c'.components.map Component.written = c.components.map Component.written)
    (hlevel : ∀ id, id ∉ fed → c.Unwritten id →
      Bus.level c'.connections id = Bus.level c.connections id) : c'.Sealed fed where
  wired := h.wired.of_wiring hwiring
  driverless id hid k hk := by
    obtain ⟨k₀, hk₀, he⟩ := exists_of_wiring hwiring hk
    have hdriver : k.driver = k₀.driver := congrArg (·.driver) he
    exact hdriver.trans (h.driverless id hid k₀ hk₀)
  low id hid hu := by
    have hu' := (unwritten_congr hwritten id).1 hu
    rw [hlevel id hid hu', h.low id hid hu']

theorem feed (h : c.Sealed fed) (hwrites : ∀ w ∈ writes, w.1 ∈ fed) : (c.feed writes).Sealed fed := by
  refine h.congr (c.feed_wiring writes) rfl fun id hid _ => ?_
  have hkept : (c.feed writes).connections[id]? = c.connections[id]? := by
    refine Component.driveAll_frame fun hmem => hid ?_
    obtain ⟨w, hw, rfl⟩ := List.mem_map.1 hmem
    exact hwrites w hw
  rw [Bus.level, Bus.level, hkept]

theorem level_during (hu : c.Unwritten id) (h : bus ∈ c.during now) :
    Bus.level bus id = Bus.level c.connections id := by
  rw [Bus.level, Bus.level, hu.active_during h]

theorem tick (h : c.Sealed fed) (now : Times) : (c.tick now).1.Sealed fed :=
  h.congr (c.tick_wiring now) (tick_map (fun m bus => m.written_update now bus) c)
    fun _ _ hu => level_during hu (tick_mem_during now c)

end Sealed

/-- What a tick makes of a component that is a circuit: nothing, or one tick of this circuit. -/
theorem Wired.nested_tick (hw : c.Wired)
    (hpins : ∀ m ∈ c.components, ∀ pins inner, m.kind = .nested pins inner → pins = inner.pins)
    (hm : (c.tick now).1.components[i]? = some m) (hk : m.kind = .nested pins inner) :
    (c.moment? now i = none ∧ c.components[i]? = some m) ∨
      ∃ m₀ inner₀ bus, c.moment? now i = some (m₀, bus) ∧ m₀.kind = .nested inner₀.pins inner₀ ∧
        m.shape = m₀.shape ∧ pins = inner₀.pins ∧
        inner = ((inner₀.feed (m₀.feeding inner₀ bus)).tick (now.inside m₀.firstCell)).1 := by
  obtain ⟨m₀, hm₀, hs⟩ := exists_of_shape (tick_shape now c) hm
  have hgate : m₀.isWire = false := by
    rw [← Component.isWire_of_shape hs, Component.isWire, hk]
    rfl
  cases hmoment : c.moment? now i with
  | none =>
    have hM := hw.misses hgate hm₀ hmoment
    obtain rfl := Option.some.inj (hm.symm.trans hM.component)
    exact .inl ⟨rfl, hm₀⟩
  | some e =>
    obtain ⟨m₁, bus⟩ := e
    obtain rfl := Option.some.inj (hm₀.symm.trans (moment?_eq_some_iff.1 hmoment).1)
    have hM := hw.meets hgate hmoment
    obtain rfl := Option.some.inj (hm.symm.trans hM.component)
    obtain ⟨inner₀, hk₀⟩ := Component.nested_of_update hk
    have hpins₀ := hpins m₀ (List.mem_of_getElem? hm₀) _ _ hk₀
    rw [hpins₀] at hk₀
    obtain ⟨hkind, -, -⟩ := update_nested hk₀ now bus
    obtain ⟨rfl, rfl⟩ := Kind.nested.inj (hk.symm.trans hkind)
    exact .inr ⟨m₀, inner₀, bus, rfl, hk₀, hs, rfl, rfl⟩

/-- What holds of the circuits inside, before a tick and after each tick of them as they are fed, holds of
those inside after a tick. -/
theorem Wired.nested_of_tick {P : Component → Circuit → Prop} (hw : c.Wired)
    (hshape : ∀ m n inner, m.shape = n.shape → P n inner → P m inner)
    (hpins : ∀ m ∈ c.components, ∀ pins inner, m.kind = .nested pins inner → pins = inner.pins)
    (hbefore : ∀ m ∈ c.components, ∀ inner, m.kind = .nested inner.pins inner → P m inner)
    (hticked : ∀ m ∈ c.components, ∀ inner, m.kind = .nested inner.pins inner →
      ∀ times bus, P m ((inner.feed (m.feeding inner bus)).tick times).1)
    (hm : m ∈ (c.tick now).1.components) (hk : m.kind = .nested pins inner) :
    pins = inner.pins ∧ P m inner := by
  obtain ⟨i, hi⟩ := List.getElem?_of_mem hm
  obtain ⟨-, hm₀⟩ | ⟨m₀, inner₀, bus, hmoment, hk₀, hs, rfl, rfl⟩ := hw.nested_tick hpins hi hk
  · have hmem : m ∈ c.components := List.mem_of_getElem? hm₀
    obtain rfl := hpins m hmem pins inner hk
    exact ⟨rfl, hbefore m hmem inner hk⟩
  · have hmem : m₀ ∈ c.components := List.mem_of_getElem? (moment?_eq_some_iff.1 hmoment).1
    have hwiring := (tick_wiring (now.inside m₀.firstCell) (inner₀.feed (m₀.feeding inner₀ bus))).trans
      (inner₀.feed_wiring _)
    exact ⟨(pins_of_wiring hwiring).symm, hshape m m₀ _ hs (hticked m₀ hmem inner₀ hk₀ _ bus)⟩

namespace Tight

theorem here (h : c.Tight fed) : c.Sealed fed := by
  cases h with
  | intro here pins_eq within => exact here

theorem pins_eq (h : c.Tight fed) (hm : m ∈ c.components) (hk : m.kind = .nested pins inner) :
    pins = inner.pins := by
  cases h with
  | intro here pins_eq within => exact pins_eq m hm pins inner hk

theorem within (h : c.Tight fed) (hm : m ∈ c.components) (hk : m.kind = .nested pins inner) :
    inner.Tight ((pins.entries m).map (·.2)) := by
  cases h with
  | intro here pins_eq within => exact within m hm pins inner hk

theorem feed (h : c.Tight fed) (hwrites : ∀ w ∈ writes, w.1 ∈ fed) : (c.feed writes).Tight fed := by
  cases h with
  | intro here pins_eq within => exact .intro (here.feed hwrites) pins_eq within

/-- A tick of a circuit that is fed keeps it tight, whatever it is fed. -/
theorem tick_feed (h : c.Tight fed) : ∀ (now : Times) (writes : List (Nat × Bool)),
    (∀ w ∈ writes, w.1 ∈ fed) → ((c.feed writes).tick now).1.Tight fed := by
  induction h with
  | @intro c fed here pins_eq within ih =>
    intro now writes hwrites
    have hsealed := here.feed hwrites
    have hinner : ∀ m ∈ ((c.feed writes).tick now).1.components, ∀ pins inner,
        m.kind = .nested pins inner →
          pins = inner.pins ∧ inner.Tight ((inner.pins.entries m).map (·.2)) := by
      intro m hm pins inner hk
      refine hsealed.wired.nested_of_tick
        (P := fun m inner => inner.Tight ((inner.pins.entries m).map (·.2)))
        (fun m n inner hs hn => ?_) pins_eq (fun m hm inner hk => within m hm _ _ hk) ?_ hm hk
      · rwa [Pins.entries_of_shape hs]
      · intro m hm inner hk times bus
        have hpins := pins_of_wiring <| (tick_wiring times (inner.feed (m.feeding inner bus))).trans
          (inner.feed_wiring _)
        rw [hpins]
        refine ih m hm _ _ hk times (m.feeding inner bus) fun w hw => ?_
        rw [← map_fst_feeding m inner bus]
        exact List.mem_map_of_mem hw
    refine .intro (hsealed.tick now) (fun m hm pins inner hk => (hinner m hm pins inner hk).1) ?_
    intro m hm pins inner hk
    obtain ⟨rfl, htight⟩ := hinner m hm pins inner hk
    exact htight

theorem flip (h : c.Tight fed) (id : Nat) : (c.flip id).Tight fed := by
  have hwritten : (c.flip id).components.map Component.written =
      c.components.map Component.written := by
    refine List.ext_getElem? fun i => ?_
    rw [List.getElem?_map, List.getElem?_map, flip_getElem?, Option.map_map]
    congr 1
    funext m
    rw [Function.comp_apply]
    split <;> rfl
  refine .intro (h.here.congr (c.flip_wiring id) hwritten fun _ _ _ => rfl) ?_ ?_
  all_goals
    intro m hm pins inner hk
    obtain ⟨m₀, hm₀, level, rfl⟩ := exists_of_mem_flip hm
  · exact h.pins_eq hm₀ hk
  · have htight := h.within hm₀ hk
    exact htight

theorem act (h : c.Tight []) (action : Action) : (c.act action).Tight [] := by
  cases action with
  | tick now =>
    have hticked := h.tick_feed now [] fun w hw => by cases hw
    rwa [feed_nil] at hticked
  | toggle n =>
    rw [Circuit.act, toggle?_eq]
    cases c.buttons[n]? with
    | none => exact h
    | some id => exact h.flip id

/-- The circuit at a path is tight. -/
theorem inside (h : c.Tight fed) (hd : c.inside? path = some d) : ∃ fed', d.Tight fed' := by
  induction path generalizing c fed with
  | nil =>
    obtain rfl := Option.some.inj hd
    exact ⟨fed, h⟩
  | cons k path ih =>
    rw [inside?] at hd
    obtain ⟨inner, hinner, hd⟩ := Option.bind_eq_some_iff.1 hd
    obtain ⟨m, hm, hinner⟩ := Option.bind_eq_some_iff.1 hinner
    obtain ⟨pins, hk⟩ := Component.nested_of_inner? hinner
    exact ih (h.within (List.mem_of_getElem? hm) hk) hd

/-- A component that is a circuit feeds it through its pins. -/
theorem entered (h : c.Tight fed) (hm : m ∈ c.components) (hk : m.kind = .nested pins inner)
    (hd : m.entered? bus = some d) :
    d = inner.feed (m.feeding inner bus) ∧ d.Tight ((pins.entries m).map (·.2)) := by
  obtain rfl := h.pins_eq hm hk
  obtain rfl := Option.some.inj ((entered?_eq hk bus).symm.trans hd)
  refine ⟨rfl, (h.within hm hk).feed fun w hw => ?_⟩
  rw [← map_fst_feeding m inner bus]
  exact List.mem_map_of_mem hw

theorem ticking (h : c.Tight fed) (hd : c.ticking? now path = some (times, d)) :
    ∃ fed', d.Tight fed' := by
  induction path generalizing c fed now with
  | nil =>
    obtain ⟨-, rfl⟩ := Prod.mk.inj (Option.some.inj hd)
    exact ⟨fed, h⟩
  | cons k path ih =>
    rw [ticking?] at hd
    obtain ⟨⟨m, bus⟩, hm, hd⟩ := Option.bind_eq_some_iff.1 hd
    obtain ⟨inner, hinner, hd⟩ := Option.bind_eq_some_iff.1 hd
    obtain ⟨pins, inner₀, hk, -⟩ := entered?_eq_some hinner
    have hmem := List.mem_of_getElem? (moment?_eq_some_iff.1 hm).1
    exact ih (h.entered hmem hk hinner).2 hd

/-- What a tick makes of the circuit at a path: nothing, or one tick of it as it is fed. -/
theorem inside_tick (h : c.Tight fed) (hd : (c.tick now).1.inside? path = some d) :
    (c.ticking? now path = none ∧ c.inside? path = some d) ∨
      ∃ times d₀, c.ticking? now path = some (times, d₀) ∧ d = (d₀.tick times).1 := by
  induction path generalizing c fed now with
  | nil =>
    obtain rfl := Option.some.inj hd
    exact .inr ⟨now, c, rfl, rfl⟩
  | cons k path ih =>
    rw [inside?] at hd
    obtain ⟨inner, hinner, hd⟩ := Option.bind_eq_some_iff.1 hd
    obtain ⟨m, hm, hinner⟩ := Option.bind_eq_some_iff.1 hinner
    obtain ⟨pins, hk⟩ := Component.nested_of_inner? hinner
    obtain ⟨hnone, hm₀⟩ | ⟨m₀, inner₀, bus, hmoment, hk₀, -, -, rfl⟩ :=
      h.here.wired.nested_tick (fun m hm pins inner => h.pins_eq hm) hm hk
    · refine .inl ⟨by rw [ticking?, hnone, Option.bind_none], ?_⟩
      rw [inside?, hm₀, Option.bind_some, hinner, Option.bind_some, hd]
    · have hm₀ := (moment?_eq_some_iff.1 hmoment).1
      have hentered := entered?_eq hk₀ bus
      rw [ticking?, hmoment, Option.bind_some, hentered, Option.bind_some, inside?, hm₀,
        Option.bind_some, Component.inner?_of_nested hk₀, Option.bind_some]
      obtain ⟨hnone, hd⟩ | hticked := ih (h.entered (List.mem_of_getElem? hm₀) hk₀ hentered).2 hd
      · refine .inl ⟨hnone, ?_⟩
        cases path with
        | nil => cases hnone
        | cons j path => exact hd
      · exact .inr hticked

theorem after (h : c.Tight []) (actions : List Action) : (c.after actions).Tight [] := by
  induction actions generalizing c with
  | nil => exact h
  | cons action actions ih => exact ih (h.act action)

end Tight

/-- At some moment a sealed circuit has these connections. -/
structure Stage (fed : List Nat) (c : Circuit) (bus : Bus) : Prop where
  isSealed : c.Sealed fed
  blank : bus.blank = c.connections.blank
  low : ∀ id, id ∉ fed → c.Unwritten id → Bus.level bus id = false

theorem Sealed.between (h : c.Sealed fed) : c.Stage fed c.connections := ⟨h, rfl, h.low⟩

theorem Sealed.during (h : c.Sealed fed) (hbus : bus ∈ c.during now) : c.Stage fed bus :=
  ⟨h, blank_of_mem_during hbus, fun id hid hu => (level_during hu hbus).trans (h.low id hid hu)⟩

namespace Stage

theorem exists_of_blank (h : c.Stage fed bus) {k : Connection} (hk : bus[id]? = some k) :
    ∃ k₀, c.connections[id]? = some k₀ ∧ k.blank = k₀.blank := by
  have hid : bus.blank[id]? = c.connections.blank[id]? := by rw [h.blank]
  rw [Bus.getElem?_blank, Bus.getElem?_blank, hk, Option.map_some, eq_comm,
    Option.map_eq_some_iff] at hid
  obtain ⟨k₀, hk₀, he⟩ := hid
  exact ⟨k₀, hk₀, he.symm⟩

/-- What is on without a driver is fed. -/
theorem fed_of_active (h : c.Stage fed bus) {k : Connection} (hk : bus[id]? = some k)
    (hd : k.driver = none ∨ k.kind = .cross) (ha : k.active = true) : id ∈ fed := by
  obtain ⟨k₀, hk₀, he⟩ := h.exists_of_blank hk
  have hdriver : k.driver = k₀.driver := congrArg (·.driver) he
  have hkind : k.kind = k₀.kind := congrArg (·.kind) he
  have hnone : k₀.driver = none := by
    rcases hd with hd | hcross
    · exact hdriver.symm.trans hd
    · have hmem : k₀ ∈ c.connections.toList := Array.mem_toList_iff.2 (Array.mem_of_getElem? hk₀)
      exact (h.isSealed.wired.crosses k₀ hmem (hkind.symm.trans hcross)).1
  by_contra hid
  have hlow := h.low id hid <| h.isSealed.wired.unwritten_of_driverless fun k' hk' => by
    obtain rfl := Option.some.inj (hk₀.symm.trans hk')
    exact hnone
  rw [Bus.level, hk, Option.map_some, Option.getD_some, ha] at hlow
  cases hlow

/-- An output of a circuit for which it has no output pin is low. -/
theorem low_of_surplus (h : c.Stage fed bus) (hm : c.components[i]? = some m)
    (hk : m.kind = .nested pins inner) (hid : id ∈ m.outputs.drop pins.outputs.length) :
    Bus.level bus id = false := by
  have hw := h.isSealed.wired
  have hout : id ∈ m.outputs := List.mem_of_mem_drop hid
  have hwritten : m.written = m.outputs.take pins.outputs.length := by rw [Component.written, hk]
  have hno : id ∉ m.written := by
    have hnodup := (List.nodup_append.1 (hw.component_pins_nodup hm)).2.1
    rw [← List.take_append_drop pins.outputs.length m.outputs] at hnodup
    rw [hwritten]
    exact fun htake => List.disjoint_of_nodup_append hnodup htake hid
  refine h.low id (fun hfed => ?_) (hw.unwritten_of_output hm hout hno)
  obtain ⟨k, hk, hd⟩ := hw.driver_of_mem hm hout
  rw [h.isSealed.driverless id hfed k hk] at hd
  cases hd

end Stage

/-- How a component that is a circuit is closed off from what is around it. Its pins are its own, and
`last` is what was around it at its last update. -/
structure ClosedOff (c : Circuit) (i : Nat) (path : List Nat) (m : Component) (pins : Pins)
    (inner : Circuit) (last : Option Bus) : Prop where
  pins_eq : pins = inner.pins
  distinct : (pins.inputs ++ pins.clock.toList ++ pins.outputs).Nodup
  /-- Inside, what is on without a driver is a pin that is fed. -/
  undriven : ∀ bus, c.Shows (path ++ [i]) bus → ∀ (id : Nat) (k : Connection), bus[id]? = some k →
    k.driver = none ∨ k.kind = .cross → k.active = true →
      (∃ n < m.inputs.length, pins.inputs[n]? = some id) ∨ (m.clock.isSome ∧ pins.clock = some id)
  /-- Between actions such a pin has the level that was outside at the last update. -/
  held : ∀ e ∈ pins.entries m, Bus.level inner.connections e.2 = last.any (Bus.level · e.1)
  /-- All through a tick inside it has the level that is outside at this update. -/
  steady : ∀ now times bus d, c.updating? now i path = some (m, bus) → m.entered? bus = some d →
    ∀ stage ∈ d.during times, ∀ e ∈ pins.entries m, Bus.level stage e.2 = Bus.level bus e.1
  /-- An output for which there is no output pin is low. -/
  surplus : ∀ bus, c.Shows path bus → ∀ id ∈ m.outputs.drop pins.outputs.length,
    Bus.level bus id = false

/-- The pins inside a component have the levels that were around it at its last update. -/
def Holds (c : Circuit) (i : Nat) (path : List Nat) (last : Option Bus) : Prop :=
  ∀ m outer pins inner, c.located? i path = some (m, outer) → m.kind = .nested pins inner →
    ∀ e ∈ pins.entries m, Bus.level inner.connections e.2 = last.any (Bus.level · e.1)

theorem located?_eq_some {outer : Bus} (h : c.located? i path = some (m, outer)) :
    ∃ d, c.inside? path = some d ∧ d.components[i]? = some m ∧ d.connections = outer := by
  rw [located?_eq, Option.bind_eq_some_iff] at h
  obtain ⟨d, hd, hm⟩ := h
  obtain ⟨n, hn, he⟩ := Option.map_eq_some_iff.1 hm
  obtain ⟨rfl, rfl⟩ := Prod.mk.inj he
  exact ⟨d, hd, hn, rfl⟩

theorem updating?_eq_some (h : c.updating? now i path = some (m, bus)) :
    ∃ times d, c.ticking? now path = some (times, d) ∧ d.moment? times i = some (m, bus) := by
  rw [updating?_eq, Option.bind_eq_some_iff] at h
  obtain ⟨⟨times, d⟩, hd, hm⟩ := h
  exact ⟨times, d, hd, hm⟩

/-- A pin that is fed keeps its level all through the tick. -/
theorem Wired.level_fed (hw : inner.Wired) (m : Component) (bus : Bus) {stage : Bus}
    (hstage : stage ∈ (inner.feed (m.feeding inner bus)).during now) {e : Nat × Nat}
    (he : e ∈ inner.pins.entries m) : Bus.level stage e.2 = Bus.level bus e.1 := by
  have hmem : e.2 ∈ (inner.pins.entries m).map (·.2) := List.mem_map_of_mem he
  have hunwritten : (inner.feed (m.feeding inner bus)).Unwritten e.2 :=
    hw.unwritten_of_driverless (driverless_of_mem_entries m inner e.2 hmem)
  obtain ⟨k, hpin, -⟩ := fed_pin <| (List.mem_append.1 <|
    (map_snd_entries_sublist inner.pins m).subset hmem).imp_right Option.mem_toList.1
  have hwrite : (e.2, Bus.level bus e.1) ∈ m.feeding inner bus :=
    List.mem_map_of_mem (f := fun joint : Nat × Nat => (joint.2, Bus.level bus joint.1)) he
  rw [Sealed.level_during hunwritten hstage, Bus.level, Circuit.feed, Bus.getElem?_driveAll, hpin,
    Option.map_some, Option.map_some,
    Connection.receive_of_mem k (feeds_feeding m inner bus).nodup hwrite, Connection.active_drive,
    Option.getD_some]

theorem Tight.level_fed (h : c.Tight fed) (hm : m ∈ c.components) (hk : m.kind = .nested pins inner)
    (hd : m.entered? bus = some d) {stage : Bus} (hstage : stage ∈ d.during now) {e : Nat × Nat}
    (he : e ∈ pins.entries m) : Bus.level stage e.2 = Bus.level bus e.1 := by
  obtain rfl := h.pins_eq hm hk
  obtain ⟨rfl, -⟩ := h.entered hm hk hd
  exact (h.within hm hk).here.wired.level_fed m bus hstage he

/-- The components that are found as the tick of a circuit begins are those of the circuit. -/
theorem ticking_getElem? {outer : Bus} (hm : c.located? i path = some (m, outer))
    (hd : c.ticking? now path = some (times, d)) : d.components[i]? = some m := by
  obtain ⟨e, he, hme, -⟩ := located?_eq_some hm
  obtain ⟨e', he', hcomponents⟩ := inside?_of_ticking? hd
  obtain rfl := Option.some.inj (he.symm.trans he')
  rw [hcomponents, hme]

theorem mem_entries_cases (h : id ∈ (pins.entries m).map (·.2)) :
    (∃ n < m.inputs.length, pins.inputs[n]? = some id) ∨ (m.clock.isSome ∧ pins.clock = some id) := by
  obtain ⟨e, he, rfl⟩ := List.mem_map.1 h
  rcases List.mem_append.1 he with he | he
  · obtain ⟨n, hn⟩ := List.mem_iff_getElem?.1 he
    obtain ⟨hin, hpin⟩ := List.getElem?_zip_eq_some.1 hn
    exact .inl ⟨n, (List.getElem?_eq_some_iff.1 hin).1, hpin⟩
  · have hclock := Option.mem_toList.1 (List.of_mem_zip he).1
    have hpin := Option.mem_toList.1 (List.of_mem_zip he).2
    exact .inr ⟨Option.isSome_of_mem hclock, hpin⟩

namespace Holds

variable {last : Option Bus}

theorem tick (hh : c.Holds i path last) (h : c.Tight fed) (now : Times) :
    (c.tick now).1.Holds i path (((c.updating? now i path).map (·.2)).or last) := by
  intro m outer pins inner hm hk e he
  obtain ⟨d, hd, hmd, rfl⟩ := located?_eq_some hm
  obtain ⟨hnone, hin⟩ | ⟨times, d₀, hticking, rfl⟩ := h.inside_tick hd
  · have hbefore : c.located? i path = some (m, d.connections) := by
      rw [located?_eq, hin, Option.bind_some, hmd]
      rfl
    rw [updating?_eq, hnone]
    exact hh m _ pins inner hbefore hk e he
  · obtain ⟨fed', ht⟩ := h.ticking hticking
    rw [updating?_eq, hticking, Option.bind_some]
    obtain ⟨hnone, hm₀⟩ | ⟨m₀, inner₀, bus, hmoment, hk₀, hs, rfl, rfl⟩ :=
      ht.here.wired.nested_tick (fun m hm pins inner => ht.pins_eq hm) hmd hk
    · obtain ⟨d', hd', hcomponents⟩ := inside?_of_ticking? hticking
      have hbefore : c.located? i path = some (m, d'.connections) := by
        rw [located?_eq, hd', Option.bind_some, ← hcomponents, hm₀]
        rfl
      rw [hnone]
      exact hh m _ pins inner hbefore hk e he
    · rw [hmoment]
      rw [Pins.entries_of_shape hs] at he
      have hmem := List.mem_of_getElem? (moment?_eq_some_iff.1 hmoment).1
      exact ht.level_fed hmem hk₀ (entered?_eq hk₀ bus) (tick_mem_during _ _) he

theorem flip (hh : c.Holds i path last) (id : Nat) : (c.flip id).Holds i path last := by
  intro m outer pins inner hm hk e he
  cases path with
  | nil =>
    rw [located?, Option.map_eq_some_iff] at hm
    obtain ⟨n, hn, heq⟩ := hm
    obtain ⟨rfl, rfl⟩ := Prod.mk.inj heq
    rw [flip_getElem?, Option.map_eq_some_iff] at hn
    obtain ⟨m₀, hm₀, rfl⟩ := hn
    have hbefore : c.located? i [] = some (m₀, c.connections) := by rw [located?, hm₀]; rfl
    refine hh m₀ _ pins inner hbefore ?_ e ?_
    · split at hk <;> exact hk
    · split at he <;> exact he
  | cons k path =>
    have hsame : ((c.flip id).components[k]?).bind Component.inner? =
        (c.components[k]?).bind Component.inner? := by
      rw [flip_getElem?, Option.bind_map]
      congr 1
      funext n
      rw [Function.comp_apply]
      split <;> rfl
    rw [located?, hsame] at hm
    exact hh m outer pins inner hm hk e he

theorem act (hh : c.Holds i path last) (h : c.Tight fed) (action : Action) :
    (c.act action).Holds i path ((c.updatedBy? i path action).or last) := by
  cases action with
  | tick now => exact hh.tick h now
  | toggle n =>
    rw [Circuit.act, toggle?_eq]
    cases c.buttons[n]? with
    | none => exact hh
    | some id => exact hh.flip id

theorem after (hh : c.Holds i path last) (h : c.Tight []) (actions : List Action) :
    (c.after actions).Holds i path ((lastUpdate? i path actions c).or last) := by
  induction actions generalizing c last with
  | nil => exact hh
  | cons action actions ih =>
    have hrest := ih (hh.act h action) (h.act action)
    rwa [lastUpdate?, Option.or_assoc]

end Holds

theorem Tight.closedOff {last : Option Bus} {outer : Bus} (h : c.Tight fed)
    (hh : c.Holds i path last) (hm : c.located? i path = some (m, outer))
    (hk : m.kind = .nested pins inner) : c.ClosedOff i path m pins inner last := by
  obtain ⟨d, hd, hmd, -⟩ := located?_eq_some hm
  obtain ⟨fed', ht⟩ := h.inside hd
  have hpins := ht.pins_eq (List.mem_of_getElem? hmd) hk
  constructor
  case pins_eq => exact hpins
  case distinct =>
    rw [hpins]
    exact inner.pins_nodup
  case undriven =>
    intro bus hshows id k hid hd ha
    apply mem_entries_cases
    cases hshows with
    | between hin =>
      rw [inside?_append, hm, Option.bind_some, Component.inner?_of_nested hk] at hin
      obtain rfl := Option.some.inj hin
      have htight := ht.within (List.mem_of_getElem? hmd) hk
      exact htight.here.between.fed_of_active hid hd ha
    | during hticking hstage =>
      rw [ticking?_append] at hticking
      obtain ⟨⟨times', d'⟩, hd', hticking⟩ := Option.bind_eq_some_iff.1 hticking
      obtain ⟨⟨m', outer'⟩, hmoment, hticking⟩ := Option.bind_eq_some_iff.1 hticking
      obtain ⟨entered, hentered, heq⟩ := Option.map_eq_some_iff.1 hticking
      obtain ⟨rfl, rfl⟩ := Prod.mk.inj heq
      obtain ⟨fed'', ht'⟩ := h.ticking hd'
      have hm' := (moment?_eq_some_iff.1 hmoment).1
      obtain rfl := Option.some.inj ((ticking_getElem? hm hd').symm.trans hm')
      have htight := (ht'.entered (List.mem_of_getElem? hm') hk hentered).2
      exact (htight.here.during hstage).fed_of_active hid hd ha
  case held => exact hh m outer pins inner hm hk
  case steady =>
    intro now times bus d' hu hentered stage hstage e he
    obtain ⟨times', d₀, hd₀, hmoment⟩ := updating?_eq_some hu
    obtain ⟨fed'', ht'⟩ := h.ticking hd₀
    have hmem := List.mem_of_getElem? (moment?_eq_some_iff.1 hmoment).1
    exact ht'.level_fed hmem hk hentered hstage he
  case surplus =>
    intro bus hshows id hid
    cases hshows with
    | between hin =>
      obtain rfl := Option.some.inj (hd.symm.trans hin)
      exact ht.here.between.low_of_surplus hmd hk hid
    | during hticking hstage =>
      obtain ⟨fed'', ht'⟩ := h.ticking hticking
      exact (ht'.here.during hstage).low_of_surplus (ticking_getElem? hm hticking) hk hid

/-- What holds of a circuit after some actions: at the top nothing is on without a driver, and every
component that is a circuit is closed off from what is around it. -/
structure Undisturbed (c : Circuit) (actions : List Action) : Prop where
  top : ∀ bus, (c.after actions).Shows [] bus → ∀ (id : Nat) (k : Connection), bus[id]? = some k →
    k.driver = none ∨ k.kind = .cross → k.active = false
  nested : ∀ i path m outer pins inner, (c.after actions).located? i path = some (m, outer) →
    m.kind = .nested pins inner →
      (c.after actions).ClosedOff i path m pins inner (c.lastUpdate? i path actions)

theorem Tight.undisturbed (h : c.Tight []) (hh : ∀ i path, c.Holds i path none)
    (actions : List Action) : c.Undisturbed actions := by
  have hafter := h.after actions
  constructor
  case top =>
    intro bus hshows id k hid hd
    have hstage : (c.after actions).Stage [] bus := by
      cases hshows with
      | between hin =>
        obtain rfl := Option.some.inj hin
        exact hafter.here.between
      | during hticking hstage =>
        obtain ⟨rfl, rfl⟩ := Prod.mk.inj (Option.some.inj hticking)
        exact hafter.here.during hstage
    by_contra ha
    have hfed := hstage.fed_of_active hid hd (Bool.eq_true_of_not_eq_false ha)
    cases hfed
  case nested =>
    intro i path m outer pins inner hm hk
    have hholds := (hh i path).after h actions
    rw [Option.or_none] at hholds
    exact hafter.closedOff hholds hm hk

end Circuit

namespace Field

variable {rs : Registries} {clockPeriod depth : Nat} {f : Field} {b : Build} {path : List Nat}
  {fed : List Nat}

/-- A circuit is built tight: nothing is on. -/
theorem buildWithin_tight (hr : rs.Exact) (he : f.grid.Exact)
    (hb : buildWithin rs clockPeriod depth f = .ok b)
    (hfed : ∀ id ∈ fed, ∀ k, b.circuit.connections[id]? = some k → k.driver = none) :
    b.circuit.Tight fed := by
  refine buildWithin_induction (P := fun _ _ c => ∀ fed : List Nat,
    (∀ id ∈ fed, ∀ k, c.connections[id]? = some k → k.driver = none) → c.Tight fed) hr
    (fun depth f b he hb below fed hfed => ?_) he hb fed hfed
  obtain ⟨hw, hfresh⟩ := buildWithin_wired he hb
  refine .intro ⟨hw, hfed, fun id _ _ => hfresh.level id⟩
    (fun m hm pins inner hk => (below m hm pins inner hk).1) fun m hm pins inner hk => ?_
  obtain ⟨rfl, drawing, -, hinner⟩ := below m hm pins inner hk
  exact hinner _ (Circuit.driverless_of_mem_entries m inner)

/-- Every circuit inside a built circuit was built itself. -/
theorem built_of_inside? (hr : rs.Exact) (he : f.grid.Exact)
    (hb : buildWithin rs clockPeriod depth f = .ok b) {d : Circuit}
    (hd : b.circuit.inside? path = some d) :
    ∃ f' depth' b', f'.grid.Exact ∧ buildWithin rs clockPeriod depth' f' = .ok b' ∧ d = b'.circuit := by
  induction path generalizing f depth b with
  | nil =>
    obtain rfl := Option.some.inj hd
    exact ⟨f, depth, b, he, hb, rfl⟩
  | cons k path ih =>
    rw [Circuit.inside?] at hd
    obtain ⟨inner, hinner, hd⟩ := Option.bind_eq_some_iff.1 hd
    obtain ⟨m, hm, hinner⟩ := Option.bind_eq_some_iff.1 hinner
    obtain ⟨pins, hk⟩ := Component.nested_of_inner? hinner
    obtain ⟨drawing, b', depth', -, hdrawing, hb', rfl, -⟩ :=
      drawing_of_nested he hb (List.mem_of_getElem? hm) hk
    exact ih (hr.drawingOf? hdrawing) hb' hd

/-- In every run of a built circuit nothing comes from where there is no driver: not at the top, and
not into a circuit at any depth, except from outside through the pins that its component feeds. -/
theorem build_undisturbed (hr : rs.Exact) (he : f.grid.Exact) (hb : f.build rs clockPeriod = .ok b)
    (actions : List Action) : b.circuit.Undisturbed actions := by
  refine (buildWithin_tight hr he hb fun id hid => by cases hid).undisturbed ?_ actions
  intro i path m outer pins inner hm hk e _
  have hin : b.circuit.inside? (path ++ [i]) = some inner := by
    rw [Circuit.inside?_append, hm, Option.bind_some, Component.inner?_of_nested hk]
  obtain ⟨f', depth', b', he', hb', rfl⟩ := built_of_inside? hr he hb hin
  exact (buildWithin_wired he' hb').2.level e.2

end Field

/-- A battery that leads to an inverter, which has one output more outside than inside. -/
def sampleInverter : Field where
  name := "inverted"
  grid := ⟨6, 2, #v[.battery, .output, .wire, .input, .custom 0, .output,
    .empty, .empty, .empty, .empty, .output, .wire]⟩
  registry := ⟨0⟩

theorem sampleInverter_undisturbed : inverterRegistries.Exact ∧ sampleInverter.grid.Exact ∧
    ∃ b m outer inner, sampleInverter.build inverterRegistries 0 = .ok b ∧
      (b.circuit.after [.tick 0, .tick 1]).located? 2 [] = some (m, outer) ∧
      m.kind = .nested inner.pins inner ∧ m.outputs.length = 2 ∧ inner.pins = ⟨[0], [1], none⟩ ∧
      Bus.level inner.connections 0 = true ∧ b.circuit.Undisturbed [.tick 0, .tick 1] := by
  have hr : inverterRegistries.Exact := by
    simp [Registries.Exact, inverterRegistries]
    decide
  have he : sampleInverter.grid.Exact := by decide
  have hrun : (sampleInverter.build inverterRegistries 0).toOption.any (fun b =>
      ((b.circuit.after [.tick 0, .tick 1]).located? 2 []).any fun e => e.1.inner?.any fun inner =>
        decide (e.1.outputs.length = 2 ∧ inner.pins = ⟨[0], [1], none⟩ ∧
          Bus.level inner.connections 0 = true)) = true := by decide +kernel
  obtain ⟨b, hb, -⟩ := Field.buildWithin_circuitOf inverterRegistries 0 maxNesting he
  have hb : sampleInverter.build inverterRegistries 0 = .ok b := hb
  rw [hb, Except.toOption, Option.any_some] at hrun
  obtain ⟨⟨m, outer⟩, hm, hrun⟩ := (Option.any_eq_true _ _).1 hrun
  obtain ⟨inner, hinner, hrun⟩ := (Option.any_eq_true _ _).1 hrun
  obtain ⟨houtputs, hpins, hlevel⟩ := of_decide_eq_true hrun
  have hundisturbed := Field.build_undisturbed hr he hb [.tick 0, .tick 1]
  obtain ⟨pins, hk⟩ := Component.nested_of_inner? hinner
  obtain rfl := (hundisturbed.nested 2 [] m outer pins inner hm hk).pins_eq
  exact ⟨hr, he, b, m, outer, inner, hb, hm, hk, houtputs, hpins, hlevel, hundisturbed⟩

end GridCircuit
