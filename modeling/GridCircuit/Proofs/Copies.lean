import GridCircuit.Proofs.Locality

/-!
# Copies of components

A component of one circuit may stand for a component of another, with its connections renumbered.
When the connections show the same, both do the same in an update: the values agree and so does what
is written. Two connections may differ in whether they have changed, as long as nobody who asks for
changes reads them.
-/

namespace GridCircuit

/-- Two entries of buses, if any, show one level, and one change where that counts. -/
structure Connection.Tracks (full : Prop) (k k' : Option Connection) : Prop where
  active : k.map (·.active) = k'.map (·.active)
  changed : full → k.map (·.changed) = k'.map (·.changed)

namespace Connection.Tracks

variable {full : Prop} {k k' : Option Connection}

theorem isSome_eq (h : Tracks full k k') : k.isSome = k'.isSome := by
  have hs := congrArg Option.isSome h.active
  rwa [Option.isSome_map, Option.isSome_map] at hs

theorem drive (h : Tracks full k k') (level : Bool) :
    Tracks full (k.map (·.drive level)) (k'.map (·.drive level)) := by
  obtain ⟨ha, hc⟩ := h
  cases k with
  | none =>
    cases k' with
    | none => exact ⟨rfl, fun _ => rfl⟩
    | some k' => cases ha
  | some k =>
    cases k' with
    | none => cases ha
    | some k' =>
      have ha : k.active = k'.active := Option.some.inj ha
      simp only [Option.map_some, Option.some.injEq, Connection.drive, ha] at hc ⊢
      split
      · exact ⟨congrArg some ha, fun hf => congrArg some (hc hf)⟩
      · exact ⟨rfl, fun _ => rfl⟩

theorem receive (h : Tracks full k k') (writes : List (Nat × Bool)) (id : Nat) :
    Tracks full (k.map (·.receive writes id)) (k'.map (·.receive writes id)) := by
  induction writes generalizing k k' with
  | nil => simpa [Connection.receive] using h
  | cons w writes ih =>
    have hfirst : Tracks full (k.map fun k => if w.1 = id then k.drive w.2 else k)
        (k'.map fun k => if w.1 = id then k.drive w.2 else k) := by
      by_cases hw : w.1 = id
      · simpa only [hw, if_true] using h.drive w.2
      · simpa only [hw, if_false, Option.map_id'] using h
    have hrest := ih hfirst
    rw [Option.map_map, Option.map_map] at hrest
    exact hrest

theorem acknowledge (h : Tracks full k k') :
    Tracks full (k.map (·.acknowledge)) (k'.map (·.acknowledge)) := by
  obtain ⟨ha, -⟩ := h
  constructor
  · simpa [Function.comp_def, Connection.acknowledge] using ha
  · intro _
    have hs := congrArg (Option.map fun _ => false) ha
    simpa [Function.comp_def, Connection.acknowledge] using hs

end Connection.Tracks

/-- Renumbering the writes and the entry together changes nothing. -/
theorem Connection.receive_map {ψ : Nat → Nat} {id : Nat} : ∀ {writes : List (Nat × Bool)}
    (k : Connection), (∀ w ∈ writes, ψ w.1 = ψ id → w.1 = id) →
      k.receive (writes.map fun w => (ψ w.1, w.2)) (ψ id) = k.receive writes id := by
  intro writes
  induction writes with
  | nil => exact fun _ _ => rfl
  | cons w writes ih =>
    intro k hψ
    have hw : ψ w.1 = ψ id ↔ w.1 = id := ⟨hψ w List.mem_cons_self, congrArg ψ⟩
    simp only [List.map_cons, receive, List.foldl_cons, hw]
    exact ih _ fun w hmem => hψ w (List.mem_cons_of_mem _ hmem)

namespace Bus

variable {full : Prop} {bus bus' : Bus} {ψ : Nat → Nat} {id id' : Nat}

theorem level_of_tracks (h : Connection.Tracks full (bus[id]?) (bus'[id']?)) :
    Bus.level bus id = Bus.level bus' id' := by
  rw [Bus.level, Bus.level, h.active]

theorem hasChanged_of_tracks (h : Connection.Tracks full (bus[id]?) (bus'[id']?)) (hf : full) :
    Bus.hasChanged bus id = Bus.hasChanged bus' id' := by
  rw [Bus.hasChanged, Bus.hasChanged, h.changed hf]

/-- Two buses stay alike where the same is written to both. -/
theorem driveAll_tracks {writes : List (Nat × Bool)} (hψ : ∀ w ∈ writes, ψ w.1 = ψ id → w.1 = id)
    (h : Connection.Tracks full (bus[id]?) (bus'[ψ id]?)) :
    Connection.Tracks full ((Bus.driveAll bus writes)[id]?)
      ((Bus.driveAll bus' (writes.map fun w => (ψ w.1, w.2)))[ψ id]?) := by
  have hreceive : (fun k : Connection => k.receive (writes.map fun w => (ψ w.1, w.2)) (ψ id)) =
      fun k => k.receive writes id := funext fun k => Connection.receive_map k hψ
  rw [getElem?_driveAll, getElem?_driveAll, hreceive]
  exact h.receive writes id

theorem acknowledge_tracks {ids : List Nat} (hψ : ∀ i ∈ ids, ψ i = ψ id → i = id)
    (h : Connection.Tracks full (bus[id]?) (bus'[ψ id]?)) :
    Connection.Tracks full ((Bus.acknowledge bus ids)[id]?)
      ((Bus.acknowledge bus' (ids.map ψ))[ψ id]?) := by
  have hmem : ψ id ∈ ids.map ψ ↔ id ∈ ids := by
    rw [List.mem_map]
    constructor
    · intro hm
      obtain ⟨i, hi, he⟩ := hm
      exact hψ i hi he ▸ hi
    · exact fun hm => ⟨id, hm, rfl⟩
  rw [getElem?_acknowledge, getElem?_acknowledge]
  simp only [hmem]
  by_cases hm : id ∈ ids
  · simpa only [hm, if_true] using h.acknowledge
  · simpa only [hm, if_false, Option.map_id'] using h

end Bus

namespace Component

/-- A component is as another one is, with its connections renumbered. Its cells may be others. -/
structure Copies (ψ : Nat → Nat) (m m' : Component) : Prop where
  kind : m'.kind = m.kind
  level : m'.level = m.level
  inputs : m'.inputs = m.inputs.map ψ
  outputs : m'.outputs = m.outputs.map ψ
  clock : m'.clock = m.clock.map ψ

variable {ψ : Nat → Nat} {full : Nat → Prop} {m m' : Component} {bus bus' : Bus}

theorem Copies.isWire (h : m.Copies ψ m') : m'.isWire = m.isWire := by
  rw [Component.isWire, Component.isWire, h.kind]

theorem Copies.isButton (h : m.Copies ψ m') : m'.isButton = m.isButton := by
  rw [Component.isButton, Component.isButton, h.kind]

theorem Copies.pins (h : m.Copies ψ m') : m'.pins = m.pins.map ψ := by
  simp [Component.pins, readers, h.inputs, h.outputs, h.clock, Option.toList_map]

/-- The connections of a component show the same as those of its copy. -/
structure SeenBy (ψ : Nat → Nat) (full : Nat → Prop) (m : Component) (bus bus' : Bus) : Prop where
  /-- No two connections of the component become one. -/
  injective : ∀ a ∈ m.pins, ∀ b ∈ m.pins, ψ a = ψ b → a = b
  tracks : ∀ id ∈ m.pins, Connection.Tracks (full id) (bus[id]?) (bus'[ψ id]?)
  /-- Only wires never ask for changes. -/
  full : m.isWire = false → ∀ id ∈ m.inputs, full id

/-- Two updates have done the same to a component and to its copy. -/
structure StepCopies (ψ : Nat → Nat) (full : Nat → Prop) (ids : List Nat) (s s' : Step Component) :
    Prop where
  value : s.value.Copies ψ s'.value
  failure : s'.failure.isSome = s.failure.isSome
  bus : ∀ id ∈ ids, Connection.Tracks (full id) (s.bus[id]?) (s'.bus[ψ id]?)

theorem mem_pins_of_inputs {id : Nat} (h : id ∈ m.inputs) : id ∈ m.pins :=
  List.mem_append_left _ (mem_readers.2 (.inl h))

theorem mem_pins_of_clock {id : Nat} (h : m.clock = some id) : id ∈ m.pins :=
  List.mem_append_left _ (mem_readers.2 (.inr h))

theorem mem_pins_of_outputs {id : Nat} (h : id ∈ m.outputs) : id ∈ m.pins :=
  List.mem_append_right _ h

section Update

variable (hc : m.Copies ψ m') (hs : m.SeenBy ψ full bus bus')

include hs

/-- Writing to the outputs of a component and of its copy. -/
theorem SeenBy.driveAll (writes : List (Nat × Bool)) (hw : ∀ w ∈ writes, w.1 ∈ m.outputs) {id : Nat}
    (hid : id ∈ m.pins) : Connection.Tracks (full id) ((Bus.driveAll bus writes)[id]?)
      ((Bus.driveAll bus' (writes.map fun w => (ψ w.1, w.2)))[ψ id]?) :=
  Bus.driveAll_tracks
    (fun w hmem he => hs.injective _ (mem_pins_of_outputs (hw w hmem)) _ hid he) (hs.tracks id hid)

include hc

theorem Copies.read : m'.read bus' = m.read bus := by
  have hi : m'.inputs.map (Bus.level bus') = m.inputs.map (Bus.level bus) := by
    rw [hc.inputs, List.map_map]
    apply List.map_congr_left
    intro id hid
    exact (Bus.level_of_tracks (hs.tracks id (mem_pins_of_inputs hid))).symm
  have hk : m'.clock.any (Bus.level bus') = m.clock.any (Bus.level bus) := by
    rw [hc.clock]
    cases hm : m.clock with
    | none => rfl
    | some id => exact (Bus.level_of_tracks (hs.tracks id (mem_pins_of_clock hm))).symm
  rw [Component.read, Component.read, hi, hk, hc.level]

theorem Copies.updatePlain (t : Nat) :
    StepCopies ψ full m.pins (m.updatePlain (.all t) bus) (m'.updatePlain (.all t) bus') := by
  have hread := hc.read hs
  simp only [Component.updatePlain, Times.read_all, hread, hc.kind]
  refine ⟨⟨rfl, rfl, hc.inputs, hc.outputs, hc.clock⟩, rfl, fun id hid => ?_⟩
  cases m.kind.showsLevel with
  | false => exact hs.tracks id hid
  | true =>
    have hd := hs.driveAll (m.outputs.map (·, (m.kind.settle t (m.read bus)).2))
      (by simp) hid
    simpa only [hc.outputs, List.map_map, Function.comp_def, if_true] using hd

theorem Copies.runScript (unit : ScriptUnit) :
    StepCopies ψ full m.pins (m.runScript unit bus) (m'.runScript unit bus') := by
  rw [Component.runScript, Component.runScript, hc.read hs]
  split
  · exact ⟨⟨rfl, hc.level, hc.inputs, hc.outputs, hc.clock⟩, rfl, hs.tracks⟩
  · rename_i memory results _
    refine ⟨⟨rfl, rfl, hc.inputs, hc.outputs, hc.clock⟩, rfl, fun id hid => ?_⟩
    have hd := hs.driveAll
      (m.outputs.zipIdx.map fun e => (e.1, results[e.2]?.getD false)) (by
        intro w hw
        obtain ⟨e, he, rfl⟩ := List.mem_map.1 hw
        exact List.fst_mem_of_mem_zipIdx he) hid
    have houtputs : (m'.outputs.zipIdx.map fun e => (e.1, results[e.2]?.getD false)) =
        (m.outputs.zipIdx.map fun e => (e.1, results[e.2]?.getD false)).map
          fun w => (ψ w.1, w.2) := by
      rw [hc.outputs, List.zipIdx_map, List.map_map, List.map_map]
      rfl
    rw [houtputs]
    exact hd

/-- Taking note of the changes leaves the connections alike. -/
theorem SeenBy.acknowledge : m.SeenBy ψ full (Bus.acknowledge bus m.inputs)
    (Bus.acknowledge bus' m'.inputs) := by
  refine ⟨hs.injective, fun id hid => ?_, hs.full⟩
  rw [hc.inputs]
  exact Bus.acknowledge_tracks
    (fun i hi he => hs.injective i (mem_pins_of_inputs hi) id hid he) (hs.tracks id hid)

theorem Copies.updateScripted (unit : ScriptUnit) (hw : m.isWire = false) :
    StepCopies ψ full m.pins (m.updateScripted unit bus) (m'.updateScripted unit bus') := by
  have hchanged : m'.inputs.any (Bus.hasChanged bus') = m.inputs.any (Bus.hasChanged bus) := by
    rw [hc.inputs, List.any_map, Bool.eq_iff_iff, List.any_eq_true, List.any_eq_true]
    refine exists_congr fun id => and_congr_right fun hid => ?_
    rw [Function.comp_apply, Bus.hasChanged_of_tracks (hs.tracks id (mem_pins_of_inputs hid))
      (hs.full hw id hid)]
  simp only [Component.updateScripted, fires, hc.read hs, hchanged]
  cases unit.script.trigger with
  | clocked =>
    dsimp only
    cases unit.edge.rising (m.read bus).clock with
    | mk rising edge =>
      cases rising with
      | false => exact ⟨⟨rfl, hc.level, hc.inputs, hc.outputs, hc.clock⟩, rfl, hs.tracks⟩
      | true => exact hc.runScript hs _
  | instant =>
    have hack := hs.acknowledge hc
    dsimp only
    cases m.inputs.any (Bus.hasChanged bus) with
    | false => exact ⟨⟨rfl, hc.level, hc.inputs, hc.outputs, hc.clock⟩, rfl, hack.tracks⟩
    | true => exact hc.runScript hack unit

/-- An inner circuit is fed the same levels. -/
theorem Copies.feed (pins : Pins) (inner : Bus) :
    pins.feed m'.inputs m'.clock bus' inner = pins.feed m.inputs m.clock bus inner := by
  unfold Pins.feed
  refine congrArg (Bus.driveAll inner) (congrArg₂ _ ?_ ?_)
  · rw [hc.inputs, List.zip_map_left, List.map_map]
    apply List.map_congr_left
    intro w hw
    have hid := mem_pins_of_inputs (List.of_mem_zip hw).1
    exact congrArg (w.2, ·) (Bus.level_of_tracks (hs.tracks w.1 hid)).symm
  · rw [hc.clock]
    cases hm : m.clock with
    | none => rfl
    | some o =>
      cases pins.clock with
      | none => rfl
      | some i =>
        simp only [Option.map_some, Bus.level_of_tracks (hs.tracks o (mem_pins_of_clock hm))]

/-- An update does to a copy what it does to the component, scripts and inner circuits included. -/
theorem Copies.update (t : Nat) :
    StepCopies ψ full m.pins (m.update (.all t) bus) (m'.update (.all t) bus') := by
  have hfeed := fun pins inner => hc.feed hs pins inner
  have hplain := hc.updatePlain hs t
  have hscripted := fun unit => hc.updateScripted hs unit
  obtain ⟨code, kind, level, cells, inputs, outputs, clock⟩ := m
  obtain ⟨code', kind', level', cells', inputs', outputs', clock'⟩ := m'
  obtain ⟨hkind, hlevel, hinputs, houtputs, hclock⟩ := hc
  simp only at hkind hlevel hinputs houtputs hclock
  subst hkind hlevel hinputs houtputs hclock
  cases kind'
  case scripted unit => exact hscripted unit rfl
  case nested pins inner =>
    obtain ⟨name, components, connections, ticks⟩ := inner
    have hf := hfeed pins connections
    simp only at hf
    simp only [Component.update, Times.inside_all, hf]
    split
    · exact ⟨⟨rfl, rfl, rfl, rfl, rfl⟩, rfl, hs.tracks⟩
    · rename_i inner' _
      have hresults : ∀ inner, pins.results (outputs.map ψ) inner =
          (pins.results outputs inner).map fun w => (ψ w.1, w.2) := by
        intro inner
        rw [Pins.results, Pins.results, List.zip_map_left, List.map_map, List.map_map]
        rfl
      have hany : ∀ inner, (pins.results (outputs.map ψ) inner).any (·.2) =
          (pins.results outputs inner).any (·.2) := by
        intro inner
        rw [hresults, List.any_map]
        rfl
      simp only [hany]
      refine ⟨⟨rfl, rfl, rfl, rfl, rfl⟩, rfl, fun id hid => ?_⟩
      rw [hresults]
      refine hs.driveAll _ (fun w hw => ?_) hid
      obtain ⟨e, he, rfl⟩ := List.mem_map.1 hw
      exact (List.of_mem_zip he).1
  all_goals exact hplain

end Update

end Component

end GridCircuit
