import GridCircuit.Circuit.Tick
import GridCircuit.Proofs.Assembly

/-!
# What an update touches

An update of a component looks at the connections it reads and changes those it reads or writes; the
rest of the bus is neither looked at nor changed. This holds for components of every kind, scripts and
inner circuits included, and also when the update fails.
-/

namespace GridCircuit

/-- What becomes of one connection when several levels are written. -/
def Connection.receive (writes : List (Nat × Bool)) (id : Nat) (k : Connection) : Connection :=
  writes.foldl (fun k w => if w.1 = id then k.drive w.2 else k) k

theorem Connection.receive_of_notMem {id : Nat} :
    ∀ {writes : List (Nat × Bool)} (k : Connection), id ∉ writes.map (·.1) →
      k.receive writes id = k := by
  intro writes
  induction writes with
  | nil => exact fun _ _ => rfl
  | cons w writes ih =>
    intro k h
    rw [List.map_cons, List.mem_cons, not_or] at h
    rw [receive, List.foldl_cons, if_neg (Ne.symm h.1)]
    exact ih k h.2

namespace Bus

theorem getElem?_drive (bus : Bus) (w : Nat × Bool) (id : Nat) :
    (Bus.drive bus w.1 w.2)[id]? =
      (bus[id]?).map fun k => if w.1 = id then k.drive w.2 else k := by
  rw [drive, Array.getElem?_modify]
  split <;> simp

theorem getElem?_driveAll (writes : List (Nat × Bool)) (id : Nat) :
    ∀ bus : Bus, (Bus.driveAll bus writes)[id]? = (bus[id]?).map (·.receive writes id) := by
  induction writes with
  | nil => exact fun bus => Option.map_id'.symm
  | cons w writes ih =>
    intro bus
    rw [driveAll, List.foldl_cons]
    refine (ih _).trans ?_
    rw [getElem?_drive, Option.map_map]
    rfl

theorem getElem?_acknowledge (ids : List Nat) (id : Nat) :
    ∀ bus : Bus, (Bus.acknowledge bus ids)[id]? =
      (bus[id]?).map fun k => if id ∈ ids then k.acknowledge else k := by
  induction ids with
  | nil => simp [acknowledge]
  | cons n ids ih =>
    intro bus
    rw [acknowledge, List.foldl_cons]
    refine (ih _).trans ?_
    rw [Array.getElem?_modify]
    by_cases hn : n = id
    · subst hn
      simp only [↓reduceIte, Option.map_map, List.mem_cons, true_or]
      congr 1
      funext k
      simp [Connection.acknowledge]
    · simp [hn, Ne.symm hn]

/-- Two buses hold the same connections at some numbers. -/
def Agree (ids : List Nat) (bus bus' : Bus) : Prop := ∀ id ∈ ids, bus[id]? = bus'[id]?

variable {ids : List Nat} {bus bus' : Bus}

theorem Agree.level (h : Agree ids bus bus') :
    ids.map (Bus.level bus) = ids.map (Bus.level bus') := by
  apply List.map_congr_left
  intro id hid
  rw [Bus.level, Bus.level, h id hid]

theorem Agree.hasChanged (h : Agree ids bus bus') :
    ids.any (Bus.hasChanged bus) = ids.any (Bus.hasChanged bus') := by
  have hmap : ids.map (Bus.hasChanged bus) = ids.map (Bus.hasChanged bus') := by
    apply List.map_congr_left
    intro id hid
    rw [Bus.hasChanged, Bus.hasChanged, h id hid]
  have hany : ∀ bus : Bus, ids.any (Bus.hasChanged bus) = (ids.map (Bus.hasChanged bus)).any id := by
    intro bus
    rw [List.any_map]
    rfl
  rw [hany, hany, hmap]

end Bus

/-- Two steps from different buses do the same, as far as the buses are the same. -/
structure Step.Matches {α : Type} (bus bus' : Bus) (s s' : Step α) : Prop where
  value : s.value = s'.value
  failure : s.failure = s'.failure
  bus : ∀ id : Nat, bus[id]? = bus'[id]? → s.bus[id]? = s'.bus[id]?

namespace Component

variable {now : Times} {m : Component} {bus bus' : Bus} {id : Nat}

theorem read_congr (h : Bus.Agree m.readers bus bus') : m.read bus = m.read bus' := by
  have hi : Bus.Agree m.inputs bus bus' := fun id hid => h id (mem_readers.2 (.inl hid))
  rw [read, read, hi.level]
  congr 1
  cases hc : m.clock with
  | none => rfl
  | some id =>
    have hid := h id (mem_readers.2 (.inr hc))
    simp [Bus.level, hid]

theorem driveAll_congr (writes : List (Nat × Bool)) (h : bus[id]? = bus'[id]?) :
    (Bus.driveAll bus writes)[id]? = (Bus.driveAll bus' writes)[id]? := by
  rw [Bus.getElem?_driveAll, Bus.getElem?_driveAll, h]

theorem driveAll_frame {writes : List (Nat × Bool)} (h : id ∉ writes.map (·.1)) :
    (Bus.driveAll bus writes)[id]? = bus[id]? := by
  rw [Bus.getElem?_driveAll]
  simp [Connection.receive_of_notMem _ h]

theorem updatePlain_local (now : Times) (h : Bus.Agree m.readers bus bus') :
    Step.Matches bus bus' (m.updatePlain now bus) (m.updatePlain now bus') := by
  simp only [updatePlain, read_congr h]
  exact ⟨rfl, rfl, fun id hid => driveAll_congr _ hid⟩

theorem runScript_local (unit : ScriptUnit) (h : Bus.Agree m.readers bus bus') :
    Step.Matches bus bus' (m.runScript unit bus) (m.runScript unit bus') := by
  rw [runScript, runScript, read_congr h]
  split
  · exact ⟨rfl, rfl, fun id hid => hid⟩
  · exact ⟨rfl, rfl, fun id hid => driveAll_congr _ hid⟩

theorem updateScripted_local (unit : ScriptUnit) (h : Bus.Agree m.readers bus bus') :
    Step.Matches bus bus' (m.updateScripted unit bus) (m.updateScripted unit bus') := by
  have hi : Bus.Agree m.inputs bus bus' := fun id hid => h id (mem_readers.2 (.inl hid))
  simp only [updateScripted, fires, read_congr h, hi.hasChanged]
  cases unit.script.trigger with
  | clocked =>
    dsimp only
    cases unit.edge.rising (m.read bus').clock with
    | mk rising edge =>
      cases rising with
      | false => exact ⟨rfl, rfl, fun id hid => hid⟩
      | true => exact runScript_local _ h
  | instant =>
    have hack : ∀ id : Nat, bus[id]? = bus'[id]? →
        (Bus.acknowledge bus m.inputs)[id]? = (Bus.acknowledge bus' m.inputs)[id]? := by
      intro id hid
      rw [Bus.getElem?_acknowledge, Bus.getElem?_acknowledge, hid]
    dsimp only
    cases m.inputs.any (Bus.hasChanged bus') with
    | false => exact ⟨rfl, rfl, hack⟩
    | true =>
      obtain ⟨hv, hf, hb⟩ := runScript_local unit fun id hid => hack id (h id hid)
      exact ⟨hv, hf, fun id hid => hb id (hack id hid)⟩

theorem feed_congr (pins : Pins) (inner : Bus) (h : Bus.Agree m.readers bus bus') :
    pins.feed m.inputs m.clock bus inner = pins.feed m.inputs m.clock bus' inner := by
  unfold Pins.feed
  refine congrArg (Bus.driveAll inner) (congrArg₂ _ (List.map_congr_left ?_) ?_)
  · intro w hw
    have hid := h w.1 (mem_readers.2 (.inl (List.of_mem_zip hw).1))
    simp only [Bus.level, hid]
  · cases hc : m.clock with
    | none => rfl
    | some o =>
      have hid : Bus.level bus o = Bus.level bus' o := by
        rw [Bus.level, Bus.level, h o (mem_readers.2 (.inr hc))]
      cases pins.clock with
      | none => rfl
      | some i => simp only [hid]

theorem update_plain (h : ∀ unit, m.kind ≠ .scripted unit) (h' : ∀ pins inner, m.kind ≠ .nested pins inner) :
    m.update now bus = m.updatePlain now bus := by
  obtain ⟨code, kind, level, cells, inputs, outputs, clock⟩ := m
  cases kind <;> first | rfl | exact absurd rfl (h _) | exact absurd rfl (h' _ _)

theorem update_wire (h : m.isWire = true) : m.update now bus = m.updatePlain now bus := by
  obtain ⟨code, kind, level, cells, inputs, outputs, clock⟩ := m
  cases kind <;> first | rfl | cases h

/-- The connections outside decide what an update does, those of the component alone. -/
theorem update_local (now : Times) (h : Bus.Agree m.readers bus bus') :
    Step.Matches bus bus' (m.update now bus) (m.update now bus') := by
  obtain ⟨code, kind, level, cells, inputs, outputs, clock⟩ := m
  cases kind
  case scripted unit => exact updateScripted_local unit h
  case nested pins inner =>
    obtain ⟨name, components, connections, ticks⟩ := inner
    have hfeed := feed_congr pins connections h
    simp only at hfeed
    simp only [Component.update, hfeed]
    split
    · exact ⟨rfl, rfl, fun id hid => hid⟩
    · exact ⟨rfl, rfl, fun id hid => driveAll_congr _ hid⟩
  all_goals exact updatePlain_local now h

theorem updatePlain_frame (now : Times) (h : id ∉ m.outputs) :
    (m.updatePlain now bus).bus[id]? = bus[id]? := by
  apply driveAll_frame
  dsimp only
  split
  · simpa using h
  · simp

theorem runScript_frame (unit : ScriptUnit) (h : id ∉ m.outputs) :
    (m.runScript unit bus).bus[id]? = bus[id]? := by
  unfold runScript
  split
  · rfl
  · apply driveAll_frame
    rw [List.map_map]
    intro hid
    obtain ⟨e, he, rfl⟩ := List.mem_map.1 hid
    exact h (List.fst_mem_of_mem_zipIdx he)

theorem updateScripted_frame (unit : ScriptUnit) (h : id ∉ m.pins) :
    (m.updateScripted unit bus).bus[id]? = bus[id]? := by
  rw [pins, List.mem_append, mem_readers, not_or, not_or] at h
  obtain ⟨⟨hin, -⟩, hout⟩ := h
  have hack : (Bus.acknowledge bus m.inputs)[id]? = bus[id]? := by
    rw [Bus.getElem?_acknowledge]
    simp [hin]
  simp only [updateScripted, fires]
  cases unit.script.trigger with
  | clocked =>
    dsimp only
    cases unit.edge.rising (m.read bus).clock with
    | mk rising edge =>
      cases rising with
      | false => rfl
      | true => exact runScript_frame _ hout
  | instant =>
    dsimp only
    cases m.inputs.any (Bus.hasChanged bus) with
    | false => exact hack
    | true => exact (runScript_frame unit hout).trans hack

/-- Connections of other components stay as they are. -/
theorem update_frame (now : Times) (h : id ∉ m.pins) : (m.update now bus).bus[id]? = bus[id]? := by
  have hout : id ∉ m.outputs := fun ho => h (List.mem_append_right _ ho)
  obtain ⟨code, kind, level, cells, inputs, outputs, clock⟩ := m
  cases kind
  case scripted unit => exact updateScripted_frame unit h
  case nested pins inner =>
    obtain ⟨name, components, connections, ticks⟩ := inner
    simp only [Component.update]
    split
    · rfl
    · apply driveAll_frame
      rw [Pins.results, List.map_map]
      intro hid
      obtain ⟨e, he, rfl⟩ := List.mem_map.1 hid
      exact hout (List.of_mem_zip he).1
  all_goals exact updatePlain_frame now hout

/-- What stays the same about a component for good: whether it is a wire, and its pins. -/
def shape (m : Component) : Bool × List Nat × List Nat × Option Nat :=
  (m.isWire, m.inputs, m.outputs, m.clock)

theorem runScript_shape (unit : ScriptUnit) (hk : m.isWire = false) :
    (m.runScript unit bus).value.shape = m.shape := by
  rw [runScript, shape, shape, hk]
  split <;> rfl

theorem update_shape (now : Times) (m : Component) (bus : Bus) :
    (m.update now bus).value.shape = m.shape := by
  obtain ⟨code, kind, level, cells, inputs, outputs, clock⟩ := m
  cases kind
  case scripted unit =>
    show (updateScripted _ unit bus).value.shape = _
    unfold updateScripted
    split
    · exact runScript_shape _ rfl
    · rfl
  case nested pins inner =>
    obtain ⟨name, components, connections, ticks⟩ := inner
    simp only [Component.update]
    split <;> rfl
  all_goals rfl

theorem pins_of_shape {m n : Component} (h : m.shape = n.shape) : m.pins = n.pins := by
  simp only [shape, Prod.mk.injEq] at h
  rw [pins, pins, readers, readers, h.2.1, h.2.2.1, h.2.2.2]

theorem isWire_of_shape {m n : Component} (h : m.shape = n.shape) : m.isWire = n.isWire :=
  congrArg Prod.fst h

theorem inputs_of_shape {m n : Component} (h : m.shape = n.shape) : m.inputs = n.inputs :=
  congrArg (fun s : Bool × List Nat × List Nat × Option Nat => s.2.1) h

theorem clock_of_shape {m n : Component} (h : m.shape = n.shape) : m.clock = n.clock :=
  congrArg (fun s : Bool × List Nat × List Nat × Option Nat => s.2.2.2) h

theorem outputs_of_shape {m n : Component} (h : m.shape = n.shape) : m.outputs = n.outputs :=
  congrArg (fun s : Bool × List Nat × List Nat × Option Nat => s.2.2.1) h

end Component

end GridCircuit
