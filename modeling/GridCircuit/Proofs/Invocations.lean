import GridCircuit.Proofs.Moments

/-!
# The invocations of one instant script

A history of a scripted component is kept beside it: the input levels at its last update, and every
invocation of its script. `History.update` compares levels and knows no flags. A component recounts a
history if its memory, its counter and its outputs are what the last invocations left, and each flag of
an input tells whether the level is another one than was seen last. An update of such a component
invokes its script exactly if the history does.
-/

namespace GridCircuit

/-- The levels that a script was given, and what it gave back. -/
structure Invocation where
  inputs : List Bool
  memory : Memory
  answer : Except ScriptError (List Bool)

/-- What has happened to a scripted component. -/
structure History where
  /-- The levels of its inputs at the last update. -/
  seen : List Bool
  /-- The invocations of its script, first one first. -/
  invocations : List Invocation := []

namespace History

/-- Nothing has happened yet, and every input is low. -/
def start (inputs : Nat) : History := { seen := List.replicate inputs false }

/-- What the invocations that succeeded have given. -/
def results (h : History) : List (List Bool) := h.invocations.filterMap (·.answer.toOption)

/-- Number of invocations that succeeded. -/
def runs (h : History) : Nat := h.results.length

/-- The memory that the last invocation has left, also if it failed. -/
def memory (h : History) : Memory := (h.invocations.getLast?.map (·.memory)).getD ∅

/-- A bit of the last result, low where there is none. -/
def bit (h : History) (i : Nat) : Bool := (h.results.getLast?.getD [])[i]?.getD false

/-- One invocation more, at given input levels. -/
def call (script : Script) (h : History) (inputs : List Bool) : History :=
  let (memory, answer) := script.run inputs h.runs h.memory
  ⟨inputs, h.invocations ++ [⟨inputs, memory, answer⟩]⟩

/-- An update at given input levels: if they are other ones than last time, the script is invoked. -/
def update (script : Script) (h : History) (inputs : List Bool) : History :=
  if inputs = h.seen then h else h.call script inputs

/-- The history up to the `n`-th invocation. -/
def before (h : History) (n : Nat) : History := { h with invocations := h.invocations.take n }

/-- Every invocation was given the number of earlier successes and the memory left by the one before. -/
def Lawful (script : Script) (h : History) : Prop :=
  ∀ (n : Nat) (call : Invocation), h.invocations[n]? = some call →
    script.run call.inputs (h.before n).runs (h.before n).memory = (call.memory, call.answer)

/-- The state of a script with this history. -/
def unit (h : History) (script : Script) : ScriptUnit :=
  { script, memory := h.memory, runs := h.runs }

variable {script : Script} {h : History} {inputs : List Bool}

theorem update_seen (script : Script) (h : History) (inputs : List Bool) :
    (h.update script inputs).seen = inputs := by
  rw [update]
  split
  case isTrue he => exact he.symm
  case isFalse => rfl

theorem start_lawful (script : Script) (inputs : Nat) : (start inputs).Lawful script := by
  intro n call hn
  cases hn

theorem Lawful.call (hl : h.Lawful script) (inputs : List Bool) :
    (h.call script inputs).Lawful script := by
  intro n call hn
  rw [History.call] at hn ⊢
  by_cases hlt : n < h.invocations.length
  · rw [List.getElem?_append_left hlt] at hn
    have hcall := hl n call hn
    simp only [before, runs, results, memory, List.take_append_of_le_length (Nat.le_of_lt hlt)]
    exact hcall
  · have hle := Nat.le_of_not_lt hlt
    rw [List.getElem?_append_right hle, List.getElem?_singleton] at hn
    split at hn
    case isFalse => cases hn
    case isTrue heq =>
      obtain rfl := Option.some.inj hn
      obtain rfl : n = h.invocations.length := by omega
      simp only [before, runs, results, memory, List.take_left]

theorem update_of_ne (hne : inputs ≠ h.seen) : h.update script inputs = h.call script inputs :=
  if_neg hne

theorem Lawful.update (hl : h.Lawful script) (inputs : List Bool) :
    (h.update script inputs).Lawful script := by
  by_cases he : inputs = h.seen
  · rwa [History.update, if_pos he]
  · rw [update_of_ne he]
    exact hl.call inputs

end History

namespace History

variable {script : Script} {h : History} {inputs : List Bool} {memory : Memory}

theorem call_of_run {answer : Except ScriptError (List Bool)}
    (hrun : script.run inputs h.runs h.memory = (memory, answer)) :
    h.call script inputs = ⟨inputs, h.invocations ++ [⟨inputs, memory, answer⟩]⟩ := by
  rw [call, hrun]

theorem call_of_error {cause : ScriptError}
    (hrun : script.run inputs h.runs h.memory = (memory, .error cause)) :
    (h.call script inputs).unit script = { h.unit script with memory } ∧
      ∀ i, (h.call script inputs).bit i = h.bit i := by
  rw [call_of_run hrun]
  have hresults : results ⟨inputs, h.invocations ++ [⟨inputs, memory, .error cause⟩]⟩ = h.results := by
    simp [results, Except.toOption]
  constructor
  · rw [unit, runs, hresults, History.memory, List.getLast?_concat]
    rfl
  · intro i
    rw [bit, hresults, bit]

theorem call_of_ok {result : List Bool}
    (hrun : script.run inputs h.runs h.memory = (memory, .ok result)) :
    (h.call script inputs).unit script = { h.unit script with memory, runs := h.runs + 1 } ∧
      ∀ i, (h.call script inputs).bit i = result[i]?.getD false := by
  rw [call_of_run hrun]
  have hresults : results ⟨inputs, h.invocations ++ [⟨inputs, memory, .ok result⟩]⟩ =
      h.results ++ [result] := by
    simp [results, Except.toOption]
  constructor
  · rw [unit, runs, hresults, History.memory, List.getLast?_concat, List.length_append]
    rfl
  · intro i
    rw [bit, hresults, List.getLast?_concat, Option.getD_some]

end History

/-- The level that a reader of the connection has last taken note of. -/
def Connection.noted (k : Connection) : Bool := k.active.xor k.changed

theorem Connection.noted_of_changed {k : Connection} (h : k.changed = false) : k.noted = k.active := by
  rw [noted, h, Bool.xor_false]

/-- Writing a level is no news to the reader, as long as it has no other news to take note of. -/
theorem Connection.noted_drive {k : Connection} (h : k.changed = false) (level : Bool) :
    (k.drive level).noted = k.noted := by
  rw [drive]
  split
  case isTrue => rfl
  case isFalse hne =>
    rw [noted_of_changed h, noted]
    cases ha : k.active <;> cases level <;> simp_all

namespace Bus

/-- The level that the reader of a connection has last taken note of. -/
def noted (bus : Bus) (id : Nat) : Bool := (bus[id]?.map (·.noted)).getD false

variable {ids : List Nat} {bus bus' : Bus} {id : Nat}

theorem noted_eq (bus : Bus) (id : Nat) :
    bus.noted id = (Bus.level bus id).xor (Bus.hasChanged bus id) := by
  rw [noted, level, hasChanged]
  cases bus[id]? <;> rfl

/-- Some flag is set exactly if the levels are not those that were noted. -/
theorem any_hasChanged_iff (ids : List Nat) (bus : Bus) :
    ids.any (Bus.hasChanged bus) = true ↔ ids.map (Bus.level bus) ≠ ids.map (Bus.noted bus) := by
  rw [Ne, List.map_inj_left, List.any_eq_true]
  have hone : ∀ id, Bus.level bus id = bus.noted id ↔ ¬ Bus.hasChanged bus id = true := by
    intro id
    rw [noted_eq]
    cases Bus.level bus id <;> cases Bus.hasChanged bus id <;> decide
  simp only [hone]
  push Not
  rfl

theorem Agree.noted (h : Agree ids bus bus') : ids.map bus.noted = ids.map bus'.noted := by
  apply List.map_congr_left
  intro id hid
  rw [Bus.noted, Bus.noted, h id hid]

theorem level_acknowledge (bus : Bus) (ids : List Nat) (id : Nat) :
    Bus.level (Bus.acknowledge bus ids) id = Bus.level bus id := by
  rw [level, level, getElem?_acknowledge, Option.map_map]
  congr 2
  funext k
  rw [Function.comp_apply]
  split <;> rfl

theorem changed_acknowledge (hid : id ∈ ids) {k : Connection}
    (hk : (Bus.acknowledge bus ids)[id]? = some k) : k.changed = false := by
  rw [getElem?_acknowledge, Option.map_eq_some_iff] at hk
  obtain ⟨k₀, -, rfl⟩ := hk
  rw [if_pos hid]
  rfl

theorem noted_of_changed (h : ∀ k, bus[id]? = some k → k.changed = false) :
    bus.noted id = Bus.level bus id := by
  rw [noted, level]
  cases hk : bus[id]? with
  | none => rfl
  | some k => exact Connection.noted_of_changed (h k hk)

/-- One of several connections that are written, each of them once. -/
theorem level_driveAll {writes : List (Nat × Bool)} {level : Bool} (hn : (writes.map (·.1)).Nodup)
    (hmem : (id, level) ∈ writes) (hlt : id < bus.size) :
    Bus.level (Bus.driveAll bus writes) id = level := by
  rw [Bus.level, getElem?_driveAll, Array.getElem?_eq_getElem hlt, Option.map_some, Option.map_some,
    Option.getD_some, Connection.receive_of_mem _ hn hmem, Connection.active_drive]

end Bus

namespace Component

variable {script : Script} {h : History} {m : Component} {bus bus' : Bus} {now : Times}

/-- The component is in the state that a history leaves, and so are the connections that it writes. -/
structure Recalls (m : Component) (script : Script) (h : History) (bus : Bus) : Prop where
  kind : m.kind = .scripted (h.unit script)
  level : m.level = h.bit 0
  outputs : ∀ j id : Nat, m.outputs[j]? = some id → Bus.level bus id = h.bit j

/-- Besides, every flag of its inputs tells truly whether the level is another one than was seen. -/
structure Recounts (m : Component) (script : Script) (h : History) (bus : Bus) : Prop
    extends m.Recalls script h bus where
  noted : m.inputs.map bus.noted = h.seen

/-- An update that goes by a history: the script is invoked exactly if the inputs are not as they were
seen, at their levels, with the number of earlier successes and the memory of the invocation before; and
the component is left as the history then has it. -/
structure Obeys (now : Times) (m : Component) (script : Script) (h : History) (bus : Bus) : Prop where
  recalls : m.Recalls script h bus
  fires_iff : (m.fires (h.unit script) bus).1 = true ↔ (m.read bus).inputs ≠ h.seen
  silent : (m.read bus).inputs = h.seen → m.update now bus = ⟨m, Bus.acknowledge bus m.inputs, none⟩
  invoked : (m.read bus).inputs ≠ h.seen →
    m.update now bus = m.runScript (h.unit script) (Bus.acknowledge bus m.inputs)
  reading : m.read (Bus.acknowledge bus m.inputs) = m.read bus
  left : (m.update now bus).value.Recalls script (h.update script (m.read bus).inputs)
    (m.update now bus).bus

theorem Recounts.isWire (hr : m.Recounts script h bus) : m.isWire = false := by
  rw [Component.isWire, hr.kind]
  rfl

theorem Recounts.of_agree (hr : m.Recounts script h bus) (ha : Bus.Agree m.pins bus' bus) :
    m.Recounts script h bus' := by
  have hin : Bus.Agree m.inputs bus' bus :=
    fun id hid => ha id (List.mem_append_left _ (mem_readers.2 (.inl hid)))
  refine ⟨⟨hr.kind, hr.level, fun j id hj => ?_⟩, hin.noted.trans hr.noted⟩
  rw [Bus.level, ha id (mem_pins_of_outputs (List.mem_of_getElem? hj))]
  exact hr.outputs j id hj

theorem with_kind {kind : Kind} (hk : m.kind = kind) : { m with kind := kind } = m := by
  subst hk
  cases m
  rfl

theorem update_scripted {unit : ScriptUnit} (hk : m.kind = .scripted unit) (now : Times) (bus : Bus) :
    m.update now bus = m.updateScripted unit bus := by
  obtain ⟨code, kind, level, cells, inputs, outputs, clock⟩ := m
  obtain rfl : kind = _ := hk
  rfl

/-- Whether the script is invoked, in terms of levels alone. -/
theorem Recounts.fires_iff (hr : m.Recounts script h bus) (hi : script.trigger = .instant) :
    (m.fires (h.unit script) bus).1 = true ↔ (m.read bus).inputs ≠ h.seen := by
  have hfires : (m.fires (h.unit script) bus).1 = m.inputs.any (Bus.hasChanged bus) := by
    rw [fires]
    split
    case h_1 => rfl
    case h_2 hc => cases hi.symm.trans hc
  rw [hfires, Bus.any_hasChanged_iff, hr.noted]
  rfl

/-- An update takes note of all inputs, and invokes the script if they are not as they were seen. -/
theorem Recounts.update_eq (hr : m.Recounts script h bus) (hi : script.trigger = .instant) (now : Times) :
    m.update now bus =
      if (m.read bus).inputs = h.seen then ⟨m, Bus.acknowledge bus m.inputs, none⟩
      else m.runScript (h.unit script) (Bus.acknowledge bus m.inputs) := by
  have hfires := hr.fires_iff hi
  have hrest : m.fires (h.unit script) bus =
      ((m.fires (h.unit script) bus).1, h.unit script, Bus.acknowledge bus m.inputs) := by
    rw [fires]
    split
    case h_1 => rfl
    case h_2 hc => cases hi.symm.trans hc
  rw [update_scripted hr.kind, updateScripted, hrest]
  by_cases he : (m.read bus).inputs = h.seen
  · rw [if_pos he, Bool.eq_false_iff.2 fun hf => hfires.1 hf he]
    dsimp only
    rw [with_kind hr.kind]
  · rw [if_neg he, hfires.2 he]

/-- The results of a script stand on its outputs. -/
theorem level_results {results : List Bool} (hn : m.outputs.Nodup)
    (hlt : ∀ id ∈ m.outputs, id < bus.size) {j id : Nat} (hj : m.outputs[j]? = some id) :
    Bus.level (Bus.driveAll bus (m.outputs.zipIdx.map fun (id, i) => (id, results[i]?.getD false))) id =
      results[j]?.getD false := by
  refine Bus.level_driveAll ?_ ?_ (hlt id (List.mem_of_getElem? hj))
  · rw [List.map_map]
    exact (List.zipIdx_map_fst 0 m.outputs).symm ▸ hn
  · exact List.mem_map.2 ⟨(id, j), List.mem_zipIdx_iff_getElem?.2 hj, rfl⟩

/-- An invocation leaves what the history of it says. -/
theorem Recalls.runScript (hr : m.Recalls script h bus) (hn : m.outputs.Nodup)
    (hlt : ∀ id ∈ m.outputs, id < bus.size) :
    (m.runScript (h.unit script) bus).value.Recalls script (h.call script (m.read bus).inputs)
      (m.runScript (h.unit script) bus).bus := by
  rw [Component.runScript]
  split
  case h_1 memory cause hrun =>
    obtain ⟨hunit, hbit⟩ := History.call_of_error hrun
    refine ⟨congrArg Kind.scripted hunit.symm, hr.level.trans (hbit 0).symm, fun j id hj => ?_⟩
    exact (hr.outputs j id hj).trans (hbit j).symm
  case h_2 memory result hrun =>
    obtain ⟨hunit, hbit⟩ := History.call_of_ok hrun
    refine ⟨congrArg Kind.scripted hunit.symm, (hbit 0).symm, fun j id hj => ?_⟩
    exact (level_results hn hlt hj).trans (hbit j).symm

theorem read_acknowledge (m : Component) (bus : Bus) (ids : List Nat) :
    m.read (Bus.acknowledge bus ids) = m.read bus := by
  have hlevel : Bus.level (Bus.acknowledge bus ids) = Bus.level bus :=
    funext (Bus.level_acknowledge bus ids)
  rw [read, read, hlevel]

/-- An update leaves what the history of it says, and no flag of an input. -/
theorem Recounts.update (hr : m.Recounts script h bus) (hi : script.trigger = .instant)
    (hn : m.pins.Nodup) (hlt : ∀ id ∈ m.outputs, id < bus.size) (now : Times) :
    (m.update now bus).value.Recounts script (h.update script (m.read bus).inputs)
        (m.update now bus).bus ∧
      ∀ id ∈ m.inputs, ∀ k, (m.update now bus).bus[id]? = some k → k.changed = false := by
  obtain ⟨-, hout, hdisjoint⟩ := List.nodup_append.1 hn
  have hkept : ∀ id ∈ m.inputs,
      (m.update now bus).bus[id]? = (Bus.acknowledge bus m.inputs)[id]? := by
    intro id hid
    rw [hr.update_eq hi now]
    split
    · rfl
    · exact runScript_frame _ fun hmem =>
        hdisjoint id (mem_readers.2 (.inl hid)) id hmem rfl
  have hclear : ∀ id ∈ m.inputs, ∀ k, (m.update now bus).bus[id]? = some k → k.changed = false := by
    intro id hid k hk
    rw [hkept id hid] at hk
    exact Bus.changed_acknowledge hid hk
  have hrecalls : (m.update now bus).value.Recalls script (h.update script (m.read bus).inputs)
      (m.update now bus).bus := by
    have hack : m.Recalls script h (Bus.acknowledge bus m.inputs) :=
      ⟨hr.kind, hr.level, fun j id hj => (Bus.level_acknowledge _ _ id).trans (hr.outputs j id hj)⟩
    rw [hr.update_eq hi now, ← m.read_acknowledge bus m.inputs]
    split
    case isTrue he =>
      rw [History.update, if_pos he]
      exact hack
    case isFalse hne =>
      rw [History.update_of_ne hne]
      refine hack.runScript hout fun id hid => ?_
      have hsize := congrArg Array.size (Bus.blank_acknowledge m.inputs bus)
      rw [Bus.blank, Bus.blank, Array.size_map, Array.size_map] at hsize
      exact hsize ▸ hlt id hid
  refine ⟨⟨hrecalls, ?_⟩, hclear⟩
  have hinputs : (m.update now bus).value.inputs = m.inputs := inputs_of_shape (m.update_shape now bus)
  rw [hinputs, History.update_seen]
  apply List.map_congr_left
  intro id hid
  rw [Bus.noted_of_changed (hclear id hid), Bus.level, hkept id hid]
  exact Bus.level_acknowledge bus m.inputs id

theorem Recounts.obeys (hr : m.Recounts script h bus) (hi : script.trigger = .instant)
    (hn : m.pins.Nodup) (hlt : ∀ id ∈ m.outputs, id < bus.size) (now : Times) :
    m.Obeys now script h bus := by
  have heq := hr.update_eq hi now
  constructor
  case recalls => exact hr.toRecalls
  case fires_iff => exact hr.fires_iff hi
  case silent => exact fun he => heq.trans (if_pos he)
  case invoked => exact fun hne => heq.trans (if_neg hne)
  case reading => exact m.read_acknowledge bus m.inputs
  case left => exact (hr.update hi hn hlt now).1.toRecalls

end Component

end GridCircuit
