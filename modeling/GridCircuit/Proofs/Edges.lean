import GridCircuit.Proofs.Invocations

/-!
# Components that act on a rising clock

A flip-flop and a clocked script keep one clock level, that of their last update. What they are after
any number of updates is said here in terms of all the levels that they have read: the clock rises at an
update that reads it high after one that has read it low, where it counts as low before the first. A
flip-flop shows what it read at the last rise, and a script was invoked at every rise and at no other
update.
-/

namespace GridCircuit

/-- What a component has read, update by update. -/
abbrev Readings := List Reading

namespace Readings

/-- What was read at the `n`-th update, counting from one. -/
def at? (rs : Readings) : Nat → Option Reading
  | 0 => none
  | n + 1 => rs[n]?

/-- The clock level that was read; low before the first update. -/
def clockAt (rs : Readings) (n : Nat) : Bool := (rs.at? n).any (·.clock)

def inputsAt (rs : Readings) (n : Nat) : List Bool := ((rs.at? n).map (·.inputs)).getD []

/-- The level of the first input that was read; low if there is none. -/
def dataAt (rs : Readings) (n : Nat) : Bool := (rs.inputsAt n)[0]?.getD false

/-- The clock is high at this update, and was low at the one before. -/
def Rises (rs : Readings) (n : Nat) : Prop := rs.clockAt n = true ∧ rs.clockAt (n - 1) = false

instance (rs : Readings) : DecidablePred rs.Rises := fun n =>
  inferInstanceAs (Decidable (rs.clockAt n = true ∧ rs.clockAt (n - 1) = false))

/-- The updates up to the `n`-th one at which the clock rises. -/
def risings (rs : Readings) (n : Nat) : List Nat := (List.range (n + 1)).filter (rs.Rises ·)

/-- The first input at the last rise up to the `n`-th update; low if there is none. -/
def latched (rs : Readings) (n : Nat) : Bool := rs.dataAt (Nat.findGreatest rs.Rises n)

variable {rs : Readings} {n : Nat} {r : Reading}

theorem not_rises_zero (rs : Readings) : ¬ rs.Rises 0 := fun h => by cases h.1

theorem clockAt_succ (hr : rs[n]? = some r) : rs.clockAt (n + 1) = r.clock := by
  rw [clockAt, at?, hr, Option.any_some]

theorem inputsAt_succ (hr : rs[n]? = some r) : rs.inputsAt (n + 1) = r.inputs := by
  rw [inputsAt, at?, hr, Option.map_some, Option.getD_some]

theorem rises_succ (hr : rs[n]? = some r) :
    rs.Rises (n + 1) ↔ r.clock = true ∧ rs.clockAt n = false := by
  rw [Rises, Nat.add_sub_cancel, clockAt_succ hr]

/-- What a detector answers that was last shown the clock at the update before. -/
theorem rising_eq (hr : rs[n]? = some r) :
    (EdgeDetector.mk (rs.clockAt n)).rising r.clock =
      (decide (rs.Rises (n + 1)), ⟨rs.clockAt (n + 1)⟩) := by
  refine Prod.ext ?_ (congrArg EdgeDetector.mk (clockAt_succ hr).symm)
  show (r.clock && !rs.clockAt n) = _
  rw [Bool.eq_iff_iff, decide_eq_true_iff, rises_succ hr, Bool.and_eq_true, Bool.not_eq_true']

theorem risings_zero (rs : Readings) : rs.risings 0 = [] :=
  List.filter_eq_nil_iff.2 fun k hk => by
    obtain rfl : k = 0 := Nat.lt_one_iff.1 (List.mem_range.1 hk)
    simpa using rs.not_rises_zero

theorem risings_succ (rs : Readings) (n : Nat) : rs.risings (n + 1) =
    if rs.Rises (n + 1) then rs.risings n ++ [n + 1] else rs.risings n := by
  rw [risings, List.range_succ, List.filter_append, List.filter_singleton]
  by_cases h : rs.Rises (n + 1) <;> simp [h, risings]

theorem latched_succ (hr : rs[n]? = some r) : rs.latched (n + 1) =
    if rs.Rises (n + 1) then r.inputs[0]?.getD false else rs.latched n := by
  rw [latched, Nat.findGreatest_succ]
  split
  case isTrue => rw [dataAt, inputsAt_succ hr]
  case isFalse => rfl

end Readings

namespace History

variable {script : Script} {h : History} {rs : Readings} {n : Nat} {r : Reading}

/-- The history of a clocked script after `n` updates: at every rise it was invoked, on the inputs that
were read then. Its `seen` are those of the last invocation. -/
def clocked (script : Script) (rs : Readings) (n : Nat) : History :=
  (rs.risings n).foldl (fun h k => h.call script (rs.inputsAt k)) (start 0)

theorem clocked_zero (script : Script) (rs : Readings) : clocked script rs 0 = start 0 := by
  rw [clocked, rs.risings_zero, List.foldl_nil]

theorem clocked_succ (script : Script) (hr : rs[n]? = some r) : clocked script rs (n + 1) =
    if rs.Rises (n + 1) then (clocked script rs n).call script r.inputs else clocked script rs n := by
  rw [clocked, rs.risings_succ]
  split
  case isTrue => rw [List.foldl_append, List.foldl_cons, List.foldl_nil, Readings.inputsAt_succ hr, clocked]
  case isFalse => rfl

/-- Every invocation has succeeded. -/
def Succeeded (h : History) : Prop := ∀ call ∈ h.invocations, ∃ results, call.answer = .ok results

theorem Succeeded.runs_eq (hs : h.Succeeded) : h.runs = h.invocations.length := by
  have hall : h.invocations.map (·.answer.toOption) = h.results.map some := by
    rw [results]
    rw [Succeeded] at hs
    generalize h.invocations = calls at hs ⊢
    induction calls with
    | nil => rfl
    | cons call calls ih =>
      obtain ⟨result, hresult⟩ := hs call List.mem_cons_self
      have hrest := ih fun c hc => hs c (List.mem_cons_of_mem _ hc)
      have hsome : call.answer.toOption = some result := by rw [hresult]; rfl
      simp only [List.map_cons, List.filterMap_cons, hsome, hrest]
  have hlen := congrArg List.length hall
  rw [List.length_map, List.length_map] at hlen
  exact hlen.symm

theorem Succeeded.before (hs : h.Succeeded) (n : Nat) : (h.before n).Succeeded :=
  fun call hc => hs call (List.mem_of_mem_take hc)

theorem Succeeded.runs_before (hs : h.Succeeded) (hn : n < h.invocations.length) :
    (h.before n).runs = n := by
  rw [(hs.before n).runs_eq, History.before, List.length_take, Nat.min_eq_left (Nat.le_of_lt hn)]

theorem clocked_lawful (script : Script) (rs : Readings) (n : Nat) :
    (clocked script rs n).Lawful script := by
  rw [clocked]
  generalize rs.risings n = ks
  have hstart := start_lawful script 0
  generalize start 0 = h at hstart ⊢
  induction ks generalizing h with
  | nil => exact hstart
  | cons k ks ih => exact ih _ (hstart.call _)

/-- There is one invocation for each rise, on the inputs that were read there. -/
theorem clocked_inputs (script : Script) (rs : Readings) (n : Nat) :
    (clocked script rs n).invocations.map (·.inputs) = (rs.risings n).map rs.inputsAt := by
  have hfold : ∀ (ks : List Nat) (h : History),
      (ks.foldl (fun h k => h.call script (rs.inputsAt k)) h).invocations.map (·.inputs) =
        h.invocations.map (·.inputs) ++ ks.map rs.inputsAt := by
    intro ks
    induction ks with
    | nil => exact fun h => (List.append_nil _).symm
    | cons k ks ih =>
      intro h
      rw [List.foldl_cons, ih, call_of_run rfl, List.map_append, List.append_assoc]
      rfl
  rw [clocked, hfold]
  rfl

end History

namespace Component

variable {rs : Readings} {n : Nat} {now : Times} {m : Component} {bus bus' : Bus} {script : Script}

/-- A flip-flop after `n` updates. -/
structure Latches (rs : Readings) (n : Nat) (m : Component) (bus : Bus) : Prop where
  kind : m.kind = .flipFlop ⟨rs.clockAt n⟩ (rs.latched n)
  level : m.level = rs.latched n
  outputs : ∀ id ∈ m.outputs, Bus.level bus id = rs.latched n

/-- A clocked script after `n` updates. -/
structure Answers (script : Script) (rs : Readings) (n : Nat) (m : Component) (bus : Bus) : Prop where
  trigger : script.trigger = .clocked
  kind : m.kind =
    .scripted { (History.clocked script rs n).unit script with edge := ⟨rs.clockAt n⟩ }
  level : m.level = (History.clocked script rs n).bit 0
  outputs : ∀ j id : Nat, m.outputs[j]? = some id →
    Bus.level bus id = (History.clocked script rs n).bit j
  succeeded : (History.clocked script rs n).Succeeded

/-- What a flip-flop does at an update. -/
theorem update_flipFlop {edge : EdgeDetector} {output : Bool} (hk : m.kind = .flipFlop edge output)
    (now : Times) (bus : Bus) : m.update now bus = m.updatePlain now bus :=
  update_plain (fun unit hu => by cases hk.symm.trans hu) fun pins inner hn => by cases hk.symm.trans hn

theorem Latches.update (h : m.Latches rs n bus) (hn : m.outputs.Nodup)
    (hlt : ∀ id ∈ m.outputs, id < bus.size) (hr : rs[n]? = some (m.read bus)) (now : Times) :
    (m.update now bus).value.Latches rs (n + 1) (m.update now bus).bus := by
  have hsettle : m.kind.settle (now.read [m.firstCell]) (m.read bus) =
      (.flipFlop ⟨rs.clockAt (n + 1)⟩ (rs.latched (n + 1)), rs.latched (n + 1)) := by
    rw [h.kind, Kind.settle, Readings.rising_eq hr, Readings.latched_succ hr]
    simp only [decide_eq_true_iff]
  have hshows : m.kind.showsLevel = true := by
    rw [h.kind]
    rfl
  rw [update_flipFlop h.kind, updatePlain, hsettle]
  dsimp only
  rw [if_pos hshows]
  refine ⟨rfl, rfl, fun id hid => ?_⟩
  refine Bus.level_driveAll ?_ (List.mem_map.2 ⟨id, hid, rfl⟩) (hlt id hid)
  rw [List.map_map]
  exact (List.map_id m.outputs).symm ▸ hn

/-- The state in which a clocked script comes to its `n + 1`-th update, once the clock has been noted. -/
def clockedUnit (script : Script) (rs : Readings) (n : Nat) : ScriptUnit :=
  { (History.clocked script rs n).unit script with edge := ⟨rs.clockAt (n + 1)⟩ }

/-- What a clocked script does at its `n + 1`-th update. -/
structure Clocked (script : Script) (rs : Readings) (n : Nat) (now : Times) (m : Component) (bus : Bus) :
    Prop where
  before : m.Answers script rs n bus
  /-- The counter is the number of earlier rises. -/
  counter : (clockedUnit script rs n).runs = (rs.risings n).length
  /-- If the clock rises, the script is invoked and succeeds. -/
  invoked : rs.Rises (n + 1) → m.update now bus = m.runScript (clockedUnit script rs n) bus ∧
    ∃ memory results, script.run (m.read bus).inputs (rs.risings n).length
      (History.clocked script rs n).memory = (memory, .ok results)
  /-- Otherwise it is not, and nothing but the clock is noted. -/
  silent : ¬ rs.Rises (n + 1) →
    m.update now bus = ⟨{ m with kind := .scripted (clockedUnit script rs n) }, bus, none⟩
  after : (m.update now bus).value.Answers script rs (n + 1) (m.update now bus).bus

theorem Answers.update_eq (h : m.Answers script rs n bus) (hr : rs[n]? = some (m.read bus))
    (now : Times) : m.update now bus =
      if rs.Rises (n + 1) then m.runScript (clockedUnit script rs n) bus
      else ⟨{ m with kind := .scripted (clockedUnit script rs n) }, bus, none⟩ := by
  have htrigger : ((History.clocked script rs n).unit script).script.trigger = .clocked := h.trigger
  rw [update_scripted h.kind, updateScripted, fires]
  dsimp only
  rw [htrigger]
  dsimp only
  rw [Readings.rising_eq hr]
  by_cases hrise : rs.Rises (n + 1)
  · rw [if_pos hrise, decide_eq_true hrise]
    rfl
  · rw [if_neg hrise, decide_eq_false hrise]
    rfl

/-- A run that does not fail has given results. -/
theorem run_of_runScript {unit : ScriptUnit} (hok : (m.runScript unit bus).failure = none) :
    ∃ memory results, unit.script.run (m.read bus).inputs unit.runs unit.memory =
      (memory, .ok results) := by
  rw [runScript] at hok
  split at hok
  case h_1 => cases hok
  case h_2 memory results hrun => exact ⟨memory, results, hrun⟩

theorem Answers.update (h : m.Answers script rs n bus) (hn : m.outputs.Nodup)
    (hlt : ∀ id ∈ m.outputs, id < bus.size) (hr : rs[n]? = some (m.read bus))
    (hok : (m.update now bus).failure = none) :
    (m.update now bus).value.Answers script rs (n + 1) (m.update now bus).bus := by
  have hnext := History.clocked_succ script hr
  rw [h.update_eq hr now] at hok ⊢
  split at hok
  case isFalse hrise =>
    rw [if_neg hrise] at hnext ⊢
    refine ⟨h.trigger, ?_, ?_, ?_, ?_⟩
    all_goals rw [hnext]
    exacts [rfl, h.level, h.outputs, h.succeeded]
  case isTrue hrise =>
    rw [if_pos hrise] at hnext ⊢
    obtain ⟨memory, results, hrun⟩ := run_of_runScript hok
    have hcall : script.run (m.read bus).inputs (History.clocked script rs n).runs
        (History.clocked script rs n).memory = (memory, .ok results) := hrun
    obtain ⟨hunit, hbit⟩ := History.call_of_ok hcall
    rw [runScript, hrun]
    refine ⟨h.trigger, ?_, ?_, fun j id hj => ?_, ?_⟩
    all_goals rw [hnext]
    · rw [hunit]
      rfl
    · exact (hbit 0).symm
    · exact (level_results hn hlt hj).trans (hbit j).symm
    · rw [History.call_of_run hcall]
      intro call hmem
      rcases List.mem_append.1 hmem with hmem | hmem
      · exact h.succeeded call hmem
      · obtain rfl := List.mem_singleton.1 hmem
        exact ⟨results, rfl⟩

theorem Answers.clocked (h : m.Answers script rs n bus) (hn : m.outputs.Nodup)
    (hlt : ∀ id ∈ m.outputs, id < bus.size) (hr : rs[n]? = some (m.read bus))
    (hok : (m.update now bus).failure = none) : m.Clocked script rs n now bus := by
  have hcounter : (clockedUnit script rs n).runs = (rs.risings n).length := by
    have hlen := congrArg List.length (History.clocked_inputs script rs n)
    rw [List.length_map, List.length_map] at hlen
    exact h.succeeded.runs_eq.trans hlen
  constructor
  case before => exact h
  case counter => exact hcounter
  case silent => exact fun hrise => (h.update_eq hr now).trans (if_neg hrise)
  case after => exact h.update hn hlt hr hok
  case invoked =>
    intro hrise
    have heq := (h.update_eq hr now).trans (if_pos hrise)
    rw [heq] at hok
    refine ⟨heq, ?_⟩
    rw [← hcounter]
    exact run_of_runScript hok

end Component

end GridCircuit
