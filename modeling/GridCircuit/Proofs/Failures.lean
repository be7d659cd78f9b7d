import GridCircuit.Proofs.Handoff

/-!
# Failure reports

A session is seen as a list of reports: a generation has ended, or the failure was asked for. A
generation that is cancelled leaves the failure of an earlier one in place, and so does the start of
the next. What is reported is therefore the failure of the last generation that failed, which need not
be the last one that ended.
-/

namespace GridCircuit

/-- What happens in a session to failures. -/
inductive Report where
  /-- A generation has come to its end. -/
  | ended (outcome : Outcome)
  /-- The foreground has asked for the failure. -/
  | taken
deriving DecidableEq, Repr

namespace Report

/-- The failure that waits to be asked for after a report. -/
def note (pending : Option SimError) : Report → Option SimError
  | ended (.failed e) => some e
  | ended .cancelled => pending
  | taken => none

/-- A failure waits exactly if it was reported and only cancellations came after it. -/
theorem foldl_note (e : SimError) (reports : List Report) :
    reports.foldl note none = some e ↔ ∃ before after,
      reports = before ++ ended (.failed e) :: after ∧ ∀ r ∈ after, r = ended .cancelled := by
  induction reports using List.reverseRecOn with
  | nil => simp
  | append_singleton reports r ih =>
    rw [List.foldl_append, List.foldl_cons, List.foldl_nil]
    constructor
    · intro h
      match r, h with
      | .ended (.failed e'), h =>
        obtain rfl := Option.some.inj h
        exact ⟨reports, [], rfl, nofun⟩
      | .ended .cancelled, h =>
        obtain ⟨before, after, rfl, hafter⟩ := ih.1 h
        refine ⟨before, after ++ [ended .cancelled], by simp, fun r hr => ?_⟩
        obtain hr | hr := List.mem_append.1 hr
        · exact hafter r hr
        · exact List.mem_singleton.1 hr
    · rintro ⟨before, after, hsplit, hafter⟩
      induction after using List.reverseRecOn with
      | nil =>
        obtain ⟨-, hr⟩ := List.append_inj' hsplit rfl
        rw [List.singleton_inj.1 hr]
        rfl
      | append_singleton after r' _ =>
        rw [← List.cons_append, ← List.append_assoc] at hsplit
        obtain ⟨hreports, hr⟩ := List.append_inj' hsplit rfl
        rw [List.singleton_inj.1 hr, hafter r' (by simp)]
        exact ih.2 ⟨before, after, hreports, fun r hr => hafter r (by simp [hr])⟩

end Report

namespace Simulation

variable {s s' : Simulation}

theorem takeFailure_eq (s : Simulation) : s.takeFailure.2 =
    match s.current?.bind Task.outcome? with
    | some (.failed e) => some e
    | _ => s.failure := by
  rw [takeFailure, collect]
  cases s.current?.bind Task.outcome? with
  | none => rfl
  | some outcome => cases outcome <;> rfl

theorem takeFailure_of_running (h : s.current?.bind Task.outcome? = none) :
    s.takeFailure.2 = s.failure := by
  rw [takeFailure_eq, h]

theorem takeFailure_congr (hfailure : s'.failure = s.failure)
    (houtcome : s'.current?.bind Task.outcome? = s.current?.bind Task.outcome?) :
    s'.takeFailure.2 = s.takeFailure.2 := by
  rw [takeFailure_eq, takeFailure_eq, houtcome, hfailure]

theorem outcome?_collect (s : Simulation) : s.collect.current?.bind Task.outcome? = none := by
  rw [collect]
  split
  case h_1 => rfl
  case h_2 => rfl
  case h_3 h => exact h

/-- Taking note of the end of a generation changes nothing in what is reported. -/
theorem takeFailure_collect (s : Simulation) : s.collect.takeFailure.2 = s.takeFailure.2 :=
  takeFailure_of_running s.outcome?_collect

/-- A failure is reported once. -/
theorem takeFailure_takeFailure (s : Simulation) : s.takeFailure.1.takeFailure.2 = none :=
  takeFailure_of_running (s := s.takeFailure.1) s.outcome?_collect

theorem outcome?_updateTask {generation : Nat} {f : Task → Task}
    (hf : ∀ t, (f t).outcome? = t.outcome?) :
    (s.updateTask generation f).current?.bind Task.outcome? =
      s.current?.bind Task.outcome? := by
  cases hcurrent : s.current with
  | none => rw [current?, current?, updateTask, hcurrent]; rfl
  | some g =>
    rw [current?, current?, updateTask, hcurrent]
    show ((s.updateTask generation f).task? g).bind _ = (s.task? g).bind _
    rw [task?_updateTask, Option.bind_map]
    congr 1
    funext t
    show Task.outcome? (if _ then _ else _) = _
    split
    · exact hf t
    · rfl

theorem takeFailure_cancel (s : Simulation) : s.cancel.takeFailure.2 = s.takeFailure.2 := by
  rw [cancel]
  split
  · exact takeFailure_congr rfl (outcome?_updateTask fun _ => rfl)
  · rfl

theorem takeFailure_toggle (n : Nat) (s : Simulation) :
    (s.toggle n).1.takeFailure.2 = s.takeFailure.2 := by
  rw [toggle]
  split
  · split
    · exact takeFailure_congr rfl (outcome?_updateTask fun _ => rfl)
    · rfl
  · rfl

/-- A generation that follows has not failed yet, and does not wipe out the failure before it. -/
theorem takeFailure_follow (h : s.current?.bind Task.outcome? = none) (next : Option Field) :
    (s.follow next).takeFailure.2 = s.failure := by
  cases next with
  | none => exact takeFailure_of_running h
  | some field =>
    refine takeFailure_of_running (s := s.spawn field) ?_
    show ((s.spawn field).task? s.tasks.size).bind _ = none
    rw [task?_spawn, if_pos rfl]
    rfl

end Simulation

namespace Session

variable {s s' : Session} {m : Move} {e : SimError}

/-- The report that a move makes. -/
def report? (s : Session) : Move → Option Report
  | .call .takeFailure => some .taken
  | .step rs now generation =>
    ((s.sim.task? generation).bind fun t =>
      (t.step rs now s.sim.config.tickDelay s.sim.live).1.outcome?).map .ended
  | _ => none

/-- The reports that a list of moves makes, first one first. -/
def reports (s : Session) : List Move → List Report
  | [] => []
  | m :: ms => (s.report? m).toList ++ (s.move? m).elim [] (·.reports ms)

/-- What is reported changes with the reports and with nothing else. -/
theorem takeFailure_move (hs : s.sim.Sound) (hm : s.move? m = some s') :
    s'.sim.takeFailure.2 = (s.report? m).toList.foldl Report.note s.sim.takeFailure.2 := by
  cases m with
  | call call =>
    rw [move?] at hm
    split at hm
    case h_2 => cases hm
    case h_1 =>
      obtain rfl := Option.some.inj hm
      cases call with
      | request now => exact Simulation.takeFailure_congr rfl rfl
      | poll now field => exact s.sim.takeFailure_collect
      | rebuild field => rfl
      | toggle n => exact s.sim.takeFailure_toggle n
      | setTickDelay ms => exact Simulation.takeFailure_congr rfl rfl
      | setClockPeriod now ms => exact Simulation.takeFailure_congr rfl rfl
      | takeFailure => exact s.sim.takeFailure_takeFailure
      | stop => exact s.sim.takeFailure_cancel
  | cancel =>
    rw [move?] at hm
    split at hm
    case h_2 => cases hm
    case h_1 =>
      obtain rfl := Option.some.inj hm
      exact (Simulation.takeFailure_cancel _).trans (Simulation.takeFailure_congr rfl rfl)
  | join =>
    obtain ⟨-, next, hs'⟩ := move?_join hm
    rw [hs', Simulation.takeFailure_follow s.sim.outcome?_collect]
    rfl
  | step rs now g =>
    obtain ⟨⟨t, ht, hready⟩, hs'⟩ := move?_step hm
    have hend := Task.hasEnded_of_ready hready
    have hcurrent := hs.unfinished g t ht hend
    have hbefore : s.sim.takeFailure.2 = s.sim.failure := by
      refine Simulation.takeFailure_of_running ?_
      rw [Simulation.current?, hcurrent, Option.bind_some, ht, Option.bind_some]
      rw [Task.hasEnded, Option.isSome_eq_false_iff, Option.isNone_iff_eq_none] at hend
      exact hend
    have hafter : s'.sim.current?.bind Task.outcome? =
        (t.step rs now s.sim.config.tickDelay s.sim.live).1.outcome? := by
      rw [hs', Simulation.current?, Simulation.current_stepTask, hcurrent, Option.bind_some,
        Simulation.task?_stepTask ht, Option.bind_some]
    have hfailure : s'.sim.failure = s.sim.failure := by
      rw [hs', Simulation.stepTask, ht]
      rfl
    rw [Simulation.takeFailure_eq, hafter, hfailure, hbefore, report?, ht, Option.bind_some]
    cases (t.step rs now s.sim.config.tickDelay s.sim.live).1.outcome? with
    | none => rfl
    | some outcome => cases outcome <;> rfl
  | write g p =>
    obtain ⟨level, -, rfl⟩ := Option.map_eq_some_iff.1 hm
    exact Simulation.takeFailure_congr rfl rfl

theorem takeFailure_moves {ms : List Move} (hs : s.sim.Sound) (hm : s.moves? ms = some s') :
    s'.sim.takeFailure.2 = (s.reports ms).foldl Report.note s.sim.takeFailure.2 := by
  induction ms generalizing s with
  | nil =>
    obtain rfl := Option.some.inj hm
    rfl
  | cons m ms ih =>
    obtain ⟨u, hu, hm⟩ := Option.bind_eq_some_iff.1 hm
    rw [ih (sound_move hs hu) hm, takeFailure_move hs hu, reports, hu, List.foldl_append]
    rfl

/-- What is reported is the failure of a generation after which none has failed and nobody has asked. -/
theorem takeFailure_eq_some_iff (config : Config) (ms : List Move)
    (h : (start config).moves? ms = some s) (e : SimError) :
    s.sim.takeFailure.2 = some e ↔ ∃ before after,
      (start config).reports ms = before ++ .ended (.failed e) :: after ∧
        ∀ r ∈ after, r = .ended .cancelled := by
  rw [takeFailure_moves (Simulation.sound_ofConfig config) h]
  exact Report.foldl_note e _

end Session

/-- A script that fails whenever it runs. -/
def faultyRegistries : Registries :=
  ⟨#[⟨[⟨"faulty", .script ⟨"faulty", .instant, fun _ _ memory => (memory, .error (.failed "faulty" ""))⟩⟩]⟩]⟩

/-- A battery that reaches the script with its second tick. -/
def sampleFault : Field where
  name := "fault"
  grid := ⟨5, 1, #v[.battery, .output, .wire, .input, .custom 0]⟩
  registry := ⟨0⟩

/-- The first generation fails, and the second one is stopped before its first tick. -/
def sampleRelapse : List Move :=
  [.call (.rebuild sampleFault), .cancel, .join] ++ List.replicate 5 (.step faultyRegistries 0 0) ++
    List.replicate 3 (.step faultyRegistries 5000 0) ++
    [.call (.rebuild sampleLamp), .cancel, .join, .step {} 5000 1, .call .stop, .step {} 5000 1,
      .step {} 5000 1, .join]

theorem sampleRelapse_moves : ∃ s e, (Session.start {}).moves? sampleRelapse = some s ∧
    s.sim.takeFailure.2 = some e := by
  have hrun : ((Session.start {}).moves? sampleRelapse).any
      (fun s => s.sim.takeFailure.2.isSome) = true := by decide +kernel
  simp only [Option.any_eq_true, Option.isSome_iff_exists] at hrun
  obtain ⟨s, hs, e, he⟩ := hrun
  exact ⟨s, e, hs, he⟩

/-- A failure is reported although the last generation was cancelled. -/
theorem sampleRelapse_reported : ∃ s e, (Session.start {}).moves? sampleRelapse = some s ∧
    s.foreground = .free ∧ s.sim.takeFailure.2 = some e ∧
      ((Session.start {}).reports sampleRelapse).getLast? = some (.ended .cancelled) := by
  obtain ⟨s, e, hs, he⟩ := sampleRelapse_moves
  have hfree : ((Session.start {}).moves? sampleRelapse).map (·.foreground) = some .free := by
    rfl
  rw [hs] at hfree
  exact ⟨s, e, hs, Option.some.inj hfree, he, by decide +kernel⟩

theorem sampleRelapse_failed : ∃ s e before after,
    (Session.start {}).moves? sampleRelapse = some s ∧ s.sim.takeFailure.2 = some e ∧
      (Session.start {}).reports sampleRelapse = before ++ .ended (.failed e) :: after ∧
        ∀ r ∈ after, r = .ended .cancelled := by
  obtain ⟨s, e, hs, he⟩ := sampleRelapse_moves
  obtain ⟨before, after, h⟩ := (Session.takeFailure_eq_some_iff {} sampleRelapse hs e).1 he
  exact ⟨s, e, before, after, hs, he, h⟩

end GridCircuit
