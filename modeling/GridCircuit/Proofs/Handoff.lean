import GridCircuit.Proofs.Maps
import GridCircuit.Proofs.Runs
import GridCircuit.Proofs.Schedules

/-!
# Handoff between generations

Whatever the schedule, all tasks but the current one have ended. So only one task writes to the live
view; it empties the view once, and then writes the positions of its circuit, which stay the same. After
a publication the view therefore shows this circuit and nothing else.
-/

namespace GridCircuit

theorem LiveStates.get?_publish (live : LiveStates) (t : StateTable) (p : Pos) :
    (live.publish t).get? p = (t.levelAt? p).or (live.get? p) := by
  have hsorted : t.toList.Pairwise fun a b => compare a.1 b.1 = .lt :=
    List.pairwise_map.2 t.index.sorted
  rw [publish, KeyMap.get?_foldl_insert live hsorted, StateTable.toList, KeyMap.find?_map]
  rfl

namespace Circuit

theorem run_append (actions actions' : List Action) (c : Circuit) :
    c.run (actions ++ actions') = (c.run actions).bind (·.run actions') := by
  induction actions generalizing c with
  | nil => rfl
  | cons action actions ih =>
    cases action with
    | tick now =>
      rw [List.cons_append, run, run]
      split
      case h_1 => exact ih _
      case h_2 => rfl
    | toggle n => exact ih _

theorem run_toggles (events : List Nat) (c : Circuit) :
    c.run (events.map .toggle) = some (c.toggleAll events) := by
  induction events generalizing c with
  | nil => rfl
  | cons n events ih => exact ih _

/-- What a task does to its circuit in one go: it applies the toggles and ticks. -/
theorem run_turn {c c' : Circuit} {events : List Nat} {now : Times}
    (h : (c.toggleAll events).tick now = (c', none)) :
    c.run (events.map .toggle ++ [.tick now]) = some c' := by
  rw [run_append, run_toggles, Option.bind_some, run, h]
  rfl

end Circuit

/-- The circuit that a task has. -/
def Phase.circuit? : Phase → Option Circuit
  | .clearing c | .checking c | .ticking c | .publishing c | .sleeping c _ => some c
  | .building | .ended _ => none

/-- The task has emptied the live view, or has ended. -/
def Phase.settled : Phase → Bool
  | .building | .clearing _ => false
  | _ => true

namespace Task

variable {rs : Registries} {now : Times} {delay : Nat} {t t' : Task} {live : LiveStates} {c : Circuit}
  {actions : List Action}

/-- What a task works on and how far it has come. -/
def work (t : Task) : Field × Nat × Phase := (t.field, t.clockPeriod, t.phase)

/-- The circuit is the one that the field of the task is built into, after a run. -/
def Makes (t : Task) (actions : List Action) (c : Circuit) : Prop :=
  ∃ rs b, t.field.build rs t.clockPeriod = .ok b ∧ b.circuit.run actions = some c

theorem Makes.append (h : t.Makes actions c) {c' : Circuit} {actions' : List Action}
    (hrun : c.run actions' = some c') : t.Makes (actions ++ actions') c' := by
  obtain ⟨rs, b, hb, hc⟩ := h
  exact ⟨rs, b, hb, by rw [Circuit.run_append, hc, Option.bind_some, hrun]⟩

/-- What holds of a task and the live view while no other task writes to it. -/
structure Sound (t : Task) (live : LiveStates) : Prop where
  makes : ∀ c, t.phase.circuit? = some c → ∃ actions, t.Makes actions c
  ticked : ∀ c, t.phase = .publishing c → ∃ actions time, t.Makes (actions ++ [.tick time]) c
  view : t.phase.settled = true → ∀ c, t.phase.circuit? = some c →
    ∀ p, (live.get? p).isSome = true → p ∈ c.covered

theorem Sound.of_hasEnded (h : t.hasEnded = true) : t.Sound live := by
  obtain ⟨field, period, phase, cancelled, toggles⟩ := t
  cases phase with
  | ended outcome => exact ⟨nofun, nofun, fun _ => nofun⟩
  | _ => cases h

/-- Nothing is written yet. -/
theorem Sound.of_building (h : t.phase = .building) : t.Sound live := by
  constructor
  case makes =>
    rw [h]
    exact nofun
  case ticked =>
    rw [h]
    exact nofun
  case view =>
    rw [h]
    exact nofun

theorem Sound.of_work (h : t.Sound live) (hw : t'.work = t.work) : t'.Sound live := by
  obtain ⟨field, period, phase, cancelled, toggles⟩ := t
  obtain ⟨field', period', phase', cancelled', toggles'⟩ := t'
  obtain ⟨rfl, rfl, rfl⟩ : field' = field ∧ period' = period ∧ phase' = phase := by
    simpa [work] using hw
  exact ⟨h.makes, h.ticked, h.view⟩

theorem Sound.insert (h : t.Sound live) {p : Pos} {level : Bool} (hphase : t.phase = .publishing c)
    (hp : (c.levelAt? p).isSome = true) : t.Sound (live.insert p level) := by
  refine ⟨h.makes, h.ticked, fun hs d hd q hq => ?_⟩
  rw [KeyMap.get?_insert] at hq
  split at hq
  case isTrue he =>
    rw [StateTable.compare_eq_iff] at he
    rw [hphase] at hd
    obtain rfl := Option.some.inj hd
    rw [he]
    exact Circuit.levelAt?_isSome.1 hp
  case isFalse => exact h.view hs d hd q hq

/-- A step of a task keeps what holds of it. -/
theorem Sound.step (h : t.Sound live) :
    (t.step rs now delay live).1.Sound (t.step rs now delay live).2 := by
  obtain ⟨field, period, phase, cancelled, toggles⟩ := t
  cases phase with
  | building =>
    dsimp only [Task.step]
    split
    case h_1 b hb =>
      constructor
      case makes =>
        intro c hc
        obtain rfl := Option.some.inj hc
        exact ⟨[], rs, b, hb, rfl⟩
      case ticked => exact nofun
      case view => exact nofun
    case h_2 => exact .of_hasEnded rfl
  | clearing c =>
    exact ⟨h.makes, nofun, fun _ _ _ _ => nofun⟩
  | checking c =>
    cases cancelled with
    | true => exact .of_hasEnded rfl
    | false => exact ⟨h.makes, nofun, h.view⟩
  | ticking c =>
    obtain ⟨actions, hmakes⟩ := h.makes c rfl
    dsimp only [Task.step]
    split
    case h_1 c' hc' =>
      have hrun := Circuit.run_turn hc'
      have hlayout := Circuit.covered_of_layout (Circuit.run_layout hrun)
      constructor
      case makes =>
        intro d hd
        obtain rfl := Option.some.inj hd
        exact ⟨_, hmakes.append hrun⟩
      case ticked =>
        intro d hd
        cases hd
        have hticked := hmakes.append hrun
        rw [← List.append_assoc] at hticked
        exact ⟨_, _, hticked⟩
      case view =>
        intro _ d hd p hp
        obtain rfl := Option.some.inj hd
        rw [hlayout]
        exact h.view rfl c rfl p hp
    case h_2 => exact .of_hasEnded rfl
  | publishing c =>
    refine ⟨h.makes, nofun, fun _ d hd p hp => ?_⟩
    obtain rfl := Option.some.inj hd
    dsimp only [Task.step] at hp
    rw [LiveStates.get?_publish, Option.isSome_or, Bool.or_eq_true] at hp
    exact hp.elim Circuit.levelAt?_isSome.1 (h.view rfl c rfl p)
  | sleeping c wakeAt =>
    dsimp only [Task.step]
    split
    case isTrue => exact ⟨h.makes, nofun, h.view⟩
    case isFalse => exact h
  | ended outcome => exact h

theorem showing?_eq_some {p : Pos} {level : Bool} (h : t.showing? p = some level) :
    ∃ c, t.phase = .publishing c ∧ c.levelAt? p = some level := by
  rw [showing?] at h
  split at h
  case h_1 c hphase => exact ⟨c, hphase, h⟩
  case h_2 => cases h

theorem hasEnded_of_publishing (h : t.phase = .publishing c) : t.hasEnded = false := by
  rw [hasEnded, outcome?, h]
  rfl

theorem hasEnded_of_ready (h : t.ready now = true) : t.hasEnded = false := by
  obtain ⟨field, period, phase, cancelled, toggles⟩ := t
  cases phase <;> first | rfl | cases h

theorem hasEnded_of_work (h : t'.work = t.work) : t'.hasEnded = t.hasEnded := by
  have hphase : t'.phase = t.phase := congrArg (·.2.2) h
  rw [hasEnded, outcome?, hphase]
  rfl

/-- Once the view is emptied, only publishing changes it. -/
theorem step_of_settled (rs : Registries) (now : Times) (delay : Nat) (live : LiveStates)
    (h : t.phase.settled = true) (hp : ∀ c, t.phase ≠ .publishing c) :
    (t.step rs now delay live).2 = live ∧ (t.step rs now delay live).1.phase.settled = true := by
  obtain ⟨field, period, phase, cancelled, toggles⟩ := t
  cases phase with
  | building => cases h
  | clearing c => cases h
  | checking c => cases cancelled <;> exact ⟨rfl, rfl⟩
  | ticking c =>
    dsimp only [Task.step]
    split <;> exact ⟨rfl, rfl⟩
  | publishing c => exact absurd rfl (hp c)
  | sleeping c wakeAt =>
    dsimp only [Task.step]
    split <;> exact ⟨rfl, rfl⟩
  | ended outcome => exact ⟨rfl, rfl⟩

theorem step_of_publishing (rs : Registries) (now : Times) (delay : Nat) (live : LiveStates)
    (hphase : t.phase = .publishing c) :
    (t.step rs now delay live).2 = live.publish c.states ∧
      (t.step rs now delay live).1.phase.settled = true := by
  rw [step, hphase]
  exact ⟨rfl, rfl⟩

end Task

namespace Simulation

variable {rs : Registries} {now : Times} {generation g : Nat} {s s' : Simulation} {t : Task} {c : Circuit}

theorem task?_updateTask (s : Simulation) (generation g : Nat) (f : Task → Task) :
    (s.updateTask generation f).task? g =
      (s.task? g).map fun t => if generation = g then f t else t := by
  show (s.tasks.modify generation f)[g]? = _
  rw [Array.getElem?_modify]
  split <;> simp [task?]

/-- What the foreground does to tasks: it cancels them, sends them toggles, and takes note that the
current one has ended. -/
structure Handles (s s' : Simulation) : Prop where
  live_eq : s'.live = s.live
  work_eq : ∀ g, (s'.task? g).map Task.work = (s.task? g).map Task.work
  current : s'.current = s.current ∨ s'.current = none ∧ s.isRunning = false

theorem Handles.refl (s : Simulation) : Handles s s := ⟨rfl, fun _ => rfl, .inl rfl⟩

theorem Handles.of_tasks (hlive : s'.live = s.live) (htasks : s'.tasks = s.tasks)
    (hcurrent : s'.current = s.current) : Handles s s' := by
  refine ⟨hlive, fun g => ?_, .inl hcurrent⟩
  rw [task?, htasks]
  rfl

theorem Handles.updateTask {f : Task → Task} (hf : ∀ t, (f t).work = t.work) :
    Handles s (s.updateTask generation f) := by
  refine ⟨rfl, fun g => ?_, .inl rfl⟩
  show ((s.tasks.modify generation f)[g]?).map Task.work = _
  rw [Array.getElem?_modify]
  split
  case isTrue h =>
    subst h
    rw [Option.map_map]
    exact Option.map_congr fun t _ => hf t
  case isFalse => rfl

theorem handles_cancel (s : Simulation) : Handles s s.cancel := by
  rw [cancel]
  split
  · exact .updateTask fun _ => rfl
  · exact .refl s

theorem handles_toggle (n : Nat) (s : Simulation) : Handles s (s.toggle n).1 := by
  rw [toggle]
  split
  · split
    · exact .updateTask fun _ => rfl
    · exact .refl s
  · exact .refl s

/-- An outcome is taken from a task that has ended only. -/
theorem isRunning_of_outcome {outcome : Outcome} (h : s.current?.bind Task.outcome? = some outcome) :
    s.isRunning = false := by
  obtain ⟨t, ht, ho⟩ := Option.bind_eq_some_iff.1 h
  rw [isRunning, ht, Option.any_some, Task.hasEnded, ho]
  rfl

theorem handles_collect (s : Simulation) : Handles s s.collect := by
  rw [collect]
  split
  case h_1 h => exact ⟨rfl, fun _ => rfl, .inr ⟨rfl, isRunning_of_outcome h⟩⟩
  case h_2 e h => exact ⟨rfl, fun _ => rfl, .inr ⟨rfl, isRunning_of_outcome h⟩⟩
  case h_3 => exact .refl s

/-- No call starts a task or moves one. -/
theorem handles_begin (s : Simulation) (call : Call) : Handles s (s.begin call).sim := by
  cases call with
  | request now => exact .of_tasks rfl rfl rfl
  | poll now field => exact s.handles_collect
  | rebuild field => exact .refl s
  | toggle n => exact s.handles_toggle n
  | setTickDelay ms => exact .of_tasks rfl rfl rfl
  | setClockPeriod now ms => exact .of_tasks rfl rfl rfl
  | takeFailure =>
    have h := s.handles_collect
    exact ⟨h.live_eq, h.work_eq, h.current⟩
  | stop => exact s.handles_cancel

theorem Handles.task_before (h : Handles s s') (ht : s'.task? g = some t) :
    ∃ t', s.task? g = some t' ∧ t.work = t'.work := by
  have hw := h.work_eq g
  rw [ht, Option.map_some, eq_comm, Option.map_eq_some_iff] at hw
  obtain ⟨t', ht', hw⟩ := hw
  exact ⟨t', ht', hw.symm⟩

theorem Handles.task_after (h : Handles s s') (ht : s.task? g = some t) :
    ∃ t', s'.task? g = some t' ∧ t'.work = t.work := by
  have hw := h.work_eq g
  rwa [ht, Option.map_some, Option.map_eq_some_iff] at hw

/-- All tasks but the current one have ended, and each is sound. -/
structure Sound (s : Simulation) : Prop where
  unfinished : ∀ g t, s.task? g = some t → t.hasEnded = false → s.current = some g
  tasks : ∀ g t, s.task? g = some t → t.Sound s.live

theorem sound_ofConfig (config : Config) : (ofConfig config).Sound := ⟨nofun, nofun⟩

theorem Sound.hasEnded (h : s.Sound) (hr : s.isRunning = false) (ht : s.task? g = some t) :
    t.hasEnded = true := by
  by_contra hne
  rw [Bool.not_eq_true] at hne
  rw [isRunning_eq (h.unfinished g t ht hne), ht, Option.any_some, hne] at hr
  cases hr

/-- While one task has not ended, all others have. -/
theorem Sound.others (h : s.Sound) (hcurrent : s.current = some generation) (hg : g ≠ generation)
    (ht : s.task? g = some t) : t.hasEnded = true := by
  by_contra hne
  rw [Bool.not_eq_true] at hne
  exact hg (Option.some.inj ((h.unfinished g t ht hne).symm.trans hcurrent))

theorem Sound.handles (h : s.Sound) (hs : Handles s s') : s'.Sound := by
  constructor
  case unfinished =>
    intro g t ht hend
    obtain ⟨t', ht', hw⟩ := hs.task_before ht
    rw [Task.hasEnded_of_work hw] at hend
    obtain hc | ⟨-, hr⟩ := hs.current
    · rw [hc, h.unfinished g t' ht' hend]
    · rw [h.hasEnded hr ht'] at hend
      cases hend
  case tasks =>
    intro g t ht
    obtain ⟨t', ht', hw⟩ := hs.task_before ht
    rw [hs.live_eq]
    exact (h.tasks g t' ht').of_work hw

theorem task?_spawn (field : Field) (s : Simulation) (g : Nat) : (s.spawn field).task? g =
    if g = s.tasks.size then some { field, clockPeriod := s.config.clockPeriod } else s.task? g :=
  Array.getElem?_push

theorem Sound.spawn (h : s.Sound) (hend : ∀ g t, s.task? g = some t → t.hasEnded = true)
    (field : Field) : (s.spawn field).Sound := by
  constructor
  case unfinished =>
    intro g t ht ht'
    rw [task?_spawn] at ht
    split at ht
    case isTrue hg => rw [hg]; rfl
    case isFalse =>
      rw [hend g t ht] at ht'
      cases ht'
  case tasks =>
    intro g t ht
    rw [task?_spawn] at ht
    split at ht
    case isTrue =>
      obtain rfl := Option.some.inj ht
      exact .of_building rfl
    case isFalse => exact h.tasks g t ht

/-- A generation that follows leaves the tasks before it alone. -/
theorem task?_follow (next : Option Field) (ht : s.task? g = some t) :
    (s.follow next).task? g = some t := by
  cases next with
  | none => exact ht
  | some field =>
    have hlt : g < s.tasks.size := (Array.getElem?_eq_some_iff.1 ht).1
    exact (task?_spawn field s g).trans ((if_neg (Nat.ne_of_lt hlt)).trans ht)

theorem Sound.follow (h : s.Sound) (hr : s.isRunning = false) (next : Option Field) :
    (s.collect.follow next).Sound := by
  have hc := h.handles s.handles_collect
  cases next with
  | none => exact hc
  | some field =>
    refine hc.spawn (fun g t ht => ?_) field
    obtain ⟨t', ht', hw⟩ := s.handles_collect.task_before ht
    rw [Task.hasEnded_of_work hw]
    exact h.hasEnded hr ht'

theorem task?_stepTask_of_ne (h : g ≠ generation) :
    (s.stepTask rs now generation).task? g = s.task? g := by
  rw [stepTask]
  split
  case h_1 t ht =>
    show (s.tasks.modify generation _)[g]? = _
    rw [Array.getElem?_modify, if_neg h.symm]
    rfl
  case h_2 => rfl

theorem live_stepTask (ht : s.task? generation = some t) :
    (s.stepTask rs now generation).live = (t.step rs now s.config.tickDelay s.live).2 := by
  rw [stepTask, ht]

theorem Sound.stepTask (h : s.Sound) (ht : s.task? generation = some t) (hr : t.ready now = true) :
    (s.stepTask rs now generation).Sound := by
  have hcurrent := h.unfinished generation t ht (Task.hasEnded_of_ready hr)
  constructor
  case unfinished =>
    intro g u hu hend
    rw [current_stepTask]
    by_cases hg : g = generation
    · rw [hg, hcurrent]
    · rw [task?_stepTask_of_ne hg] at hu
      exact h.unfinished g u hu hend
  case tasks =>
    intro g u hu
    by_cases hg : g = generation
    · subst hg
      rw [task?_stepTask ht] at hu
      obtain rfl := Option.some.inj hu
      rw [live_stepTask ht]
      exact (h.tasks g t ht).step
    · rw [task?_stepTask_of_ne hg] at hu
      exact .of_hasEnded (h.others hcurrent hg hu)

theorem Sound.write (h : s.Sound) {p : Pos} {level : Bool} (ht : s.task? generation = some t)
    (hshow : t.showing? p = some level) : Sound { s with live := s.live.insert p level } := by
  obtain ⟨c, hphase, hlevel⟩ := Task.showing?_eq_some hshow
  have hcurrent := h.unfinished generation t ht (Task.hasEnded_of_publishing hphase)
  refine ⟨h.unfinished, fun g u hu => ?_⟩
  by_cases hg : g = generation
  · subst hg
    obtain rfl := Option.some.inj (ht.symm.trans hu)
    exact (h.tasks g t ht).insert hphase (by rw [hlevel]; rfl)
  · exact .of_hasEnded (h.others hcurrent hg hu)

/-- The generation does not empty the view any more, and as long as it is the current one, the view is
what its circuit shows. -/
structure Shows (s : Simulation) (g : Nat) (c : Circuit) : Prop where
  settled : ∃ t, s.task? g = some t ∧ t.phase.settled = true
  view : s.current = some g → ∀ p, s.live.get? p = c.levelAt? p

theorem Shows.handles (h : s.Shows g c) (hs : Handles s s') : s'.Shows g c := by
  constructor
  case settled =>
    obtain ⟨t, ht, hset⟩ := h.settled
    obtain ⟨t', ht', hw⟩ := hs.task_after ht
    have hphase : t'.phase = t.phase := congrArg (·.2.2) hw
    exact ⟨t', ht', hphase ▸ hset⟩
  case view =>
    intro hcurrent p
    rw [hs.live_eq]
    obtain he | ⟨hnone, -⟩ := hs.current
    · exact h.view (he ▸ hcurrent) p
    · rw [hnone] at hcurrent
      cases hcurrent

theorem Shows.follow (h : s.Shows g c) (next : Option Field) : (s.follow next).Shows g c := by
  obtain ⟨t, ht, hset⟩ := h.settled
  refine ⟨⟨t, task?_follow next ht, hset⟩, fun hcurrent => ?_⟩
  cases next with
  | none => exact h.view hcurrent
  | some field =>
    have hlt : g < s.tasks.size := (Array.getElem?_eq_some_iff.1 ht).1
    have hg : s.tasks.size = g := Option.some.inj hcurrent
    exact absurd hg (Nat.ne_of_gt hlt)

/-- Only the generation itself changes what it has published, and only by publishing again. -/
theorem Shows.stepTask (h : s.Shows g c) (hs : s.Sound) (ht : s.task? generation = some t)
    (hr : t.ready now = true) (hq : generation = g → ∀ d, t.phase ≠ .publishing d) :
    (s.stepTask rs now generation).Shows g c := by
  have hcurrent := hs.unfinished generation t ht (Task.hasEnded_of_ready hr)
  obtain ⟨u, hu, hset⟩ := h.settled
  by_cases hg : g = generation
  · subst hg
    obtain rfl := Option.some.inj (ht.symm.trans hu)
    obtain ⟨hlive, hset'⟩ :=
      Task.step_of_settled rs now s.config.tickDelay s.live hset (hq rfl)
    refine ⟨⟨_, task?_stepTask ht, hset'⟩, fun _ => ?_⟩
    rw [live_stepTask ht, hlive]
    exact h.view hcurrent
  · refine ⟨⟨u, (task?_stepTask_of_ne hg).trans hu, hset⟩, fun hcurrent' => ?_⟩
    rw [current_stepTask, hcurrent] at hcurrent'
    exact absurd (Option.some.inj hcurrent').symm hg

theorem Shows.write (h : s.Shows g c) (hs : s.Sound) {d : Circuit} {p : Pos} {level : Bool}
    (ht : s.task? generation = some t) (hphase : t.phase = .publishing d) (hg : generation ≠ g) :
    Shows { s with live := s.live.insert p level } g c := by
  have hcurrent := hs.unfinished generation t ht (Task.hasEnded_of_publishing hphase)
  exact ⟨h.settled, fun hcurrent' =>
    absurd (Option.some.inj (hcurrent.symm.trans hcurrent')) hg⟩

/-- A publication that is completed shows the circuit and nothing else. -/
theorem shows_of_publishing (hs : s.Sound) (ht : s.task? g = some t)
    (hphase : t.phase = .publishing c) : (s.stepTask rs now g).Shows g c := by
  obtain ⟨hlive, hset⟩ := Task.step_of_publishing rs now s.config.tickDelay s.live hphase
  refine ⟨⟨_, task?_stepTask ht, hset⟩, fun _ p => ?_⟩
  rw [live_stepTask ht, hlive, LiveStates.get?_publish]
  show (c.levelAt? p).or (s.live.get? p) = c.levelAt? p
  cases hc : c.levelAt? p with
  | some level => rfl
  | none =>
    have hview := (hs.tasks g t ht).view (by rw [hphase]; rfl) c (by rw [hphase]; rfl) p
    rw [← Circuit.levelAt?_isSome, hc] at hview
    rw [Option.none_or, ← Option.not_isSome_iff_eq_none]
    exact fun hsome => Bool.false_ne_true (hview hsome)

end Simulation

namespace Session

variable {g : Nat} {s s' u : Session} {m : Move} {t : Task} {c : Circuit}

theorem move?_join (h : s.move? .join = some s') :
    s.sim.isRunning = false ∧ ∃ next, s'.sim = s.sim.collect.follow next := by
  rw [move?] at h
  split at h
  case h_1 next hnext =>
    split at h
    case isTrue => cases h
    case isFalse hr =>
      obtain rfl := Option.some.inj h
      exact ⟨by simpa using hr, next, rfl⟩
  case h_2 => cases h

theorem move?_step {rs : Registries} {now : Times} (h : s.move? (.step rs now g) = some s') :
    (∃ t, s.sim.task? g = some t ∧ t.ready now = true) ∧ s'.sim = s.sim.stepTask rs now g := by
  rw [move?] at h
  split at h
  case isTrue hready =>
    obtain rfl := Option.some.inj h
    exact ⟨(Option.any_eq_true _ _).1 hready, rfl⟩
  case isFalse => cases h

/-- What a move does to the simulation. -/
theorem move?_cases (h : s.move? m = some s') :
    (m.generation? = none ∧ Simulation.Handles s.sim s'.sim) ∨
      (∃ next, m = .join ∧ s.sim.isRunning = false ∧ s'.sim = s.sim.collect.follow next) ∨
      (∃ rs now g t, m = .step rs now g ∧ s.sim.task? g = some t ∧ t.ready now = true ∧
        s'.sim = s.sim.stepTask rs now g) ∨
      ∃ g p t level, m = .write g p ∧ s.sim.task? g = some t ∧ t.showing? p = some level ∧
        s'.sim = { s.sim with live := s.sim.live.insert p level } := by
  cases m with
  | call call =>
    rw [move?] at h
    split at h
    case h_1 =>
      obtain rfl := Option.some.inj h
      exact .inl ⟨rfl, s.sim.handles_begin call⟩
    case h_2 => cases h
  | cancel =>
    rw [move?] at h
    split at h
    case h_1 field hf =>
      obtain rfl := Option.some.inj h
      have hcancel := Simulation.handles_cancel { s.sim with dirtySince := none }
      exact .inl ⟨rfl, hcancel.live_eq, hcancel.work_eq, hcancel.current⟩
    case h_2 => cases h
  | join =>
    obtain ⟨hr, next, hs⟩ := move?_join h
    exact .inr (.inl ⟨next, rfl, hr, hs⟩)
  | step rs now g =>
    obtain ⟨⟨t, ht, hready⟩, hs⟩ := move?_step h
    exact .inr (.inr (.inl ⟨rs, now, g, t, rfl, ht, hready, hs⟩))
  | write g p =>
    obtain ⟨level, hlevel, rfl⟩ := Option.map_eq_some_iff.1 h
    obtain ⟨t, ht, hshow⟩ := Option.bind_eq_some_iff.1 hlevel
    exact .inr (.inr (.inr ⟨g, p, t, level, rfl, ht, hshow, rfl⟩))

theorem sound_move (h : s.sim.Sound) (hm : s.move? m = some s') : s'.sim.Sound := by
  obtain ⟨-, hs⟩ | ⟨next, -, hr, hs⟩ | ⟨rs, now, g, t, -, ht, hr, hs⟩ |
    ⟨g, p, t, level, -, ht, hshow, hs⟩ := move?_cases hm
  · exact h.handles hs
  · rw [hs]
    exact h.follow hr next
  · rw [hs]
    exact h.stepTask ht hr
  · rw [hs]
    exact h.write ht hshow

theorem sound_of_reaches (h : s.sim.Sound) (hr : s.Reaches s') : s'.sim.Sound := by
  induction hr with
  | refl => exact h
  | tail _ hstep ih =>
    obtain ⟨m, hm⟩ := hstep
    exact sound_move ih hm

/-- A task that has ended stays as it is, but for toggles that nobody reads. -/
theorem hasEnded_move (ht : s.sim.task? g = some t) (hend : t.hasEnded = true)
    (hm : s.move? m = some s') : ∃ t', s'.sim.task? g = some t' ∧ t'.hasEnded = true := by
  obtain ⟨-, hs⟩ | ⟨next, -, -, hs⟩ | ⟨rs, now, g', t', -, ht', hready, hs⟩ |
    ⟨g', p, t', level, -, -, -, hs⟩ := move?_cases hm
  · obtain ⟨t', ht', hw⟩ := hs.task_after ht
    exact ⟨t', ht', (Task.hasEnded_of_work hw).trans hend⟩
  · obtain ⟨t', ht', hw⟩ := s.sim.handles_collect.task_after ht
    rw [hs]
    exact ⟨t', Simulation.task?_follow next ht', (Task.hasEnded_of_work hw).trans hend⟩
  · have hg : g ≠ g' := by
      rintro rfl
      obtain rfl := Option.some.inj (ht.symm.trans ht')
      rw [Task.hasEnded_of_ready hready] at hend
      cases hend
    rw [hs]
    exact ⟨t, (Simulation.task?_stepTask_of_ne hg).trans ht, hend⟩
  · rw [hs]
    exact ⟨t, ht, hend⟩

theorem hasEnded_of_reaches (ht : s.sim.task? g = some t) (hend : t.hasEnded = true)
    (hr : s.Reaches s') : ∃ t', s'.sim.task? g = some t' ∧ t'.hasEnded = true := by
  induction hr with
  | refl => exact ⟨t, ht, hend⟩
  | tail _ hstep ih =>
    obtain ⟨t', ht', hend'⟩ := ih
    obtain ⟨m, hm⟩ := hstep
    exact hasEnded_move ht' hend' hm

/-- A task that has ended makes no move. -/
theorem move?_of_hasEnded (ht : s.sim.task? g = some t) (hend : t.hasEnded = true)
    (hg : m.generation? = some g) : s.move? m = none := by
  cases m with
  | step rs now g' =>
    obtain rfl := Option.some.inj hg
    refine if_neg fun hready => ?_
    rw [ht, Option.any_some] at hready
    rw [Task.hasEnded_of_ready hready] at hend
    cases hend
  | write g' p =>
    obtain rfl := Option.some.inj hg
    have hnone : t.showing? p = none := by
      rw [Option.eq_none_iff_forall_ne_some]
      intro level hshow
      obtain ⟨c, hphase, -⟩ := Task.showing?_eq_some hshow
      rw [Task.hasEnded_of_publishing hphase] at hend
      cases hend
    rw [move?, ht, Option.bind_some, hnone]
    rfl
  | call call => cases hg
  | cancel => cases hg
  | join => cases hg

/-- The task of the generation publishes, and the move is its own. -/
def Publishes (s : Session) (g : Nat) (m : Move) : Prop :=
  m.generation? = some g ∧ ∃ t c, s.sim.task? g = some t ∧ t.phase = .publishing c

/-- Some schedule leads from one state to another in which a generation publishes nothing. -/
def Quiet (g : Nat) : Session → Session → Prop :=
  Relation.ReflTransGen fun s s' => ∃ m, s.move? m = some s' ∧ ¬s.Publishes g m

theorem Shows.move (h : s.sim.Shows g c) (hs : s.sim.Sound) (hm : s.move? m = some s')
    (hq : ¬s.Publishes g m) : s'.sim.Shows g c := by
  obtain ⟨-, hs'⟩ | ⟨next, -, -, hs'⟩ | ⟨rs, now, g', t, rfl, ht, hready, hs'⟩ |
    ⟨g', p, t, level, rfl, ht, hshow, hs'⟩ := move?_cases hm
  · exact h.handles hs'
  · rw [hs']
    exact (h.handles s.sim.handles_collect).follow next
  · rw [hs']
    refine h.stepTask hs ht hready ?_
    rintro rfl d hphase
    exact hq ⟨rfl, t, d, ht, hphase⟩
  · obtain ⟨d, hphase, -⟩ := Task.showing?_eq_some hshow
    rw [hs']
    refine h.write hs ht hphase ?_
    rintro rfl
    exact hq ⟨rfl, t, d, ht, hphase⟩

theorem shows_of_quiet (h : s.sim.Shows g c) (hs : s.sim.Sound) (hr : Quiet g s s') :
    s'.sim.Shows g c := by
  have hboth : s'.sim.Sound ∧ s'.sim.Shows g c := by
    induction hr with
    | refl => exact ⟨hs, h⟩
    | tail _ hstep ih =>
      obtain ⟨m, hm, hq⟩ := hstep
      exact ⟨sound_move ih.1 hm, Shows.move ih.2 ih.1 hm hq⟩
  exact hboth.2

/-- Generations take turns, and the view is that of the one that has published. -/
theorem handoff (config : Config) (h : (start config).Reaches s) :
    (∀ g g' t t', s.sim.task? g = some t → s.sim.task? g' = some t' → t.hasEnded = false →
      t'.hasEnded = false → g = g') ∧
    (∀ s' u, s.move? .join = some s' → s'.Reaches u → ∀ g < s.sim.tasks.size, ∀ m : Move,
      m.generation? = some g → u.move? m = none) ∧
    (∀ g t c rs now s' u, s.sim.task? g = some t → t.phase = .publishing c →
      s.move? (.step rs now g) = some s' → Quiet g s' u → u.sim.current = some g →
        (∃ actions time, t.Makes (actions ++ [.tick time]) c) ∧
          ∀ p, u.sim.live.get? p = c.levelAt? p) := by
  have hs := sound_of_reaches (Simulation.sound_ofConfig config) h
  refine ⟨?_, ?_, ?_⟩
  · intro g g' t t' ht ht' hend hend'
    exact Option.some.inj ((hs.unfinished g t ht hend).symm.trans (hs.unfinished g' t' ht' hend'))
  · intro s' u hm hr g hlt m hg
    have ht : s.sim.task? g = some s.sim.tasks[g] := Array.getElem?_eq_getElem hlt
    have hend := hs.hasEnded (move?_join hm).1 ht
    obtain ⟨t, ht, hend⟩ := hasEnded_of_reaches ht hend (.head ⟨.join, hm⟩ hr)
    exact move?_of_hasEnded ht hend hg
  · intro g t c rs now s' u ht hphase hm hr hcurrent
    refine ⟨(hs.tasks g t ht).ticked c hphase, ?_⟩
    have hshows : s'.sim.Shows g c := by
      rw [(move?_step hm).2]
      exact Simulation.shows_of_publishing hs ht hphase
    exact (shows_of_quiet hshows (sound_move hs hm) hr).view hcurrent

end Session

/-- A lamp is shown and toggled, and its task ends while the foreground waits to replace it. -/
def sampleTurns : List Move :=
  [.call (.rebuild sampleLamp), .cancel, .join, .step {} 0 0, .step {} 0 0, .step {} 1 0,
    .step {} 1 0, .write 0 ⟨2, 0⟩, .step {} 2 0, .call (.toggle 0), .call (.rebuild sampleField),
    .cancel, .step {} 3 0, .step {} 3 0]

/-- The next generation comes to its first publication. -/
def sampleSuccession : List Move :=
  [.step {} 4 1, .step {} 4 1, .call (.setTickDelay 5), .step {} 5 1, .step {} 5 1, .write 1 ⟨0, 0⟩]

theorem sampleTurns_handoff : ∃ s s' u v t c, (Session.start {}).moves? sampleTurns = some s ∧
    s.sim.tasks.size = 1 ∧ s.move? .join = some s' ∧ s'.moves? sampleSuccession = some u ∧
    (∀ m : Move, m.generation? = some 0 → u.move? m = none) ∧
    u.sim.task? 1 = some t ∧ t.phase = .publishing c ∧ u.move? (.step {} 6 1) = some v ∧
    ∀ p, v.sim.live.get? p = c.levelAt? p := by
  have hrun : (((Session.start {}).moves? sampleTurns).any fun s =>
      decide (s.sim.tasks.size = 1) && (s.move? .join).any fun s' =>
        (s'.moves? sampleSuccession).any fun u => ((u.sim.task? 1).any fun t =>
          (t.showing? ⟨0, 0⟩).isSome) && (u.move? (.step {} 6 1)).any fun v =>
            decide (v.sim.current = some 1)) = true := by decide +kernel
  simp only [Option.any_eq_true, Bool.and_eq_true, decide_eq_true_eq,
    Option.isSome_iff_exists] at hrun
  obtain ⟨s, hs, hsize, s', hjoin, u, hu, ⟨t, ht, level, hshow⟩, v, hv, hcurrent⟩ := hrun
  obtain ⟨c, hphase, -⟩ := Task.showing?_eq_some hshow
  have hreach := Session.reaches_of_moves? hs
  have hnext := Session.reaches_of_moves? hu
  have hturn := (hreach.tail ⟨_, hjoin⟩).trans hnext
  have hidle := (Session.handoff {} hreach).2.1 s' u hjoin hnext 0 (by rw [hsize]; decide)
  have hview := (Session.handoff {} hturn).2.2 1 t c {} 6 v v ht hphase hv .refl hcurrent
  exact ⟨s, s', u, v, t, c, hs, hsize, hjoin, hu, hidle, ht, hphase, hv, hview.2⟩

end GridCircuit
