import GridCircuit.Proofs.Deliveries

/-!
# Toggles arrive in order

Whatever the schedule, what a generation has applied, what it has taken and what waits for it make up,
in this order, what was sent to it. A circuit is therefore what its field is built into after ticks and
exactly the toggles applied, and the level of a button is the parity of its toggles among these.
-/

namespace GridCircuit

namespace Task

variable {t t' : Task} {turn : Turn} {done : List Nat} {c : Circuit} {rs : Registries}
  {now : Times} {delay : Nat} {live : LiveStates}

/-- The circuit of a task is what its field is built into, after a run that toggles what is on the
account as done; and only in the midst of a turn is something taken. -/
structure Accounts (t : Task) (turn : Turn) (done : List Nat) : Prop where
  idle : (∀ c, t.phase ≠ .ticking c) → turn = .taking []
  makes : ∀ c, t.phase.circuit? = some c → ∃ actions, t.Makes actions c ∧ Action.toggles actions = done
  unbuilt : t.phase = .building → done = []

theorem Accounts.of_building (h : t.phase = .building) : t.Accounts (.taking []) [] := by
  refine ⟨fun _ => rfl, fun c hc => ?_, fun _ => rfl⟩
  rw [h] at hc
  cases hc

theorem Accounts.of_work (h : t.Accounts turn done) (hw : t'.work = t.work) :
    t'.Accounts turn done := by
  obtain ⟨field, period, phase, cancelled, toggles⟩ := t
  obtain ⟨field', period', phase', cancelled', toggles'⟩ := t'
  obtain ⟨rfl, rfl, rfl⟩ : field' = field ∧ period' = period ∧ phase' = phase := by
    simpa [work] using hw
  exact ⟨h.idle, h.makes, h.unbuilt⟩

theorem Accounts.of_hasEnded (ht : t.hasEnded = true) : t.Accounts (.taking []) done := by
  obtain ⟨field, period, phase, cancelled, toggles⟩ := t
  cases phase with
  | ended outcome => exact ⟨fun _ => rfl, nofun, nofun⟩
  | _ => cases ht

/-- Steps between turns toggle nothing. -/
theorem Accounts.step (h : t.Accounts turn done) (hp : ∀ c, t.phase ≠ .ticking c) :
    (t.step rs now delay live).1.Accounts turn done := by
  obtain rfl := h.idle hp
  obtain ⟨field, period, phase, cancelled, toggles⟩ := t
  cases phase with
  | building =>
    dsimp only [Task.step]
    split
    case h_1 b hb =>
      refine ⟨fun _ => rfl, fun c hc => ?_, nofun⟩
      obtain rfl := Option.some.inj hc
      exact ⟨[], ⟨rs, b, hb, rfl⟩, (h.unbuilt rfl).symm⟩
    case h_2 => exact .of_hasEnded rfl
  | clearing c => exact ⟨fun _ => rfl, h.makes, nofun⟩
  | checking c =>
    cases cancelled with
    | true => exact .of_hasEnded rfl
    | false => exact ⟨fun _ => rfl, h.makes, nofun⟩
  | ticking c => exact absurd rfl (hp c)
  | publishing c => exact ⟨fun _ => rfl, h.makes, nofun⟩
  | sleeping c wakeAt =>
    dsimp only [Task.step]
    split
    case isTrue => exact ⟨fun _ => rfl, h.makes, nofun⟩
    case isFalse => exact h
  | ended outcome => exact h

/-- Applying a batch puts it on the account. -/
theorem Accounts.apply (h : t.Accounts turn done) (hp : t.phase = .ticking c) (batch : List Nat) :
    Accounts { t with phase := .ticking (c.toggleAll batch) } .applied (done ++ batch) := by
  refine ⟨fun hne => absurd rfl (hne _), fun d hd => ?_, nofun⟩
  obtain rfl := Option.some.inj hd
  obtain ⟨actions, hmakes, htoggles⟩ := h.makes c (by rw [hp]; rfl)
  refine ⟨actions ++ batch.map .toggle, hmakes.append (Circuit.run_toggles batch c), ?_⟩
  rw [Action.toggles_append, htoggles, Action.toggles_map]

/-- A tick toggles nothing. -/
theorem Accounts.tick (h : t.Accounts turn done) (hp : t.phase = .ticking c) :
    Accounts { (Task.step rs now delay { t with toggles := [] } live).1 with toggles := t.toggles }
      (.taking []) done := by
  obtain ⟨field, period, phase, cancelled, toggles⟩ := t
  obtain rfl : phase = .ticking c := hp
  obtain ⟨actions, hmakes, htoggles⟩ := h.makes c rfl
  dsimp only [Task.step]
  split
  case h_1 c' hc' =>
    refine ⟨fun _ => rfl, fun d hd => ?_, nofun⟩
    obtain rfl := Option.some.inj hd
    refine ⟨_, hmakes.append (Circuit.run_turn hc'), ?_⟩
    rw [Action.toggles_append, htoggles]
    exact List.append_nil done
  case h_2 => exact .of_hasEnded rfl

end Task

theorem Task.circuit?_step {t : Task} {c : Circuit} {rs : Registries} {now : Times} {delay : Nat}
    {live : LiveStates} (hp : ∀ c, t.phase ≠ .ticking c) (hc : t.phase.circuit? = some c) :
    ∀ c', (t.step rs now delay live).1.phase.circuit? = some c' → c' = c := by
  obtain ⟨field, period, phase, cancelled, toggles⟩ := t
  intro c' hc'
  cases phase with
  | building => cases hc
  | ticking c => exact absurd rfl (hp c)
  | ended outcome => cases hc
  | checking d =>
    cases cancelled with
    | true => cases hc'
    | false => exact Option.some.inj (hc'.symm.trans hc)
  | sleeping d wakeAt =>
    dsimp only [Task.step] at hc'
    split at hc' <;> exact Option.some.inj (hc'.symm.trans hc)
  | clearing d => exact Option.some.inj (hc'.symm.trans hc)
  | publishing d => exact Option.some.inj (hc'.symm.trans hc)

/-- No task goes away. -/
theorem Session.exists_task_move {s s' : Session} {m : Move} {g : Nat} {t : Task}
    (ht : s.sim.task? g = some t) (hm : s.move? m = some s') : ∃ t', s'.sim.task? g = some t' := by
  obtain ⟨-, hs⟩ | ⟨next, -, -, hs⟩ | ⟨rs, now, g', t', -, ht', -, hs⟩ |
    ⟨g', p, t', level, -, -, -, hs⟩ := move?_cases hm
  · obtain ⟨t', ht', -⟩ := hs.task_after ht
    exact ⟨t', ht'⟩
  · obtain ⟨t', ht', -⟩ := s.sim.handles_collect.task_after ht
    exact ⟨t', hs ▸ Simulation.task?_follow next ht'⟩
  · by_cases hg : g = g'
    · subst hg
      exact ⟨_, hs ▸ Simulation.task?_stepTask ht'⟩
    · exact ⟨t, hs ▸ (Simulation.task?_stepTask_of_ne hg).trans ht⟩
  · exact ⟨t, hs ▸ ht⟩

namespace Delivery

variable {d d' : Delivery} {e : Event} {m : Move} {s : Session} {log : List Notice} {g g' : Nat}
  {t t' : Task} {c : Circuit} {turn : Turn}

/-- What a move leaves waiting: a toggle that is accepted goes behind all that wait. -/
theorem inbox_move (hturn : d.isTurn m = false) (hm : d.session.move? m = some s) (g : Nat) :
    s.sim.inbox g = d.session.sim.inbox g ++ Notice.sentTo g (d.notices (.move m)) := by
  cases m with
  | call call =>
    rw [Session.move?] at hm
    split at hm
    case h_2 => cases hm
    case h_1 =>
      obtain rfl := Option.some.inj hm
      cases call with
      | toggle n => exact d.session.sim.inbox_toggle n g
      | poll now field => exact (d.session.sim.inbox_collect g).trans (List.append_nil _).symm
      | takeFailure => exact (d.session.sim.inbox_collect g).trans (List.append_nil _).symm
      | stop => exact (d.session.sim.inbox_cancel g).trans (List.append_nil _).symm
      | _ => exact (List.append_nil _).symm
  | cancel =>
    rw [Session.move?] at hm
    split at hm
    case h_2 => cases hm
    case h_1 =>
      obtain rfl := Option.some.inj hm
      exact (Simulation.inbox_cancel _ g).trans (List.append_nil _).symm
  | join =>
    obtain ⟨-, next, hs⟩ := Session.move?_join hm
    rw [hs, Simulation.inbox_follow, Simulation.inbox_collect]
    exact (List.append_nil _).symm
  | step rs now g' =>
    obtain ⟨⟨t, ht, -⟩, hs⟩ := Session.move?_step hm
    rw [hs, Simulation.inbox_stepTask ht (phase_of_not_isTurn hturn ht)]
    exact (List.append_nil _).symm
  | write g' p =>
    obtain ⟨level, -, rfl⟩ := Option.map_eq_some_iff.1 hm
    exact (List.append_nil _).symm

/-- A move takes and applies nothing. -/
theorem notices_move (d : Delivery) (m : Move) (g : Nat) :
    Notice.takenBy g (d.notices (.move m)) = [] ∧ Notice.appliedBy g (d.notices (.move m)) = [] := by
  cases m with
  | call call =>
    cases call with
    | toggle n =>
      rw [notices]
      split
      case isTrue =>
        cases d.session.sim.current with
        | none => exact ⟨rfl, rfl⟩
        | some generation => exact ⟨rfl, rfl⟩
      case isFalse => exact ⟨rfl, rfl⟩
    | _ => exact ⟨rfl, rfl⟩
  | _ => exact ⟨rfl, rfl⟩

/-- The account of a generation. -/
structure Balanced (d : Delivery) (log : List Notice) (g : Nat) : Prop where
  sent : Notice.sentTo g log = Notice.takenBy g log ++ d.session.sim.inbox g
  taken : Notice.takenBy g log = Notice.appliedBy g log ++ (d.turn g).batch
  task : ∀ t, d.session.sim.task? g = some t → t.Accounts (d.turn g) (Notice.appliedBy g log)
  absent : d.session.sim.task? g = none → d.turn g = .taking [] ∧ Notice.appliedBy g log = []

theorem balanced_start (config : Config) (g : Nat) : (start config).Balanced [] g :=
  ⟨rfl, rfl, nofun, fun _ => ⟨rfl, rfl⟩⟩

section Steps

variable (h : d.Balanced log g)

include h

/-- A generation that begins has a task that has built nothing; the tasks of the others stay as they
are. -/
theorem Balanced.task_follow (next : Option Field)
    (ht : (d.session.sim.collect.follow next).task? g = some t) :
    t.Accounts (d.turn g) (Notice.appliedBy g log) := by
  have hbefore : ∀ u, d.session.sim.collect.task? g = some u →
      u.Accounts (d.turn g) (Notice.appliedBy g log) := by
    intro u hu
    obtain ⟨t', ht', hw⟩ := d.session.sim.handles_collect.task_before hu
    exact (h.task t' ht').of_work hw
  cases next with
  | none => exact hbefore t ht
  | some field =>
    rw [Simulation.follow, Simulation.task?_spawn] at ht
    split at ht
    case isFalse => exact hbefore t ht
    case isTrue hg =>
      obtain rfl := Option.some.inj ht
      have hnone : d.session.sim.task? g = none := by
        obtain hnone | ⟨u, hu⟩ := (d.session.sim.task? g).eq_none_or_eq_some
        · exact hnone
        · obtain ⟨u', hu', -⟩ := d.session.sim.handles_collect.task_after hu
          have hlt : g < d.session.sim.collect.tasks.size :=
            (Array.getElem?_eq_some_iff.1 hu').1
          exact absurd hg (Nat.ne_of_lt hlt)
      obtain ⟨hturn, hdone⟩ := h.absent hnone
      rw [hturn, hdone]
      exact .of_building rfl

/-- A step of a task that takes no toggles and applies none keeps the accounts of all tasks. -/
theorem Balanced.task_stepTask {rs : Registries} {now : Times} (ht' : d.session.sim.task? g' = some t')
    (hp : ∀ c, t'.phase ≠ .ticking c) (ht : (d.session.sim.stepTask rs now g').task? g = some t) :
    t.Accounts (d.turn g) (Notice.appliedBy g log) := by
  by_cases hg : g = g'
  · subst hg
    rw [Simulation.task?_stepTask ht'] at ht
    obtain rfl := Option.some.inj ht
    exact (h.task t' ht').step hp
  · rw [Simulation.task?_stepTask_of_ne hg] at ht
    exact h.task t ht

theorem Balanced.move (hturn : d.isTurn m = false) (hm : d.session.move? m = some s) :
    Balanced { d with session := s } (log ++ d.notices (.move m)) g := by
  obtain ⟨htaken, happlied⟩ := d.notices_move m g
  have hdone : Notice.appliedBy g (log ++ d.notices (.move m)) = Notice.appliedBy g log := by
    rw [Notice.appliedBy_append, happlied, List.append_nil]
  have hkept : Notice.takenBy g (log ++ d.notices (.move m)) = Notice.takenBy g log := by
    rw [Notice.takenBy_append, htaken, List.append_nil]
  constructor
  case sent =>
    rw [hkept, Notice.sentTo_append, h.sent, List.append_assoc, ← inbox_move hturn hm g]
  case taken =>
    rw [hkept, hdone]
    exact h.taken
  case task =>
    intro t ht
    have ht : s.sim.task? g = some t := ht
    rw [hdone]
    obtain ⟨-, hs⟩ | ⟨next, -, -, hs⟩ | ⟨rs, now, g', t', rfl, ht', -, hs⟩ |
      ⟨g', p, t', level, -, -, -, hs⟩ := Session.move?_cases hm
    · obtain ⟨t', ht', hw⟩ := hs.task_before ht
      exact (h.task t' ht').of_work hw
    · rw [hs] at ht
      exact h.task_follow next ht
    · rw [hs] at ht
      exact h.task_stepTask ht' (phase_of_not_isTurn hturn ht') ht
    · rw [hs] at ht
      exact h.task t ht
  case absent =>
    intro hnone
    rw [hdone]
    refine h.absent ?_
    obtain hnone' | ⟨t, ht⟩ := (d.session.sim.task? g).eq_none_or_eq_some
    · exact hnone'
    · obtain ⟨t', ht'⟩ := Session.exists_task_move ht hm
      exact absurd (hnone.symm.trans ht') nofun

/-- What concerns the task of one generation leaves the accounts of the others alone. -/
theorem Balanced.put_of_ne (hg : g ≠ g') (t : Task) (turn : Turn) {notices : List Notice}
    (hsent : Notice.sentTo g notices = []) (htaken : Notice.takenBy g notices = [])
    (happlied : Notice.appliedBy g notices = []) :
    (d.put g' t turn).Balanced (log ++ notices) g := by
  have hinbox : (d.put g' t turn).session.sim.inbox g = d.session.sim.inbox g := by
    rw [Simulation.inbox, task?_put_of_ne hg, Simulation.inbox]
  constructor
  case sent =>
    rw [Notice.sentTo_append, hsent, Notice.takenBy_append, htaken, hinbox, List.append_nil,
      List.append_nil]
    exact h.sent
  case taken =>
    rw [Notice.takenBy_append, htaken, Notice.appliedBy_append, happlied, turn_put_of_ne hg,
      List.append_nil, List.append_nil]
    exact h.taken
  case task =>
    rw [task?_put_of_ne hg, turn_put_of_ne hg, Notice.appliedBy_append, happlied, List.append_nil]
    exact h.task
  case absent =>
    rw [task?_put_of_ne hg, turn_put_of_ne hg, Notice.appliedBy_append, happlied, List.append_nil]
    exact h.absent

theorem Balanced.take {batch rest : List Nat} {n : Nat} (ht : d.session.sim.task? g = some t)
    (hphase : t.phase = .ticking c) (hturn : d.turn g = .taking batch)
    (htoggles : t.toggles = n :: rest) :
    (d.put g { t with toggles := rest } (.taking (batch ++ [n]))).Balanced
      (log ++ d.notices (.take g)) g := by
  have hinbox : d.session.sim.inbox g = n :: rest := by rw [Simulation.inbox, ht, ← htoggles]; rfl
  have hnotices : d.notices (.take g) = [.taken g n] := by rw [notices, hinbox]; rfl
  have htaken : Notice.takenBy g [.taken g n] = [n] := by simp [Notice.takenBy]
  have hdone : Notice.appliedBy g (log ++ [.taken g n]) = Notice.appliedBy g log := by
    rw [Notice.appliedBy_append]
    exact List.append_nil _
  have hbefore := h.taken
  rw [hturn] at hbefore
  rw [hnotices]
  constructor
  case sent =>
    rw [Notice.sentTo_append, h.sent, hinbox, Notice.takenBy_append, htaken, Simulation.inbox,
      task?_put ht]
    simp [Notice.sentTo]
  case taken =>
    rw [hdone, Notice.takenBy_append, htaken, turn_put, hbefore]
    exact List.append_assoc _ _ _
  case task =>
    intro u hu
    rw [task?_put ht] at hu
    obtain rfl := Option.some.inj hu
    obtain ⟨-, hmakes, -⟩ := h.task t ht
    rw [hdone, turn_put]
    refine ⟨fun hne => absurd hphase (hne c), hmakes, fun hbuilding => ?_⟩
    cases hphase.symm.trans hbuilding
  case absent =>
    intro hnone
    rw [task?_put ht] at hnone
    cases hnone

theorem Balanced.apply {batch : List Nat} (ht : d.session.sim.task? g = some t)
    (hphase : t.phase = .ticking c) (hturn : d.turn g = .taking batch) (htoggles : t.toggles = []) :
    (d.put g { t with phase := .ticking (c.toggleAll batch) } .applied).Balanced
      (log ++ d.notices (.apply g)) g := by
  have hinbox : d.session.sim.inbox g = [] := by rw [Simulation.inbox, ht, ← htoggles]; rfl
  have hnotices : d.notices (.apply g) = [.applied g batch] := by rw [notices, hturn]; rfl
  have hdone : Notice.appliedBy g (log ++ [.applied g batch]) = Notice.appliedBy g log ++ batch := by
    rw [Notice.appliedBy_append]
    simp [Notice.appliedBy]
  have hkept : Notice.takenBy g (log ++ [.applied g batch]) = Notice.takenBy g log := by
    rw [Notice.takenBy_append]
    exact List.append_nil _
  have hbefore := h.taken
  rw [hturn] at hbefore
  rw [hnotices]
  constructor
  case sent =>
    rw [Notice.sentTo_append, h.sent, hinbox, hkept, Simulation.inbox, task?_put ht]
    simp [Notice.sentTo, htoggles]
  case taken =>
    rw [hkept, hdone, turn_put, hbefore]
    exact (List.append_nil _).symm
  case task =>
    intro u hu
    rw [task?_put ht] at hu
    obtain rfl := Option.some.inj hu
    rw [hdone, turn_put]
    exact (h.task t ht).apply hphase batch
  case absent =>
    intro hnone
    rw [task?_put ht] at hnone
    cases hnone

theorem Balanced.tick {rs : Registries} {now : Times} (ht : d.session.sim.task? g = some t)
    (hphase : t.phase = .ticking c) (hturn : d.turn g = .applied) :
    (d.put g { (Task.step rs now d.session.sim.config.tickDelay { t with toggles := [] }
      d.session.sim.live).1 with toggles := t.toggles } (.taking [])).Balanced
        (log ++ d.notices (.tick rs now g)) g := by
  have hinbox : d.session.sim.inbox g = t.toggles := by rw [Simulation.inbox, ht]; rfl
  have hbefore := h.taken
  rw [hturn] at hbefore
  rw [notices, List.append_nil]
  constructor
  case sent =>
    rw [h.sent, hinbox, Simulation.inbox, task?_put ht]
    rfl
  case taken =>
    rw [turn_put]
    exact hbefore
  case task =>
    intro u hu
    rw [task?_put ht] at hu
    obtain rfl := Option.some.inj hu
    rw [turn_put]
    exact (h.task t ht).tick hphase
  case absent =>
    intro hnone
    rw [task?_put ht] at hnone
    cases hnone

end Steps

/-- Every event keeps the accounts of all generations. -/
theorem balanced_after (h : ∀ g, d.Balanced log g) (he : d.after? e = some d') (g : Nat) :
    d'.Balanced (log ++ d.notices e) g := by
  cases e with
  | move m =>
    obtain ⟨hturn, s, hm, rfl⟩ := after?_move he
    exact (h g).move hturn hm
  | take g' =>
    obtain ⟨t, c, batch, n, rest, ht, hphase, hturn, htoggles, rfl⟩ := after?_take he
    by_cases hg : g = g'
    · subst hg
      exact (h g).take ht hphase hturn htoggles
    · have hinbox : d.session.sim.inbox g' = n :: rest := by
        rw [Simulation.inbox, ht, ← htoggles]
        rfl
      have hnotices : d.notices (.take g') = [.taken g' n] := by rw [notices, hinbox]; rfl
      rw [hnotices]
      exact (h g).put_of_ne hg _ _ rfl (by simp [Notice.takenBy, Ne.symm hg]) rfl
  | apply g' =>
    obtain ⟨t, c, batch, ht, hphase, hturn, htoggles, rfl⟩ := after?_apply he
    by_cases hg : g = g'
    · subst hg
      exact (h g).apply ht hphase hturn htoggles
    · exact (h g).put_of_ne hg _ _ rfl rfl (by simp [Notice.appliedBy, notices, Ne.symm hg])
  | tick rs now g' =>
    obtain ⟨t, c, ht, hphase, hturn, rfl⟩ := after?_tick he
    by_cases hg : g = g'
    · subst hg
      exact (h g).tick ht hphase hturn
    · exact (h g).put_of_ne hg _ _ rfl rfl rfl

theorem balanced_afterAll {es : List Event} (h : ∀ g, d.Balanced log g)
    (hes : d.afterAll? es = some d') (g : Nat) : d'.Balanced (log ++ d.log es) g := by
  induction es generalizing d log with
  | nil =>
    obtain rfl := Option.some.inj hes
    rw [Delivery.log, List.append_nil]
    exact h g
  | cons e es ih =>
    obtain ⟨u, hu, hes⟩ := Option.bind_eq_some_iff.1 hes
    have hnext := ih (balanced_after h hu) hes
    rwa [Delivery.log, hu, Option.elim_some, ← List.append_assoc]

/-- Until it ticks, a task leaves the connections of its circuit alone, whatever is toggled. -/
theorem connections_after (he : d.after? e = some d') (hne : ∀ rs now, e ≠ .tick rs now g)
    (ht : d.session.sim.task? g = some t) (hc : t.phase.circuit? = some c) :
    ∃ t', d'.session.sim.task? g = some t' ∧
      ∀ c', t'.phase.circuit? = some c' → c'.connections = c.connections := by
  have hsame : ∀ c', t.phase.circuit? = some c' → c'.connections = c.connections := fun c' hc' => by
    rw [Option.some.inj (hc'.symm.trans hc)]
  cases e with
  | move m =>
    obtain ⟨hturn, s, hm, rfl⟩ := after?_move he
    obtain ⟨-, hs⟩ | ⟨next, -, -, hs⟩ | ⟨rs, now, g', t', rfl, ht', -, hs⟩ |
      ⟨g', p, t', level, -, -, -, hs⟩ := Session.move?_cases hm
    · obtain ⟨t', ht', hw⟩ := hs.task_after ht
      have hphase : t'.phase = t.phase := congrArg (·.2.2) hw
      exact ⟨t', ht', hphase ▸ hsame⟩
    · obtain ⟨t', ht', hw⟩ := d.session.sim.handles_collect.task_after ht
      have hphase : t'.phase = t.phase := congrArg (·.2.2) hw
      exact ⟨t', hs ▸ Simulation.task?_follow next ht', hphase ▸ hsame⟩
    · by_cases hg : g = g'
      · subst hg
        obtain rfl := Option.some.inj (ht.symm.trans ht')
        refine ⟨_, hs ▸ Simulation.task?_stepTask ht, fun c' hc' => ?_⟩
        rw [Task.circuit?_step (phase_of_not_isTurn hturn ht) hc c' hc']
      · exact ⟨t, hs ▸ (Simulation.task?_stepTask_of_ne hg).trans ht, hsame⟩
    · exact ⟨t, hs ▸ ht, hsame⟩
  | take g' =>
    obtain ⟨t', c', batch, n, rest, ht', hphase, hturn, htoggles, rfl⟩ := after?_take he
    by_cases hg : g = g'
    · subst hg
      obtain rfl := Option.some.inj (ht.symm.trans ht')
      exact ⟨_, task?_put ht _ _, hsame⟩
    · exact ⟨t, (task?_put_of_ne hg _ _).trans ht, hsame⟩
  | apply g' =>
    obtain ⟨t', c', batch, ht', hphase, hturn, htoggles, rfl⟩ := after?_apply he
    by_cases hg : g = g'
    · subst hg
      obtain rfl := Option.some.inj (ht.symm.trans ht')
      rw [hphase] at hc
      obtain rfl := Option.some.inj hc
      refine ⟨_, task?_put ht _ _, fun c' hc' => ?_⟩
      obtain rfl := Option.some.inj hc'
      exact Circuit.connections_toggleAll batch _
    · exact ⟨t, (task?_put_of_ne hg _ _).trans ht, hsame⟩
  | tick rs now g' =>
    obtain ⟨t', c', ht', hphase, hturn, rfl⟩ := after?_tick he
    have hg : g ≠ g' := by
      rintro rfl
      exact hne rs now rfl
    exact ⟨t, (task?_put_of_ne hg _ _).trans ht, hsame⟩

/-- Toggles arrive in order, none is lost on the way or applied twice, and none reaches a generation
that it was not sent to; and what a generation has applied is all that shows of them. -/
theorem toggles_in_order (config : Config) {es : List Event} {d : Delivery}
    (hes : (start config).afterAll? es = some d) (g : Nat) :
    Notice.appliedBy g ((start config).log es) <+: Notice.sentTo g ((start config).log es) ∧
    (∀ rs now d', d.after? (.tick rs now g) = some d' →
      Notice.takenBy g ((start config).log es) = Notice.appliedBy g ((start config).log es)) ∧
    ∀ t c, d.session.sim.task? g = some t → t.phase.circuit? = some c →
      (∃ actions, t.Makes actions c ∧
        Action.toggles actions = Notice.appliedBy g ((start config).log es)) ∧
      (∀ i id, c.buttons[i]? = some id → (c.components[id]?).map (·.level) =
        some (decide ((Notice.appliedBy g ((start config).log es)).count i % 2 = 1))) ∧
      (∀ batch, c.toggleAll (batch.filter (· < c.buttons.length)) = c.toggleAll batch) ∧
      ∀ e d', (∀ rs now, e ≠ .tick rs now g) → d.after? e = some d' →
        ∃ t', d'.session.sim.task? g = some t' ∧
          ∀ c', t'.phase.circuit? = some c' → c'.connections = c.connections := by
  have h := balanced_afterAll (balanced_start config) hes g
  rw [List.nil_append] at h
  refine ⟨?_, fun rs now d' htick => ?_, fun t c ht hc => ⟨?_, ?_, ?_, ?_⟩⟩
  · rw [h.sent, h.taken, List.append_assoc]
    exact List.prefix_append _ _
  · obtain ⟨t, c, -, -, hturn, -⟩ := after?_tick htick
    rw [h.taken, hturn]
    exact List.append_nil _
  · exact (h.task t ht).makes c hc
  · intro i id hid
    obtain ⟨actions, ⟨rs, b, hb, hrun⟩, htoggles⟩ := (h.task t ht).makes c hc
    rw [← htoggles]
    exact Field.level_of_run hb hrun hid
  · exact fun batch => Circuit.toggleAll_filter batch c
  · exact fun e d' hne he => connections_after he hne ht hc

end Delivery

/-- Toggles come before the circuit is built, while the task takes toggles, and after that. -/
def sampleToggling : List Event :=
  [.move (.call (.rebuild sampleLamp)), .move .cancel, .move .join, .move (.call (.toggle 0)),
    .move (.step {} 0 0), .move (.step {} 0 0), .move (.step {} 0 0), .take 0,
    .move (.call (.toggle 3)), .take 0, .move (.call (.toggle 0)), .take 0, .apply 0,
    .move (.call (.toggle 0))]

/-- The button is toggled twice before the tick, and the last toggle waits. -/
theorem sampleToggling_in_order : ∃ d t c,
    (Delivery.start {}).afterAll? sampleToggling = some d ∧
    Notice.sentTo 0 ((Delivery.start {}).log sampleToggling) = [0, 3, 0, 0] ∧
    Notice.appliedBy 0 ((Delivery.start {}).log sampleToggling) = [0, 3, 0] ∧
    d.session.sim.task? 0 = some t ∧ t.phase.circuit? = some c ∧ c.buttons = [0] ∧
    (c.components[0]?).map (·.level) = some false := by
  have hrun : ((Delivery.start {}).afterAll? sampleToggling).any (fun d =>
      (d.session.sim.task? 0).any fun t => t.phase.circuit?.any fun c => decide (c.buttons = [0])) =
        true := by decide +kernel
  simp only [Option.any_eq_true, decide_eq_true_eq] at hrun
  obtain ⟨d, hd, t, ht, c, hc, hbuttons⟩ := hrun
  have hdone : Notice.appliedBy 0 ((Delivery.start {}).log sampleToggling) = [0, 3, 0] := by
    decide +kernel
  obtain ⟨-, -, hcircuit⟩ := Delivery.toggles_in_order {} hd 0
  have hlevel := (hcircuit t c ht hc).2.1 0 0 (by rw [hbuttons]; rfl)
  rw [hdone] at hlevel
  exact ⟨d, t, c, hd, by decide +kernel, hdone, ht, hc, hbuttons, hlevel⟩

end GridCircuit
