import GridCircuit.Proofs.Buttons
import GridCircuit.Proofs.Handoff

/-!
# Toggles on their way

A toggle that is sent waits until the task of the current generation takes it. Before a tick a task takes
toggles one by one until none waits, then it applies what it has taken, and then it ticks. Others move in
between: a toggle may come while the task still takes toggles, and then it is taken too, or after that,
and then it waits for the next turn. In a `Session` all of this is one step, so a session is one way in
which deliveries go.
-/

namespace GridCircuit

/-- How far a task has come with the toggles before a tick. -/
inductive Turn where
  /-- It has taken these, first one first, and applied none of them. -/
  | taking (batch : List Nat)
  /-- All that was taken is applied, and the tick is next. -/
  | applied
deriving DecidableEq, Repr

/-- What is taken and not applied. -/
def Turn.batch : Turn → List Nat
  | taking batch => batch
  | applied => []

/-- A session in which the turns of the tasks are seen step by step. -/
structure Delivery where
  session : Session
  turn : Nat → Turn := fun _ => .taking []

inductive Event where
  /-- A move of the session that is no turn of a task. -/
  | move (m : Move)
  /-- Take the first toggle that waits. -/
  | take (generation : Nat)
  /-- Apply what was taken, when none waits. -/
  | apply (generation : Nat)
  /-- Tick. A toggle that has come in since then waits on. -/
  | tick (rs : Registries) (now : Times) (generation : Nat)

/-- What happens to toggles. -/
inductive Notice where
  | sent (generation n : Nat)
  | taken (generation n : Nat)
  | applied (generation : Nat) (batch : List Nat)
deriving DecidableEq, Repr

namespace Notice

variable (generation : Nat)

/-- The toggles that were sent while a generation was the current one, first one first. -/
def sentTo (log : List Notice) : List Nat :=
  log.flatMap fun
    | sent g n => if g = generation then [n] else []
    | _ => []

/-- The toggles that a generation has taken. -/
def takenBy (log : List Notice) : List Nat :=
  log.flatMap fun
    | taken g n => if g = generation then [n] else []
    | _ => []

/-- The toggles that a generation has applied to its circuit. -/
def appliedBy (log : List Notice) : List Nat :=
  log.flatMap fun
    | applied g batch => if g = generation then batch else []
    | _ => []

variable (log log' : List Notice)

theorem sentTo_append : sentTo generation (log ++ log') =
    sentTo generation log ++ sentTo generation log' := List.flatMap_append

theorem takenBy_append : takenBy generation (log ++ log') =
    takenBy generation log ++ takenBy generation log' := List.flatMap_append

theorem appliedBy_append : appliedBy generation (log ++ log') =
    appliedBy generation log ++ appliedBy generation log' := List.flatMap_append

end Notice

namespace Simulation

/-- The toggles that wait for a generation. -/
def inbox (s : Simulation) (g : Nat) : List Nat := (s.task? g).elim [] Task.toggles

/-- Whether the task of a generation is in the midst of its turn. -/
def isTurning (s : Simulation) (g : Nat) : Bool :=
  (s.task? g).any fun t =>
    match t.phase with
    | .ticking _ => true
    | _ => false

end Simulation

namespace Delivery

def start (config : Config) : Delivery := { session := .start config }

/-- Change the task of a generation and how far it has come. -/
def put (d : Delivery) (g : Nat) (t : Task) (turn : Turn) : Delivery where
  session := { d.session with sim := d.session.sim.updateTask g fun _ => t }
  turn := Function.update d.turn g turn

/-- Whether a move is a turn of a task. -/
def isTurn (d : Delivery) : Move → Bool
  | .step _ _ g => d.session.sim.isTurning g
  | _ => false

/-- The state after an event; none if the event cannot happen. -/
def after? (d : Delivery) : Event → Option Delivery
  | .move m => if d.isTurn m then none else (d.session.move? m).map fun s => { d with session := s }
  | .take g =>
    (d.session.sim.task? g).bind fun t =>
      match t.phase, d.turn g, t.toggles with
      | .ticking _, .taking batch, n :: rest =>
        some (d.put g { t with toggles := rest } (.taking (batch ++ [n])))
      | _, _, _ => none
  | .apply g =>
    (d.session.sim.task? g).bind fun t =>
      match t.phase, d.turn g, t.toggles with
      | .ticking c, .taking batch, [] =>
        some (d.put g { t with phase := .ticking (c.toggleAll batch) } .applied)
      | _, _, _ => none
  | .tick rs now g =>
    (d.session.sim.task? g).bind fun t =>
      match t.phase, d.turn g with
      | .ticking _, .applied =>
        let ticked := (Task.step rs now d.session.sim.config.tickDelay { t with toggles := [] }
          d.session.sim.live).1
        some (d.put g { ticked with toggles := t.toggles } (.taking []))
      | _, _ => none

/-- What happens to toggles in an event. -/
def notices (d : Delivery) : Event → List Notice
  | .move (.call (.toggle n)) =>
    if (d.session.sim.toggle n).2 then (d.session.sim.current.map (Notice.sent · n)).toList else []
  | .move _ => []
  | .take g => ((d.session.sim.inbox g).head?.map (Notice.taken g)).toList
  | .apply g => [.applied g (d.turn g).batch]
  | .tick _ _ _ => []

/-- The state after a list of events. -/
def afterAll? (d : Delivery) : List Event → Option Delivery
  | [] => some d
  | e :: es => (d.after? e).bind fun d => d.afterAll? es

/-- What happens to toggles in a list of events. -/
def log (d : Delivery) : List Event → List Notice
  | [] => []
  | e :: es => d.notices e ++ (d.after? e).elim [] (·.log es)

end Delivery

theorem Task.toggles_step {t : Task} {rs : Registries} {now : Times} {delay : Nat} {live : LiveStates}
    (hp : ∀ c, t.phase ≠ .ticking c) :
    (t.step rs now delay live).1.toggles = t.toggles := by
  obtain ⟨field, period, phase, cancelled, toggles⟩ := t
  cases phase with
  | building =>
    dsimp only [Task.step]
    split <;> rfl
  | ticking c => exact absurd rfl (hp c)
  | sleeping c wakeAt =>
    dsimp only [Task.step]
    split <;> rfl
  | _ => rfl

/-- A turn in one go: the toggles are applied first, and then the task ticks with none waiting. -/
theorem Task.step_of_ticking {t : Task} {c : Circuit} {rs : Registries} {now : Times} {delay : Nat}
    {live : LiveStates} (hp : t.phase = .ticking c) : t.step rs now delay live =
      ({ (Task.step rs now delay { t with phase := .ticking (c.toggleAll t.toggles), toggles := [] }
          live).1 with toggles := [] }, live) := by
  obtain ⟨field, period, phase, cancelled, toggles⟩ := t
  obtain rfl : phase = .ticking c := hp
  have hnone : (c.toggleAll toggles).toggleAll [] = c.toggleAll toggles := rfl
  cases h : (c.toggleAll toggles).tick now with
  | mk c' failure => cases failure <;> simp only [Task.step, hnone, h]

namespace Simulation

variable {s s' : Simulation} {g generation : Nat}

theorem inbox_updateTask {f : Task → Task} (hf : ∀ t, (f t).toggles = t.toggles) :
    (s.updateTask generation f).inbox g = s.inbox g := by
  rw [inbox, inbox, task?_updateTask]
  cases s.task? g with
  | none => rfl
  | some t =>
    show Task.toggles (if _ then _ else _) = _
    split
    · exact hf t
    · rfl

theorem inbox_cancel (s : Simulation) (g : Nat) : s.cancel.inbox g = s.inbox g := by
  rw [cancel]
  split
  · exact inbox_updateTask fun _ => rfl
  · rfl

theorem inbox_collect (s : Simulation) (g : Nat) : s.collect.inbox g = s.inbox g := by
  rw [collect]
  split <;> rfl

/-- Nothing waits for a generation that begins. -/
theorem inbox_follow (s : Simulation) (next : Option Field) (g : Nat) :
    (s.follow next).inbox g = s.inbox g := by
  cases next with
  | none => rfl
  | some field =>
    have htask : (s.follow (some field)).task? g = _ := task?_spawn field s g
    rw [inbox, inbox, htask]
    split
    case isTrue h =>
      have hnone : s.task? g = none := Array.getElem?_eq_none (h ▸ Nat.le_refl _)
      rw [hnone]
      rfl
    case isFalse => rfl

/-- A toggle that is accepted waits for the current generation, behind all that wait already. -/
theorem inbox_toggle (s : Simulation) (n g : Nat) : (s.toggle n).1.inbox g = s.inbox g ++
    Notice.sentTo g (if (s.toggle n).2 then (s.current.map (Notice.sent · n)).toList else []) := by
  cases hcurrent : s.current with
  | none =>
    rw [toggle, hcurrent]
    exact (List.append_nil _).symm
  | some generation =>
    rw [toggle, hcurrent]
    dsimp only
    cases hrunning : s.isRunning with
    | false => exact (List.append_nil _).symm
    | true =>
      rw [isRunning_eq hcurrent] at hrunning
      obtain ⟨t, ht, -⟩ := (Option.any_eq_true _ _).1 hrunning
      show inbox (s.updateTask generation _) g =
        s.inbox g ++ ((if generation = g then [n] else []) ++ [])
      rw [inbox, task?_updateTask, List.append_nil, inbox]
      by_cases hg : generation = g
      · subst hg
        rw [ht, if_pos rfl, Option.map_some, if_pos rfl]
        rfl
      · simp [hg]

theorem inbox_stepTask {rs : Registries} {now : Times} {t : Task} (ht : s.task? generation = some t)
    (hp : ∀ c, t.phase ≠ .ticking c) : (s.stepTask rs now generation).inbox g = s.inbox g := by
  by_cases hg : g = generation
  · subst hg
    rw [inbox, task?_stepTask ht, inbox, ht]
    exact Task.toggles_step hp
  · rw [inbox, task?_stepTask_of_ne hg, inbox]

end Simulation

namespace Delivery

variable {d d' : Delivery} {m : Move} {g g' : Nat} {t : Task} {c : Circuit}

theorem task?_put (h : d.session.sim.task? g = some t) (t' : Task) (turn : Turn) :
    (d.put g t' turn).session.sim.task? g = some t' := by
  rw [put, Simulation.task?_updateTask, h, Option.map_some, if_pos rfl]

theorem task?_put_of_ne (h : g ≠ g') (t' : Task) (turn : Turn) :
    (d.put g' t' turn).session.sim.task? g = d.session.sim.task? g := by
  rw [put, Simulation.task?_updateTask]
  simp [h.symm]

theorem turn_put (d : Delivery) (g : Nat) (t : Task) (turn : Turn) : (d.put g t turn).turn g = turn := by
  simp [put]

theorem turn_put_of_ne (h : g ≠ g') (t : Task) (turn : Turn) :
    (d.put g' t turn).turn g = d.turn g := by
  simp [put, h]

theorem after?_move (h : d.after? (.move m) = some d') :
    d.isTurn m = false ∧ ∃ s, d.session.move? m = some s ∧ d' = { d with session := s } := by
  rw [after?] at h
  split at h
  case isTrue => cases h
  case isFalse hturn =>
    obtain ⟨s, hs, rfl⟩ := Option.map_eq_some_iff.1 h
    exact ⟨by simpa using hturn, s, hs, rfl⟩

theorem after?_take (h : d.after? (.take g) = some d') : ∃ t c batch n rest,
    d.session.sim.task? g = some t ∧ t.phase = .ticking c ∧ d.turn g = .taking batch ∧
      t.toggles = n :: rest ∧ d' = d.put g { t with toggles := rest } (.taking (batch ++ [n])) := by
  obtain ⟨t, ht, h⟩ := Option.bind_eq_some_iff.1 h
  split at h
  case h_1 c batch n rest hphase hturn htoggles =>
    exact ⟨t, c, batch, n, rest, ht, hphase, hturn, htoggles, (Option.some.inj h).symm⟩
  case h_2 => cases h

theorem after?_apply (h : d.after? (.apply g) = some d') : ∃ t c batch,
    d.session.sim.task? g = some t ∧ t.phase = .ticking c ∧ d.turn g = .taking batch ∧
      t.toggles = [] ∧ d' = d.put g { t with phase := .ticking (c.toggleAll batch) } .applied := by
  obtain ⟨t, ht, h⟩ := Option.bind_eq_some_iff.1 h
  split at h
  case h_1 c batch hphase hturn htoggles =>
    exact ⟨t, c, batch, ht, hphase, hturn, htoggles, (Option.some.inj h).symm⟩
  case h_2 => cases h

theorem after?_tick {rs : Registries} {now : Times} (h : d.after? (.tick rs now g) = some d') :
    ∃ t c, d.session.sim.task? g = some t ∧ t.phase = .ticking c ∧ d.turn g = .applied ∧
      d' = d.put g { (Task.step rs now d.session.sim.config.tickDelay { t with toggles := [] }
        d.session.sim.live).1 with toggles := t.toggles } (.taking []) := by
  obtain ⟨t, ht, h⟩ := Option.bind_eq_some_iff.1 h
  split at h
  case h_1 c hphase hturn => exact ⟨t, c, ht, hphase, hturn, (Option.some.inj h).symm⟩
  case h_2 => cases h

theorem phase_of_not_isTurn {rs : Registries} {now : Times} (h : d.isTurn (.step rs now g) = false)
    (ht : d.session.sim.task? g = some t) : ∀ c, t.phase ≠ .ticking c := by
  intro c hc
  rw [isTurn, Simulation.isTurning, ht, Option.any_some, hc] at h
  cases h

section Sessions

theorem put_put (d : Delivery) (g : Nat) (t t' : Task) (turn turn' : Turn) :
    (d.put g t turn).put g t' turn' = d.put g t' turn' := by
  have htasks : (d.session.sim.tasks.modify g fun _ => t).modify g (fun _ => t') =
      d.session.sim.tasks.modify g fun _ => t' := by
    apply Array.ext_getElem?
    intro i
    simp only [Array.getElem?_modify]
    split <;> simp [Function.comp_def]
  simp [put, Simulation.updateTask, htasks]

theorem put_self (h : d.session.sim.task? g = some t) : d.put g t (d.turn g) = d := by
  have htasks : d.session.sim.tasks.modify g (fun _ => t) = d.session.sim.tasks := by
    apply Array.ext_getElem?
    intro i
    rw [Array.getElem?_modify]
    split
    case isTrue hi =>
      subst hi
      rw [show d.session.sim.tasks[g]? = some t from h]
      rfl
    case isFalse => rfl
  simp [put, Simulation.updateTask, htasks]

theorem afterAll?_append (es es' : List Event) (d : Delivery) :
    d.afterAll? (es ++ es') = (d.afterAll? es).bind (·.afterAll? es') := by
  induction es generalizing d with
  | nil => rfl
  | cons e es ih =>
    rw [List.cons_append, afterAll?, afterAll?, Option.bind_assoc]
    congr 1
    funext u
    exact ih u

/-- A task can take all that waits. -/
theorem afterAll?_take (hphase : t.phase = .ticking c) : ∀ (ns batch : List Nat) (d : Delivery),
    d.session.sim.task? g = some { t with toggles := ns } → d.turn g = .taking batch →
      d.afterAll? (ns.map fun _ => .take g) =
        some (d.put g { t with toggles := [] } (.taking (batch ++ ns))) := by
  intro ns
  induction ns with
  | nil =>
    intro batch d ht hturn
    rw [List.append_nil, ← hturn, put_self ht]
    rfl
  | cons n ns ih =>
    intro batch d ht hturn
    have htake : d.after? (.take g) =
        some (d.put g { t with toggles := ns } (.taking (batch ++ [n]))) := by
      rw [after?, ht, Option.bind_some, hturn]
      dsimp only
      rw [hphase]
    rw [List.map_cons, afterAll?, htake, Option.bind_some,
      ih _ _ (task?_put ht _ _) (turn_put _ _ _ _), put_put, List.append_assoc,
      List.singleton_append]

/-- A turn that is made in one go is one that is made step by step with nobody in between. -/
theorem exists_turn {rs : Registries} {now : Times} {s : Session}
    (ht : s.sim.task? g = some t) (hphase : t.phase = .ticking c) :
    ∃ es, afterAll? { session := s } es =
      some { session := { s with sim := s.sim.stepTask rs now g } } := by
  have ht' : s.sim.task? g = some { t with toggles := t.toggles } := ht
  have htake := afterAll?_take hphase t.toggles [] { session := s } ht' rfl
  refine ⟨(t.toggles.map fun _ => .take g) ++ [.apply g, .tick rs now g], ?_⟩
  rw [afterAll?_append, htake, Option.bind_some, List.nil_append, afterAll?, after?, task?_put ht,
    Option.bind_some, turn_put, hphase]
  dsimp only
  rw [Option.bind_some, put_put, afterAll?, after?, task?_put ht, Option.bind_some, turn_put]
  dsimp only
  rw [Option.bind_some, put_put, afterAll?]
  have hturns : Function.update (fun _ : Nat => Turn.taking []) g (.taking []) =
      fun _ => Turn.taking [] := Function.update_eq_self g _
  rw [Simulation.stepTask, ht]
  dsimp only
  rw [Task.step_of_ticking hphase, put, hturns]
  rfl

/-- Every schedule of a session is a way in which deliveries go. -/
theorem exists_events {ms : List Move} {s s' : Session} (h : s.moves? ms = some s') :
    ∃ es, afterAll? { session := s } es = some { session := s' } := by
  induction ms generalizing s with
  | nil =>
    obtain rfl := Option.some.inj h
    exact ⟨[], rfl⟩
  | cons m ms ih =>
    obtain ⟨u, hu, h⟩ := Option.bind_eq_some_iff.1 h
    obtain ⟨es, hes⟩ := ih h
    have hfirst : ∃ es, afterAll? { session := s } es = some { session := u } := by
      cases hturn : isTurn { session := s } m with
      | false => exact ⟨[.move m], by rw [afterAll?, after?, hturn, if_neg (by simp), hu]; rfl⟩
      | true =>
        cases m with
        | step rs now g =>
          obtain ⟨t, ht, hphase⟩ := (Option.any_eq_true _ _).1 hturn
          split at hphase
          case h_1 c hc =>
            rw [Session.move?] at hu
            split at hu
            case isTrue => exact Option.some.inj hu ▸ exists_turn ht hc
            case isFalse => cases hu
          case h_2 => cases hphase
        | _ => cases hturn
    obtain ⟨es', hes'⟩ := hfirst
    exact ⟨es' ++ es, by rw [afterAll?_append, hes', Option.bind_some, hes]⟩

end Sessions

end Delivery

end GridCircuit
