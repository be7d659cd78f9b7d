import GridCircuit.Simulation.Basic
import Mathlib.Logic.Relation

/-!
# Schedules of a simulation

The foreground and the tasks take turns in any order. A call of the foreground takes effect at once,
but for one that ends a generation: it cancels the current task, and returns only when that task has
ended. In between only tasks move. Publishing is no single step, so what is shown may be seen half
written. Times are not held to any order.

`Simulation.stop`, `rebuild` and `poll` let the cancelled task run alone until it has ended. That is
one of the schedules.
-/

namespace GridCircuit

/-- The task can go on: it has not ended, and it is not asleep. -/
def Task.ready (now : Times) (t : Task) : Bool :=
  match t.phase with
  | .sleeping _ wakeAt => t.cancelled || wakeAt ≤ now.own
  | .ended _ => false
  | _ => true

/-- What a task shows at a position while it publishes. -/
def Task.showing? (p : Pos) (t : Task) : Option Bool :=
  match t.phase with
  | .publishing c => c.levelAt? p
  | _ => none

/-- What the foreground can call. -/
inductive Call where
  | request (now : Nat)
  | poll (now : Nat) (field : Field)
  | rebuild (field : Field)
  | toggle (n : Nat)
  | setTickDelay (ms : Nat)
  | setClockPeriod (now ms : Nat)
  | takeFailure
  | stop

/-- Where the foreground stands: between two calls, or in one that ends a generation. -/
inductive Foreground where
  | free
  /-- The current generation is to be replaced, and is not cancelled yet. -/
  | replacing (field : Field)
  /-- The current generation is cancelled and waited for. A field may follow it. -/
  | waiting (next : Option Field)

/-- A simulation between two moves. -/
structure Session where
  sim : Simulation
  foreground : Foreground := .free

inductive Move where
  | call (c : Call)
  /-- Cancel the generation that is to be replaced. -/
  | cancel
  /-- Return from waiting, which starts the generation that follows. -/
  | join
  /-- One step of the task of a generation. Publishing ends with it. -/
  | step (rs : Registries) (now : Times) (generation : Nat)
  /-- Show the level of one position while publishing. -/
  | write (generation : Nat) (p : Pos)

/-- The generation whose task makes the move. -/
def Move.generation? : Move → Option Nat
  | .step _ _ generation | .write generation _ => some generation
  | .call _ | .cancel | .join => none

namespace Simulation

/-- Whether a rebuild is due that no edit has followed for the debounce time. -/
def isDue (now : Nat) (s : Simulation) : Bool :=
  s.dirtySince.any fun since => s.config.rebuildDebounce ≤ now - since

/-- Start a generation if there is one to follow. -/
def follow (next : Option Field) (s : Simulation) : Simulation :=
  match next with
  | some field => s.spawn field
  | none => s

/-- What a call does at once. -/
def begin (s : Simulation) : Call → Session
  | .request now => ⟨s.request now, .free⟩
  | .poll now field => ⟨s.collect, if s.collect.isDue now then .replacing field else .free⟩
  | .rebuild field => ⟨s, .replacing field⟩
  | .toggle n => ⟨(s.toggle n).1, .free⟩
  | .setTickDelay ms => ⟨s.setTickDelay ms, .free⟩
  | .setClockPeriod now ms => ⟨s.setClockPeriod now ms, .free⟩
  | .takeFailure => ⟨s.takeFailure.1, .free⟩
  | .stop => ⟨s.cancel, .waiting none⟩

end Simulation

namespace Session

def start (config : Config) : Session := { sim := .ofConfig config }

/-- The state after a move; none if the move cannot be made. -/
def move? (s : Session) : Move → Option Session
  | .call c =>
    match s.foreground with
    | .free => some (s.sim.begin c)
    | _ => none
  | .cancel =>
    match s.foreground with
    | .replacing field =>
      some ⟨Simulation.cancel { s.sim with dirtySince := none }, .waiting (some field)⟩
    | _ => none
  | .join =>
    match s.foreground with
    | .waiting next =>
      if s.sim.isRunning then none else some ⟨s.sim.collect.follow next, .free⟩
    | _ => none
  | .step rs now generation =>
    if (s.sim.task? generation).any (Task.ready now) then
      some { s with sim := s.sim.stepTask rs now generation }
    else none
  | .write generation p =>
    ((s.sim.task? generation).bind (Task.showing? p)).map fun level =>
      { s with sim := { s.sim with live := s.sim.live.insert p level } }

def Step (s s' : Session) : Prop := ∃ m, s.move? m = some s'

/-- Some schedule leads from one state to another. -/
def Reaches : Session → Session → Prop := Relation.ReflTransGen Step

/-- The state after a list of moves. -/
def moves? (s : Session) : List Move → Option Session
  | [] => some s
  | m :: ms => (s.move? m).bind fun s => moves? s ms

theorem reaches_of_moves? : ∀ {ms : List Move} {s s' : Session}, s.moves? ms = some s' →
    s.Reaches s' := by
  intro ms
  induction ms with
  | nil =>
    intro s s' h
    obtain rfl := Option.some.inj h
    exact .refl
  | cons m ms ih =>
    intro s s' h
    obtain ⟨u, hu, h⟩ := Option.bind_eq_some_iff.1 h
    exact .head ⟨m, hu⟩ (ih h)

end Session

section Alone

variable {rs : Registries} {now : Times} {generation : Nat} {s : Simulation} {t : Task}

namespace Task

/-- After so many steps a cancelled task has ended. -/
def stepsLeft (t : Task) : Nat :=
  match t.phase with
  | .ticking _ => 4
  | .building | .publishing _ => 3
  | .clearing _ | .sleeping _ _ => 2
  | .checking _ => 1
  | .ended _ => 0

theorem stepsLeft_le (t : Task) : t.stepsLeft ≤ stepsToEnd := by
  rw [stepsLeft]
  split <;> decide

theorem hasEnded_of_stepsLeft (h : t.stepsLeft = 0) : t.hasEnded = true := by
  obtain ⟨field, period, phase, cancelled, toggles⟩ := t
  cases phase <;> first | rfl | cases h

/-- A cancelled task stays cancelled and comes nearer to its end. -/
theorem step_of_cancelled (rs : Registries) (now : Times) (delay : Nat) (live : LiveStates)
    (h : t.cancelled = true) :
    (t.step rs now delay live).1.cancelled = true ∧
      (t.step rs now delay live).1.stepsLeft ≤ t.stepsLeft - 1 := by
  obtain ⟨field, period, phase, cancelled, toggles⟩ := t
  obtain rfl : cancelled = true := h
  cases phase with
  | building =>
    dsimp only [step]
    split
    case h_1 => exact ⟨rfl, Nat.le_refl _⟩
    case h_2 => exact ⟨rfl, Nat.zero_le _⟩
  | clearing c => exact ⟨rfl, Nat.le_refl _⟩
  | checking c => exact ⟨rfl, Nat.le_refl _⟩
  | ticking c =>
    dsimp only [step]
    split
    case h_1 => exact ⟨rfl, Nat.le_refl _⟩
    case h_2 => exact ⟨rfl, Nat.zero_le _⟩
  | publishing c => exact ⟨rfl, Nat.le_refl _⟩
  | sleeping c wakeAt => exact ⟨rfl, Nat.le_refl _⟩
  | ended outcome => exact ⟨rfl, Nat.le_refl _⟩

theorem step_of_not_ready (h : t.ready now = false) (delay : Nat) (live : LiveStates) :
    t.step rs now delay live = (t, live) := by
  obtain ⟨field, period, phase, cancelled, toggles⟩ := t
  cases phase with
  | sleeping c wakeAt =>
    dsimp only [ready] at h
    dsimp only [step]
    rw [if_neg (by simp [h])]
  | ended outcome => rfl
  | _ => cases h

end Task

namespace Simulation

theorem task?_stepTask (h : s.task? generation = some t) :
    (s.stepTask rs now generation).task? generation =
      some (t.step rs now s.config.tickDelay s.live).1 := by
  have hmodify : ∀ f : Task → Task, (s.tasks.modify generation f)[generation]? =
      (s.tasks[generation]?).map f := by
    intro f
    rw [Array.getElem?_modify, if_pos rfl]
  rw [stepTask, h]
  exact (hmodify _).trans (congrArg (Option.map _) h)

theorem current_stepTask (rs : Registries) (now : Times) (generation : Nat) (s : Simulation) :
    (s.stepTask rs now generation).current = s.current := by
  rw [stepTask]
  split <;> rfl

theorem stepTask_of_not_ready (h : ¬(s.task? generation).any (Task.ready now) = true) :
    s.stepTask rs now generation = s := by
  rw [stepTask]
  split
  case h_1 t ht =>
    rw [ht, Option.any_some, Bool.not_eq_true] at h
    rw [Task.step_of_not_ready h]
    have hsame : s.tasks.modify generation (fun _ => t) = s.tasks := by
      apply Array.ext_getElem?
      intro i
      rw [Array.getElem?_modify]
      split
      case isTrue hi =>
        subst hi
        rw [show s.tasks[generation]? = some t from ht]
        rfl
      case isFalse => rfl
    show { s with tasks := s.tasks.modify generation fun _ => t } = s
    rw [hsame]
  case h_2 => rfl

theorem current_runTask (rs : Registries) (now : Times) (generation : Nat) : ∀ (n : Nat) (s : Simulation),
    (runTask rs now generation n s).current = s.current := by
  intro n
  induction n with
  | zero => exact fun _ => rfl
  | succ n ih => exact fun s => (ih _).trans (current_stepTask rs now generation s)

theorem runTask_of_none (h : s.task? generation = none) (n : Nat) :
    runTask rs now generation n s = s := by
  have hstep : s.stepTask rs now generation = s := stepTask_of_not_ready (by simp [h])
  induction n with
  | zero => rfl
  | succ n ih => rw [runTask, hstep, ih]

theorem task?_cancel (h : s.current = some generation) :
    s.cancel.task? generation = (s.task? generation).map fun t => { t with cancelled := true } := by
  rw [cancel, h]
  show (s.tasks.modify generation _)[generation]? = _
  rw [Array.getElem?_modify, if_pos rfl]
  rfl

theorem current_cancel (s : Simulation) : s.cancel.current = s.current := by
  rw [cancel]
  split <;> rfl

theorem isRunning_eq (h : s.current = some generation) :
    s.isRunning = (s.task? generation).any (!·.hasEnded) := by
  rw [isRunning, current?, h]
  rfl

/-- A cancelled task has ended when it has run alone for long enough. -/
theorem runTask_hasEnded (rs : Registries) (now : Times) :
    ∀ (n : Nat) (s : Simulation) (t : Task), s.task? generation = some t →
    t.cancelled = true → t.stepsLeft ≤ n →
    ∃ t', (runTask rs now generation n s).task? generation = some t' ∧ t'.hasEnded = true := by
  intro n
  induction n with
  | zero => exact fun s t ht _ hn => ⟨t, ht, Task.hasEnded_of_stepsLeft (Nat.le_zero.1 hn)⟩
  | succ n ih =>
    intro s t ht hc hn
    obtain ⟨hc', hn'⟩ := Task.step_of_cancelled rs now s.config.tickDelay s.live hc
    exact ih _ _ (task?_stepTask ht) hc' (by omega)

/-- A cancelled generation has ended when it has run alone for long enough. -/
theorem isRunning_runTask (rs : Registries) (now : Times) (h : s.current = some generation) :
    (runTask rs now generation Task.stepsToEnd s.cancel).isRunning = false := by
  have htask := task?_cancel h
  have hcurrent := (current_runTask rs now generation Task.stepsToEnd s.cancel).trans
    ((current_cancel s).trans h)
  rw [isRunning_eq hcurrent]
  cases ht : s.task? generation with
  | none =>
    rw [ht] at htask
    rw [runTask_of_none htask, htask]
    rfl
  | some t =>
    rw [ht] at htask
    obtain ⟨t', ht', hend⟩ := runTask_hasEnded rs now Task.stepsToEnd s.cancel _ htask rfl
      (Task.stepsLeft_le _)
    rw [ht', Option.any_some, hend]
    rfl

end Simulation

namespace Session

variable {foreground : Foreground} {next : Option Field}

theorem reaches_stepTask (rs : Registries) (now : Times) (generation : Nat) (s : Simulation)
    (foreground : Foreground) :
    Reaches ⟨s, foreground⟩ ⟨s.stepTask rs now generation, foreground⟩ := by
  by_cases h : (s.task? generation).any (Task.ready now) = true
  · exact .single ⟨.step rs now generation, if_pos h⟩
  · rw [Simulation.stepTask_of_not_ready h]
    exact .refl

theorem reaches_runTask (rs : Registries) (now : Times) (generation : Nat) (foreground : Foreground) :
    ∀ (n : Nat) (s : Simulation),
      Reaches ⟨s, foreground⟩ ⟨Simulation.runTask rs now generation n s, foreground⟩ := by
  intro n
  induction n with
  | zero => exact fun _ => .refl
  | succ n ih => exact fun s => (reaches_stepTask rs now generation s foreground).trans (ih _)

/-- A cancelled generation comes to its end if it runs alone, and the foreground goes on. -/
theorem reaches_of_waiting (rs : Registries) (now : Times) (s : Simulation) (next : Option Field) :
    Reaches ⟨s.cancel, .waiting next⟩ ⟨(s.stop rs now).follow next, .free⟩ := by
  have hjoin : ∀ u : Simulation, u.isRunning = false →
      Reaches ⟨u, .waiting next⟩ ⟨u.collect.follow next, .free⟩ := by
    intro u hu
    exact .single ⟨.join, if_neg (by rw [hu]; exact Bool.false_ne_true)⟩
  cases h : s.current with
  | none =>
    have hcancel : s.cancel = s := by rw [Simulation.cancel, h]
    have hcurrent : s.current? = none := by rw [Simulation.current?, h]; rfl
    have hcollect : s.collect = s := by rw [Simulation.collect, hcurrent]; rfl
    have hstop : s.stop rs now = s.collect := by rw [Simulation.stop, h, hcollect]
    rw [hcancel, hstop]
    exact hjoin s (by rw [Simulation.isRunning, hcurrent]; rfl)
  | some generation =>
    have hstop : s.stop rs now =
        (Simulation.runTask rs now generation Task.stepsToEnd s.cancel).collect := by
      rw [Simulation.stop, h]
    rw [hstop]
    exact (reaches_runTask rs now generation (.waiting next) Task.stepsToEnd s.cancel).trans
      (hjoin _ (Simulation.isRunning_runTask rs now h))

theorem reaches_stop (rs : Registries) (now : Times) (s : Simulation) :
    Reaches ⟨s, .free⟩ ⟨s.stop rs now, .free⟩ :=
  .head ⟨.call .stop, rfl⟩ (reaches_of_waiting rs now s none)

theorem reaches_of_replacing (rs : Registries) (now : Times) (s : Simulation) (field : Field) :
    Reaches ⟨s, .replacing field⟩ ⟨s.rebuild rs now field, .free⟩ :=
  .head ⟨.cancel, rfl⟩ (reaches_of_waiting rs now { s with dirtySince := none } (some field))

theorem reaches_rebuild (rs : Registries) (now : Times) (s : Simulation) (field : Field) :
    Reaches ⟨s, .free⟩ ⟨s.rebuild rs now field, .free⟩ :=
  .head ⟨.call (.rebuild field), rfl⟩ (reaches_of_replacing rs now s field)

theorem reaches_poll (rs : Registries) (now : Nat) (s : Simulation) (field : Field) :
    Reaches ⟨s, .free⟩ ⟨(s.poll rs now field).1, .free⟩ := by
  have hcall : Step ⟨s, .free⟩
      ⟨s.collect, if s.collect.isDue now then .replacing field else .free⟩ :=
    ⟨.call (.poll now field), rfl⟩
  have hpoll : (s.poll rs now field).1 =
      if s.collect.isDue now then s.collect.rebuild rs now field else s.collect := by
    rw [Simulation.poll, Simulation.isDue]
    cases s.collect.dirtySince with
    | none => rfl
    | some since =>
      simp only [Option.any_some, decide_eq_true_eq]
      split <;> rfl
  rw [hpoll]
  cases hdue : s.collect.isDue now with
  | true =>
    rw [hdue] at hcall
    exact .head hcall (reaches_of_replacing rs now s.collect field)
  | false =>
    rw [hdue] at hcall
    exact .single hcall

end Session

end Alone

end GridCircuit
