import GridCircuit.Config
import GridCircuit.Simulation.Task

/-!
# Simulation

One generation at a time runs in the background. An edit only asks for a rebuild; the foreground
polls, and once no further edit has come for the debounce time, the running generation is cancelled,
waited for, and replaced by a task for the field as it is now.

The state holds every task ever started, by generation, although only the current one is of use: that
the others have ended, and so do nothing any more, is what the handoff has to ensure.
-/

namespace GridCircuit

structure Simulation where
  config : Config
  live : LiveStates := ∅
  /-- When the last edit was announced, if its rebuild is still due. -/
  dirtySince : Option Nat := none
  tasks : Array Task := #[]
  /-- The generation that has not been waited for yet. -/
  current : Option Nat := none
  /-- How the last generation that failed has ended, until it is asked for. -/
  failure : Option SimError := none

namespace Simulation

def ofConfig (config : Config) : Simulation := { config := config.clamped }

def task? (s : Simulation) (generation : Nat) : Option Task := s.tasks[generation]?

def current? (s : Simulation) : Option Task := s.current.bind s.task?

def updateTask (s : Simulation) (generation : Nat) (f : Task → Task) : Simulation :=
  { s with tasks := s.tasks.modify generation f }

def stepTask (rs : Registries) (now : Times) (generation : Nat) (s : Simulation) : Simulation :=
  match s.task? generation with
  | some t =>
    let (t, live) := t.step rs now s.config.tickDelay s.live
    { s.updateTask generation fun _ => t with live }
  | none => s

/-- Announce an edit. The debounce time starts again. -/
def request (now : Nat) (s : Simulation) : Simulation := { s with dirtySince := some now }

def isPending (s : Simulation) : Bool := s.dirtySince.isSome

def isRunning (s : Simulation) : Bool := s.current?.any (!·.hasEnded)

/-- Take the outcome of the current generation if it has ended. -/
def collect (s : Simulation) : Simulation :=
  match s.current?.bind Task.outcome? with
  | some .cancelled => { s with current := none }
  | some (.failed e) => { s with current := none, failure := some e }
  | none => s

def cancel (s : Simulation) : Simulation :=
  match s.current with
  | some generation => s.updateTask generation fun t => { t with cancelled := true }
  | none => s

def runTask (rs : Registries) (now : Times) (generation : Nat) : Nat → Simulation → Simulation
  | 0, s => s
  | n + 1, s => runTask rs now generation n (s.stepTask rs now generation)

/-- Cancel the current generation and wait until it has ended. -/
def stop (rs : Registries) (now : Times) (s : Simulation) : Simulation :=
  match s.current with
  | some generation => (runTask rs now generation Task.stepsToEnd s.cancel).collect
  | none => s

def spawn (field : Field) (s : Simulation) : Simulation :=
  { s with
    tasks := s.tasks.push { field, clockPeriod := s.config.clockPeriod }
    current := some s.tasks.size }

/-- Replace the current generation by one for a field. -/
def rebuild (rs : Registries) (now : Times) (field : Field) (s : Simulation) : Simulation :=
  (stop rs now { s with dirtySince := none }).spawn field

/-- Rebuild if the last edit is long enough ago. Says whether it did. -/
def poll (rs : Registries) (now : Nat) (field : Field) (s : Simulation) : Simulation × Bool :=
  let s := s.collect
  match s.dirtySince with
  | some since =>
    if s.config.rebuildDebounce ≤ now - since then (s.rebuild rs now field, true) else (s, false)
  | none => (s, false)

/-- Send a toggle to the running generation. Says whether there is one. -/
def toggle (n : Nat) (s : Simulation) : Simulation × Bool :=
  match s.current with
  | some generation =>
    if s.isRunning then
      (s.updateTask generation fun t => { t with toggles := t.toggles ++ [n] }, true)
    else
      (s, false)
  | none => (s, false)

/-- The failure of the last generation that failed, unless it was taken before. -/
def takeFailure (s : Simulation) : Simulation × Option SimError :=
  let s := s.collect
  ({ s with failure := none }, s.failure)

/-- Takes effect when the task next falls asleep. -/
def setTickDelay (ms : Nat) (s : Simulation) : Simulation :=
  { s with config := s.config.setTickDelay ms }

/-- The period is fixed when a circuit is built, so this asks for a rebuild. -/
def setClockPeriod (now ms : Nat) (s : Simulation) : Simulation :=
  { s with config := s.config.setClockPeriod ms }.request now

/-- Let the current generation run until a condition holds, time passing only while it sleeps. It is
given up when the generation has ended, when it sleeps past the deadline, or after a number of steps.
Gives the time at the end and whether the condition holds. -/
def waitFor (rs : Registries) (deadline : Nat) (cond : Simulation → Bool) :
    Nat → Nat → Simulation → Simulation × Nat × Bool
  | 0, now, s => (s, now, cond s)
  | n + 1, now, s =>
    if cond s then (s, now, true)
    else
      match s.current, s.current? with
      | some generation, some t =>
        let time := (t.wakeTime?.getD now).max now
        if t.hasEnded || deadline < time then (s, now, false)
        else waitFor rs deadline cond n time (s.stepTask rs time generation)
      | _, _ => (s, now, false)

end Simulation

end GridCircuit
