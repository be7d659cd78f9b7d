import GridCircuit.Circuit.Tick
import GridCircuit.Field.Build
import GridCircuit.Files.Basic

/-!
# Generation tasks

A task runs one generation: it builds the circuit of a field, empties the live view, and then ticks
and publishes until it is cancelled or a script fails. It looks at the cancellation only before a
tick, so a tick that has begun is published unless it fails.
-/

namespace GridCircuit

inductive SimError where
  | script (failure : ScriptFailure)
  | build (error : BuildError)
  | runtime (cause : IoError)
deriving DecidableEq, Repr

def SimError.message : SimError → String
  | script failure =>
    s!"component at ({failure.pos.x.toInt}, {failure.pos.y.toInt}) failed: {failure.cause.message}"
  | build error => error.message
  | runtime cause => s!"simulation runtime unavailable: {cause.text}"

inductive Outcome where
  | cancelled
  | failed (error : SimError)
deriving DecidableEq, Repr

/-- What a task does next. -/
inductive Phase where
  /-- Build the circuit. -/
  | building
  /-- Empty the live view. -/
  | clearing (c : Circuit)
  /-- Look whether the task is cancelled. -/
  | checking (c : Circuit)
  /-- Apply the pending toggles and tick. -/
  | ticking (c : Circuit)
  /-- Publish the levels of the last tick. -/
  | publishing (c : Circuit)
  /-- Sleep until a time or the cancellation. -/
  | sleeping (c : Circuit) (wakeAt : Nat)
  | ended (outcome : Outcome)

structure Task where
  field : Field
  clockPeriod : Nat
  phase : Phase := .building
  cancelled : Bool := false
  /-- Toggles sent and not applied yet, first one first. -/
  toggles : List Nat := []

namespace Task

def outcome? (t : Task) : Option Outcome :=
  match t.phase with
  | .ended outcome => some outcome
  | _ => none

def hasEnded (t : Task) : Bool := t.outcome?.isSome

def wakeTime? (t : Task) : Option Nat :=
  match t.phase with
  | .sleeping _ wakeAt => if t.cancelled then none else some wakeAt
  | _ => none

/-- One step of a task at the given times, with the delay that is set between ticks. A task that is
asleep and not to be woken stays as it is. -/
def step (rs : Registries) (now : Times) (tickDelay : Nat) (t : Task) (live : LiveStates) : Task × LiveStates :=
  match t.phase with
  | .building =>
    match t.field.build rs t.clockPeriod with
    | .ok b => ({ t with phase := .clearing b.circuit }, live)
    | .error e => ({ t with phase := .ended (.failed (.build e)) }, live)
  | .clearing c => ({ t with phase := .checking c }, ∅)
  | .checking c =>
    ({ t with phase := if t.cancelled then .ended .cancelled else .ticking c }, live)
  | .ticking c =>
    match (c.toggleAll t.toggles).tick now with
    | (c, none) => ({ t with phase := .publishing c, toggles := [] }, live)
    | (_, some failure) =>
      ({ t with phase := .ended (.failed (.script failure)), toggles := [] }, live)
  | .publishing c =>
    ({ t with phase := .sleeping c (now.own + tickDelay) }, LiveStates.publish live c.states)
  | .sleeping c wakeAt =>
    (if t.cancelled || wakeAt ≤ now.own then { t with phase := .checking c } else t, live)
  | .ended _ => (t, live)

/-- A cancelled task has ended after this many steps, wherever it stands. -/
def stepsToEnd : Nat := 4

end Task

end GridCircuit
