import GridCircuit.Json.Basic
import GridCircuit.KeyMap

/-!
# Scripts

A script turns the levels of its inputs into levels for its outputs. It is shared by all components
made from it, so what one component remembers is handed to each run and handed back. A failing run
hands memory back too.
-/

namespace GridCircuit

inductive ScriptError where
  | compile (name message : String)
  | failed (name message : String)
deriving DecidableEq, Repr

def ScriptError.message : ScriptError → String
  | compile name message => s!"script `{name}` failed to compile: {message}"
  | failed name message => s!"script `{name}` failed: {message}"

/-- When a scripted component runs: on any change of an input, or on a rising clock. -/
inductive Trigger where
  | instant
  | clocked
deriving DecidableEq, Repr

/-- What one component remembers between runs. -/
abbrev Memory := KeyMap String Json

structure Script where
  name : String
  trigger : Trigger
  /-- One run on the input levels, with the number of earlier successful runs and the memory. -/
  run : List Bool → Nat → Memory → Memory × Except ScriptError (List Bool)

/-- Compiles the source of the named script. -/
abbrev ScriptHost := (name source : String) → Except ScriptError Script

/-- The host without an interpreter refuses every script. -/
def ScriptHost.none : ScriptHost := fun name _ =>
  .error (.compile name "no script host configured")

end GridCircuit
