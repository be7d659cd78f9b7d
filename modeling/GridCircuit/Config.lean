import GridCircuit.Json.Read
import GridCircuit.Json.Record
import GridCircuit.Json.Write

/-!
# Simulation settings

Three times in milliseconds. A time beyond the bound is cut to the bound, never refused.
-/

namespace GridCircuit

structure Config where
  /-- Pause between two ticks. -/
  tickDelay : Nat := 10
  /-- Time between two flips of a clock. -/
  clockPeriod : Nat := 500
  /-- Quiet time after the last edit before a rebuild. -/
  rebuildDebounce : Nat := 200
deriving DecidableEq, Repr, Inhabited

namespace Config

/-- The longest time that can be set. -/
def maxTime : Nat := 10000

def clamp (ms : Nat) : Nat := min ms maxTime

def clamped (c : Config) : Config :=
  ⟨clamp c.tickDelay, clamp c.clockPeriod, clamp c.rebuildDebounce⟩

def setTickDelay (c : Config) (ms : Nat) : Config := { c with tickDelay := clamp ms }
def setClockPeriod (c : Config) (ms : Nat) : Config := { c with clockPeriod := clamp ms }
def setRebuildDebounce (c : Config) (ms : Nat) : Config := { c with rebuildDebounce := clamp ms }

/-- A time setting in microseconds. -/
def micros (ms : Nat) : Nat := ms * 1000

def fieldNames : List String := ["tick_delay_ms", "clock_period_ms", "rebuild_debounce_ms"]

/-- A setting of a JSON record, or its default if it is left out. -/
def time? (field : Option Json) (default : Nat) : Option Nat :=
  Json.orDefault field default fun j => j.uint64?.map UInt64.toNat

/-- Settings from a JSON value, cut to the bound. -/
def ofJson? (j : Json) : Option Config := do
  let field ← j.record? fieldNames
  let defaults : Config := {}
  let tickDelay ← time? (field "tick_delay_ms") defaults.tickDelay
  let clockPeriod ← time? (field "clock_period_ms") defaults.clockPeriod
  let rebuildDebounce ← time? (field "rebuild_debounce_ms") defaults.rebuildDebounce
  return clamped ⟨tickDelay, clockPeriod, rebuildDebounce⟩

def parse? (text : String) : Option Config := (Json.parse? text).bind ofJson?

def toJson (c : Config) : Json :=
  .record
    [("tick_delay_ms", .int c.tickDelay),
     ("clock_period_ms", .int c.clockPeriod),
     ("rebuild_debounce_ms", .int c.rebuildDebounce)]

end Config

end GridCircuit
