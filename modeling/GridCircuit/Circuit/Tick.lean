import GridCircuit.Circuit.Basic
import GridCircuit.Script.Bits

/-!
# Ticks

One tick updates every component that is no wire and then every wire, each time in table order. A
gate therefore shows this tick's output before the wires spread it, and a signal passes one gate and
one wire in a tick.

A script may fail. The tick then stops where it is, and what is left behind is part of its result.
-/

namespace GridCircuit

/-- A script of the component with this first cell failed. -/
structure ScriptFailure where
  pos : Pos
  cause : ScriptError
deriving DecidableEq, Repr

/-- What a step leaves behind, also when it failed. -/
structure Step (α : Type) where
  value : α
  bus : Bus
  failure : Option ScriptFailure

structure Reading where
  inputs : List Bool
  clock : Bool
  own : Bool

namespace Component

def read (c : Component) (bus : Bus) : Reading where
  inputs := c.inputs.map (Bus.level bus)
  clock := c.clock.any (Bus.level bus)
  own := c.level

end Component

def Kind.settle (now : Nat) (r : Reading) : Kind → Kind × Bool
  | .wire => (.wire, r.inputs.any id)
  | .or => (.or, r.inputs.any id)
  | .and => (.and, !r.inputs.isEmpty && r.inputs.all id)
  | .xor => (.xor, (r.inputs[0]?.getD false).xor (r.inputs[1]?.getD false))
  | .not => (.not, !(r.inputs[0]?.getD false))
  | .battery => (.battery, true)
  | .clock phase =>
    let phase := phase.poll now
    (.clock phase, phase.high)
  | .flipFlop edge output =>
    let (rising, edge) := edge.rising r.clock
    let output := if rising then r.inputs[0]?.getD false else output
    (.flipFlop edge output, output)
  | .button => (.button, r.own)
  | .display _ =>
    let value := Bits.toWord r.inputs
    (.display value, value != 0)
  | .scripted unit => (.scripted unit, r.own)
  | .nested pins inner => (.nested pins inner, r.own)

def Kind.showsLevel : Kind → Bool
  | .display _ => false
  | _ => true

namespace Component

def updatePlain (now : Times) (c : Component) (bus : Bus) : Step Component :=
  let (kind, level) := c.kind.settle (now.read [c.firstCell]) (c.read bus)
  let writes := if c.kind.showsLevel then c.outputs.map (·, level) else []
  ⟨{ c with kind, level }, Bus.driveAll bus writes, none⟩

/-- Whether a script is to run now. Asking takes note of the changes, or of the clock level. -/
def fires (c : Component) (unit : ScriptUnit) (bus : Bus) : Bool × ScriptUnit × Bus :=
  match unit.script.trigger with
  | .instant => (c.inputs.any (Bus.hasChanged bus), unit, Bus.acknowledge bus c.inputs)
  | .clocked =>
    let (rising, edge) := unit.edge.rising (c.read bus).clock
    (rising, { unit with edge }, bus)

/-- Run the script of a component and write its results, missing ones as low. -/
def runScript (c : Component) (unit : ScriptUnit) (bus : Bus) : Step Component :=
  match unit.script.run (c.read bus).inputs unit.runs unit.memory with
  | (memory, .error cause) =>
    ⟨{ c with kind := .scripted { unit with memory } }, bus, some ⟨c.firstCell, cause⟩⟩
  | (memory, .ok results) =>
    ⟨{ c with
        kind := .scripted { unit with memory, runs := unit.runs + 1 }
        level := results[0]?.getD false },
      Bus.driveAll bus (c.outputs.zipIdx.map fun (id, i) => (id, results[i]?.getD false)),
      none⟩

def updateScripted (c : Component) (unit : ScriptUnit) (bus : Bus) : Step Component :=
  match c.fires unit bus with
  | (true, unit, bus) => c.runScript unit bus
  | (false, unit, bus) => ⟨{ c with kind := .scripted unit }, bus, none⟩

end Component

def updateWires (now : Times) : List Component → Bus → List Component × Bus
  | [], bus => ([], bus)
  | c :: cs, bus =>
    if c.isWire then
      let s := c.updatePlain now bus
      let (cs, bus) := updateWires now cs s.bus
      (s.value :: cs, bus)
    else
      let (cs, bus) := updateWires now cs bus
      (c :: cs, bus)

namespace Pins

/-- Hand the outer levels to the pins of an inner circuit, as far as both sides have pins. -/
def feed (pins : Pins) (inputs : List Nat) (clock : Option Nat) (outer inner : Bus) : Bus :=
  let levels := (inputs.zip pins.inputs).map fun (o, i) => (i, Bus.level outer o)
  let clockLevel := match clock, pins.clock with
    | some o, some i => [(i, Bus.level outer o)]
    | _, _ => []
  Bus.driveAll inner (levels ++ clockLevel)

def results (pins : Pins) (outputs : List Nat) (inner : Bus) : List (Nat × Bool) :=
  (outputs.zip pins.outputs).map fun (o, i) => (o, Bus.level inner i)

end Pins

/-- Complete a tick after its first half: the wires follow only if no script has failed. -/
def Circuit.completeTick (now : Times) (c : Circuit) (gates : Step (List Component)) :
    Circuit × Option ScriptFailure :=
  match gates.failure with
  | some failure => ({ c with components := gates.value, connections := gates.bus }, some failure)
  | none =>
    let (components, connections) := updateWires now gates.value gates.bus
    ({ c with components, connections, ticks := c.ticks + 1 }, none)

mutual

/-- Update one component. An inner circuit is fed from outside, ticks once, and hands its results
out; the component is high if one of these is. -/
def Component.update (now : Times) : Component → Bus → Step Component
  | ⟨code, .nested pins ⟨name, components, connections, ticks⟩, level, cells, inputs, outputs, clock⟩,
      bus =>
    let fed := pins.feed inputs clock bus connections
    let now := now.inside (cells.headD Pos.origin)
    let (inner, failure) :=
      Circuit.completeTick now ⟨name, components, fed, ticks⟩ (updateGates now components fed)
    match failure with
    | some failure =>
      ⟨⟨code, .nested pins inner, level, cells, inputs, outputs, clock⟩, bus, some failure⟩
    | none =>
      let writes := pins.results outputs inner.connections
      ⟨⟨code, .nested pins inner, writes.any (·.2), cells, inputs, outputs, clock⟩,
        Bus.driveAll bus writes, none⟩
  | ⟨code, .scripted unit, level, cells, inputs, outputs, clock⟩, bus =>
    Component.updateScripted ⟨code, .scripted unit, level, cells, inputs, outputs, clock⟩ unit bus
  | c, bus => c.updatePlain now bus

/-- Update every component that is no wire, up to the first failure. -/
def updateGates (now : Times) : List Component → Bus → Step (List Component)
  | [], bus => ⟨[], bus, none⟩
  | c :: cs, bus =>
    if c.isWire then
      let s := updateGates now cs bus
      { s with value := c :: s.value }
    else
      match Component.update now c bus with
      | ⟨c, bus, some failure⟩ => ⟨c :: cs, bus, some failure⟩
      | ⟨c, bus, none⟩ =>
        let s := updateGates now cs bus
        { s with value := c :: s.value }

end

/-- One tick, with the times that its clocks read. -/
def Circuit.tick (now : Times) (c : Circuit) : Circuit × Option ScriptFailure :=
  c.completeTick now (updateGates now c.components c.connections)

end GridCircuit
