import GridCircuit.Circuit.Connection
import GridCircuit.Circuit.States
import GridCircuit.Circuit.Timing
import GridCircuit.Script.Basic

/-!
# Circuits

A circuit is a table of components, joined by connections. Components and connections refer to each
other by their numbers in these tables, and each keeps its own level. A component may be a whole
circuit itself; its pins are the connections inside that have one end free.
-/

namespace GridCircuit

/-- A scripted component: the script and what this component has of its own. -/
structure ScriptUnit where
  script : Script
  memory : Memory := ∅
  /-- Number of successful runs. -/
  runs : Nat := 0
  edge : EdgeDetector := {}

/-- The connections inside a nested circuit that stand for connections outside. -/
structure Pins where
  inputs : List Nat
  outputs : List Nat
  clock : Option Nat
deriving DecidableEq, Repr

mutual

/-- What a component does, with what it remembers. -/
inductive Kind where
  | wire
  | and
  | or
  | xor
  | not
  | battery
  | clock (phase : ClockPhase)
  | flipFlop (edge : EdgeDetector) (output : Bool)
  | button
  | display (value : UInt64)
  | scripted (unit : ScriptUnit)
  | nested (pins : Pins) (inner : Circuit)

structure Component where
  code : Code
  kind : Kind
  level : Bool
  /-- The cells of the group, in row-major order. -/
  cells : List Pos
  /-- Numbers of the connections that are read. -/
  inputs : List Nat
  /-- Numbers of the connections that are written. -/
  outputs : List Nat
  clock : Option Nat

structure Circuit where
  name : String
  components : List Component
  connections : Bus
  /-- Number of completed ticks. -/
  ticks : Nat

end

namespace Kind

/-- The initial component for a fixed code. Connectors and crosses are no components. -/
def builtin? (clockPeriod : Nat) : Code → Option Kind
  | .wire => some .wire
  | .and => some .and
  | .or => some .or
  | .xor => some .xor
  | .not => some .not
  | .battery => some .battery
  | .clock => some (.clock { period := clockPeriod })
  | .flipFlop => some (.flipFlop {} false)
  | .button => some .button
  | .display => some (.display 0)
  | _ => none

def isWire : Kind → Bool
  | wire => true
  | _ => false

def isButton : Kind → Bool
  | button => true
  | _ => false

def name : Kind → String
  | wire => "wire"
  | and => "and"
  | or => "or"
  | xor => "xor"
  | not => "not"
  | battery => "battery"
  | clock _ => "clock"
  | flipFlop _ _ => "flip-flop"
  | button => "button"
  | display _ => "display"
  | scripted _ => "scripted"
  | nested _ _ => "nested"

end Kind

namespace Component

def isWire (c : Component) : Bool := c.kind.isWire

def isButton (c : Component) : Bool := c.kind.isButton

def firstCell (c : Component) : Pos := c.cells.headD Pos.origin

def displayValue? (c : Component) : Option UInt64 :=
  match c.kind with
  | .display value => some value
  | _ => none

end Component

namespace Circuit

def empty (name : String) : Circuit := ⟨name, [], #[], 0⟩

instance : Inhabited Circuit := ⟨empty ""⟩

/-- The numbers of the buttons, in the order in which toggles count them. -/
def buttons (c : Circuit) : List Nat :=
  (List.range c.components.length).filter fun id => c.components[id]?.any Component.isButton

def displayValues (c : Circuit) : List (Pos × UInt64) :=
  c.components.filterMap fun m => m.displayValue?.map (m.firstCell, ·)

def connectionAt? (c : Circuit) (p : Pos) : Option Nat := c.connections.findIdx? (·.pos = p)

def componentAt? (c : Circuit) (p : Pos) : Option Nat :=
  c.components.findIdx? fun m => p ∈ m.cells

/-- The levels by position: a slot for each cross, each component and each other connection, in this
order. -/
def states (c : Circuit) : StateTable :=
  let crosses := c.connections.toList.filter fun k => k.kind = .cross
  let others := c.connections.toList.filter fun k => k.kind ≠ .cross
  let groups := crosses.map (fun k => ([k.pos], k.active))
    ++ c.components.map (fun m => (m.cells, m.level))
    ++ others.map fun k => ([k.pos], k.active)
  groups.foldl (fun t group => t.place group.1 group.2) ∅

def componentSlot (c : Circuit) (id : Nat) : Nat :=
  (c.connections.toList.countP fun k => k.kind = .cross) + id

def levelAt? (c : Circuit) (p : Pos) : Option Bool := c.states.levelAt? p

def drive (c : Circuit) (id : Nat) (level : Bool) : Circuit :=
  { c with connections := c.connections.drive id level }

/-- Flip the `n`-th button; `none` if there is no such button. -/
def toggle? (c : Circuit) (n : Nat) : Option Circuit :=
  (c.buttons[n]?).map fun id =>
    { c with components := c.components.modify id fun m => { m with level := !m.level } }

/-- Flip buttons one after another. A number without a button does nothing. -/
def toggleAll (c : Circuit) (events : List Nat) : Circuit :=
  events.foldl (fun c n => (c.toggle? n).getD c) c

def connectionsWhere (bus : Bus) (p : Connection → Bool) : List Nat :=
  (List.range bus.size).filter fun id => bus[id]?.any p

/-- The pins of a circuit that is used as a component: a connection without driver takes an input,
or the clock if it is a clock connection, of which the first counts; a connection without sink gives
an output. Crosses and unattached connections are no pins. -/
def pins (c : Circuit) : Pins where
  inputs := connectionsWhere c.connections fun k =>
    k.kind ≠ .cross && k.kind ≠ .clockInput && k.driver.isNone && k.sink.isSome
  outputs := connectionsWhere c.connections fun k =>
    k.kind ≠ .cross && k.driver.isSome && k.sink.isNone
  clock := c.connections.findIdx? fun k =>
    k.kind = .clockInput && k.driver.isNone && k.sink.isSome

end Circuit

end GridCircuit
