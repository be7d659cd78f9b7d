import GridCircuit.Grid.Code
import GridCircuit.Grid.Pos

/-!
# Connections

A connection sits on one connector or cross cell and carries a level from one component, its driver,
to one other, its sink. A connection without a driver is written by nobody and stays low; a cross
connection has neither.
-/

namespace GridCircuit

/-- The role of a connection, named from the side of the component that is no wire. -/
inductive ConnectionKind where
  | input
  | output
  | clockInput
  | cross
deriving DecidableEq, Repr, Inhabited

def ConnectionKind.ofCode? : Code → Option ConnectionKind
  | .input => some .input
  | .output => some .output
  | .clockInput => some .clockInput
  | .cross => some .cross
  | _ => none

structure Connection where
  pos : Pos
  kind : ConnectionKind
  /-- The number of the component that writes the level. -/
  driver : Option Nat
  /-- The number of the component that reads the level. -/
  sink : Option Nat
  active : Bool := false
  /-- Whether the level has changed since a reader last asked. -/
  changed : Bool := false
deriving DecidableEq, Repr, Inhabited

namespace Connection

def isFull (c : Connection) : Bool := c.driver.isSome && c.sink.isSome

/-- Write a level. Only a real transition counts as a change. -/
def drive (c : Connection) (level : Bool) : Connection :=
  if c.active = level then c else { c with active := level, changed := true }

def acknowledge (c : Connection) : Connection := { c with changed := false }

end Connection

abbrev Bus := Array Connection

namespace Bus

def level (bus : Bus) (id : Nat) : Bool := (bus[id]?.map (·.active)).getD false

def hasChanged (bus : Bus) (id : Nat) : Bool := (bus[id]?.map (·.changed)).getD false

def drive (bus : Bus) (id : Nat) (level : Bool) : Bus := bus.modify id (·.drive level)

def driveAll (bus : Bus) (writes : List (Nat × Bool)) : Bus :=
  writes.foldl (fun bus w => Bus.drive bus w.1 w.2) bus

/-- Take note of the changes of some connections. -/
def acknowledge (bus : Bus) (ids : List Nat) : Bus :=
  ids.foldl (fun bus id => bus.modify id Connection.acknowledge) bus

end Bus

end GridCircuit
