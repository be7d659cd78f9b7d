import GridCircuit.Grid.Pos
import GridCircuit.KeyMap

/-!
# Levels by position

A state table keeps levels in numbered slots and addresses them by position; several positions may
share a slot. The live view is what is shown of a running circuit: the levels last published.
-/

namespace GridCircuit

structure StateTable where
  values : Array Bool
  index : KeyMap Pos Nat

namespace StateTable

def empty : StateTable := ⟨#[], ∅⟩

instance : EmptyCollection StateTable := ⟨empty⟩
instance : Inhabited StateTable := ⟨empty⟩

/-- A fresh slot, low, addressed by a position. Gives the number of the slot too. -/
def allocate (t : StateTable) (p : Pos) : StateTable × Nat :=
  (⟨t.values.push false, t.index.insert p t.values.size⟩, t.values.size)

def addAlias (t : StateTable) (p : Pos) (slot : Nat) : StateTable :=
  { t with index := t.index.insert p slot }

def get (t : StateTable) (slot : Nat) : Bool := t.values[slot]?.getD false

def set (t : StateTable) (slot : Nat) (level : Bool) : StateTable :=
  { t with values := t.values.setIfInBounds slot level }

def levelAt? (t : StateTable) (p : Pos) : Option Bool := (t.index.get? p).map t.get

def toList (t : StateTable) : List (Pos × Bool) := t.index.entries.map fun e => (e.1, t.get e.2)

def size (t : StateTable) : Nat := t.index.size

/-- Give a group of cells a slot of their own that holds a level. -/
def place (t : StateTable) (cells : List Pos) (level : Bool) : StateTable :=
  match cells with
  | [] => t
  | first :: rest =>
    let (t, slot) := t.allocate first
    (rest.foldl (fun t p => t.addAlias p slot) t).set slot level

end StateTable

/-- The levels last published, by position. -/
abbrev LiveStates := KeyMap Pos Bool

namespace LiveStates

def level (live : LiveStates) (p : Pos) : Bool := (live.get? p).getD false

/-- Write every level of a table over what was published before. -/
def publish (live : LiveStates) (t : StateTable) : LiveStates :=
  t.toList.foldl (fun live e => live.insert e.1 e.2) live

end LiveStates

end GridCircuit
