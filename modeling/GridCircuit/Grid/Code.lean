/-!
# Cell codes

A cell holds a small code that says what is painted there. Fifteen codes are fixed; every further
code stands for an entry of the table of custom parts. The numbers are the persisted form.
-/

namespace GridCircuit

inductive Code where
  | empty
  | wire
  | input
  | output
  | clockInput
  | cross
  | and
  | or
  | xor
  | not
  | battery
  | clock
  | flipFlop
  | button
  | display
  | custom (index : Nat)
deriving DecidableEq, Repr, Inhabited

namespace Code

/-- The number of the first custom code. -/
def firstCustom : Nat := 15

/-- The number a code is saved as. -/
def raw : Code → Nat
  | empty => 0
  | wire => 1
  | input => 2
  | output => 3
  | clockInput => 4
  | cross => 5
  | and => 6
  | or => 7
  | xor => 8
  | not => 9
  | battery => 10
  | clock => 11
  | flipFlop => 12
  | button => 13
  | display => 14
  | custom index => firstCustom + index

/-- The code a number stands for; every number stands for one. -/
def ofRaw : Nat → Code
  | 0 => empty
  | 1 => wire
  | 2 => input
  | 3 => output
  | 4 => clockInput
  | 5 => cross
  | 6 => and
  | 7 => or
  | 8 => xor
  | 9 => not
  | 10 => battery
  | 11 => clock
  | 12 => flipFlop
  | 13 => button
  | 14 => display
  | n + 15 => custom n

@[simp] theorem ofRaw_raw (c : Code) : ofRaw c.raw = c := by
  cases c <;> simp [raw, firstCustom, ofRaw, Nat.add_comm 15]

@[simp] theorem raw_ofRaw (n : Nat) : (ofRaw n).raw = n := by
  unfold ofRaw
  split <;> simp [raw, firstCustom, Nat.add_comm 15]

/-- Input, output and clock-input cells: connectors, each a node of its own. -/
def isConnector : Code → Bool
  | input | output | clockInput => true
  | _ => false

def isWire (c : Code) : Bool := c = wire

def isCross (c : Code) : Bool := c = cross

def isEmpty (c : Code) : Bool := c = empty

/-- The position of a custom code in the table of custom parts. -/
def customIndex? : Code → Option Nat
  | custom index => some index
  | _ => none

def isCustom (c : Code) : Bool := c.customIndex?.isSome

/-- The name of a fixed code. -/
def name? : Code → Option String
  | empty => some "none"
  | wire => some "wire"
  | input => some "in"
  | output => some "out"
  | clockInput => some "clock-in"
  | cross => some "cross"
  | and => some "and"
  | or => some "or"
  | xor => some "xor"
  | not => some "not"
  | battery => some "battery"
  | clock => some "clock"
  | flipFlop => some "flip-flop"
  | button => some "button"
  | display => some "display"
  | custom _ => none

/-- The text shown for a code. A custom code shows its number. -/
def label (c : Code) : String := c.name?.getD s!"custom#{c.raw}"

end Code

end GridCircuit
