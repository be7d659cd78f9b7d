import GridCircuit.Decimal
import GridCircuit.Script.Basic
import GridCircuit.Script.Bits

/-!
# One-line scripts

A small script language: a source is a trigger, a behaviour and an argument, separated by single
blanks. It covers every way in which a script can use its inputs, its counter and its memory, and the
ways in which it can fail.
-/

namespace GridCircuit
namespace OneLine

/-- What a one-line script does with its inputs. -/
inductive Behavior where
  | echo
  | invert
  | reverse
  | const
  | count
  | double
  | min
  | accum
  | shift
  | fail
  | poison
deriving DecidableEq, Repr

def Behavior.ofName? (name : String) : Option Behavior :=
  [("echo", echo), ("invert", invert), ("reverse", reverse), ("const", const), ("count", count),
    ("double", double), ("min", min), ("accum", accum), ("shift", shift), ("fail", fail),
    ("poison", poison)].lookup name

def triggerOfName? (name : String) : Option Trigger :=
  [("instant", Trigger.instant), ("clocked", Trigger.clocked)].lookup name

/-- A compiled one-line script. `number` is the argument as a number, zero if it is none. -/
structure Program where
  name : String
  behavior : Behavior
  argument : String
  number : Nat
deriving DecidableEq, Repr

/-- The argument as bits. -/
def bitsOf (text : String) : List Bool := text.toList.map (· = '1')

/-- A number that the memory holds, zero if it holds none. -/
def numberAt (memory : Memory) (key : String) : UInt64 :=
  match memory.get? key with
  | some (.int n) => UInt64.ofNat n.toNat
  | _ => 0

def Program.run (p : Program) (inputs : List Bool) (counter : Nat) (memory : Memory) :
    Memory × Except ScriptError (List Bool) :=
  match p.behavior with
  | .echo => (memory, .ok inputs)
  | .invert => (memory, .ok (inputs.map (!·)))
  | .reverse => (memory, .ok inputs.reverse)
  | .const => (memory, .ok (bitsOf p.argument))
  | .count => (memory, .ok (Bits.ofWordWidth (UInt64.ofNat (counter + 1)) p.number))
  | .double => (memory, .ok (Bits.ofWordWidth (Bits.toWord inputs * 2) p.number))
  | .min => (memory, .ok (Bits.ofWord (Bits.toWord inputs)))
  | .accum =>
    let sum := numberAt memory "acc" + Bits.toWord inputs
    (memory.insert "acc" (.int sum.toNat), .ok (Bits.ofWordWidth sum p.number))
  | .shift =>
    let old := ((memory.get? "bits").map Bits.ofJson).getD []
    let bits := (inputs.headD false :: old).take p.number
    (memory.insert "bits" (Bits.toJson bits), .ok bits)
  | .fail =>
    (memory, if counter = p.number then .error (.failed p.name s!"counter {counter}") else .ok inputs)
  | .poison =>
    let tries := numberAt memory "tries" + 1
    (memory.insert "tries" (.int tries.toNat),
      if tries.toNat = p.number then .error (.failed p.name s!"try {tries}")
      else .ok (Bits.ofWordWidth tries 3))

/-- The host of one-line scripts. -/
def host : ScriptHost := fun name source =>
  match source.splitOn " " with
  | [] => .error (.compile name "bad trigger")
  | first :: rest =>
    match triggerOfName? first, rest.head?.bind Behavior.ofName? with
    | none, _ => .error (.compile name "bad trigger")
    | some _, none => .error (.compile name "bad behavior")
    | some trigger, some behavior =>
      let argument := rest.tail.headD ""
      let program : Program :=
        ⟨name, behavior, argument, (Decimal.parse? UInt64.size argument).getD 0⟩
      .ok ⟨name, trigger, program.run⟩

end OneLine
end GridCircuit
