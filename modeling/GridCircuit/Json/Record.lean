import GridCircuit.Json.Basic

/-!
# Records in JSON

A record with declared fields is written as an object, in any order and with further fields to be
ignored, or as an array of its fields in declared order. A declared field may not occur twice.
-/

namespace GridCircuit
namespace Json

/-- The fields of a record by name. `none` if the value is no such record. -/
def record? (names : List String) : Json → Option (String → Option Json)
  | object fields =>
    let keys := fields.map (·.1)
    if keys.all Option.isSome && names.all (fun n => keys.count (some n) ≤ 1) then
      some fun n => (fields.find? fun f => f.1 = some n).map (·.2)
    else
      none
  | array items =>
    if items.length ≤ names.length then some fun n => (names.zip items).lookup n else none
  | _ => none

/-- An integer at least `lo` and below `hi`. -/
def intWithin? (lo hi : Int) : Json → Option Int
  | int n => if lo ≤ n ∧ n < hi then some n else none
  | _ => none

def uint64? (j : Json) : Option UInt64 := (j.intWithin? 0 UInt64.size).map fun n => UInt64.ofNat n.toNat

def uint32? (j : Json) : Option UInt32 := (j.intWithin? 0 UInt32.size).map fun n => UInt32.ofNat n.toNat

def int32? (j : Json) : Option Int32 :=
  (j.intWithin? Int32.minValue.toInt (Int32.maxValue.toInt + 1)).map Int32.ofInt

def items? : Json → Option (List Json)
  | array items => some items
  | _ => none

/-- An optional field: what `decode` makes of it, or a default if it is left out. A field that is
present has to decode. -/
def orDefault {α : Type} (field : Option Json) (default : α) (decode : Json → Option α) : Option α :=
  match field with
  | none => some default
  | some j => decode j

end Json
end GridCircuit
