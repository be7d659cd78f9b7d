/-!
# JSON values

Numbers keep the distinction that integer fields depend on: a literal without fraction and exponent
is an `int`, every other literal (and `-0`) is a `decimal`. A string literal may escape half of a
surrogate pair; no text can hold that, so such a literal has no text. Objects keep their fields in
order, repeated keys included.
-/

namespace GridCircuit

inductive Json where
  | null
  | bool (value : Bool)
  | int (value : Int)
  /-- The number `± mantissa · 10 ^ exponent`. -/
  | decimal (negative : Bool) (mantissa : Nat) (exponent : Int)
  | string (text : Option String)
  | array (items : List Json)
  | object (fields : List (Option String × Json))
deriving Inhabited

namespace Json

def ofText (s : String) : Json := string (some s)

/-- An object with the given fields. -/
def record (fields : List (String × Json)) : Json :=
  object (fields.map fun f => (some f.1, f.2))

/-- Twice this power of two is the least positive double, so a magnitude up to it rounds to zero. -/
def underflowExponent : Nat := 1075

/-- Whether a decimal number, read as a double, differs from zero. -/
def decimalIsNonzero (mantissa : Nat) (exponent : Int) : Bool :=
  match exponent with
  | .ofNat _ => mantissa != 0
  | .negSucc n =>
    if (Nat.toDigits 10 mantissa).length + underflowExponent < n + 1 then false
    else decide (Nat.pow 10 (n + 1) < mantissa <<< underflowExponent)

/-- `null`, `false`, zero and the empty string count as false, everything else as true. -/
def truthy : Json → Bool
  | null => false
  | bool b => b
  | int n => n != 0
  | decimal _ mantissa exponent => decimalIsNonzero mantissa exponent
  | string text => text != some ""
  | array _ => true
  | object _ => true

end Json

end GridCircuit
