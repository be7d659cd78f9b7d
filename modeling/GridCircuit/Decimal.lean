/-!
# Decimal numbers in text
-/

namespace GridCircuit
namespace Decimal

/-- The number written by decimal digits, perhaps after a plus sign, if it is below a bound. -/
def parse? (bound : Nat) (text : String) : Option Nat :=
  let digits := match text.toList with
    | '+' :: ds => ds
    | ds => ds
  if digits.isEmpty || !digits.all Char.isDigit then none
  else
    let n := Nat.ofDigitChars 10 digits 0
    if n < bound then some n else none

end Decimal
end GridCircuit
