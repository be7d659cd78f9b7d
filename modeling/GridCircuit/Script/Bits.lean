import GridCircuit.Json.Basic

/-!
# Bit sequences

Scripts see levels as sequences of bits, least significant bit first, and may want them as numbers of
64-bit words.
-/

namespace GridCircuit
namespace Bits

/-- The number a bit sequence stands for. -/
def value : List Bool → Nat
  | [] => 0
  | b :: bs => b.toNat + 2 * value bs

/-- A bit sequence as a word. Bits past the 64th are ignored. -/
def toWord (bits : List Bool) : UInt64 := UInt64.ofNat (value (bits.take 64))

/-- The lowest `width` bits of a word; there are only zeros past its 64th. -/
def ofWordWidth (n : UInt64) (width : Nat) : List Bool := (List.range width).map n.toNat.testBit

/-- The number of bits up to the highest that is set. -/
def bitLength (n : Nat) : Nat := if n = 0 then 0 else n.log2 + 1

/-- The shortest bit sequence of a word; zero has none. -/
def ofWord (n : UInt64) : List Bool := ofWordWidth n (bitLength n.toNat)

/-- Bits as a JSON array. -/
def toJson (bits : List Bool) : Json := .array (bits.map .bool)

/-- The bits of a JSON array, an item counting as set if it is truthy. Anything else has no bits. -/
def ofJson : Json → List Bool
  | .array items => items.map Json.truthy
  | _ => []

end Bits
end GridCircuit
