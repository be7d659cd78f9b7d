import GridCircuit.Json.Basic

/-!
# Writing JSON

A value is written either on one line without blanks or with every item and field on a line of its
own, two spaces further in than its container. Empty containers stay closed up.
-/

namespace GridCircuit

inductive JsonLayout where
  | compact
  | indented
deriving DecidableEq, Repr

namespace JsonLayout

/-- The start of a line at some depth. -/
def newline (l : JsonLayout) (depth : Nat) : List Char :=
  match l with
  | .compact => []
  | .indented => '\n' :: List.replicate (2 * depth) ' '

/-- What stands between a key and its value. -/
def colon : JsonLayout → List Char
  | .compact => [':']
  | .indented => [':', ' ']

end JsonLayout

namespace Json

open JsonLayout

def hexDigit (n : Nat) : Char := Nat.digitChar (n % 16)

/-- How a character is written inside quotes: quotes, backslashes and control characters are escaped,
with a letter where there is one. -/
def escapeChar (c : Char) : List Char :=
  if c = '"' then ['\\', '"']
  else if c = '\\' then ['\\', '\\']
  else if c = '\x08' then ['\\', 'b']
  else if c = '\x0c' then ['\\', 'f']
  else if c = '\n' then ['\\', 'n']
  else if c = '\r' then ['\\', 'r']
  else if c = '\t' then ['\\', 't']
  else if c.toNat < 0x20 then
    ['\\', 'u', '0', '0', hexDigit (c.toNat / 16), hexDigit c.toNat]
  else [c]

/-- A quoted text. A literal that stands for no text is written as one lone surrogate. -/
def writeText : Option String → List Char
  | some s => '"' :: s.toList.flatMap escapeChar ++ ['"']
  | none => ['"', '\\', 'u', 'd', '8', '0', '0', '"']

def writeNat (n : Nat) : List Char := Nat.toDigits 10 n

def writeInt : Int → List Char
  | .ofNat n => writeNat n
  | .negSucc n => '-' :: writeNat (n + 1)

mutual

/-- A value whose first line starts at the given depth. -/
def writeAt (l : JsonLayout) (depth : Nat) : Json → List Char
  | null => ['n', 'u', 'l', 'l']
  | bool true => ['t', 'r', 'u', 'e']
  | bool false => ['f', 'a', 'l', 's', 'e']
  | int n => writeInt n
  | decimal negative mantissa exponent =>
    (if negative then ['-'] else []) ++ writeNat mantissa ++ 'e' :: writeInt exponent
  | string text => writeText text
  | array [] => ['[', ']']
  | array (item :: items) =>
    '[' :: newline l (depth + 1) ++ writeAt l (depth + 1) item ++ writeItems l (depth + 1) items
      ++ newline l depth ++ [']']
  | object [] => ['\x7b', '\x7d']
  | object (field :: fields) =>
    '\x7b' :: newline l (depth + 1) ++ writeField l (depth + 1) field
      ++ writeFields l (depth + 1) fields ++ newline l depth ++ ['\x7d']

/-- The items after the first one. -/
def writeItems (l : JsonLayout) (depth : Nat) : List Json → List Char
  | [] => []
  | item :: items =>
    ',' :: newline l depth ++ writeAt l depth item ++ writeItems l depth items

/-- The fields after the first one. -/
def writeFields (l : JsonLayout) (depth : Nat) : List (Option String × Json) → List Char
  | [] => []
  | field :: fields =>
    ',' :: newline l depth ++ writeField l depth field ++ writeFields l depth fields

def writeField (l : JsonLayout) (depth : Nat) : Option String × Json → List Char
  | (key, value) => writeText key ++ colon l ++ writeAt l depth value

end

def compact (j : Json) : String := String.ofList (j.writeAt .compact 0)

def pretty (j : Json) : String := String.ofList (j.writeAt .indented 0)

end Json

end GridCircuit
