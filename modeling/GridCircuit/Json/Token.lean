/-!
# JSON tokens

The scanner is a machine over characters. Punctuation and quoted strings delimit everything else:
what lies between them and the blanks is a *word*, which must be a literal or a number as a whole.
-/

namespace GridCircuit

/-- A character of a string literal: as written, or a 16-bit unit given by a `\u` escape. -/
inductive TextPiece where
  | char (c : Char)
  | unit (value : Nat)
deriving DecidableEq, Repr

namespace TextPiece

def isHighSurrogate (u : Nat) : Bool := 0xD800 ≤ u && u < 0xDC00
def isLowSurrogate (u : Nat) : Bool := 0xDC00 ≤ u && u < 0xE000

def pairChar (high low : Nat) : Char :=
  Char.ofNat (0x10000 + (high - 0xD800) * 0x400 + (low - 0xDC00))

/-- The characters of a string literal. Two escapes that form a surrogate pair give one character;
half a pair gives none. -/
def decode : List TextPiece → Option (List Char)
  | [] => some []
  | char c :: rest => (decode rest).map (c :: ·)
  | unit u :: unit v :: rest =>
    if isHighSurrogate u then
      if isLowSurrogate v then (decode rest).map (pairChar u v :: ·) else none
    else if isLowSurrogate u then none
    else (decode (unit v :: rest)).map (Char.ofNat u :: ·)
  | unit u :: rest =>
    if isHighSurrogate u || isLowSurrogate u then none else (decode rest).map (Char.ofNat u :: ·)

end TextPiece

inductive Token where
  | openBrace
  | closeBrace
  | openBracket
  | closeBracket
  | comma
  | colon
  | null
  | bool (value : Bool)
  | int (value : Int)
  | decimal (negative : Bool) (mantissa : Nat) (exponent : Int)
  | string (text : Option String)
deriving DecidableEq, Repr

namespace Token

def natOfDigits (ds : List Char) : Nat := Nat.ofDigitChars 10 ds 0

/-- Split off the leading digits; at least one is asked for. -/
def splitDigits? (cs : List Char) : Option (List Char × List Char) :=
  let ds := cs.takeWhile Char.isDigit
  if ds.isEmpty then none else some (ds, cs.dropWhile Char.isDigit)

/-- The exponent part of a number, which ends the number. No exponent part means zero. -/
def exponent? : List Char → Option Int
  | [] => some 0
  | e :: rest =>
    if e = 'e' || e = 'E' then
      let (sign, digits) : Int × List Char :=
        match rest with
        | '-' :: ds => (-1, ds)
        | '+' :: ds => (1, ds)
        | ds => (1, ds)
      if digits.isEmpty || !digits.all Char.isDigit then none else some (sign * natOfDigits digits)
    else
      none

/-- A number without its sign. The integer part has no superfluous leading zero. -/
def ofUnsigned? (negative : Bool) (cs : List Char) : Option Token := do
  let (whole, rest) ← splitDigits? cs
  if whole.head? = some '0' && whole.length ≠ 1 then
    none
  match rest with
  | [] =>
    let n := natOfDigits whole
    if negative then
      if n = 0 then return .decimal true 0 0 else return .int (-n)
    else
      return .int n
  | '.' :: rest =>
    let (fraction, rest) ← splitDigits? rest
    let e ← exponent? rest
    return .decimal negative (natOfDigits (whole ++ fraction)) (e - fraction.length)
  | rest =>
    let e ← exponent? rest
    return .decimal negative (natOfDigits whole) e

/-- The token a whole word stands for. -/
def ofWord? (w : List Char) : Option Token :=
  if w = ['n', 'u', 'l', 'l'] then some .null
  else if w = ['t', 'r', 'u', 'e'] then some (.bool true)
  else if w = ['f', 'a', 'l', 's', 'e'] then some (.bool false)
  else
    match w with
    | '-' :: cs => ofUnsigned? true cs
    | cs => ofUnsigned? false cs

def ofPunctuation? (c : Char) : Option Token :=
  if c = '\x7b' then some .openBrace
  else if c = '\x7d' then some .closeBrace
  else if c = '[' then some .openBracket
  else if c = ']' then some .closeBracket
  else if c = ',' then some .comma
  else if c = ':' then some .colon
  else none

def isBlank (c : Char) : Bool := c = ' ' || c = '\n' || c = '\t' || c = '\r'

def ofEscape? (c : Char) : Option Char :=
  if c = '"' || c = '\\' || c = '/' then some c
  else if c = 'b' then some '\x08'
  else if c = 'f' then some '\x0c'
  else if c = 'n' then some '\n'
  else if c = 'r' then some '\r'
  else if c = 't' then some '\t'
  else none

def hexValue? (c : Char) : Option Nat :=
  if '0' ≤ c && c ≤ '9' then some (c.toNat - '0'.toNat)
  else if 'a' ≤ c && c ≤ 'f' then some (c.toNat - 'a'.toNat + 10)
  else if 'A' ≤ c && c ≤ 'F' then some (c.toNat - 'A'.toNat + 10)
  else none

end Token

/-- Where the scanner stands. Lists are in reverse order of reading. -/
inductive ScanMode where
  | between
  | word (read : List Char)
  | text (read : List TextPiece)
  | escape (read : List TextPiece)
  | unit (read : List TextPiece) (digits value : Nat)
deriving DecidableEq, Repr

/-- The scanner with the tokens found so far, latest first. -/
structure Scanner where
  mode : ScanMode
  tokens : List Token
deriving DecidableEq, Repr

namespace Scanner

def start : Scanner := ⟨.between, []⟩

/-- Read a character that belongs to no word and no string. -/
def stepBetween (tokens : List Token) (c : Char) : Scanner :=
  if Token.isBlank c then ⟨.between, tokens⟩
  else if c = '"' then ⟨.text [], tokens⟩
  else
    match Token.ofPunctuation? c with
    | some t => ⟨.between, t :: tokens⟩
    | none => ⟨.word [c], tokens⟩

def endsWord (c : Char) : Bool :=
  Token.isBlank c || c = '"' || (Token.ofPunctuation? c).isSome

def textToken (read : List TextPiece) : Token :=
  .string ((TextPiece.decode read.reverse).map String.ofList)

/-- Read one character; `none` when no text goes on this way. -/
def step (s : Scanner) (c : Char) : Option Scanner :=
  match s.mode with
  | .between => some (stepBetween s.tokens c)
  | .word read =>
    if endsWord c then
      (Token.ofWord? read.reverse).map fun t => stepBetween (t :: s.tokens) c
    else
      some { s with mode := .word (c :: read) }
  | .text read =>
    if c = '"' then some ⟨.between, textToken read :: s.tokens⟩
    else if c = '\\' then some { s with mode := .escape read }
    else if c.toNat < 0x20 then none
    else some { s with mode := .text (.char c :: read) }
  | .escape read =>
    if c = 'u' then some { s with mode := .unit read 0 0 }
    else (Token.ofEscape? c).map fun d => { s with mode := .text (.char d :: read) }
  | .unit read digits value =>
    (Token.hexValue? c).map fun d =>
      let value := 16 * value + d
      if digits = 3 then { s with mode := .text (.unit value :: read) }
      else { s with mode := .unit read (digits + 1) value }

/-- The tokens read, first one first, if the text may end here. -/
def finish (s : Scanner) : Option (List Token) :=
  match s.mode with
  | .between => some s.tokens.reverse
  | .word read => (Token.ofWord? read.reverse).map fun t => (t :: s.tokens).reverse
  | _ => none

end Scanner

def Token.scan (cs : List Char) : Option (List Token) :=
  (cs.foldlM Scanner.step Scanner.start).bind Scanner.finish

end GridCircuit
