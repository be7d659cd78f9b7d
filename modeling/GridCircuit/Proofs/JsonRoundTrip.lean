import GridCircuit.Json.Read
import GridCircuit.Json.Write
import Mathlib.Data.List.Basic

/-!
# Written JSON reads as what was written

The scanner turns the text of a value into the tokens of the value, and the reader turns those into
the value. Both are followed along the structure of the value, with any text or tokens after it; only
a word has to be delimited by what follows.
-/

namespace GridCircuit

namespace Scanner

variable {acc : List Token} {rest cs : List Char} {c : Char} {t : Token}

/-- The tokens of a text, from a state of the scanner on. -/
def scanFrom (s : Scanner) (cs : List Char) : Option (List Token) := (cs.foldlM step s).bind finish

theorem scanFrom_cons (s : Scanner) (c : Char) (cs : List Char) :
    s.scanFrom (c :: cs) = (s.step c).bind (scanFrom · cs) := by
  rw [scanFrom, List.foldlM_cons]
  cases s.step c <;> rfl

theorem scanFrom_of_step {s s' : Scanner} (h : s.step c = some s') :
    s.scanFrom (c :: cs) = s'.scanFrom cs := by
  rw [scanFrom_cons, h, Option.bind_some]

/-- The text ends, or goes on with something that belongs to no word. -/
def Delimited (rest : List Char) : Prop := ∀ c ∈ rest.head?, endsWord c = true

theorem delimited_nil : Delimited [] := fun _ h => by cases h

theorem delimited_cons (h : endsWord c = true) : Delimited (c :: cs) := by
  intro d hd
  obtain rfl := Option.some.inj hd
  exact h

theorem scanFrom_between_blank (h : Token.isBlank c = true) :
    scanFrom ⟨.between, acc⟩ (c :: cs) = scanFrom ⟨.between, acc⟩ cs := by
  refine scanFrom_of_step ?_
  rw [step, stepBetween, if_pos h]

theorem scanFrom_blanks (n : Nat) :
    scanFrom ⟨.between, acc⟩ (List.replicate n ' ' ++ rest) = scanFrom ⟨.between, acc⟩ rest := by
  induction n with
  | zero => rfl
  | succ n ih => exact (scanFrom_between_blank rfl).trans ih

theorem scanFrom_newline (l : JsonLayout) (depth : Nat) :
    scanFrom ⟨.between, acc⟩ (l.newline depth ++ rest) = scanFrom ⟨.between, acc⟩ rest := by
  cases l with
  | compact => rfl
  | indented => exact (scanFrom_between_blank rfl).trans (scanFrom_blanks _)

theorem delimited_newline (l : JsonLayout) (depth : Nat) (h : endsWord c = true) :
    Delimited (l.newline depth ++ c :: rest) := by
  cases l with
  | compact => exact delimited_cons h
  | indented => exact delimited_cons rfl

section Words

theorem stepBetween_word (h : endsWord c = false) : stepBetween acc c = ⟨.word [c], acc⟩ := by
  simp only [endsWord, Bool.or_eq_false_iff, decide_eq_false_iff_not, Option.isSome_eq_false_iff,
    Option.isNone_iff_eq_none] at h
  rw [stepBetween, if_neg (by simp [h.1.1]), if_neg h.1.2, h.2]

theorem scanFrom_inWord : ∀ (w read : List Char), (∀ c ∈ w, endsWord c = false) →
    scanFrom ⟨.word read, acc⟩ (w ++ rest) = scanFrom ⟨.word (w.reverse ++ read), acc⟩ rest := by
  intro w
  induction w with
  | nil => exact fun _ _ => rfl
  | cons c w ih =>
    intro read hw
    have hstep : step ⟨.word read, acc⟩ c = some ⟨.word (c :: read), acc⟩ := by
      simp only [step, hw c List.mem_cons_self]
      rfl
    refine (scanFrom_of_step hstep).trans ((ih _ fun d hd => hw d (List.mem_cons_of_mem _ hd)).trans ?_)
    rw [List.reverse_cons, List.append_assoc, List.singleton_append]

theorem scanFrom_endWord {read : List Char} (ht : Token.ofWord? read.reverse = some t)
    (hrest : Delimited rest) :
    scanFrom ⟨.word read, acc⟩ rest = scanFrom ⟨.between, t :: acc⟩ rest := by
  cases rest with
  | nil => simp only [scanFrom, List.foldlM_nil, Option.pure_def, Option.bind_some, finish, ht,
      Option.map_some]
  | cons c cs =>
    have hstep : step ⟨.word read, acc⟩ c = step ⟨.between, t :: acc⟩ c := by
      simp only [step, hrest c rfl, ht, Option.map_some, if_true]
    rw [scanFrom_cons, hstep, scanFrom_cons]

theorem not_endsWord_of_all {w : List Char} (h : (w.all fun c => !endsWord c) = true) {c : Char}
    (hc : c ∈ w) : endsWord c = false := by
  simpa using List.all_eq_true.1 h c hc

/-- A word is read as its token. -/
theorem scanFrom_word {w : List Char} (hne : w ≠ []) (hw : ∀ c ∈ w, endsWord c = false)
    (ht : Token.ofWord? w = some t) (hrest : Delimited rest) :
    scanFrom ⟨.between, acc⟩ (w ++ rest) = scanFrom ⟨.between, t :: acc⟩ rest := by
  obtain ⟨c, cs, rfl⟩ := List.exists_cons_of_ne_nil hne
  have hstep : step ⟨.between, acc⟩ c = some ⟨.word [c], acc⟩ :=
    congrArg some (stepBetween_word (hw c List.mem_cons_self))
  rw [List.cons_append, scanFrom_of_step hstep,
    scanFrom_inWord cs [c] fun d hd => hw d (List.mem_cons_of_mem _ hd)]
  refine scanFrom_endWord ?_ hrest
  rwa [List.reverse_append, List.reverse_reverse, List.reverse_singleton, List.singleton_append]

end Words

section Texts

open Json

/-- How the scanner keeps a character of a text: as an escaped unit if it was written as one. -/
def pieceOf (c : Char) : TextPiece :=
  if (escapeChar c).length = 6 then .unit c.toNat else .char c

theorem hexValue?_hexDigit (n : Nat) : Token.hexValue? (hexDigit n) = some (n % 16) := by
  have h : ∀ k < 16, Token.hexValue? (Nat.digitChar k) = some k := by decide
  exact h _ (Nat.mod_lt n (by decide))

/-- A character is escaped by a letter or by its number, or written as it is. -/
theorem escapeChar_cases (c : Char) :
    (∃ d, escapeChar c = ['\\', d] ∧ d ≠ 'u' ∧ Token.ofEscape? d = some c) ∨
      (c.toNat < 0x20 ∧
        escapeChar c = ['\\', 'u', '0', '0', hexDigit (c.toNat / 16), hexDigit c.toNat]) ∨
      (c ≠ '"' ∧ c ≠ '\\' ∧ ¬ c.toNat < 0x20 ∧ escapeChar c = [c]) := by
  by_cases h₁ : c = '"'
  · exact .inl ⟨'"', by rw [h₁]; rfl, by decide, by rw [h₁]; rfl⟩
  by_cases h₂ : c = '\\'
  · exact .inl ⟨'\\', by rw [h₂]; rfl, by decide, by rw [h₂]; rfl⟩
  by_cases h₃ : c = '\x08'
  · exact .inl ⟨'b', by rw [h₃]; rfl, by decide, by rw [h₃]; rfl⟩
  by_cases h₄ : c = '\x0c'
  · exact .inl ⟨'f', by rw [h₄]; rfl, by decide, by rw [h₄]; rfl⟩
  by_cases h₅ : c = '\n'
  · exact .inl ⟨'n', by rw [h₅]; rfl, by decide, by rw [h₅]; rfl⟩
  by_cases h₆ : c = '\r'
  · exact .inl ⟨'r', by rw [h₆]; rfl, by decide, by rw [h₆]; rfl⟩
  by_cases h₇ : c = '\t'
  · exact .inl ⟨'t', by rw [h₇]; rfl, by decide, by rw [h₇]; rfl⟩
  by_cases h₈ : c.toNat < 0x20
  · refine .inr (.inl ⟨h₈, ?_⟩)
    rw [escapeChar, if_neg h₁, if_neg h₂, if_neg h₃, if_neg h₄, if_neg h₅, if_neg h₆, if_neg h₇,
      if_pos h₈]
  · refine .inr (.inr ⟨h₁, h₂, h₈, ?_⟩)
    rw [escapeChar, if_neg h₁, if_neg h₂, if_neg h₃, if_neg h₄, if_neg h₅, if_neg h₆, if_neg h₇,
      if_neg h₈]

theorem pieceOf_cases (c : Char) :
    pieceOf c = .char c ∨ c.toNat < 0x20 ∧ pieceOf c = .unit c.toNat := by
  obtain ⟨d, he, -⟩ | ⟨hlt, he⟩ | ⟨-, -, -, he⟩ := escapeChar_cases c
  · exact .inl (by rw [pieceOf, he]; rfl)
  · exact .inr ⟨hlt, by rw [pieceOf, he]; rfl⟩
  · exact .inl (by rw [pieceOf, he]; rfl)

theorem scanFrom_unit (read : List TextPiece) {n : Nat} (hn : n < 0x20) :
    scanFrom ⟨.text read, acc⟩
        (['\\', 'u', '0', '0', hexDigit (n / 16), hexDigit n] ++ rest) =
      scanFrom ⟨.text (.unit n :: read), acc⟩ rest := by
  have hopen : ∀ cs, scanFrom ⟨.text read, acc⟩ ('\\' :: 'u' :: '0' :: '0' :: cs) =
      scanFrom ⟨.unit read 2 0, acc⟩ cs := fun cs => rfl
  have hhigh : step ⟨.unit read 2 0, acc⟩ (hexDigit (n / 16)) =
      some ⟨.unit read 3 (n / 16 % 16), acc⟩ := by
    simp [step, hexValue?_hexDigit]
  have hlow : step ⟨.unit read 3 (n / 16 % 16), acc⟩ (hexDigit n) =
      some ⟨.text (.unit n :: read), acc⟩ := by
    have hvalue : 16 * (n / 16 % 16) + n % 16 = n := by omega
    simp [step, hexValue?_hexDigit, hvalue]
  exact (hopen _).trans ((scanFrom_of_step hhigh).trans (scanFrom_of_step hlow))

theorem scanFrom_escapeChar (read : List TextPiece) (c : Char) :
    scanFrom ⟨.text read, acc⟩ (escapeChar c ++ rest) =
      scanFrom ⟨.text (pieceOf c :: read), acc⟩ rest := by
  obtain ⟨d, he, hu, hd⟩ | ⟨hlt, he⟩ | ⟨hquote, hslash, hge, he⟩ := escapeChar_cases c
  · have hpiece : pieceOf c = .char c := by rw [pieceOf, he]; rfl
    have hopen : ∀ cs, scanFrom ⟨.text read, acc⟩ ('\\' :: cs) =
        scanFrom ⟨.escape read, acc⟩ cs := fun cs => rfl
    have hstep : step ⟨.escape read, acc⟩ d = some ⟨.text (.char c :: read), acc⟩ := by
      simp only [step, if_neg hu, hd, Option.map_some]
    rw [he, hpiece]
    exact (hopen _).trans (scanFrom_of_step hstep)
  · have hpiece : pieceOf c = .unit c.toNat := by rw [pieceOf, he]; rfl
    rw [he, hpiece, scanFrom_unit read hlt]
  · have hpiece : pieceOf c = .char c := by rw [pieceOf, he]; rfl
    have hstep : step ⟨.text read, acc⟩ c = some ⟨.text (.char c :: read), acc⟩ := by
      simp only [step, if_neg hquote, if_neg hslash, if_neg hge]
    rw [he, hpiece]
    exact scanFrom_of_step hstep

theorem scanFrom_inText : ∀ (cs : List Char) (read : List TextPiece),
    scanFrom ⟨.text read, acc⟩ (cs.flatMap escapeChar ++ rest) =
      scanFrom ⟨.text ((cs.map pieceOf).reverse ++ read), acc⟩ rest := by
  intro cs
  induction cs with
  | nil => exact fun _ => rfl
  | cons c cs ih =>
    intro read
    rw [List.flatMap_cons, List.append_assoc, scanFrom_escapeChar, ih, List.map_cons,
      List.reverse_cons, List.append_assoc, List.singleton_append]

theorem decode_pieceOf (c : Char) (pieces : List TextPiece) :
    TextPiece.decode (pieceOf c :: pieces) = (TextPiece.decode pieces).map (c :: ·) := by
  obtain he | ⟨hlt, he⟩ := pieceOf_cases c
  · rw [he, TextPiece.decode]
  · have hhigh : TextPiece.isHighSurrogate c.toNat = false := by
      rw [TextPiece.isHighSurrogate, decide_eq_false (by omega), Bool.false_and]
    have hlow : TextPiece.isLowSurrogate c.toNat = false := by
      rw [TextPiece.isLowSurrogate, decide_eq_false (by omega), Bool.false_and]
    rw [he]
    cases pieces with
    | nil => simp [TextPiece.decode, hhigh, hlow]
    | cons piece pieces => cases piece <;> simp [TextPiece.decode, hhigh, hlow]

theorem decode_map_pieceOf (cs : List Char) : TextPiece.decode (cs.map pieceOf) = some cs := by
  induction cs with
  | nil => rfl
  | cons c cs ih => rw [List.map_cons, decode_pieceOf, ih, Option.map_some]

/-- A quoted text is read as the text. -/
theorem scanFrom_text (text : Option String) :
    scanFrom ⟨.between, acc⟩ (writeText text ++ rest) =
      scanFrom ⟨.between, .string text :: acc⟩ rest := by
  cases text with
  | none => rfl
  | some s =>
    have hopen : ∀ cs, scanFrom ⟨.between, acc⟩ ('"' :: cs) = scanFrom ⟨.text [], acc⟩ cs := 
      fun cs => rfl
    have hclose : ∀ read, scanFrom ⟨.text read, acc⟩ ('"' :: rest) =
        scanFrom ⟨.between, textToken read :: acc⟩ rest := fun read => rfl
    rw [writeText, List.cons_append, List.cons_append, hopen, List.append_assoc, scanFrom_inText,
      List.append_nil, List.singleton_append, hclose, textToken, List.reverse_reverse,
      decode_map_pieceOf, Option.map_some, String.ofList_toList]

end Texts

end Scanner

namespace Token

open Json

variable {n : Nat} {c : Char} {cs : List Char}

theorem endsWord_cases (h : Scanner.endsWord c = true) :
    c ∈ [' ', '\n', '\t', '\r', '"', '\x7b', '\x7d', '[', ']', ',', ':'] := by
  simp only [Scanner.endsWord, isBlank, Bool.or_eq_true, decide_eq_true_eq] at h
  obtain (((((rfl | rfl) | rfl) | rfl) | rfl) | hp) := h
  any_goals decide
  unfold ofPunctuation? at hp
  split at hp
  case isTrue h => rw [h]; decide
  split at hp
  case isTrue h => rw [h]; decide
  split at hp
  case isTrue h => rw [h]; decide
  split at hp
  case isTrue h => rw [h]; decide
  split at hp
  case isTrue h => rw [h]; decide
  split at hp
  case isTrue h => rw [h]; decide
  case isFalse => cases hp

theorem endsWord_digit (h : c.isDigit = true) : Scanner.endsWord c = false := by
  have hno : ([' ', '\n', '\t', '\r', '"', '\x7b', '\x7d', '[', ']', ',', ':'].all fun d =>
      !d.isDigit) = true := by decide
  by_contra hends
  have hc := List.all_eq_true.1 hno c (endsWord_cases (by simpa using hends))
  rw [h] at hc
  cases hc

theorem isDigit_of_mem_writeNat (h : c ∈ writeNat n) : c.isDigit = true :=
  Nat.isDigit_of_mem_toDigits (by decide) (by decide) h

theorem natOfDigits_writeNat (n : Nat) : natOfDigits (writeNat n) = n :=
  Nat.ofDigitChars_ten_toDigits

theorem writeNat_ne_nil (n : Nat) : writeNat n ≠ [] := Nat.toDigits_ne_nil

/-- Only zero is written with a zero in front. -/
theorem head?_writeNat : ∀ n : Nat, n ≠ 0 → (writeNat n).head? ≠ some '0' := by
  intro n
  induction n using Nat.strongRecOn with
  | _ n ih =>
    intro hn
    by_cases hlt : n < 10
    · have hdigit : ∀ k < 10, k ≠ 0 → Nat.digitChar k ≠ '0' := by decide
      rw [writeNat, Nat.toDigits_of_lt_base hlt, List.head?_singleton, Ne, Option.some.injEq]
      exact hdigit n hlt hn
    · rw [writeNat, Nat.toDigits_of_base_le (by decide) (by omega),
        List.head?_append_of_ne_nil _ Nat.toDigits_ne_nil]
      exact ih (n / 10) (by omega) (by omega)

theorem splitDigits?_writeNat (n : Nat) (cs : List Char) (hcs : ∀ c ∈ cs.head?, c.isDigit = false) :
    splitDigits? (writeNat n ++ cs) = some (writeNat n, cs) := by
  have htake : cs.takeWhile Char.isDigit = [] ∧ cs.dropWhile Char.isDigit = cs := by
    cases cs with
    | nil => exact ⟨rfl, rfl⟩
    | cons c cs => simp [hcs c rfl]
  have hall : ∀ c ∈ writeNat n, c.isDigit = true := fun c hc => isDigit_of_mem_writeNat hc
  rw [splitDigits?, List.takeWhile_append_of_pos hall, List.dropWhile_append_of_pos hall, htake.1,
    htake.2, List.append_nil, if_neg (by simpa using writeNat_ne_nil n)]

theorem no_superfluous_zero (n : Nat) :
    ((writeNat n).head? = some '0' && (writeNat n).length ≠ 1) = false := by
  by_cases hn : n = 0
  · rw [hn]
    rfl
  · rw [decide_eq_false (head?_writeNat n hn), Bool.false_and]

theorem ofUnsigned?_writeNat (negative : Bool) (n : Nat) : ofUnsigned? negative (writeNat n) =
    some (if negative then (if n = 0 then .decimal true 0 0 else .int (-n)) else .int n) := by
  have hsplit := splitDigits?_writeNat n [] (fun c hc => by cases hc)
  rw [List.append_nil] at hsplit
  have hzero := no_superfluous_zero n
  simp only [ofUnsigned?, hsplit, Option.bind_eq_bind, Option.bind_some, hzero, natOfDigits_writeNat]
  cases negative with
  | false => rfl
  | true => by_cases hn : n = 0 <;> simp [hn]

theorem all_isDigit_writeNat (n : Nat) :
    ((writeNat n).isEmpty || !(writeNat n).all Char.isDigit) = false := by
  rw [Bool.or_eq_false_iff, List.isEmpty_eq_false_iff, Bool.not_eq_false', List.all_eq_true]
  exact ⟨writeNat_ne_nil n, fun c hc => isDigit_of_mem_writeNat hc⟩

theorem exists_digit (n : Nat) : ∃ d ds, writeNat n = d :: ds ∧ d.isDigit = true := by
  obtain ⟨d, ds, he⟩ := List.exists_cons_of_ne_nil (writeNat_ne_nil n)
  exact ⟨d, ds, he, isDigit_of_mem_writeNat (he ▸ List.mem_cons_self)⟩

/-- Digits without a sign make a positive exponent. -/
theorem exponent?_of_isDigit {d : Char} (hd : d.isDigit = true) (ds : List Char) :
    exponent? ('e' :: d :: ds) =
      if (d :: ds).isEmpty || !(d :: ds).all Char.isDigit then none
      else some (natOfDigits (d :: ds) : Int) := by
  have hminus : d ≠ '-' := by
    rintro rfl
    cases hd
  have hplus : d ≠ '+' := by
    rintro rfl
    cases hd
  simp only [exponent?, decide_true, Bool.true_or, if_true]
  split
  case h_1 h => exact absurd (List.cons.inj h).1 hminus
  case h_2 h => exact absurd (List.cons.inj h).1 hplus
  case h_3 => rw [Int.one_mul]

theorem exponent?_writeInt (e : Int) : exponent? ('e' :: writeInt e) = some e := by
  cases e with
  | ofNat n =>
    obtain ⟨d, ds, he, hd⟩ := exists_digit n
    have hall := all_isDigit_writeNat n
    have hn := natOfDigits_writeNat n
    rw [he] at hall hn
    rw [writeInt, he, exponent?_of_isDigit hd, hall, hn]
    rfl
  | negSucc n =>
    have hall := all_isDigit_writeNat (n + 1)
    have hn := natOfDigits_writeNat (n + 1)
    simp only [exponent?, writeInt, hall, hn, decide_true, Bool.true_or, if_true]
    rw [if_neg Bool.false_ne_true, Int.negSucc_eq, Int.neg_one_mul]
    rfl

theorem ofUnsigned?_decimal (negative : Bool) (n : Nat) (e : Int) :
    ofUnsigned? negative (writeNat n ++ 'e' :: writeInt e) = some (.decimal negative n e) := by
  have hsplit := splitDigits?_writeNat n ('e' :: writeInt e) (fun c hc => by cases hc; rfl)
  have hzero := no_superfluous_zero n
  simp only [ofUnsigned?, hsplit, Option.bind_eq_bind, Option.bind_some, hzero, natOfDigits_writeNat]
  show ((exponent? ('e' :: writeInt e)).bind fun e => some (decimal negative n e)) = _
  rw [exponent?_writeInt, Option.bind_some]

theorem ofWord?_minus (cs : List Char) : ofWord? ('-' :: cs) = ofUnsigned? true cs := by
  simp [ofWord?]

theorem ofWord?_of_isDigit {d : Char} (hd : d.isDigit = true) (ds : List Char) :
    ofWord? (d :: ds) = ofUnsigned? false (d :: ds) := by
  have hne : ∀ c : Char, c.isDigit = false → d ≠ c := by
    rintro c hc rfl
    rw [hd] at hc
    cases hc
  have hword : ∀ (c : Char) (cs : List Char), c.isDigit = false → d :: ds ≠ c :: cs :=
    fun c cs hc he => hne c hc (List.cons.inj he).1
  rw [ofWord?, if_neg (hword _ _ rfl), if_neg (hword _ _ rfl), if_neg (hword _ _ rfl)]
  exact fun cs => hword _ _ rfl

theorem ofWord?_writeNat_append (n : Nat) (cs : List Char) :
    ofWord? (writeNat n ++ cs) = ofUnsigned? false (writeNat n ++ cs) := by
  obtain ⟨d, ds, he, hd⟩ := exists_digit n
  rw [he, List.cons_append, ofWord?_of_isDigit hd]

theorem ofWord?_writeInt (n : Int) : ofWord? (writeInt n) = some (.int n) := by
  cases n with
  | ofNat n =>
    have hword := ofWord?_writeNat_append n []
    rw [List.append_nil] at hword
    rw [writeInt, hword, ofUnsigned?_writeNat]
    rfl
  | negSucc n =>
    rw [writeInt, ofWord?_minus, ofUnsigned?_writeNat, if_pos rfl, if_neg n.succ_ne_zero]
    rfl

theorem ofWord?_decimal (negative : Bool) (n : Nat) (e : Int) :
    ofWord? ((if negative then ['-'] else []) ++ writeNat n ++ 'e' :: writeInt e) =
      some (.decimal negative n e) := by
  cases negative with
  | false =>
    rw [if_neg Bool.false_ne_true, List.nil_append, ofWord?_writeNat_append, ofUnsigned?_decimal]
  | true =>
    rw [if_pos rfl, List.singleton_append, List.cons_append, ofWord?_minus, ofUnsigned?_decimal]

theorem endsWord_writeInt {n : Int} (h : c ∈ writeInt n) : Scanner.endsWord c = false := by
  cases n with
  | ofNat n => exact endsWord_digit (isDigit_of_mem_writeNat h)
  | negSucc n =>
    obtain rfl | h := List.mem_cons.1 h
    · rfl
    · exact endsWord_digit (isDigit_of_mem_writeNat h)

theorem endsWord_decimal {negative : Bool} {n : Nat} {e : Int}
    (h : c ∈ (if negative then ['-'] else []) ++ writeNat n ++ 'e' :: writeInt e) :
    Scanner.endsWord c = false := by
  rw [List.mem_append, List.mem_append, List.mem_cons] at h
  obtain (h | h) | rfl | h := h
  · cases negative with
    | false => cases h
    | true =>
      obtain rfl := List.mem_singleton.1 h
      rfl
  · exact endsWord_digit (isDigit_of_mem_writeNat h)
  · rfl
  · exact endsWord_writeInt h

end Token

namespace Json

mutual

/-- The tokens of a written value. -/
def tokens : Json → List Token
  | null => [.null]
  | bool b => [.bool b]
  | int n => [.int n]
  | decimal negative mantissa exponent => [.decimal negative mantissa exponent]
  | string text => [.string text]
  | array [] => [.openBracket, .closeBracket]
  | array (item :: items) =>
    .openBracket :: (tokens item ++ itemTokens items ++ [.closeBracket])
  | object [] => [.openBrace, .closeBrace]
  | object (field :: fields) =>
    .openBrace :: (fieldTokens field ++ fieldsTokens fields ++ [.closeBrace])

/-- The tokens of the items after the first one. -/
def itemTokens : List Json → List Token
  | [] => []
  | item :: items => .comma :: (tokens item ++ itemTokens items)

/-- The tokens of the fields after the first one. -/
def fieldsTokens : List (Option String × Json) → List Token
  | [] => []
  | field :: fields => .comma :: (fieldTokens field ++ fieldsTokens fields)

def fieldTokens : Option String × Json → List Token
  | (key, value) => .string key :: .colon :: tokens value

end

section Scanning

open Scanner

variable {l : JsonLayout} {acc : List Token} {rest : List Char}

theorem delimited_items (depth depth' : Nat) (items : List Json) {c : Char} (hc : endsWord c = true) :
    Delimited (writeItems l depth items ++ (l.newline depth' ++ c :: rest)) := by
  cases items with
  | nil => exact delimited_newline l depth' hc
  | cons item items => 
    rw [writeItems]
    exact delimited_cons rfl

theorem delimited_fields (depth depth' : Nat) (fields : List (Option String × Json)) {c : Char}
    (hc : endsWord c = true) :
    Delimited (writeFields l depth fields ++ (l.newline depth' ++ c :: rest)) := by
  cases fields with
  | nil => exact delimited_newline l depth' hc
  | cons field fields => 
    rw [writeFields]
    exact delimited_cons rfl

theorem scanFrom_colon (l : JsonLayout) :
    scanFrom ⟨.between, acc⟩ (l.colon ++ rest) = scanFrom ⟨.between, .colon :: acc⟩ rest := by
  cases l <;> rfl

mutual

/-- A written value is scanned as its tokens. -/
theorem scanFrom_writeAt (l : JsonLayout) : ∀ (j : Json) (depth : Nat) (acc : List Token)
    (rest : List Char), Delimited rest →
    scanFrom ⟨.between, acc⟩ (writeAt l depth j ++ rest) =
      scanFrom ⟨.between, (tokens j).reverse ++ acc⟩ rest
  | null, depth, acc, rest, h => by
    rw [writeAt, tokens, scanFrom_word (by simp) (fun c hc => not_endsWord_of_all (by decide) hc) rfl h]
    rfl
  | bool true, depth, acc, rest, h => by
    rw [writeAt, tokens, scanFrom_word (by simp) (fun c hc => not_endsWord_of_all (by decide) hc) rfl h]
    rfl
  | bool false, depth, acc, rest, h => by
    rw [writeAt, tokens, scanFrom_word (by simp) (fun c hc => not_endsWord_of_all (by decide) hc) rfl h]
    rfl
  | int n, depth, acc, rest, h => by
    have hne : writeInt n ≠ [] := by
      cases n with
      | ofNat n => exact Token.writeNat_ne_nil n
      | negSucc n => exact List.cons_ne_nil _ _
    rw [writeAt, tokens, scanFrom_word hne (fun c hc => Token.endsWord_writeInt hc)
      (Token.ofWord?_writeInt n) h]
    rfl
  | decimal negative mantissa exponent, depth, acc, rest, h => by
    rw [writeAt, tokens, scanFrom_word (by simp) (fun c hc => Token.endsWord_decimal hc)
      (Token.ofWord?_decimal negative mantissa exponent) h]
    rfl
  | string text, depth, acc, rest, h => by
    rw [writeAt, tokens, scanFrom_text]
    rfl
  | array [], depth, acc, rest, h => by
    rw [writeAt, tokens]
    rfl
  | array (item :: items), depth, acc, rest, h => by
    have hopen : ∀ cs, scanFrom ⟨.between, acc⟩ ('[' :: cs) =
        scanFrom ⟨.between, .openBracket :: acc⟩ cs := fun cs => rfl
    have hclose : ∀ acc', scanFrom ⟨.between, acc'⟩ (']' :: rest) =
        scanFrom ⟨.between, .closeBracket :: acc'⟩ rest := fun acc' => rfl
    rw [writeAt, tokens]
    simp only [List.cons_append, List.append_assoc, List.nil_append]
    rw [hopen, scanFrom_newline, scanFrom_writeAt l item _ _ _ (delimited_items _ _ items rfl),
      scanFrom_writeItems l items _ _ _ (delimited_newline l depth rfl), scanFrom_newline, hclose]
    simp only [List.reverse_cons, List.reverse_append, List.reverse_nil, List.append_assoc,
      List.cons_append, List.nil_append]
  | object [], depth, acc, rest, h => by
    rw [writeAt, tokens]
    rfl
  | object (field :: fields), depth, acc, rest, h => by
    have hopen : ∀ cs, scanFrom ⟨.between, acc⟩ ('\x7b' :: cs) =
        scanFrom ⟨.between, .openBrace :: acc⟩ cs := fun cs => rfl
    have hclose : ∀ acc', scanFrom ⟨.between, acc'⟩ ('\x7d' :: rest) =
        scanFrom ⟨.between, .closeBrace :: acc'⟩ rest := fun acc' => rfl
    rw [writeAt, tokens]
    simp only [List.cons_append, List.append_assoc, List.nil_append]
    rw [hopen, scanFrom_newline, scanFrom_writeField l field _ _ _ (delimited_fields _ _ fields rfl),
      scanFrom_writeFields l fields _ _ _ (delimited_newline l depth rfl), scanFrom_newline, hclose]
    simp only [List.reverse_cons, List.reverse_append, List.reverse_nil, List.append_assoc,
      List.cons_append, List.nil_append]

theorem scanFrom_writeItems (l : JsonLayout) : ∀ (items : List Json) (depth : Nat)
    (acc : List Token) (rest : List Char), Delimited rest →
    scanFrom ⟨.between, acc⟩ (writeItems l depth items ++ rest) =
      scanFrom ⟨.between, (itemTokens items).reverse ++ acc⟩ rest
  | [], depth, acc, rest, h => by
    rw [writeItems, itemTokens]
    rfl
  | item :: items, depth, acc, rest, h => by
    have hcomma : ∀ cs, scanFrom ⟨.between, acc⟩ (',' :: cs) =
        scanFrom ⟨.between, .comma :: acc⟩ cs := fun cs => rfl
    have hitems : Delimited (writeItems l depth items ++ rest) := by
      cases items with
      | nil => exact h
      | cons item items => 
        rw [writeItems]
        exact delimited_cons rfl
    rw [writeItems, itemTokens]
    simp only [List.cons_append, List.append_assoc]
    rw [hcomma, scanFrom_newline, scanFrom_writeAt l item _ _ _ hitems,
      scanFrom_writeItems l items _ _ _ h]
    simp only [List.reverse_cons, List.reverse_append, List.append_assoc, List.singleton_append]

theorem scanFrom_writeFields (l : JsonLayout) : ∀ (fields : List (Option String × Json))
    (depth : Nat) (acc : List Token) (rest : List Char), Delimited rest →
    scanFrom ⟨.between, acc⟩ (writeFields l depth fields ++ rest) =
      scanFrom ⟨.between, (fieldsTokens fields).reverse ++ acc⟩ rest
  | [], depth, acc, rest, h => by
    rw [writeFields, fieldsTokens]
    rfl
  | field :: fields, depth, acc, rest, h => by
    have hcomma : ∀ cs, scanFrom ⟨.between, acc⟩ (',' :: cs) =
        scanFrom ⟨.between, .comma :: acc⟩ cs := fun cs => rfl
    have hfields : Delimited (writeFields l depth fields ++ rest) := by
      cases fields with
      | nil => exact h
      | cons field fields => 
        rw [writeFields]
        exact delimited_cons rfl
    rw [writeFields, fieldsTokens]
    simp only [List.cons_append, List.append_assoc]
    rw [hcomma, scanFrom_newline, scanFrom_writeField l field _ _ _ hfields,
      scanFrom_writeFields l fields _ _ _ h]
    simp only [List.reverse_cons, List.reverse_append, List.append_assoc, List.singleton_append]

theorem scanFrom_writeField (l : JsonLayout) : ∀ (field : Option String × Json) (depth : Nat)
    (acc : List Token) (rest : List Char), Delimited rest →
    scanFrom ⟨.between, acc⟩ (writeField l depth field ++ rest) =
      scanFrom ⟨.between, (fieldTokens field).reverse ++ acc⟩ rest
  | (key, value), depth, acc, rest, h => by
    rw [writeField, fieldTokens, List.append_assoc, List.append_assoc, scanFrom_text, scanFrom_colon,
      scanFrom_writeAt l value _ _ _ h]
    simp only [List.reverse_cons, List.append_assoc, List.cons_append, List.nil_append]

end

end Scanning

section Reading

open JsonReader

/-- The value that the reader makes of tokens, from a state on. -/
def readFrom (r : JsonReader) (ts : List Token) : Option Json := (ts.foldlM step r).bind result?

theorem readFrom_cons (r : JsonReader) (t : Token) (ts : List Token) :
    readFrom r (t :: ts) = (r.step t).bind (readFrom · ts) := by
  rw [readFrom, List.foldlM_cons]
  cases r.step t <;> rfl

/-- The first token of a value is no closing bracket. -/
theorem exists_token (j : Json) : ∃ t ts, tokens j = t :: ts ∧ t ≠ .closeBracket := by
  cases j with
  | array items => cases items <;> simp [tokens]
  | object fields => cases fields <;> simp [tokens]
  | _ => simp [tokens]

/-- The first item of an array is read as any other value. -/
theorem readFrom_firstItem (j : Json) (frames : List JsonFrame) (ts : List Token) :
    readFrom ⟨.firstItem, frames⟩ (tokens j ++ ts) =
      readFrom ⟨.value, .items [] :: frames⟩ (tokens j ++ ts) := by
  obtain ⟨t, ts', he, ht⟩ := exists_token j
  rw [he, List.cons_append, readFrom_cons, readFrom_cons]
  cases t <;> first | rfl | exact absurd rfl ht

mutual

/-- The tokens of a value are read as the value. -/
theorem readFrom_tokens : ∀ (j : Json) (frames : List JsonFrame) (ts : List Token),
    readFrom ⟨.value, frames⟩ (tokens j ++ ts) = readFrom (deliver frames j) ts
  | null, frames, ts => by
    rw [tokens]
    rfl
  | bool b, frames, ts => by
    rw [tokens]
    rfl
  | int n, frames, ts => by
    rw [tokens]
    rfl
  | decimal negative mantissa exponent, frames, ts => by
    rw [tokens]
    rfl
  | string text, frames, ts => by
    rw [tokens]
    rfl
  | array [], frames, ts => by
    rw [tokens]
    rfl
  | array (item :: items), frames, ts => by
    have hopen : ∀ ts, readFrom ⟨.value, frames⟩ (.openBracket :: ts) =
        readFrom ⟨.firstItem, frames⟩ ts := fun ts => rfl
    rw [tokens, List.cons_append, hopen, List.append_assoc, List.append_assoc, readFrom_firstItem,
      readFrom_tokens item, deliver, List.singleton_append, readFrom_items items]
    rfl
  | object [], frames, ts => by
    rw [tokens]
    rfl
  | object ((key, value) :: fields), frames, ts => by
    have hopen : ∀ ts, readFrom ⟨.value, frames⟩ (.openBrace :: .string key :: .colon :: ts) =
        readFrom ⟨.value, .field [] key :: frames⟩ ts := fun ts => rfl
    rw [tokens, fieldTokens]
    simp only [List.cons_append, List.append_assoc, List.nil_append]
    rw [hopen, readFrom_tokens value, deliver, readFrom_fields fields]
    rfl

theorem readFrom_items : ∀ (items read : List Json) (frames : List JsonFrame) (ts : List Token),
    readFrom ⟨.afterItem read, frames⟩ (itemTokens items ++ .closeBracket :: ts) =
      readFrom (deliver frames (.array (read.reverse ++ items))) ts
  | [], read, frames, ts => by
    rw [itemTokens, List.append_nil]
    rfl
  | item :: items, read, frames, ts => by
    have hcomma : ∀ ts, readFrom ⟨.afterItem read, frames⟩ (.comma :: ts) =
        readFrom ⟨.value, .items read :: frames⟩ ts := fun ts => rfl
    rw [itemTokens, List.cons_append, hcomma, List.append_assoc, readFrom_tokens item, deliver,
      readFrom_items items, List.reverse_cons, List.append_assoc, List.singleton_append]

theorem readFrom_fields : ∀ (fields read : List (Option String × Json)) (frames : List JsonFrame)
    (ts : List Token),
    readFrom ⟨.afterField read, frames⟩ (fieldsTokens fields ++ .closeBrace :: ts) =
      readFrom (deliver frames (.object (read.reverse ++ fields))) ts
  | [], read, frames, ts => by
    rw [fieldsTokens, List.append_nil]
    rfl
  | (key, value) :: fields, read, frames, ts => by
    have hcomma : ∀ ts, readFrom ⟨.afterField read, frames⟩
        (.comma :: .string key :: .colon :: ts) =
        readFrom ⟨.value, .field read key :: frames⟩ ts := fun ts => rfl
    rw [fieldsTokens, fieldTokens]
    simp only [List.cons_append, List.append_assoc]
    rw [hcomma, readFrom_tokens value, deliver, readFrom_fields fields, List.reverse_cons,
      List.append_assoc, List.singleton_append]

end

end Reading

/-- What is written is read again as it was, in either layout. -/
theorem parse?_writeAt (l : JsonLayout) (j : Json) :
    parse? (String.ofList (j.writeAt l 0)) = some j := by
  have hscan : Token.scan (j.writeAt l 0) = some (tokens j) := by
    have h := scanFrom_writeAt l j 0 [] [] Scanner.delimited_nil
    rw [List.append_nil, List.append_nil] at h
    refine h.trans ?_
    show some (tokens j).reverse.reverse = _
    rw [List.reverse_reverse]
  have hread := readFrom_tokens j [] []
  rw [List.append_nil] at hread
  rw [parse?, String.toList_ofList, hscan, Option.bind_some]
  exact hread

end Json

end GridCircuit
