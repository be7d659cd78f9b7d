import GridCircuit.Script.Bits
import Mathlib.Algebra.Ring.Nat
import Mathlib.Data.List.DropRight

/-!
# Bit sequences and words

A sequence and the number it stands for have the same bits, where a place past the end of the sequence
counts as clear; a word has the first 64 of them. So two words, or two sequences of one length, are
compared bit by bit. Many sequences stand for one word: they differ in what follows the 64th bit, and in
how many clear bits come last. The shortest of them has neither, and it is the one that is made of the
word.
-/

namespace GridCircuit
namespace Bits

variable {bits : List Bool} {n : UInt64} {width i k m : Nat}

/-! ## The bits of a number -/

theorem value_lt (bits : List Bool) : value bits < 2 ^ bits.length := by
  induction bits with
  | nil => simp [value]
  | cons b bits ih =>
    rw [value, List.length_cons, Nat.pow_succ]
    have hb : b.toNat ≤ 1 := b.toNat_le
    omega

theorem testBit_value (bits : List Bool) (i : Nat) : (value bits).testBit i = bits[i]?.getD false := by
  induction bits generalizing i with
  | nil => simp [value]
  | cons b bits ih =>
    have hb : b.toNat ≤ 1 := b.toNat_le
    cases i with
    | zero =>
      rw [value, Nat.testBit_zero, Nat.add_mul_mod_self_left]
      cases b <;> rfl
    | succ i =>
      have hhalf : (b.toNat + 2 * value bits) / 2 = value bits := by omega
      rw [value, Nat.testBit_succ, hhalf, ih, List.getElem?_cons_succ]

theorem value_concat (bits : List Bool) (b : Bool) :
    value (bits ++ [b]) = value bits + 2 ^ bits.length * b.toNat := by
  induction bits with
  | nil => simp [value]
  | cons a bits ih =>
    rw [List.cons_append, value, value, ih, List.length_cons, Nat.pow_succ', Nat.mul_assoc, Nat.mul_add,
      Nat.add_assoc]

/-- The number of a sequence whose bits count from the place `k` on. -/
theorem value_eq_sum (bits : List Bool) (k : Nat) :
    (((bits.zipIdx k).map fun (b, i) => if b then 2 ^ i else 0).sum) = 2 ^ k * value bits := by
  induction bits generalizing k with
  | nil => simp [value]
  | cons b bits ih =>
    rw [List.zipIdx_cons, List.map_cons, List.sum_cons, ih, value, Nat.pow_succ]
    cases b <;> simp [Nat.mul_add, Nat.mul_assoc]

/-- So many places are enough for the numbers below this power of two, and for no others. -/
theorem bitLength_le_iff : bitLength m ≤ k ↔ m < 2 ^ k := by
  rw [bitLength]
  split
  case isTrue h => exact iff_of_true (Nat.zero_le k) (h ▸ Nat.two_pow_pos k)
  case isFalse h => rw [Nat.succ_le_iff, Nat.log2_lt h]

theorem testBit_bitLength_pred (h : m ≠ 0) : m.testBit (bitLength m - 1) = true := by
  rw [bitLength, if_neg h, Nat.add_sub_cancel, Nat.testBit_log2 h]

/-- The number of a sequence that ends in a set bit is no shorter than the sequence. -/
theorem bitLength_value (h : bits.getLast? ≠ some false) : bitLength (value bits) = bits.length := by
  refine Nat.le_antisymm (bitLength_le_iff.2 (value_lt bits)) ?_
  by_contra hshort
  have hpos : 0 < bits.length := by omega
  have hlast : (value bits).testBit (bits.length - 1) = true := by
    rw [testBit_value, ← List.getLast?_eq_getElem?]
    cases hb : bits.getLast? with
    | none => simp [List.getLast?_eq_none_iff.1 hb] at hpos
    | some b =>
      cases b with
      | false => exact absurd hb h
      | true => rfl
  have hsmall : value bits < 2 ^ (bits.length - 1) := bitLength_le_iff.1 (by omega)
  rw [Nat.testBit_lt_two_pow hsmall] at hlast
  cases hlast

/-- The sequence without the clear bits that end it. -/
def trim (bits : List Bool) : List Bool := bits.rdropWhile (!·)

theorem value_trim (bits : List Bool) : value (trim bits) = value bits := by
  induction bits using List.reverseRecOn with
  | nil => rfl
  | append_singleton bits b ih =>
    rw [trim, List.rdropWhile_concat]
    cases b with
    | false =>
      rw [if_pos (by decide), value_concat, Bool.toNat_false, Nat.mul_zero, Nat.add_zero]
      exact ih
    | true => rw [if_neg (by decide)]

theorem length_trim_le (bits : List Bool) : (trim bits).length ≤ bits.length :=
  (List.rdropWhile_prefix _ bits).length_le

theorem getLast?_trim (bits : List Bool) : (trim bits).getLast? ≠ some false := by
  intro h
  have hne : trim bits ≠ [] := by
    intro he
    rw [he] at h
    cases h
  have hlast := List.rdropWhile_last_not (!·) bits hne
  rw [List.getLast?_eq_some_getLast hne, Option.some_inj] at h
  exact hlast (congrArg (!·) h)

/-! ## The bits of a word -/

theorem toNat_toWord (bits : List Bool) : (toWord bits).toNat = value (bits.take 64) := by
  have hlt := value_lt (bits.take 64)
  have hpow : 2 ^ (bits.take 64).length ≤ 2 ^ 64 :=
    Nat.pow_le_pow_right (by decide) (List.length_take_le 64 bits)
  rw [toWord, UInt64.toNat_ofNat', Nat.mod_eq_of_lt (Nat.lt_of_lt_of_le hlt hpow)]

theorem testBit_toWord (bits : List Bool) (i : Nat) :
    (toWord bits).toNat.testBit i = (decide (i < 64) && bits[i]?.getD false) := by
  rw [toNat_toWord, testBit_value, List.getElem?_take]
  by_cases hi : i < 64 <;> simp [hi]

theorem length_ofWordWidth (n : UInt64) (width : Nat) : (ofWordWidth n width).length = width := by
  rw [ofWordWidth, List.length_map, List.length_range]

theorem getElem?_ofWordWidth (h : i < width) :
    (ofWordWidth n width)[i]? = some (n.toNat.testBit i) := by
  rw [ofWordWidth, List.getElem?_map, List.getElem?_range h, Option.map_some]

theorem length_ofWord (n : UInt64) : (ofWord n).length = bitLength n.toNat :=
  length_ofWordWidth n _

theorem bitLength_toNat_le (n : UInt64) : bitLength n.toNat ≤ 64 := bitLength_le_iff.2 n.toNat_lt

/-! ## Round trips -/

theorem toNat_toWord_ofWordWidth (n : UInt64) (width : Nat) :
    (toWord (ofWordWidth n width)).toNat = n.toNat % 2 ^ min width 64 := by
  refine Nat.eq_of_testBit_eq fun i => ?_
  rw [testBit_toWord, Nat.testBit_mod_two_pow]
  by_cases hi : i < width
  · have hplace : i < 64 ↔ i < min width 64 := by omega
    rw [getElem?_ofWordWidth hi, Option.getD_some, decide_eq_decide.2 hplace]
  · have hplace : ¬ i < min width 64 := by omega
    have hnone : (ofWordWidth n width)[i]? = none :=
      List.getElem?_eq_none (by rw [length_ofWordWidth]; omega)
    rw [hnone, Option.getD_none, Bool.and_false, decide_eq_false hplace, Bool.false_and]

theorem toWord_ofWord (n : UInt64) : toWord (ofWord n) = n := by
  have hlt : n.toNat < 2 ^ bitLength n.toNat := bitLength_le_iff.1 (Nat.le_refl _)
  rw [← UInt64.toNat_inj, ofWord, toNat_toWord_ofWordWidth, Nat.min_eq_left (bitLength_toNat_le n),
    Nat.mod_eq_of_lt hlt]

theorem ofWordWidth_toWord (h : bits.length ≤ 64) : ofWordWidth (toWord bits) bits.length = bits := by
  refine List.ext_getElem? fun i => ?_
  by_cases hi : i < bits.length
  · have hword : i < 64 := Nat.lt_of_lt_of_le hi h
    rw [getElem?_ofWordWidth hi, testBit_toWord, List.getElem?_eq_getElem hi]
    simp [hword]
  · rw [List.getElem?_eq_none (by rw [length_ofWordWidth]; omega), List.getElem?_eq_none (by omega)]

theorem getLast?_ofWord (h : n ≠ 0) : (ofWord n).getLast? = some true := by
  have hn : n.toNat ≠ 0 := fun hzero => h (UInt64.toNat_inj.1 hzero)
  have hpos : 0 < bitLength n.toNat := by
    rw [bitLength, if_neg hn]
    exact Nat.succ_pos _
  rw [List.getLast?_eq_getElem?, length_ofWord, ofWord, getElem?_ofWordWidth (by omega),
    testBit_bitLength_pred hn]

/-- A sequence of a word that is not made of it is longer. -/
theorem ofWord_shortest (h : toWord bits = n) : ofWord n = bits ∨ (ofWord n).length < bits.length := by
  subst h
  have hle : bitLength (toWord bits).toNat ≤ bits.length := by
    rw [toNat_toWord, bitLength_le_iff]
    refine Nat.lt_of_lt_of_le (value_lt _) (Nat.pow_le_pow_right (by decide) ?_)
    rw [List.length_take]
    exact Nat.min_le_right _ _
  rcases Nat.lt_or_eq_of_le hle with hlt | heq
  case inl => exact .inr (by rwa [length_ofWord])
  case inr =>
    have hlen : bits.length ≤ 64 := heq ▸ bitLength_toNat_le _
    exact .inl (by rw [ofWord, heq, ofWordWidth_toWord hlen])

theorem ofWord_toWord (bits : List Bool) : ofWord (toWord bits) = trim (bits.take 64) := by
  have hlen : (trim (bits.take 64)).length ≤ 64 :=
    Nat.le_trans (length_trim_le _) (List.length_take_le 64 bits)
  have hword : toWord (trim (bits.take 64)) = toWord bits := by
    rw [← UInt64.toNat_inj, toNat_toWord, toNat_toWord, List.take_of_length_le hlen, value_trim]
  have hbits : bitLength (toWord bits).toNat = (trim (bits.take 64)).length := by
    rw [← hword, toNat_toWord, List.take_of_length_le hlen, bitLength_value (getLast?_trim _)]
  rw [ofWord, hbits, ← hword, ofWordWidth_toWord hlen]

theorem toNat_toWord_eq_sum (bits : List Bool) : (toWord bits).toNat =
    ((bits.take 64).zipIdx.map fun (b, i) => if b then 2 ^ i else 0).sum := by
  rw [value_eq_sum, Nat.pow_zero, Nat.one_mul, toNat_toWord]

theorem ofJson_toJson (bits : List Bool) : ofJson (toJson bits) = bits := by
  rw [toJson, ofJson, List.map_map]
  exact List.map_id'' (fun _ => rfl) bits

/-! ## Shifts

A machine collects a word from words with a single bit, takes it apart by shifting it, and finds its
length by its leading zeros. No word is shifted by more than 63 places: the bits behind are not looked at. -/

/-- The word with a single bit. -/
def single (i : Nat) : UInt64 := 1 <<< UInt64.ofNat i

theorem toNat_ofNat_place (h : i < 64) : (UInt64.ofNat i).toNat = i :=
  UInt64.toNat_ofNat_of_lt' (Nat.lt_trans h (by decide))

theorem testBit_single (h : k < 64) (i : Nat) : (single k).toNat.testBit i = decide (k = i) := by
  have hpow : 2 ^ k < 2 ^ 64 := Nat.pow_lt_pow_right (by decide) h
  rw [single, UInt64.toNat_shiftLeft, toNat_ofNat_place h, Nat.mod_eq_of_lt h, UInt64.toNat_one,
    Nat.shiftLeft_eq, Nat.one_mul, Nat.mod_eq_of_lt hpow, Nat.testBit_two_pow]

/-- A bit of a sequence that begins at place `k`. -/
theorem getD_cons_at (b : Bool) (bits : List Bool) (k i : Nat) :
    (decide (k ≤ i) && (b :: bits)[i - k]?.getD false) =
      (decide (k = i) && b || (decide (k + 1 ≤ i) && bits[i - (k + 1)]?.getD false)) := by
  rcases Nat.lt_trichotomy i k with hi | rfl | hi
  · simp [show ¬ k ≤ i by omega, show k ≠ i by omega, show ¬ k + 1 ≤ i by omega]
  · simp [show ¬ i + 1 ≤ i by omega]
  · obtain ⟨j, rfl⟩ : ∃ j, i = k + 1 + j := ⟨i - (k + 1), by omega⟩
    simp [show k ≤ k + 1 + j by omega, show k ≠ k + 1 + j by omega, show k + 1 + j - k = j + 1 by omega]

theorem testBit_foldl_single (w : UInt64) (h : k + bits.length ≤ 64) (i : Nat) :
    (((bits.zipIdx k).filter (·.1)).foldl (fun w b => w ||| single b.2) w).toNat.testBit i =
      (w.toNat.testBit i || (decide (k ≤ i) && bits[i - k]?.getD false)) := by
  induction bits generalizing k w with
  | nil => simp
  | cons b bits ih =>
    rw [List.length_cons] at h
    have hrest : k + 1 + bits.length ≤ 64 := by omega
    rw [List.zipIdx_cons, getD_cons_at]
    cases b with
    | false => rw [List.filter_cons_of_neg Bool.false_ne_true, ih w hrest, Bool.and_false, Bool.false_or]
    | true =>
      rw [List.filter_cons_of_pos rfl, List.foldl_cons, ih _ hrest, UInt64.toNat_or, Nat.testBit_or,
        testBit_single (by omega), Bool.and_true, Bool.or_assoc]

/-- A word is put together from the set bits of a sequence. -/
theorem toWord_eq_foldl (bits : List Bool) :
    toWord bits = ((bits.take 64).zipIdx.filter (·.1)).foldl (fun w b => w ||| single b.2) 0 := by
  rw [← UInt64.toNat_inj]
  refine Nat.eq_of_testBit_eq fun i => ?_
  rw [testBit_foldl_single 0 (by rw [Nat.zero_add]; exact List.length_take_le 64 bits), toNat_toWord,
    testBit_value]
  simp

/-- A bit of a word is the lowest one after a shift. -/
theorem ofWordWidth_eq_map_shift (n : UInt64) (width : Nat) : ofWordWidth n width =
    (List.range width).map fun i => decide (i < 64) && ((n >>> UInt64.ofNat i) &&& 1) == 1 := by
  rw [ofWordWidth]
  refine List.map_congr_left fun i _ => ?_
  by_cases hi : i < 64
  case neg =>
    have hbig : n.toNat < 2 ^ i :=
      Nat.lt_of_lt_of_le n.toNat_lt (Nat.pow_le_pow_right (by decide) (Nat.le_of_not_lt hi))
    rw [Nat.testBit_lt_two_pow hbig, decide_eq_false hi, Bool.false_and]
  case pos =>
    have hshift : ((n >>> UInt64.ofNat i) &&& 1).toNat = n.toNat / 2 ^ i % 2 := by
      rw [UInt64.toNat_and, UInt64.toNat_shiftRight, toNat_ofNat_place hi, Nat.mod_eq_of_lt hi,
        UInt64.toNat_one, Nat.and_one_is_mod, Nat.shiftRight_eq_div_pow]
    rw [Nat.testBit_eq_decide_div_mod_eq, decide_eq_true hi, Bool.true_and, ← hshift, beq_eq_decide]
    exact decide_eq_decide.2 (by rw [← UInt64.toNat_inj, UInt64.toNat_one])

/-- The bits of a word end where its leading zeros begin. -/
theorem bitLength_eq_sub_clz (n : UInt64) : bitLength n.toNat = 64 - n.toBitVec.clz.toNat := by
  have hlt : n.toNat < 2 ^ (64 - n.toBitVec.clz.toNat) := BitVec.toNat_lt_two_pow_sub_clz
  refine Nat.le_antisymm (bitLength_le_iff.2 hlt) ?_
  by_contra hshort
  have hne : n.toBitVec ≠ 0#64 := by
    intro hzero
    rw [BitVec.clz_eq_iff_eq_zero.2 hzero] at hshort
    exact hshort (Nat.zero_le _)
  have hle : 2 ^ (64 - 1 - n.toBitVec.clz.toNat) ≤ n.toNat :=
    BitVec.two_pow_sub_clz_le_toNat_of_ne_zero (by decide) hne
  have hsmall : n.toNat < 2 ^ (64 - 1 - n.toBitVec.clz.toNat) := bitLength_le_iff.1 (by omega)
  exact absurd hle (Nat.not_le_of_lt hsmall)

/-! ## All conversions -/

/-- A word, a width and a sequence of bits, turned into each other. -/
structure Conversions (n : UInt64) (width : Nat) (bits : List Bool) : Prop where
  toWord_ofWord : toWord (ofWord n) = n
  /-- Every other sequence of the word is longer. -/
  shortest : toWord bits = n → ofWord n = bits ∨ (ofWord n).length < bits.length
  ofWord_zero : ofWord 0 = []
  getLast?_ofWord : n ≠ 0 → (ofWord n).getLast? = some true
  toWord_ofWordWidth : (toWord (ofWordWidth n width)).toNat = n.toNat % 2 ^ min width 64
  length_ofWordWidth : (ofWordWidth n width).length = width
  ofWord_toWord : ofWord (toWord bits) = trim (bits.take 64)
  ofWordWidth_toWord : bits.length ≤ 64 → ofWordWidth (toWord bits) bits.length = bits
  toWord_eq_sum : (toWord bits).toNat =
    ((bits.take 64).zipIdx.map fun (b, i) => if b then 2 ^ i else 0).sum
  ofJson_toJson : ofJson (toJson bits) = bits

/-- Words and sequences of bits are inverse to each other, up to the bits past the 64th and the clear
ones at the end. -/
theorem conversions (n : UInt64) (width : Nat) (bits : List Bool) : Conversions n width bits where
  toWord_ofWord := toWord_ofWord n
  shortest := ofWord_shortest
  ofWord_zero := rfl
  getLast?_ofWord := getLast?_ofWord
  toWord_ofWordWidth := toNat_toWord_ofWordWidth n width
  length_ofWordWidth := length_ofWordWidth n width
  ofWord_toWord := ofWord_toWord bits
  ofWordWidth_toWord := ofWordWidth_toWord
  toWord_eq_sum := toNat_toWord_eq_sum bits
  ofJson_toJson := ofJson_toJson bits

/-- Twelve, with clear bits on both sides. -/
theorem sampleTwelve_conversions :
    toWord [false, false, true, true, false] = 12 ∧ (12 : UInt64) ≠ 0 ∧
      [false, false, true, true, false].length ≤ 64 ∧
      Conversions 12 3 [false, false, true, true, false] ∧
      ofWord 12 = [false, false, true, true] ∧ ofWordWidth 12 3 = [false, false, true] :=
  ⟨by decide, by decide, by decide, conversions 12 3 _, by decide, by decide⟩

end Bits
end GridCircuit
