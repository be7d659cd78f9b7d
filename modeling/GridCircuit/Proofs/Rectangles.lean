import GridCircuit.Grid.Pos
import Mathlib.Data.List.Basic

/-!
# Rectangles and their cells

A rectangle lists the positions it holds, row by row, each of them once. This is meant for all corners,
also for rectangles that are inverted or wider than a coordinate can count: the corners are compared as
integers, and the cells lie between them, so that no coordinate of a cell leaves its range.
-/

namespace GridCircuit

theorem Pos.eq_of_toInt {p q : Pos} (hx : p.x.toInt = q.x.toInt) (hy : p.y.toInt = q.y.toInt) :
    p = q := by
  cases p
  cases q
  cases Int32.toInt_inj.1 hx
  cases Int32.toInt_inj.1 hy
  rfl

/-- Row by row, and from left to right in a row. -/
def Pos.Before (p q : Pos) : Prop :=
  p.y.toInt < q.y.toInt ∨ p.y.toInt = q.y.toInt ∧ p.x.toInt < q.x.toInt

theorem Pos.Before.ne {p q : Pos} (h : p.Before q) : p ≠ q := by
  rintro rfl
  obtain h | ⟨-, h⟩ := h <;> exact Int.lt_irrefl _ h

/-- The way from a corner to a position, held inside the 32-bit range. -/
def Pos.since (p corner : Pos) : Pos :=
  ⟨Int32.ofIntClamp (p.x.toInt - corner.x.toInt), Int32.ofIntClamp (p.y.toInt - corner.y.toInt)⟩

/-- The places in rows of one width are the pairs of a column and a row. -/
theorem exists_place_iff {width height column row : Nat} :
    (∃ i < width * height, i % width = column ∧ i / width = row) ↔ column < width ∧ row < height := by
  constructor
  · rintro ⟨i, hi, rfl, rfl⟩
    exact ⟨Nat.mod_lt i (Nat.pos_of_mul_pos_right (Nat.zero_lt_of_lt hi)), Nat.div_lt_of_lt_mul hi⟩
  · rintro ⟨hcolumn, hrow⟩
    have hrows := Nat.mul_le_mul_left width (Nat.succ_le_of_lt hrow)
    rw [Nat.mul_succ] at hrows
    refine ⟨column + width * row, by omega, ?_, ?_⟩
    · rw [Nat.add_mul_mod_self_left, Nat.mod_eq_of_lt hcolumn]
    · rw [Nat.add_mul_div_left _ _ (Nat.zero_lt_of_lt hcolumn), Nat.div_eq_of_lt hcolumn, Nat.zero_add]

namespace Rect

variable {r : Rect} {p q : Pos} {i : Nat}

/-- Whether two coordinates, with no bound on them, lie in a rectangle. -/
def Holds (r : Rect) (x y : Int) : Prop :=
  r.min.x.toInt ≤ x ∧ x < r.max.x.toInt ∧ r.min.y.toInt ≤ y ∧ y < r.max.y.toInt

instance (r : Rect) (x y : Int) : Decidable (r.Holds x y) := inferInstanceAs (Decidable (_ ∧ _))

theorem contains_iff : r.contains p = true ↔ r.Holds p.x.toInt p.y.toInt := by
  simp only [contains, Holds, Bool.and_eq_true, decide_eq_true_eq, Int32.le_iff_toInt_le,
    Int32.lt_iff_toInt_lt, and_assoc]

/-- The `i`-th cell lies as many columns and rows behind the corner as `i` says. -/
theorem toInt_cell (h : i < r.area) :
    (r.cell i).x.toInt = r.min.x.toInt + (i % r.width : Nat) ∧
      (r.cell i).y.toInt = r.min.y.toInt + (i / r.width : Nat) := by
  obtain ⟨hcolumn, hrow⟩ := exists_place_iff.1 ⟨i, h, rfl, rfl⟩
  unfold cell
  generalize i % r.width = column at hcolumn ⊢
  generalize i / r.width = row at hrow ⊢
  have hx := r.min.x.le_toInt
  have hx' := r.max.x.toInt_lt
  have hy := r.min.y.le_toInt
  have hy' := r.max.y.toInt_lt
  rw [width] at hcolumn
  rw [height] at hrow
  exact ⟨Int32.toInt_ofInt_of_le (by omega) (by omega), Int32.toInt_ofInt_of_le (by omega) (by omega)⟩

/-- The cells are the positions in the rectangle. -/
theorem mem_cells : p ∈ r.cells ↔ r.contains p = true := by
  rw [contains_iff, cells, List.mem_map]
  constructor
  · rintro ⟨i, hi, rfl⟩
    have hi : i < r.area := List.mem_range.1 hi
    obtain ⟨hx, hy⟩ := toInt_cell hi
    obtain ⟨hcolumn, hrow⟩ := exists_place_iff.1 ⟨i, hi, rfl, rfl⟩
    rw [Holds, hx, hy]
    generalize i % r.width = column at hcolumn ⊢
    generalize i / r.width = row at hrow ⊢
    rw [width] at hcolumn
    rw [height] at hrow
    omega
  · rintro ⟨hx, hx', hy, hy'⟩
    obtain ⟨column, hcolumn⟩ := Int.eq_ofNat_of_zero_le (Int.sub_nonneg_of_le hx)
    obtain ⟨row, hrow⟩ := Int.eq_ofNat_of_zero_le (Int.sub_nonneg_of_le hy)
    have hcolumn' : column < r.width := by
      rw [width]
      omega
    have hrow' : row < r.height := by
      rw [height]
      omega
    obtain ⟨i, hi, rfl, rfl⟩ := exists_place_iff.2 ⟨hcolumn', hrow'⟩
    obtain ⟨hcx, hcy⟩ := toInt_cell hi
    exact ⟨i, List.mem_range.2 hi, Pos.eq_of_toInt (by omega) (by omega)⟩

/-- The cells are listed row by row. -/
theorem cells_pairwise (r : Rect) : r.cells.Pairwise Pos.Before := by
  rw [cells, List.pairwise_map]
  refine List.pairwise_lt_range.imp_of_mem fun {i j} hi hj hij => ?_
  obtain ⟨hix, hiy⟩ := toInt_cell (List.mem_range.1 hi)
  obtain ⟨hjx, hjy⟩ := toInt_cell (List.mem_range.1 hj)
  have hdi := Nat.div_add_mod i r.width
  have hdj := Nat.div_add_mod j r.width
  rw [Pos.Before, hix, hiy, hjx, hjy]
  obtain heq | hlt := Nat.eq_or_lt_of_le (Nat.div_le_div_right (c := r.width) (Nat.le_of_lt hij))
  · rw [heq] at hdi ⊢
    omega
  · omega

theorem cells_nodup (r : Rect) : r.cells.Nodup := r.cells_pairwise.imp Pos.Before.ne

theorem length_cells (r : Rect) : r.cells.length = r.width * r.height := by
  rw [cells, List.length_map, List.length_range, area]

theorem toInt_since (hw : r.width ≤ 2147483647) (hh : r.height ≤ 2147483647)
    (hp : r.contains p = true) : (p.since r.min).x.toInt = p.x.toInt - r.min.x.toInt ∧
      (p.since r.min).y.toInt = p.y.toInt - r.min.y.toInt := by
  obtain ⟨hx, hx', hy, hy'⟩ := contains_iff.1 hp
  have hmin : Int32.minValue.toInt = -2147483648 := rfl
  have hmax : Int32.maxValue.toInt = 2147483647 := rfl
  rw [width] at hw
  rw [height] at hh
  exact ⟨Int32.toInt_ofIntClamp (by omega) (by omega), Int32.toInt_ofIntClamp (by omega) (by omega)⟩

theorem since_inj (hw : r.width ≤ 2147483647) (hh : r.height ≤ 2147483647)
    (hp : r.contains p = true) (hq : r.contains q = true) (h : p.since r.min = q.since r.min) :
    p = q := by
  obtain ⟨hpx, hpy⟩ := toInt_since hw hh hp
  obtain ⟨hqx, hqy⟩ := toInt_since hw hh hq
  rw [h] at hpx hpy
  exact Pos.eq_of_toInt (by omega) (by omega)

end Rect

end GridCircuit
