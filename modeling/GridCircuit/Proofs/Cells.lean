import GridCircuit.Grid.Plane
import GridCircuit.Proofs.Rectangles
import Mathlib.Data.List.Sort

/-!
# The cells of a plane

A position addresses a cell if it lies in the bounds of the plane. When the product of the sides fits
a word, distinct positions are stored at distinct places, so reading and writing by position behave
as on a function. Sides beyond the 32-bit range are allowed: what positions cannot reach is never
written by a scan, and the listing lemmas ask only that nothing but the default is stored there.
-/

namespace GridCircuit

namespace Plane

variable {α β : Type}

/-- The positions of the cells, in row-major order. -/
abbrev positions (g : Plane α) : List Pos := g.bounds.cells

/-- The number of columns that positions reach. -/
def columns (g : Plane α) : Nat := g.bounds.width

/-- The number of rows that positions reach. -/
def rows (g : Plane α) : Nat := g.bounds.height

/-- Where a position is stored, before the index is cut to a word. -/
def place (g : Plane α) (p : Pos) : Nat := p.y.toInt.toNat * g.width + p.x.toInt.toNat

theorem toNat_toInt_ofNat_le (n : Nat) : (Int32.ofNat n).toInt.toNat ≤ n := by
  have hs : Int32.size = 4294967296 := rfl
  rw [Int32.toInt_ofNat', hs]
  have h := Int.bmod_def n 4294967296
  split at h <;> omega

theorem columns_eq (g : Plane α) : g.columns = (Int32.ofNat g.width).toInt.toNat := by
  simp [columns, bounds, Rect.width, Pos.origin]

theorem rows_eq (g : Plane α) : g.rows = (Int32.ofNat g.height).toInt.toNat := by
  simp [rows, bounds, Rect.height, Pos.origin]

theorem columns_le (g : Plane α) : g.columns ≤ g.width := g.columns_eq ▸ toNat_toInt_ofNat_le _

theorem rows_le (g : Plane α) : g.rows ≤ g.height := g.rows_eq ▸ toNat_toInt_ofNat_le _

theorem columns_lt (g : Plane α) : g.columns < 2147483648 := by
  have h := (Int32.ofNat g.width).toInt_lt
  rw [columns_eq]
  omega

theorem rows_lt (g : Plane α) : g.rows < 2147483648 := by
  have h := (Int32.ofNat g.height).toInt_lt
  rw [rows_eq]
  omega

theorem toInt_ofInt_nat {n : Nat} (h : n < 2147483648) : (Int32.ofInt (n : Int)).toInt = n := by
  rw [Int32.toInt_ofInt]
  have hs : Int32.size = 4294967296 := rfl
  rw [hs]
  exact Int.bmod_eq_of_le (by omega) (by omega)

/-- The `i`-th cell of the bounds, by its coordinates. -/
theorem toInt_cell (g : Plane α) {i : Nat} (h : i < g.columns * g.rows) :
    (g.bounds.cell i).x.toInt = (i % g.columns : Nat) ∧
      (g.bounds.cell i).y.toInt = (i / g.columns : Nat) := by
  have h0 : g.bounds.min.x.toInt = 0 ∧ g.bounds.min.y.toInt = 0 := ⟨rfl, rfl⟩
  have hcell := Rect.toInt_cell h
  rwa [h0.1, h0.2, Int.zero_add, Int.zero_add] at hcell

theorem mem_positions {g : Plane α} {p : Pos} :
    p ∈ g.positions ↔
      0 ≤ p.x.toInt ∧ p.x.toInt < g.columns ∧ 0 ≤ p.y.toInt ∧ p.y.toInt < g.rows := by
  have h0 : g.bounds.min.x.toInt = 0 ∧ g.bounds.min.y.toInt = 0 := ⟨rfl, rfl⟩
  have hcolumns : g.columns = (g.bounds.max.x.toInt - 0).toNat := rfl
  have hrows : g.rows = (g.bounds.max.y.toInt - 0).toNat := rfl
  rw [Rect.mem_cells, Rect.contains_iff, Rect.Holds, h0.1, h0.2, hcolumns, hrows]
  omega

theorem place_cell (g : Plane α) {i : Nat} (h : i < g.columns * g.rows) :
    g.place (g.bounds.cell i) = i / g.columns * g.width + i % g.columns := by
  obtain ⟨hx, hy⟩ := g.toInt_cell h
  rw [place, hx, hy, Int.toNat_natCast, Int.toNat_natCast]

/-- Cells are stored by rows. -/
theorem place_lt_iff {g : Plane α} {p q : Pos} (hp : p ∈ g.positions) (hq : q ∈ g.positions) :
    g.place p < g.place q ↔
      p.y.toInt < q.y.toInt ∨ p.y.toInt = q.y.toInt ∧ p.x.toInt < q.x.toInt := by
  obtain ⟨hx0, hx, hy0, hy⟩ := mem_positions.1 hp
  obtain ⟨hx0', hx', hy0', hy'⟩ := mem_positions.1 hq
  have hc := g.columns_le
  have hrow : ∀ a b : Int, 0 ≤ a → a < b → a.toNat * g.width + g.width ≤ b.toNat * g.width := by
    intro a b ha hab
    rw [← Nat.succ_mul]
    exact Nat.mul_le_mul_right _ (by omega)
  rw [place, place]
  obtain hlt | heq | hlt := Int.lt_trichotomy p.y.toInt q.y.toInt
  · have h := hrow _ _ hy0 hlt
    omega
  · rw [heq]
    omega
  · have h := hrow _ _ hy0' hlt
    omega

/-- The listing is by rising place, for a plane with unreached columns too. -/
theorem positions_pairwise (g : Plane α) : g.positions.Pairwise fun p q => g.place p < g.place q :=
  g.bounds.cells_pairwise.imp_of_mem fun hp hq h => (place_lt_iff hp hq).2 h

theorem positions_nodup (g : Plane α) : g.positions.Nodup := g.bounds.cells_nodup

theorem place_lt {g : Plane α} {p : Pos} (hx : p.x.toInt.toNat < g.width)
    (hy : p.y.toInt.toNat < g.height) : g.place p < g.width * g.height := by
  have h := Nat.mul_le_mul_right g.width (Nat.succ_le_iff.2 hy)
  rw [Nat.succ_mul, Nat.mul_comm g.height] at h
  rw [place]
  omega

theorem size_eq {g : Plane α} (h : g.Exact) : g.size = g.width * g.height := cellCount_of_lt h

theorem index?_eq_some {g : Plane α} (h : g.Exact) {p : Pos} {i : Nat} :
    g.index? p = some i ↔ (0 ≤ p.x.toInt ∧ 0 ≤ p.y.toInt ∧ p.x.toInt.toNat < g.width ∧
      p.y.toInt.toNat < g.height) ∧ g.place p = i := by
  unfold index?
  split
  · rename_i hb
    have hm : (p.y.toInt.toNat * g.width + p.x.toInt.toNat) % wordSize = g.place p :=
      Nat.mod_eq_of_lt ((place_lt hb.2.2.1 hb.2.2.2).trans h)
    rw [hm, Option.some.injEq, and_iff_right hb]
  · rename_i hb
    exact iff_of_false nofun fun hi => hb hi.1

theorem index?_of_mem {g : Plane α} (h : g.Exact) {p : Pos} (hp : p ∈ g.positions) :
    g.index? p = some (g.place p) := by
  obtain ⟨hx0, hx, hy0, hy⟩ := mem_positions.1 hp
  have hc := g.columns_le
  have hr := g.rows_le
  exact (index?_eq_some h).2 ⟨⟨hx0, hy0, by omega, by omega⟩, rfl⟩

/-- Every position inside the sides is stored at one of the cells, so that no access is out of range. -/
def InRange (g : Plane α) : Prop := ∀ p i, g.index? p = some i → i < g.size

theorem Exact.inRange {g : Plane α} (h : g.Exact) : g.InRange := by
  intro p i hi
  obtain ⟨hb, rfl⟩ := (index?_eq_some h).1 hi
  rw [size_eq h]
  exact place_lt hb.2.2.1 hb.2.2.2

theorem place_lt_of_mem {g : Plane α} (h : g.Exact) {p : Pos} (hp : p ∈ g.positions) :
    g.place p < cellCount g.width g.height := h.inRange p _ (index?_of_mem h hp)

/-- Two positions inside the sides do not share a place. -/
theorem index?_inj {g : Plane α} (h : g.Exact) {p q : Pos} {i : Nat} (hp : g.index? p = some i)
    (hq : g.index? q = some i) : p = q := by
  obtain ⟨⟨hpx, hpy, hpw, -⟩, hpi⟩ := (index?_eq_some h).1 hp
  obtain ⟨⟨hqx, hqy, hqw, -⟩, hqi⟩ := (index?_eq_some h).1 hq
  rw [place] at hpi hqi
  have hmod := hpi.trans hqi.symm
  have hw : 0 < g.width := Nat.zero_lt_of_lt hpw
  have hy : p.y.toInt.toNat = q.y.toInt.toNat := by
    have hd := congrArg (· / g.width) hmod
    simp only [Nat.add_comm _ (Int.toNat _), Nat.add_mul_div_right _ _ hw] at hd
    rwa [Nat.div_eq_of_lt hpw, Nat.div_eq_of_lt hqw] at hd
  rw [hy] at hmod
  exact Pos.eq_of_toInt (by omega) (by omega)

theorem set_of_mem {g : Plane α} (h : g.Exact) {p : Pos} (hp : p ∈ g.positions) (a : α) :
    g.set p a = { g with cells := g.cells.setIfInBounds (g.place p) a } := by
  rw [set, index?_of_mem h hp]

theorem cells_set {g : Plane α} (h : g.Exact) {p : Pos} (hp : p ∈ g.positions) (a : α) (i : Nat) :
    (g.set p a).cells[i]? = if g.place p = i then some a else g.cells[i]? := by
  have hl := place_lt_of_mem h hp
  rw [set_of_mem h hp]
  refine Vector.getElem?_setIfInBounds.trans ?_
  rw [if_pos hl]

theorem cells_map (g : Plane α) (f : α → α) (i : Nat) :
    (g.map f).cells[i]? = (g.cells[i]?).map f :=
  Vector.getElem?_map

theorem cells_fill (width height : Nat) (a : α) (i : Nat) (b : α)
    (h : (fill width height a).cells[i]? = some b) : b = a := by
  have hr : (Vector.replicate (cellCount width height) a)[i]? = some b := h
  rw [Vector.getElem?_replicate] at hr
  split at hr
  · exact (Option.some.inj hr).symm
  · cases hr

@[simp] theorem bounds_set (g : Plane α) (p : Pos) (a : α) : (g.set p a).bounds = g.bounds := by
  rw [set]
  split <;> rfl

@[simp] theorem width_set (g : Plane α) (p : Pos) (a : α) : (g.set p a).width = g.width := by
  rw [set]
  split <;> rfl

@[simp] theorem height_set (g : Plane α) (p : Pos) (a : α) : (g.set p a).height = g.height := by
  rw [set]
  split <;> rfl

@[simp] theorem index?_set (g : Plane α) (p q : Pos) (a : α) :
    (g.set p a).index? q = g.index? q := by
  simp only [index?, width_set, height_set]

/-- The position of a place is where it came from. -/
theorem posOf_place {g : Plane α} {p : Pos} (hp : p ∈ g.positions) : posOf g.width (g.place p) = p := by
  obtain ⟨hx0, hx, hy0, hy⟩ := mem_positions.1 hp
  have hc := g.columns_le
  have hw : p.x.toInt.toNat < g.width := by omega
  have hm : g.place p % g.width = p.x.toInt.toNat := by
    rw [place, Nat.add_comm, Nat.add_mul_mod_self_right, Nat.mod_eq_of_lt hw]
  have hd : g.place p / g.width = p.y.toInt.toNat := by
    rw [place, Nat.add_comm, Nat.add_mul_div_right _ _ (by omega), Nat.div_eq_of_lt hw,
      Nat.zero_add]
  have hcl := g.columns_lt
  have hrl := g.rows_lt
  rw [posOf, hm, hd]
  refine Pos.eq_of_toInt ?_ ?_
  · show (Int32.ofNat _).toInt = _
    rw [Int32.toInt_ofNat_of_lt (by omega), Int.toNat_of_nonneg hx0]
  · show (Int32.ofNat _).toInt = _
    rw [Int32.toInt_ofNat_of_lt (by omega), Int.toNat_of_nonneg hy0]

theorem mem_entries {g : Plane α} {e : Pos × α} :
    e ∈ g.entries ↔ ∃ i, g.cells[i]? = some e.2 ∧ posOf g.width i = e.1 := by
  obtain ⟨p, a⟩ := e
  simp only [entries, List.mem_map, Prod.exists, List.mem_zipIdx_iff_getElem?, Prod.mk.injEq]
  constructor
  · intro h
    obtain ⟨b, i, hi, hp, rfl⟩ := h
    exact ⟨i, by simpa using hi, hp⟩
  · intro h
    obtain ⟨i, hi, hp⟩ := h
    exact ⟨a, i, by simpa using hi, hp, rfl⟩

section Reading

variable [Inhabited α]

/-- Nothing but the default is stored away from the positions. -/
def Confined (g : Plane α) : Prop :=
  ∀ (i : Nat) (a : α), g.cells[i]? = some a → a ≠ default → ∃ p ∈ g.positions, g.place p = i

omit [Inhabited α] in
theorem columns_eq_width {g : Plane α} (h : g.width < 2147483648) : g.columns = g.width := by
  rw [columns_eq, Int32.toInt_ofNat_of_lt (by omega), Int.toNat_natCast]

omit [Inhabited α] in
theorem rows_eq_height {g : Plane α} (h : g.height < 2147483648) : g.rows = g.height := by
  rw [rows_eq, Int32.toInt_ofNat_of_lt (by omega), Int.toNat_natCast]

/-- Positions reach every cell of a plane whose sides fit 32 bits. -/
theorem confined_of_sides {g : Plane α} (hw : g.width < 2147483648) (hh : g.height < 2147483648) :
    g.Confined := by
  intro i a ha _
  have hi : i < g.columns * g.rows := by
    rw [columns_eq_width hw, rows_eq_height hh]
    exact (Vector.getElem?_eq_some_iff.1 ha).1.trans_le (Nat.mod_le _ _)
  refine ⟨g.bounds.cell i, List.mem_map_of_mem (List.mem_range.2 hi), ?_⟩
  rw [place_cell g hi, columns_eq_width hw, Nat.div_add_mod']

omit [Inhabited α] in
theorem exact_of_sides {g : Plane α} (hw : g.width < 2147483648) (hh : g.height < 2147483648) :
    g.Exact := by
  have hsides := Nat.mul_le_mul hw.le hh.le
  exact hsides.trans_lt (by decide)

theorem get_of_index? {g : Plane α} (h : g.InRange) {p : Pos} {i : Nat} (hi : g.index? p = some i) :
    g.cells[i]? = some (g.get p) := by
  have hlt : i < cellCount g.width g.height := h p i hi
  rw [get, hi, Option.bind_some, Vector.getElem?_eq_getElem hlt, Option.getD_some]

theorem get_of_mem {g : Plane α} (h : g.Exact) {p : Pos} (hp : p ∈ g.positions) :
    g.cells[g.place p]? = some (g.get p) := get_of_index? h.inRange (index?_of_mem h hp)

/-- Where something else than the default is read, there is a cell. -/
theorem mem_positions_of_get_ne {g : Plane α} {p : Pos} (h : g.Exact) (hc : g.Confined)
    (hp : g.get p ≠ default) : p ∈ g.positions := by
  rw [get] at hp
  cases hi : g.index? p with
  | none => simp [hi] at hp
  | some i =>
    rw [hi, Option.bind_some] at hp
    cases ha : g.cells[i]? with
    | none => simp [ha] at hp
    | some a =>
      rw [ha, Option.getD_some] at hp
      obtain ⟨q, hq, rfl⟩ := hc i a ha hp
      exact index?_inj h hi (index?_of_mem h hq) ▸ hq

/-- What holds of the default and of every cell holds of all that is read. -/
theorem forall_get (g : Plane α) (h : g.Exact) (hc : g.Confined) {P : α → Prop} (hd : P default)
    (hP : ∀ p ∈ g.positions, P (g.get p)) (p : Pos) : P (g.get p) := by
  by_cases hp : g.get p = default
  · rwa [hp]
  · exact hP p (mem_positions_of_get_ne h hc hp)

theorem confined_fill (width height : Nat) : (fill width height (default : α)).Confined :=
  fun i a ha hne => absurd (cells_fill width height default i a ha) hne

theorem get_fill (width height : Nat) (p : Pos) :
    (fill width height (default : α)).get p = default := by
  rw [get]
  cases index? (fill width height (default : α)) p with
  | none => rfl
  | some i =>
    rw [Option.bind_some]
    cases ha : (fill width height (default : α)).cells[i]? with
    | none => rfl
    | some a => exact cells_fill width height default i a ha

/-- Writing a cell changes what is read there and nowhere else. -/
theorem get_set {g : Plane α} (h : g.Exact) {p : Pos} (hp : p ∈ g.positions) (a : α) (q : Pos) :
    (g.set p a).get q = if q = p then a else g.get q := by
  have hi := index?_of_mem h hp
  rw [get, index?_set, get]
  cases hqi : g.index? q with
  | none =>
    have hne : q ≠ p := fun he => by simp [he, hi] at hqi
    simp [hne]
  | some j =>
    simp only [Option.bind_some, cells_set h hp]
    by_cases he : q = p
    · have hj : g.place p = j := by
        rw [he, hi] at hqi
        exact Option.some.inj hqi
      simp [he, hj]
    · have hne : g.place p ≠ j := fun hj => he (index?_inj h hqi (hj ▸ hi))
      simp [he, hne]

theorem Confined.set {g : Plane α} (hc : g.Confined) (h : g.Exact) {p : Pos}
    (hp : p ∈ g.positions) (a : α) : (g.set p a).Confined := by
  intro i b hb hne
  rw [cells_set h hp] at hb
  simp only [positions, bounds_set, place, width_set]
  split at hb
  · exact ⟨p, hp, ‹_›⟩
  · exact hc i b hb hne

section SetAll

variable {g : Plane α} {writes : List (Pos × α)}

omit [Inhabited α] in
@[simp] theorem width_setAll (writes : List (Pos × α)) : ∀ g : Plane α,
    (g.setAll writes).width = g.width := by
  induction writes with
  | nil => exact fun _ => rfl
  | cons w writes ih => exact fun g => (ih _).trans (width_set g w.1 w.2)

omit [Inhabited α] in
@[simp] theorem height_setAll (writes : List (Pos × α)) : ∀ g : Plane α,
    (g.setAll writes).height = g.height := by
  induction writes with
  | nil => exact fun _ => rfl
  | cons w writes ih => exact fun g => (ih _).trans (height_set g w.1 w.2)

omit [Inhabited α] in
@[simp] theorem bounds_setAll (writes : List (Pos × α)) (g : Plane α) :
    (g.setAll writes).bounds = g.bounds := by
  rw [bounds, width_setAll, height_setAll]
  rfl

omit [Inhabited α] in
theorem cells_set_eq (g : Plane α) (p : Pos) (a : α) (i : Nat) :
    (g.set p a).cells[i]? = (g.cells[i]?).map fun b => if g.index? p = some i then a else b := by
  rw [set]
  cases hp : g.index? p with
  | none =>
    simp only [reduceCtorEq, if_false]
    exact Option.map_id'.symm
  | some j =>
    refine Vector.getElem?_setIfInBounds.trans ?_
    by_cases hj : j = i
    · subst hj
      simp only [if_true]
      split
      case isTrue hlt => rw [Vector.getElem?_eq_getElem hlt, Option.map_some]
      case isFalse hlt => rw [Vector.getElem?_eq_none (Nat.le_of_not_lt hlt), Option.map_none]
    · simp only [Option.some.injEq, hj, if_false]
      exact Option.map_id'.symm

omit [Inhabited α] in
theorem index?_setAll (writes : List (Pos × α)) (g : Plane α) (q : Pos) :
    (g.setAll writes).index? q = g.index? q := by
  simp only [index?, width_setAll, height_setAll]

omit [Inhabited α] in
/-- What is stored after writes is the last one that was stored there. -/
theorem cells_setAll (i : Nat) (writes : List (Pos × α)) : ∀ g : Plane α,
    (g.setAll writes).cells[i]? = (g.cells[i]?).map fun b =>
      ((writes.reverse.find? fun w => g.index? w.1 = some i).map (·.2)).getD b := by
  induction writes with
  | nil => exact fun g => Option.map_id'.symm
  | cons w writes ih =>
    intro g
    have hlast := ih (g.set w.1 w.2)
    simp only [index?_set] at hlast
    refine hlast.trans ?_
    rw [cells_set_eq, Option.map_map, List.reverse_cons, List.find?_append]
    congr 1
    funext b
    simp only [Function.comp_apply, List.find?_singleton]
    cases writes.reverse.find? fun w => g.index? w.1 = some i with
    | some v => rfl
    | none => split <;> simp_all

omit [Inhabited α] in
theorem ext_cells {g g' : Plane α} (hw : g.width = g'.width) (hh : g.height = g'.height)
    (h : ∀ i : Nat, g.cells[i]? = g'.cells[i]?) : g = g' := by
  cases g
  cases g'
  cases hw
  cases hh
  congr
  refine Vector.ext fun i hi => ?_
  have hi' := h i
  dsimp only at hi'
  rw [Vector.getElem?_eq_getElem hi, Vector.getElem?_eq_getElem hi, Option.some.injEq] at hi'
  exact hi'

omit [Inhabited α] in
/-- Writing the same once more changes nothing. -/
theorem setAll_setAll (g : Plane α) (writes : List (Pos × α)) :
    (g.setAll writes).setAll writes = g.setAll writes := by
  refine ext_cells (width_setAll _ _) (height_setAll _ _) fun i => ?_
  rw [cells_setAll, cells_setAll, Option.map_map]
  simp only [index?_setAll]
  congr 1
  funext b
  rw [Function.comp_apply]
  cases (writes.reverse.find? fun w => g.index? w.1 = some i).map (·.2) <;> rfl

/-- What is read after writes, some of which may fall beside the plane. -/
theorem get_setAll_inBounds (h : g.Exact) {q : Pos} (hq : g.inBounds q = true)
    (writes : List (Pos × α)) :
    (g.setAll writes).get q = ((writes.reverse.find? (·.1 = q)).map (·.2)).getD (g.get q) := by
  obtain ⟨i, hi⟩ := Option.isSome_iff_exists.1 hq
  have hexact : (g.setAll writes).Exact := by rwa [Exact, width_setAll, height_setAll]
  have hstored := get_of_index? hexact.inRange ((index?_setAll writes g q).trans hi)
  have hsame : (fun w : Pos × α => decide (g.index? w.1 = some i)) = fun w => decide (w.1 = q) := by
    funext w
    rw [decide_eq_decide]
    constructor
    · exact fun hw => index?_inj h hw hi
    · rintro rfl
      exact hi
  rw [cells_setAll, get_of_index? h.inRange hi, Option.map_some, hsame] at hstored
  exact (Option.some.inj hstored).symm

theorem get_setAll (h : g.Exact) {q : Pos} (hq : q ∈ g.positions) (writes : List (Pos × α)) :
    (g.setAll writes).get q = ((writes.reverse.find? (·.1 = q)).map (·.2)).getD (g.get q) := by
  refine get_setAll_inBounds h ?_ writes
  rw [inBounds, index?_of_mem h hq]
  rfl

/-- Of writes to different cells, each one is found afterwards. -/
theorem get_setAll_of_mem (h : g.Exact) {q : Pos} {a : α} (hq : q ∈ g.positions)
    (hnodup : (writes.map (·.1)).Nodup) (hmem : (q, a) ∈ writes) : (g.setAll writes).get q = a := by
  rw [get_setAll h hq]
  cases hfind : writes.reverse.find? (·.1 = q) with
  | none =>
    rw [List.find?_eq_none] at hfind
    exact absurd (decide_eq_true rfl) (hfind (q, a) (List.mem_reverse.2 hmem))
  | some w =>
    have hw := List.find?_some hfind
    have hw' := List.mem_reverse.1 (List.mem_of_find?_eq_some hfind)
    rw [List.inj_on_of_nodup_map hnodup hw' hmem (of_decide_eq_true hw)]
    rfl

theorem get_setAll_of_notMem (h : g.Exact) {q : Pos} (hq : q ∉ writes.map (·.1)) :
    (g.setAll writes).get q = g.get q := by
  rw [get, get, index?_setAll]
  cases hi : g.index? q with
  | none => rfl
  | some i =>
    have hnone : (writes.reverse.find? fun w => g.index? w.1 = some i) = none := by
      rw [List.find?_eq_none]
      intro w hw he
      have hwq := index?_inj h (of_decide_eq_true he) hi
      exact hq (List.mem_map.2 ⟨w, List.mem_reverse.1 hw, hwq⟩)
    rw [Option.bind_some, Option.bind_some, cells_setAll, hnone]
    exact congrArg (Option.getD · default) Option.map_id'

end SetAll

theorem get_map (g : Plane α) {f : α → α} (hf : f default = default) (p : Pos) :
    (g.map f).get p = f (g.get p) := by
  have hi : (g.map f).index? p = g.index? p := rfl
  rw [get, hi, get]
  cases g.index? p with
  | none => exact hf.symm
  | some i =>
    rw [Option.bind_some, Option.bind_some, cells_map]
    cases g.cells[i]? with
    | none => exact hf.symm
    | some a => rfl

theorem Confined.map {g : Plane α} (hc : g.Confined) {f : α → α} (hf : f default = default) :
    (g.map f).Confined := by
  intro i b hb hne
  rw [cells_map, Option.map_eq_some_iff] at hb
  obtain ⟨a, ha, rfl⟩ := hb
  exact hc i a ha fun he => hne (by rw [he, hf])

/-- The entries that are not the default, listed by rising place. -/
theorem entries_pairwise {g : Plane α} (hc : g.Confined) :
    g.entries.Pairwise fun a b => a.2 ≠ default → b.2 ≠ default → g.place a.1 < g.place b.1 := by
  have hplace : ∀ (i : Nat) (a : α), g.cells[i]? = some a → a ≠ default →
      g.place (posOf g.width i) = i := by
    intro i a ha hne
    obtain ⟨p, hp, hi⟩ := hc i a ha hne
    rw [← hi, posOf_place hp]
  rw [entries, List.pairwise_map, List.pairwise_iff_getElem]
  intro i j hi hj hij ha hb
  simp only [List.getElem_zipIdx, Nat.zero_add] at ha hb ⊢
  rw [hplace i _ (by simp at hi; simp [hi]) ha, hplace j _ (by simp at hj; simp [hj]) hb]
  exact hij

/-- What a scan of the stored cells finds beyond the default, a walk over the positions finds in the
same order. -/
theorem filter_entries {g : Plane α} (h : g.Exact) (hc : g.Confined) {P : Pos × α → Bool}
    (hP : ∀ p, P (p, default) = false) :
    g.entries.filter P = (g.positions.map fun p => (p, g.get p)).filter P := by
  let before (a b : Pos × α) : Prop := g.place a.1 < g.place b.1
  have : Std.Irrefl before := ⟨fun _ => Nat.lt_irrefl _⟩
  have : Std.Antisymm before := ⟨fun _ _ hab hba => absurd hab (Nat.lt_asymm hba)⟩
  have hne : ∀ {e : Pos × α}, P e = true → e.2 ≠ default := by
    rintro ⟨p, a⟩ he rfl
    rw [hP] at he
    cases he
  refine List.Pairwise.eq_of_mem_iff (r := before) ?_ ?_ ?_
  · rw [List.pairwise_filter]
    exact (entries_pairwise hc).imp fun hab ha hb => hab (hne ha) (hne hb)
  · refine List.Pairwise.filter P ?_
    rw [List.pairwise_map]
    exact g.positions_pairwise
  · intro h
    obtain ⟨p, a⟩ := h
    simp only [List.mem_filter, mem_entries, List.mem_map, Prod.mk.injEq]
    constructor
    · intro h
      obtain ⟨⟨i, ha, hp⟩, ht⟩ := h
      obtain ⟨q, hq, rfl⟩ := hc i a ha (hne ht)
      rw [posOf_place hq] at hp
      subst hp
      rw [get_of_mem h hq, Option.some.injEq] at ha
      exact ⟨⟨q, hq, rfl, ha⟩, ht⟩
    · intro h
      obtain ⟨⟨q, hq, rfl, rfl⟩, ht⟩ := h
      exact ⟨⟨g.place q, get_of_mem h hq, posOf_place hq⟩, ht⟩

theorem filterMap_entries {g : Plane α} (h : g.Exact) (hc : g.Confined) {F : Pos × α → Option β}
    (hF : ∀ p, F (p, default) = none) :
    g.entries.filterMap F = g.positions.filterMap fun p => F (p, g.get p) := by
  have hsplit : ∀ l : List (Pos × α), l.filterMap F = (l.filter fun e => (F e).isSome).filterMap F := by
    intro l
    rw [List.filterMap_filter]
    congr 1
    funext e
    cases F e <;> rfl
  rw [hsplit, filter_entries h hc (by simp [hF]), ← hsplit, List.filterMap_map]
  rfl

/-- The stored values beyond the default, in row-major order. -/
theorem filterMap_cells {g : Plane α} (h : g.Exact) (hc : g.Confined) {f : α → Option β}
    (hf : f default = none) :
    g.cells.toList.filterMap f = g.positions.filterMap fun p => f (g.get p) := by
  have he : g.cells.toList = g.entries.map (·.2) := by
    rw [entries, List.map_map]
    exact (List.zipIdx_map_fst 0 g.cells.toList).symm
  rw [he, List.filterMap_map]
  exact filterMap_entries h hc (F := f ∘ Prod.snd) fun _ => hf

end Reading

end Plane
end GridCircuit
