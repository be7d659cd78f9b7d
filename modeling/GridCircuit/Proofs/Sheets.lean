import GridCircuit.Proofs.PastedCodes

/-!
# Grids as bounded maps

A sheet is what a grid stands for: a code for each pair of integers, and no code outside the sides.
Nothing on a sheet is stored, indexed or cut to a word. Each way to change a grid, or to make one of
another, does to the sheet what its name says, for grids whose sides a coordinate can count and for all
positions, rectangles and offsets. Larger grids are left out: of their cells positions reach only a part.
-/

namespace GridCircuit

/-- Whether two coordinates lie within sides. -/
def Inside (width height : Nat) (x y : Int) : Prop := 0 ≤ x ∧ x < width ∧ 0 ≤ y ∧ y < height

instance (width height : Nat) (x y : Int) : Decidable (Inside width height x y) :=
  inferInstanceAs (Decidable (_ ∧ _))

/-- What lies within the sides of a rectangle lies in it when it is moved by the corner. -/
theorem Rect.holds_add_min {r : Rect} {x y : Int} :
    r.Holds (x + r.min.x.toInt) (y + r.min.y.toInt) ↔ Inside r.width r.height x y := by
  rw [Holds, Inside, width, height]
  omega

/-- The coordinates within sides, row by row. -/
def coordinates (width height : Nat) : List (Int × Int) :=
  (List.range (width * height)).map fun i => (((i % width : Nat) : Int), ((i / width : Nat) : Int))

theorem mem_coordinates {width height : Nat} {x y : Int} :
    (x, y) ∈ coordinates width height ↔ Inside width height x y := by
  simp only [coordinates, List.mem_map, List.mem_range, Prod.mk.injEq]
  constructor
  · rintro ⟨i, hi, rfl, rfl⟩
    obtain ⟨hcolumn, hrow⟩ := exists_place_iff.1 ⟨i, hi, rfl, rfl⟩
    exact ⟨Int.natCast_nonneg _, Int.ofNat_lt.2 hcolumn, Int.natCast_nonneg _, Int.ofNat_lt.2 hrow⟩
  · rintro ⟨hx, hx', hy, hy'⟩
    obtain ⟨column, rfl⟩ := Int.eq_ofNat_of_zero_le hx
    obtain ⟨row, rfl⟩ := Int.eq_ofNat_of_zero_le hy
    obtain ⟨i, hi, rfl, rfl⟩ := exists_place_iff.2 ⟨Int.ofNat_lt.1 hx', Int.ofNat_lt.1 hy'⟩
    exact ⟨i, hi, rfl, rfl⟩

theorem coordinates_nodup (width height : Nat) : (coordinates width height).Nodup := by
  refine List.nodup_range.map fun i j hij => ?_
  obtain ⟨hcolumn, hrow⟩ := Prod.mk.inj hij
  rw [← Nat.div_add_mod i width, ← Nat.div_add_mod j width, Int.ofNat_inj.1 hcolumn,
    Int.ofNat_inj.1 hrow]

/-- A bounded map: a code for each pair of coordinates, which is empty outside the sides. -/
@[ext]
structure Sheet where
  width : Nat
  height : Nat
  code : Int → Int → Code
  outside : ∀ x y, ¬ Inside width height x y → code x y = .empty

namespace Sheet

variable {s t : Sheet} {x y : Int} {c : Code}

/-- The map with the given codes within sides and none outside. -/
def cut (width height : Nat) (code : Int → Int → Code) : Sheet where
  width := width
  height := height
  code x y := if Inside width height x y then code x y else .empty
  outside _ _ h := if_neg h

theorem code_cut {width height : Nat} (code : Int → Int → Code) (h : Inside width height x y) :
    (cut width height code).code x y = code x y := if_pos h

/-- Sheets with the same codes inside are equal. -/
theorem ext_inside (hw : s.width = t.width) (hh : s.height = t.height)
    (h : ∀ x y, Inside s.width s.height x y → s.code x y = t.code x y) : s = t := by
  refine Sheet.ext hw hh (funext fun x => funext fun y => ?_)
  by_cases hin : Inside s.width s.height x y
  · exact h x y hin
  · rw [s.outside x y hin, t.outside x y (hw ▸ hh ▸ hin)]

def blank (width height : Nat) : Sheet := cut width height fun _ _ => .empty

@[simp] theorem code_blank (width height : Nat) (x y : Int) : (blank width height).code x y = .empty :=
  ite_self _

/-- Put one code; nothing happens outside. -/
def put (s : Sheet) (x y : Int) (c : Code) : Sheet :=
  cut s.width s.height fun x' y' => if x' = x ∧ y' = y then c else s.code x' y'

theorem code_put {x' y' : Int} (h : Inside s.width s.height x' y') :
    (s.put x y c).code x' y' = if x' = x ∧ y' = y then c else s.code x' y' := if_pos h

/-- Empty the cells of a rectangle. -/
def erase (s : Sheet) (r : Rect) : Sheet :=
  cut s.width s.height fun x y => if r.Holds x y then .empty else s.code x y

theorem code_erase (r : Rect) (h : Inside s.width s.height x y) :
    (s.erase r).code x y = if r.Holds x y then .empty else s.code x y := if_pos h

/-- Keep what lies within other sides. -/
def resize (s : Sheet) (width height : Nat) : Sheet := cut width height s.code

theorem code_resize {width height : Nat} (h : Inside width height x y) :
    (s.resize width height).code x y = s.code x y := if_pos h

/-- The cells of a rectangle, its first corner moved to the origin. -/
def copy (s : Sheet) (r : Rect) : Sheet :=
  cut r.width r.height fun x y => s.code (x + r.min.x.toInt) (y + r.min.y.toInt)

theorem code_copy {r : Rect} (h : Inside r.width r.height x y) :
    (s.copy r).code x y = s.code (x + r.min.x.toInt) (y + r.min.y.toInt) := if_pos h

/-- Cover a sheet by the codes of another one whose origin comes to lie on `corner`. -/
def overlay (s t : Sheet) (corner : Pos) : Sheet :=
  cut s.width s.height fun x y =>
    if t.code (x - corner.x.toInt) (y - corner.y.toInt) = .empty then s.code x y
    else t.code (x - corner.x.toInt) (y - corner.y.toInt)

theorem code_overlay (corner : Pos) (h : Inside s.width s.height x y) :
    (s.overlay t corner).code x y =
      if t.code (x - corner.x.toInt) (y - corner.y.toInt) = .empty then s.code x y
      else t.code (x - corner.x.toInt) (y - corner.y.toInt) := if_pos h

section Remap

variable {m : Type → Type} [Monad m]

/-- Replace the code at a cell, if there is one. -/
def remapCell (f : Code → m Code) (s : Sheet) (k : Int × Int) : m Sheet :=
  if s.code k.1 k.2 = .empty then pure s else return s.put k.1 k.2 (← f (s.code k.1 k.2))

/-- Replace the codes one after another, row by row. -/
def remapM (s : Sheet) (f : Code → m Code) : m Sheet :=
  (coordinates s.width s.height).foldlM (remapCell f) s

end Remap

theorem code_put_of_ne {x' y' : Int} (h : (x', y') ≠ (x, y)) : (s.put x y c).code x' y' = s.code x' y' := by
  by_cases hin : Inside s.width s.height x' y'
  · rw [code_put hin, if_neg fun he => h (Prod.ext he.1 he.2)]
  · rw [s.outside x' y' hin]
    exact if_neg hin

theorem put_self (s : Sheet) (x y : Int) : s.put x y (s.code x y) = s := by
  refine ext_inside rfl rfl fun x' y' (hin : Inside s.width s.height x' y') => ?_
  rw [code_put hin]
  split
  case isTrue h => rw [h.1, h.2]
  case isFalse => rfl

/-- Put several codes, one after another. -/
def putAll (s : Sheet) (es : List ((Int × Int) × Code)) : Sheet :=
  es.foldl (fun s e => s.put e.1.1 e.1.2 e.2) s

theorem size_putAll (es : List ((Int × Int) × Code)) : ∀ s : Sheet,
    (s.putAll es).width = s.width ∧ (s.putAll es).height = s.height := by
  induction es with
  | nil => exact fun _ => ⟨rfl, rfl⟩
  | cons e es ih => exact fun s => ih (s.put e.1.1 e.1.2 e.2)

theorem code_putAll_of_notMem {es : List ((Int × Int) × Code)} : ∀ {s : Sheet},
    (x, y) ∉ es.map (·.1) → (s.putAll es).code x y = s.code x y := by
  induction es with
  | nil => exact fun _ => rfl
  | cons e es ih =>
    intro s h
    rw [List.map_cons, List.mem_cons, not_or] at h
    exact (ih h.2).trans (code_put_of_ne h.1)

/-- Of codes that are put on different cells, each is found afterwards. -/
theorem code_putAll_of_mem {es : List ((Int × Int) × Code)} : ∀ {s : Sheet},
    (es.map (·.1)).Nodup → Inside s.width s.height x y → ((x, y), c) ∈ es →
      (s.putAll es).code x y = c := by
  induction es with
  | nil => exact fun _ _ h => absurd h List.not_mem_nil
  | cons e es ih =>
    intro s hnodup hin h
    rw [List.map_cons, List.nodup_cons] at hnodup
    obtain rfl | h := List.mem_cons.1 h
    · refine (code_putAll_of_notMem hnodup.1).trans ?_
      rw [code_put hin, if_pos ⟨rfl, rfl⟩]
    · exact ih hnodup.2 hin h

/-- A sheet is made of another one of its size by putting all its codes. -/
theorem putAll_codes (hw : s.width = t.width) (hh : s.height = t.height) :
    s.putAll ((coordinates s.width s.height).map fun k => (k, t.code k.1 k.2)) = t := by
  obtain ⟨hwidth, hheight⟩ := size_putAll
    ((coordinates s.width s.height).map fun k => (k, t.code k.1 k.2)) s
  refine ext_inside (hwidth.trans hw) (hheight.trans hh) fun x y hin => ?_
  rw [hwidth, hheight] at hin
  have hkeys : ((coordinates s.width s.height).map fun k => (k, t.code k.1 k.2)).map (·.1) =
      coordinates s.width s.height := by
    rw [List.map_map]
    exact List.map_id _
  refine code_putAll_of_mem ?_ hin (List.mem_map.2 ⟨(x, y), mem_coordinates.2 hin, rfl⟩)
  rw [hkeys]
  exact coordinates_nodup s.width s.height

section Remap

variable {m : Type → Type} [Monad m] [LawfulMonad m]

theorem remapCell_eq (f : Code → m Code) (s : Sheet) (k : Int × Int) : remapCell f s k =
    s.put k.1 k.2 <$> if (s.code k.1 k.2).isEmpty then pure (s.code k.1 k.2)
      else f (s.code k.1 k.2) := by
  rw [remapCell]
  have hempty : (s.code k.1 k.2).isEmpty = true ↔ s.code k.1 k.2 = .empty := decide_eq_true_iff
  by_cases h : s.code k.1 k.2 = .empty
  · rw [if_pos h, if_pos (hempty.2 h), map_pure, put_self]
  · rw [if_neg h, if_neg (hempty.not.2 h), map_eq_pure_bind]

/-- The calls for different cells do not depend on what the earlier ones have put. -/
theorem foldlM_remapCell (f : Code → m Code) {ks : List (Int × Int)} : ∀ {s : Sheet}, ks.Nodup →
    ks.foldlM (remapCell f) s = (fun codes => s.putAll (ks.zip codes)) <$>
      (ks.map fun k => s.code k.1 k.2).mapM fun c => if c.isEmpty then pure c else f c := by
  induction ks with
  | nil =>
    intro s _
    rw [List.foldlM_nil, List.map_nil, List.mapM_nil, map_pure]
    rfl
  | cons k ks ih =>
    intro s hnodup
    rw [List.nodup_cons] at hnodup
    have hrest : ∀ c, (ks.map fun k' => (s.put k.1 k.2 c).code k'.1 k'.2) =
        ks.map fun k' => s.code k'.1 k'.2 := by
      intro c
      refine List.map_congr_left fun k' hk' => code_put_of_ne fun he => hnodup.1 ?_
      obtain rfl : k' = k := he
      exact hk'
    rw [List.foldlM_cons, remapCell_eq, bind_map_left, List.map_cons, List.mapM_cons, map_bind]
    refine congrArg (_ >>= ·) (funext fun c => ?_)
    rw [ih hnodup.2, hrest, map_bind, map_eq_pure_bind]
    simp only [map_pure]
    rfl

end Remap

end Sheet

theorem Plane.inBounds_iff {α : Type} {g : Plane α} {p : Pos} :
    g.inBounds p = true ↔ Inside g.width g.height p.x.toInt p.y.toInt := by
  rw [inBounds, index?, Inside]
  split
  case isTrue h => exact iff_of_true rfl (by omega)
  case isFalse h => exact iff_of_false Bool.false_ne_true (by omega)

/-- The sides can be counted by a coordinate. -/
structure Plane.Sided {α : Type} (g : Plane α) : Prop where
  width_le : g.width ≤ 2147483647
  height_le : g.height ≤ 2147483647

namespace Plane.Sided

variable {α : Type} {g : Plane α} {p : Pos}

theorem exact (h : g.Sided) : g.Exact :=
  exact_of_sides (Nat.lt_succ_of_le h.width_le) (Nat.lt_succ_of_le h.height_le)

theorem confined [Inhabited α] (h : g.Sided) : g.Confined :=
  confined_of_sides (Nat.lt_succ_of_le h.width_le) (Nat.lt_succ_of_le h.height_le)

theorem mem_positions (h : g.Sided) :
    p ∈ g.positions ↔ Inside g.width g.height p.x.toInt p.y.toInt := by
  rw [Plane.mem_positions, columns_eq_width (Nat.lt_succ_of_le h.width_le),
    rows_eq_height (Nat.lt_succ_of_le h.height_le)]
  rfl

/-- Every pair of coordinates inside is a position. -/
theorem toInt_ofInt (h : g.Sided) {x y : Int} (hin : Inside g.width g.height x y) :
    (Int32.ofInt x).toInt = x ∧ (Int32.ofInt y).toInt = y := by
  obtain ⟨hx, hx', hy, hy'⟩ := hin
  have hwidth := h.width_le
  have hheight := h.height_le
  exact ⟨Int32.toInt_ofInt_of_le (by omega) (by omega), Int32.toInt_ofInt_of_le (by omega) (by omega)⟩

end Plane.Sided

namespace Grid

variable {g src : Grid} {p corner : Pos} {r : Rect}

/-- What a grid stands for. -/
def sheet (g : Grid) : Sheet :=
  .cut g.width g.height fun x y => g.get ⟨Int32.ofInt x, Int32.ofInt y⟩

/-- What is read at any position, inside or outside, is on the sheet. -/
theorem get_eq_code (h : g.Sided) (p : Pos) : g.get p = g.sheet.code p.x.toInt p.y.toInt := by
  by_cases hin : Inside g.width g.height p.x.toInt p.y.toInt
  · rw [sheet, Sheet.code_cut _ hin, Int32.ofInt_toInt, Int32.ofInt_toInt]
  · rw [g.sheet.outside _ _ hin]
    by_contra hne
    exact hin (h.mem_positions.1 (Plane.mem_positions_of_get_ne h.exact h.confined hne))

/-- A grid stands for the sheet whose codes are read from it. -/
theorem sheet_eq (h : g.Sided) {s : Sheet} (hw : g.width = s.width) (hh : g.height = s.height)
    (hcode : ∀ p ∈ g.positions, g.get p = s.code p.x.toInt p.y.toInt) : g.sheet = s := by
  refine Sheet.ext_inside hw hh fun x y hin => ?_
  obtain ⟨hx, hy⟩ := h.toInt_ofInt hin
  have hget := hcode ⟨Int32.ofInt x, Int32.ofInt y⟩ (h.mem_positions.2 (by rwa [hx, hy]))
  rw [hx, hy] at hget
  rw [← hget]
  exact Sheet.code_cut _ hin

/-- The stored codes are those of the sheet, row by row. -/
theorem toList_cells (h : g.Sided) :
    g.cells.toList = (coordinates g.width g.height).map fun k => g.sheet.code k.1 k.2 := by
  have hsize : cellCount g.width g.height = g.width * g.height := cellCount_of_lt h.exact
  have hcolumns := Plane.columns_eq_width (Nat.lt_succ_of_le h.width_le)
  have hrows := Plane.rows_eq_height (Nat.lt_succ_of_le h.height_le)
  refine List.ext_getElem (by simp [coordinates, hsize]) fun i hi _ => ?_
  have hi' : i < g.columns * g.rows := by
    rw [Vector.length_toList, hsize] at hi
    rwa [hcolumns, hrows]
  have hmem : g.bounds.cell i ∈ g.positions := List.mem_map_of_mem (List.mem_range.2 hi')
  have hplace : g.place (g.bounds.cell i) = i := by
    rw [g.place_cell hi', hcolumns, Nat.div_add_mod']
  obtain ⟨hx, hy⟩ := g.toInt_cell hi'
  have hstored := Plane.get_of_mem h.exact hmem
  rw [hplace, get_eq_code h, hx, hy, hcolumns] at hstored
  simp only [coordinates, List.map_map, List.getElem_map, List.getElem_range, Function.comp_apply,
    Vector.getElem_toList]
  exact (Vector.getElem?_eq_some_iff.1 hstored).2

/-- Different grids stand for different sheets. -/
theorem eq_of_sheet_eq {g' : Grid} (h : g.Sided) (h' : g'.Sided) (hs : g.sheet = g'.sheet) : g = g' := by
  have hw : g.width = g'.width := congrArg Sheet.width hs
  have hh : g.height = g'.height := congrArg Sheet.height hs
  have hcells : g.cells.toList = g'.cells.toList := by
    rw [toList_cells h, toList_cells h', hs, hw, hh]
  refine Plane.ext_cells hw hh fun i => ?_
  rw [← Vector.getElem?_toList, ← Vector.getElem?_toList, hcells]

theorem sheet_blank {width height : Nat} (h : (blank width height).Sided) :
    (blank width height).sheet = .blank width height := by
  refine sheet_eq h rfl rfl fun p _ => ?_
  rw [Sheet.code_blank]
  exact Plane.get_fill width height p

theorem sheet_set (h : g.Sided) (p : Pos) (c : Code) :
    sheet (g.set p c) = g.sheet.put p.x.toInt p.y.toInt c := by
  have hsides : (g.set p c).Sided := ⟨by simpa using h.width_le, by simpa using h.height_le⟩
  refine sheet_eq hsides (Plane.width_set g p c) (Plane.height_set g p c) fun q hq => ?_
  have hq : q ∈ g.positions := by rwa [Plane.positions, Plane.bounds_set] at hq
  have hin : Inside g.sheet.width g.sheet.height q.x.toInt q.y.toInt := h.mem_positions.1 hq
  have hget := Plane.get_setAll h.exact hq [(p, c)]
  have hone : g.setAll [(p, c)] = g.set p c := rfl
  rw [Sheet.code_put hin, ← get_eq_code h, ← hone, hget, List.reverse_singleton, List.find?_singleton]
  by_cases hpq : p = q
  · simp [hpq]
  · have hne : ¬ (q.x.toInt = p.x.toInt ∧ q.y.toInt = p.y.toInt) := fun he =>
      hpq (Pos.eq_of_toInt he.1.symm he.2.symm)
    simp [hpq, hne]

theorem sheet_clear (h : g.Sided) : g.clear.sheet = .blank g.width g.height := by
  have hsides : g.clear.Sided := ⟨h.width_le, h.height_le⟩
  refine sheet_eq hsides rfl rfl fun p _ => ?_
  rw [Sheet.code_blank]
  exact Plane.get_map g rfl p

end Grid

namespace Plane

variable {α : Type} [Inhabited α] {g : Plane α} {p : Pos}

theorem get_mapPos (h : g.Exact) (hp : p ∈ g.positions) (f : Pos → α → α) :
    (g.mapPos f).get p = f p (g.get p) := by
  have hexact : (g.mapPos f).Exact := h
  have hmem : p ∈ (g.mapPos f).positions := hp
  have hstored := get_of_mem hexact hmem
  have hmapped : (g.mapPos f).cells[g.place p]? = some (f (posOf g.width (g.place p)) (g.get p)) := by
    rw [mapPos, Vector.getElem?_mapIdx, get_of_mem h hp, Option.map_some]
  rw [posOf_place hp] at hmapped
  exact Option.some.inj (hstored.symm.trans hmapped)

theorem get_tabulate {width height : Nat} {f : Pos → α} (h : (tabulate width height f).Exact)
    (hp : p ∈ (tabulate width height f).positions) : (tabulate width height f).get p = f p := by
  have hstored := get_of_mem h hp
  have hlt := place_lt_of_mem h hp
  have hcell : (tabulate width height f).cells[(tabulate width height f).place p]? =
      some (f (posOf width ((tabulate width height f).place p))) := by
    rw [Vector.getElem?_eq_getElem hlt]
    exact congrArg some (Vector.getElem_ofFn hlt)
  have hpos : posOf width ((tabulate width height f).place p) = p := posOf_place hp
  rw [hpos] at hcell
  exact Option.some.inj (hstored.symm.trans hcell)

end Plane

namespace Grid

variable {g g' src : Grid} {p corner : Pos} {r : Rect}

theorem sheet_clearRect (h : g.Sided) (r : Rect) : (g.clearRect r).sheet = g.sheet.erase r := by
  have hsides : (g.clearRect r).Sided := ⟨h.width_le, h.height_le⟩
  refine sheet_eq hsides rfl rfl fun p hp => ?_
  have hin : Inside g.sheet.width g.sheet.height p.x.toInt p.y.toInt := hsides.mem_positions.1 hp
  rw [Sheet.code_erase r hin, ← get_eq_code h, clearRect, Plane.get_mapPos h.exact hp]
  simp only [← Rect.contains_iff]

theorem sheet_overlay (h : g.Sided) (hsrc : src.Sided) (corner : Pos) :
    (g.overlay src corner).sheet = g.sheet.overlay src.sheet corner := by
  have hsides : (g.overlay src corner).Sided :=
    ⟨(Plane.width_setAll _ g).trans_le h.width_le, (Plane.height_setAll _ g).trans_le h.height_le⟩
  refine sheet_eq hsides (Plane.width_setAll _ g) (Plane.height_setAll _ g) fun q hq => ?_
  have hq : q ∈ g.positions := by rwa [Plane.positions, overlay, Plane.bounds_setAll] at hq
  have hin : Inside g.sheet.width g.sheet.height q.x.toInt q.y.toInt := h.mem_positions.1 hq
  rw [Sheet.code_overlay corner hin, ← get_eq_code h,
    overlay_get h.exact (Nat.lt_succ_of_le hsrc.width_le) (Nat.lt_succ_of_le hsrc.height_le) hq]
  rfl

theorem sheet_resize (h : g.Sided) {width height : Nat} (hnew : (blank width height).Sided) :
    (g.resize width height).sheet = g.sheet.resize width height := by
  rw [resize, sheet_overlay hnew h, sheet_blank hnew]
  refine Sheet.ext_inside rfl rfl fun x y (hin : Inside width height x y) => ?_
  have hx : x - Pos.origin.x.toInt = x := Int.sub_zero x
  have hy : y - Pos.origin.y.toInt = y := Int.sub_zero y
  rw [Sheet.code_overlay _ hin, Sheet.code_resize hin, Sheet.code_blank, hx, hy]
  split
  case isTrue hempty => exact hempty.symm
  case isFalse => rfl

/-- What lies in a copy lies, moved by the corner, in the rectangle, so the sum is not cut. -/
theorem toInt_offset_min (h : Inside r.width r.height p.x.toInt p.y.toInt) :
    (p.offset r.min).x.toInt = p.x.toInt + r.min.x.toInt ∧
      (p.offset r.min).y.toInt = p.y.toInt + r.min.y.toInt := by
  obtain ⟨hx, hx', hy, hy'⟩ := h
  have hmaxx := r.max.x.toInt_lt
  have hmaxy := r.max.y.toInt_lt
  have hminx := r.min.x.le_toInt
  have hminy := r.min.y.le_toInt
  rw [Rect.width] at hx'
  rw [Rect.height] at hy'
  exact ⟨saturatingAdd_toInt (by omega) (by omega), saturatingAdd_toInt (by omega) (by omega)⟩

theorem sheet_copyRect (h : g.Sided) (hcopy : (g.copyRect r).Sided) :
    (g.copyRect r).sheet = g.sheet.copy r := by
  refine sheet_eq hcopy rfl rfl fun p hp => ?_
  have hin : Inside r.width r.height p.x.toInt p.y.toInt := hcopy.mem_positions.1 hp
  have hget : (g.copyRect r).get p = g.get (p.offset r.min) := Plane.get_tabulate hcopy.exact hp
  obtain ⟨hx, hy⟩ := toInt_offset_min hin
  rw [Sheet.code_copy hin, hget, get_eq_code h, hx, hy]

/-- Replacing the codes of a grid calls the function for the painted cells, row by row, once each. -/
theorem sheet_remapM {m : Type → Type} [Monad m] [LawfulMonad m] (h : g.Sided) (f : Code → m Code) :
    sheet <$> g.remapM f = g.sheet.remapM f := by
  have hcodes : ∀ cells : Vector Code (cellCount g.width g.height),
      g.sheet.putAll ((coordinates g.width g.height).zip cells.toList) =
        sheet { g with cells := cells } := by
    intro cells
    have hsides : Plane.Sided { g with cells := cells } := ⟨h.width_le, h.height_le⟩
    have hzip : (coordinates g.width g.height).zip cells.toList =
        (coordinates g.width g.height).map fun k =>
          (k, (sheet { g with cells := cells }).code k.1 k.2) := by
      rw [toList_cells hsides]
      exact List.map_prod_left_eq_zip.symm
    rw [hzip]
    exact Sheet.putAll_codes rfl rfl
  have hcalls : (Vector.toList <$> g.cells.mapM fun c => if c.isEmpty then pure c else f c) =
      g.cells.toList.mapM fun c => if c.isEmpty then pure c else f c :=
    calc _ = Array.toList <$> Vector.toArray <$> g.cells.mapM _ := comp_map _ _ _
      _ = Array.toList <$> g.cells.toArray.mapM _ := by rw [Vector.toArray_mapM]
      _ = _ := Array.toList_mapM
  have hwalk := Sheet.foldlM_remapCell f (s := g.sheet) (coordinates_nodup g.width g.height)
  rw [← toList_cells h, ← hcalls, Functor.map_map] at hwalk
  refine Eq.trans ?_ hwalk.symm
  rw [remapM, map_bind, map_eq_pure_bind]
  simp only [map_pure, hcodes]

/-- Grids of one size from which the same is read are the same. -/
theorem eq_of_get (h : g.Sided) (hw : g.width = g'.width) (hh : g.height = g'.height)
    (hget : ∀ p ∈ g.positions, g.get p = g'.get p) : g = g' := by
  have h' : g'.Sided := ⟨hw ▸ h.width_le, hh ▸ h.height_le⟩
  exact eq_of_sheet_eq h h' (sheet_eq h hw hh fun p hp => (hget p hp).trans (get_eq_code h' p))

/-- Deleting the cells of a rectangle one after another empties it. -/
theorem clearRect_eq_foldl (h : g.Sided) (r : Rect) : g.clearRect r = r.cells.foldl delete g := by
  have hloop : g.setAll (r.cells.map fun p => (p, .empty)) = r.cells.foldl delete g :=
    List.foldl_map
  have hkeys : (r.cells.map fun p => (p, Code.empty)).map (·.1) = r.cells := by
    rw [List.map_map]
    exact List.map_id _
  have hnodup : ((r.cells.map fun p => (p, Code.empty)).map (·.1)).Nodup := by
    rw [hkeys]
    exact r.cells_nodup
  rw [← hloop]
  refine eq_of_get ⟨h.width_le, h.height_le⟩ (Plane.width_setAll _ g).symm
    (Plane.height_setAll _ g).symm fun p hp => ?_
  rw [clearRect, Plane.get_mapPos h.exact hp]
  split
  case isTrue hin =>
    refine (Plane.get_setAll_of_mem h.exact hp hnodup ?_).symm
    exact List.mem_map.2 ⟨p, Rect.mem_cells.2 hin, rfl⟩
  case isFalse hout =>
    refine (Plane.get_setAll_of_notMem h.exact fun hmem => hout ?_).symm
    exact Rect.mem_cells.1 (hkeys ▸ hmem)

/-- Setting the cells of a copy one after another gives all of it. -/
theorem copyRect_eq_foldl (h : (blank r.width r.height).Sided) (g : Grid) :
    g.copyRect r =
      r.cells.foldl (fun out p => out.set (p.since r.min) (g.get p)) (blank r.width r.height) := by
  have hw : r.width ≤ 2147483647 := h.width_le
  have hh : r.height ≤ 2147483647 := h.height_le
  have hcopy : (g.copyRect r).Sided := ⟨hw, hh⟩
  have hloop : (blank r.width r.height).setAll (r.cells.map fun p => (p.since r.min, g.get p)) =
      r.cells.foldl (fun out p => out.set (p.since r.min) (g.get p)) (blank r.width r.height) :=
    List.foldl_map
  have hnodup : ((r.cells.map fun p => (p.since r.min, g.get p)).map (·.1)).Nodup := by
    rw [List.map_map]
    exact r.cells_nodup.map_on fun p hp q hq he =>
      Rect.since_inj hw hh (Rect.mem_cells.1 hp) (Rect.mem_cells.1 hq) he
  rw [← hloop]
  refine eq_of_get hcopy (Plane.width_setAll _ (blank r.width r.height)).symm
    (Plane.height_setAll _ (blank r.width r.height)).symm fun q hq => ?_
  have hin : Inside r.width r.height q.x.toInt q.y.toInt := hcopy.mem_positions.1 hq
  obtain ⟨hx, hy⟩ := toInt_offset_min hin
  have hcell : r.contains (q.offset r.min) = true := by
    rw [Rect.contains_iff, hx, hy]
    exact Rect.holds_add_min.2 hin
  obtain ⟨hsx, hsy⟩ := Rect.toInt_since hw hh hcell
  have hback : (q.offset r.min).since r.min = q := Pos.eq_of_toInt (by omega) (by omega)
  have hget : (g.copyRect r).get q = g.get (q.offset r.min) := Plane.get_tabulate hcopy.exact hq
  rw [hget]
  refine (Plane.get_setAll_of_mem h.exact hq hnodup ?_).symm
  exact List.mem_map.2 ⟨q.offset r.min, Rect.mem_cells.2 hcell, by rw [hback]⟩

end Grid

end GridCircuit
