import GridCircuit.Proofs.Sheets

/-!
# Moving a part of a drawing

A rectangle is cut out of a drawing and pasted into what is left. The places are compared as integers, so
nothing is assumed of where the rectangle and the corner lie: both may stick out of the drawing, lie at
the ends of the coordinate range, or overlap.
-/

namespace GridCircuit

namespace Sheet

variable {s : Sheet} {x y : Int}

/-- A copy is empty where nothing of the rectangle lies. -/
theorem code_copy_eq (s : Sheet) (r : Rect) (x y : Int) : (s.copy r).code x y =
    if r.Holds (x + r.min.x.toInt) (y + r.min.y.toInt) then
      s.code (x + r.min.x.toInt) (y + r.min.y.toInt) else .empty := by
  rw [copy, cut]
  exact if_congr Rect.holds_add_min.symm rfl rfl

/-- What is on a sheet after a rectangle has been copied, erased and put back at a corner. -/
theorem code_moved (r : Rect) (corner : Pos) (h : Inside s.width s.height x y) :
    ((s.erase r).overlay (s.copy r) corner).code x y =
      if r.Holds (x - corner.x.toInt + r.min.x.toInt) (y - corner.y.toInt + r.min.y.toInt) ∧
          s.code (x - corner.x.toInt + r.min.x.toInt) (y - corner.y.toInt + r.min.y.toInt) ≠ .empty then
        s.code (x - corner.x.toInt + r.min.x.toInt) (y - corner.y.toInt + r.min.y.toInt)
      else if r.Holds x y then .empty else s.code x y := by
  rw [code_overlay (s := s.erase r) corner h, code_erase r h, code_copy_eq]
  generalize x - corner.x.toInt + r.min.x.toInt = x'
  generalize y - corner.y.toInt + r.min.y.toInt = y'
  by_cases hheld : r.Holds x' y'
  · rw [if_pos hheld]
    by_cases hempty : s.code x' y' = .empty
    · have hstays : ¬(r.Holds x' y' ∧ s.code x' y' ≠ .empty) := fun h => h.2 hempty
      rw [if_pos hempty, if_neg hstays]
    · rw [if_neg hempty, if_pos ⟨hheld, hempty⟩]
  · have hstays : ¬(r.Holds x' y' ∧ s.code x' y' ≠ .empty) := fun h => hheld h.1
    rw [if_neg hheld, if_pos rfl, if_neg hstays]

/-- Put back where it was, a rectangle leaves everything as it was. -/
theorem moved_home (s : Sheet) (r : Rect) : (s.erase r).overlay (s.copy r) r.min = s := by
  refine ext_inside rfl rfl fun x y (hin : Inside s.width s.height x y) => ?_
  rw [code_moved r r.min hin, Int.sub_add_cancel, Int.sub_add_cancel]
  by_cases hheld : r.Holds x y
  · rw [if_pos hheld]
    by_cases hempty : s.code x y = .empty
    · rw [if_neg fun hmoved => hmoved.2 hempty, hempty]
    · rw [if_pos ⟨hheld, hempty⟩]
  · rw [if_neg fun hmoved => hheld hmoved.1, if_neg hheld]

end Sheet

/-- What is left of a grid, with a rectangle cut out of it and put over it at a corner. -/
def Grid.move (g : Grid) (r : Rect) (corner : Pos) : Grid :=
  (g.clearRect r).overlay (g.copyRect r) corner

namespace Grid

variable {g : Grid} {r : Rect} {corner : Pos}

theorem width_move (g : Grid) (r : Rect) (corner : Pos) : (g.move r corner).width = g.width :=
  Plane.width_setAll _ _

theorem height_move (g : Grid) (r : Rect) (corner : Pos) : (g.move r corner).height = g.height :=
  Plane.height_setAll _ _

theorem sided_move (h : g.Sided) : (g.move r corner).Sided :=
  ⟨(width_move g r corner).trans_le h.width_le, (height_move g r corner).trans_le h.height_le⟩

theorem sheet_move (h : g.Sided) (hcopy : (g.copyRect r).Sided) :
    (g.move r corner).sheet = (g.sheet.erase r).overlay (g.sheet.copy r) corner := by
  have hcleared : (g.clearRect r).Sided := ⟨h.width_le, h.height_le⟩
  rw [move, sheet_overlay hcleared hcopy, sheet_clearRect h, sheet_copyRect h hcopy]

theorem move_home (h : g.Sided) (hcopy : (g.copyRect r).Sided) : g.move r r.min = g :=
  eq_of_sheet_eq (sided_move h) h ((sheet_move h hcopy).trans (g.sheet.moved_home r))

theorem get_move (h : g.Sided) (hcopy : (g.copyRect r).Sided) (q : Pos) :
    (g.move r corner).get q =
      ((g.sheet.erase r).overlay (g.sheet.copy r) corner).code q.x.toInt q.y.toInt := by
  rw [get_eq_code (sided_move h), sheet_move h hcopy]

end Grid

namespace Field

variable {f : Field} {r : Rect} {corner p q : Pos}

/-- The painted cell `p` comes to lie on `q` when a rectangle is moved with its first corner to `corner`. -/
structure Lands (f : Field) (r : Rect) (corner p q : Pos) : Prop where
  x_eq : p.x.toInt = q.x.toInt - corner.x.toInt + r.min.x.toInt
  y_eq : p.y.toInt = q.y.toInt - corner.y.toInt + r.min.y.toInt
  held : r.contains p = true
  inside : f.grid.inBounds p = true
  painted : f.grid.get p ≠ .empty

/-- What has become of a field, and of the registries, of which a rectangle has been moved. -/
structure Moved (rs : Registries) (f : Field) (r : Rect) (corner : Pos) (rs' : Registries)
    (f' : Field) : Prop where
  registries_eq : rs' = rs
  name_eq : f'.name = f.name
  registry_eq : f'.registry = f.registry
  width_eq : f'.grid.width = f.grid.width
  height_eq : f'.grid.height = f.grid.height
  landed : ∀ q, f.grid.inBounds q = true → ∀ p, f.Lands r corner p q → f'.grid.get q = f.grid.get p
  left : ∀ q, f.grid.inBounds q = true → (∀ p, ¬ f.Lands r corner p q) → r.contains q = true →
    f'.grid.get q = .empty
  kept : ∀ q, f.grid.inBounds q = true → (∀ p, ¬ f.Lands r corner p q) → r.contains q = false →
    f'.grid.get q = f.grid.get q
  home : corner = r.min → f' = f

theorem paste_cut_eq (rs : Registries) (f : Field) (r : Rect) (corner : Pos) :
    paste rs (f.cut r).2 (f.cut r).1 corner = (rs, { f with grid := f.grid.move r corner }) := if_pos rfl

section Landing

variable (h : f.grid.Sided) (hcopy : (f.grid.copyRect r).Sided) (hq : f.grid.inBounds q = true)

include h hcopy hq

theorem Lands.get_move (hp : f.Lands r corner p q) : (f.grid.move r corner).get q = f.grid.get p := by
  have hheld := Rect.contains_iff.1 hp.held
  have hne := hp.painted
  rw [Grid.get_eq_code h, hp.x_eq, hp.y_eq] at hne ⊢
  rw [hp.x_eq, hp.y_eq] at hheld
  rw [Grid.get_move h hcopy q, Sheet.code_moved r corner (Plane.inBounds_iff.1 hq), if_pos ⟨hheld, hne⟩]

/-- Where nothing lands, the rectangle is empty and the rest is as before. -/
theorem get_move_of_not_lands (hnone : ∀ p, ¬ f.Lands r corner p q) :
    (f.grid.move r corner).get q = if r.contains q = true then .empty else f.grid.get q := by
  rw [Grid.get_move h hcopy q, Sheet.code_moved r corner (Plane.inBounds_iff.1 hq), if_neg,
    Grid.get_eq_code h]
  · simp only [Rect.contains_iff]
  · rintro ⟨hheld, hne⟩
    have hin : Inside f.grid.width f.grid.height (q.x.toInt - corner.x.toInt + r.min.x.toInt)
        (q.y.toInt - corner.y.toInt + r.min.y.toInt) := by
      by_contra hout
      exact hne (f.grid.sheet.outside _ _ hout)
    obtain ⟨hx, hy⟩ := h.toInt_ofInt hin
    refine hnone ⟨Int32.ofInt _, Int32.ofInt _⟩ ⟨hx, hy, ?_, ?_, ?_⟩
    · rwa [Rect.contains_iff, hx, hy]
    · rwa [Plane.inBounds_iff, hx, hy]
    · rwa [Grid.get_eq_code h, hx, hy]

end Landing

/-- Cutting a rectangle out and pasting it moves its painted cells, and nothing else. -/
theorem paste_cut (rs : Registries) (f : Field) (r : Rect) (corner : Pos)
    (hfw : f.grid.width ≤ 2147483647) (hfh : f.grid.height ≤ 2147483647)
    (hrw : r.width ≤ 2147483647) (hrh : r.height ≤ 2147483647) :
    Moved rs f r corner (paste rs (f.cut r).2 (f.cut r).1 corner).1
      (paste rs (f.cut r).2 (f.cut r).1 corner).2 := by
  have h : f.grid.Sided := ⟨hfw, hfh⟩
  have hcopy : (f.grid.copyRect r).Sided := ⟨hrw, hrh⟩
  rw [paste_cut_eq]
  constructor
  case registries_eq | name_eq | registry_eq => rfl
  case width_eq => exact Grid.width_move _ _ _
  case height_eq => exact Grid.height_move _ _ _
  case landed => exact fun q hq p hp => hp.get_move h hcopy hq
  case left =>
    exact fun q hq hnone hin => (get_move_of_not_lands h hcopy hq hnone).trans (if_pos hin)
  case kept =>
    intro q hq hnone hout
    refine (get_move_of_not_lands h hcopy hq hnone).trans (if_neg ?_)
    exact Bool.not_eq_true _ ▸ hout
  case home =>
    rintro rfl
    exact congrArg (fun g => { f with grid := g }) (Grid.move_home h hcopy)

end Field

/-- A drawing of five by two cells, of which the middle is moved one column on. -/
def sampleStrip : Field where
  name := "strip"
  grid := ⟨5, 2, #v[.battery, .wire, .not, .empty, .and, .empty, .custom 0, .wire, .or, .empty]⟩
  registry := ⟨0⟩

/-- Two columns of it, and more above and below. -/
def sampleColumns : Rect := ⟨⟨1, -1⟩, ⟨3, 9⟩⟩

theorem sampleStrip_moved : sampleStrip.grid.width ≤ 2147483647 ∧
    sampleStrip.grid.height ≤ 2147483647 ∧ sampleColumns.width ≤ 2147483647 ∧
    sampleColumns.height ≤ 2147483647 ∧
    (Field.paste {} (sampleStrip.cut sampleColumns).2 (sampleStrip.cut sampleColumns).1
        ⟨2, -1⟩).2.grid.cells.toList =
      [.battery, .empty, .wire, .not, .and, .empty, .empty, .custom 0, .wire, .empty] ∧
    Field.Moved {} sampleStrip sampleColumns ⟨2, -1⟩
      (Field.paste {} (sampleStrip.cut sampleColumns).2 (sampleStrip.cut sampleColumns).1 ⟨2, -1⟩).1
      (Field.paste {} (sampleStrip.cut sampleColumns).2 (sampleStrip.cut sampleColumns).1 ⟨2, -1⟩).2 :=
  ⟨by decide, by decide, by decide, by decide, by decide +kernel,
    Field.paste_cut {} sampleStrip sampleColumns ⟨2, -1⟩ (by decide) (by decide) (by decide) (by decide)⟩

end GridCircuit
