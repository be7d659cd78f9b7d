import GridCircuit.Proofs.Wiring

/-!
# Accesses to stored cells

A position is looked for at a place that is computed from it, and whether there is a cell at the place is
decided by the sides alone. Drawing on a grid keeps its sides, and all planes of labels that labelling
goes through have the sides of the grid. So if every position of a grid is in range, drawing, labelling
and building never look for a cell where there is none.
-/

namespace GridCircuit

namespace Plane

variable {α β : Type} {g : Plane α}

/-- The place of a position lies behind the cells. -/
def Misses (g : Plane α) (p : Pos) : Prop := ∃ i, g.index? p = some i ∧ g.size ≤ i

theorem InRange.congr {g' : Plane β} (h : g.InRange) (hw : g'.width = g.width)
    (hh : g'.height = g.height) : g'.InRange := by
  intro p i hi
  rw [index?, hw, hh] at hi
  rw [size, hw, hh]
  exact h p i hi

theorem Misses.inBounds {p : Pos} (h : g.Misses p) : g.inBounds p = true := by
  obtain ⟨i, hi, -⟩ := h
  rw [Plane.inBounds, hi]
  rfl

theorem Misses.congr {g' : Plane β} {p : Pos} (h : g.Misses p) (hw : g'.width = g.width)
    (hh : g'.height = g.height) : g'.Misses p := by
  obtain ⟨i, hi, hsize⟩ := h
  rw [index?, ← hw, ← hh] at hi
  rw [size, ← hw, ← hh] at hsize
  exact ⟨i, hi, hsize⟩

end Plane

/-- The planes of labels that labelling a grid goes through: one after each step that writes labels. -/
inductive Labels.Stage (g : Grid) : Labels → Prop
  | start : Stage g (Plane.fill g.width g.height .empty)
  | put (s : Relabelling) (p : Pos) (m : Mark) : Stage g s.labels → Stage g (s.put p m).labels
  | absorb (s : Relabelling) (target : Nat) (other : Option Nat) : Stage g s.labels →
      Stage g (s.absorb target other).labels
  | joinWires (l : Labels) (a b : Pos) : Stage g l → Stage g (l.joinWires g a b)

/-- The fields that are built when a field is built to any depth. -/
inductive Field.Builds (rs : Registries) (f : Field) : Field → Prop
  | self : Builds rs f f
  | part {g inner : Field} {c : Code} : Builds rs f g → rs.drawingOf? g c = some inner →
      Builds rs f inner

namespace Labels

variable {g : Grid} {l : Labels} {s : Relabelling}

theorem sides_union (l : Labels) (src dst : Mark) :
    (l.union src dst).width = l.width ∧ (l.union src dst).height = l.height := by
  unfold union
  split
  case h_1 => split <;> exact ⟨rfl, rfl⟩
  case h_2 => exact ⟨rfl, rfl⟩

theorem Stage.sides (h : Stage g l) : l.width = g.width ∧ l.height = g.height := by
  induction h with
  | start => exact ⟨rfl, rfl⟩
  | put s p m _ ih =>
    rw [Relabelling.put]
    split
    case isTrue => exact ih
    case isFalse => exact ⟨(Plane.width_set _ p m).trans ih.1, (Plane.height_set _ p m).trans ih.2⟩
  | absorb s target other _ ih =>
    cases other with
    | none => exact ih
    | some id =>
      rw [Relabelling.absorb]
      split
      case isTrue => exact ih
      case isFalse =>
        have hsides := sides_union s.labels (.group id) (.group target)
        exact ⟨hsides.1.trans ih.1, hsides.2.trans ih.2⟩
  | joinWires l a b _ ih =>
    rw [Labels.joinWires]
    split
    case isTrue =>
      have hsides := sides_union l (l.get b) (l.get a)
      exact ⟨hsides.1.trans ih.1, hsides.2.trans ih.2⟩
    case isFalse => exact ih

theorem Stage.inRange (h : Stage g l) (hg : g.InRange) : l.InRange := hg.congr h.sides.1 h.sides.2

theorem Stage.visitGroup (h : Stage g s.labels) (p : Pos) (c : Code) :
    Stage g (s.visitGroup g p c).labels := by
  unfold Relabelling.visitGroup
  dsimp only
  split
  case h_1 target _ => exact .put _ p _ (.absorb _ target _ (.absorb s target _ h))
  case h_2 => exact .put { s with next := s.next + 1 } p _ h

theorem Stage.visit (h : Stage g s.labels) (p : Pos) : Stage g (s.visit g p).labels := by
  rw [Relabelling.visit]
  cases g.get p
  case empty | input | output | clockInput | cross => exact .put s p _ h
  all_goals exact h.visitGroup p _

theorem Stage.pass (h : Stage g s.labels) : Stage g (s.pass g).labels :=
  List.foldlRecOn (motive := fun s : Relabelling => Stage g s.labels) _ _ h
    fun _ hs p _ => hs.visit p

theorem Stage.settle (h : Stage g s.labels) {n : Nat} (hl : Relabelling.settle g n s = some l) :
    Stage g l := by
  induction n generalizing s with
  | zero => cases hl
  | succ n ih =>
    rw [Relabelling.settle] at hl
    split at hl
    case isTrue => exact ih h.pass hl
    case isFalse =>
      cases hl
      exact h.pass

theorem Stage.joinAcross (h : Stage g l) (p : Pos) : Stage g (l.joinAcross g p) :=
  .joinWires _ p.up p.down (.joinWires l p.left p.right h)

theorem Stage.joinThroughCrosses (h : Stage g l) : Stage g (l.joinThroughCrosses g) :=
  List.foldlRecOn (motive := Stage g) _ _ h fun _ hl p _ => hl.joinAcross p

end Labels

theorem Field.Builds.exact {rs : Registries} {f g : Field} (h : f.Builds rs g) (hr : rs.Exact)
    (hf : f.grid.Exact) : g.grid.Exact := by
  cases h with
  | self => exact hf
  | part _ hinner => exact hr.drawingOf? hinner

end GridCircuit
