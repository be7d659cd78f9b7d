import GridCircuit.Proofs.Sheets

/-!
# Grids under any sequence of edits

A desk holds drawings, which are changed, copied from and put over one another in any order. A desk of
grids goes through the same edits as a desk of bounded maps: after any sequence of them every grid still
stands for its map, and what it stores and lists is what the map says.
-/

namespace GridCircuit

/-- Drawings that can be edited. -/
class Canvas (γ : Type) where
  blank : Nat → Nat → γ
  set : γ → Pos → Code → γ
  delete : γ → Pos → γ
  clear : γ → γ
  clearRect : γ → Rect → γ
  resize : γ → Nat → Nat → γ
  copyRect : γ → Rect → γ
  overlay : γ → γ → Pos → γ
  remapM {σ : Type} : γ → (Code → StateM σ Code) → StateM σ γ

instance : Canvas Grid where
  blank := Grid.blank
  set := Plane.set
  delete := Grid.delete
  clear := Grid.clear
  clearRect := Grid.clearRect
  resize := Grid.resize
  copyRect := Grid.copyRect
  overlay := Grid.overlay
  remapM := Grid.remapM

instance : Canvas Sheet where
  blank := Sheet.blank
  set s p := s.put p.x.toInt p.y.toInt
  delete s p := s.put p.x.toInt p.y.toInt .empty
  clear s := .blank s.width s.height
  clearRect := Sheet.erase
  resize := Sheet.resize
  copyRect := Sheet.copy
  overlay := Sheet.overlay
  remapM := Sheet.remapM

/-- A change of one drawing by itself. -/
inductive Change where
  | set (p : Pos) (c : Code)
  | delete (p : Pos)
  | clear
  | clearRect (r : Rect)
  | resize (width height : Nat)
deriving DecidableEq

/-- An edit of a desk. Drawings are named by their places; what is new comes last. The function of a
remap may keep a state from one call to the next, and to other remaps. -/
inductive Edit (σ : Type) where
  | new (width height : Nat)
  | change (k : Nat) (change : Change)
  | copyRect (k : Nat) (r : Rect)
  | overlay (k source : Nat) (corner : Pos)
  | remap (k : Nat) (f : Code → StateM σ Code)

namespace Change

variable {γ : Type} [Canvas γ]

def apply : Change → γ → γ
  | set p c, d => Canvas.set d p c
  | delete p, d => Canvas.delete d p
  | clear, d => Canvas.clear d
  | clearRect r, d => Canvas.clearRect d r
  | resize width height, d => Canvas.resize d width height

/-- The new sides can be counted by a coordinate. -/
def Fits : Change → Prop
  | resize width height => width ≤ 2147483647 ∧ height ≤ 2147483647
  | _ => True

instance : (c : Change) → Decidable c.Fits
  | resize _ _ => inferInstanceAs (Decidable (_ ∧ _))
  | set _ _ | delete _ | clear | clearRect _ => inferInstanceAs (Decidable True)

end Change

/-- Put what is made of the drawing at a place in its place; nothing happens if there is none. -/
def reviseM {σ γ : Type} (desk : List γ) (k : Nat) (f : γ → StateM σ γ) : StateM σ (List γ) :=
  match desk[k]? with
  | some d => return desk.set k (← f d)
  | none => return desk

namespace Edit

variable {σ γ : Type} [Canvas γ]

def perform (desk : List γ) : Edit σ → StateM σ (List γ)
  | new width height => return desk ++ [Canvas.blank width height]
  | change k c => reviseM desk k fun d => return c.apply d
  | copyRect k r => return desk ++ (desk[k]?.map fun d => Canvas.copyRect d r).toList
  | overlay k source corner =>
    match desk[source]? with
    | some src => reviseM desk k fun d => return Canvas.overlay d src corner
    | none => return desk
  | remap k f => reviseM desk k fun d => Canvas.remapM d f

/-- Perform edits one after another. -/
def run (desk : List γ) (edits : List (Edit σ)) : StateM σ (List γ) := edits.foldlM perform desk

/-- Every drawing that is made has sides that a coordinate can count. -/
def Fits : Edit σ → Prop
  | new width height => width ≤ 2147483647 ∧ height ≤ 2147483647
  | change _ c => c.Fits
  | copyRect _ r => r.width ≤ 2147483647 ∧ r.height ≤ 2147483647
  | _ => True

instance : (e : Edit σ) → Decidable e.Fits
  | new _ _ | copyRect _ _ => inferInstanceAs (Decidable (_ ∧ _))
  | change _ c => inferInstanceAs (Decidable c.Fits)
  | overlay _ _ _ | remap _ _ => inferInstanceAs (Decidable True)

end Edit

/-- One computation makes what `φ` makes of the results of another one, all of which are as `P` says. -/
structure Follows {σ α β : Type} (P : α → Prop) (φ : α → β) (x : StateM σ α) (y : StateM σ β) : Prop where
  run_eq : ∀ s, y.run s = (x.run s).map φ id
  holds : ∀ s, P (x.run s).1

namespace Follows

variable {σ α β α' β' : Type} {P : α → Prop} {φ : α → β} {Q : α' → Prop} {ψ : α' → β'}
  {x : StateM σ α} {y : StateM σ β} {f : α → StateM σ α'} {f' : β → StateM σ β'}

theorem pure {a : α} (h : P a) : Follows P φ (pure a : StateM σ α) (pure (φ a)) where
  run_eq _ := rfl
  holds _ := h

theorem bind (hx : Follows P φ x y) (hf : ∀ a, P a → Follows Q ψ (f a) (f' (φ a))) :
    Follows Q ψ (x >>= f) (y >>= f') where
  run_eq s := by
    have hy : (y >>= f').run s = (f' (y.run s).1).run (y.run s).2 := rfl
    rw [hy, hx.run_eq]
    exact (hf _ (hx.holds s)).run_eq _
  holds s := (hf _ (hx.holds s)).holds _

end Follows

/-- All grids of a desk have sides that a coordinate can count. -/
def AllSided (desk : List Grid) : Prop := ∀ g ∈ desk, g.Sided

section Steps

variable {σ : Type} {desk : List Grid} {g src : Grid} {k : Nat} {corner : Pos}

/-- A change of one grid is that change of its map. -/
theorem Change.sheet_apply (h : g.Sided) (c : Change) (hfits : c.Fits) :
    (c.apply g).Sided ∧ c.apply g.sheet = (c.apply g).sheet := by
  cases c with
  | set p c =>
    exact ⟨⟨(Plane.width_set g p c).trans_le h.width_le, (Plane.height_set g p c).trans_le h.height_le⟩,
      (Grid.sheet_set h p c).symm⟩
  | delete p =>
    exact ⟨⟨(Plane.width_set g p .empty).trans_le h.width_le,
      (Plane.height_set g p .empty).trans_le h.height_le⟩, (Grid.sheet_set h p .empty).symm⟩
  | clear => exact ⟨⟨h.width_le, h.height_le⟩, (Grid.sheet_clear h).symm⟩
  | clearRect r => exact ⟨⟨h.width_le, h.height_le⟩, (Grid.sheet_clearRect h r).symm⟩
  | resize width height =>
    have hnew : (Grid.blank width height).Sided := ⟨hfits.1, hfits.2⟩
    exact ⟨⟨(Plane.width_setAll _ _).trans_le hnew.width_le,
      (Plane.height_setAll _ _).trans_le hnew.height_le⟩, (Grid.sheet_resize h hnew).symm⟩

theorem Follows.change (h : g.Sided) (c : Change) (hfits : c.Fits) :
    Follows Plane.Sided Grid.sheet (Pure.pure (c.apply g) : StateM σ Grid)
      (Pure.pure (c.apply g.sheet)) := by
  obtain ⟨hsided, hsheet⟩ := Change.sheet_apply h c hfits
  rw [hsheet]
  exact .pure hsided

theorem Follows.overlay (h : g.Sided) (hsrc : src.Sided) (corner : Pos) :
    Follows Plane.Sided Grid.sheet (Pure.pure (g.overlay src corner) : StateM σ Grid)
      (Pure.pure (g.sheet.overlay src.sheet corner)) := by
  rw [← Grid.sheet_overlay h hsrc]
  exact .pure ⟨(Plane.width_setAll _ g).trans_le h.width_le, (Plane.height_setAll _ g).trans_le h.height_le⟩

theorem Follows.remapM (h : g.Sided) (f : Code → StateM σ Code) :
    Follows Plane.Sided Grid.sheet (g.remapM f) (g.sheet.remapM f) := by
  rw [← Grid.sheet_remapM h f]
  exact ⟨fun _ => rfl, fun _ => ⟨h.width_le, h.height_le⟩⟩

theorem Follows.reviseM {f : Grid → StateM σ Grid} {f' : Sheet → StateM σ Sheet} (h : AllSided desk)
    (hf : ∀ g, g.Sided → Follows Plane.Sided Grid.sheet (f g) (f' g.sheet)) :
    Follows AllSided (List.map Grid.sheet) (GridCircuit.reviseM desk k f)
      (GridCircuit.reviseM (desk.map Grid.sheet) k f') := by
  rw [GridCircuit.reviseM, GridCircuit.reviseM, List.getElem?_map]
  cases hk : desk[k]? with
  | none => exact .pure h
  | some g =>
    refine (hf g (h g (List.mem_of_getElem? hk))).bind fun g' hg' => ?_
    rw [← List.map_set]
    refine .pure fun d hd => ?_
    obtain hd | rfl := List.mem_or_eq_of_mem_set hd
    · exact h d hd
    · exact hg'

theorem Follows.append {more : List Grid} (h : AllSided desk) (hmore : AllSided more) :
    Follows AllSided (List.map Grid.sheet) (Pure.pure (desk ++ more) : StateM σ (List Grid))
      (Pure.pure (desk.map Grid.sheet ++ more.map Grid.sheet)) := by
  rw [← List.map_append]
  exact .pure fun g hg => (List.mem_append.1 hg).elim (h g) (hmore g)

/-- What one edit does to a desk of grids, it does to the maps. -/
theorem Edit.perform_follows (h : AllSided desk) (e : Edit σ) (hfits : e.Fits) :
    Follows AllSided (List.map Grid.sheet) (e.perform desk) (e.perform (desk.map Grid.sheet)) := by
  cases e with
  | new width height =>
    have hnew : (Grid.blank width height).Sided := ⟨hfits.1, hfits.2⟩
    have hblank : [Canvas.blank width height] = [Grid.blank width height].map Grid.sheet :=
      congrArg (fun s => [s]) (Grid.sheet_blank hnew).symm
    rw [perform, perform, hblank]
    exact .append h fun g hg => List.mem_singleton.1 hg ▸ hnew
  | change k c => exact .reviseM h fun g hg => .change hg c hfits
  | copyRect k r =>
    rw [perform, perform, List.getElem?_map]
    cases hk : desk[k]? with
    | none =>
      have hnone : AllSided [] := fun _ hg => absurd hg List.not_mem_nil
      exact .append h hnone
    | some g =>
      have hcopy : (g.copyRect r).Sided := ⟨hfits.1, hfits.2⟩
      have hsheet : (((some g).map Grid.sheet).map fun d => Canvas.copyRect d r).toList =
          [g.copyRect r].map Grid.sheet :=
        congrArg (fun s => [s]) (Grid.sheet_copyRect (h g (List.mem_of_getElem? hk)) hcopy).symm
      rw [hsheet]
      exact .append h fun g' hg' => List.mem_singleton.1 hg' ▸ hcopy
  | overlay k source corner =>
    rw [perform, perform, List.getElem?_map]
    cases hsource : desk[source]? with
    | none => exact .pure h
    | some src =>
      have hsrc := h src (List.mem_of_getElem? hsource)
      exact .reviseM h fun g hg => .overlay hg hsrc corner
  | remap k f => exact .reviseM h fun g hg => .remapM hg f

theorem Edit.run_follows (edits : List (Edit σ)) (hfits : ∀ e ∈ edits, e.Fits) :
    ∀ {desk : List Grid}, AllSided desk →
      Follows AllSided (List.map Grid.sheet) (run desk edits) (run (desk.map Grid.sheet) edits) := by
  induction edits with
  | nil => exact fun h => .pure h
  | cons e edits ih =>
    rw [List.forall_mem_cons] at hfits
    intro desk h
    rw [run, run, List.foldlM_cons, List.foldlM_cons]
    exact (perform_follows h e hfits.1).bind fun _ h' => ih hfits.2 h'

end Steps

/-- What a grid stores, gives and lists is what a map says. -/
structure Grid.Represents (g : Grid) (s : Sheet) : Prop where
  width_eq : g.width = s.width
  height_eq : g.height = s.height
  length_cells : g.cells.toList.length = s.width * s.height
  inRange : g.InRange
  get_eq : ∀ p, g.get p = s.code p.x.toInt p.y.toInt
  mem_occupied : ∀ p c, (p, c) ∈ g.occupied ↔ s.code p.x.toInt p.y.toInt = c ∧ c ≠ .empty
  /-- Each painted cell is listed once, row by row. -/
  occupied_pairwise : (g.occupied.map (·.1)).Pairwise Pos.Before

theorem Grid.represents_sheet {g : Grid} (h : g.Sided) : g.Represents g.sheet where
  width_eq := rfl
  height_eq := rfl
  length_cells := g.cells.length_toList.trans (cellCount_of_lt h.exact)
  inRange := h.exact.inRange
  get_eq := get_eq_code h
  mem_occupied p c := by
    rw [Grid.mem_occupied h.exact h.confined, get_eq_code h]
  occupied_pairwise := by
    rw [occupied_eq h.exact h.confined, List.pairwise_map]
    refine List.Pairwise.filter _ ?_
    rw [List.pairwise_map]
    exact g.bounds.cells_pairwise

/-- What a walk over a rectangle meets, and what is done by such walks. -/
structure Rect.Walked (r : Rect) : Prop where
  mem_cells : ∀ p, p ∈ r.cells ↔ r.contains p = true
  pairwise : r.cells.Pairwise Pos.Before
  nodup : r.cells.Nodup
  length_eq : r.cells.length = r.width * r.height
  clears : ∀ g : Grid, g.Sided → g.clearRect r = r.cells.foldl Grid.delete g
  copies : ∀ g : Grid, r.width ≤ 2147483647 → r.height ≤ 2147483647 → g.copyRect r =
    r.cells.foldl (fun out p => out.set (p.since r.min) (g.get p)) (Grid.blank r.width r.height)

theorem Rect.walked (r : Rect) : r.Walked where
  mem_cells _ := Rect.mem_cells
  pairwise := r.cells_pairwise
  nodup := r.cells_nodup
  length_eq := r.length_cells
  clears _ h := Grid.clearRect_eq_foldl h r
  copies g hw hh := Grid.copyRect_eq_foldl ⟨hw, hh⟩ g

/-- After any edits every grid represents the map that has been edited in its place, and every function
has been called for the same codes in the same order. -/
theorem Edit.run_represents {σ : Type} (edits : List (Edit σ)) (desk : List Grid) (s : σ)
    (hdesk : AllSided desk) (hfits : ∀ e ∈ edits, e.Fits) :
    List.Forall₂ Grid.Represents ((run desk edits).run s).1 ((run (desk.map Grid.sheet) edits).run s).1 ∧
      ((run desk edits).run s).2 = ((run (desk.map Grid.sheet) edits).run s).2 ∧
      ∀ r : Rect, r.Walked := by
  have hrun := run_follows edits hfits hdesk
  rw [hrun.run_eq s]
  refine ⟨?_, rfl, Rect.walked⟩
  rw [Prod.map_fst, List.forall₂_map_right_iff, List.forall₂_same]
  exact fun g hg => Grid.represents_sheet (hrun.holds s g hg)

/-- Edits at the ends of the range, with an overlay of a drawing on itself and a remap that counts. -/
def sampleEdits : List (Edit Nat) :=
  [.new 3 2, .change 0 (.set ⟨0, 0⟩ .wire), .change 0 (.set ⟨-1, 0⟩ .not), .change 0 (.set ⟨2, 1⟩ .and),
    .overlay 0 0 ⟨1, 0⟩, .overlay 0 0 ⟨2147483647, -2147483648⟩, .copyRect 0 ⟨⟨-1, 0⟩, ⟨3, 3⟩⟩,
    .change 0 (.clearRect ⟨⟨2, 2⟩, ⟨0, 0⟩⟩), .change 0 (.clearRect ⟨⟨-2147483648, 1⟩, ⟨2147483647, 2⟩⟩),
    .remap 1 fun _ calls => (.custom calls, calls + 1), .change 1 (.resize 3 1), .change 7 .clear]

theorem sampleEdits_represent : AllSided [] ∧ (∀ e ∈ sampleEdits, e.Fits) ∧
    ((Edit.run [] sampleEdits).run 5).1.map (fun g : Grid => g.cells.toList) =
      [[.wire, .wire, .empty, .empty, .empty, .empty], [.empty, .custom 5, .custom 6]] ∧
    List.Forall₂ Grid.Represents ((Edit.run [] sampleEdits).run 5).1
      ((Edit.run [] sampleEdits).run 5).1 ∧
    ((Edit.run ([] : List Grid) sampleEdits).run 5).2 =
      ((Edit.run ([] : List Sheet) sampleEdits).run 5).2 ∧ ∀ r : Rect, r.Walked := by
  have hdesk : AllSided [] := fun _ hg => absurd hg List.not_mem_nil
  have hfits : ∀ e ∈ sampleEdits, e.Fits := by decide
  exact ⟨hdesk, hfits, by decide +kernel, Edit.run_represents sampleEdits [] 5 hdesk hfits⟩

end GridCircuit
