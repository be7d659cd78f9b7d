import GridCircuit.Grid.Basic
import GridCircuit.Proofs.Cells
import Mathlib.Logic.Relation

/-!
# Which cells belong together

The connectivity of a drawing, stated on the drawing alone: orthogonal neighbours of one code belong
together, and so do two wire cells on opposite sides of a cross. A class lists its cells in row-major
order and is named by its first cell. Nothing here says how classes are computed.
-/

namespace GridCircuit

/-- Whether cells of a code form groups. Connectors and crosses stand alone. -/
def Code.groups (c : Code) : Bool := !c.isEmpty && !c.isConnector && !c.isCross

namespace Grid

/-- Two neighbouring cells of one code. -/
def Touching (g : Grid) (p q : Pos) : Prop :=
  p ∈ g.positions ∧ q ∈ g.positions ∧ q ∈ p.neighbors ∧ (g.get p).groups = true ∧ g.get q = g.get p

/-- The equivalence that touching cells generate: the groups before crosses join wires. -/
def Grouped (g : Grid) : Pos → Pos → Prop := Relation.EqvGen g.Touching

/-- Two wire cells with one cross cell between them. -/
def Facing (g : Grid) (p q : Pos) : Prop :=
  p ∈ g.positions ∧ q ∈ g.positions ∧ g.get p = .wire ∧ g.get q = .wire ∧
    ∃ x ∈ g.positions, g.get x = .cross ∧ (p = x.left ∧ q = x.right ∨ p = x.up ∧ q = x.down)

/-- The equivalence that touching and facing cells generate. -/
def Connected (g : Grid) : Pos → Pos → Prop :=
  Relation.EqvGen fun p q => g.Touching p q ∨ g.Facing p q

open Classical in
/-- The cells connected to a cell, in row-major order. -/
noncomputable def classOf (g : Grid) (p : Pos) : List Pos :=
  g.positions.filter fun q => g.Connected p q

/-- The cell that names the class of a cell: the first of it. -/
noncomputable def root (g : Grid) (p : Pos) : Pos := (g.classOf p).headD p

open Classical in
/-- The cells that name the classes of groups, in row-major order. -/
noncomputable def heads (g : Grid) : List Pos :=
  g.positions.filter fun p => (g.get p).groups = true ∧ g.root p = p

theorem Touching.symm {g : Grid} {p q : Pos} (h : g.Touching p q) (hn : p ∈ q.neighbors) :
    g.Touching q p :=
  ⟨h.2.1, h.1, hn, h.2.2.2.2 ▸ h.2.2.2.1, h.2.2.2.2.symm⟩

theorem grouped_equivalence (g : Grid) : Equivalence g.Grouped := Relation.EqvGen.is_equivalence _

theorem connected_equivalence (g : Grid) : Equivalence g.Connected :=
  Relation.EqvGen.is_equivalence _

theorem Grouped.connected {g : Grid} {p q : Pos} (h : g.Grouped p q) : g.Connected p q :=
  Relation.EqvGen.mono (fun _ _ ht => Or.inl ht) p q h

section Classes

variable {g : Grid} {p q : Pos}

/-- What is the same at both ends of every step is the same for all that steps join. -/
theorem eq_of_eqvGen {α : Type} {r : Pos → Pos → Prop} {v : Pos → α} (hv : ∀ a b, r a b → v a = v b)
    (h : Relation.EqvGen r p q) : v p = v q := by
  induction h with
  | rel a b hab => exact hv a b hab
  | refl a => rfl
  | symm a b _ ih => exact ih.symm
  | trans a b c _ _ ih₁ ih₂ => exact ih₁.trans ih₂

/-- Connected cells hold one code, and only cells in groups are connected to others. -/
theorem Connected.eq_or (h : g.Connected p q) :
    p = q ∨ p ∈ g.positions ∧ q ∈ g.positions ∧ (g.get p).groups = true ∧ g.get q = g.get p := by
  induction h with
  | rel a b hab =>
    rcases hab with ht | hf
    · exact .inr ⟨ht.1, ht.2.1, ht.2.2.2.1, ht.2.2.2.2⟩
    · obtain ⟨ha, hb, hwa, hwb, -⟩ := hf
      exact .inr ⟨ha, hb, by rw [hwa]; rfl, hwb.trans hwa.symm⟩
  | refl a => exact .inl rfl
  | symm a b _ ih =>
    rcases ih with rfl | ⟨ha, hb, hg, hc⟩
    · exact .inl rfl
    · exact .inr ⟨hb, ha, hc ▸ hg, hc.symm⟩
  | trans a b c _ _ ih₁ ih₂ =>
    rcases ih₁ with rfl | ⟨ha, hb, hg, hc⟩
    · exact ih₂
    · rcases ih₂ with rfl | ⟨-, hc', -, hcc⟩
      · exact .inr ⟨ha, hb, hg, hc⟩
      · exact .inr ⟨ha, hc', hg, hcc.trans hc⟩

theorem Connected.get_eq (h : g.Connected p q) : g.get q = g.get p := by
  rcases h.eq_or with rfl | ⟨-, -, -, hc⟩
  exacts [rfl, hc]

theorem mem_classOf : q ∈ g.classOf p ↔ q ∈ g.positions ∧ g.Connected p q := by
  simp [classOf]

theorem self_mem_classOf (hp : p ∈ g.positions) : p ∈ g.classOf p := mem_classOf.2 ⟨hp, .refl p⟩

theorem classOf_congr (h : g.Connected p q) : g.classOf p = g.classOf q := by
  apply List.filter_congr
  intro x _
  rw [decide_eq_decide]
  have hE := g.connected_equivalence
  exact ⟨fun hp => hE.trans (hE.symm h) hp, fun hq => hE.trans h hq⟩

theorem headD_classOf (hp : p ∈ g.positions) (d : Pos) : (g.classOf p).headD d = g.root p := by
  have hne := List.ne_nil_of_mem (self_mem_classOf hp)
  rw [root, List.headD_eq_head?_getD, List.headD_eq_head?_getD, List.head?_eq_some_head hne]
  rfl

theorem root_mem (hp : p ∈ g.positions) : g.root p ∈ g.classOf p := by
  have hne := List.ne_nil_of_mem (self_mem_classOf hp)
  rw [← headD_classOf hp p, List.headD_eq_head?_getD, List.head?_eq_some_head hne]
  exact List.head_mem hne

theorem connected_root (hp : p ∈ g.positions) : g.Connected p (g.root p) :=
  (mem_classOf.1 (root_mem hp)).2

theorem root_mem_positions (hp : p ∈ g.positions) : g.root p ∈ g.positions :=
  (mem_classOf.1 (root_mem hp)).1

theorem get_root (hp : p ∈ g.positions) : g.get (g.root p) = g.get p := (connected_root hp).get_eq

theorem classOf_root (hp : p ∈ g.positions) : g.classOf (g.root p) = g.classOf p :=
  (classOf_congr (connected_root hp)).symm

/-- Two cells have one name exactly when they are connected. -/
theorem root_eq_iff (hp : p ∈ g.positions) (hq : q ∈ g.positions) :
    g.root p = g.root q ↔ g.Connected p q := by
  have hE := g.connected_equivalence
  constructor
  · intro h
    exact hE.trans (connected_root hp) (h ▸ hE.symm (connected_root hq))
  · intro h
    rw [← headD_classOf hp Pos.origin, ← headD_classOf hq Pos.origin, classOf_congr h]

theorem root_root (hp : p ∈ g.positions) : g.root (g.root p) = g.root p :=
  ((root_eq_iff hp (root_mem_positions hp)).2 (connected_root hp)).symm

theorem root_of_notMem (hp : p ∉ g.positions) : g.root p = p := by
  have hnil : g.classOf p = [] := List.eq_nil_iff_forall_not_mem.2 fun q hq => by
    obtain ⟨hq, hc⟩ := mem_classOf.1 hq
    rcases hc.eq_or with rfl | ⟨hp', -⟩
    exacts [hp hq, hp hp']
  rw [root, hnil]
  rfl

theorem mem_heads : p ∈ g.heads ↔ p ∈ g.positions ∧ (g.get p).groups = true ∧ g.root p = p := by
  simp [heads]

theorem root_mem_heads (hp : p ∈ g.positions) (hg : (g.get p).groups = true) :
    g.root p ∈ g.heads :=
  mem_heads.2 ⟨root_mem_positions hp, (get_root hp).symm ▸ hg, root_root hp⟩

theorem root_mem_heads_iff : g.root p ∈ g.heads ↔ p ∈ g.positions ∧ (g.get p).groups = true := by
  refine ⟨fun h => ?_, fun h => root_mem_heads h.1 h.2⟩
  by_cases hp : p ∈ g.positions
  · refine ⟨hp, ?_⟩
    have hg := (mem_heads.1 h).2.1
    rwa [get_root hp] at hg
  · rw [root_of_notMem hp] at h
    exact absurd (mem_heads.1 h).1 hp

theorem heads_nodup (g : Grid) : g.heads.Nodup := g.positions_nodup.filter _

end Classes

end Grid

section Steps

variable {α : Type} {g : Plane α} {p q : Pos}

theorem saturatingAdd_toInt {a b : Int32} (hl : -2147483648 ≤ a.toInt + b.toInt)
    (hu : a.toInt + b.toInt < 2147483648) : (Pos.saturatingAdd a b).toInt = a.toInt + b.toInt := by
  have hmin : Int32.minValue.toInt = -2147483648 := rfl
  have hmax : Int32.maxValue.toInt = 2147483648 - 1 := rfl
  exact Int32.toInt_ofIntClamp (by omega) (by omega)

/-- A step from a cell of a plane does not saturate. -/
theorem Pos.offset_toInt (hp : p ∈ g.positions) {d : Pos} (hx : -1 ≤ d.x.toInt ∧ d.x.toInt ≤ 1)
    (hy : -1 ≤ d.y.toInt ∧ d.y.toInt ≤ 1) :
    (p.offset d).x.toInt = p.x.toInt + d.x.toInt ∧ (p.offset d).y.toInt = p.y.toInt + d.y.toInt := by
  obtain ⟨hx0, hxc, hy0, hyr⟩ := Plane.mem_positions.1 hp
  have hc := g.columns_lt
  have hr := g.rows_lt
  exact ⟨saturatingAdd_toInt (by omega) (by omega), saturatingAdd_toInt (by omega) (by omega)⟩

theorem Pos.toInt_up (hp : p ∈ g.positions) :
    p.up.x.toInt = p.x.toInt + 0 ∧ p.up.y.toInt = p.y.toInt + -1 :=
  p.offset_toInt hp (d := ⟨0, -1⟩) (by decide) (by decide)

theorem Pos.toInt_left (hp : p ∈ g.positions) :
    p.left.x.toInt = p.x.toInt + -1 ∧ p.left.y.toInt = p.y.toInt + 0 :=
  p.offset_toInt hp (d := ⟨-1, 0⟩) (by decide) (by decide)

theorem Pos.toInt_down (hp : p ∈ g.positions) :
    p.down.x.toInt = p.x.toInt + 0 ∧ p.down.y.toInt = p.y.toInt + 1 :=
  p.offset_toInt hp (d := ⟨0, 1⟩) (by decide) (by decide)

theorem Pos.toInt_right (hp : p ∈ g.positions) :
    p.right.x.toInt = p.x.toInt + 1 ∧ p.right.y.toInt = p.y.toInt + 0 :=
  p.offset_toInt hp (d := ⟨1, 0⟩) (by decide) (by decide)

/-- Of two neighbouring cells, one lies to the left of or above the other. -/
theorem Pos.neighbors_cases (hp : p ∈ g.positions) (hq : q ∈ g.positions) (h : q ∈ p.neighbors) :
    (q = p.left ∨ q = p.up) ∨ p = q.left ∨ p = q.up := by
  simp only [Pos.neighbors, List.mem_cons, List.not_mem_nil, or_false] at h
  rcases h with h | h | h | h
  · exact .inl (.inr h)
  · exact .inl (.inl h)
  · obtain ⟨hx, hy⟩ := Pos.toInt_down hp
    obtain ⟨hx', hy'⟩ := Pos.toInt_up hq
    rw [← h] at hx hy
    exact .inr (.inr (Pos.eq_of_toInt (by omega) (by omega)))
  · obtain ⟨hx, hy⟩ := Pos.toInt_right hp
    obtain ⟨hx', hy'⟩ := Pos.toInt_left hq
    rw [← h] at hx hy
    exact .inr (.inl (Pos.eq_of_toInt (by omega) (by omega)))

/-- Neighbours are neighbours of each other. -/
theorem Pos.neighbors_symm (hp : p ∈ g.positions) (hq : q ∈ g.positions)
    (h : q ∈ p.neighbors) : p ∈ q.neighbors := by
  obtain ⟨hux, huy⟩ := Pos.toInt_up hq
  obtain ⟨hlx, hly⟩ := Pos.toInt_left hq
  obtain ⟨hdx, hdy⟩ := Pos.toInt_down hq
  obtain ⟨hrx, hry⟩ := Pos.toInt_right hq
  simp only [Pos.neighbors, List.mem_cons, List.not_mem_nil, or_false] at h ⊢
  rcases h with h | h | h | h
  · obtain ⟨hx, hy⟩ := Pos.toInt_up hp
    rw [← h] at hx hy
    exact .inr (.inr (.inl (Pos.eq_of_toInt (by omega) (by omega))))
  · obtain ⟨hx, hy⟩ := Pos.toInt_left hp
    rw [← h] at hx hy
    exact .inr (.inr (.inr (Pos.eq_of_toInt (by omega) (by omega))))
  · obtain ⟨hx, hy⟩ := Pos.toInt_down hp
    rw [← h] at hx hy
    exact .inl (Pos.eq_of_toInt (by omega) (by omega))
  · obtain ⟨hx, hy⟩ := Pos.toInt_right hp
    rw [← h] at hx hy
    exact .inr (.inl (Pos.eq_of_toInt (by omega) (by omega)))

theorem place_left_lt (hp : p ∈ g.positions) (hq : p.left ∈ g.positions) :
    g.place p.left < g.place p := by
  obtain ⟨hx, hy⟩ := Pos.toInt_left hp
  obtain ⟨hx0, -, -, -⟩ := Plane.mem_positions.1 hq
  rw [Plane.place, Plane.place, hy, hx, Int.add_zero]
  omega

theorem place_up_lt (hp : p ∈ g.positions) (hq : p.up ∈ g.positions) :
    g.place p.up < g.place p := by
  obtain ⟨hx, hy⟩ := Pos.toInt_up hp
  obtain ⟨hx0, hxc, hy0, -⟩ := Plane.mem_positions.1 hq
  have hc := g.columns_le
  rw [hy] at hy0
  have hs : p.y.toInt.toNat = (p.y.toInt + -1).toNat + 1 := by omega
  rw [Plane.place, Plane.place, hy, hx, Int.add_zero, hs, Nat.succ_mul]
  omega

end Steps

end GridCircuit
