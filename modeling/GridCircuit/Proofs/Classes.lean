import GridCircuit.Proofs.Labelling

/-!
# Crosses join wires into classes

Each cross unites at most two pairs of wire groups, and a union never separates cells that agreed. So
after all crosses the marks of two cells agree exactly when the cells are connected, whatever chains
of crosses lie between them. The groups are then the classes of the drawing, listed by first cell.
-/

namespace GridCircuit
namespace Labels

variable {g : Grid} {R : Pos → Pos → Prop} {l : Labels} {p q : Pos}

/-- Two positions on opposite sides of another. -/
def Opposite (x a b : Pos) : Prop := a = x.left ∧ b = x.right ∨ a = x.up ∧ b = x.down

/-- A labelling in which touching cells agree, and facing wires at the crosses in `done`. -/
structure Crossed (g : Grid) (done : List Pos) (l : Labels) : Prop where
  partition : Partition g g.Connected g.positions l
  linked : ∀ p q, g.Touching p q → l.get p = l.get q
  crossed : ∀ x ∈ done, ∀ a b, Opposite x a b → a ∈ g.positions → b ∈ g.positions →
    g.get a = .wire → g.get b = .wire → l.get a = l.get b

theorem isWire_iff {c : Code} : c.isWire = true ↔ c = .wire := by simp [Code.isWire]

/-- Joining two wires is a union of their groups, or nothing. -/
theorem joinWires_cases (h : Partition g R g.positions l) (a b : Pos) :
    (joinWires g l a b = l ∧
        ¬ (a ∈ g.positions ∧ b ∈ g.positions ∧ g.get a = .wire ∧ g.get b = .wire)) ∨
      ∃ i j, l.get a = .group i ∧ l.get b = .group j ∧ g.get a = .wire ∧ g.get b = .wire ∧
        joinWires g l a b = union l (.group j) (.group i) := by
  have hgroup : ∀ {c : Pos}, c ∈ g.positions → g.get c = .wire → ∃ i, l.get c = .group i :=
    fun hc hw => h.exists_group hc (by rw [hw]; rfl)
  by_cases hw : g.get a = .wire ∧ g.get b = .wire
  · have hj : joinWires g l a b = union l (l.get b) (l.get a) := by
      rw [joinWires, if_pos]
      rw [Bool.and_eq_true, isWire_iff, isWire_iff]
      exact hw
    by_cases ha : a ∈ g.positions
    · obtain ⟨i, hi⟩ := hgroup ha hw.1
      by_cases hb : b ∈ g.positions
      · obtain ⟨j, hj'⟩ := hgroup hb hw.2
        exact .inr ⟨i, j, hi, hj', hw.1, hw.2, by rw [hj, hi, hj']⟩
      · refine .inl ⟨?_, fun hn => hb hn.2.1⟩
        rw [hj, h.blank b hb]
        rfl
    · refine .inl ⟨?_, fun hn => ha hn.1⟩
      rw [hj, h.blank a ha]
      cases l.get b <;> rfl
  · refine .inl ⟨?_, fun hn => hw hn.2.2⟩
    rw [joinWires, if_neg]
    rw [Bool.and_eq_true, isWire_iff, isWire_iff]
    exact hw

/-- Joining two wires that belong together keeps a partition. -/
theorem Partition.joinWires (h : Partition g R g.positions l) (hR : Equivalence R) {a b : Pos}
    (hab : a ∈ g.positions → b ∈ g.positions → g.get a = .wire → g.get b = .wire → R a b) :
    Partition g R g.positions (joinWires g l a b) := by
  rcases joinWires_cases h a b with ⟨hj, -⟩ | ⟨i, j, hi, hj, hwa, hwb, he⟩
  · rw [hj]
    exact h
  · have hrel := hab (h.mem_of_group hi) (h.mem_of_group hj) hwa hwb
    rw [he]
    exact h.union hR hj hi (hR.symm hrel)

theorem joinWires_congr (h : Partition g R g.positions l) (a b : Pos) (hpq : l.get p = l.get q) :
    (joinWires g l a b).get p = (joinWires g l a b).get q := by
  rcases joinWires_cases h a b with ⟨hj, -⟩ | ⟨i, j, -, -, -, -, hj⟩
  · rw [hj, hpq]
  · rw [hj]
    exact union_congr l j i hpq

theorem joinWires_same (h : Partition g R g.positions l) {a b : Pos} (ha : a ∈ g.positions)
    (hb : b ∈ g.positions) (hwa : g.get a = .wire) (hwb : g.get b = .wire) :
    (joinWires g l a b).get a = (joinWires g l a b).get b := by
  rcases joinWires_cases h a b with ⟨-, hn⟩ | ⟨i, j, hi, hj, -, -, he⟩
  · exact absurd ⟨ha, hb, hwa, hwb⟩ hn
  · rw [he, get_union, get_union, hi, hj, if_pos rfl]
    split <;> rfl

namespace Crossed

variable {done : List Pos}

theorem joinWires (h : Crossed g done l) {x a b : Pos} (hx : x ∈ g.positions)
    (hc : g.get x = .cross) (ho : Opposite x a b) : Crossed g done (joinWires g l a b) where
  partition := h.partition.joinWires g.connected_equivalence fun ha hb hwa hwb =>
    .rel _ _ (.inr ⟨ha, hb, hwa, hwb, x, hx, hc, ho⟩)
  linked p q ht := joinWires_congr h.partition a b (h.linked p q ht)
  crossed y hy c d ho' hc hd hwc hwd :=
    joinWires_congr h.partition a b (h.crossed y hy c d ho' hc hd hwc hwd)

theorem joinAcross (h : Crossed g done l) {x : Pos} (hx : x ∈ g.positions)
    (hc : g.get x = .cross) : Crossed g (done ++ [x]) (joinAcross g l x) := by
  have h₁ := h.joinWires hx hc (.inl ⟨rfl, rfl⟩)
  have h₂ := h₁.joinWires hx hc (.inr ⟨rfl, rfl⟩)
  refine ⟨h₂.partition, h₂.linked, fun y hy a b ho ha hb hwa hwb => ?_⟩
  rcases List.mem_append.1 hy with hy | hy
  · exact h₂.crossed y hy a b ho ha hb hwa hwb
  · rw [List.mem_singleton.1 hy] at ho
    rcases ho with ⟨rfl, rfl⟩ | ⟨rfl, rfl⟩
    · exact joinWires_congr h₁.partition _ _ (joinWires_same h.partition ha hb hwa hwb)
    · exact joinWires_same h₁.partition ha hb hwa hwb

theorem foldl_joinAcross :
    ∀ (rest done : List Pos) (l : Labels), (∀ x ∈ rest, x ∈ g.positions ∧ g.get x = .cross) →
      Crossed g done l → Crossed g (done ++ rest) (rest.foldl (Labels.joinAcross g) l) := by
  intro rest
  induction rest with
  | nil =>
    intro done l _ h
    rw [List.append_nil]
    exact h
  | cons x rest ih =>
    intro done l hx h
    have hc := hx x (by simp)
    have h' := ih (done ++ [x]) _ (fun y hy => hx y (by simp [hy])) (h.joinAcross hc.1 hc.2)
    rwa [List.append_assoc] at h'

end Crossed

/-- Marks that agree exactly on connected cells. -/
structure Classified (g : Grid) (l : Labels) : Prop where
  partition : Partition g g.Connected g.positions l
  agree : ∀ p q, g.Connected p q → l.get p = l.get q

theorem positionsOf_eq (h : Partition g R g.positions l) (he : g.Exact) {m : Mark}
    (hm : m ≠ .empty) :
    l.positionsOf m = g.positions.filter fun p => l.get p = m := by
  have hP : ∀ p : Pos, decide ((p, (default : Mark)).2 = m) = false := fun _ =>
    decide_eq_false fun hd => hm hd.symm
  rw [positionsOf, Plane.filter_entries (h.exact he) h.confined hP, h.positions_eq, List.filter_map,
    List.map_map]
  simp [Function.comp_def]

/-- A mark that names no group stands on the cells that have it as their own. -/
theorem get_eq_iff_loneMark (h : Partition g R g.positions l) (hp : p ∈ g.positions) {m : Mark}
    (hm : ∀ id, .group id ≠ m) :
    l.get p = m ↔ (g.get p).groups = false ∧ (g.get p).loneMark = m := by
  have hs := h.suits p hp
  cases hg : (g.get p).groups with
  | true =>
    obtain ⟨id, hid⟩ := (suits_group hg).1 hs
    rw [hid]
    simp [hm id]
  | false =>
    rw [(suits_lone hg).1 hs]
    simp

theorem get_eq_cross_iff (h : Partition g R g.positions l) (hp : p ∈ g.positions) :
    l.get p = .cross ↔ g.get p = .cross := by
  rw [get_eq_iff_loneMark h hp (by simp)]
  cases g.get p <;> simp [Code.groups, Code.isEmpty, Code.isConnector, Code.isCross, Code.loneMark]

theorem get_eq_connector_iff (h : Partition g R g.positions l) (hp : p ∈ g.positions) :
    l.get p = .connector ↔ (g.get p).isConnector = true := by
  rw [get_eq_iff_loneMark h hp (by simp)]
  cases g.get p <;> simp [Code.groups, Code.isEmpty, Code.isConnector, Code.isCross, Code.loneMark]

/-- The crosses found by their marks are the cross cells of the drawing. -/
theorem crosses_eq (h : Partition g R g.positions l) (he : g.Exact) :
    l.crosses = g.positions.filter fun p => g.get p = .cross := by
  rw [crosses, positionsOf_eq (m := .cross) h he nofun]
  apply List.filter_congr
  intro p hp
  rw [decide_eq_decide]
  exact get_eq_cross_iff h hp

theorem connectors_eq (h : Partition g R g.positions l) (he : g.Exact) :
    l.positionsOf .connector = g.positions.filter fun p => (g.get p).isConnector := by
  rw [positionsOf_eq (m := .connector) h he nofun]
  apply List.filter_congr
  intro p hp
  rw [Bool.eq_iff_iff, decide_eq_true_iff]
  exact get_eq_connector_iff h hp

theorem joinThroughCrosses_classified (h : Relabelling.Settled g l) (he : g.Exact) :
    Classified g (joinThroughCrosses g l) := by
  have hstart : Crossed g [] l :=
    ⟨h.partition.mono fun _ _ => Grid.Grouped.connected, h.linked, by simp⟩
  have hcross : ∀ x ∈ l.crosses, x ∈ g.positions ∧ g.get x = .cross := by
    intro x hx
    rw [crosses_eq h.partition he] at hx
    simpa using hx
  have hend := Crossed.foldl_joinAcross l.crosses [] l hcross hstart
  refine ⟨hend.partition, fun p q hpq => ?_⟩
  refine Grid.eq_of_eqvGen (v := (joinThroughCrosses g l).get) (fun a b hab => ?_) hpq
  rcases hab with ht | ⟨ha, hb, hwa, hwb, x, hx, hc, ho⟩
  · exact hend.linked a b ht
  · refine hend.crossed x ?_ a b ho ha hb hwa hwb
    rw [List.nil_append, crosses_eq h.partition he]
    simp [hx, hc]

section EraseDups

variable {α β : Type} [DecidableEq β] (f : α → Option β) (xs : List α) {b : β}

theorem filter_filterMap_ne : (xs.filterMap f).filter (fun c => !c == b) =
    (xs.filter (f · ≠ some b)).filterMap f := by
  rw [List.filter_filterMap, List.filterMap_filter]
  congr 1
  funext y
  cases hfy : f y with
  | none => simp
  | some c => by_cases hcb : c = b <;> simp [hcb]

theorem find?_filter_ne {y : α} (hy : f y ≠ some b) :
    (xs.filter (f · ≠ some b)).find? (f · = f y) = xs.find? (f · = f y) := by
  rw [List.find?_filter]
  congr 1
  funext z
  by_cases hz : f z = f y <;> simp [hz, hy]

/-- Erasing later duplicates keeps the values at their first occurrences. -/
theorem eraseDups_filterMap [DecidableEq α] (hn : xs.Nodup) : (xs.filterMap f).eraseDups =
    (xs.filter fun x => (f x).isSome ∧ xs.find? (f · = f x) = some x).filterMap f := by
  induction hk : xs.length using Nat.strong_induction_on generalizing xs with
  | _ k ih =>
    cases xs with
    | nil => rfl
    | cons x t =>
      obtain ⟨hx, ht⟩ := List.nodup_cons.1 hn
      cases hfx : f x with
      | none =>
        have hrest := ih t.length (by simp [← hk]) t ht rfl
        rw [List.filterMap_cons_none hfx, hrest, List.filter_cons_of_neg (by simp [hfx])]
        congr 1
        apply List.filter_congr
        intro y hy
        cases hfy : f y with
        | none => simp
        | some b => simp [hfx]
      | some b =>
        have hlen : (t.filter (f · ≠ some b)).length < k := by
          have h := List.length_filter_le (f · ≠ some b) t
          rw [List.length_cons] at hk
          omega
        have hrest := ih _ hlen (t.filter (f · ≠ some b)) (ht.filter _) rfl
        rw [List.filterMap_cons_some hfx, List.eraseDups_cons, filter_filterMap_ne, hrest,
          List.filter_cons_of_pos (by simp [hfx]), List.filterMap_cons_some hfx,
          List.filter_filter]
        congr 2
        apply List.filter_congr
        intro y hy
        have hyx : x ≠ y := fun he => hx (he ▸ hy)
        by_cases hfy : f y = some b
        · simp [hfy, hfx, hyx]
        · have hne : f x ≠ f y := by
            rw [hfx]
            exact fun he => hfy he.symm
          rw [find?_filter_ne f t hfy]
          simp [hfy, hne]

end EraseDups

namespace Classified

theorem same_iff (h : Classified g l) (hp : p ∈ g.positions) (hg : (g.get p).groups = true) :
    l.get p = l.get q ↔ g.Connected p q := by
  constructor
  · intro he
    obtain ⟨id, hid⟩ := h.partition.exists_group hp hg
    exact h.partition.sound p q id hid (he ▸ hid)
  · exact h.agree p q

/-- The cells of a group are a class. -/
theorem positionsOf_group (h : Classified g l) (he : g.Exact) {id : Nat}
    (hid : l.get p = .group id) : l.positionsOf (.group id) = g.classOf p := by
  have hp := h.partition.mem_of_group hid
  have hg := h.partition.groups_of_group hid
  rw [positionsOf_eq (m := .group id) h.partition he nofun]
  apply List.filter_congr
  intro q _
  rw [decide_eq_decide, ← h.same_iff hp hg, hid]
  exact eq_comm

theorem groupId?_isSome (h : Classified g l) (hp : p ∈ g.positions) :
    (l.get p).groupId?.isSome = (g.get p).groups := by
  cases hg : (g.get p).groups with
  | true =>
    obtain ⟨id, hid⟩ := h.partition.exists_group hp hg
    rw [hid]
    rfl
  | false =>
    rw [(suits_lone hg).1 (h.partition.suits p hp)]
    cases g.get p <;> rfl

/-- The groups by first cell are the classes by first cell. -/
theorem groups_eq (h : Classified g l) (he : g.Exact) :
    l.groups = g.heads.filterMap fun p => (l.get p).groupId? := by
  have hlist := Plane.filterMap_cells (h.partition.exact he) h.partition.confined
    (f := Mark.groupId?) rfl
  rw [groups, hlist, h.partition.positions_eq, eraseDups_filterMap _ _ g.positions_nodup]
  congr 1
  apply List.filter_congr
  intro p hp
  rw [decide_eq_decide, h.groupId?_isSome hp]
  refine and_congr_right fun hg => ?_
  obtain ⟨id, hid⟩ := h.partition.exists_group hp hg
  have hfind : g.positions.find? (fun q => (l.get q).groupId? = (l.get p).groupId?) =
      (g.classOf p).head? := by
    rw [Grid.classOf, ← List.head?_filter]
    congr 1
    apply List.filter_congr
    intro q _
    rw [decide_eq_decide, ← h.same_iff hp hg, hid]
    cases l.get q <;> simp [Mark.groupId?, eq_comm]
  have hne := List.ne_nil_of_mem (Grid.self_mem_classOf hp)
  rw [hfind, Grid.root, List.headD_eq_head?_getD, List.head?_eq_some_head hne]
  simp

end Classified

end Labels
end GridCircuit
