import GridCircuit.Proofs.Labelling
import Mathlib.Data.List.Chain

/-!
# The labelling is the partition into connected groups

Labelling stops at the second pass at the latest. The numbers it leaves are read off the drawing: none
for an empty cell, one fixed number for connectors and one for crosses, and a positive number for every
other cell, the same for two cells exactly if a path over neighbouring cells of their code joins them. A
number is used up only when a cell opens a group, so there are at most as many as there are cells.
-/

namespace GridCircuit

namespace Grid

/-- A walk from one cell to another over neighbouring cells that all hold one code. -/
structure Walk (g : Grid) (c : Code) (p q : Pos) (cells : List Pos) : Prop where
  first : cells.head? = some p
  last : cells.getLast? = some q
  steps : cells.IsChain fun a b => b ∈ a.neighbors
  within : ∀ a ∈ cells, a ∈ g.positions ∧ g.get a = c

/-- Two cells with a path between them that keeps to the code of the first. -/
def Joined (g : Grid) (p q : Pos) : Prop := ∃ cells, g.Walk (g.get p) p q cells

variable {g : Grid} {p q : Pos}

theorem grouped_iff_reflTransGen : g.Grouped p q ↔ Relation.ReflTransGen g.Touching p q := by
  have : Std.Symm g.Touching := ⟨fun _ _ h => h.symm (Pos.neighbors_symm h.1 h.2.1 h.2.2.1)⟩
  rw [Grouped, Relation.EqvGen.eqvGen_eq_reflTransGen]

theorem joined_of_grouped (hp : p ∈ g.positions) (h : g.Grouped p q) : g.Joined p q := by
  obtain ⟨cells, hchain, hlast⟩ :=
    List.exists_isChain_cons_of_relationReflTransGen (grouped_iff_reflTransGen.1 h)
  refine ⟨p :: cells, rfl, ?_, hchain.imp fun _ _ ht => ht.2.2.1, ?_⟩
  · rw [List.getLast?_eq_some_getLast (List.cons_ne_nil p cells), hlast]
  · refine hchain.induction (fun a => a ∈ g.positions ∧ g.get a = g.get p) _ ?_ fun _ => ⟨hp, rfl⟩
    exact fun a b ht ha => ⟨ht.2.1, ht.2.2.2.2.trans ha.2⟩

theorem grouped_of_joined (hg : (g.get p).groups = true) (h : g.Joined p q) : g.Grouped p q := by
  obtain ⟨cells, hwalk⟩ := h
  have hchain : cells.IsChain g.Touching := by
    refine hwalk.steps.imp_of_mem_imp fun a b ha hb hn => ?_
    obtain ⟨hapos, hacode⟩ := hwalk.within a ha
    obtain ⟨hbpos, hbcode⟩ := hwalk.within b hb
    exact ⟨hapos, hbpos, hn, hacode.symm ▸ hg, hbcode.trans hacode.symm⟩
  cases cells with
  | nil => cases hwalk.first
  | cons a cells =>
    obtain rfl := Option.some.inj hwalk.first
    have hlast := hwalk.last
    rw [List.getLast?_eq_some_getLast (List.cons_ne_nil a cells), Option.some.injEq] at hlast
    exact grouped_iff_reflTransGen.2
      (List.relationReflTransGen_of_exists_isChain_cons cells hchain hlast)

end Grid

namespace Relabelling

variable {g : Grid} {s : Relabelling} {p : Pos}

theorem put_next (s : Relabelling) (p : Pos) (m : Mark) : (s.put p m).next = s.next := by
  rw [put]
  split <;> rfl

/-- A cell uses up one number at most. -/
theorem visit_next_le (g : Grid) (s : Relabelling) (p : Pos) : (visit g s p).next ≤ s.next + 1 := by
  cases hg : (g.get p).groups with
  | false =>
    rw [visit_lone hg, put_next]
    exact Nat.le_succ _
  | true =>
    rw [visit_group hg]
    unfold visitGroup
    dsimp only
    split
    · rw [put_next, absorb_next, absorb_next]
      exact Nat.le_succ _
    · rw [put_next]

theorem foldl_visit_next_le (g : Grid) (cells : List Pos) (s : Relabelling) :
    (cells.foldl (visit g) s).next ≤ s.next + cells.length := by
  induction cells generalizing s with
  | nil => exact Nat.le_refl _
  | cons p cells ih =>
    have hrest := ih (visit g s p)
    have hfirst := visit_next_le g s p
    rw [List.foldl_cons, List.length_cons]
    omega

theorem length_positions_le (g : Grid) : g.positions.length ≤ g.width * g.height := by
  rw [Plane.positions, Rect.cells, List.length_map, List.length_range, Rect.area]
  exact Nat.mul_le_mul g.columns_le g.rows_le

/-- No more numbers are used than there are cells. -/
theorem pass_start_next_le (g : Grid) : (pass g (start g)).next ≤ g.width * g.height := by
  have h := foldl_visit_next_le g g.positions (start g)
  have hlen := length_positions_le g
  have hzero : (start g).next = 0 := rfl
  exact h.trans (by omega)

end Relabelling

namespace Labels

open Relabelling

/-- What the labelling of a grid tells about its cells. -/
structure Finds (g : Grid) (l : Labels) : Prop where
  /-- The labelling stops at the second pass, or before. -/
  settled : settle g 2 (start g) = some l
  /-- The second pass changes nothing. -/
  stable : pass g (pass g (start g)) = { pass g (start g) with changed := false } ∧
    (pass g (start g)).labels = l
  size_eq : l.width = g.width ∧ l.height = g.height
  empty : ∀ p, g.get p = .empty → (l.get p).toInt = 0
  connector : ∀ p, (g.get p).isConnector = true → (l.get p).toInt = -1
  cross : ∀ p, g.get p = .cross → (l.get p).toInt = -2
  /-- The number of any other cell is one that 32 bits can hold. -/
  group : ∀ p, (g.get p).groups = true → 0 < (l.get p).toInt ∧ (l.get p).toInt < 2147483647
  same_iff : ∀ p q, 0 < (l.get p).toInt → 0 < (l.get q).toInt →
    ((l.get p).toInt = (l.get q).toInt ↔ g.Joined p q)

variable {g : Grid} {l : Labels} {p q : Pos}

theorem toInt_pos_iff {m : Mark} : 0 < m.toInt ↔ ∃ id, m = .group id := by
  cases m with
  | group id => exact iff_of_true (Int.natCast_succ_pos id) ⟨id, rfl⟩
  | _ => simp [Mark.toInt]

theorem toInt_eq_iff {m n : Mark} (hm : 0 < m.toInt) (hn : 0 < n.toInt) :
    m.toInt = n.toInt ↔ m = n := by
  obtain ⟨a, rfl⟩ := toInt_pos_iff.1 hm
  obtain ⟨b, rfl⟩ := toInt_pos_iff.1 hn
  rw [Mark.toInt, Mark.toInt, Mark.group.injEq]
  omega

namespace Partition

variable {R : Pos → Pos → Prop}

/-- The mark of a cell that is in no group, inside the plane or not. -/
theorem get_eq_loneMark (h : Partition g R g.positions l) (he : g.Exact) (hc : g.Confined)
    (hg : (g.get p).groups = false) : l.get p = (g.get p).loneMark := by
  by_cases hp : p ∈ g.positions
  · exact (suits_lone hg).1 (h.suits p hp)
  · have hempty : g.get p = .empty := by
      by_contra hne
      exact hp (Plane.mem_positions_of_get_ne he hc hne)
    rw [h.blank p hp, hempty]
    rfl

end Partition

/-- In a settled labelling the cells of one group are those that paths join. -/
theorem same_iff_joined (h : Settled g l) {id : Nat} (hp : l.get p = .group id) :
    l.get p = l.get q ↔ g.Joined p q := by
  have hpos : p ∈ g.positions := h.partition.mem_of_group hp
  constructor
  · intro he
    exact g.joined_of_grouped hpos (h.partition.sound p q id hp (he ▸ hp))
  · intro hj
    have hgrouped := g.grouped_of_joined (h.partition.groups_of_group hp) hj
    rw [Grid.grouped_iff_reflTransGen] at hgrouped
    clear hj
    induction hgrouped with
    | refl => rfl
    | tail _ ht ih => exact ih.trans (h.linked _ _ ht)

/-- Every grid with fewer cells than there are numbers is labelled, and its labels are its groups. -/
theorem ofGrid_finds (g : Grid) (hw : g.width ≤ 2147483647) (hh : g.height ≤ 2147483647)
    (hcells : g.width * g.height < 2147483647) : ∃ l, ofGrid g = .ok l ∧ Finds g l := by
  have he : g.Exact := hcells.trans (by decide)
  have hc : g.Confined := Plane.confined_of_sides (Nat.lt_succ_of_le hw) (Nat.lt_succ_of_le hh)
  have hfirst := firstPass_pass he
  have hp := hfirst.partition
  refine ⟨_, ofGrid_eq he, ?_⟩
  constructor
  case settled => exact settle_two he
  case stable => exact ⟨hfirst.settled.pass, rfl⟩
  case size_eq => exact ⟨hp.width_eq, hp.height_eq⟩
  case empty =>
    intro p he'
    rw [hp.get_eq_loneMark he hc (by rw [he']; rfl), he']
    rfl
  case connector =>
    intro p hk
    have hg : (g.get p).groups = false := by simp [Code.groups, hk]
    rw [hp.get_eq_loneMark he hc hg]
    cases hcode : g.get p <;> rw [hcode] at hk <;> cases hk <;> rfl
  case cross =>
    intro p hx
    rw [hp.get_eq_loneMark he hc (by rw [hx]; rfl), hx]
    rfl
  case group =>
    intro p hg
    have hpos : p ∈ g.positions := by
      refine Plane.mem_positions_of_get_ne he hc fun hempty => ?_
      rw [hempty] at hg
      cases hg
    obtain ⟨id, hid⟩ := hp.exists_group hpos hg
    have hlt := hfirst.fresh p id hid
    have hle := pass_start_next_le g
    rw [hid, Mark.toInt]
    omega
  case same_iff =>
    intro p q hpos hqos
    obtain ⟨id, hid⟩ := toInt_pos_iff.1 hpos
    rw [toInt_eq_iff hpos hqos]
    exact same_iff_joined hfirst.settled hid

/-- Wires that meet from two sides, with a connector and a cross beside them. -/
def sampleComb : Grid := ⟨3, 3, #v[.wire, .cross, .wire, .wire, .input, .wire, .wire, .wire, .wire]⟩

theorem sampleComb_finds : sampleComb.width ≤ 2147483647 ∧ sampleComb.height ≤ 2147483647 ∧
    sampleComb.width * sampleComb.height < 2147483647 ∧
    ∃ l, ofGrid sampleComb = .ok l ∧ Finds sampleComb l :=
  ⟨by decide, by decide, by decide, ofGrid_finds sampleComb (by decide) (by decide) (by decide)⟩

end Labels

end GridCircuit
