import GridCircuit.Grid.Labels
import GridCircuit.Proofs.Connectivity

/-!
# Labelling finds the groups

The first relabelling pass keeps two facts about the cells it has visited: cells of one group are
linked by touching cells, and a visited cell carries the mark of its equal neighbours on the left and
above. After the pass both hold everywhere, so a second pass changes nothing and the labelling of
every exact grid succeeds.
-/

namespace GridCircuit

/-- The mark of a cell that is in no group. -/
def Code.loneMark : Code → Mark
  | .input | .output | .clockInput => .connector
  | .cross => .cross
  | _ => .empty

namespace Labels

variable {g : Grid} {R : Pos → Pos → Prop} {done : List Pos} {l : Labels} {p q : Pos}

/-- The mark that a cell with this code may carry. -/
def Suits (c : Code) (m : Mark) : Prop :=
  if c.groups = true then ∃ id, m = .group id else m = c.loneMark

theorem suits_group {c : Code} (h : c.groups = true) {m : Mark} :
    Suits c m ↔ ∃ id, m = .group id := by rw [Suits, if_pos h]

theorem suits_lone {c : Code} (h : c.groups = false) {m : Mark} : Suits c m ↔ m = c.loneMark := by
  rw [Suits, if_neg (by simp [h])]

theorem loneMark_ne_group (c : Code) (id : Nat) : c.loneMark ≠ .group id := by
  cases c <;> simp [Code.loneMark]

/-- Marks on the cells in `done` and nowhere else. Cells of one group are related by `R`. -/
structure Partition (g : Grid) (R : Pos → Pos → Prop) (done : List Pos) (l : Labels) : Prop where
  width_eq : l.width = g.width
  height_eq : l.height = g.height
  confined : l.Confined
  suits : ∀ p ∈ done, Suits (g.get p) (l.get p)
  blank : ∀ p, p ∉ done → l.get p = .empty
  sound : ∀ p q id, l.get p = .group id → l.get q = .group id → R p q

namespace Partition

theorem exact (h : Partition g R done l) (he : g.Exact) : l.Exact := by
  rw [Plane.Exact, h.width_eq, h.height_eq]
  exact he

theorem positions_eq (h : Partition g R done l) : l.positions = g.positions := by
  rw [Plane.positions, Plane.bounds, h.width_eq, h.height_eq]
  rfl

theorem mem_of_group (h : Partition g R done l) {id : Nat} (hp : l.get p = .group id) :
    p ∈ done := by
  by_contra hn
  rw [h.blank p hn] at hp
  cases hp

theorem groups_of_group (h : Partition g R done l) {id : Nat} (hp : l.get p = .group id) :
    (g.get p).groups = true := by
  have hs := h.suits p (h.mem_of_group hp)
  by_contra hn
  rw [suits_lone (by simpa using hn), hp] at hs
  exact loneMark_ne_group _ _ hs.symm

theorem exists_group (h : Partition g R done l) (hp : p ∈ done) (hg : (g.get p).groups = true) :
    ∃ id, l.get p = .group id := (suits_group hg).1 (h.suits p hp)

theorem mono {R' : Pos → Pos → Prop} (h : Partition g R done l) (hR : ∀ a b, R a b → R' a b) :
    Partition g R' done l :=
  { h with sound := fun a b id ha hb => hR a b (h.sound a b id ha hb) }

end Partition

theorem get_union (l : Labels) (a b : Nat) (p : Pos) :
    (union l (.group a) (.group b)).get p = if l.get p = .group a then .group b else l.get p := by
  rw [union]
  split
  · rename_i hab
    split <;> simp_all
  · exact Plane.get_map l rfl p

theorem union_congr (l : Labels) (a b : Nat) (h : l.get p = l.get q) :
    (union l (.group a) (.group b)).get p = (union l (.group a) (.group b)).get q := by
  rw [get_union, get_union, h]

/-- Two groups with related cells may be united. -/
theorem Partition.union (h : Partition g R done l) (hR : Equivalence R) {u v : Pos} {a b : Nat}
    (hu : l.get u = .group a) (hv : l.get v = .group b) (huv : R u v) :
    Partition g R done (union l (.group a) (.group b)) where
  width_eq := by
    rw [Labels.union]
    split
    exacts [h.width_eq, h.width_eq]
  height_eq := by
    rw [Labels.union]
    split
    exacts [h.height_eq, h.height_eq]
  confined := by
    rw [Labels.union]
    split
    exacts [h.confined, h.confined.map rfl]
  suits p hp := by
    have hs := h.suits p hp
    rw [get_union]
    split
    · rename_i ha
      exact (suits_group (h.groups_of_group ha)).2 ⟨b, rfl⟩
    · exact hs
  blank p hp := by
    rw [get_union, h.blank p hp, if_neg nofun]
  sound p q id hp hq := by
    have hab : ∀ {x y : Pos}, l.get x = .group a → l.get y = .group b → R x y := fun hx hy =>
      hR.trans (h.sound _ _ _ hx hu) (hR.trans huv (h.sound _ _ _ hv hy))
    rw [get_union] at hp hq
    split at hp <;> split at hq
    · exact h.sound p q a ‹_› ‹_›
    · exact hab ‹_› (hq.trans hp.symm)
    · exact hR.symm (hab ‹_› (hp.trans hq.symm))
    · exact h.sound p q id hp hq

theorem groupOf?_eq_some {c : Code} {id : Nat} :
    l.groupOf? g c p = some id ↔ g.get p = c ∧ l.get p = .group id := by
  rw [groupOf?]
  split
  · cases h : l.get p <;> simp_all [Mark.groupId?]
  · simp_all

end Labels

namespace Relabelling

open Labels

variable {g : Grid} {R : Pos → Pos → Prop} {done rest : List Pos} {s : Relabelling} {p q : Pos}

theorem visit_lone (h : (g.get p).groups = false) : visit g s p = s.put p (g.get p).loneMark := by
  rw [visit]
  split <;> simp_all [Code.loneMark, Code.groups, Code.isEmpty, Code.isConnector, Code.isCross]

theorem visit_group (h : (g.get p).groups = true) : visit g s p = visitGroup g s p (g.get p) := by
  rw [visit]
  split <;> simp_all [Code.groups, Code.isEmpty, Code.isConnector, Code.isCross]

/-- A cell without a group looks left and above only. -/
theorem visitGroup_fresh {c : Code} (h : (s.labels.get p).groupId? = none) :
    visitGroup g s p c =
      match (s.labels.groupOf? g c p.left).or (s.labels.groupOf? g c p.up) with
      | some t => (s.absorb t (s.labels.groupOf? g c p.up)).put p (.group t)
      | none => { s with next := s.next + 1 }.put p (.group s.next) := by
  unfold visitGroup
  simp only [h, Option.or_none]
  rfl

theorem get_put (he : s.labels.Exact) (hp : p ∈ s.labels.positions) (m : Mark) (q : Pos) :
    (s.put p m).labels.get q = if q = p then m else s.labels.get q := by
  rw [put]
  split
  · rename_i hm
    split <;> simp_all
  · exact Plane.get_set he hp m q

theorem put_of_eq {m : Mark} (h : s.labels.get p = m) : s.put p m = s := by rw [put, if_pos h]

/-- A fresh cell joins the group whose cells are related to it. -/
theorem partition_put (h : Partition g R done s.labels) (hR : Equivalence R) (he : g.Exact)
    (hp : p ∈ g.positions) {m : Mark} (hs : Suits (g.get p) m)
    (hm : ∀ q id, m = .group id → s.labels.get q = .group id → R p q) :
    Partition g R (done ++ [p]) (s.put p m).labels := by
  have hp' : p ∈ s.labels.positions := h.positions_eq ▸ hp
  have hget := get_put (h.exact he) hp' m
  refine ⟨?_, ?_, ?_, ?_, ?_, ?_⟩
  · rw [Relabelling.put]
    split
    exacts [h.width_eq, (Plane.width_set ..).trans h.width_eq]
  · rw [Relabelling.put]
    split
    exacts [h.height_eq, (Plane.height_set ..).trans h.height_eq]
  · rw [Relabelling.put]
    split
    exacts [h.confined, h.confined.set (h.exact he) hp' m]
  · intro q hq
    rw [hget]
    split
    · rename_i hqp
      rwa [hqp]
    · rename_i hqp
      exact h.suits q (by simpa [hqp] using hq)
  · intro q hq
    simp only [List.mem_append, List.mem_singleton, not_or] at hq
    rw [hget, if_neg hq.2, h.blank q hq.1]
  · intro a b id ha hb
    rw [hget] at ha hb
    split at ha <;> split at hb
    · rename_i hap hbp
      rw [hap, hbp]
      exact hR.refl p
    · rename_i hap _
      exact hap ▸ hm b id ha hb
    · rename_i _ hbp
      exact hbp ▸ hR.symm (hm a id hb ha)
    · exact h.sound a b id ha hb

/-- What the first pass has done when it has visited the cells in `done`. -/
structure FirstPass (g : Grid) (done : List Pos) (s : Relabelling) : Prop where
  partition : Partition g g.Grouped done s.labels
  fresh : ∀ p id, s.labels.get p = .group id → id < s.next
  linked : ∀ p ∈ done, ∀ q, q = p.left ∨ q = p.up → g.Touching p q →
    s.labels.get p = s.labels.get q

theorem absorb_labels (s : Relabelling) (a b : Nat) :
    (s.absorb b (some a)).labels = Labels.union s.labels (.group a) (.group b) := by
  rw [absorb]
  split
  · rename_i hab
    rw [Labels.union, if_pos hab]
  · rfl

theorem absorb_next (s : Relabelling) (b : Nat) (o : Option Nat) : (s.absorb b o).next = s.next := by
  cases o with
  | none => rfl
  | some a =>
    rw [absorb]
    split <;> rfl

namespace FirstPass

theorem absorb (h : FirstPass g done s) {u v : Pos} {a b : Nat} (hu : s.labels.get u = .group a)
    (hv : s.labels.get v = .group b) (huv : g.Grouped u v) :
    FirstPass g done (s.absorb b (some a)) where
  partition := by
    rw [absorb_labels]
    exact h.partition.union g.grouped_equivalence hu hv huv
  fresh p id hp := by
    rw [absorb_labels, get_union] at hp
    rw [absorb_next]
    split at hp
    · cases hp
      exact h.fresh v _ hv
    · exact h.fresh p id hp
  linked p hp q hq ht := by
    rw [absorb_labels]
    exact union_congr _ _ _ (h.linked p hp q hq ht)

/-- In row-major order a cell comes after the cells that lie before its place. -/
theorem mem_of_place_lt (hs : g.positions = done ++ p :: rest) (hq : q ∈ g.positions)
    (hlt : g.place q < g.place p) : q ∈ done := by
  have hpw := g.positions_pairwise
  rw [hs] at hq hpw
  rcases List.mem_append.1 hq with hd | hr
  · exact hd
  · exfalso
    rcases List.mem_cons.1 hr with rfl | hr
    · omega
    · have h := (List.pairwise_cons.1 (List.pairwise_append.1 hpw).2.1).1 q hr
      omega

theorem place_lt_of_mem (hs : g.positions = done ++ p :: rest) (hq : q ∈ done) :
    g.place q < g.place p := by
  have hpw := g.positions_pairwise
  rw [hs] at hpw
  exact (List.pairwise_append.1 hpw).2.2 q hq p (by simp)

theorem place_neighbor_lt (hq : q = p.left ∨ q = p.up) (ht : g.Touching p q) :
    g.place q < g.place p := by
  rcases hq with rfl | rfl
  · exact place_left_lt ht.1 ht.2.1
  · exact place_up_lt ht.1 ht.2.1

/-- A cell takes a mark that agrees with its equal neighbours. -/
theorem put (h : FirstPass g done s) (he : g.Exact) (hs : g.positions = done ++ p :: rest)
    {m : Mark} (hm : Suits (g.get p) m) {n : Nat} (hn : s.next ≤ n)
    (hid : ∀ id, m = .group id → id < n ∧ ∀ q, s.labels.get q = .group id → g.Grouped p q)
    (hnb : ∀ q, q = p.left ∨ q = p.up → g.Touching p q → s.labels.get q = m) :
    FirstPass g (done ++ [p]) ({ s with next := n }.put p m) := by
  have hp : p ∈ g.positions := by simp [hs]
  have hp' : p ∈ s.labels.positions := h.partition.positions_eq ▸ hp
  have hget := get_put (s := { s with next := n }) (h.partition.exact he) hp' m
  have hnext : ({ s with next := n }.put p m).next = n := by
    rw [Relabelling.put]
    split <;> rfl
  refine ⟨?_, ?_, ?_⟩
  · exact partition_put (s := { s with next := n }) h.partition g.grouped_equivalence he hp hm
      fun q id hi hq => (hid id hi).2 q hq
  · intro q id hq
    rw [hget] at hq
    rw [hnext]
    split at hq
    · exact (hid id hq).1
    · exact (h.fresh q id hq).trans_le hn
  · intro r hr q hq ht
    have hlt := place_neighbor_lt hq ht
    rw [hget, hget]
    rcases List.mem_append.1 hr with hr | hr
    · have hrp := place_lt_of_mem hs hr
      have hne : r ≠ p := fun h => by simp [h] at hrp
      have hqne : q ≠ p := fun h => by
        rw [h] at hlt
        omega
      rw [if_neg hne, if_neg hqne]
      exact h.linked r hr q hq ht
    · have hrp := List.mem_singleton.1 hr
      subst hrp
      have hqne : q ≠ r := fun h => by simp [h] at hlt
      rw [if_pos rfl, if_neg hqne]
      exact (hnb q hq ht).symm

theorem put_lone (h : FirstPass g done s) (he : g.Exact) (hs : g.positions = done ++ p :: rest)
    (hg : (g.get p).groups = false) :
    FirstPass g (done ++ [p]) (s.put p (g.get p).loneMark) := by
  refine h.put he hs ((suits_lone hg).2 rfl) (Nat.le_refl _) ?_ ?_
  · intro id hi
    exact absurd hi (loneMark_ne_group _ _)
  · intro q _ ht
    have h' := ht.2.2.2.1
    rw [hg] at h'
    cases h'

/-- The group of an equal neighbour that was visited before. -/
theorem groupOf?_touching (h : FirstPass g done s) (hs : g.positions = done ++ p :: rest)
    (hq : q = p.left ∨ q = p.up) (ht : g.Touching p q) :
    ∃ id, s.labels.groupOf? g (g.get p) q = some id := by
  have hd : q ∈ done := mem_of_place_lt hs ht.2.1 (place_neighbor_lt hq ht)
  have hg : (g.get q).groups = true := ht.2.2.2.2 ▸ ht.2.2.2.1
  obtain ⟨id, hid⟩ := h.partition.exists_group hd hg
  exact ⟨id, groupOf?_eq_some.2 ⟨ht.2.2.2.2, hid⟩⟩

theorem touching_of_groupOf? (h : FirstPass g done s) (hs : g.positions = done ++ p :: rest)
    (hg : (g.get p).groups = true) (hq : q = p.left ∨ q = p.up) {id : Nat}
    (hid : s.labels.groupOf? g (g.get p) q = some id) :
    g.Touching p q ∧ s.labels.get q = .group id := by
  obtain ⟨hc, hm⟩ := groupOf?_eq_some.1 hid
  have hd := h.partition.mem_of_group hm
  refine ⟨⟨by simp [hs], by simp [hs, hd], ?_, hg, hc⟩, hm⟩
  rcases hq with rfl | rfl <;> simp [Pos.neighbors]

/-- A cell joins the one group that all its equal neighbours are in. -/
theorem put_joined (h : FirstPass g done s) (he : g.Exact) (hs : g.positions = done ++ p :: rest)
    {u : Pos} {t : Nat} (ht : g.Touching p u) (hu : s.labels.get u = .group t)
    (hnb : ∀ q, q = p.left ∨ q = p.up → g.Touching p q → s.labels.get q = .group t) :
    FirstPass g (done ++ [p]) (s.put p (.group t)) := by
  refine h.put he hs ((suits_group ht.2.2.2.1).2 ⟨t, rfl⟩) (Nat.le_refl _) ?_ hnb
  intro id hi
  cases hi
  exact ⟨h.fresh _ _ hu, fun q hq =>
    g.grouped_equivalence.trans (.rel _ _ ht) (h.partition.sound _ _ _ hu hq)⟩

/-- A cell without equal neighbours opens a group. -/
theorem put_opened (h : FirstPass g done s) (he : g.Exact) (hs : g.positions = done ++ p :: rest)
    (hg : (g.get p).groups = true) (hnb : ∀ q, q = p.left ∨ q = p.up → ¬ g.Touching p q) :
    FirstPass g (done ++ [p]) ({ s with next := s.next + 1 }.put p (.group s.next)) := by
  refine h.put he hs ((suits_group hg).2 ⟨_, rfl⟩) (Nat.le_succ _) ?_ ?_
  · intro id hi
    cases hi
    exact ⟨Nat.lt_succ_self _, fun q hq => absurd (h.fresh q _ hq) (Nat.lt_irrefl _)⟩
  · exact fun q hq ht => absurd ht (hnb q hq)

/-- A cell with two equal neighbours unites their groups and joins. -/
theorem put_united (h : FirstPass g done s) (he : g.Exact) (hs : g.positions = done ++ p :: rest)
    {a b : Nat} (htl : g.Touching p p.left) (hl : s.labels.get p.left = .group a)
    (htu : g.Touching p p.up) (hu : s.labels.get p.up = .group b) :
    FirstPass g (done ++ [p]) ((s.absorb a (some b)).put p (.group a)) := by
  have hgrouped : g.Grouped p.up p.left :=
    g.grouped_equivalence.trans (.symm _ _ (.rel _ _ htu)) (.rel _ _ htl)
  have hl' : (s.absorb a (some b)).labels.get p.left = .group a := by
    rw [absorb_labels, get_union, hl]
    split <;> rfl
  have hu' : (s.absorb a (some b)).labels.get p.up = .group a := by
    rw [absorb_labels, get_union, hu, if_pos rfl]
  refine (h.absorb hu hl hgrouped).put_joined he hs htl hl' fun q hq ht => ?_
  obtain rfl | rfl := hq
  · exact hl'
  · exact hu'

theorem visitGroup (h : FirstPass g done s) (he : g.Exact) (hs : g.positions = done ++ p :: rest)
    (hg : (g.get p).groups = true) :
    FirstPass g (done ++ [p]) (Relabelling.visitGroup g s p (g.get p)) := by
  have hnd : p ∉ done := fun hd => Nat.lt_irrefl _ (place_lt_of_mem hs hd)
  have hown : (s.labels.get p).groupId? = none := by
    rw [h.partition.blank p hnd]
    rfl
  have hnone : ∀ q, q = p.left ∨ q = p.up → s.labels.groupOf? g (g.get p) q = none →
      ¬ g.Touching p q := fun q hq hn ht => by
    obtain ⟨id, hid⟩ := h.groupOf?_touching hs hq ht
    rw [hn] at hid
    cases hid
  rw [visitGroup_fresh hown]
  cases hl : s.labels.groupOf? g (g.get p) p.left with
  | none =>
    have hnl := hnone p.left (.inl rfl) hl
    cases hu : s.labels.groupOf? g (g.get p) p.up with
    | none =>
      refine h.put_opened he hs hg fun q hq => ?_
      obtain rfl | rfl := hq
      · exact hnl
      · exact hnone p.up (.inr rfl) hu
    | some b =>
      obtain ⟨htu, hbu⟩ := h.touching_of_groupOf? hs hg (.inr rfl) hu
      have hput : FirstPass g (done ++ [p]) (s.put p (.group b)) := by
        refine h.put_joined he hs htu hbu fun q hq ht => ?_
        obtain rfl | rfl := hq
        · exact absurd ht hnl
        · exact hbu
      have habs : s.absorb b (some b) = s := by rw [Relabelling.absorb, if_pos rfl]
      rw [← habs] at hput
      exact hput
  | some a =>
    obtain ⟨htl, hal⟩ := h.touching_of_groupOf? hs hg (.inl rfl) hl
    cases hu : s.labels.groupOf? g (g.get p) p.up with
    | none =>
      refine h.put_joined he hs htl hal fun q hq ht => ?_
      obtain rfl | rfl := hq
      · exact hal
      · exact absurd ht (hnone p.up (.inr rfl) hu)
    | some b =>
      obtain ⟨htu, hbu⟩ := h.touching_of_groupOf? hs hg (.inr rfl) hu
      exact h.put_united he hs htl hal htu hbu

theorem visit (h : FirstPass g done s) (he : g.Exact) (hs : g.positions = done ++ p :: rest) :
    FirstPass g (done ++ [p]) (Relabelling.visit g s p) := by
  cases hg : (g.get p).groups with
  | false => exact visit_lone hg ▸ h.put_lone he hs hg
  | true => exact visit_group hg ▸ h.visitGroup he hs hg

theorem foldl_visit (he : g.Exact) :
    ∀ (rest done : List Pos) (s : Relabelling), g.positions = done ++ rest → FirstPass g done s →
      FirstPass g g.positions (rest.foldl (Relabelling.visit g) s) := by
  intro rest
  induction rest with
  | nil =>
    intro done s hs h
    rw [List.append_nil] at hs
    exact hs ▸ h
  | cons p rest ih =>
    intro done s hs h
    exact ih (done ++ [p]) _ (by simpa using hs) (h.visit he hs)

end FirstPass

/-- A labelling in which touching cells agree already. -/
structure Settled (g : Grid) (l : Labels) : Prop where
  partition : Partition g g.Grouped g.positions l
  linked : ∀ p q, g.Touching p q → l.get p = l.get q

/-- Looking left and above from every cell sees every pair of touching cells. -/
theorem FirstPass.settled (h : FirstPass g g.positions s) : Settled g s.labels where
  partition := h.partition
  linked p q ht := by
    rcases Pos.neighbors_cases ht.1 ht.2.1 ht.2.2.1 with hq | hp
    · exact h.linked p ht.1 q hq ht
    · have hn : p ∈ q.neighbors := by
        rcases hp with hp | hp <;> simp [Pos.neighbors, hp]
      exact (h.linked q ht.2.1 p hp (ht.symm hn)).symm

namespace Settled

variable {l : Labels}

theorem groupOf?_cases (h : Settled g l) (hp : p ∈ g.positions) (hq : q ∈ p.neighbors) {id : Nat}
    (hid : l.get p = .group id) :
    l.groupOf? g (g.get p) q = none ∨ l.groupOf? g (g.get p) q = some id := by
  cases hg : l.groupOf? g (g.get p) q with
  | none => exact .inl rfl
  | some a =>
    obtain ⟨hc, ha⟩ := groupOf?_eq_some.1 hg
    have ht : g.Touching p q :=
      ⟨hp, h.partition.mem_of_group ha, hq, h.partition.groups_of_group hid, hc⟩
    have he := h.linked p q ht
    rw [hid, ha] at he
    cases he
    exact .inr rfl

theorem absorb_self (id : Nat) {o : Option Nat} (ho : o = none ∨ o = some id) :
    s.absorb id o = s := by
  rcases ho with rfl | rfl
  · rfl
  · rw [absorb, if_pos rfl]

theorem visit (h : Settled g s.labels) (hp : p ∈ g.positions) : Relabelling.visit g s p = s := by
  have hs := h.partition.suits p hp
  cases hg : (g.get p).groups with
  | false => rw [visit_lone hg, put_of_eq ((suits_lone hg).1 hs)]
  | true =>
    obtain ⟨id, hid⟩ := (suits_group hg).1 hs
    have hl := h.groupOf?_cases hp (q := p.left) (by simp [Pos.neighbors]) hid
    have hu := h.groupOf?_cases hp (q := p.up) (by simp [Pos.neighbors]) hid
    have hown : (s.labels.get p).groupId? = some id := by
      rw [hid]
      rfl
    have htarget : ((s.labels.groupOf? g (g.get p) p.left).or
        (s.labels.groupOf? g (g.get p) p.up)).or (some id) = some id := by
      rcases hl with hl | hl <;> rcases hu with hu | hu <;> rw [hl, hu] <;> rfl
    rw [visit_group hg]
    unfold Relabelling.visitGroup
    simp only [hown, htarget]
    rw [absorb_self id hu, absorb_self id (.inr rfl), put_of_eq hid]

theorem pass (h : Settled g s.labels) : Relabelling.pass g s = { s with changed := false } := by
  rw [Relabelling.pass]
  have hfold : ∀ ps : List Pos, (∀ p ∈ ps, p ∈ g.positions) → ∀ t : Relabelling,
      t.labels = s.labels → ps.foldl (Relabelling.visit g) t = t := by
    intro ps
    induction ps with
    | nil => exact fun _ _ _ => rfl
    | cons p ps ih =>
      intro hps t ht
      rw [List.foldl_cons, visit (ht ▸ h) (hps p (by simp))]
      exact ih (fun q hq => hps q (by simp [hq])) t ht
  exact hfold _ (fun _ => id) _ rfl

end Settled

/-- The plane before the first pass. -/
def start (g : Grid) : Relabelling := ⟨Plane.fill g.width g.height .empty, 0, false⟩

theorem FirstPass.start (g : Grid) : FirstPass g [] (start g) where
  partition :=
    { width_eq := rfl
      height_eq := rfl
      confined := Plane.confined_fill _ _
      suits := by simp
      blank := fun p _ => Plane.get_fill _ _ p
      sound := fun p q id hp => by
        have h := (Plane.get_fill g.width g.height p).symm.trans hp
        cases h }
  fresh p id hp := by
    have h := (Plane.get_fill g.width g.height p).symm.trans hp
    cases h
  linked := by simp

/-- The first pass goes through all cells. -/
theorem firstPass_pass (he : g.Exact) : FirstPass g g.positions (pass g (Relabelling.start g)) :=
  FirstPass.foldl_visit he g.positions [] _ rfl (FirstPass.start g)

theorem positions_eq_nil {g : Grid} (h : g.size = 0) (he : g.Exact) : g.positions = [] := by
  rw [Plane.size_eq he] at h
  refine List.eq_nil_iff_forall_not_mem.2 fun p hp => ?_
  obtain ⟨hx0, hx, hy0, hy⟩ := Plane.mem_positions.1 hp
  have hc := g.columns_le
  have hr := g.rows_le
  rcases Nat.mul_eq_zero.1 h with h | h <;> omega

/-- The second pass is the last one. -/
theorem settle_two (he : g.Exact) :
    settle g 2 (Relabelling.start g) = some (pass g (Relabelling.start g)).labels := by
  have hlast := (firstPass_pass he).settled.pass
  rw [settle]
  by_cases hc : (pass g (Relabelling.start g)).changed = true
  · rw [if_pos hc, settle, hlast]
    rfl
  · exact if_neg hc

/-- More passes than it takes may be allowed. -/
theorem settle_mono {l : Labels} {m n : Nat} (hmn : m ≤ n) (h : settle g m s = some l) :
    settle g n s = some l := by
  induction m generalizing n s with
  | zero => cases h
  | succ m ih =>
    obtain ⟨n, rfl⟩ := Nat.exists_eq_succ_of_ne_zero (Nat.ne_of_gt (Nat.lt_of_lt_of_le m.succ_pos hmn))
    rw [settle] at h ⊢
    split at h
    case isTrue hc =>
      rw [if_pos hc]
      exact ih (Nat.le_of_succ_le_succ hmn) h
    case isFalse hc => rwa [if_neg hc]

/-- As many passes as are allowed are enough. -/
theorem settle_start (he : g.Exact) :
    settle g (g.size + 1) (Relabelling.start g) = some (pass g (Relabelling.start g)).labels := by
  cases hn : g.size with
  | succ n => exact settle_mono (by omega) (settle_two he)
  | zero =>
    have hpass : pass g (Relabelling.start g) = Relabelling.start g := by
      show g.positions.foldl (Relabelling.visit g) _ = _
      rw [positions_eq_nil hn he]
      rfl
    rw [settle, hpass]
    rfl

end Relabelling

/-- There are fewer cells than labels, which are numbers of 32 bits. -/
def Grid.Labellable (g : Grid) : Prop := g.width * g.height < 2147483647

instance (g : Grid) : Decidable g.Labellable := inferInstanceAs (Decidable (_ < _))

theorem Grid.Labellable.exact {g : Grid} (h : g.Labellable) : g.Exact :=
  Nat.lt_trans h (by decide)

namespace Labels

open Relabelling

/-- Labelling succeeds with the marks of the first pass. -/
theorem ofGrid_eq {g : Grid} (he : g.Exact) : ofGrid g = .ok (pass g (start g)).labels := by
  have hsettle := settle_start he
  rw [start] at hsettle
  rw [ofGrid]
  simp only [hsettle]
  rfl

/-- Labelling succeeds, and its marks agree on touching cells. -/
theorem ofGrid_settled {g : Grid} (he : g.Exact) : ∃ l, ofGrid g = .ok l ∧ Settled g l :=
  ⟨_, ofGrid_eq he, (firstPass_pass he).settled⟩

end Labels

end GridCircuit
