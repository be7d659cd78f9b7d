import GridCircuit.Proofs.Fields
import Mathlib.Data.List.NodupEquivFin

/-!
# Drawings inside drawings

A drawing lies in another one when its live cells, those that a circuit covers, are found there in the
same order and next to each other, with nothing live beside them. Codes of custom parts may be
renumbered, as long as each is still made into the same. Classes then lie in the larger drawing as
they are, and so do the lists of classes and junctions from which a circuit is put together.
-/

namespace GridCircuit

/-- Codes become other codes that are made into the same, and no two become one. -/
structure Recodes (ρ : Code → Code) (make make' : Code → Making) : Prop where
  fixed : ∀ c, c.isCustom = false → ρ c = c
  custom : ∀ c, c.isCustom = true → (make c).isOk = true → (ρ c).isCustom = true
  injective : ∀ c d, (make c).isOk = true → (make d).isOk = true → ρ c = ρ d → c = d
  make_eq : ∀ c, (make c).isOk = true → make' (ρ c) = make c

namespace Grid

/-- A circuit covers the cell: it is a junction, or in a class that can be made. -/
def Live (g : Grid) (make : Code → Making) (p : Pos) : Prop :=
  p ∈ g.positions ∧ ((g.get p).isConnector = true ∨ g.get p = .cross ∨ (make (g.get p)).isOk = true)

/-- The live cells of a drawing lie in another one. -/
structure Embeds (τ : Pos → Pos) (ρ : Code → Code) (s : Grid) (make : Code → Making) (g : Grid)
    (make' : Code → Making) : Prop where
  recodes : Recodes ρ make make'
  get_eq : ∀ p, s.Live make p → g.get (τ p) = ρ (s.get p)
  mem : ∀ p, s.Live make p → τ p ∈ g.positions
  injective : ∀ p q, s.Live make p → s.Live make q → τ p = τ q → p = q
  order : ∀ p q, s.Live make p → s.Live make q → s.place p < s.place q →
    g.place (τ p) < g.place (τ q)
  neighbors : ∀ p, s.Live make p → p.neighbors.map τ = (τ p).neighbors
  /-- What lies beside a live cell is live in both drawings or in none. -/
  beside : ∀ p, s.Live make p → ∀ q ∈ p.neighbors, g.Live make' (τ q) → s.Live make q

section Order

variable {α : Type} {R : α → α → Prop}

/-- A sorted list whose elements are in another sorted list is a part of it. -/
theorem sublist_of_pairwise (hirrefl : ∀ a, ¬ R a a) (hasymm : ∀ a b, R a b → ¬ R b a) {xs ys : List α}
    (hx : xs.Pairwise R) (hy : ys.Pairwise R) (hsub : ∀ a ∈ xs, a ∈ ys) : xs.Sublist ys := by
  have hanti : Std.Antisymm R := ⟨fun a b hab hba => absurd hba (hasymm a b hab)⟩
  have hnodup : xs.Nodup := by
    refine hx.imp ?_
    intro a b hab he
    exact hirrefl b (he ▸ hab)
  exact List.sublist_of_subperm_of_pairwise (List.subperm_of_subset hnodup hsub) hx hy

theorem eq_of_pairwise (hirrefl : ∀ a, ¬ R a a) (hasymm : ∀ a b, R a b → ¬ R b a) {xs ys : List α}
    (hx : xs.Pairwise R) (hy : ys.Pairwise R) (h : ∀ a, a ∈ xs ↔ a ∈ ys) : xs = ys :=
  (sublist_of_pairwise hirrefl hasymm hx hy fun a => (h a).1).antisymm
    (sublist_of_pairwise hirrefl hasymm hy hx fun a => (h a).2)

end Order

namespace Embeds

variable {τ : Pos → Pos} {ρ : Code → Code} {s g : Grid} {make make' : Code → Making} {p q : Pos}
  {P Q : Pos}

section Codes

variable (h : Embeds τ ρ s make g make')

include h

/-- A fixed code is seen in the one drawing where it is seen in the other. -/
theorem get_eq_iff (hp : s.Live make p) {c : Code} (hc : c.isCustom = false) :
    g.get (τ p) = c ↔ s.get p = c := by
  rw [h.get_eq p hp]
  constructor
  · intro he
    cases hcustom : (s.get p).isCustom with
    | false => exact (h.recodes.fixed _ hcustom).symm.trans he
    | true =>
      have hok : (make (s.get p)).isOk = true := by
        obtain ⟨-, hc | hc | hok⟩ := hp
        · cases hg : s.get p <;> rw [hg] at hc hcustom <;> first | cases hc; done | cases hcustom
        · rw [hc] at hcustom
          cases hcustom
        · exact hok
      have hcustom' := h.recodes.custom _ hcustom hok
      rw [he, hc] at hcustom'
      cases hcustom'
  · intro he
    rw [he, h.recodes.fixed c hc]

theorem isConnector_eq (hp : s.Live make p) : (g.get (τ p)).isConnector = (s.get p).isConnector := by
  have hiff : ∀ c : Code, c.isConnector = true ↔ c = .input ∨ c = .output ∨ c = .clockInput := by
    intro c
    cases c <;> simp [Code.isConnector]
  rw [Bool.eq_iff_iff, hiff, hiff, h.get_eq_iff hp rfl, h.get_eq_iff hp rfl, h.get_eq_iff hp rfl]

theorem isWire_eq (hp : s.Live make p) : (g.get (τ p)).isWire = (s.get p).isWire := by
  rw [Code.isWire, Code.isWire, decide_eq_decide, h.get_eq_iff hp rfl]

theorem groups_eq (hp : s.Live make p) : (g.get (τ p)).groups = (s.get p).groups := by
  have hempty : (g.get (τ p)).isEmpty = (s.get p).isEmpty := by
    rw [Code.isEmpty, Code.isEmpty, decide_eq_decide, h.get_eq_iff hp rfl]
  have hcross : (g.get (τ p)).isCross = (s.get p).isCross := by
    rw [Code.isCross, Code.isCross, decide_eq_decide, h.get_eq_iff hp rfl]
  rw [Code.groups, Code.groups, hempty, hcross, h.isConnector_eq hp]

theorem junctionKind_eq (hp : s.Live make p) : g.junctionKind (τ p) = s.junctionKind p := by
  have hc := fun c hc => h.get_eq_iff hp (c := c) hc
  have hof : ConnectionKind.ofCode? (g.get (τ p)) = ConnectionKind.ofCode? (s.get p) := by
    have hnone : ∀ c : Code, c ≠ .input → c ≠ .output → c ≠ .clockInput → c ≠ .cross →
        ConnectionKind.ofCode? c = none := by
      intro c h₁ h₂ h₃ h₄
      cases c <;> first | rfl | contradiction
    by_cases h₁ : s.get p = .input
    · rw [(hc _ rfl).2 h₁, h₁]
    by_cases h₂ : s.get p = .output
    · rw [(hc _ rfl).2 h₂, h₂]
    by_cases h₃ : s.get p = .clockInput
    · rw [(hc _ rfl).2 h₃, h₃]
    by_cases h₄ : s.get p = .cross
    · rw [(hc _ rfl).2 h₄, h₄]
    rw [hnone _ h₁ h₂ h₃ h₄, hnone _ (fun he => h₁ ((hc _ rfl).1 he)) (fun he => h₂ ((hc _ rfl).1 he))
      (fun he => h₃ ((hc _ rfl).1 he)) fun he => h₄ ((hc _ rfl).1 he)]
  rw [junctionKind, junctionKind, hof]

end Codes

theorem isOk_of_groups (hp : s.Live make p) (hg : (s.get p).groups = true) :
    (make (s.get p)).isOk = true := by
  obtain ⟨-, hc | hc | hok⟩ := hp
  · simp [Code.groups, hc] at hg
  · rw [hc] at hg
    cases hg
  · exact hok

section Classes

variable (h : Embeds τ ρ s make g make')

include h

theorem make_eq (hp : s.Live make p) (hg : (s.get p).groups = true) :
    make' (g.get (τ p)) = make (s.get p) := by
  rw [h.get_eq p hp, h.recodes.make_eq _ (isOk_of_groups hp hg)]

theorem live (hp : s.Live make p) : g.Live make' (τ p) := by
  refine ⟨h.mem p hp, ?_⟩
  rw [h.isConnector_eq hp, h.get_eq_iff hp rfl, h.get_eq p hp]
  refine hp.2.imp_right fun hc => hc.imp_right fun hok => ?_
  rw [h.recodes.make_eq _ hok]
  exact hok

/-- What is live beside a cell that lies in the larger drawing lies there too. -/
theorem exists_neighbor (hp : s.Live make p) (hQ : Q ∈ (τ p).neighbors) (hl : g.Live make' Q) :
    ∃ q ∈ p.neighbors, τ q = Q ∧ s.Live make q := by
  rw [← h.neighbors p hp, List.mem_map] at hQ
  obtain ⟨q, hq, rfl⟩ := hQ
  exact ⟨q, hq, rfl, h.beside p hp q hq hl⟩

theorem live_of_touching (hp : s.Live make p) (hg : (s.get p).groups = true)
    (hQ : Q ∈ g.positions) (he : g.get Q = g.get (τ p)) : g.Live make' Q := by
  refine ⟨hQ, .inr (.inr ?_)⟩
  rw [he, h.make_eq hp hg]
  exact isOk_of_groups hp hg

/-- Neighbours of one code lie in the larger drawing where one of them does. -/
theorem exists_touching (hp : s.Live make p) (hQ : Q ∈ g.positions) (hn : Q ∈ (τ p).neighbors)
    (hg : (g.get (τ p)).groups = true) (he : g.get Q = g.get (τ p)) :
    ∃ q, τ q = Q ∧ s.Live make q ∧ q ∈ p.neighbors ∧ (s.get p).groups = true ∧
      s.get q = s.get p := by
  rw [h.groups_eq hp] at hg
  obtain ⟨q, hq, rfl, hlq⟩ := h.exists_neighbor hp hn (h.live_of_touching hp hg hQ he)
  have hgq : (s.get q).groups = true := by rw [← h.groups_eq hlq, he, h.groups_eq hp, hg]
  rw [h.get_eq q hlq, h.get_eq p hp] at he
  exact ⟨q, rfl, hlq, hq, hg, h.recodes.injective _ _ (isOk_of_groups hlq hgq) (isOk_of_groups hp hg) he⟩

/-- A cell of the larger drawing on a given side of one that lies there. -/
theorem eq_of_beside {x : Pos} (hx : s.Live make x) (hp : s.Live make p) (hq : q ∈ x.neighbors)
    (he : τ p = τ q) : p = q :=
  h.injective p q hp (h.beside x hx q hq (he ▸ h.live hp)) he

theorem exists_cross (hp : s.Live make p) {X : Pos} (hX : X ∈ g.positions) (hc : g.get X = .cross)
    (hn : τ p ∈ X.neighbors) : ∃ x, τ x = X ∧ s.Live make x ∧ s.get x = .cross := by
  obtain ⟨x, -, rfl, hx⟩ := h.exists_neighbor hp (Pos.neighbors_symm hX (h.mem p hp) hn)
    ⟨hX, .inr (.inl hc)⟩
  exact ⟨x, rfl, hx, (h.get_eq_iff hx rfl).1 hc⟩

theorem neighbors_eq (hp : s.Live make p) : (τ p).up = τ p.up ∧ (τ p).left = τ p.left ∧
    (τ p).down = τ p.down ∧ (τ p).right = τ p.right := by
  have hn := h.neighbors p hp
  simp only [Pos.neighbors, List.map_cons, List.map_nil, List.cons.injEq, and_true] at hn
  exact ⟨hn.1.symm, hn.2.1.symm, hn.2.2.1.symm, hn.2.2.2.symm⟩

/-- A wire across a cross from one that lies in the larger drawing lies there too. The two sides of the
cross are given as functions. -/
theorem exists_across {a b : Pos → Pos} (hab : ∀ x, a x ∈ x.neighbors ∧ b x ∈ x.neighbors)
    (hτ : ∀ x, s.Live make x → a (τ x) = τ (a x) ∧ b (τ x) = τ (b x)) (hp : s.Live make p)
    (hw : g.get (τ p) = .wire) {X : Pos} (hX : X ∈ g.positions) (hc : g.get X = .cross)
    (hpX : τ p = a X) (hQ : b X ∈ g.positions) (hwQ : g.get (b X) = .wire) :
    ∃ x ∈ s.positions, s.get x = .cross ∧ p = a x ∧ s.get p = .wire ∧ τ (b x) = b X ∧
      s.Live make (b x) ∧ s.get (b x) = .wire := by
  obtain ⟨x, rfl, hx, hcx⟩ := h.exists_cross hp hX hc (hpX ▸ (hab X).1)
  rw [(hτ x hx).1] at hpX
  rw [(hτ x hx).2] at hQ hwQ ⊢
  have hwp := (h.get_eq_iff hp rfl).1 hw
  have hlive : s.Live make (b x) := h.beside x hx _ (hab x).2
    (h.live_of_touching hp (by rw [hwp]; rfl) hQ (hwQ.trans hw.symm))
  exact ⟨x, hx.1, hcx, h.eq_of_beside hx hp (hab x).1 hpX, hwp, rfl, hlive,
    (h.get_eq_iff hlive rfl).1 hwQ⟩

/-- Wires that face each other in the larger drawing, one of which lies there. -/
theorem exists_facing (hp : s.Live make p) (hf : g.Facing (τ p) Q ∨ g.Facing Q (τ p)) :
    ∃ q, τ q = Q ∧ s.Live make q ∧ s.Connected p q := by
  have hup : ∀ x : Pos, x.up ∈ x.neighbors := fun x => by simp [Pos.neighbors]
  have hleft : ∀ x : Pos, x.left ∈ x.neighbors := fun x => by simp [Pos.neighbors]
  have hdown : ∀ x : Pos, x.down ∈ x.neighbors := fun x => by simp [Pos.neighbors]
  have hright : ∀ x : Pos, x.right ∈ x.neighbors := fun x => by simp [Pos.neighbors]
  have hτ := fun x hx => h.neighbors_eq (p := x) hx
  obtain ⟨-, hQ, hw, hwQ, X, hX, hc, ⟨hpX, rfl⟩ | ⟨hpX, rfl⟩⟩ |
    ⟨hQ, -, hwQ, hw, X, hX, hc, ⟨rfl, hpX⟩ | ⟨rfl, hpX⟩⟩ := hf
  · obtain ⟨x, hx, hcx, rfl, hwp, hq, hlq, hwq⟩ := h.exists_across (fun x => ⟨hleft x, hright x⟩)
      (fun x hx => ⟨(hτ x hx).2.1, (hτ x hx).2.2.2⟩) hp hw hX hc hpX hQ hwQ
    exact ⟨x.right, hq, hlq, .rel _ _ (.inr ⟨hp.1, hlq.1, hwp, hwq, x, hx, hcx, .inl ⟨rfl, rfl⟩⟩)⟩
  · obtain ⟨x, hx, hcx, rfl, hwp, hq, hlq, hwq⟩ := h.exists_across (fun x => ⟨hup x, hdown x⟩)
      (fun x hx => ⟨(hτ x hx).1, (hτ x hx).2.2.1⟩) hp hw hX hc hpX hQ hwQ
    exact ⟨x.down, hq, hlq, .rel _ _ (.inr ⟨hp.1, hlq.1, hwp, hwq, x, hx, hcx, .inr ⟨rfl, rfl⟩⟩)⟩
  · obtain ⟨x, hx, hcx, rfl, hwp, hq, hlq, hwq⟩ := h.exists_across (fun x => ⟨hright x, hleft x⟩)
      (fun x hx => ⟨(hτ x hx).2.2.2, (hτ x hx).2.1⟩) hp hw hX hc hpX hQ hwQ
    exact ⟨x.left, hq, hlq,
      .symm _ _ (.rel _ _ (.inr ⟨hlq.1, hp.1, hwq, hwp, x, hx, hcx, .inl ⟨rfl, rfl⟩⟩))⟩
  · obtain ⟨x, hx, hcx, rfl, hwp, hq, hlq, hwq⟩ := h.exists_across (fun x => ⟨hdown x, hup x⟩)
      (fun x hx => ⟨(hτ x hx).2.2.1, (hτ x hx).1⟩) hp hw hX hc hpX hQ hwQ
    exact ⟨x.up, hq, hlq,
      .symm _ _ (.rel _ _ (.inr ⟨hlq.1, hp.1, hwq, hwp, x, hx, hcx, .inr ⟨rfl, rfl⟩⟩))⟩

/-- What is linked in the larger drawing to a cell that lies there lies there too. -/
theorem exists_linked (hp : s.Live make p)
    (hl : (g.Touching (τ p) Q ∨ g.Facing (τ p) Q) ∨ g.Touching Q (τ p) ∨ g.Facing Q (τ p)) :
    ∃ q, τ q = Q ∧ s.Live make q ∧ s.Connected p q := by
  obtain (ht | hf) | ht | hf := hl
  · obtain ⟨-, hQ, hn, hg, he⟩ := ht
    obtain ⟨q, rfl, hq, hn', hg', he'⟩ := h.exists_touching hp hQ hn hg he
    exact ⟨q, rfl, hq, .rel _ _ (.inl ⟨hp.1, hq.1, hn', hg', he'⟩)⟩
  · exact h.exists_facing hp (.inl hf)
  · obtain ⟨hQ, -, hn, hg, he⟩ := ht
    obtain ⟨q, rfl, hq, hn', hg', he'⟩ := h.exists_touching hp hQ (Pos.neighbors_symm hQ (h.mem p hp) hn)
      (he ▸ hg) he.symm
    have hsymm : s.Touching q p := ⟨hq.1, hp.1, Pos.neighbors_symm hp.1 hq.1 hn', he' ▸ hg', he'.symm⟩
    exact ⟨q, rfl, hq, .symm _ _ (.rel _ _ (.inl hsymm))⟩
  · exact h.exists_facing hp (.inr hf)

/-- So is everything connected to it. -/
theorem exists_connected {A B : Pos} (hc : g.Connected A B) :
    (∀ p, s.Live make p → τ p = A → ∃ q, τ q = B ∧ s.Live make q ∧ s.Connected p q) ∧
      ∀ q, s.Live make q → τ q = B → ∃ p, τ p = A ∧ s.Live make p ∧ s.Connected q p := by
  induction hc with
  | rel A B hl =>
    constructor
    · rintro p hp rfl
      exact h.exists_linked hp (.inl hl)
    · rintro q hq rfl
      exact h.exists_linked hq (.inr hl)
  | refl A => exact ⟨fun p hp he => ⟨p, he, hp, .refl p⟩, fun q hq he => ⟨q, he, hq, .refl q⟩⟩
  | symm A B _ ih => exact ⟨ih.2, ih.1⟩
  | trans A B C _ _ ih₁ ih₂ =>
    constructor
    · intro p hp he
      obtain ⟨q, hq, hlq, hpq⟩ := ih₁.1 p hp he
      obtain ⟨r, hr, hlr, hqr⟩ := ih₂.1 q hlq hq
      exact ⟨r, hr, hlr, s.connected_equivalence.trans hpq hqr⟩
    · intro r hr he
      obtain ⟨q, hq, hlq, hrq⟩ := ih₂.2 r hr he
      obtain ⟨p, hp, hlp, hqp⟩ := ih₁.2 q hlq hq
      exact ⟨p, hp, hlp, s.connected_equivalence.trans hrq hqp⟩

theorem linked (hp : s.Live make p) (hq : s.Live make q) (hl : s.Touching p q ∨ s.Facing p q) :
    g.Touching (τ p) (τ q) ∨ g.Facing (τ p) (τ q) := by
  obtain ⟨-, -, hn, hg, he⟩ | ⟨-, -, hwp, hwq, x, hx, hc, ho⟩ := hl
  · refine .inl ⟨h.mem p hp, h.mem q hq, ?_, (h.groups_eq hp).trans hg, ?_⟩
    · rw [← h.neighbors p hp]
      exact List.mem_map_of_mem hn
    · rw [h.get_eq q hq, h.get_eq p hp, he]
  · have hlx : s.Live make x := ⟨hx, .inr (.inl hc)⟩
    obtain ⟨hu, hl, hd, hr⟩ := h.neighbors_eq hlx
    refine .inr ⟨h.mem p hp, h.mem q hq, (h.get_eq_iff hp rfl).2 hwp, (h.get_eq_iff hq rfl).2 hwq, τ x,
      h.mem x hlx, (h.get_eq_iff hlx rfl).2 hc, ?_⟩
    obtain ⟨rfl, rfl⟩ | ⟨rfl, rfl⟩ := ho
    · exact .inl ⟨hl.symm, hr.symm⟩
    · exact .inr ⟨hu.symm, hd.symm⟩

omit h in
theorem live_of_connected (hp : s.Live make p) (hc : s.Connected p q) : s.Live make q := by
  obtain rfl | ⟨-, hq, hg, he⟩ := hc.eq_or
  · exact hp
  · exact ⟨hq, .inr (.inr (he ▸ isOk_of_groups hp hg))⟩

theorem connected (hp : s.Live make p) (hc : s.Connected p q) : g.Connected (τ p) (τ q) := by
  induction hc with
  | rel a b hl => exact .rel _ _ (h.linked hp (live_of_connected hp (.rel _ _ hl)) hl)
  | refl a => exact .refl _
  | symm a b hab ih => exact .symm _ _ (ih (live_of_connected hp (.symm _ _ hab)))
  | trans a b c hab _ ih₁ ih₂ => exact .trans _ _ _ (ih₁ hp) (ih₂ (live_of_connected hp hab))

/-- Cells of the larger drawing are listed in the order that they have in the smaller one. -/
theorem pairwise_map {xs : List Pos} (hx : xs.Pairwise fun p q => s.place p < s.place q)
    (hl : ∀ p ∈ xs, s.Live make p) : (xs.map τ).Pairwise fun p q => g.place p < g.place q := by
  rw [List.pairwise_map]
  exact hx.imp_of_mem fun hp hq hpq => h.order _ _ (hl _ hp) (hl _ hq) hpq

/-- The class of a cell lies in the larger drawing as the class of the cell there. -/
theorem classOf_eq (hp : s.Live make p) : g.classOf (τ p) = (s.classOf p).map τ := by
  have hlive : ∀ q ∈ s.classOf p, s.Live make q :=
    fun q hq => live_of_connected hp (mem_classOf.1 hq).2
  refine eq_of_pairwise (R := fun p q => g.place p < g.place q) (fun _ => Nat.lt_irrefl _)
    (fun _ _ => Nat.lt_asymm) (g.positions_pairwise.filter _)
    (h.pairwise_map (s.positions_pairwise.filter _) hlive) fun Q => ?_
  rw [List.mem_map, mem_classOf]
  constructor
  · intro hQ
    obtain ⟨q, hq, hlq, hpq⟩ := (h.exists_connected hQ.2).1 p hp rfl
    exact ⟨q, mem_classOf.2 ⟨hlq.1, hpq⟩, hq⟩
  · intro hQ
    obtain ⟨q, hq, rfl⟩ := hQ
    exact ⟨h.mem q (hlive q hq), h.connected hp (mem_classOf.1 hq).2⟩

theorem root_eq (hp : s.Live make p) : g.root (τ p) = τ (s.root p) := by
  have hne := List.ne_nil_of_mem (self_mem_classOf hp.1)
  rw [root, root, h.classOf_eq hp, List.headD_eq_head?_getD, List.headD_eq_head?_getD, List.head?_map,
    List.head?_eq_some_head hne]
  rfl

omit h in
theorem live_root (hp : s.Live make p) : s.Live make (s.root p) :=
  live_of_connected hp (connected_root hp.1)

omit h in
theorem live_of_builtHead {make : Code → Making} (hp : p ∈ s.builtHeads make) : s.Live make p :=
  ⟨(mem_heads.1 (mem_builtHeads.1 hp).1).1, .inr (.inr (mem_builtHeads.1 hp).2)⟩

theorem mem_builtHeads_iff (hp : s.Live make p) :
    τ p ∈ g.builtHeads make' ↔ p ∈ s.builtHeads make := by
  rw [mem_builtHeads, mem_builtHeads, mem_heads, mem_heads, h.groups_eq hp, h.root_eq hp]
  have hroot : τ (s.root p) = τ p ↔ s.root p = p :=
    ⟨h.injective _ _ (live_root hp) hp, congrArg τ⟩
  rw [hroot]
  constructor
  · intro hp'
    exact ⟨⟨hp.1, hp'.1.2.1, hp'.1.2.2⟩, isOk_of_groups hp hp'.1.2.1⟩
  · intro hp'
    refine ⟨⟨h.mem p hp, hp'.1.2.1, hp'.1.2.2⟩, ?_⟩
    rw [h.make_eq hp hp'.1.2.1]
    exact hp'.2

/-- The classes that are made are classes of the larger drawing, in the same order. -/
theorem builtHeads_sublist : ((s.builtHeads make).map τ).Sublist (g.builtHeads make') := by
  refine sublist_of_pairwise (R := fun p q => g.place p < g.place q) (fun _ => Nat.lt_irrefl _)
    (fun _ _ => Nat.lt_asymm) (h.pairwise_map ((s.positions_pairwise.filter _).filter _)
      fun p hp => live_of_builtHead hp) ((g.positions_pairwise.filter _).filter _) fun Q hQ => ?_
  obtain ⟨p, hp, rfl⟩ := List.mem_map.1 hQ
  exact (h.mem_builtHeads_iff (live_of_builtHead hp)).2 hp

omit h in
theorem live_of_junction {make : Code → Making} (hp : p ∈ s.junctions) : s.Live make p := by
  obtain ⟨hpos, hc | hc⟩ := mem_junctions.1 hp
  · exact ⟨hpos, .inr (.inl hc)⟩
  · exact ⟨hpos, .inl hc⟩

theorem mem_junctions_iff (hp : s.Live make p) : τ p ∈ g.junctions ↔ p ∈ s.junctions := by
  rw [mem_junctions, mem_junctions, h.isConnector_eq hp, h.get_eq_iff hp rfl,
    and_iff_right (h.mem p hp), and_iff_right hp.1]

/-- So are the junctions: the crosses in their order, then the connectors in theirs. -/
theorem junctions_sublist : (s.junctions.map τ).Sublist g.junctions := by
  have hpart : ∀ (A : Pos → Bool) (B : Pos → Bool),
      (∀ p ∈ s.positions, A p = true → s.Live make p ∧ B (τ p) = true) →
      ((s.positions.filter A).map τ).Sublist (g.positions.filter B) := by
    intro A B hAB
    have hlive : ∀ p ∈ s.positions.filter A, s.Live make p ∧ B (τ p) = true :=
      fun p hp => hAB p (List.mem_filter.1 hp).1 (List.mem_filter.1 hp).2
    refine sublist_of_pairwise (R := fun p q => g.place p < g.place q) (fun _ => Nat.lt_irrefl _)
      (fun _ _ => Nat.lt_asymm) (h.pairwise_map (s.positions_pairwise.filter _)
        fun p hp => (hlive p hp).1) (g.positions_pairwise.filter _) fun Q hQ => ?_
    obtain ⟨p, hp, rfl⟩ := List.mem_map.1 hQ
    exact List.mem_filter.2 ⟨h.mem p (hlive p hp).1, (hlive p hp).2⟩
  rw [junctions, junctions, List.map_append]
  refine List.Sublist.append (hpart _ _ fun p hp hc => ?_) (hpart _ _ fun p hp hc => ?_)
  · have hc : s.get p = .cross := of_decide_eq_true hc
    have hl : s.Live make p := ⟨hp, .inr (.inl hc)⟩
    exact ⟨hl, decide_eq_true ((h.get_eq_iff hl rfl).2 hc)⟩
  · have hl : s.Live make p := ⟨hp, .inl hc⟩
    exact ⟨hl, (h.isConnector_eq hl).trans hc⟩

end Classes

end Embeds

end Grid

end GridCircuit
