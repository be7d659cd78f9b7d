import GridCircuit.Proofs.Classes

/-!
# Crosses join wires and nothing else

After some of the crosses have been gone through, two wire cells carry one mark exactly if steps lead
from one to the other, each to a neighbouring wire cell or straight across one of these crosses. The
marks of all other cells are what they were. A cross is no step from one of its axes to the other, so
wires that meet it on different axes carry one mark only if they are joined elsewhere.

The relation grows with the crosses gone through, and the unions of one cross are what it grows by.
-/

namespace GridCircuit

open Labels (Opposite)

namespace Grid

/-- The cross cells, in row-major order. -/
def crosses (g : Grid) : List Pos := g.positions.filter fun p => g.get p = .cross

/-- Two wire cells that are neighbours or lie on opposite sides of one of some crosses. -/
structure WireStep (g : Grid) (xs : List Pos) (p q : Pos) : Prop where
  left_mem : p ∈ g.positions
  right_mem : q ∈ g.positions
  left_wire : g.get p = .wire
  right_wire : g.get q = .wire
  near : q ∈ p.neighbors ∨ ∃ x ∈ xs, Opposite x p q

/-- The equivalence that the steps between wire cells generate. -/
def WiredAcross (g : Grid) (xs : List Pos) : Pos → Pos → Prop := Relation.EqvGen (g.WireStep xs)

/-- The equivalence that the steps between wire cells generate together with touching cells. -/
def Linked (g : Grid) (xs : List Pos) : Pos → Pos → Prop :=
  Relation.EqvGen fun p q => g.Touching p q ∨ g.WireStep xs p q

variable {g : Grid} {xs : List Pos} {x p q : Pos}

theorem mem_crosses : p ∈ g.crosses ↔ p ∈ g.positions ∧ g.get p = .cross := by simp [crosses]

theorem wiredAcross_equivalence (g : Grid) (xs : List Pos) : Equivalence (g.WiredAcross xs) :=
  Relation.EqvGen.is_equivalence _

theorem linked_equivalence (g : Grid) (xs : List Pos) : Equivalence (g.Linked xs) :=
  Relation.EqvGen.is_equivalence _

theorem Linked.get_eq (h : g.Linked xs p q) : g.get q = g.get p := by
  refine (eq_of_eqvGen (fun a b hab => ?_) h).symm
  rcases hab with ht | hs
  · exact ht.2.2.2.2.symm
  · rw [hs.left_wire, hs.right_wire]

theorem Grouped.linked (h : g.Grouped p q) (xs : List Pos) : g.Linked xs p q :=
  Relation.EqvGen.mono (fun _ _ ht => .inl ht) p q h

theorem Linked.append (h : g.Linked xs p q) (x : Pos) : g.Linked (xs ++ [x]) p q := by
  refine Relation.EqvGen.mono (fun a b hab => hab.imp_right fun hs => ?_) p q h
  refine { hs with near := hs.near.imp_right fun hx => ?_ }
  obtain ⟨y, hy, ho⟩ := hx
  exact ⟨y, List.mem_append_left _ hy, ho⟩

/-- Between wire cells no other cells matter. -/
theorem linked_iff_wiredAcross (hp : g.get p = .wire) : g.Linked xs p q ↔ g.WiredAcross xs p q := by
  constructor
  · intro h
    induction h with
    | rel a b hab =>
      rcases hab with ⟨ha, hb, hn, -, hc⟩ | hs
      · exact .rel _ _ ⟨ha, hb, hp, hc.trans hp, .inl hn⟩
      · exact .rel _ _ hs
    | refl a => exact .refl a
    | symm a b hab ih => exact .symm _ _ (ih (Linked.get_eq hab ▸ hp))
    | trans a b c hab _ ih₁ ih₂ => exact .trans _ _ _ (ih₁ hp) (ih₂ ((Linked.get_eq hab).trans hp))
  · exact Relation.EqvGen.mono (fun _ _ hs => .inr hs) p q

/-- A wire of one axis of a cross is joined to a wire of the other only if some wires of the two axes
are joined without this cross. -/
theorem joined_elsewhere {a b : Pos} (ha : a = x.left ∨ a = x.right) (hap : a ∈ g.positions)
    (haw : g.get a = .wire) (hb : b = x.up ∨ b = x.down) (hbp : b ∈ g.positions)
    (hbw : g.get b = .wire) (h : g.WiredAcross xs a b) :
    ∃ a' b', (a' = x.left ∨ a' = x.right) ∧ (b' = x.up ∨ b' = x.down) ∧
      (a' ∈ g.positions ∧ g.get a' = .wire) ∧ (b' ∈ g.positions ∧ g.get b' = .wire) ∧
      g.WiredAcross (xs.filter (· ≠ x)) a' b' := by
  have hE := g.wiredAcross_equivalence (xs.filter (· ≠ x))
  by_contra hno
  let first : Pos → Prop := fun p => ∃ a', (a' = x.left ∨ a' = x.right) ∧
    (a' ∈ g.positions ∧ g.get a' = .wire) ∧ g.WiredAcross (xs.filter (· ≠ x)) a' p
  have hsecond : ∀ b', (b' = x.up ∨ b' = x.down) → b' ∈ g.positions → g.get b' = .wire →
      ¬ first b' := by
    intro b' hb' hmem hwire hfirst
    obtain ⟨a', ha', haw', hjoined⟩ := hfirst
    exact hno ⟨a', b', ha', hb', haw', ⟨hmem, hwire⟩, hjoined⟩
  have hkept : ∀ p q, g.WireStep xs p q → first p = first q := by
    intro p q hs
    have hother : g.WireStep (xs.filter (· ≠ x)) p q → first p = first q := by
      intro hs'
      have hstep : g.WiredAcross (xs.filter (· ≠ x)) p q := .rel _ _ hs'
      apply propext
      constructor
      · rintro ⟨a', ha', haw', hjoined⟩
        exact ⟨a', ha', haw', hE.trans hjoined hstep⟩
      · rintro ⟨a', ha', haw', hjoined⟩
        exact ⟨a', ha', haw', hE.trans hjoined (hE.symm hstep)⟩
    rcases hs.near with hn | ⟨y, hy, ho⟩
    · exact hother { hs with near := .inl hn }
    · by_cases hyx : y = x
      · subst hyx
        rcases ho with ⟨rfl, rfl⟩ | ⟨rfl, rfl⟩
        · have hleft : first y.left := ⟨_, .inl rfl, ⟨hs.left_mem, hs.left_wire⟩, hE.refl _⟩
          have hright : first y.right := ⟨_, .inr rfl, ⟨hs.right_mem, hs.right_wire⟩, hE.refl _⟩
          exact propext (iff_of_true hleft hright)
        · exact propext (iff_of_false (hsecond _ (.inl rfl) hs.left_mem hs.left_wire)
            (hsecond _ (.inr rfl) hs.right_mem hs.right_wire))
      · have hmem : y ∈ xs.filter (· ≠ x) := List.mem_filter.2 ⟨hy, decide_eq_true hyx⟩
        exact hother { hs with near := .inr ⟨y, hmem, ho⟩ }
  have hfirst : first b := by
    have heq : first a = first b := eq_of_eqvGen hkept h
    exact heq ▸ ⟨a, ha, ⟨hap, haw⟩, hE.refl a⟩
  exact hsecond b hb hbp hbw hfirst

end Grid

namespace Labels

variable {g : Grid} {R : Pos → Pos → Prop} {xs : List Pos} {l l' : Labels} {p q : Pos}

/-- Joining two wires changes the marks of wires alone. -/
theorem joinWires_of_ne_wire (h : Partition g R g.positions l)
    (hcode : ∀ a b, R a b → g.get b = g.get a) (a b : Pos) (hp : g.get p ≠ .wire) :
    (joinWires g l a b).get p = l.get p := by
  rcases joinWires_cases h a b with ⟨hj, -⟩ | ⟨i, j, -, hj, -, hwb, he⟩
  · rw [hj]
  · rw [he, get_union, if_neg]
    intro hpj
    exact hp (hcode b p (h.sound b p j hj hpj) ▸ hwb)

/-- What has become of a labelling when some crosses have been gone through. -/
structure CrossedBy (g : Grid) (xs : List Pos) (l l' : Labels) : Prop where
  partition : Partition g (g.Linked xs) g.positions l'
  agree : ∀ p q, g.Linked xs p q → l'.get p = l'.get q
  other : ∀ p, g.get p ≠ .wire → l'.get p = l.get p

namespace CrossedBy

theorem start (h : Relabelling.Settled g l) : CrossedBy g [] l l where
  partition := h.partition.mono fun _ _ hpq => hpq.linked []
  agree p q hpq := by
    refine Grid.eq_of_eqvGen (v := l.get) (fun a b hab => ?_) hpq
    rcases hab with ht | hs
    · exact h.linked a b ht
    · rcases hs.near with hn | ⟨x, hx, -⟩
      · refine h.linked a b ⟨hs.left_mem, hs.right_mem, hn, ?_, hs.right_wire.trans hs.left_wire.symm⟩
        rw [hs.left_wire]
        rfl
      · cases hx
  other _ _ := rfl

/-- One more cross links the wires on its two axes, and this is what the unions at it do. -/
theorem joinAcross (h : CrossedBy g xs l l') (x : Pos) :
    CrossedBy g (xs ++ [x]) l (Labels.joinAcross g l' x) := by
  have hE := g.linked_equivalence (xs ++ [x])
  have hlink : ∀ a b, Opposite x a b → a ∈ g.positions → b ∈ g.positions → g.get a = .wire →
      g.get b = .wire → g.Linked (xs ++ [x]) a b := fun a b ho ha hb hwa hwb =>
    .rel _ _ (.inr ⟨ha, hb, hwa, hwb, .inr ⟨x, by simp, ho⟩⟩)
  have h₀ : Partition g (g.Linked (xs ++ [x])) g.positions l' :=
    h.partition.mono fun _ _ hab => hab.append x
  have h₁ := h₀.joinWires hE (hlink x.left x.right (.inl ⟨rfl, rfl⟩))
  have h₂ := h₁.joinWires hE (hlink x.up x.down (.inr ⟨rfl, rfl⟩))
  constructor
  case partition => exact h₂
  case agree =>
    have hkept : ∀ a b, l'.get a = l'.get b →
        (Labels.joinAcross g l' x).get a = (Labels.joinAcross g l' x).get b := fun a b hab =>
      joinWires_congr h₁ _ _ (joinWires_congr h₀ _ _ hab)
    intro p q hpq
    refine Grid.eq_of_eqvGen (v := (Labels.joinAcross g l' x).get) (fun a b hab => ?_) hpq
    rcases hab with ht | hs
    · exact hkept a b (h.agree a b (.rel _ _ (.inl ht)))
    · obtain ⟨ha, hb, hwa, hwb, hn | ⟨y, hy, ho⟩⟩ := hs
      · exact hkept a b (h.agree a b (.rel _ _ (.inr ⟨ha, hb, hwa, hwb, .inl hn⟩)))
      · rcases List.mem_append.1 hy with hy | hy
        · exact hkept a b (h.agree a b (.rel _ _ (.inr ⟨ha, hb, hwa, hwb, .inr ⟨y, hy, ho⟩⟩)))
        · rw [List.mem_singleton.1 hy] at ho
          rcases ho with ⟨rfl, rfl⟩ | ⟨rfl, rfl⟩
          · exact joinWires_congr h₁ _ _ (joinWires_same h₀ ha hb hwa hwb)
          · exact joinWires_same h₁ ha hb hwa hwb
  case other =>
    intro p hp
    have hcode : ∀ a b, g.Linked (xs ++ [x]) a b → g.get b = g.get a := fun a b hab => hab.get_eq
    rw [Labels.joinAcross, joinWires_of_ne_wire h₁ hcode _ _ hp, joinWires_of_ne_wire h₀ hcode _ _ hp,
      h.other p hp]

theorem foldl_joinAcross (rest : List Pos) : ∀ {xs : List Pos} {l' : Labels}, CrossedBy g xs l l' →
    CrossedBy g (xs ++ rest) l (rest.foldl (Labels.joinAcross g) l') := by
  induction rest with
  | nil =>
    intro xs l' h
    rw [List.append_nil]
    exact h
  | cons x rest ih =>
    intro xs l' h
    have hrest := ih (h.joinAcross x)
    rwa [List.append_assoc] at hrest

end CrossedBy

/-- The marks after some crosses, against the marks before the first of them. -/
structure Merged (g : Grid) (xs : List Pos) (l l' : Labels) : Prop where
  same_iff : ∀ p ∈ g.positions, ∀ q ∈ g.positions, g.get p = .wire → g.get q = .wire →
    (l'.get p = l'.get q ↔ g.WiredAcross xs p q)
  other : ∀ p, g.get p ≠ .wire → l'.get p = l.get p
  /-- No group has cells of two codes. -/
  unmixed : ∀ p ∈ g.positions, (g.get p).groups = true → ∀ q, l'.get p = l'.get q → g.get q = g.get p

theorem CrossedBy.merged (h : CrossedBy g xs l l') : Merged g xs l l' where
  same_iff p hp q _ hwp _ := by
    obtain ⟨id, hid⟩ := h.partition.exists_group hp (by rw [hwp]; rfl)
    rw [← Grid.linked_iff_wiredAcross hwp]
    constructor
    · intro he
      exact h.partition.sound p q id hid (he ▸ hid)
    · exact h.agree p q
  other := h.other
  unmixed p hp hg q he := by
    obtain ⟨id, hid⟩ := h.partition.exists_group hp hg
    exact (h.partition.sound p q id hid (he ▸ hid)).get_eq

/-- What going through the crosses of a grid does to its labelling. -/
structure JoinsAxes (g : Grid) (l : Labels) : Prop where
  /-- The crosses that are gone through are the cross cells, each once and in row-major order. -/
  mem_crosses_iff : ∀ p, p ∈ l.crosses ↔ p ∈ g.positions ∧ g.get p = .cross
  crosses_rising : l.crosses.Pairwise fun p q => g.place p < g.place q
  crosses_kept : (joinThroughCrosses g l).crosses = l.crosses
  /-- At any time the marks tell what the crosses so far have joined. -/
  stage : ∀ n, Merged g (l.crosses.take n) l ((l.crosses.take n).foldl (joinAcross g) l)
  merged : Merged g l.crosses l (joinThroughCrosses g l)
  /-- The two axes of a cross carry one mark only if they are joined elsewhere. -/
  turn : ∀ x ∈ l.crosses, ∀ a b, a = x.left ∨ a = x.right → b = x.up ∨ b = x.down →
    a ∈ g.positions → b ∈ g.positions → g.get a = .wire → g.get b = .wire →
    (joinThroughCrosses g l).get a = (joinThroughCrosses g l).get b →
    ∃ a' b', (a' = x.left ∨ a' = x.right) ∧ (b' = x.up ∨ b' = x.down) ∧
      (a' ∈ g.positions ∧ g.get a' = .wire) ∧ (b' ∈ g.positions ∧ g.get b' = .wire) ∧
      g.WiredAcross (l.crosses.filter (· ≠ x)) a' b'

/-- Labelling succeeds, and going through the crosses then joins exactly the wires that face each other
across them. -/
theorem ofGrid_joinsAxes (h : g.Labellable) : ∃ l, ofGrid g = .ok l ∧ JoinsAxes g l := by
  have he := h.exact
  obtain ⟨l, hl, hs⟩ := ofGrid_settled he
  have hcrosses : l.crosses = g.crosses := crosses_eq hs.partition he
  have hcrossed : ∀ xs : List Pos, CrossedBy g xs l (xs.foldl (joinAcross g) l) :=
    (CrossedBy.start hs).foldl_joinAcross
  have hmerged : ∀ xs : List Pos, Merged g xs l (xs.foldl (joinAcross g) l) :=
    fun xs => (hcrossed xs).merged
  refine ⟨l, hl, ?_⟩
  constructor
  case mem_crosses_iff =>
    intro p
    rw [hcrosses, Grid.mem_crosses]
  case crosses_rising =>
    rw [hcrosses]
    exact g.positions_pairwise.filter _
  case crosses_kept => exact (crosses_eq (hcrossed l.crosses).partition he).trans hcrosses.symm
  case stage => exact fun n => hmerged _
  case merged => exact hmerged _
  case turn =>
    intro x _ a b ha hb hap hbp haw hbw hsame
    have hjoined := ((hmerged l.crosses).same_iff a hap b hbp haw hbw).1 hsame
    exact Grid.joined_elsewhere ha hap haw hb hbp hbw hjoined

/-- Two crosses in a row, so that what the first joins is read by the second, with a wire around that
joins the axes of the first. -/
def sampleCrossings : Grid := ⟨5, 3, #v[.wire, .wire, .empty, .and, .empty,
  .wire, .cross, .wire, .cross, .wire, .empty, .wire, .empty, .wire, .empty]⟩

theorem sampleCrossings_joinsAxes : sampleCrossings.Labellable ∧ ∃ l, ofGrid sampleCrossings = .ok l ∧
    JoinsAxes sampleCrossings l :=
  ⟨by decide, ofGrid_joinsAxes (by decide)⟩

end Labels

end GridCircuit
