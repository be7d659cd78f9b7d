import GridCircuit.Circuit.Basic
import Mathlib.Data.List.Nodup
import Mathlib.Data.List.Pairwise

/-!
# Levels by position

The state table of a circuit answers for a position with the level of whatever covers it. Each placed
group gets a slot of its own, so placing one group leaves the levels of the others alone; and where no
position is covered twice, the order of the slots does not show.
-/

namespace GridCircuit

/-- A list without repetitions is made of parts that share nothing. -/
theorem eq_of_nodup_flatMap {α β : Type} {l : List α} {f : α → List β} (h : (l.flatMap f).Nodup)
    {a b : α} (ha : a ∈ l) (hb : b ∈ l) {x : β} (hxa : x ∈ f a) (hxb : x ∈ f b) : a = b := by
  by_contra hne
  have : Std.Symm (Function.onFun List.Disjoint f) := ⟨fun _ _ hd _ hb ha => hd ha hb⟩
  exact (List.nodup_flatMap.1 h).2.forall ha hb hne hxa hxb

namespace StateTable

variable {t : StateTable} {p q : Pos}

/-- Every addressed slot exists. -/
def Valid (t : StateTable) : Prop := ∀ p slot, t.index.get? p = some slot → slot < t.values.size

theorem valid_empty : Valid ∅ := by
  intro p slot h
  cases h

theorem compare_eq_iff : compare q p = .eq ↔ q = p := Std.LawfulEqCmp.compare_eq_iff_eq

/-- Aliases address one slot and change no other address. -/
theorem foldl_addAlias (slot : Nat) :
    ∀ (rest : List Pos) (t : StateTable),
      (rest.foldl (fun t p => t.addAlias p slot) t).values = t.values ∧
        (rest.foldl (fun t p => t.addAlias p slot) t).index.get? q =
          if q ∈ rest then some slot else t.index.get? q := by
  intro rest
  induction rest with
  | nil => simp
  | cons p rest ih =>
    intro t
    obtain ⟨hv, hi⟩ := ih (t.addAlias p slot)
    refine ⟨hv, hi.trans ?_⟩
    rw [addAlias, KeyMap.get?_insert]
    simp only [compare_eq_iff, List.mem_cons]
    by_cases hr : q ∈ rest <;> by_cases hp : q = p <;> simp [hr, hp]

/-- Placing a group leaves the earlier slots alone and adds one with the level of the group. -/
theorem place_cons (t : StateTable) (first : Pos) (rest : List Pos) (level : Bool) (q : Pos) :
    (t.place (first :: rest) level).values = t.values.push level ∧
      (t.place (first :: rest) level).index.get? q =
        if q ∈ first :: rest then some t.values.size else t.index.get? q := by
  obtain ⟨hv, hi⟩ := foldl_addAlias (q := q) t.values.size rest (t.allocate first).1
  constructor
  · simp only [place, allocate, set] at hv ⊢
    rw [hv]
    refine Array.ext (by simp) fun i hi₁ _ => ?_
    simp only [Array.size_setIfInBounds, Array.size_push] at hi₁
    rw [Array.getElem_setIfInBounds (by simpa using hi₁)]
    simp only [Array.getElem_push]
    split <;> split <;> first | rfl | omega
  · simp only [place, allocate, set] at hi ⊢
    rw [hi, KeyMap.get?_insert]
    simp only [compare_eq_iff, List.mem_cons]
    by_cases hr : q ∈ rest <;> by_cases hp : q = first <;> simp [hr, hp]

theorem Valid.place (h : t.Valid) (cells : List Pos) (level : Bool) : (t.place cells level).Valid := by
  cases cells with
  | nil => exact h
  | cons first rest =>
    intro q slot hq
    obtain ⟨hv, hi⟩ := t.place_cons first rest level q
    rw [hi] at hq
    rw [hv, Array.size_push]
    split at hq
    · cases hq
      exact Nat.lt_succ_self _
    · exact Nat.lt_trans (h q slot hq) (Nat.lt_succ_self _)

theorem levelAt?_place (h : t.Valid) (cells : List Pos) (level : Bool) (q : Pos) :
    (t.place cells level).levelAt? q = if q ∈ cells then some level else t.levelAt? q := by
  cases cells with
  | nil => rfl
  | cons first rest =>
    obtain ⟨hv, hi⟩ := t.place_cons first rest level q
    rw [levelAt?, hi]
    split
    · simp [get, hv]
    · rw [levelAt?]
      cases hs : t.index.get? q with
      | none => rfl
      | some slot =>
        have hne : slot ≠ t.values.size := Nat.ne_of_lt (h q slot hs)
        simp [get, hv, Array.getElem?_push, hne]

/-- Where no position is placed twice, every group shows its level. -/
theorem levelAt?_foldl_place :
    ∀ (groups : List (List Pos × Bool)) (t : StateTable), t.Valid →
      (groups.flatMap (·.1)).Nodup →
      (groups.foldl (fun t g => t.place g.1 g.2) t).levelAt? q =
        ((groups.find? fun g => q ∈ g.1).map (·.2)).or (t.levelAt? q) := by
  intro groups
  induction groups with
  | nil => simp
  | cons g groups ih =>
    intro t ht hn
    rw [List.flatMap_cons, List.nodup_append] at hn
    rw [List.foldl_cons, ih _ (ht.place g.1 g.2) hn.2.1, levelAt?_place ht]
    by_cases hq : q ∈ g.1
    · have hnone : groups.find? (fun g => decide (q ∈ g.1)) = none := by
        refine List.find?_eq_none.2 fun g' hg' hq' => ?_
        exact hn.2.2 q hq q (List.mem_flatMap.2 ⟨g', hg', by simpa using hq'⟩) rfl
      simp [hnone, hq]
    · simp [hq]

/-- A position has a level if it is placed, however often. -/
theorem isSome_foldl_place :
    ∀ (groups : List (List Pos × Bool)) (t : StateTable), t.Valid →
      (((groups.foldl (fun t g => t.place g.1 g.2) t).levelAt? q).isSome = true ↔
        q ∈ groups.flatMap (·.1) ∨ (t.levelAt? q).isSome = true) := by
  intro groups
  induction groups with
  | nil => simp
  | cons g groups ih =>
    intro t ht
    rw [List.foldl_cons, ih _ (ht.place g.1 g.2), levelAt?_place ht, List.flatMap_cons,
      List.mem_append]
    by_cases hq : q ∈ g.1 <;> simp [hq]

end StateTable

namespace Circuit

/-- Every position that a circuit covers, once for each time it is covered. -/
def covered (c : Circuit) : List Pos :=
  c.components.flatMap (·.cells) ++ c.connections.toList.map (·.pos)

/-- The groups of the state table, in the order of their slots. -/
def slots (c : Circuit) : List (List Pos × Bool) :=
  (c.connections.toList.filter fun k => k.kind = .cross).map (fun k => ([k.pos], k.active))
    ++ c.components.map (fun m => (m.cells, m.level))
    ++ (c.connections.toList.filter fun k => k.kind ≠ .cross).map fun k => ([k.pos], k.active)

theorem slots_perm (c : Circuit) : (c.slots.flatMap (·.1)).Perm c.covered := by
  have hsingle : ∀ ks : List Connection,
      (ks.map fun k => ([k.pos], k.active)).flatMap (·.1) = ks.map (·.pos) := by
    intro ks
    rw [List.flatMap_map]
    exact List.map_eq_flatMap.symm
  have hsplit : ((c.connections.toList.filter fun k => k.kind = .cross) ++
      c.connections.toList.filter fun k => k.kind ≠ .cross).Perm c.connections.toList := by
    have h := List.filter_append_perm (fun k : Connection => k.kind = .cross) c.connections.toList
    simpa using h
  rw [slots, List.flatMap_append, List.flatMap_append, hsingle, hsingle, List.flatMap_map, covered,
    List.append_assoc]
  refine List.perm_append_comm_assoc _ _ _ |>.trans ?_
  rw [← List.map_append]
  exact (hsplit.map _).append_left _

variable {c : Circuit} {p : Pos}

theorem levelAt?_eq (h : c.covered.Nodup) (p : Pos) :
    c.levelAt? p = (c.slots.find? fun g => p ∈ g.1).map (·.2) := by
  have hn : (c.slots.flatMap (·.1)).Nodup := c.slots_perm.nodup_iff.2 h
  have hf := StateTable.levelAt?_foldl_place (q := p) c.slots ∅ StateTable.valid_empty hn
  rw [levelAt?, states]
  refine hf.trans ?_
  exact Option.or_none

/-- Each covered position shows the level of what covers it. -/
theorem levelAt?_of_slot (h : c.covered.Nodup) {g : List Pos × Bool} (hg : g ∈ c.slots)
    (hp : p ∈ g.1) : c.levelAt? p = some g.2 := by
  have hn : (c.slots.flatMap (·.1)).Nodup := c.slots_perm.nodup_iff.2 h
  rw [levelAt?_eq h]
  cases hf : c.slots.find? fun g => p ∈ g.1 with
  | none => exact absurd (List.find?_eq_none.1 hf g hg) (by simpa using hp)
  | some g' =>
    have hg' := List.mem_of_find?_eq_some hf
    have hp' : p ∈ g'.1 := by simpa using List.find?_some hf
    rw [eq_of_nodup_flatMap hn hg' hg hp' hp]
    rfl

theorem levelAt?_component (h : c.covered.Nodup) {m : Component} (hm : m ∈ c.components)
    (hp : p ∈ m.cells) : c.levelAt? p = some m.level := by
  refine levelAt?_of_slot (g := (m.cells, m.level)) h ?_ hp
  simp only [slots, List.mem_append, List.mem_map]
  exact .inl (.inr ⟨m, hm, rfl⟩)

theorem levelAt?_connection (h : c.covered.Nodup) {k : Connection} (hk : k ∈ c.connections.toList) :
    c.levelAt? k.pos = some k.active := by
  refine levelAt?_of_slot (g := ([k.pos], k.active)) h ?_ (by simp)
  simp only [slots, List.mem_append, List.mem_map, List.mem_filter]
  by_cases hc : k.kind = .cross
  · exact .inl (.inl ⟨k, ⟨hk, by simp [hc]⟩, rfl⟩)
  · exact .inr ⟨k, ⟨hk, by simp [hc]⟩, rfl⟩

theorem levelAt?_isSome : (c.levelAt? p).isSome ↔ p ∈ c.covered := by
  have hsome := StateTable.isSome_foldl_place (q := p) c.slots ∅ StateTable.valid_empty
  have hnone : ((∅ : StateTable).levelAt? p).isSome = false := rfl
  rw [hnone, or_iff_left Bool.false_ne_true, c.slots_perm.mem_iff] at hsome
  exact hsome

end Circuit

end GridCircuit
