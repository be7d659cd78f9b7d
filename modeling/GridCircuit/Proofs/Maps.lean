import GridCircuit.KeyMap
import Mathlib.Data.List.Induction
import Mathlib.Data.List.Sort

/-!
# Sorted maps and their lookups

The entries of a map are what can be looked up in it, and a map is determined by that.
-/

namespace GridCircuit.KeyMap

variable {κ α : Type} [Ord κ] [Std.TransOrd κ] [Std.LawfulEqOrd κ] {m m' : KeyMap κ α} {k : κ} {a : α}

omit [Std.TransOrd κ] in
theorem ne_of_lt {k k' : κ} (h : compare k k' = .lt) : k ≠ k' := by
  rintro rfl
  rw [Std.ReflOrd.compare_self] at h
  cases h

omit [Std.TransOrd κ] in
theorem mem_iff_find? : ∀ {es : List (κ × α)}, (es.Pairwise fun a b => compare a.1 b.1 = .lt) →
    ((k, a) ∈ es ↔ find? k es = some a) := by
  intro es
  induction es with
  | nil => exact fun _ => iff_of_false List.not_mem_nil nofun
  | cons e es ih =>
    intro h
    obtain ⟨hfirst, hrest⟩ := List.pairwise_cons.1 h
    rw [List.mem_cons, find?]
    by_cases hk : k = e.1
    · subst hk
      rw [if_pos Std.ReflOrd.compare_self, Option.some.injEq]
      constructor
      · intro hmem
        obtain he | hmem := hmem
        · rw [← he]
        · have hlt : compare e.1 e.1 = .lt := hfirst (e.1, a) hmem
          exact absurd rfl (ne_of_lt hlt)
      · rintro rfl
        exact .inl rfl
    · rw [if_neg fun he => hk (Std.LawfulEqCmp.eq_of_compare he), ← ih hrest]
      exact or_iff_right fun he => hk (congrArg Prod.fst he)

omit [Std.TransOrd κ] in
theorem mem_entries_iff : (k, a) ∈ m.entries ↔ m.get? k = some a := mem_iff_find? m.sorted

/-- Maps in which the same is found are equal. -/
theorem ext_get? (h : ∀ k a, m.get? k = some a ↔ m'.get? k = some a) : m = m' := by
  let before (a b : κ × α) : Prop := compare a.1 b.1 = .lt
  have : Std.Irrefl before := ⟨fun _ hlt => ne_of_lt hlt rfl⟩
  have : Std.Antisymm before := ⟨fun _ _ hab hba => absurd rfl (ne_of_lt (Std.TransCmp.lt_trans hab hba))⟩
  have hentries : m.entries = m'.entries := by
    refine List.Pairwise.eq_of_mem_iff (r := before) m.sorted m'.sorted ?_
    intro e
    obtain ⟨k, a⟩ := e
    rw [mem_entries_iff, mem_entries_iff, h]
  cases m
  cases m'
  congr

/-- In a map made from a list with one value for each key, the list can be looked up. -/
theorem get?_ofList : ∀ {es : List (κ × α)},
    (∀ k a b, (k, a) ∈ es → (k, b) ∈ es → a = b) → ((ofList es).get? k = some a ↔ (k, a) ∈ es) := by
  intro es
  induction es using List.reverseRecOn with
  | nil => exact fun _ => iff_of_false nofun List.not_mem_nil
  | append_singleton es e ih =>
    intro h
    have hlast : ofList (es ++ [e]) = (ofList es).insert e.1 e.2 := by
      rw [ofList, List.foldl_append]
      rfl
    have hes : ∀ k a b, (k, a) ∈ es → (k, b) ∈ es → a = b := fun k a b ha hb =>
      h k a b (List.mem_append_left _ ha) (List.mem_append_left _ hb)
    rw [hlast, get?_insert, List.mem_append, List.mem_singleton]
    by_cases hk : k = e.1
    · subst hk
      rw [if_pos Std.ReflOrd.compare_self, Option.some.injEq]
      constructor
      · rintro rfl
        exact .inr rfl
      · intro hmem
        obtain hmem | he := hmem
        · exact h e.1 e.2 a (List.mem_append_right _ List.mem_cons_self) (List.mem_append_left _ hmem)
        · exact (congrArg Prod.snd he).symm
    · rw [if_neg fun he => hk (Std.LawfulEqCmp.eq_of_compare he), ih hes]
      exact (or_iff_left fun he => hk (congrArg Prod.fst he)).symm

theorem ofList_entries (m : KeyMap κ α) : ofList m.entries = m := by
  apply ext_get?
  intro k a
  rw [get?_ofList, mem_entries_iff]
  intro k a b ha hb
  exact Option.some.inj ((mem_entries_iff.1 ha).symm.trans (mem_entries_iff.1 hb))

omit [Std.TransOrd κ] [Std.LawfulEqOrd κ] in
theorem find?_map {β : Type} (f : α → β) (es : List (κ × α)) :
    find? k (es.map fun e => (e.1, f e.2)) = (find? k es).map f := by
  induction es with
  | nil => rfl
  | cons e es ih =>
    rw [List.map_cons, find?, find?, ih]
    split <;> rfl

/-- Entries of different keys that are put into a map are found there, and the rest as before. -/
theorem get?_foldl_insert : ∀ {es : List (κ × α)} (m : KeyMap κ α),
    (es.Pairwise fun a b => compare a.1 b.1 = .lt) →
    (es.foldl (fun m e => m.insert e.1 e.2) m).get? k = (find? k es).or (m.get? k) := by
  intro es
  induction es with
  | nil => exact fun _ _ => rfl
  | cons e es ih =>
    intro m h
    obtain ⟨hfirst, hrest⟩ := List.pairwise_cons.1 h
    rw [List.foldl_cons, ih _ hrest, get?_insert, find?]
    split
    case isTrue hk =>
      obtain rfl := Std.LawfulEqCmp.eq_of_compare hk
      have hnone : find? e.1 es = none := by
        rw [Option.eq_none_iff_forall_ne_some]
        intro a ha
        have hlt : compare e.1 e.1 = .lt := hfirst (e.1, a) ((mem_iff_find? hrest).2 ha)
        exact ne_of_lt hlt rfl
      rw [hnone]
      rfl
    case isFalse => rfl

end GridCircuit.KeyMap
