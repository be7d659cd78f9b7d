/-!
# Maps sorted by key

A map is the list of its entries with strictly increasing keys. Each finite map has one such list, so
two maps with the same lookups are equal, and listing a map lists it in key order.
-/

namespace GridCircuit

structure KeyMap (κ α : Type) [Ord κ] where
  entries : List (κ × α)
  sorted : entries.Pairwise fun a b => compare a.1 b.1 = .lt

namespace KeyMap

variable {κ α : Type} [Ord κ]

instance [DecidableEq κ] [DecidableEq α] : DecidableEq (KeyMap κ α) := fun a b =>
  decidable_of_iff (a.entries = b.entries) ⟨fun h => by cases a; cases b; cases h; rfl, fun h => h ▸ rfl⟩

def empty : KeyMap κ α := ⟨[], .nil⟩

instance : EmptyCollection (KeyMap κ α) := ⟨empty⟩
instance : Inhabited (KeyMap κ α) := ⟨empty⟩

/-- Put an entry into a sorted list; an entry of the same key is replaced. -/
def insertSorted (k : κ) (a : α) : List (κ × α) → List (κ × α)
  | [] => [(k, a)]
  | e :: es =>
    match compare k e.1 with
    | .lt => (k, a) :: e :: es
    | .eq => (k, a) :: es
    | .gt => e :: insertSorted k a es

theorem mem_insertSorted {k : κ} {a : α} {es : List (κ × α)} {e : κ × α}
    (h : e ∈ insertSorted k a es) : e = (k, a) ∨ e ∈ es := by
  induction es with
  | nil => simpa [insertSorted] using h
  | cons d ds ih =>
    unfold insertSorted at h
    split at h
    · simpa using h
    · simp only [List.mem_cons] at h ⊢
      exact h.imp_right .inr
    · simp only [List.mem_cons] at h ⊢
      rcases h with h | h
      · exact .inr (.inl h)
      · exact (ih h).imp_right .inr

theorem sorted_insertSorted [Std.TransOrd κ] [Std.LawfulEqOrd κ] (k : κ) (a : α)
    {es : List (κ × α)} (h : es.Pairwise fun a b => compare a.1 b.1 = .lt) :
    (insertSorted k a es).Pairwise fun a b => compare a.1 b.1 = .lt := by
  induction es with
  | nil => simp [insertSorted]
  | cons d ds ih =>
    obtain ⟨hd, hds⟩ := List.pairwise_cons.1 h
    unfold insertSorted
    split
    · rename_i hk
      refine List.pairwise_cons.2 ⟨fun e he => ?_, h⟩
      rcases List.mem_cons.1 he with rfl | he
      · exact hk
      · exact Std.TransCmp.lt_trans hk (hd e he)
    · rename_i hk
      obtain rfl := Std.LawfulEqCmp.eq_of_compare hk
      exact List.pairwise_cons.2 ⟨hd, hds⟩
    · rename_i hk
      refine List.pairwise_cons.2 ⟨fun e he => ?_, ih hds⟩
      rcases mem_insertSorted he with rfl | he
      · exact Std.OrientedCmp.gt_iff_lt.1 hk
      · exact hd e he

def insert [Std.TransOrd κ] [Std.LawfulEqOrd κ] (m : KeyMap κ α) (k : κ) (a : α) : KeyMap κ α :=
  ⟨insertSorted k a m.entries, sorted_insertSorted k a m.sorted⟩

/-- The value of the first entry with this key. -/
def find? (k : κ) : List (κ × α) → Option α
  | [] => none
  | e :: es => if compare k e.1 = .eq then some e.2 else find? k es

def get? (m : KeyMap κ α) (k : κ) : Option α := find? k m.entries

def contains (m : KeyMap κ α) (k : κ) : Bool := (m.get? k).isSome

def size (m : KeyMap κ α) : Nat := m.entries.length

def isEmpty (m : KeyMap κ α) : Bool := m.entries.isEmpty

/-- The map with the given entries; of two entries with one key the later stays. -/
def ofList [Std.TransOrd κ] [Std.LawfulEqOrd κ] (es : List (κ × α)) : KeyMap κ α :=
  es.foldl (fun m e => m.insert e.1 e.2) ∅

@[simp] theorem get?_empty (k : κ) : (∅ : KeyMap κ α).get? k = none := rfl

theorem find?_insertSorted [Std.TransOrd κ] [Std.LawfulEqOrd κ] (k k' : κ) (a : α)
    (es : List (κ × α)) :
    find? k' (insertSorted k a es) = if compare k' k = .eq then some a else find? k' es := by
  induction es with
  | nil => simp [insertSorted, find?]
  | cons d ds ih =>
    unfold insertSorted
    split
    · simp [find?]
    · rename_i hk
      obtain rfl := Std.LawfulEqCmp.eq_of_compare hk
      simp only [find?]
      split <;> rfl
    · rename_i hk
      simp only [find?, ih]
      split
      · rename_i hd
        obtain rfl := Std.LawfulEqCmp.eq_of_compare hd
        have hne : compare d.1 k ≠ .eq := by
          rw [Std.OrientedCmp.gt_iff_lt.1 hk]
          decide
        simp [hne]
      · rfl

theorem get?_insert [Std.TransOrd κ] [Std.LawfulEqOrd κ] (m : KeyMap κ α) (k k' : κ) (a : α) :
    (m.insert k a).get? k' = if compare k' k = .eq then some a else m.get? k' :=
  find?_insertSorted k k' a m.entries

theorem mem_keys_of_get? [Std.LawfulEqOrd κ] {m : KeyMap κ α} {k : κ} {a : α}
    (h : m.get? k = some a) : k ∈ m.entries.map (·.1) := by
  have go : ∀ es : List (κ × α), find? k es = some a → k ∈ es.map (·.1) := by
    intro es
    induction es with
    | nil => simp [find?]
    | cons e es ih =>
      intro h
      unfold find? at h
      split at h
      · rename_i hk
        simp [Std.LawfulEqCmp.eq_of_compare hk]
      · exact List.mem_cons_of_mem _ (ih h)
  exact go _ h

end KeyMap

end GridCircuit
