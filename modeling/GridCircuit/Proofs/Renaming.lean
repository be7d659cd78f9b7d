import GridCircuit.Proofs.Embedding

/-!
# Parts under their names

A part that is registered under a name is found there by the code that the registration gives. So the
parts of a registry may be added to another one: the codes change, and each still stands for the same
part, if no name means different things in the two.
-/

namespace GridCircuit

namespace Registry

variable {φ : Type} {r src : Registry φ} {codes : List Code} {name : String} {source : Source φ}

/-- What a name stands for. -/
def find? (r : Registry φ) (name : String) : Option (Entry φ) := r.entries.find? (·.name = name)

theorem find?_eq_getElem? (r : Registry φ) (name : String) :
    r.find? name = (r.indexOf? name).bind (r.entries[·]?) := by
  rw [find?, indexOf?, List.find?_eq_bind_findIdx?_getElem?]

/-- Registering a part whose name stands for the same or for nothing. -/
theorem register_cases (hsame : ∀ e, r.find? name = some e → e.source = source) :
    (∃ i, r.entries[i]? = some ⟨name, source⟩ ∧ r.register name source = (r, .custom i)) ∨
      r.find? name = none ∧
        r.register name source = (⟨r.entries ++ [⟨name, source⟩]⟩, .custom r.entries.length) := by
  rw [find?_eq_getElem?] at hsame ⊢
  cases hi : r.indexOf? name with
  | none => exact .inr ⟨rfl, by rw [register, hi]⟩
  | some i =>
    obtain ⟨hlt, hname, -⟩ := List.findIdx?_eq_some_iff_getElem.1 hi
    have hget : r.entries[i]? = some ⟨name, source⟩ := by
      have hsource := hsame r.entries[i] (by rw [hi, Option.bind_some, List.getElem?_eq_getElem hlt])
      rw [List.getElem?_eq_getElem hlt, ← of_decide_eq_true hname, ← hsource]
    refine .inl ⟨i, hget, ?_⟩
    rw [register, hi]
    refine Prod.ext (congrArg Registry.mk (List.ext_getElem? fun j => ?_)) rfl
    rw [List.getElem?_modify, Option.map_eq_map]
    split
    case isTrue h =>
      subst h
      rw [hget, Option.map_some, Entry.upgrade]
      split <;> rfl
    case isFalse => rw [Option.map_id']

/-- Add one part after others, as absorbing does. -/
def enter (s : Registry φ × List Code) (e : Entry φ) : Registry φ × List Code :=
  ((s.1.register e.name e.source).1, s.2 ++ [(s.1.register e.name e.source).2])

theorem absorb_eq (r src : Registry φ) : r.absorb src = src.entries.foldl enter (r, []) := rfl

/-- The code stands for the part. -/
def Stands (r : Registry φ) (e : Entry φ) (c : Code) : Prop :=
  ∃ j, c = .custom j ∧ r.entries[j]? = some e

theorem Stands.of_prefix {r' : Registry φ} {e : Entry φ} {c : Code} (h : r.Stands e c)
    (hr : r.entries <+: r'.entries) : r'.Stands e c := by
  obtain ⟨j, rfl, hj⟩ := h
  obtain ⟨rest, hrest⟩ := hr
  refine ⟨j, rfl, ?_⟩
  rw [← hrest, List.getElem?_append_left (List.getElem?_eq_some_iff.1 hj).1, hj]

theorem stands_iff_lookup? {e : Entry φ} {c : Code} : r.Stands e c ↔ r.lookup? c = some e := by
  constructor
  · rintro ⟨i, rfl, hi⟩
    exact hi
  · intro h
    cases c with
    | custom i => exact ⟨i, rfl, h⟩
    | _ => cases h

/-- Where no name occurs twice, a name has one code. -/
theorem Stands.eq_of_name (hnodup : (r.entries.map (·.name)).Nodup) {e e' : Entry φ} {c d : Code}
    (hc : r.Stands e c) (hd : r.Stands e' d) (h : e.name = e'.name) : c = d := by
  obtain ⟨i, rfl, hi⟩ := hc
  obtain ⟨j, rfl, hj⟩ := hd
  have hlt : i < (r.entries.map (·.name)).length := by
    rw [List.length_map]
    exact (List.getElem?_eq_some_iff.1 hi).1
  obtain rfl : i = j := (List.getElem?_inj hlt hnodup).1
    (by rw [List.getElem?_map, List.getElem?_map, hi, hj, Option.map_some, Option.map_some, h])
  rfl

theorem enter_cases (codes : List Code) {e : Entry φ}
    (hsame : ∀ e', r.find? e.name = some e' → e'.source = e.source) :
    ∃ s c, enter (r, codes) e = (s, codes ++ [c]) ∧ s.Stands e c ∧ r.entries <+: s.entries ∧
      ∀ n, n ≠ e.name → s.find? n = r.find? n := by
  obtain ⟨i, hi, hr⟩ | ⟨-, hr⟩ := register_cases hsame
  · exact ⟨r, .custom i, by rw [enter, hr], ⟨i, rfl, hi⟩, List.prefix_rfl, fun _ _ => rfl⟩
  · refine ⟨_, _, by rw [enter, hr], ⟨_, rfl, List.getElem?_concat_length⟩, List.prefix_append _ _,
      fun n hn => ?_⟩
    have hne : decide (e.name = n) = false := decide_eq_false fun h => hn h.symm
    rw [find?, List.find?_append, List.find?_cons_of_neg (by simpa using hne), List.find?_nil,
      Option.or_none]
    rfl

/-- Parts are registered one after another, and each gets a code for what it is. -/
theorem foldl_enter : ∀ (es : List (Entry φ)) (r : Registry φ) (codes : List Code),
    (es.map (·.name)).Nodup → (∀ e ∈ es, ∀ e', r.find? e.name = some e' → e'.source = e.source) →
    ∃ r' new, es.foldl enter (r, codes) = (r', codes ++ new) ∧ r.entries <+: r'.entries ∧
      List.Forall₂ r'.Stands es new := by
  intro es
  induction es with
  | nil => exact fun r codes _ _ => ⟨r, [], by rw [List.append_nil]; rfl, List.prefix_rfl, .nil⟩
  | cons e es ih =>
    intro r codes hnodup hsame
    rw [List.map_cons, List.nodup_cons] at hnodup
    obtain ⟨s, c, hs, hc, hprefix, hfind⟩ := enter_cases codes (hsame e List.mem_cons_self)
    obtain ⟨r', new, hfold, hprefix', hnew⟩ := ih s (codes ++ [c]) hnodup.2 fun e' he' e'' he'' => by
      rw [hfind _ fun h => hnodup.1 (h ▸ List.mem_map_of_mem he')] at he''
      exact hsame e' (List.mem_cons_of_mem _ he') e'' he''
    refine ⟨r', c :: new, ?_, hprefix.trans hprefix', .cons (hc.of_prefix hprefix') hnew⟩
    rw [List.foldl_cons, hs, hfold, List.append_assoc, List.singleton_append]

/-- Every code of a registry gets a code for the same part in the registry that absorbs it. -/
theorem absorb_stands (hnodup : (src.entries.map (·.name)).Nodup)
    (hsame : ∀ e ∈ src.entries, ∀ e', r.find? e.name = some e' → e'.source = e.source) :
    List.Forall₂ (r.absorb src).1.Stands src.entries (r.absorb src).2 := by
  obtain ⟨r', new, hfold, -, hnew⟩ := foldl_enter src.entries r [] hnodup hsame
  rw [absorb_eq, hfold, List.nil_append]
  exact hnew

end Registry

/-- Codes become codes that are made into the same, and codes that are made into nothing become codes
that are made into nothing. -/
structure CarriesOver (ρ : Code → Code) (make make' : Code → Making) : Prop extends
    Recodes ρ make make' where
  back : ∀ c, ((ρ c).isConnector = true ∨ ρ c = .cross ∨ (make' (ρ c)).isOk = true) →
    c.isConnector = true ∨ c = .cross ∨ (make c).isOk = true

theorem CarriesOver.refl (make : Code → Making) : CarriesOver id make make where
  fixed := fun _ _ => rfl
  custom := fun _ hc _ => hc
  injective := fun _ _ _ _ he => he
  make_eq := fun _ _ => rfl
  back := fun _ h => h

namespace Registry

section Makers

variable {r src : Registry Field} {codes : List Code} {period : Nat} {nest : String → Field → Making}

/-- What a custom code is made into depends on its part only. -/
theorem make_stands {e : Entry Field} {c d : Code} (hc : r.Stands e c) (hd : src.Stands e d) :
    r.make period nest c = src.make period nest d := by
  obtain ⟨i, rfl, hi⟩ := hc
  obtain ⟨j, rfl, hj⟩ := hd
  simp only [make, Kind.builtin?, lookup?, Code.customIndex?, Option.bind_some, hi, hj]

theorem exists_stands_of_isOk {c : Code} (hc : c.isCustom = true)
    (hok : (src.make period nest c).isOk = true) : ∃ e, src.Stands e c := by
  cases c with
  | custom i =>
    cases hi : src.entries[i]? with
    | some e => exact ⟨e, i, rfl, hi⟩
    | none =>
      simp [make, Kind.builtin?, lookup?, Code.customIndex?, hi, Except.isOk, Except.toBool] at hok
  | _ => cases hc

theorem make_fixed {c : Code} (hc : c.isCustom = false) :
    r.make period nest c = src.make period nest c := by
  cases c <;> first | rfl | cases hc

theorem recode_custom (codes : List Code) (i : Nat) :
    recode codes (.custom i) = codes[i]?.getD .empty := rfl

theorem recode_fixed {c : Code} (hc : c.isCustom = false) : recode codes c = c := by
  cases c <;> first | rfl | cases hc

theorem recode_stands (hcodes : List.Forall₂ r.Stands src.entries codes) {e : Entry Field} {c : Code}
    (hc : src.Stands e c) : r.Stands e (recode codes c) := by
  obtain ⟨i, rfl, hi⟩ := hc
  obtain ⟨hlt, rfl⟩ := List.getElem?_eq_some_iff.1 hi
  have hlt' : i < codes.length := hcodes.length_eq ▸ hlt
  rw [recode_custom, List.getElem?_eq_getElem hlt', Option.getD_some]
  exact hcodes.get hlt hlt'

/-- A custom code that no part stands behind becomes empty. -/
theorem recode_cases (hcodes : List.Forall₂ r.Stands src.entries codes) (c : Code) :
    c.isCustom = false ∨ (∃ e, src.Stands e c) ∨ recode codes c = .empty := by
  cases c with
  | custom i =>
    cases hi : src.entries[i]? with
    | some e => exact .inr (.inl ⟨e, i, rfl, hi⟩)
    | none =>
      have hlen : codes.length ≤ i := hcodes.length_eq ▸ List.getElem?_eq_none_iff.1 hi
      refine .inr (.inr ?_)
      rw [recode_custom, List.getElem?_eq_none hlen, Option.getD_none]
  | _ => exact .inl rfl

theorem Stands.isCustom {e : Entry Field} {c : Code} (h : r.Stands e c) : c.isCustom = true := by
  obtain ⟨i, rfl, -⟩ := h
  rfl

/-- Parts of different names do not get one code. -/
theorem eq_of_recode (hnodup : (src.entries.map (·.name)).Nodup)
    (hcodes : List.Forall₂ r.Stands src.entries codes) {e e' : Entry Field} {c d : Code}
    (hc : src.Stands e c) (hd : src.Stands e' d) (h : recode codes c = recode codes d) : c = d := by
  obtain ⟨k, hk, hek⟩ := recode_stands hcodes hc
  obtain ⟨l, hl, hel⟩ := recode_stands hcodes hd
  obtain rfl : k = l := Code.custom.inj (hk.symm.trans (h.trans hl))
  obtain rfl := Option.some.inj (hek.symm.trans hel)
  exact hc.eq_of_name hnodup hd rfl

theorem isCustom_recode (hcodes : List.Forall₂ r.Stands src.entries codes) {c : Code}
    (hok : (src.make period nest c).isOk = true) : (recode codes c).isCustom = c.isCustom := by
  cases hc : c.isCustom with
  | false => rw [recode_fixed hc, hc]
  | true =>
    obtain ⟨e, he⟩ := exists_stands_of_isOk hc hok
    exact (recode_stands hcodes he).isCustom

/-- The codes that the parts of a registry get in another one carry everything over. -/
theorem recode_carries (hnodup : (src.entries.map (·.name)).Nodup)
    (hcodes : List.Forall₂ r.Stands src.entries codes) :
    CarriesOver (recode codes) (src.make period nest) (r.make period nest) where
  fixed := fun _ hc => recode_fixed hc
  custom := fun _ hc hok => (isCustom_recode hcodes hok).trans hc
  injective := by
    intro c d hc hd h
    have hcd : c.isCustom = d.isCustom := by
      rw [← isCustom_recode hcodes hc, h, isCustom_recode hcodes hd]
    cases hcustom : d.isCustom with
    | false => rwa [recode_fixed (hcd.trans hcustom), recode_fixed hcustom] at h
    | true =>
      obtain ⟨e, he⟩ := exists_stands_of_isOk (hcd.trans hcustom) hc
      obtain ⟨e', he'⟩ := exists_stands_of_isOk hcustom hd
      exact eq_of_recode hnodup hcodes he he' h
  make_eq := by
    intro c hok
    cases hc : c.isCustom with
    | false => rw [recode_fixed hc, make_fixed hc]
    | true =>
      obtain ⟨e, he⟩ := exists_stands_of_isOk hc hok
      exact make_stands (recode_stands hcodes he) he
  back := by
    intro c h
    obtain hc | ⟨e, he⟩ | hempty := recode_cases hcodes c
    · rwa [recode_fixed hc, make_fixed hc] at h
    · rw [make_stands (recode_stands hcodes he) he] at h
      obtain ⟨j, hj, -⟩ := recode_stands hcodes he
      rw [hj] at h
      obtain h | h | h := h
      · cases h
      · cases h
      · exact .inr (.inr h)
    · rw [hempty] at h
      obtain h | h | h := h <;> cases h

end Makers

end Registry

end GridCircuit
