import GridCircuit.Proofs.Renaming

/-!
# Merging registries

What a registry holds after it has absorbed another one, whatever the two hold: its own parts under
their codes, each taken from the other registry if it was unresolved here and is resolved there, and
then the parts whose names it did not know, in the order of the other registry.
-/

namespace GridCircuit

namespace Entry

variable {φ : Type} (e : Entry φ) (source : Source φ)

theorem name_upgrade : (e.upgrade source).name = e.name := by
  rw [upgrade]
  split <;> rfl

theorem upgrade_self : e.upgrade e.source = e := by
  rw [upgrade]
  split <;> rfl

theorem upgrade_upgrade : (e.upgrade source).upgrade source = e.upgrade source := by
  by_cases h : (!e.source.isResolved && source.isResolved) = true
  · have hnew : e.upgrade source = { e with source } := if_pos h
    rw [hnew]
    exact upgrade_self _
  · have hsame : e.upgrade source = e := if_neg h
    rw [hsame, hsame]

end Entry

namespace Registry

variable {φ : Type} {r r' src : Registry φ} {name : String} {source : Source φ} {c : Code} {i : Nat}

/-- The names of the parts, by code. -/
def names (r : Registry φ) : List String := r.entries.map (·.name)

theorem indexOf?_eq (r : Registry φ) (name : String) :
    r.indexOf? name = r.names.findIdx? (· = name) := by
  rw [indexOf?, names, List.findIdx?_map]
  rfl

theorem notMem_names (h : r.indexOf? name = none) : name ∉ r.names := by
  rw [indexOf?_eq, List.findIdx?_eq_none_iff] at h
  exact fun hmem => of_decide_eq_false (h name hmem) rfl

theorem getElem?_names (h : r.indexOf? name = some i) : r.names[i]? = some name := by
  rw [indexOf?_eq] at h
  obtain ⟨hlt, hname, -⟩ := List.findIdx?_eq_some_iff_getElem.1 h
  rw [List.getElem?_eq_getElem hlt, of_decide_eq_true hname]

theorem ne_empty_of_codeOf? (h : r.codeOf? name = some c) : c ≠ .empty := by
  rw [codeOf?, Option.map_eq_some_iff] at h
  obtain ⟨i, -, rfl⟩ := h
  exact Code.noConfusion

/-- A code is kept when names are only added behind. -/
theorem codeOf?_of_prefix (h : r.names <+: r'.names) (hc : r.codeOf? name = some c) :
    r'.codeOf? name = some c := by
  obtain ⟨rest, hrest⟩ := h
  rw [codeOf?, Option.map_eq_some_iff] at hc ⊢
  obtain ⟨i, hi, rfl⟩ := hc
  rw [indexOf?_eq] at hi
  refine ⟨i, ?_, rfl⟩
  rw [indexOf?_eq, ← hrest, List.findIdx?_append, hi]
  rfl

/-- Different codes are given to different names. -/
theorem name_eq_of_codeOf? {name' : String} (h : r.codeOf? name = some c)
    (h' : r.codeOf? name' = some c) : name = name' := by
  rw [codeOf?, Option.map_eq_some_iff] at h h'
  obtain ⟨i, hi, rfl⟩ := h
  obtain ⟨j, hj, he⟩ := h'
  obtain rfl := Code.custom.inj he
  exact Option.some.inj ((getElem?_names hi).symm.trans (getElem?_names hj))

section Register

theorem names_register (r : Registry φ) (name : String) (source : Source φ) :
    (r.register name source).1.names = if name ∈ r.names then r.names else r.names ++ [name] := by
  rw [register]
  cases hi : r.indexOf? name with
  | none =>
    rw [if_neg (notMem_names hi)]
    simp only [names, List.map_append, List.map_cons, List.map_nil]
  | some i =>
    rw [if_pos (List.mem_of_getElem? (getElem?_names hi))]
    apply List.ext_getElem?
    intro j
    simp only [names, List.getElem?_map, List.getElem?_modify]
    split
    case isTrue =>
      cases r.entries[j]? with
      | none => rfl
      | some e => exact congrArg some (e.name_upgrade source)
    case isFalse => rw [Option.map_eq_map, Option.map_id']

theorem names_prefix_register (r : Registry φ) (name : String) (source : Source φ) :
    r.names <+: (r.register name source).1.names := by
  rw [names_register]
  split
  · exact List.prefix_rfl
  · exact List.prefix_append _ _

/-- No way of registering parts makes two parts of one name. -/
theorem nodup_names_register (hr : r.names.Nodup) (name : String) (source : Source φ) :
    (r.register name source).1.names.Nodup := by
  rw [names_register]
  split
  case isTrue => exact hr
  case isFalse h => exact hr.append (List.nodup_singleton _) (by simpa using h)

/-- A registered name has the code that the registration gives. -/
theorem codeOf?_register (r : Registry φ) (name : String) (source : Source φ) :
    (r.register name source).1.codeOf? name = some (r.register name source).2 := by
  have hnames := r.names_register name source
  rw [codeOf?, indexOf?_eq, hnames, register]
  cases hi : r.indexOf? name with
  | none =>
    rw [if_neg (notMem_names hi), List.findIdx?_append, ← indexOf?_eq, hi]
    simp [names]
  | some i =>
    rw [if_pos (List.mem_of_getElem? (getElem?_names hi)), ← indexOf?_eq, hi]
    rfl

/-- Registering one part, entry by entry. -/
theorem entries_register (hr : r.names.Nodup) (e : Entry φ) :
    (r.register e.name e.source).1.entries =
      r.entries.map (fun d => if d.name = e.name then d.upgrade e.source else d) ++
        if e.name ∈ r.names then [] else [e] := by
  rw [register]
  cases hi : r.indexOf? e.name with
  | none =>
    have hnot := notMem_names hi
    have hsame : ∀ d ∈ r.entries, (if d.name = e.name then d.upgrade e.source else d) = d := by
      intro d hd
      have hmem : d.name ∈ r.names := List.mem_map_of_mem hd
      rw [if_neg]
      intro he
      exact hnot (he ▸ hmem)
    rw [if_neg hnot, List.map_congr_left hsame, List.map_id']
  | some i =>
    have hget := getElem?_names hi
    rw [if_pos (List.mem_of_getElem? hget), List.append_nil]
    apply List.ext_getElem?
    intro j
    rw [List.getElem?_modify, List.getElem?_map]
    cases hj : r.entries[j]? with
    | none => rfl
    | some d =>
      have hname : r.names[j]? = some d.name := by rw [names, List.getElem?_map, hj, Option.map_some]
      have hiff : i = j ↔ d.name = e.name := by
        constructor
        · rintro rfl
          exact Option.some.inj (hname.symm.trans hget)
        · intro he
          rw [he, ← hget] at hname
          exact ((List.getElem?_inj (List.getElem?_eq_some_iff.1 hget).1 hr).1 hname.symm)
      simp only [hiff, Option.map_eq_map, Option.map_some]

end Register

section Absorb

/-- An entry with the source that a registry has under its name, where that one is better. -/
def refresh (src : Registry φ) (e : Entry φ) : Entry φ :=
  match src.find? e.name with
  | some known => e.upgrade known.source
  | none => e

theorem name_refresh (src : Registry φ) (e : Entry φ) : (src.refresh e).name = e.name := by
  rw [refresh]
  split
  · exact e.name_upgrade _
  · rfl

theorem refresh_eq_of_better {e known : Entry φ} (h : src.find? e.name = some known)
    (he : e.source.isResolved = false) (hk : known.source.isResolved = true) :
    src.refresh e = { e with source := known.source } := by
  rw [refresh, h]
  exact if_pos (by rw [he, hk]; rfl)

theorem refresh_eq_of_not_better {e : Entry φ}
    (h : ¬(e.source.isResolved = false ∧
      ∃ known, src.find? e.name = some known ∧ known.source.isResolved = true)) :
    src.refresh e = e := by
  rw [refresh]
  split
  case h_1 known hfind =>
    refine if_neg fun hbetter => h ?_
    rw [Bool.and_eq_true, Bool.not_eq_true'] at hbetter
    exact ⟨hbetter.1, known, hfind, hbetter.2⟩
  case h_2 => rfl

theorem refresh_of_notMem {e : Entry φ} (h : e.name ∉ src.names) : src.refresh e = e := by
  have hnone : src.find? e.name = none := by
    rw [find?, List.find?_eq_none]
    intro d hd he
    exact h (of_decide_eq_true he ▸ List.mem_map_of_mem hd)
  rw [refresh, hnone]

theorem refresh_refresh (src : Registry φ) (e : Entry φ) :
    src.refresh (src.refresh e) = src.refresh e := by
  cases h : src.find? e.name with
  | none =>
    have hsame : src.refresh e = e := by rw [refresh, h]
    rw [hsame, hsame]
  | some known =>
    have hnew : src.refresh e = e.upgrade known.source := by rw [refresh, h]
    rw [hnew, refresh, e.name_upgrade, h]
    exact e.upgrade_upgrade known.source

/-- An entry of the registry itself is as good as it gets there. -/
theorem refresh_of_mem (hsrc : src.names.Nodup) {e : Entry φ} (he : e ∈ src.entries) :
    src.refresh e = e := by
  have hfind : src.find? e.name = some e := by
    rw [find?, List.find?_eq_some_iff_getElem]
    obtain ⟨i, hi, rfl⟩ := List.getElem_of_mem he
    refine ⟨decide_eq_true rfl, i, hi, rfl, fun j hji => ?_⟩
    have hne : src.entries[j].name ≠ src.entries[i].name := by
      intro hname
      have hlt : j < src.names.length := by
        rw [names, List.length_map]
        exact hji.trans hi
      have hsame : src.names[j]? = src.names[i]? := by simp [names, hi, hji.trans hi, hname]
      exact Nat.ne_of_lt hji ((List.getElem?_inj hlt hsrc).1 hsame)
    simp [hne]
  rw [refresh, hfind]
  exact e.upgrade_self

/-- Entering parts one after another adds up to entering the registry of these parts. -/
theorem refresh_cons {d e : Entry φ} {es : List (Entry φ)} (hd : d.name ∉ es.map (·.name)) :
    refresh ⟨d :: es⟩ e =
      refresh ⟨es⟩ (if e.name = d.name then e.upgrade d.source else e) := by
  by_cases he : e.name = d.name
  · have hfind : find? ⟨d :: es⟩ e.name = some d := List.find?_cons_of_pos (by simp [he])
    rw [if_pos he, refresh, hfind, refresh_of_notMem]
    rw [e.name_upgrade, he]
    exact hd
  · have hfind : find? ⟨d :: es⟩ e.name = find? ⟨es⟩ e.name :=
      List.find?_cons_of_neg (by simpa using fun h => he h.symm)
    rw [if_neg he, refresh, hfind, refresh]

/-- What is there after parts have been entered one after another. -/
theorem entries_foldl_enter : ∀ (es : List (Entry φ)) (r : Registry φ) (codes : List Code),
    r.names.Nodup → (es.map (·.name)).Nodup → (es.foldl enter (r, codes)).1.entries =
      r.entries.map (refresh ⟨es⟩) ++ es.filter fun e => e.name ∉ r.names := by
  intro es
  induction es with
  | nil =>
    intro r codes _ _
    have hsame : ∀ e ∈ r.entries, refresh ⟨[]⟩ e = e := fun e _ => rfl
    rw [List.map_congr_left hsame, List.map_id', List.filter_nil, List.append_nil]
    rfl
  | cons d es ih =>
    intro r codes hr hes
    rw [List.map_cons, List.nodup_cons] at hes
    have hnames := r.names_register d.name d.source
    have hr' := nodup_names_register hr d.name d.source
    have hnew : (es.filter fun e => e.name ∉ (r.register d.name d.source).1.names) =
        es.filter fun e => e.name ∉ r.names := by
      apply List.filter_congr
      intro e he
      have hne : e.name ≠ d.name := fun h => hes.1 (h ▸ List.mem_map_of_mem he)
      rw [hnames]
      split <;> simp [hne]
    have hkept : (refresh ⟨es⟩ ∘ fun e => if e.name = d.name then e.upgrade d.source else e) =
        refresh ⟨d :: es⟩ := funext fun e => (refresh_cons hes.1).symm
    rw [List.foldl_cons, enter, ih _ _ hr' hes.2, hnew, entries_register hr, List.map_append,
      List.map_map, List.append_assoc, hkept]
    congr 1
    rw [List.filter_cons]
    split
    case isTrue hd => rw [if_neg (by simpa using hd), List.map_nil, List.nil_append]
    case isFalse hd =>
      have hfresh : refresh ⟨es⟩ d = d := refresh_of_notMem hes.1
      rw [if_pos (by simpa using hd), List.map_singleton, hfresh, List.singleton_append]

theorem entries_absorb (hr : r.names.Nodup) (hsrc : src.names.Nodup) :
    (r.absorb src).1.entries =
      r.entries.map src.refresh ++ src.entries.filter fun e => e.name ∉ r.names :=
  entries_foldl_enter src.entries r [] hr hsrc

theorem names_absorb (hr : r.names.Nodup) (hsrc : src.names.Nodup) :
    (r.absorb src).1.names = r.names ++ src.names.filter (· ∉ r.names) := by
  have hkept : (r.entries.map src.refresh).map (·.name) = r.names := by
    rw [List.map_map]
    exact List.map_congr_left fun e _ => src.name_refresh e
  have hentries := entries_absorb hr hsrc
  generalize r.names = known at hentries hkept ⊢
  rw [names, hentries, List.map_append, hkept, names, List.filter_map]
  rfl

theorem nodup_names_absorb (hr : r.names.Nodup) (hsrc : src.names.Nodup) :
    (r.absorb src).1.names.Nodup := by
  rw [names_absorb hr hsrc]
  refine hr.append (hsrc.filter _) fun n hn hn' => ?_
  exact of_decide_eq_true (List.mem_filter.1 hn').2 hn

/-- Each part that is entered has the code it was given under its name, for good. -/
theorem codes_foldl_enter : ∀ (es : List (Entry φ)) (r : Registry φ) (codes : List Code),
    r.names <+: (es.foldl enter (r, codes)).1.names ∧ ∃ new,
      (es.foldl enter (r, codes)).2 = codes ++ new ∧
      List.Forall₂ (fun e c => (es.foldl enter (r, codes)).1.codeOf? e.name = some c) es new := by
  intro es
  induction es with
  | nil => exact fun r codes => ⟨List.prefix_rfl, [], (List.append_nil codes).symm, .nil⟩
  | cons e es ih =>
    intro r codes
    obtain ⟨hpre, new, hcodes, hnew⟩ := ih (r.register e.name e.source).1
      (codes ++ [(r.register e.name e.source).2])
    refine ⟨(r.names_prefix_register e.name e.source).trans hpre,
      (r.register e.name e.source).2 :: new, ?_, .cons ?_ hnew⟩
    · rw [List.foldl_cons, enter, hcodes, List.append_assoc, List.singleton_append]
    · exact codeOf?_of_prefix hpre (r.codeOf?_register e.name e.source)

theorem codes_absorb (r src : Registry φ) :
    List.Forall₂ (fun e c => (r.absorb src).1.codeOf? e.name = some c) src.entries
      (r.absorb src).2 := by
  obtain ⟨-, new, hcodes, hnew⟩ := codes_foldl_enter src.entries r []
  rw [List.nil_append] at hcodes
  rw [absorb_eq, hcodes]
  exact hnew

/-- A code becomes the one that its name has. -/
theorem codeOf?_recode (r : Registry φ) {e : Entry φ} (he : src.lookup? c = some e) :
    (r.absorb src).1.codeOf? e.name = some (recode (r.absorb src).2 c) := by
  have hcodes := codes_absorb r src
  cases c with
  | custom i =>
    obtain ⟨hlt, rfl⟩ := List.getElem?_eq_some_iff.1 he
    have hlt' : i < (r.absorb src).2.length := hcodes.length_eq ▸ hlt
    rw [recode_custom, List.getElem?_eq_getElem hlt', Option.getD_some]
    exact hcodes.get hlt hlt'
  | _ => cases he

theorem recode_of_unnamed (r : Registry φ) (hc : c.isCustom = true) (h : src.lookup? c = none) :
    recode (r.absorb src).2 c = .empty := by
  cases c with
  | custom i =>
    have hlen : (r.absorb src).2.length ≤ i :=
      (codes_absorb r src).length_eq ▸ List.getElem?_eq_none_iff.1 h
    rw [recode_custom, List.getElem?_eq_none hlen, Option.getD_none]
  | _ => cases hc

/-- A registry absorbs another one once and for all. -/
theorem absorb_absorb (hr : r.names.Nodup) (hsrc : src.names.Nodup) :
    (r.absorb src).1.absorb src = r.absorb src := by
  have hentries : ((r.absorb src).1.absorb src).1.entries = (r.absorb src).1.entries := by
    have hknown : ∀ e ∈ src.entries, e.name ∈ (r.absorb src).1.names := by
      intro e he
      rw [names_absorb hr hsrc, List.mem_append, List.mem_filter]
      by_cases hmem : e.name ∈ r.names
      · exact .inl hmem
      · exact .inr ⟨List.mem_map_of_mem he, decide_eq_true hmem⟩
    have hnone : (src.entries.filter fun e => e.name ∉ (r.absorb src).1.names) = [] := by
      rw [List.filter_eq_nil_iff]
      exact fun e he => by simpa using hknown e he
    rw [entries_absorb (nodup_names_absorb hr hsrc) hsrc, hnone, List.append_nil]
    refine (List.map_congr_left fun e he => ?_).trans (List.map_id' _)
    rw [entries_absorb hr hsrc, List.mem_append] at he
    obtain he | he := he
    · obtain ⟨d, -, rfl⟩ := List.mem_map.1 he
      exact src.refresh_refresh d
    · exact refresh_of_mem hsrc (List.mem_filter.1 he).1
  have hregistry : ((r.absorb src).1.absorb src).1 = (r.absorb src).1 := congrArg mk hentries
  refine Prod.ext hregistry ?_
  have hcodes := codes_absorb (r.absorb src).1 src
  rw [hregistry] at hcodes
  refine List.ext_getElem (hcodes.length_eq.symm.trans (codes_absorb r src).length_eq) ?_
  intro i hi hi'
  have hlt : i < src.entries.length := hcodes.length_eq ▸ hi
  exact Option.some.inj ((hcodes.get hlt hi).symm.trans ((codes_absorb r src).get hlt hi'))

/-- A part keeps its code, and its source unless that gets better. -/
theorem lookup?_absorb (hr : r.names.Nodup) (hsrc : src.names.Nodup) {e : Entry φ}
    (he : r.lookup? c = some e) : (r.absorb src).1.lookup? c = some (src.refresh e) := by
  cases c with
  | custom i =>
    have hi : r.entries[i]? = some e := he
    have hlt : i < (r.entries.map src.refresh).length := by
      rw [List.length_map]
      exact (List.getElem?_eq_some_iff.1 hi).1
    show (r.absorb src).1.entries[i]? = _
    rw [entries_absorb hr hsrc, List.getElem?_append_left hlt, List.getElem?_map, hi, Option.map_some]
  | _ => cases he

end Absorb

end Registry
end GridCircuit
