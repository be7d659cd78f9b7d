import GridCircuit.Field.Load
import GridCircuit.Proofs.PastedCodes

/-!
# Registries that evolve

Registering and merging parts, opening documents and loading parts all leave the entries that are there
in their places, under their names. The source of an entry changes once at most, from an unresolved one
to a resolved one. Registries are never taken away, and an entry that is a drawing refers to a registry
that exists.
-/

namespace GridCircuit

namespace Entry

variable {φ : Type} {d e f : Entry φ}

/-- What may become of an entry. -/
def Becomes (e e' : Entry φ) : Prop :=
  e'.name = e.name ∧
    (e'.source = e.source ∨ e.source.isResolved = false ∧ e'.source.isResolved = true)

theorem Becomes.refl (e : Entry φ) : e.Becomes e := ⟨rfl, .inl rfl⟩

theorem Becomes.trans (h : d.Becomes e) (h' : e.Becomes f) : d.Becomes f := by
  refine ⟨h'.1.trans h.1, ?_⟩
  obtain he | ⟨hd, he⟩ := h.2
  · rw [← he]
    exact h'.2
  · obtain hf | ⟨he', -⟩ := h'.2
    · exact .inr ⟨hd, hf ▸ he⟩
    · rw [he] at he'
      cases he'

theorem becomes_upgrade (e : Entry φ) (source : Source φ) : e.Becomes (e.upgrade source) := by
  refine ⟨e.name_upgrade source, ?_⟩
  rw [upgrade]
  split
  case isTrue h =>
    rw [Bool.and_eq_true, Bool.not_eq_true'] at h
    exact .inr h
  case isFalse => exact .inl rfl

theorem isResolved_upgrade (e : Entry φ) {source : Source φ} (h : source.isResolved = true) :
    (e.upgrade source).source.isResolved = true := by
  rw [upgrade, h, Bool.and_true]
  split
  case isTrue => exact h
  case isFalse he => simpa using he

theorem source_upgrade (e : Entry φ) (source : Source φ) :
    (e.upgrade source).source = e.source ∨ (e.upgrade source).source = source := by
  rw [upgrade]
  split
  · exact .inr rfl
  · exact .inl rfl

end Entry

namespace Registry

variable {φ : Type} {r r' r'' src : Registry φ} {name : String} {source : Source φ} {c c' : Code}
  {e : Entry φ}

theorem lookup?_eq_some_iff : r.lookup? c = some e ↔ ∃ i, c = .custom i ∧ r.entries[i]? = some e := by
  constructor
  · intro h
    cases c with
    | custom i => exact ⟨i, rfl, h⟩
    | _ => cases h
  · rintro ⟨i, rfl, h⟩
    exact h

/-- A name has the code of the entry that has the name. -/
theorem codeOf?_eq_some_iff (hr : r.names.Nodup) :
    r.codeOf? name = some c ↔ ∃ e, r.lookup? c = some e ∧ e.name = name := by
  constructor
  · intro h
    obtain ⟨i, hi, rfl⟩ := Option.map_eq_some_iff.1 h
    have hname := getElem?_names hi
    rw [names, List.getElem?_map] at hname
    obtain ⟨e, he, rfl⟩ := Option.map_eq_some_iff.1 hname
    exact ⟨e, he, rfl⟩
  · rintro ⟨e, he, rfl⟩
    obtain ⟨i, rfl, hi⟩ := lookup?_eq_some_iff.1 he
    have hname : r.names[i]? = some e.name := by rw [names, List.getElem?_map, hi]; rfl
    cases hj : r.indexOf? e.name with
    | none => exact absurd (List.mem_of_getElem? hname) (notMem_names hj)
    | some j =>
      have hlt := (List.getElem?_eq_some_iff.1 (getElem?_names hj)).1
      have hij := (List.getElem?_inj hlt hr).1 ((getElem?_names hj).trans hname.symm)
      rw [codeOf?, hj, hij]
      rfl

/-- Every entry is still there, with its name and at least as good a source. -/
def Keeps (r r' : Registry φ) : Prop :=
  ∀ (i : Nat) (e : Entry φ), r.entries[i]? = some e → ∃ e', r'.entries[i]? = some e' ∧ e.Becomes e'

theorem Keeps.refl (r : Registry φ) : r.Keeps r := fun _ e he => ⟨e, he, .refl e⟩

theorem Keeps.trans (h : r.Keeps r') (h' : r'.Keeps r'') : r.Keeps r'' := by
  intro i e he
  obtain ⟨e', he', hb⟩ := h i e he
  obtain ⟨e'', he'', hb'⟩ := h' i e' he'
  exact ⟨e'', he'', hb.trans hb'⟩

theorem Keeps.lookup? (h : r.Keeps r') (he : r.lookup? c = some e) :
    ∃ e', r'.lookup? c = some e' ∧ e.Becomes e' := by
  obtain ⟨i, rfl, hi⟩ := lookup?_eq_some_iff.1 he
  exact h i e hi

theorem Keeps.codeOf? (h : r.Keeps r') (hr : r.names.Nodup) (hr' : r'.names.Nodup)
    (hc : r.codeOf? name = some c) : r'.codeOf? name = some c := by
  obtain ⟨e, he, rfl⟩ := (codeOf?_eq_some_iff hr).1 hc
  obtain ⟨e', he', hb⟩ := h.lookup? he
  exact (codeOf?_eq_some_iff hr').2 ⟨e', he', hb.1⟩

/-- Every source in the registry satisfies a condition. -/
def All (P : Source φ → Prop) (r : Registry φ) : Prop := ∀ e ∈ r.entries, P e.source

theorem keeps_register (r : Registry φ) (name : String) (source : Source φ) :
    r.Keeps (r.register name source).1 := by
  intro i e he
  rw [register]
  split
  case h_1 j hj =>
    dsimp only
    rw [List.getElem?_modify, he]
    refine ⟨_, rfl, ?_⟩
    dsimp only
    split
    · exact e.becomes_upgrade source
    · exact .refl e
  case h_2 =>
    exact ⟨e, (List.getElem?_append_left (List.getElem?_eq_some_iff.1 he).1).trans he, .refl e⟩

theorem All.register {P : Source φ → Prop} (h : r.All P) (hs : P source) (name : String) :
    (r.register name source).1.All P := by
  intro e he
  rw [Registry.register] at he
  split at he
  case h_1 j hj =>
    obtain ⟨i, hi⟩ := List.getElem?_of_mem he
    dsimp only at hi
    rw [List.getElem?_modify] at hi
    obtain ⟨d, hd, rfl⟩ := Option.map_eq_some_iff.1 hi
    have hP := h d (List.mem_of_getElem? hd)
    split
    · obtain hsame | hnew := d.source_upgrade source
      · rw [hsame]
        exact hP
      · rw [hnew]
        exact hs
    · exact hP
  case h_2 =>
    obtain he | he := List.mem_append.1 he
    · exact h e he
    · rw [List.mem_singleton.1 he]
      exact hs

/-- Behind the code of a registration stands an entry of the name, and a resolved source is made use
of. -/
theorem lookup?_register (r : Registry φ) (name : String) (source : Source φ) :
    ∃ e, (r.register name source).1.lookup? (r.register name source).2 = some e ∧ e.name = name ∧
      (source.isResolved = true → e.source.isResolved = true) := by
  rw [register]
  split
  case h_1 i hi =>
    have hname := getElem?_names hi
    rw [names, List.getElem?_map] at hname
    obtain ⟨e, he, rfl⟩ := Option.map_eq_some_iff.1 hname
    refine ⟨e.upgrade source, ?_, e.name_upgrade source, e.isResolved_upgrade⟩
    show (r.entries.modify i _)[i]? = _
    rw [List.getElem?_modify, he]
    simp
  case h_2 =>
    refine ⟨⟨name, source⟩, ?_, rfl, id⟩
    show (r.entries ++ [_])[r.entries.length]? = _
    rw [List.getElem?_append_right (Nat.le_refl _), Nat.sub_self]
    rfl

/-- A registration concerns one entry. -/
theorem lookup?_register_of_ne (h : c ≠ (r.register name source).2) :
    (r.register name source).1.lookup? c = r.lookup? c := by
  cases c with
  | custom j =>
    show (r.register name source).1.entries[j]? = r.entries[j]?
    rw [register] at h ⊢
    split at h
    case h_1 i hi =>
      have hne : i ≠ j := fun he => h (congrArg Code.custom he.symm)
      dsimp only
      rw [List.getElem?_modify]
      simp only [hne, if_false, Option.map_eq_map, Option.map_id']
    case h_2 =>
      have hne : j ≠ r.entries.length := fun he => h (congrArg Code.custom he)
      dsimp only
      by_cases hlt : j < r.entries.length
      · exact List.getElem?_append_left hlt
      · rw [List.getElem?_eq_none (by simp; omega), List.getElem?_eq_none (by omega)]
  | _ => rfl

/-- What registering keeps, merging keeps. -/
theorem absorb_induction {P : Registry φ → Prop} (hr : P r)
    (hstep : ∀ e ∈ src.entries, ∀ r, P r → P (r.register e.name e.source).1) :
    P (r.absorb src).1 := by
  have hall : ∀ (es : List (Entry φ)) (r : Registry φ) (codes : List Code),
      (∀ e ∈ es, ∀ r, P r → P (r.register e.name e.source).1) → P r →
        P (es.foldl enter (r, codes)).1 := by
    intro es
    induction es with
    | nil => exact fun r codes _ hr => hr
    | cons e es ih =>
      intro r codes hstep hr
      exact ih _ _ (fun d hd => hstep d (List.mem_cons_of_mem _ hd))
        (hstep e List.mem_cons_self r hr)
  exact hall src.entries r [] hstep hr

theorem keeps_absorb (r src : Registry φ) : r.Keeps (r.absorb src).1 :=
  absorb_induction (.refl r) fun e _ r' h => h.trans (r'.keeps_register e.name e.source)

theorem All.absorb {P : Source φ → Prop} (h : r.All P) (hs : src.All P) :
    (r.absorb src).1.All P :=
  absorb_induction h fun e he _ h => h.register (hs e he) e.name

end Registry

namespace Registries

variable {rs rs' rs'' : Registries} {id id' : RegistryId} {r : Registry Field}

/-- The registry exists. -/
def Has (rs : Registries) (id : RegistryId) : Prop := id.index < rs.all.size

/-- A drawing refers to a registry that exists. -/
def Holds (rs : Registries) : Source Field → Prop
  | .circuit f => rs.Has f.registry
  | .script _ | .unresolved _ => True

theorem get_of_not_has (h : ¬rs.Has id) : rs.get id = {} := by
  rw [get, Array.getElem?_eq_none (Nat.le_of_not_lt h)]
  rfl

theorem has_put : (rs.put id r).Has id' ↔ rs.Has id' := by
  rw [Has, put, Array.size_setIfInBounds, Has]

theorem get_add_of_has (h : rs.Has id) (r : Registry Field) : (rs.add r).1.get id = rs.get id := by
  rw [get, add, Array.getElem?_push_lt h, get, Array.getElem?_eq_getElem h]

theorem get_add (rs : Registries) (r : Registry Field) : (rs.add r).1.get (rs.add r).2 = r := by
  rw [get, add, Array.getElem?_push_size]
  rfl

theorem has_add : (rs.add r).1.Has id ↔ rs.Has id ∨ id = (rs.add r).2 := by
  rw [Has, add, Array.size_push, Nat.lt_succ_iff_lt_or_eq]
  refine or_congr Iff.rfl ⟨fun h => congrArg RegistryId.mk h, fun h => ?_⟩
  rw [h]

/-- No name is given twice, and what the entries refer to exists. -/
structure Sound (rs : Registries) : Prop where
  distinct : ∀ id, (rs.get id).names.Nodup
  closed : ∀ id, (rs.get id).All rs.Holds

theorem sound_empty : Sound {} := ⟨fun _ => List.nodup_nil, fun _ => nofun⟩

/-- All registries are still there and have kept their entries. -/
structure Evolves (rs rs' : Registries) : Prop where
  has : ∀ id, rs.Has id → rs'.Has id
  keeps : ∀ id, (rs.get id).Keeps (rs'.get id)

theorem Evolves.refl (rs : Registries) : rs.Evolves rs := ⟨fun _ => id, fun _ => .refl _⟩

theorem Evolves.trans (h : rs.Evolves rs') (h' : rs'.Evolves rs'') : rs.Evolves rs'' :=
  ⟨fun id hid => h'.has id (h.has id hid), fun id => (h.keeps id).trans (h'.keeps id)⟩

/-- All registries are still there, as they were. -/
def Within (rs rs' : Registries) : Prop := ∀ id, rs.Has id → rs'.Has id ∧ rs'.get id = rs.get id

theorem Within.refl (rs : Registries) : rs.Within rs := fun _ h => ⟨h, rfl⟩

theorem Within.trans (h : rs.Within rs') (h' : rs'.Within rs'') : rs.Within rs'' := by
  intro id hid
  obtain ⟨hid', hget⟩ := h id hid
  obtain ⟨hid'', hget'⟩ := h' id hid'
  exact ⟨hid'', hget'.trans hget⟩

theorem Within.evolves (h : rs.Within rs') : rs.Evolves rs' := by
  refine ⟨fun id hid => (h id hid).1, fun id => ?_⟩
  by_cases hid : rs.Has id
  · rw [(h id hid).2]
    exact .refl _
  · rw [get_of_not_has hid]
    exact nofun

theorem Holds.mono (h : ∀ id, rs.Has id → rs'.Has id) {source : Source Field}
    (hs : rs.Holds source) : rs'.Holds source := by
  cases source with
  | circuit f => exact h _ hs
  | script script => trivial
  | unresolved reason => trivial

/-- Replacing a registry by one that keeps its entries. -/
theorem Sound.put (h : rs.Sound) (hid : rs.Has id) (hkeeps : (rs.get id).Keeps r)
    (hr : r.names.Nodup) (hall : r.All rs.Holds) :
    (rs.put id r).Sound ∧ rs.Evolves (rs.put id r) := by
  have hhas : ∀ id', rs.Has id' → (rs.put id r).Has id' := fun _ => has_put.2
  have hget : ∀ id', (rs.put id r).get id' = if id' = id then r else rs.get id' := by
    intro id'
    split
    case isTrue he => rw [he, get_put hid]
    case isFalse he => exact get_put_of_ne he r
  refine ⟨⟨fun id' => ?_, fun id' => ?_⟩, hhas, fun id' => ?_⟩
  · rw [hget]
    split
    · exact hr
    · exact h.distinct id'
  · rw [hget]
    split
    · exact fun e he => (hall e he).mono hhas
    · exact fun e he => (h.closed id' e he).mono hhas
  · rw [hget]
    split
    case isTrue he => exact he ▸ hkeeps
    case isFalse => exact .refl _

theorem Sound.register (h : rs.Sound) (hid : rs.Has id) (name : String) {source : Source Field}
    (hs : rs.Holds source) :
    (rs.register id name source).1.Sound ∧ rs.Evolves (rs.register id name source).1 :=
  h.put hid (Registry.keeps_register _ name source)
    (Registry.nodup_names_register (h.distinct id) name source)
    (Registry.All.register (h.closed id) hs name)

/-- Adding a registry whose drawings refer to those that are there. -/
theorem Sound.add (h : rs.Sound) (hr : r.names.Nodup) (hall : r.All rs.Holds) :
    (rs.add r).1.Sound ∧ rs.Within (rs.add r).1 := by
  have hwithin : rs.Within (rs.add r).1 := fun id hid => ⟨has_add.2 (.inl hid), get_add_of_has hid r⟩
  have hhas : ∀ id, rs.Has id → (rs.add r).1.Has id := fun id hid => (hwithin id hid).1
  have hcases : ∀ id, (rs.add r).1.get id = rs.get id ∨ (rs.add r).1.get id = r := by
    intro id
    by_cases hid : (rs.add r).1.Has id
    · obtain hid | rfl := has_add.1 hid
      · exact .inl (get_add_of_has hid r)
      · exact .inr (get_add rs r)
    · rw [get_of_not_has hid, get_of_not_has fun h => hid (hhas id h)]
      exact .inl rfl
  refine ⟨⟨fun id => ?_, fun id e he => ?_⟩, hwithin⟩
  · obtain hid | hid := hcases id
    · rw [hid]
      exact h.distinct id
    · rw [hid]
      exact hr
  · obtain hid | hid := hcases id
    · rw [hid] at he
      exact (h.closed id e he).mono hhas
    · rw [hid] at he
      exact (hall e he).mono hhas

end Registries

end GridCircuit
