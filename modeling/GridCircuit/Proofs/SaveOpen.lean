import GridCircuit.Field.Load
import GridCircuit.Proofs.Documents
import GridCircuit.Proofs.Paste

/-!
# Saving and opening

A field that is saved and opened again is the same drawing with the same names under its custom codes.
The codes themselves are given anew, in the order of their decimal texts. What stands behind the names
does not matter, since a part that cannot be loaded stays in the registry unresolved.
-/

namespace GridCircuit

theorem Decimal.parse?_toString {bound n : Nat} (h : n < bound) :
    Decimal.parse? bound (toString n) = some n := by
  have hlist : (toString n).toList = Json.writeNat n := by
    rw [Nat.toString_eq_ofList_toDigits, String.toList_ofList]
    rfl
  obtain ⟨d, ds, he, hd⟩ := Token.exists_digit n
  have hall := Token.all_isDigit_writeNat n
  have hn : Nat.ofDigitChars 10 (Json.writeNat n) 0 = n := Token.natOfDigits_writeNat n
  have hplus : d ≠ '+' := by
    rintro rfl
    cases hd
  rw [parse?, hlist, he]
  rw [he] at hall hn
  split
  case h_1 heq => exact absurd (List.cons.inj heq).1 hplus
  case h_2 => rw [hall, hn, if_neg Bool.false_ne_true, if_pos h]

theorem toString_inj {a b bound : Nat} (ha : a < bound) (hb : b < bound)
    (h : toString a = toString b) : a = b := by
  have hparse := Decimal.parse?_toString ha
  rw [h, Decimal.parse?_toString hb] at hparse
  exact (Option.some.inj hparse).symm

theorem lookup_of_mem {α β : Type} [BEq α] [LawfulBEq α] {k : α} {a : β} : ∀ {es : List (α × β)},
    (es.map (·.1)).Nodup → (k, a) ∈ es → es.lookup k = some a := by
  intro es
  induction es with
  | nil => exact fun _ hmem => absurd hmem List.not_mem_nil
  | cons e es ih =>
    intro hnodup hmem
    rw [List.map_cons, List.nodup_cons] at hnodup
    obtain rfl | hmem := List.mem_cons.1 hmem
    · exact List.lookup_cons_self
    · have hne : (k == e.1) = false := by
        rw [beq_eq_false_iff_ne]
        rintro rfl
        have hkey : (e.1, a).1 ∈ es.map (·.1) := List.mem_map_of_mem hmem
        exact hnodup.1 hkey
      rw [List.lookup_cons, hne]
      exact ih hnodup.2 hmem

namespace Drawing

variable {source : String → Source Drawing}

theorem registerAll_snoc (source : String → Source Drawing) (codes : List (Nat × String))
    (e : Nat × String) : registerAll source (codes ++ [e]) =
      (((registerAll source codes).1.register e.2 (source e.2)).1,
        (registerAll source codes).2 ++
          [(e.1, ((registerAll source codes).1.register e.2 (source e.2)).2)]) := by
  rw [registerAll, List.foldl_append]
  rfl

/-- Parts with different names are registered in their order. -/
theorem registerAll_eq (source : String → Source Drawing) (codes : List (Nat × String))
    (hn : (codes.map (·.2)).Nodup) :
    registerAll source codes = (⟨codes.map fun e => ⟨e.2, source e.2⟩⟩,
      codes.zipIdx.map fun e => (e.1.1, .custom e.2)) := by
  induction codes using List.reverseRecOn with
  | nil => rfl
  | append_singleton codes e ih =>
    rw [List.map_append, List.nodup_append] at hn
    have hunknown : Registry.indexOf? (φ := Drawing) ⟨codes.map fun e => ⟨e.2, source e.2⟩⟩ e.2 = none := by
      rw [Registry.indexOf?, List.findIdx?_eq_none_iff]
      intro entry hentry
      obtain ⟨e', he', rfl⟩ := List.mem_map.1 hentry
      exact decide_eq_false (hn.2.2 _ (List.mem_map_of_mem he') _ List.mem_cons_self)
    rw [registerAll_snoc, ih hn.1, Registry.register, hunknown, List.map_append, List.zipIdx_append,
      List.map_append, List.length_map]
    simp

/-- The code that a saved code becomes is the one of its name. -/
theorem rename_registerAll {codes : List (Nat × String)} (hk : (codes.map (·.1)).Nodup) {j : Nat}
    {saved : Nat} {part : String} (hj : codes[j]? = some (saved, part))
    (hc : (Code.ofRaw saved).isCustom = true) :
    rename (codes.zipIdx.map fun e => (e.1.1, .custom e.2)) saved = .custom j := by
  have hlookup : (codes.zipIdx.map fun e => (e.1.1, Code.custom e.2)).lookup saved =
      some (.custom j) := by
    refine lookup_of_mem ?_ (List.mem_map.2 ⟨((saved, part), j), List.mem_zipIdx_iff_getElem?.2 hj, rfl⟩)
    have hkeys : (codes.zipIdx.map fun e => (e.1.1, Code.custom e.2)).map (·.1) =
        (codes.zipIdx.map (·.1)).map (·.1) := by
      rw [List.map_map, List.map_map]
      rfl
    rwa [hkeys, List.zipIdx_map_fst]
  rw [rename, hlookup]
  exact if_pos hc

end Drawing

namespace Field

variable {rs : Registries} {f : Field} {p : Pos} {e : Entry Field}

theorem code_eq_of_key {c d : Code} (hc : c.raw < UInt32.size) (hd : d.raw < UInt32.size)
    (h : toString c.raw = toString d.raw) : c = d := by
  rw [← Code.ofRaw_raw c, toString_inj hc hd h, Code.ofRaw_raw]

section Saved

variable (hw : f.grid.width < 2147483648) (hh : f.grid.height < 2147483648)
  (hraw : ∀ p, (f.grid.get p).raw < UInt32.size)
  (hnames : ((rs.get f.registry).entries.map (·.name)).Nodup)

include hw hh hraw

omit hnames in
/-- The names in the document are those of the painted codes. -/
theorem get?_components (k n : String) : (f.toDocument rs).components.get? k = some n ↔
    ∃ p e, (rs.get f.registry).lookup? (f.grid.get p) = some e ∧
      toString (f.grid.get p).raw = k ∧ e.name = n := by
  have hexact : f.grid.Exact := Plane.exact_of_sides hw hh
  have hconfined : f.grid.Confined := Plane.confined_of_sides hw hh
  have hmem : ∀ k n, (k, n) ∈ (f.grid.occupied.filterMap fun e =>
        ((rs.get f.registry).lookup? e.2).map fun part => (toString e.2.raw, part.name)) ↔
      ∃ p e, (rs.get f.registry).lookup? (f.grid.get p) = some e ∧
        toString (f.grid.get p).raw = k ∧ e.name = n := by
    intro k n
    rw [List.mem_filterMap]
    constructor
    · intro h
      obtain ⟨⟨p, c⟩, hpc, he⟩ := h
      obtain ⟨rfl, -⟩ := (Grid.mem_occupied hexact hconfined).1 hpc
      obtain ⟨e, he, hkn⟩ := Option.map_eq_some_iff.1 he
      obtain ⟨hk, hn⟩ := Prod.mk.inj hkn
      exact ⟨p, e, he, hk, hn⟩
    · intro h
      obtain ⟨p, e, he, rfl, rfl⟩ := h
      have hne : f.grid.get p ≠ .empty := by
        intro hempty
        rw [hempty] at he
        cases he
      exact ⟨(p, f.grid.get p), (Grid.mem_occupied hexact hconfined).2 ⟨rfl, hne⟩,
        Option.map_eq_some_iff.2 ⟨e, he, rfl⟩⟩
  refine (KeyMap.get?_ofList fun k a b ha hb => ?_).trans (hmem k n)
  obtain ⟨p, e, he, hk, rfl⟩ := (hmem k a).1 ha
  obtain ⟨p', e', he', hk', rfl⟩ := (hmem k b).1 hb
  rw [code_eq_of_key (hraw p) (hraw p') (hk.trans hk'.symm)] at he
  rw [Option.some.inj (he.symm.trans he')]

omit hnames in
theorem mem_customCodes (saved : Nat) (n : String) : (saved, n) ∈ (f.toDocument rs).customCodes ↔
    ∃ p e, (rs.get f.registry).lookup? (f.grid.get p) = some e ∧ (f.grid.get p).raw = saved ∧
      e.name = n := by
  rw [Document.customCodes, List.mem_filterMap]
  constructor
  · intro h
    obtain ⟨⟨k, m⟩, hmem, he⟩ := h
    obtain ⟨p, e, he', rfl, rfl⟩ := (get?_components hw hh hraw k m).1 (KeyMap.mem_entries_iff.1 hmem)
    dsimp only at he
    rw [Decimal.parse?_toString (hraw p), Option.map_some] at he
    obtain ⟨hs, hn⟩ := Prod.mk.inj (Option.some.inj he)
    exact ⟨p, e, he', hs, hn⟩
  · intro h
    obtain ⟨p, e, he, rfl, rfl⟩ := h
    refine ⟨(toString (f.grid.get p).raw, e.name), KeyMap.mem_entries_iff.2
      ((get?_components hw hh hraw _ _).2 ⟨p, e, he, rfl, rfl⟩), ?_⟩
    dsimp only
    rw [Decimal.parse?_toString (hraw p), Option.map_some]

include hnames

/-- No code and no name stands twice in the document. -/
theorem customCodes_pairwise :
    (f.toDocument rs).customCodes.Pairwise fun a b => a.1 ≠ b.1 ∧ a.2 ≠ b.2 := by
  rw [Document.customCodes, List.pairwise_filterMap]
  refine (f.toDocument rs).components.sorted.imp_of_mem fun {a b} ha hb hlt s hs t ht => ?_
  obtain ⟨p, e, he, hk, hn⟩ := (get?_components hw hh hraw _ _).1 (KeyMap.mem_entries_iff.1 ha)
  obtain ⟨q, e', he', hk', hn'⟩ := (get?_components hw hh hraw _ _).1 (KeyMap.mem_entries_iff.1 hb)
  have hne : (f.grid.get p).raw ≠ (f.grid.get q).raw := by
    intro h
    exact KeyMap.ne_of_lt hlt (by rw [← hk, ← hk', h])
  dsimp only at hs ht
  rw [← hk, Decimal.parse?_toString (hraw p), Option.map_some, Option.some.injEq] at hs
  rw [← hk', Decimal.parse?_toString (hraw q), Option.map_some, Option.some.injEq] at ht
  subst hs
  subst ht
  refine ⟨hne, fun hname => hne ?_⟩
  rw [Registry.Stands.eq_of_name hnames (Registry.stands_iff_lookup?.2 he)
    (Registry.stands_iff_lookup?.2 he') (hn.trans (hname.trans hn'.symm))]

/-- The drawing that the document describes. -/
theorem ofDocument_toDocument (source : String → Source Drawing) (name : String) :
    ∃ g, Drawing.ofDocument source name (f.toDocument rs) =
        ⟨name, g, ⟨(f.toDocument rs).customCodes.map fun e => ⟨e.2, source e.2⟩⟩⟩ ∧
      g.width = f.grid.width ∧ g.height = f.grid.height ∧
      ∀ p, g.get p = if f.grid.get p = .empty then .empty else
        Drawing.rename ((f.toDocument rs).customCodes.zipIdx.map fun e => (e.1.1, .custom e.2))
          (f.grid.get p).raw := by
  have hexact : f.grid.Exact := Plane.exact_of_sides hw hh
  have hconfined : f.grid.Confined := Plane.confined_of_sides hw hh
  have hall := Drawing.registerAll_eq source (f.toDocument rs).customCodes
    (List.pairwise_map.2 ((customCodes_pairwise hw hh hraw hnames).imp And.right))
  have hwidth : (f.toDocument rs).width.toNat = f.grid.width :=
    UInt64.toNat_ofNat_of_lt' (hw.trans (by decide))
  have hheight : (f.toDocument rs).height.toNat = f.grid.height :=
    UInt64.toNat_ofNat_of_lt' (hh.trans (by decide))
  rw [Drawing.ofDocument, hall, hwidth, hheight]
  generalize (f.toDocument rs).customCodes.zipIdx.map _ = renamed
  refine ⟨_, rfl, Plane.width_setAll _ _, Plane.height_setAll _ _, fun p => ?_⟩
  have hblocks : ((f.toDocument rs).blocks.map fun e => (e.pos, Drawing.rename renamed e.block.toNat)) =
      f.grid.occupied.map fun e => (e.1, Drawing.rename renamed e.2.raw) := by
    rw [toDocument, List.map_map]
    apply List.map_congr_left
    intro e he
    obtain ⟨p, c⟩ := e
    obtain ⟨rfl, -⟩ := (Grid.mem_occupied hexact hconfined).1 he
    rw [Function.comp_apply, UInt32.toNat_ofNat_of_lt' (hraw p)]
  have hkeys : (f.grid.occupied.map fun e => (e.1, Drawing.rename renamed e.2.raw)).map (·.1) =
      f.grid.occupied.map (·.1) := by
    rw [List.map_map]
    rfl
  have hblank : (Grid.blank f.grid.width f.grid.height).Exact := hexact
  rw [hblocks]
  split
  case isTrue hempty =>
    refine (Plane.get_setAll_of_notMem hblank fun hmem => ?_).trans (Plane.get_fill _ _ p)
    rw [hkeys] at hmem
    obtain ⟨⟨q, c⟩, hq, rfl⟩ := List.mem_map.1 hmem
    obtain ⟨rfl, hne⟩ := (Grid.mem_occupied hexact hconfined).1 hq
    exact hne hempty
  case isFalse hne =>
    have hp : p ∈ f.grid.positions := Plane.mem_positions_of_get_ne hexact hconfined hne
    refine Plane.get_setAll_of_mem hblank hp ?_ (List.mem_map.2
      ⟨(p, f.grid.get p), (Grid.mem_occupied hexact hconfined).2 ⟨rfl, hne⟩, rfl⟩)
    rw [hkeys]
    exact Grid.occupied_nodup hexact hconfined

end Saved

end Field

namespace Drawing

theorem installEntries_names (rs : Registries) (entries : List (Entry Drawing)) :
    (installEntries rs entries).2.map (·.name) = entries.map (·.name) := by
  induction entries generalizing rs with
  | nil => 
    rw [installEntries]
    rfl
  | cons e entries ih =>
    obtain ⟨name, source⟩ := e
    rw [installEntries]
    exact congrArg (name :: ·) (ih _)

/-- A drawing is opened as a field with the same cells and the same names. -/
theorem install_eq (rs : Registries) (name : String) (g : Grid) (r : Registry Drawing) :
    ∃ rs' f, install rs ⟨name, g, r⟩ = (rs', f) ∧ f.name = name ∧ f.grid = g ∧
      (rs'.get f.registry).entries.map (·.name) = r.entries.map (·.name) := by
  obtain ⟨entries⟩ := r
  have hnames := installEntries_names rs entries
  rw [install]
  refine ⟨_, _, rfl, rfl, rfl, ?_⟩
  simp only [Registries.get, Array.getElem?_push_size, Option.getD_some]
  exact hnames

end Drawing

theorem MemoryFiles.read_write (m : MemoryFiles) (name text : String) :
    (m.write name text).read name = .ok text := by
  rw [read, write, KeyMap.get?_insert, if_pos Std.ReflOrd.compare_self]

/-- A document that can be read is opened, whatever its parts are. -/
theorem openDrawing_eq (files : FileSource) (host : ScriptHost) {name text : String}
    (h : files.read name = .ok text) : ∃ source, openDrawing files host [] name =
      .ok (Drawing.ofDocument source name (Document.parse text)) :=
  ⟨_, openDrawing_of_ok List.not_mem_nil h⟩

namespace Field

variable {rs rs' : Registries} {f f' : Field}

/-- What saving and opening a field gives: the same drawing, with the codes of the same names. -/
structure Reopens (rs : Registries) (f : Field) (name : String) (rs' : Registries) (f' : Field) :
    Prop where
  name_eq : f'.name = name
  width_eq : f'.grid.width = f.grid.width
  height_eq : f'.grid.height = f.grid.height
  fixed : ∀ p, (f.grid.get p).isCustom = false → f'.grid.get p = f.grid.get p
  custom : ∀ p, (f.grid.get p).isCustom = true →
    ∃ e e', (rs.get f.registry).lookup? (f.grid.get p) = some e ∧
      (rs'.get f'.registry).lookup? (f'.grid.get p) = some e' ∧ e'.name = e.name
  names_nodup : ((rs'.get f'.registry).entries.map (·.name)).Nodup
  mem_names : ∀ n, n ∈ (rs'.get f'.registry).entries.map (·.name) ↔
    ∃ p e, (rs.get f.registry).lookup? (f.grid.get p) = some e ∧ e.name = n

/-- Saving a field among any files and opening it again gives it back. -/
theorem openDocument_saved (m : MemoryFiles) (host : ScriptHost) (path : String)
    (hw : f.grid.width ≤ 2147483647) (hh : f.grid.height ≤ 2147483647)
    (hraw : ∀ p, (f.grid.get p).raw < UInt32.size)
    (hknown : ∀ p, (f.grid.get p).isCustom = true →
      ((rs.get f.registry).lookup? (f.grid.get p)).isSome = true)
    (hnames : ((rs.get f.registry).entries.map (·.name)).Nodup) :
    ∃ rs' f', openDocument (m.write path (f.toDocument rs).render).source host rs path =
      .ok (rs', f') ∧ Reopens rs f path rs' f' := by
  have hw := Nat.lt_succ_of_le hw
  have hh := Nat.lt_succ_of_le hh
  have hread : (m.write path (f.toDocument rs).render).source.read path =
      .ok (f.toDocument rs).render := m.read_write path _
  obtain ⟨source, hopen⟩ := openDrawing_eq _ host hread
  have hparse : Document.parse (f.toDocument rs).render = f.toDocument rs := by
    rw [Document.parse, Document.decode_render, Option.getD_some]
  obtain ⟨g, hdrawing, hwidth, hheight, hget⟩ := ofDocument_toDocument hw hh hraw hnames source path
  obtain ⟨rs', f', hinstall, hname, rfl, hentries⟩ := Drawing.install_eq rs path g
    ⟨(f.toDocument rs).customCodes.map fun e => ⟨e.2, source e.2⟩⟩
  have hcodes := customCodes_pairwise hw hh hraw hnames
  have hkeys : ((f.toDocument rs).customCodes.map (·.1)).Nodup :=
    List.pairwise_map.2 (hcodes.imp And.left)
  have hparts : (rs'.get f'.registry).entries.map (·.name) =
      (f.toDocument rs).customCodes.map (·.2) := by
    rw [hentries, List.map_map]
    rfl
  refine ⟨rs', f', ?_, hname, hwidth, hheight, fun p hp => ?_, fun p hp => ?_, ?_, fun n => ?_⟩
  · rw [openDocument, hopen, hparse, hdrawing, Except.map, hinstall]
  · rw [hget]
    split
    case isTrue hempty => exact hempty.symm
    case isFalse => rw [Drawing.rename, Code.ofRaw_raw, if_neg (by simp [hp])]
  · obtain ⟨e, he⟩ := Option.isSome_iff_exists.1 (hknown p hp)
    obtain ⟨j, hj⟩ := List.getElem?_of_mem ((mem_customCodes hw hh hraw _ _).2 ⟨p, e, he, rfl, rfl⟩)
    have hcode : f'.grid.get p = .custom j := by
      rw [hget, if_neg fun hempty => by rw [hempty] at hp; cases hp]
      exact Drawing.rename_registerAll hkeys hj (by rw [Code.ofRaw_raw, hp])
    have hname : ((rs'.get f'.registry).entries.map (·.name))[j]? = some e.name := by
      rw [hparts, List.getElem?_map, hj, Option.map_some]
    rw [List.getElem?_map, Option.map_eq_some_iff] at hname
    obtain ⟨e', he', hname⟩ := hname
    exact ⟨e, e', he, by rw [hcode]; exact he', hname⟩
  · rw [hparts]
    exact List.pairwise_map.2 (hcodes.imp And.right)
  · rw [hparts, List.mem_map]
    constructor
    · intro h
      obtain ⟨⟨saved, n⟩, hmem, rfl⟩ := h
      obtain ⟨p, e, he, -, hn⟩ := (mem_customCodes hw hh hraw _ _).1 hmem
      exact ⟨p, e, he, hn⟩
    · intro h
      obtain ⟨p, e, he, rfl⟩ := h
      exact ⟨_, (mem_customCodes hw hh hraw _ _).2 ⟨p, e, he, rfl, rfl⟩, rfl⟩

end Field

/-- The drawing with an inverter comes back also from a document that has the name of the inverter, and
so cannot be loaded as one. -/
theorem sampleField_saved : sampleField.grid.width ≤ 2147483647 ∧
    sampleField.grid.height ≤ 2147483647 ∧ ∃ rs' f',
      Field.openDocument (MemoryFiles.write {} "inverter"
          (sampleField.toDocument sampleRegistries).render).source ScriptHost.none sampleRegistries
        "inverter" = .ok (rs', f') ∧
      Field.Reopens sampleRegistries sampleField "inverter" rs' f' := by
  have hconfined : sampleField.grid.Confined := Plane.confined_of_sides (by decide) (by decide)
  have hraw := sampleField.grid.forall_get (P := fun c => c.raw < UInt32.size) (by decide) hconfined
    (by decide) (by decide)
  have hknown := sampleField.grid.forall_get
    (P := fun c => c.isCustom = true →
      ((sampleRegistries.get sampleField.registry).lookup? c).isSome = true)
    (by decide) hconfined (by decide) (by decide)
  exact ⟨by decide, by decide, Field.openDocument_saved {} ScriptHost.none "inverter" (by decide)
    (by decide) hraw hknown (List.nodup_singleton _)⟩

end GridCircuit
