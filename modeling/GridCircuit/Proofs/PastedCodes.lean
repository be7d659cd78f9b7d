import GridCircuit.Proofs.Merging
import GridCircuit.Proofs.Paste

/-!
# The codes that a paste leaves

Cell by cell, a paste writes the code that comes to lie on the cell, under the name it has, and leaves
the cell alone where no code comes. The place is meant exactly: offsets that leave the 32-bit range
bring nothing. A second paste of the same drawing to the same place finds everything done.
-/

namespace GridCircuit

namespace Plane

variable {α : Type} [Inhabited α] {g : Plane α} {s : Plane α} {p q corner : Pos}

/-- The value that comes to lie on `q` when the origin of a plane is put on `corner`, with no bound on
the coordinates; the default beside the plane. -/
def under (g : Plane α) (corner q : Pos) : α :=
  let x := q.x.toInt - corner.x.toInt
  let y := q.y.toInt - corner.y.toInt
  if 0 ≤ x ∧ x < g.width ∧ 0 ≤ y ∧ y < g.height then g.get ⟨Int32.ofInt x, Int32.ofInt y⟩
  else default

theorem under_offset (hp : p ∈ s.positions) (hq : p.offset corner ∈ g.positions) :
    s.under corner (p.offset corner) = s.get p := by
  obtain ⟨hx, hy⟩ := Pos.toInt_offset_of_mem hq
  obtain ⟨hx0, hxc, hy0, hyr⟩ := mem_positions.1 hp
  have hc := s.columns_le
  have hr := s.rows_le
  have hx' : (p.offset corner).x.toInt - corner.x.toInt = p.x.toInt := by omega
  have hy' : (p.offset corner).y.toInt - corner.y.toInt = p.y.toInt := by omega
  simp only [under, hx', hy', Int32.ofInt_toInt]
  exact if_pos ⟨hx0, by omega, hy0, by omega⟩

/-- What comes to lie on a cell of another plane comes from a cell whose offset is that cell. -/
theorem exists_of_under (hw : s.width < 2147483648) (hh : s.height < 2147483648)
    (hq : q ∈ g.positions) (h : s.under corner q ≠ default) :
    ∃ p ∈ s.positions, p.offset corner = q ∧ s.get p = s.under corner q := by
  have hinside : 0 ≤ q.x.toInt - corner.x.toInt ∧ q.x.toInt - corner.x.toInt < s.width ∧
      0 ≤ q.y.toInt - corner.y.toInt ∧ q.y.toInt - corner.y.toInt < s.height := by
    by_contra hout
    exact h (if_neg hout)
  have hunder : s.under corner q = s.get ⟨Int32.ofInt (q.x.toInt - corner.x.toInt),
      Int32.ofInt (q.y.toInt - corner.y.toInt)⟩ := if_pos hinside
  obtain ⟨hx0, hxw, hy0, hyh⟩ := hinside
  obtain ⟨x, hx⟩ := Int.eq_ofNat_of_zero_le hx0
  obtain ⟨y, hy⟩ := Int.eq_ofNat_of_zero_le hy0
  have hpx := toInt_ofInt_nat (n := x) (by omega)
  have hpy := toInt_ofInt_nat (n := y) (by omega)
  obtain ⟨hqx0, hqxc, hqy0, hqyr⟩ := mem_positions.1 hq
  have hcols := g.columns_lt
  have hrows := g.rows_lt
  rw [hx, hy] at hunder
  refine ⟨⟨Int32.ofInt x, Int32.ofInt y⟩, ?_, ?_, hunder.symm⟩
  · rw [mem_positions, columns_eq_width hw, rows_eq_height hh]
    dsimp only
    omega
  · have hsx : (Pos.saturatingAdd (Int32.ofInt x) corner.x).toInt = (Int32.ofInt x).toInt +
        corner.x.toInt := saturatingAdd_toInt (by omega) (by omega)
    have hsy : (Pos.saturatingAdd (Int32.ofInt y) corner.y).toInt = (Int32.ofInt y).toInt +
        corner.y.toInt := saturatingAdd_toInt (by omega) (by omega)
    refine Pos.eq_of_toInt ?_ ?_
    · show (Pos.saturatingAdd (Int32.ofInt x) corner.x).toInt = _
      omega
    · show (Pos.saturatingAdd (Int32.ofInt y) corner.y).toInt = _
      omega

theorem under_map (g : Plane α) {f : α → α} (hf : f default = default) (corner q : Pos) :
    (g.map f).under corner q = f (g.under corner q) := by
  simp only [under, get_map g hf, apply_ite f, hf]
  rfl

end Plane

namespace Grid

variable {dest s : Grid} {corner q : Pos}

/-- A painted cell covers the cell under it, and an empty one does not. -/
theorem overlay_get (hd : dest.Exact) (hw : s.width < 2147483648) (hh : s.height < 2147483648)
    (hq : q ∈ dest.positions) : (dest.overlay s corner).get q =
      if s.under corner q = .empty then dest.get q else s.under corner q := by
  have he : s.Exact := Plane.exact_of_sides hw hh
  have hc : s.Confined := Plane.confined_of_sides hw hh
  rw [overlay, Plane.get_setAll hd hq]
  cases hfind : (s.occupied.map fun e => (e.1.offset corner, e.2)).reverse.find? (·.1 = q) with
  | some w =>
    have hw' := List.mem_of_find?_eq_some hfind
    rw [List.mem_reverse, List.mem_map] at hw'
    obtain ⟨⟨p, c⟩, hpc, rfl⟩ := hw'
    obtain ⟨rfl, hne⟩ := (mem_occupied he hc).1 hpc
    have hpq := List.find?_some hfind
    obtain rfl : p.offset corner = q := of_decide_eq_true hpq
    rw [Plane.under_offset (Plane.mem_positions_of_get_ne he hc hne) hq, if_neg hne]
    rfl
  | none =>
    rw [List.find?_eq_none] at hfind
    have hempty : s.under corner q = .empty := by
      by_contra hne
      obtain ⟨p, -, rfl, hp⟩ := Plane.exists_of_under hw hh hq hne
      refine hfind (p.offset corner, s.under corner (p.offset corner)) ?_ (decide_eq_true rfl)
      rw [List.mem_reverse, List.mem_map]
      exact ⟨(p, _), (mem_occupied he hc).2 ⟨hp, hne⟩, rfl⟩
    rw [if_pos hempty]
    rfl

theorem overlay_overlay (g s : Grid) (corner : Pos) :
    (g.overlay s corner).overlay s corner = g.overlay s corner :=
  Plane.setAll_setAll g _

end Grid

namespace Registries

variable {rs : Registries} {id : RegistryId}

theorem put_put (rs : Registries) (id : RegistryId) (r : Registry Field) :
    (rs.put id r).put id r = rs.put id r := by
  rw [put, put, Array.setIfInBounds_setIfInBounds]

end Registries

namespace Field

variable {rs rs' : Registries} {dest src f : Field} {corner q : Pos}

/-- What a paste makes of two fields and their registries: codes follow their names, and nothing else
changes. -/
structure PastesByName (rs : Registries) (dest src : Field) (corner : Pos) (rs' : Registries)
    (f : Field) : Prop where
  name_eq : f.name = dest.name
  registry_eq : f.registry = dest.registry
  width_eq : f.grid.width = dest.grid.width
  height_eq : f.grid.height = dest.grid.height
  /-- A fixed code is written as it is. -/
  fixed : ∀ q ∈ dest.grid.positions, (src.grid.under corner q).isCustom = false →
    src.grid.under corner q ≠ .empty → f.grid.get q = src.grid.under corner q
  /-- So is every code of the registry that both fields share. -/
  shared : dest.registry = src.registry → ∀ q ∈ dest.grid.positions,
    src.grid.under corner q ≠ .empty → f.grid.get q = src.grid.under corner q
  /-- A named code of another registry is written as the code that the name has here now. -/
  named : dest.registry ≠ src.registry → ∀ q ∈ dest.grid.positions, ∀ e,
    (rs.get src.registry).lookup? (src.grid.under corner q) = some e →
      (rs'.get dest.registry).codeOf? e.name = some (f.grid.get q)
  /-- Where nothing comes, or a code without a name, the old code stays. -/
  kept : ∀ q ∈ dest.grid.positions, (src.grid.under corner q = .empty ∨
      dest.registry ≠ src.registry ∧ (src.grid.under corner q).isCustom = true ∧
        (rs.get src.registry).lookup? (src.grid.under corner q) = none) →
    f.grid.get q = dest.grid.get q
  /-- No two named codes become one. -/
  injective : dest.registry ≠ src.registry → ∀ c d e e' k,
    (rs.get src.registry).lookup? c = some e → (rs.get src.registry).lookup? d = some e' →
      (rs'.get dest.registry).codeOf? e.name = some k →
      (rs'.get dest.registry).codeOf? e'.name = some k → c = d
  /-- A part keeps its code and its name. It keeps its source, unless that is unresolved and the other
  registry has it resolved. -/
  entries : dest.registry ≠ src.registry → ∀ c e, (rs.get dest.registry).lookup? c = some e →
    ∃ e', (rs'.get dest.registry).lookup? c = some e' ∧ e'.name = e.name ∧
      (∀ known, (rs.get src.registry).find? e.name = some known → e.source.isResolved = false →
        known.source.isResolved = true → e'.source = known.source) ∧
      (¬(e.source.isResolved = false ∧ ∃ known, (rs.get src.registry).find? e.name = some known ∧
        known.source.isResolved = true) → e'.source = e.source)
  /-- New names come last, in the order of the other registry. -/
  names_eq : dest.registry ≠ src.registry → (rs'.get dest.registry).names =
    (rs.get dest.registry).names ++
      (rs.get src.registry).names.filter (· ∉ (rs.get dest.registry).names)
  /-- No name gets two codes. -/
  distinct : ∀ id, (rs.get id).names.Nodup → (rs'.get id).names.Nodup
  others : ∀ id, id ≠ dest.registry ∨ dest.registry = src.registry → rs'.get id = rs.get id
  /-- The same paste once more changes nothing. -/
  again : paste rs' f src corner = (rs', f)

section Cases

variable (hd : dest.grid.Exact) (hw : src.grid.width < 2147483648)
  (hh : src.grid.height < 2147483648)

include hd hw hh

theorem paste_shared (h : dest.registry = src.registry) :
    PastesByName rs dest src corner (paste rs dest src corner).1 (paste rs dest src corner).2 := by
  have hpaste : ∀ f : Field, f.registry = dest.registry →
      paste rs f src corner = (rs, { f with grid := f.grid.overlay src.grid corner }) :=
    fun f hf => if_pos (hf.trans h)
  have hget : ∀ q ∈ dest.grid.positions, (dest.grid.overlay src.grid corner).get q =
      if src.grid.under corner q = .empty then dest.grid.get q else src.grid.under corner q :=
    fun _ hq => Grid.overlay_get hd hw hh hq
  rw [hpaste dest rfl]
  constructor
  case name_eq => rfl
  case registry_eq => rfl
  case width_eq => exact Plane.width_setAll _ _
  case height_eq => exact Plane.height_setAll _ _
  case fixed => exact fun q hq _ hne => (hget q hq).trans (if_neg hne)
  case shared => exact fun _ q hq hne => (hget q hq).trans (if_neg hne)
  case kept =>
    intro q hq hc
    obtain hempty | ⟨hne, -⟩ := hc
    · exact (hget q hq).trans (if_pos hempty)
    · exact absurd h hne
  case named | injective | entries | names_eq => exact fun hne => absurd h hne
  case distinct => exact fun _ h => h
  case others => exact fun _ _ => rfl
  case again =>
    have hover := Grid.overlay_overlay dest.grid src.grid corner
    exact (hpaste { dest with grid := dest.grid.overlay src.grid corner } rfl).trans
      (congrArg (fun g => (rs, { dest with grid := g })) hover)

theorem paste_named (hreg : dest.registry.index < rs.all.size)
    (hdest : (rs.get dest.registry).names.Nodup) (hsrc : (rs.get src.registry).names.Nodup)
    (h : dest.registry ≠ src.registry) :
    PastesByName rs dest src corner (paste rs dest src corner).1 (paste rs dest src corner).2 := by
  have hput := Registries.get_put hreg ((rs.get dest.registry).absorb (rs.get src.registry)).1
  have hother : ∀ id, id ≠ dest.registry →
      (rs.put dest.registry ((rs.get dest.registry).absorb (rs.get src.registry)).1).get id =
        rs.get id := fun id hid => Registries.get_put_of_ne hid _
  have hget : ∀ q ∈ dest.grid.positions, (dest.grid.overlay (src.grid.map
      (Registry.recode ((rs.get dest.registry).absorb (rs.get src.registry)).2)) corner).get q =
        if Registry.recode ((rs.get dest.registry).absorb (rs.get src.registry)).2
            (src.grid.under corner q) = .empty then dest.grid.get q
          else Registry.recode ((rs.get dest.registry).absorb (rs.get src.registry)).2
            (src.grid.under corner q) := by
    intro q hq
    rw [← Plane.under_map src.grid (f := Registry.recode _) rfl]
    exact Grid.overlay_get hd hw hh hq
  rw [paste_foreign dest corner h]
  constructor
  case name_eq => rfl
  case registry_eq => rfl
  case width_eq => exact Plane.width_setAll _ _
  case height_eq => exact Plane.height_setAll _ _
  case fixed =>
    intro q hq hc hne
    refine (hget q hq).trans ?_
    rw [Registry.recode_fixed hc, if_neg hne]
  case shared => exact fun he => absurd he h
  case named =>
    intro _ q hq e he
    have hcode := Registry.codeOf?_recode (rs.get dest.registry) he
    have hpainted := (hget q hq).trans (if_neg (Registry.ne_empty_of_codeOf? hcode))
    rw [hput, hcode]
    exact congrArg some hpainted.symm
  case kept =>
    intro q hq hc
    refine (hget q hq).trans (if_pos ?_)
    obtain hempty | ⟨-, hcustom, hnone⟩ := hc
    · rw [hempty]
      rfl
    · exact Registry.recode_of_unnamed _ hcustom hnone
  case injective =>
    intro _ c d e e' k hc hd' hk hk'
    exact (Registry.stands_iff_lookup?.2 hc).eq_of_name hsrc (Registry.stands_iff_lookup?.2 hd')
      (Registry.name_eq_of_codeOf? hk hk')
  case entries =>
    intro _ c e he
    rw [hput]
    refine ⟨_, Registry.lookup?_absorb hdest hsrc he, Registry.name_refresh _ _, ?_, ?_⟩
    · intro known hknown hunresolved hresolved
      rw [Registry.refresh_eq_of_better hknown hunresolved hresolved]
    · intro hnot
      rw [Registry.refresh_eq_of_not_better hnot]
  case names_eq =>
    intro _
    rw [hput, Registry.names_absorb hdest hsrc]
  case distinct =>
    intro id hid
    by_cases heq : id = dest.registry
    · rw [heq, hput]
      exact Registry.nodup_names_absorb hdest hsrc
    · rwa [hother id heq]
  case others =>
    intro id hid
    obtain hid | he := hid
    · exact hother id hid
    · exact absurd he h
  case again =>
    rw [paste_foreign]
    case h => exact h
    dsimp only
    rw [hput, hother _ h.symm, Registry.absorb_absorb hdest hsrc, Registries.put_put,
      Grid.overlay_overlay]

end Cases

/-- Paste takes codes over by name, for all sizes that positions can count. -/
theorem paste_by_name (rs : Registries) (dest src : Field) (corner : Pos)
    (hdw : dest.grid.width < 2147483648) (hdh : dest.grid.height < 2147483648)
    (hsw : src.grid.width < 2147483648) (hsh : src.grid.height < 2147483648)
    (hreg : dest.registry.index < rs.all.size)
    (hdest : (rs.get dest.registry).names.Nodup) (hsrc : (rs.get src.registry).names.Nodup) :
    PastesByName rs dest src corner (paste rs dest src corner).1 (paste rs dest src corner).2 := by
  have hd : dest.grid.Exact := Plane.exact_of_sides hdw hdh
  by_cases h : dest.registry = src.registry
  · exact paste_shared hd hsw hsh h
  · exact paste_named hd hsw hsh hreg hdest hsrc h

end Field

/-- Two libraries that know an inverter, each under a code of its own; the first only by name. -/
def sampleLibraries : Registries :=
  ⟨#[⟨[⟨"inverter", .unresolved "missing"⟩, ⟨"lamp", .circuit sampleField⟩]⟩,
    ⟨[⟨"latch", .circuit sampleField⟩, ⟨"inverter", .circuit sampleField⟩]⟩]⟩

/-- A drawing with a code that its library has no name for. -/
def sampleStamp : Field where
  name := "stamp"
  grid := ⟨3, 2, #v[.and, .custom 0, .wire, .not, .custom 1, .custom 7]⟩
  registry := ⟨1⟩

theorem sampleField_pasted : sampleField.registry.index < sampleLibraries.all.size ∧
    (sampleLibraries.get sampleField.registry).names.Nodup ∧
    (sampleLibraries.get sampleStamp.registry).names.Nodup ∧
    (sampleField.paste sampleLibraries sampleStamp ⟨-1, 0⟩).2.grid.cells.toList =
      [.custom 2, .wire, .wire, .custom 0, .custom 0, .wire] ∧
    Field.PastesByName sampleLibraries sampleField sampleStamp ⟨-1, 0⟩
      (sampleField.paste sampleLibraries sampleStamp ⟨-1, 0⟩).1
      (sampleField.paste sampleLibraries sampleStamp ⟨-1, 0⟩).2 := by
  have hdest : (sampleLibraries.get sampleField.registry).names.Nodup := by decide
  have hsrc : (sampleLibraries.get sampleStamp.registry).names.Nodup := by decide
  exact ⟨by decide, hdest, hsrc, by decide +kernel,
    Field.paste_by_name sampleLibraries sampleField sampleStamp ⟨-1, 0⟩
      (by decide) (by decide) (by decide) (by decide) (by decide) hdest hsrc⟩

end GridCircuit
