import GridCircuit.Proofs.Renaming
import GridCircuit.Proofs.SideBySide
import GridCircuit.Proofs.Wiring

/-!
# Pasting

A drawing that is pasted where there is room for it does there what it does alone, and so does what
was there before.
-/

namespace GridCircuit

section Offsets

variable {α β : Type} {g : Plane α} {s : Plane β} {p q corner : Pos}

theorem saturatingAdd_toInt_of_lt {a b : Int32} (hl : 0 ≤ (Pos.saturatingAdd a b).toInt)
    (hu : (Pos.saturatingAdd a b).toInt < 2147483647) :
    (Pos.saturatingAdd a b).toInt = a.toInt + b.toInt := by
  have hmin : Int32.minValue.toInt = -2147483648 := rfl
  have hmax : Int32.maxValue.toInt = 2147483647 := rfl
  rw [Pos.saturatingAdd, Int32.ofIntClamp] at hl hu
  split at hl
  case isTrue hlow =>
    split at hl
    case isTrue hhigh => exact saturatingAdd_toInt (by omega) (by omega)
    case isFalse hhigh =>
      rw [dif_pos hlow, dif_neg hhigh] at hu
      omega
  case isFalse => omega

/-- A sum that lies in a plane is no saturated one. -/
theorem Pos.toInt_offset_of_mem (h : p.offset corner ∈ g.positions) :
    (p.offset corner).x.toInt = p.x.toInt + corner.x.toInt ∧
      (p.offset corner).y.toInt = p.y.toInt + corner.y.toInt := by
  obtain ⟨hx0, hx, hy0, hy⟩ := Plane.mem_positions.1 h
  have hx' : (p.offset corner).x.toInt < 2147483647 := by
    have hc := g.columns_lt
    omega
  have hy' : (p.offset corner).y.toInt < 2147483647 := by
    have hr := g.rows_lt
    omega
  exact ⟨saturatingAdd_toInt_of_lt hx0 hx', saturatingAdd_toInt_of_lt hy0 hy'⟩

theorem Pos.eq_of_offset (hp : p.offset corner ∈ g.positions)
    (h : p.offset corner = q.offset corner) : p = q := by
  obtain ⟨hpx, hpy⟩ := toInt_offset_of_mem hp
  obtain ⟨hqx, hqy⟩ := toInt_offset_of_mem (h ▸ hp)
  rw [h] at hpx hpy
  exact Pos.eq_of_toInt (by omega) (by omega)

theorem Plane.place_offset_lt (hp : p ∈ s.positions) (hq : q ∈ s.positions)
    (hp' : p.offset corner ∈ g.positions) (hq' : q.offset corner ∈ g.positions)
    (h : s.place p < s.place q) : g.place (p.offset corner) < g.place (q.offset corner) := by
  obtain ⟨hpx, hpy⟩ := Pos.toInt_offset_of_mem hp'
  obtain ⟨hqx, hqy⟩ := Pos.toInt_offset_of_mem hq'
  rw [place_lt_iff hp hq] at h
  rw [place_lt_iff hp' hq']
  omega

/-- Steps commute with offsets that stay in a plane. -/
theorem Pos.neighbors_offset (hp : p ∈ s.positions) (hp' : p.offset corner ∈ g.positions) :
    p.neighbors.map (·.offset corner) = (p.offset corner).neighbors := by
  obtain ⟨hx, hy⟩ := toInt_offset_of_mem hp'
  obtain ⟨hx0, hxc, hy0, hyr⟩ := Plane.mem_positions.1 hp'
  have hc := g.columns_lt
  have hr := g.rows_lt
  have hstep : ∀ d : Pos, (-1 ≤ d.x.toInt ∧ d.x.toInt ≤ 1) → (-1 ≤ d.y.toInt ∧ d.y.toInt ≤ 1) →
      (p.offset d).offset corner = (p.offset corner).offset d := by
    intro d hdx hdy
    obtain ⟨hx₁, hy₁⟩ := p.offset_toInt hp hdx hdy
    obtain ⟨hx₂, hy₂⟩ := (p.offset corner).offset_toInt hp' hdx hdy
    have hx₃ : ((p.offset d).offset corner).x.toInt = (p.offset d).x.toInt + corner.x.toInt :=
      saturatingAdd_toInt (by omega) (by omega)
    have hy₃ : ((p.offset d).offset corner).y.toInt = (p.offset d).y.toInt + corner.y.toInt :=
      saturatingAdd_toInt (by omega) (by omega)
    exact eq_of_toInt (by omega) (by omega)
  simp only [neighbors, List.map_cons, List.map_nil, up, left, down, right]
  rw [hstep _ (by decide) (by decide), hstep _ (by decide) (by decide),
    hstep _ (by decide) (by decide), hstep _ (by decide) (by decide)]

end Offsets

namespace Grid

variable {dest src s : Grid} {corner p q : Pos} {c : Code} {ρ : Code → Code}

/-- Every painted cell lands inside, on an empty cell with empty cells around it. -/
structure Clear (dest src : Grid) (corner : Pos) : Prop where
  inside : ∀ p, src.get p ≠ .empty → p.offset corner ∈ dest.positions
  free : ∀ p, src.get p ≠ .empty → dest.get (p.offset corner) = .empty
  beside : ∀ p, src.get p ≠ .empty → ∀ q ∈ (p.offset corner).neighbors, dest.get q = .empty

theorem Clear.of_positions (he : src.Exact) (hc : src.Confined)
    (h : ∀ p ∈ src.positions, src.get p ≠ .empty → p.offset corner ∈ dest.positions ∧
      dest.get (p.offset corner) = .empty ∧
      ∀ q ∈ (p.offset corner).neighbors, dest.get q = .empty) : Clear dest src corner where
  inside := fun p hp => (h p (Plane.mem_positions_of_get_ne he hc hp) hp).1
  free := fun p hp => (h p (Plane.mem_positions_of_get_ne he hc hp) hp).2.1
  beside := fun p hp => (h p (Plane.mem_positions_of_get_ne he hc hp) hp).2.2

theorem occupied_eq (he : s.Exact) (hc : s.Confined) :
    s.occupied = (s.positions.map fun p => (p, s.get p)).filter fun e => !e.2.isEmpty :=
  Plane.filter_entries he hc fun _ => rfl

theorem mem_occupied (he : s.Exact) (hc : s.Confined) :
    (p, c) ∈ s.occupied ↔ s.get p = c ∧ c ≠ .empty := by
  rw [occupied_eq he hc, List.mem_filter, List.mem_map]
  have hempty : (!c.isEmpty) = true ↔ c ≠ .empty := by
    rw [Code.isEmpty, Bool.not_eq_true', decide_eq_false_iff_not]
  rw [hempty]
  constructor
  · intro h
    obtain ⟨⟨q, -, hq⟩, hne⟩ := h
    obtain ⟨rfl, rfl⟩ := Prod.mk.inj hq
    exact ⟨rfl, hne⟩
  · intro h
    obtain ⟨rfl, hne⟩ := h
    exact ⟨⟨p, Plane.mem_positions_of_get_ne he hc hne, rfl⟩, hne⟩

theorem occupied_nodup (he : s.Exact) (hc : s.Confined) : (s.occupied.map (·.1)).Nodup := by
  rw [occupied_eq he hc, List.filter_map, List.map_map]
  have hid : (Prod.fst ∘ fun p => (p, s.get p)) = id := rfl
  rw [hid, List.map_id]
  exact s.positions_nodup.filter _

section Overlay

variable (hd : dest.Exact) (he : s.Exact) (hc : s.Confined)
  (hin : ∀ p, s.get p ≠ .empty → p.offset corner ∈ dest.positions)

include hd he hc hin

theorem overlay_get_landing (hp : s.get p ≠ .empty) :
    (dest.overlay s corner).get (p.offset corner) = s.get p := by
  refine Plane.get_setAll_of_mem hd (hin p hp) ?_ ?_
  · rw [List.map_map]
    have hfst : Prod.fst ∘ (fun e : Pos × Code => (e.1.offset corner, e.2)) =
        (·.offset corner) ∘ Prod.fst := rfl
    rw [hfst, ← List.map_map]
    refine (occupied_nodup he hc).map_on fun p hp q hq h => ?_
    obtain ⟨⟨p', c⟩, hmem, rfl⟩ := List.mem_map.1 hp
    obtain ⟨rfl, hne⟩ := (mem_occupied he hc).1 hmem
    exact Pos.eq_of_offset (hin _ hne) h
  · exact List.mem_map.2 ⟨(p, s.get p), (mem_occupied he hc).2 ⟨rfl, hp⟩, rfl⟩

omit hin in
theorem overlay_get_other (hq : ∀ p, s.get p ≠ .empty → p.offset corner ≠ q) :
    (dest.overlay s corner).get q = dest.get q := by
  refine Plane.get_setAll_of_notMem hd fun hmem => ?_
  rw [List.map_map] at hmem
  obtain ⟨⟨p, c⟩, hpc, rfl⟩ := List.mem_map.1 hmem
  obtain ⟨rfl, hne⟩ := (mem_occupied he hc).1 hpc
  exact hq p hne rfl

end Overlay

theorem ne_empty_of_live {make : Code → Making} (hf : Faithful make) (hp : s.Live make p) :
    s.get p ≠ .empty := by
  intro hempty
  obtain ⟨-, hc | hc | hok⟩ := hp
  · rw [hempty] at hc
    cases hc
  · rw [hempty] at hc
    cases hc
  · rw [hempty] at hok
    cases hf.groups _ hok

/-- What is pasted over a drawing: the cells of another one with their codes carried over. -/
structure Pasted (dest src s : Grid) (corner : Pos) (ρ : Code → Code) : Prop where
  exact_dest : dest.Exact
  exact_src : src.Exact
  confined_src : src.Confined
  exact_pasted : s.Exact
  confined_pasted : s.Confined
  get_eq : ∀ p, s.get p = ρ (src.get p)
  clear : Clear dest src corner

namespace Pasted

variable {makeSrc makeDest : Code → Making} (h : Pasted dest src s corner ρ)
  (hρ : CarriesOver ρ makeSrc makeDest) (hf : Faithful makeSrc) (hf' : Faithful makeDest)

include h hρ

theorem ne_empty (hp : s.get p ≠ .empty) : src.get p ≠ .empty := by
  intro hempty
  rw [h.get_eq, hempty, hρ.fixed _ rfl] at hp
  exact hp rfl

theorem get_landing (hp : src.get p ≠ .empty) :
    (dest.overlay s corner).get (p.offset corner) = ρ (src.get p) := by
  have hin : ∀ p, s.get p ≠ .empty → p.offset corner ∈ dest.positions :=
    fun p hp => h.clear.inside p (h.ne_empty hρ hp)
  by_cases hs : s.get p = .empty
  · rw [overlay_get_other h.exact_dest h.exact_pasted h.confined_pasted, h.clear.free p hp,
      ← h.get_eq, hs]
    intro q hq he
    exact hq (Pos.eq_of_offset (hin q hq) he ▸ hs)
  · rw [overlay_get_landing h.exact_dest h.exact_pasted h.confined_pasted hin hs, h.get_eq]

theorem get_other (hq : ∀ p, src.get p ≠ .empty → p.offset corner ≠ q) :
    (dest.overlay s corner).get q = dest.get q :=
  overlay_get_other h.exact_dest h.exact_pasted h.confined_pasted
    fun p hp => hq p (h.ne_empty hρ hp)

/-- A painted cell of the drawing below stays. -/
theorem get_free (hq : dest.get q ≠ .empty) : (dest.overlay s corner).get q = dest.get q :=
  h.get_other hρ fun p hp he => hq (he ▸ h.clear.free p hp)

/-- A cell of the whole is one of the two drawings'. -/
theorem get_cases (q : Pos) :
    (∃ p, src.get p ≠ .empty ∧ p.offset corner = q ∧
        (dest.overlay s corner).get q = ρ (src.get p)) ∨
      (∀ p, src.get p ≠ .empty → p.offset corner ≠ q) ∧
        (dest.overlay s corner).get q = dest.get q := by
  by_cases hq : ∃ p, src.get p ≠ .empty ∧ p.offset corner = q
  · obtain ⟨p, hp, rfl⟩ := hq
    exact .inl ⟨p, hp, rfl, h.get_landing hρ hp⟩
  · have hq' : ∀ p, src.get p ≠ .empty → p.offset corner ≠ q := fun p hp he => hq ⟨p, hp, he⟩
    exact .inr ⟨hq', h.get_other hρ hq'⟩

omit h hρ in
theorem positions_overlay (dest s : Grid) (corner : Pos) :
    (dest.overlay s corner).positions = dest.positions := by
  rw [overlay, Plane.positions, Plane.bounds_setAll]

omit h hρ in
theorem place_overlay (dest s : Grid) (corner : Pos) (p : Pos) :
    (dest.overlay s corner).place p = dest.place p := by
  rw [overlay, Plane.place, Plane.width_setAll, Plane.place]

/-- A live cell of the whole at a painted cell of the pasted drawing is live in that. -/
theorem live_of_landing (hp : src.get p ≠ .empty)
    (hl : (dest.overlay s corner).Live makeDest (p.offset corner)) : src.Live makeSrc p := by
  refine ⟨Plane.mem_positions_of_get_ne h.exact_src h.confined_src hp, hρ.back _ ?_⟩
  rw [← h.get_landing hρ hp]
  exact hl.2

include hf hf'

/-- The pasted drawing lies in the whole. -/
theorem embeds : Embeds (·.offset corner) ρ src makeSrc (dest.overlay s corner) makeDest where
  recodes := hρ.toRecodes
  get_eq := fun p hp => h.get_landing hρ (ne_empty_of_live hf hp)
  mem := by
    intro p hp
    rw [positions_overlay]
    exact h.clear.inside p (ne_empty_of_live hf hp)
  injective := fun p q hp _ he =>
    Pos.eq_of_offset (h.clear.inside p (ne_empty_of_live hf hp)) he
  order := by
    intro p q hp hq hlt
    rw [place_overlay, place_overlay]
    exact Plane.place_offset_lt hp.1 hq.1 (h.clear.inside p (ne_empty_of_live hf hp))
      (h.clear.inside q (ne_empty_of_live hf hq)) hlt
  neighbors := fun p hp =>
    Pos.neighbors_offset hp.1 (h.clear.inside p (ne_empty_of_live hf hp))
  beside := by
    intro p hp q hq hl
    have hne := ne_empty_of_live hf hp
    obtain ⟨p', hp', he, -⟩ | ⟨-, hget⟩ := h.get_cases hρ (q.offset corner)
    · obtain rfl := Pos.eq_of_offset (h.clear.inside p' hp') he
      exact h.live_of_landing hρ hp' hl
    · have hmem : q.offset corner ∈ (p.offset corner).neighbors := by
        rw [← Pos.neighbors_offset hp.1 (h.clear.inside p hne)]
        exact List.mem_map_of_mem hq
      exact absurd (hget.trans (h.clear.beside p hne _ hmem)) (ne_empty_of_live hf' hl)

omit hf in
/-- So does the drawing over which it is pasted. -/
theorem embeds_dest : Embeds id id dest makeDest (dest.overlay s corner) makeDest where
  recodes := (CarriesOver.refl makeDest).toRecodes
  get_eq := fun q hq => h.get_free hρ (ne_empty_of_live hf' hq)
  mem := by
    intro p hp
    rw [positions_overlay]
    exact hp.1
  injective := fun _ _ _ _ he => he
  order := by
    intro p q _ _ hlt
    rw [place_overlay, place_overlay]
    exact hlt
  neighbors := fun _ _ => List.map_id _
  beside := by
    intro p hp q hq hl
    obtain ⟨x, hx, rfl, -⟩ | ⟨-, hget⟩ := h.get_cases hρ q
    · have hmem := Pos.neighbors_symm hp.1 (h.clear.inside x hx) hq
      exact absurd (h.clear.beside x hx p hmem) (ne_empty_of_live hf' hp)
    · rw [id, Live, positions_overlay, hget] at hl
      exact hl

/-- The two drawings are all that there is. -/
theorem fills : Fills (·.offset corner) id src makeSrc dest makeDest (dest.overlay s corner)
    makeDest where
  apart := by
    rintro p q hp hq rfl
    exact ne_empty_of_live hf' hq (h.clear.free p (ne_empty_of_live hf hp))
  cover := by
    intro P hP
    obtain ⟨p, hp, rfl, -⟩ | ⟨-, hget⟩ := h.get_cases hρ P
    · exact .inl ⟨p, h.live_of_landing hρ hp hP, rfl⟩
    · rw [Live, positions_overlay, hget] at hP
      exact .inr ⟨P, hP, rfl⟩

end Pasted

end Grid

namespace Registries

variable {rs : Registries} {id id' : RegistryId}

theorem get_put (h : id.index < rs.all.size) (r : Registry Field) : (rs.put id r).get id = r := by
  rw [get, put, Array.getElem?_setIfInBounds_self_of_lt h, Option.getD_some]

theorem get_put_of_ne (h : id' ≠ id) (r : Registry Field) : (rs.put id r).get id' = rs.get id' := by
  have hne : id.index ≠ id'.index := fun he => h (congrArg RegistryId.mk he.symm)
  rw [get, put, Array.getElem?_setIfInBounds_ne hne, get]

end Registries

/-- How codes are made depends on the registry of the field only. -/
theorem Field.exists_maker (rs : Registries) (clockPeriod depth : Nat) :
    ∃ nest, ∀ f : Field,
      f.maker rs clockPeriod depth = (rs.get f.registry).make clockPeriod nest := by
  cases depth with
  | zero => exact ⟨fun name _ => .error (.tooDeep name), fun _ => rfl⟩
  | succ depth =>
    exact ⟨fun name inner => nestBuild name (buildWithin rs clockPeriod depth inner), fun _ => rfl⟩

theorem Grid.remap_eq_map (g : Grid) {f : Code → Code} (hf : f .empty = .empty) :
    g.remap f = g.map f := by
  have hstep : (fun c : Code => if c.isEmpty then (pure c : Id Code) else pure (f c)) =
      fun c => pure (f c) := by
    funext c
    split
    case isTrue hc => rw [of_decide_eq_true hc, hf]
    case isFalse => rfl
  rw [remap, remapM, hstep, Vector.mapM_pure]
  rfl

namespace Field

variable {rs : Registries} {dest src : Field} {corner : Pos}

theorem paste_exact (rs : Registries) (src : Field) (corner : Pos) (hd : dest.grid.Exact) :
    (paste rs dest src corner).2.grid.Exact := by
  have hoverlay : ∀ s, (dest.grid.overlay s corner).Exact := by
    intro s
    rwa [Plane.Exact, Grid.overlay, Plane.width_setAll, Plane.height_setAll]
  rw [paste]
  split <;> exact hoverlay _

/-- A drawing with a registry of its own brings its parts along. -/
theorem paste_foreign (f : Field) (corner : Pos) (h : f.registry ≠ src.registry) :
    paste rs f src corner =
      (rs.put f.registry ((rs.get f.registry).absorb (rs.get src.registry)).1,
        { f with grid := f.grid.overlay (src.grid.map
            (Registry.recode ((rs.get f.registry).absorb (rs.get src.registry)).2)) corner }) := by
  rw [paste, if_neg h]
  dsimp only
  rw [Grid.remap_eq_map src.grid rfl]

/-- What pasting does to the grid and to the codes. -/
theorem paste_cases (clockPeriod depth : Nat) (hd : dest.grid.Exact) (hs : src.grid.Exact)
    (hc : src.grid.Confined) (hclear : dest.grid.Clear src.grid corner)
    (hreg : dest.registry.index < rs.all.size)
    (hnames : ((rs.get src.registry).entries.map (·.name)).Nodup)
    (hsame : ∀ e ∈ (rs.get src.registry).entries, ∀ e',
      (rs.get dest.registry).find? e.name = some e' → e'.source = e.source) :
    ∃ s ρ, (paste rs dest src corner).2 = { dest with grid := dest.grid.overlay s corner } ∧
      dest.grid.Pasted src.grid s corner ρ ∧
      CarriesOver ρ (src.maker (paste rs dest src corner).1 clockPeriod depth)
        (dest.maker (paste rs dest src corner).1 clockPeriod depth) := by
  obtain ⟨nest, hmaker⟩ := exists_maker (paste rs dest src corner).1 clockPeriod depth
  rw [hmaker, hmaker]
  by_cases hr : dest.registry = src.registry
  · refine ⟨src.grid, id, ?_, ⟨hd, hs, hc, hs, hc, fun _ => rfl, hclear⟩, ?_⟩
    · rw [paste, if_pos hr]
    · rw [hr]
      exact .refl _
  · have hstands := Registry.absorb_stands hnames hsame
    rw [paste_foreign dest corner hr, Registries.get_put hreg, Registries.get_put_of_ne (Ne.symm hr)]
    exact ⟨_, _, rfl, ⟨hd, hs, hc, hs, hc.map rfl, Plane.get_map src.grid rfl, hclear⟩,
      Registry.recode_carries hnames hstands⟩

end Field

/-- A circuit shows on the painted cells of a grid, where they lie in another one, what the circuit of
the other grid shows there. -/
def Grid.SeenIn (s : Grid) (τ : Pos → Pos) (c c' : Circuit) : Prop :=
  ∀ p, s.get p ≠ .empty → c'.levelAt? (τ p) = c.levelAt? p ∧
    ∀ v, (τ p, v) ∈ c'.displayValues ↔ (p, v) ∈ c.displayValues

/-- Whatever happens to two drawings, the circuit of both shows on the cells of each what the circuit of
that one alone shows, or a tick fails in it and in one of the two. -/
def Grid.ActApart (src dest : Grid) (corner : Pos) (cs cd c : Circuit) : Prop :=
  ∀ events : List JointEvent,
    (∀ p, JointEvent.pressFirst p ∈ events → src.get p ≠ .empty) →
    (∀ q, JointEvent.pressSecond q ∈ events → dest.get q ≠ .empty) →
    (∃ cs' cd' c', cs.run (events.filterMap (JointEvent.inFirst cs)) = some cs' ∧
        cd.run (events.filterMap (JointEvent.inSecond cd)) = some cd' ∧
        c.run (events.filterMap (JointEvent.inWhole c (·.offset corner) id)) = some c' ∧
        src.SeenIn (·.offset corner) cs' c' ∧ dest.SeenIn id cd' c') ∨
      c.run (events.filterMap (JointEvent.inWhole c (·.offset corner) id)) = none ∧
        (cs.run (events.filterMap (JointEvent.inFirst cs)) = none ∨
          cd.run (events.filterMap (JointEvent.inSecond cd)) = none)

/-- A drawing that is pasted where there is room for it, and what was there before, do what they do
alone. -/
theorem Field.paste_actApart (rs : Registries) (clockPeriod : Nat) (dest src : Field) {corner : Pos}
    (hdest : dest.Labellable rs) (hsrc : src.Labellable rs) (hc : src.grid.Confined)
    (hclear : dest.grid.Clear src.grid corner) (hreg : dest.registry.index < rs.all.size)
    (hnames : ((rs.get src.registry).entries.map (·.name)).Nodup)
    (hsame : ∀ e ∈ (rs.get src.registry).entries, ∀ e',
      (rs.get dest.registry).find? e.name = some e' → e'.source = e.source) :
    ∃ bs bd b, src.build (paste rs dest src corner).1 clockPeriod = .ok bs ∧
      dest.build (paste rs dest src corner).1 clockPeriod = .ok bd ∧
      (paste rs dest src corner).2.build (paste rs dest src corner).1 clockPeriod = .ok b ∧
      (b.circuit.Untimed →
        src.grid.ActApart dest.grid corner bs.circuit bd.circuit b.circuit) := by
  have hd := hdest.grid.exact
  have hs := hsrc.grid.exact
  obtain ⟨s, ρ, hpaste, h, hρ⟩ :=
    paste_cases clockPeriod maxNesting hd hs hc hclear hreg hnames hsame
  have he := paste_exact rs src corner hd
  rw [hpaste] at he ⊢
  generalize (paste rs dest src corner).1 = rs' at hρ ⊢
  have hmaker : Field.maker rs' clockPeriod maxNesting { dest with grid := dest.grid.overlay s corner } =
      dest.maker rs' clockPeriod maxNesting := rfl
  obtain ⟨bs, hbs, hcs⟩ := buildWithin_circuitOf rs' clockPeriod maxNesting hs
  obtain ⟨bd, hbd, hcd⟩ := buildWithin_circuitOf rs' clockPeriod maxNesting hd
  obtain ⟨b, hb, hcb⟩ := buildWithin_circuitOf rs' clockPeriod maxNesting
    (f := { dest with grid := dest.grid.overlay s corner }) he
  have hf := src.maker_faithful rs' clockPeriod maxNesting
  have hf' := dest.maker_faithful rs' clockPeriod maxNesting
  refine ⟨bs, bd, b, hbs, hbd, hb, fun hu events hp hq => ?_⟩
  rw [hmaker] at hcb
  rw [hcb] at hu ⊢
  rw [hcs, hcd]
  have hlive : ∀ p, src.grid.get p ≠ .empty →
      (dest.grid.overlay s corner).Live (dest.maker rs' clockPeriod maxNesting) (p.offset corner) →
      src.grid.Live (src.maker rs' clockPeriod maxNesting) p := fun p hp => h.live_of_landing hρ hp
  have hfree : ∀ q, dest.grid.get q ≠ .empty →
      (dest.grid.overlay s corner).Live (dest.maker rs' clockPeriod maxNesting) q →
      dest.grid.Live (dest.maker rs' clockPeriod maxNesting) q := by
    intro q hq hl
    rwa [Grid.Live, Grid.Pasted.positions_overlay, h.get_free hρ hq] at hl
  obtain ⟨cs, cd, c, hcs, hcd, hc, hshow, hshow'⟩ | hfail :=
    (h.fills hρ hf hf').run (h.embeds hρ hf hf') (h.embeds_dest hρ hf') hf hf' hf' hu src.name dest.name
      (fun p hmem => hlive p (hp p hmem)) fun q hmem => hfree q (hq q hmem)
  · exact .inl ⟨cs, cd, c, hcs, hcd, hc, fun p hp => hshow p (hlive p hp),
      fun q hq => hshow' q (hfree q hq)⟩
  · exact .inr hfail

/-- A battery on a wire in the corner of a board with a registry of its own. -/
def sampleBoard : Field where
  name := "board"
  grid := ⟨6, 4, #v[.battery, .output, .wire, .empty, .empty, .empty,
    .empty, .empty, .empty, .empty, .empty, .empty,
    .empty, .empty, .empty, .empty, .empty, .empty,
    .empty, .empty, .empty, .empty, .empty, .empty]⟩
  registry := ⟨1⟩

theorem sampleBoard_clear : sampleBoard.grid.Clear sampleField.grid ⟨3, 2⟩ :=
  .of_positions (by decide) (Plane.confined_of_sides (by decide) (by decide)) (by decide)

/-- The inverter is known in both registries afterwards. -/
theorem sampleBoard_exact :
    Registries.Exact (sampleBoard.paste (sampleRegistries.add {}).1 sampleField ⟨3, 2⟩).1 := by
  have hall : (sampleBoard.paste (sampleRegistries.add {}).1 sampleField ⟨3, 2⟩).1.all =
      #[sampleRegistries.get ⟨0⟩, sampleRegistries.get ⟨0⟩] := rfl
  intro r hr
  rw [hall] at hr
  have hr : r = sampleRegistries.get ⟨0⟩ := by simpa using hr
  subst hr
  exact sampleRegistries_exact _ (Array.mem_singleton.2 rfl)

theorem sampleBoard_labellable : sampleBoard.Labellable (sampleRegistries.add {}).1 ∧
    sampleField.Labellable (sampleRegistries.add {}).1 := by
  have hparts : ∀ r ∈ (sampleRegistries.add {}).1.all, ∀ e ∈ r.entries, ∀ drawing,
      e.source = .circuit drawing → drawing.grid.Labellable := by
    simp [Registries.add, sampleRegistries]
    decide
  exact ⟨⟨by decide, hparts⟩, ⟨by decide, hparts⟩⟩

theorem sampleBoard_actApart : sampleBoard.Labellable (sampleRegistries.add {}).1 ∧
    sampleField.Labellable (sampleRegistries.add {}).1 ∧
    sampleField.grid.Confined ∧ sampleBoard.grid.Clear sampleField.grid ⟨3, 2⟩ ∧
    ∃ bs bd b,
      sampleField.build (sampleBoard.paste (sampleRegistries.add {}).1 sampleField ⟨3, 2⟩).1 0 =
        .ok bs ∧
      sampleBoard.build (sampleBoard.paste (sampleRegistries.add {}).1 sampleField ⟨3, 2⟩).1 0 =
        .ok bd ∧
      (sampleBoard.paste (sampleRegistries.add {}).1 sampleField ⟨3, 2⟩).2.build
        (sampleBoard.paste (sampleRegistries.add {}).1 sampleField ⟨3, 2⟩).1 0 = .ok b ∧
      b.circuit.Untimed ∧
      sampleField.grid.ActApart sampleBoard.grid ⟨3, 2⟩ bs.circuit bd.circuit b.circuit := by
  have hc : sampleField.grid.Confined := Plane.confined_of_sides (by decide) (by decide)
  have hnames : (((sampleRegistries.add {}).1.get sampleField.registry).entries.map
      (·.name)).Nodup := List.nodup_singleton _
  obtain ⟨bs, bd, b, hbs, hbd, hb, hrun⟩ :=
    Field.paste_actApart (sampleRegistries.add {}).1 0 sampleBoard sampleField sampleBoard_labellable.1
      sampleBoard_labellable.2 hc sampleBoard_clear (by decide) hnames fun e _ e' he' => by cases he'
  have hu : b.circuit.Untimed :=
    Field.buildWithin_untimed sampleBoard_exact maxNesting _ (Field.paste_exact _ _ _ (by decide)) b hb
  exact ⟨sampleBoard_labellable.1, sampleBoard_labellable.2, hc, sampleBoard_clear, bs, bd, b, hbs, hbd,
    hb, hu, hrun hu⟩

end GridCircuit
