import GridCircuit.Proofs.Mirror

/-!
# Running a drawing of built-in parts

The circuit built from a drawing of built-in parts, with clocks of period zero, goes through any run
of ticks and toggles as the drawing does: no tick fails, and after every run the levels at all cells
and the numbers on all displays are those of the snapshot.
-/

namespace GridCircuit

/-- A running circuit after some actions; none if a tick has failed. A toggle without a button does
nothing. -/
def Circuit.run (c : Circuit) : List Action → Option Circuit
  | [] => some c
  | .tick now :: actions =>
    match c.tick now with
    | (c, none) => run c actions
    | (_, some _) => none
  | .toggle n :: actions => run ((c.toggle? n).getD c) actions

/-- No cell holds a custom part. -/
def Grid.BuiltIn (g : Grid) : Prop := ∀ p ∈ g.positions, (g.get p).isCustom = false

instance (g : Grid) : Decidable g.BuiltIn := inferInstanceAs (Decidable (∀ _ ∈ _, _))

/-- The components that are made are built in, with clocks of period zero. -/
def Grid.MadeBuiltIn (g : Grid) (make : Code → Making) : Prop :=
  ∀ h ∈ g.heads, Kind.builtin? 0 (g.get h) = some (make (g.get h)).kind

variable {g : Grid} {make : Code → Making} {name : String} {s : Snapshot} {c : Circuit} {p : Pos}

/-- A fresh circuit is as dark as a fresh drawing. -/
theorem Mirrors.start (ha : g.AllMade make) (hb : g.MadeBuiltIn make) :
    Mirrors g (g.circuitOf name make) {} (g.circuitOf name make) := by
  constructor
  case shape => rfl
  case ticks => rfl
  case component =>
    intro i h hi
    refine ⟨g.componentOf name make i h, by rw [Grid.circuitOf_component ha, hi]; rfl, rfl, rfl, ?_⟩
    have hk := hb h (List.mem_of_getElem? hi)
    show Snapshot.Holds g {} h (make (g.get h)).kind
    generalize (make (g.get h)).kind = kind at hk
    rw [Snapshot.Holds]
    cases hc : g.get h <;> rw [hc] at hk <;> cases hk <;> simp [Kind.builtin?]
  case carries =>
    have hdark : ({} : Snapshot).signal g = fun _ => false := by
      funext p
      have hnone : ∀ o : Option Pos, o.any (fun _ => false) = false := by
        intro o
        cases o <;> rfl
      unfold Snapshot.signal
      split
      · exact hnone _
      · exact hnone _
      · exact hnone _
      · rfl
    constructor
    case connection =>
      intro id p hp
      exact ⟨_, Grid.circuitOf_connection_iff.2 ⟨p, hp, rfl⟩, rfl, rfl, by rw [hdark]⟩
    case size_eq => simpa using congrArg List.length (Grid.circuitOf_connections g name make)
  case quiet => exact fun _ _ => rfl

theorem Snapshot.Holds.isButton {h : Pos} {kind : Kind} (hk : s.Holds g h kind) :
    kind.isButton = decide (g.get h = .button) := by
  unfold Holds at hk
  split at hk
  case h_1 hc =>
    obtain ⟨phase, rfl, -⟩ := hk
    simp [hc, Kind.isButton]
  case h_2 hc =>
    obtain rfl := hk
    simp [hc, Kind.isButton]
  case h_3 hc =>
    obtain ⟨value, rfl, -⟩ := hk
    simp [hc, Kind.isButton]
  case h_4 => cases hc : g.get h <;> rw [hc] at hk <;> cases hk <;> simp [Kind.isButton]

/-- The buttons of the circuit are those of the drawing, in the same order. -/
theorem Mirrors.buttons (hM : Mirrors g (g.circuitOf name make) s c) (ha : g.AllMade make) :
    c.buttons.map (fun i => g.heads[i]?) = g.buttonHeads.map some := by
  have hlen : c.components.length = g.heads.length := by
    have hc : c.components.length = (g.circuitOf name make).components.length := by
      simpa [Circuit.shape] using congrArg List.length hM.shape
    have hb : (g.circuitOf name make).components.length = (g.builtHeads make).length := by
      simpa using congrArg List.length (Grid.circuitOf_components g name make)
    rw [hc, hb, Grid.builtHeads_eq ha]
  have hany : ∀ i : Nat, (c.components[i]?).any Component.isButton =
      (g.heads[i]?).any fun h => g.get h = .button := by
    intro i
    cases hi : g.heads[i]? with
    | none =>
      have hle := hlen ▸ List.getElem?_eq_none_iff.1 hi
      rw [List.getElem?_eq_none hle]
      rfl
    | some h =>
      obtain ⟨m, hm, -, -, hk⟩ := hM.component i h hi
      rw [hm]
      exact hk.isButton
  rw [Circuit.buttons, hlen]
  simp only [hany]
  exact map_getElem?_filter_range g.heads fun h => g.get h = .button

/-- The level of one class is turned over. -/
def Snapshot.flip (s : Snapshot) (b : Pos) : Snapshot :=
  { s with level := fun h => if h = b then !s.level h else s.level h }

/-- A button that is flipped is no clock, no flip-flop and no wire. -/
theorem Snapshot.Holds.flip {h b : Pos} {kind : Kind} (hk : s.Holds g h kind)
    (hb : g.get b = .button) : (s.flip b).Holds g h kind := by
  rw [Holds] at hk ⊢
  have hlevel : g.get h ≠ .button → (s.flip b).level h = s.level h := by
    intro hne
    apply if_neg
    intro he
    rw [he] at hne
    exact hne hb
  cases hc : g.get h <;> simp only [hc] at hk ⊢
  case clock => rwa [hlevel (by simp [hc])]
  case flipFlop => rwa [hlevel (by simp [hc])]
  all_goals exact hk

theorem Snapshot.signal_flip {b : Pos} (hb : g.get b = .button) :
    (s.flip b).signal g = s.signal g := by
  have hwire : ∀ p, (s.flip b).onWire g p = s.onWire g p := by
    intro p
    unfold onWire
    cases hs : g.wireSide? p with
    | none => rfl
    | some w =>
      have hne : w ≠ b := by
        intro he
        rw [← he, Grid.wireSide?_wire hs] at hb
        cases hb
      exact if_neg hne
  funext p
  rw [signal, signal, hwire]
  rfl

theorem Mirrors.flip (hM : Mirrors g (g.circuitOf name make) s c) {i : Nat} {b : Pos}
    (hi : g.heads[i]? = some b) (hb : g.get b = .button) :
    Mirrors g (g.circuitOf name make) (s.flip b)
      { c with components := c.components.modify i fun m => { m with level := !m.level } } := by
  constructor
  case shape => exact (Circuit.flip_shape c i).trans hM.shape
  case ticks => exact hM.ticks
  case quiet => exact hM.quiet
  case component =>
    intro j h hj
    obtain ⟨m, hm, hcells, hlevel, hk⟩ := hM.component j h hj
    have hiff : i = j ↔ h = b := by
      constructor
      · intro he
        exact Option.some.inj (hj.symm.trans (he ▸ hi))
      · intro he
        obtain ⟨hlt, hget⟩ := List.getElem?_eq_some_iff.1 hi
        obtain ⟨hlt', hget'⟩ := List.getElem?_eq_some_iff.1 hj
        exact (g.heads_nodup.getElem_inj_iff).1 ((hget.trans he.symm).trans hget'.symm)
    simp only [List.getElem?_modify, hm, Option.map_eq_map, Option.map_some, hiff]
    by_cases hh : h = b
    · rw [if_pos hh]
      refine ⟨_, rfl, hcells, ?_, hk.flip hb⟩
      rw [hlevel]
      exact (if_pos hh).symm
    · rw [if_neg hh]
      exact ⟨m, rfl, hcells, hlevel.trans (if_neg hh).symm, hk.flip hb⟩
  case carries =>
    rw [Snapshot.signal_flip hb]
    exact hM.carries

/-- A toggle of the circuit is a toggle of the snapshot. -/
theorem Mirrors.toggle (hM : Mirrors g (g.circuitOf name make) s c) (ha : g.AllMade make) (n : Nat) :
    Mirrors g (g.circuitOf name make) (s.toggle g n) ((c.toggle? n).getD c) := by
  have hn := congrArg (·[n]?) (hM.buttons ha)
  simp only [List.getElem?_map] at hn
  rw [Circuit.toggle?, Snapshot.toggle]
  cases hi : c.buttons[n]? with
  | none =>
    rw [hi, Option.map_none, eq_comm, Option.map_eq_none_iff] at hn
    rw [hn]
    exact hM
  | some i =>
    rw [hi, Option.map_some, eq_comm, Option.map_eq_some_iff] at hn
    obtain ⟨b, hbn, hib⟩ := hn
    have hb : g.get b = .button := of_decide_eq_true (List.mem_filter.1 (List.mem_of_getElem? hbn)).2
    rw [hbn]
    exact hM.flip hib.symm hb

/-- A circuit covers the cells that the one it started from covered. -/
theorem Mirrors.covered (hM : Mirrors g (g.circuitOf name make) s c) (ha : g.AllMade make) :
    c.components.map (·.cells) = g.heads.map g.classOf ∧
      c.connections.toList.map (·.pos) = g.junctions := by
  constructor
  · apply List.ext_getElem?
    intro i
    rw [List.getElem?_map, List.getElem?_map]
    cases hi : g.heads[i]? with
    | some h =>
      obtain ⟨m, hm, hcells, -⟩ := hM.component i h hi
      rw [hm, Option.map_some, Option.map_some, hcells]
    | none =>
      cases hm : c.components[i]? with
      | none => rfl
      | some m =>
        obtain ⟨h, hh, -⟩ := Grid.exists_component ha hM.shape hm
        rw [hi] at hh
        cases hh
  · apply List.ext_getElem?
    intro id
    rw [List.getElem?_map, Array.getElem?_toList]
    cases hp : g.junctions[id]? with
    | some p =>
      obtain ⟨k, hk, hpos, -, -⟩ := hM.carries.connection id p hp
      rw [hk, Option.map_some, hpos]
    | none =>
      have hlen := List.getElem?_eq_none_iff.1 hp
      rw [Array.getElem?_eq_none (hM.carries.size_eq ▸ hlen)]
      rfl

theorem Mirrors.covered_eq (hM : Mirrors g (g.circuitOf name make) s c) (ha : g.AllMade make) :
    c.covered = (g.circuitOf name make).covered := by
  obtain ⟨hcells, hpos⟩ := hM.covered ha
  rw [Circuit.covered, hpos, List.flatMap_def, hcells, ← List.flatMap_def, Grid.covered_circuitOf,
    Grid.builtHeads_eq ha]

theorem Mirrors.covered_nodup (hM : Mirrors g (g.circuitOf name make) s c) (ha : g.AllMade make) :
    c.covered.Nodup := by
  rw [hM.covered_eq ha]
  exact Grid.covered_nodup

theorem Mirrors.levelAt?_isSome (hM : Mirrors g (g.circuitOf name make) s c) (hf : Faithful make)
    (ha : g.AllMade make) (p : Pos) : (c.levelAt? p).isSome = true ↔ p ∈ g.positions ∧
      ((g.get p).isConnector = true ∨ g.get p = .cross ∨ (make (g.get p)).isOk = true) := by
  rw [Circuit.levelAt?_isSome, hM.covered_eq ha, Grid.covered_iff hf]

/-- A connection shows what it carries. -/
theorem Mirrors.levelAt?_junction (hM : Mirrors g (g.circuitOf name make) s c) (ha : g.AllMade make)
    (hp : p ∈ g.junctions) : c.levelAt? p = some (s.signal g p) := by
  obtain ⟨id, hid⟩ := List.getElem?_of_mem hp
  obtain ⟨k, hk, hpos, -, hactive⟩ := hM.carries.connection id p hid
  have hmem : k ∈ c.connections.toList := List.mem_of_getElem? (Array.getElem?_toList.trans hk)
  rw [← hpos, Circuit.levelAt?_connection (hM.covered_nodup ha) hmem, hactive, hpos]

/-- A component shows its level on all cells of its class. -/
theorem Mirrors.levelAt?_class (hM : Mirrors g (g.circuitOf name make) s c) (ha : g.AllMade make)
    (hp : p ∈ g.positions) (hg : (g.get p).groups = true) :
    c.levelAt? p = some (s.level (g.root p)) := by
  obtain ⟨i, hi⟩ := List.getElem?_of_mem (Grid.root_mem_heads hp hg)
  obtain ⟨m, hm, hcells, hlevel, -⟩ := hM.component i _ hi
  have hpm : p ∈ m.cells := by
    rw [hcells, Grid.classOf_root hp]
    exact Grid.self_mem_classOf hp
  rw [Circuit.levelAt?_component (hM.covered_nodup ha) (List.mem_of_getElem? hm) hpm, hlevel]

/-- Every cell shows the level that the snapshot says. -/
theorem Mirrors.levelAt? (hM : Mirrors g (g.circuitOf name make) s c) (hf : Faithful make)
    (ha : g.AllMade make) (p : Pos) : c.levelAt? p = s.observe g p := by
  have hsome := hM.levelAt?_isSome hf ha p
  unfold Snapshot.observe
  by_cases hp : p ∈ g.positions
  · rw [if_pos hp]
    have hj := fun hc => hM.levelAt?_junction ha (Grid.mem_junctions.2 ⟨hp, hc⟩)
    have hg := hM.levelAt?_class ha hp
    rw [Snapshot.signal] at hj
    cases hc : g.get p <;> simp only [hc] at hj hg hsome ⊢
    case empty =>
      rw [← Option.not_isSome_iff_eq_none, hsome]
      intro h
      obtain ⟨-, h | h | h⟩ := h
      · cases h
      · cases h
      · exact absurd (hf.groups _ h) (by decide)
    case input => exact hj (.inr rfl)
    case output => exact hj (.inr rfl)
    case clockInput => exact hj (.inr rfl)
    case cross => exact hj (.inl trivial)
    all_goals exact hg rfl
  · rw [if_neg hp, ← Option.not_isSome_iff_eq_none, hsome]
    exact fun h => hp h.1

theorem Snapshot.Holds.displayValue? {h : Pos} {m : Component} (hk : s.Holds g h m.kind) :
    m.displayValue?.map UInt64.toNat = if g.get h = .display then some (s.shown h) else none := by
  rw [Holds] at hk
  unfold Component.displayValue?
  split at hk
  case h_1 hc =>
    obtain ⟨phase, hkind, -⟩ := hk
    simp [hc, hkind]
  case h_2 hc => simp [hc, hk]
  case h_3 hc =>
    obtain ⟨value, hkind, hvalue⟩ := hk
    simp [hc, hkind, hvalue]
  case h_4 hclock hflip hdisplay =>
    rw [if_neg hdisplay]
    generalize m.kind = kind at hk
    cases hc : g.get h <;> rw [hc] at hk <;> cases hk <;> first | rfl | exact absurd hc hdisplay

/-- Every display shows the number that the snapshot says. -/
theorem Mirrors.displayValues (hM : Mirrors g (g.circuitOf name make) s c) (ha : g.AllMade make) :
    c.displayValues.map (fun e => (e.1, e.2.toNat)) = s.displays g := by
  have hone : c.components.map (fun m => m.displayValue?.map fun v => (m.firstCell, v.toNat)) =
      g.heads.map fun h => if g.get h = .display then some (h, s.shown h) else none := by
    apply List.ext_getElem?
    intro i
    rw [List.getElem?_map, List.getElem?_map]
    cases hi : g.heads[i]? with
    | none =>
      have hlen := congrArg List.length (hM.covered ha).1
      rw [List.length_map, List.length_map] at hlen
      have hle := hlen ▸ List.getElem?_eq_none_iff.1 hi
      rw [List.getElem?_eq_none hle]
      rfl
    | some h =>
      obtain ⟨m, hm, hcells, -, hk⟩ := hM.component i h hi
      obtain ⟨hpos, -, hroot⟩ := Grid.mem_heads.1 (List.mem_of_getElem? hi)
      have hfirst : m.firstCell = h := by
        rw [Component.firstCell, hcells, Grid.headD_classOf hpos, hroot]
      have hvalue := hk.displayValue?
      have hpair : m.displayValue?.map (fun v => (h, v.toNat)) =
          (m.displayValue?.map UInt64.toNat).map fun n => (h, n) := by
        rw [Option.map_map]
        rfl
      rw [hm, Option.map_some, Option.map_some, hfirst, hpair, hvalue]
      split <;> rfl
  have hlist := congrArg (List.filterMap id) hone
  rw [List.filterMap_map, List.filterMap_map] at hlist
  rw [Circuit.displayValues, List.map_filterMap, Snapshot.displays, ← List.filterMap_eq_map,
    List.filterMap_filter]
  refine Eq.trans (List.filterMap_congr fun m _ => ?_) (hlist.trans
    (List.filterMap_congr fun h _ => ?_))
  · simp [Option.map_map, Function.comp_def]
  · simp

/-- The circuit and the snapshot go through any run side by side. -/
theorem Mirrors.run (hf : Faithful make) (ha : g.AllMade make) :
    ∀ (actions : List Action) (s : Snapshot) (c : Circuit), Mirrors g (g.circuitOf name make) s c →
      ∃ c', c.run actions = some c' ∧ Mirrors g (g.circuitOf name make) (s.run g actions) c' := by
  intro actions
  induction actions with
  | nil => exact fun s c hM => ⟨c, rfl, hM⟩
  | cons action actions ih =>
    intro s c hM
    cases action with
    | tick now =>
      obtain ⟨c', hc', hM'⟩ := hM.tick hf ha now
      rw [Circuit.run, hc']
      exact ih _ c' hM'
    | toggle n => exact ih _ _ (hM.toggle ha n)

namespace Field

variable {rs : Registries} {clockPeriod depth : Nat} {f : Field}

theorem maker_builtin {c : Code} {kind : Kind} (hk : Kind.builtin? clockPeriod c = some kind) :
    f.maker rs clockPeriod depth c = .ok (kind, []) := by
  cases depth <;> simp [maker, Registry.make, hk]

/-- In a drawing of built-in parts every class is made, from nothing but its code. -/
theorem maker_of_mem_heads (rs : Registries) (clockPeriod depth : Nat) (hb : f.grid.BuiltIn) {h : Pos}
    (hh : h ∈ f.grid.heads) :
    ∃ kind, Kind.builtin? clockPeriod (f.grid.get h) = some kind ∧
      f.maker rs clockPeriod depth (f.grid.get h) = .ok (kind, []) := by
  obtain ⟨hpos, hgroups, -⟩ := Grid.mem_heads.1 hh
  have hcustom := hb h hpos
  have hkind : ∃ kind, Kind.builtin? clockPeriod (f.grid.get h) = some kind := by
    generalize f.grid.get h = code at hgroups hcustom
    cases code with
    | custom index => exact absurd hcustom (by simp [Code.isCustom, Code.customIndex?])
    | empty | input | output | clockInput | cross => exact absurd hgroups (by decide)
    | _ => exact ⟨_, rfl⟩
  obtain ⟨kind, hk⟩ := hkind
  exact ⟨kind, hk, maker_builtin hk⟩

theorem allMade_of_builtIn (rs : Registries) (clockPeriod depth : Nat) (hb : f.grid.BuiltIn) :
    f.grid.AllMade (f.maker rs clockPeriod depth) := by
  intro p hp hg
  obtain ⟨kind, -, hm⟩ := maker_of_mem_heads rs clockPeriod depth hb (Grid.root_mem_heads hp hg)
  rw [Grid.get_root hp] at hm
  rw [hm]
  rfl

/-- A drawing of built-in parts is built without issues, and its circuit runs as the drawing does:
through every run of ticks and toggles no tick fails, and afterwards the levels at all cells, the
numbers on all displays and the number of ticks are those of the drawing. -/
theorem run_eq_snapshot (rs : Registries) (f : Field) (he : f.grid.Labellable)
    (hb : f.grid.BuiltIn) :
    ∃ b, f.build rs 0 = .ok b ∧ b.issues = [] ∧ ∀ actions : List Action,
      ∃ c, b.circuit.run actions = some c ∧
        (∀ p, c.levelAt? p = (Snapshot.run f.grid {} actions).observe f.grid p) ∧
        c.displayValues.map (fun e => (e.1, e.2.toNat)) =
          (Snapshot.run f.grid {} actions).displays f.grid ∧
        c.ticks = (Snapshot.run f.grid {} actions).ticks := by
  have hbuild : f.build rs 0 = .ok _ :=
    (buildWithin_eq rs 0 maxNesting f).trans (Grid.build_eq he.exact f.name _)
  have hf := f.maker_faithful rs 0 maxNesting
  have hmade : f.grid.MadeBuiltIn (f.maker rs 0 maxNesting) := by
    intro h hh
    obtain ⟨kind, hk, hm⟩ := maker_of_mem_heads rs 0 maxNesting hb hh
    rw [hm, hk]
    rfl
  have ha := allMade_of_builtIn rs 0 maxNesting hb
  refine ⟨_, hbuild, ?_, fun actions => ?_⟩
  · apply List.flatMap_eq_nil_iff.2
    intro h hh
    obtain ⟨kind, -, hm⟩ := maker_of_mem_heads rs 0 maxNesting hb hh
    rw [Grid.issuesAt, hm]
  · obtain ⟨c, hc, hM⟩ := Mirrors.run hf ha actions {} _ (.start ha hmade)
    exact ⟨c, hc, hM.levelAt? hf ha, hM.displayValues ha, hM.ticks⟩

end Field

/-- A button whose wire leads to a display. -/
def sampleLamp : Field where
  name := "lamp"
  grid := ⟨5, 1, #v[.button, .output, .wire, .input, .display]⟩
  registry := ⟨0⟩

theorem sampleLamp_run : sampleLamp.grid.Labellable ∧ sampleLamp.grid.BuiltIn ∧
    ∃ b, sampleLamp.build {} 0 = .ok b ∧ b.issues = [] ∧ ∀ actions : List Action,
      ∃ c, b.circuit.run actions = some c ∧
        (∀ p, c.levelAt? p = (Snapshot.run sampleLamp.grid {} actions).observe sampleLamp.grid p) ∧
        c.displayValues.map (fun e => (e.1, e.2.toNat)) =
          (Snapshot.run sampleLamp.grid {} actions).displays sampleLamp.grid ∧
        c.ticks = (Snapshot.run sampleLamp.grid {} actions).ticks :=
  ⟨by decide, by decide, Field.run_eq_snapshot {} sampleLamp (by decide) (by decide)⟩

end GridCircuit
