import GridCircuit.Proofs.Inlined
import Mathlib.Data.List.InsertIdx

/-!
# Using a drawing as a component is laying it out in place

A built circuit with an inner circuit goes through any run of ticks and toggles of its buttons as the
circuit does in which the inner one is laid out in place: both fail or none does, and after every run
all components have the same levels and remember the same, scripts included, and all outer connections
carry the same. A signal takes as many ticks through the inner circuit either way.
-/

namespace GridCircuit

/-- The numbers of the elements that satisfy a condition, in two lists in a row. -/
theorem filter_range_append {α : Type} (P : α → Bool) (xs ys : List α) :
    ((List.range (xs ++ ys).length).filter fun i => (xs ++ ys)[i]?.any P) =
      ((List.range xs.length).filter fun i => xs[i]?.any P) ++
        ((List.range ys.length).filter fun i => ys[i]?.any P).map (xs.length + ·) := by
  rw [List.length_append, List.range_add, List.filter_append, List.filter_map]
  congr 1
  · apply List.filter_congr
    intro i hi
    rw [List.getElem?_append_left (List.mem_range.1 hi)]
  · congr 1
    apply List.filter_congr
    intro i _
    rw [Function.comp_apply, List.getElem?_append_right (Nat.le_add_right _ _),
      Nat.add_sub_cancel_left]

/-- What a component does and shows, up to the times that clocks note. -/
def Component.state (m : Component) : Kind × Bool := (m.timeless.kind, m.level)

theorem Component.timeless_state (m : Component) : m.timeless.state = m.state := by
  rw [state, state, m.timeless_timeless, m.timeless_shows.2.1]

theorem Component.timeless_kind_congr {m n : Component} (h : m.kind = n.kind) :
    m.timeless.kind = n.timeless.kind := by
  obtain ⟨code, kind, level, cells, inputs, outputs, clock⟩ := m
  obtain ⟨code', kind', level', cells', inputs', outputs', clock'⟩ := n
  obtain rfl : kind = kind' := h
  cases kind
  case nested pins inner =>
    cases inner
    rfl
  all_goals rfl

theorem Component.Copies.state {ψ : Nat → Nat} {m m' : Component} (h : m.Copies ψ m') :
    m'.state = m.state := by
  rw [Component.state, Component.state, timeless_kind_congr h.kind, h.level]

namespace Circuit

/-- No connection carries anything or has ever changed. -/
def Fresh (c : Circuit) : Prop :=
  ∀ (id : Nat) (k : Connection), c.connections[id]? = some k → k.active = false ∧ k.changed = false

theorem Fresh.level {c : Circuit} (hc : c.Fresh) (id : Nat) : Bus.level c.connections id = false := by
  rw [Bus.level]
  cases hk : c.connections[id]? with
  | none => rfl
  | some k => exact (hc id k hk).1

namespace Nesting

variable {c₀ : Circuit} {u : c₀.Nesting} {inner c f : Circuit} {i k : Nat}

theorem index_of_button (u : c₀.Nesting) (hi : i ∈ c₀.buttons) :
    i ≠ u.index ∧ i < c₀.components.length := by
  obtain ⟨hlt, hbutton⟩ := List.mem_filter.1 hi
  refine ⟨?_, List.mem_range.1 hlt⟩
  rintro rfl
  rw [u.host_eq, Option.any_some, Component.isButton, u.kind_eq] at hbutton
  cases hbutton

/-- The buttons outside come first, in the order that they have. -/
theorem flat_buttons (u : c₀.Nesting) : (c₀.buttons.map u.shift).IsPrefix u.flat.buttons := by
  obtain ⟨xs, ys, hc, hlen⟩ : ∃ xs ys, c₀.components = xs ++ ([u.host] ++ ys) ∧ xs.length = u.index := by
    obtain ⟨hlt, hhost⟩ := List.getElem?_eq_some_iff.1 u.host_eq
    refine ⟨c₀.components.take u.index, c₀.components.drop (u.index + 1), ?_, ?_⟩
    · rw [List.singleton_append, ← hhost, ← List.drop_eq_getElem_cons hlt, List.take_append_drop]
    · exact List.length_take_of_le (Nat.le_of_lt hlt)
  have hflat : u.flat.components =
      xs ++ (ys ++ u.inner.components.map (·.renumber u.place)) := by
    show c₀.components.eraseIdx u.index ++ _ = _
    rw [hc, List.eraseIdx_eq_take_drop_succ, ← hlen, ← List.append_assoc]
    simp
  have hhost : u.host.isButton = false := by rw [Component.isButton, u.kind_eq]; rfl
  rw [buttons, buttons, hc, hflat]
  simp only [filter_range_append, List.map_append, List.map_map]
  have hbefore : ∀ i ∈ (List.range xs.length).filter fun i => xs[i]?.any Component.isButton,
      u.shift i = i := by
    intro i hi
    exact if_pos (hlen ▸ List.mem_range.1 (List.mem_filter.1 hi).1)
  have hafter : u.shift ∘ (xs.length + ·) ∘ ([u.host].length + ·) = (xs.length + ·) := by
    funext j
    rw [Function.comp_apply, Function.comp_apply, shift, if_neg (by omega)]
    rw [List.length_singleton]
    omega
  rw [List.map_congr_left hbefore, List.map_id', hafter]
  simp [hhost]

/-- Where nothing is on, feeding an inner circuit changes nothing. -/
theorem fed_fresh (h : u.Fits) (hc : c₀.Fresh) (hi : u.inner.Fresh) (id : Nat) :
    (u.fed u.inner c₀.connections).connections[id]? = u.inner.connections[id]? := by
  by_cases hentry : id ∈ (u.pins.entries u.host).map (·.2)
  · obtain ⟨⟨o, i⟩, hoi, rfl⟩ := List.mem_map.1 hentry
    rw [fed_entry h hoi, hc.level]
    cases hk : u.inner.connections[i]? with
    | none => rfl
    | some k => rw [Option.map_some, ← (hi i k hk).1, Connection.drive_active]
  · exact fed_other hentry u.inner c₀.connections

theorem tracks_of_low {full : Prop} {k k' : Connection} (hk : k.active = false ∧ k.changed = false)
    (hk' : k'.active = false ∧ k'.changed = false) : Connection.Tracks full (some k) (some k') :=
  ⟨congrArg some (hk.1.trans hk'.1.symm), fun _ => congrArg some (hk.2.trans hk'.2.symm)⟩

/-- At the start nothing is on in either circuit. -/
theorem Fits.start (h : u.Fits) (hc : c₀.Fresh) (hi : u.inner.Fresh) : u.Inlines u.inner c₀ u.flat := by
  constructor
  case shape => rfl
  case layout => rfl
  case flat_shape => rfl
  case flat_layout => rfl
  case inner_shape => rfl
  case ticks => rfl
  case host =>
    refine ⟨u.host.level, u.host_eq.trans (congrArg some ?_)⟩
    have hkind := u.kind_eq
    rw [hostWith]
    generalize u.host = host at hkind ⊢
    obtain ⟨code, kind, level, cells, inputs, outputs, clock⟩ := host
    obtain rfl : kind = _ := hkind
    rfl
  case outer =>
    refine ⟨fun i m hi hm => ⟨m, u.flat_outer hi hm, ?_⟩, fun id hid => ?_⟩
    · exact ⟨rfl, rfl, (List.map_id _).symm, (List.map_id _).symm, Option.map_id'.symm⟩
    · have hk := Array.getElem?_eq_getElem hid
      have hlow := hc id _ hk
      show Connection.Tracks _ (c₀.connections[id]?) (u.flat.connections[id]?)
      rw [u.flat_connection hid, hk, Option.map_some]
      exact tracks_of_low hlow hlow
  case inner =>
    refine ⟨fun j n _ hn => ⟨_, u.flat_inner hn, n.renumber_copies u.place⟩, fun id hid => ?_⟩
    have hk := Array.getElem?_eq_getElem hid
    have hlow := hi id _ hk
    rw [fed_fresh h hc hi, hk]
    show Connection.Tracks _ _ (u.flat.connections[u.place id]?)
    obtain ⟨o, hoi, ho⟩ | ⟨hfree, -⟩ := h.place_cases hid
    · have hlt := h.host_pin_lt (mem_joints_outer hoi)
      have hk' := Array.getElem?_eq_getElem hlt
      have hlow' := hc o _ hk'
      rw [ho, u.flat_connection hlt, hk', Option.map_some]
      exact tracks_of_low hlow hlow'
    · rw [u.flat_connection_free hfree, hk, Option.map_some]
      exact tracks_of_low hlow hlow

theorem Inlines.flip (hI : u.Inlines inner c f) (hi : i ≠ u.index) (hlt : i < c₀.components.length) :
    u.Inlines inner (c.flip i) (f.flip (u.shift i)) := by
  constructor
  case shape => exact (c.flip_shape i).trans hI.shape
  case layout => exact (c.flip_layout i).trans hI.layout
  case flat_shape => exact (f.flip_shape (u.shift i)).trans hI.flat_shape
  case flat_layout => exact (f.flip_layout (u.shift i)).trans hI.flat_layout
  case inner_shape => exact hI.inner_shape
  case ticks => exact hI.ticks
  case host =>
    obtain ⟨level, hhost⟩ := hI.host
    exact ⟨level, by rw [flip_getElem?, hhost, Option.map_some, if_neg hi]⟩
  case outer => exact hI.outer.flip fun j hj he => u.shift_injective hi hj he
  case inner => exact hI.inner.flip_stranger fun j _ => u.shift_ne_shiftInner hi hlt j

theorem Inlines.toggle (hI : u.Inlines inner c f) (hk : k < c₀.buttons.length) :
    u.Inlines inner ((c.toggle? k).getD c) ((f.toggle? k).getD f) := by
  have hbutton := List.getElem?_eq_getElem hk
  obtain ⟨hi, hlt⟩ := u.index_of_button (List.mem_of_getElem? hbutton)
  have hflat : u.flat.buttons[k]? = some (u.shift (c₀.buttons[k])) := by
    rw [List.prefix_iff_getElem?.1 u.flat_buttons k (by rwa [List.length_map]), List.getElem_map]
  rw [toggle?_eq, toggle?_eq, buttons_of_layout hI.layout, buttons_of_layout hI.flat_layout, hbutton,
    hflat]
  exact hI.flip hi hlt

/-- Through every run at one time the two circuits stay alike, or both fail. -/
theorem Inlines.run (h : u.Fits) : ∀ (actions : List Action) (inner c f : Circuit),
    u.Inlines inner c f → (∀ k, Action.toggle k ∈ actions → k < c₀.buttons.length) →
      (c.run (actions.map Action.timeless) = none ∧ f.run (actions.map Action.timeless) = none) ∨
        ∃ g d e, c.run (actions.map Action.timeless) = some d ∧
          f.run (actions.map Action.timeless) = some e ∧ u.Inlines g d e := by
  intro actions
  induction actions with
  | nil => exact fun inner c f hI _ => .inr ⟨inner, c, f, rfl, rfl, hI⟩
  | cons action actions ih =>
    intro inner c f hI hbuttons
    have hrest := fun k hmem => hbuttons k (List.mem_cons_of_mem _ hmem)
    cases action with
    | tick now =>
      rw [List.map_cons, Action.timeless, Circuit.run, Circuit.run]
      obtain ⟨g, d, e, hd, he, hI'⟩ | ⟨⟨d, failure, hd⟩, e, failure', he⟩ := hI.tick h 0
      · rw [hd, he]
        exact ih g d e hI' hrest
      · rw [hd, he]
        exact .inl ⟨rfl, rfl⟩
    | toggle k => exact ih inner _ _ (hI.toggle (hbuttons k List.mem_cons_self)) hrest

/-- What a circuit with an inner circuit and the one with this laid out in place have in common: the
states of all components but the one itself, and the levels of all outer connections. -/
structure Agrees (u : c₀.Nesting) (d e : Circuit) : Prop where
  components : ∃ inner level, d.components[u.index]? = some (u.hostWith inner level) ∧
    e.components.map Component.state =
      (d.components.eraseIdx u.index ++ inner.components).map Component.state
  connections : ∀ id < c₀.connections.size,
    (e.connections[id]?).map (·.active) = (d.connections[id]?).map (·.active)
  ticks : e.ticks = d.ticks

theorem Inlines.agrees (hI : u.Inlines inner c f) : u.Agrees c f := by
  obtain ⟨level, hhost⟩ := hI.host
  have hindex : u.index < c.components.length := (List.getElem?_eq_some_iff.1 hhost).1
  have hlen : c.components.length = c₀.components.length := by
    simpa [Circuit.shape] using congrArg List.length hI.shape
  constructor
  case components =>
    refine ⟨inner, level, hhost, ?_⟩
    apply List.ext_getElem?
    intro j
    apply Option.ext
    intro s
    rw [List.getElem?_map, List.getElem?_map, Option.map_eq_some_iff, Option.map_eq_some_iff]
    constructor
    · intro h
      obtain ⟨m', hm', rfl⟩ := h
      obtain ⟨i, m, hi, hm, rfl⟩ | ⟨i, n, hn, rfl⟩ := hI.flat_cases hm'
      · obtain ⟨m'', hm'', hcopy⟩ := hI.outer.component i m hi hm
        obtain rfl := Option.some.inj (hm'.symm.trans hm'')
        exact ⟨m, (getElem?_eraseIdx_append hindex _ hi (List.getElem?_eq_some_iff.1 hm).1).trans hm,
          hcopy.state.symm⟩
      · obtain ⟨m'', hm'', hcopy⟩ := hI.inner.component i n trivial hn
        obtain rfl := Option.some.inj (hm'.symm.trans hm'')
        refine ⟨n, ?_, hcopy.state.symm⟩
        rw [shiftInner, ← hlen]
        exact (getElem?_eraseIdx_append_right hindex _ i).trans hn
    · intro h
      obtain ⟨m, hm, rfl⟩ := h
      obtain ⟨i, hi, hi', rfl⟩ | ⟨i, hi', rfl⟩ := eraseIdx_append_cases hindex _ hm
      · obtain ⟨m', hm', hcopy⟩ := hI.outer.component i m hi hi'
        exact ⟨m', hm', hcopy.state⟩
      · obtain ⟨m', hm', hcopy⟩ := hI.inner.component i m trivial hi'
        rw [hlen]
        exact ⟨m', hm', hcopy.state⟩
  case connections => exact fun id hid => (hI.connection hid).active.symm
  case ticks => exact hI.ticks

/-- A component that differs from the inner circuit's in times only holds a circuit that does. -/
theorem exists_of_timeless_host {m : Component} {level : Bool}
    (hm : m.timeless = (u.hostWith inner level).timeless) :
    ∃ g, m = u.hostWith g level ∧ g.timeless = inner.timeless := by
  obtain ⟨code, kind, level', cells, inputs, outputs, clock⟩ := m
  rw [hostWith, Component.timeless_nested] at hm
  cases kind
  case nested pins g =>
    rw [Component.timeless_nested] at hm
    obtain ⟨rfl, hkind, rfl, rfl, rfl, rfl, rfl⟩ := Component.mk.inj hm
    obtain ⟨rfl, hg⟩ := Kind.nested.inj hkind
    exact ⟨g, rfl, hg⟩
  all_goals
    obtain ⟨-, hkind, -⟩ := Component.mk.inj hm
    cases hkind

theorem map_state_timeless (cs : List Component) :
    (timelessAll cs).map Component.state = cs.map Component.state := by
  rw [timelessAll_eq_map, List.map_map]
  exact List.map_congr_left fun m _ => m.timeless_state

theorem Agrees.of_timeless {d d' e e' : Circuit} (h : u.Agrees d' e') (hd : d.timeless = d'.timeless)
    (he : e.timeless = e'.timeless) : u.Agrees d e := by
  have hall : timelessAll d.components = timelessAll d'.components := congrArg Circuit.components hd
  have hflat : timelessAll e.components = timelessAll e'.components := congrArg Circuit.components he
  obtain ⟨inner, level, hhost, hstate⟩ := h.components
  obtain ⟨m, hm, hhost'⟩ := exists_of_timeless hd.symm hhost
  obtain ⟨g, rfl, hg⟩ := exists_of_timeless_host hhost'.symm
  have hinner : timelessAll g.components = timelessAll inner.components :=
    congrArg Circuit.components hg
  refine ⟨⟨g, level, hm, ?_⟩, ?_, ?_⟩
  · rw [← map_state_timeless e.components, hflat, map_state_timeless, hstate, List.map_append,
      List.map_append, ← List.eraseIdx_map, ← List.eraseIdx_map, ← map_state_timeless d.components,
      ← map_state_timeless g.components, hall, hinner, map_state_timeless, map_state_timeless]
  · rw [connections_of_timeless hd, connections_of_timeless he]
    exact h.connections
  · have hticks : d.timeless.ticks = d'.timeless.ticks := by rw [hd]
    have hticks' : e.timeless.ticks = e'.timeless.ticks := by rw [he]
    exact hticks'.trans (h.ticks.trans hticks.symm)

theorem flat_untimed (u : c₀.Nesting) (hu : c₀.Untimed) : u.flat.Untimed := by
  have hhost := untimedAll_iff.1 hu u.host (List.mem_of_getElem? u.host_eq)
  have hinner : u.inner.Untimed := Component.untimed_inner u.kind_eq hhost
  apply untimedAll_iff.2
  intro m hm
  obtain ⟨i, hi⟩ := List.getElem?_of_mem hm
  obtain ⟨j, -, hj, -⟩ | ⟨j, n, hn, -, rfl⟩ := u.flat_cases hi
  · exact untimedAll_iff.1 hu m (List.mem_of_getElem? hj)
  · exact Component.untimed_of_kind (m := n) rfl
      (untimedAll_iff.1 hinner n (List.mem_of_getElem? hn))

end Nesting

end Circuit

theorem Grid.circuitOf_fresh (g : Grid) (name : String) (make : Code → Making) :
    (g.circuitOf name make).Fresh := by
  intro id k hk
  obtain ⟨p, -, rfl⟩ := Grid.circuitOf_connection_iff.1 hk
  exact ⟨rfl, rfl⟩

namespace Field

variable {rs : Registries} {clockPeriod depth : Nat} {f : Field} {b : Build}

theorem buildWithin_wired (he : f.grid.Exact) (hb : buildWithin rs clockPeriod depth f = .ok b) :
    b.circuit.Wired ∧ b.circuit.Fresh := by
  obtain ⟨b', hb', hc⟩ := buildWithin_circuitOf rs clockPeriod depth he
  obtain rfl := Except.ok.inj (hb.symm.trans hb')
  rw [hc]
  exact ⟨Grid.circuitOf_wired (f.maker_faithful rs clockPeriod depth), Grid.circuitOf_fresh _ _ _⟩

theorem buildWithin_fits (hr : rs.Exact) (he : f.grid.Exact)
    (hb : buildWithin rs clockPeriod depth f = .ok b) (u : b.circuit.Nesting)
    (hg : u.inner.GatedPins) : u.Fits ∧ b.circuit.Fresh ∧ u.inner.Fresh := by
  obtain ⟨houter, hfresh⟩ := buildWithin_wired he hb
  obtain ⟨drawing, b', depth', -, hd, hb', hinner, hpins⟩ :=
    drawing_of_nested he hb (List.mem_of_getElem? u.host_eq) u.kind_eq
  obtain ⟨hwired, hfresh'⟩ := buildWithin_wired (hr.drawingOf? hd) hb'
  rw [← hinner] at hwired hfresh'
  exact ⟨⟨houter, hwired, hpins, hg⟩, hfresh, hfresh'⟩

/-- A built circuit with an inner circuit that has only gates at its pins does, through every run of
ticks and toggles of its buttons, what it does with the inner circuit laid out in place: both runs fail,
or afterwards all other components, all inner components and all outer connections are the same. With
no periods, the two may tick at times of their own. -/
theorem run_in_place (hr : rs.Exact) (he : f.grid.Exact) (hb : f.build rs clockPeriod = .ok b)
    (hu : b.circuit.Untimed) (u : b.circuit.Nesting) (hg : u.inner.GatedPins)
    {actions actions' : List Action}
    (hbuttons : ∀ k, Action.toggle k ∈ actions → k < b.circuit.buttons.length)
    (htimes : actions'.map Action.timeless = actions.map Action.timeless) :
    (b.circuit.run actions = none ∧ u.flat.run actions' = none) ∨
      ∃ d e, b.circuit.run actions = some d ∧ u.flat.run actions' = some e ∧ u.Agrees d e := by
  obtain ⟨hfits, hfresh, hfresh'⟩ := buildWithin_fits hr he hb u hg
  have hsync : (actions.map Action.timeless).map Action.timeless = actions.map Action.timeless := by
    rw [List.map_map]
    exact List.map_congr_left fun action _ => by cases action <;> rfl
  have hrun := Circuit.run_timeless actions _ _ _ hsync.symm hu hu rfl
  have hrun' := Circuit.run_timeless actions' _ _ _ (htimes.trans hsync.symm) (u.flat_untimed hu)
    (u.flat_untimed hu) rfl
  obtain ⟨hnone, hnone'⟩ | ⟨g, d', e', hd', he', hI⟩ :=
    Circuit.Nesting.Inlines.run hfits actions _ _ _ (hfits.start hfresh hfresh') hbuttons
  · rw [hnone, Option.map_none, Option.map_eq_none_iff] at hrun
    rw [hnone', Option.map_none, Option.map_eq_none_iff] at hrun'
    exact .inl ⟨hrun, hrun'⟩
  · rw [hd', Option.map_some, Option.map_eq_some_iff] at hrun
    rw [he', Option.map_some, Option.map_eq_some_iff] at hrun'
    obtain ⟨d, hd, htime⟩ := hrun
    obtain ⟨e, he, htime'⟩ := hrun'
    exact .inr ⟨d, e, hd, he, hI.agrees.of_timeless htime htime'⟩

end Field

/-- Registries with one part, an inverter with nothing but its pins. -/
def inverterRegistries : Registries :=
  ⟨#[⟨[⟨"not", .circuit ⟨"not", ⟨3, 1, #v[.input, .not, .output]⟩, ⟨1⟩⟩⟩]⟩]⟩

/-- A button that turns a display off, through an inverter. -/
def sampleHost : Field where
  name := "host"
  grid := ⟨9, 1, #v[.button, .output, .wire, .input, .custom 0, .output, .wire, .input, .display]⟩
  registry := ⟨0⟩

theorem sampleHost_in_place : inverterRegistries.Exact ∧ sampleHost.grid.Exact ∧
    ∃ b, sampleHost.build inverterRegistries 0 = .ok b ∧ b.circuit.Untimed ∧
      ∃ u : b.circuit.Nesting, u.inner.GatedPins ∧ u.inner.pins = ⟨[0], [1], none⟩ ∧
        0 < b.circuit.buttons.length ∧
        ((b.circuit.run [.tick 0, .toggle 0, .tick 1] = none ∧
            u.flat.run [.tick 5, .toggle 0, .tick 9] = none) ∨
          ∃ d e, b.circuit.run [.tick 0, .toggle 0, .tick 1] = some d ∧
            u.flat.run [.tick 5, .toggle 0, .tick 9] = some e ∧ u.Agrees d e) := by
  have hr : inverterRegistries.Exact := by
    simp [Registries.Exact, inverterRegistries]
    decide
  have he : sampleHost.grid.Exact := by decide
  have hinner : (sampleHost.build inverterRegistries 0).toOption.any (fun b =>
      decide (0 < b.circuit.buttons.length) && b.circuit.components.any fun m =>
        m.inner?.any fun inner =>
          decide (inner.GatedPins ∧ inner.pins = ⟨[0], [1], none⟩)) = true := by decide +kernel
  obtain ⟨b, hb, -⟩ := Field.buildWithin_circuitOf inverterRegistries 0 maxNesting he
  have hb : sampleHost.build inverterRegistries 0 = .ok b := hb
  have hu := Field.buildWithin_untimed hr maxNesting sampleHost he b hb
  rw [hb, Except.toOption, Option.any_some] at hinner
  obtain ⟨hbutton, hany⟩ := Bool.and_eq_true_iff.1 hinner
  obtain ⟨m, hm, hm'⟩ := List.any_eq_true.1 hany
  obtain ⟨inner, hinner, hpins⟩ := (Option.any_eq_true _ _).1 hm'
  obtain ⟨pins, hnested⟩ := Component.nested_of_inner? hinner
  obtain ⟨i, hi⟩ := List.getElem?_of_mem hm
  obtain ⟨hg, hpins⟩ := of_decide_eq_true hpins
  have hlt := of_decide_eq_true hbutton
  refine ⟨hr, he, b, hb, hu, ⟨i, m, pins, inner, hi, hnested⟩, hg, hpins, hlt,
    Field.run_in_place hr he hb hu _ hg (fun k hk => ?_) rfl⟩
  obtain rfl : k = 0 := by simpa using hk
  exact hlt

end GridCircuit
