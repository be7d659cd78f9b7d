import GridCircuit.Proofs.Buttons
import GridCircuit.Proofs.InPlace
import GridCircuit.Proofs.Invocations
import GridCircuit.Proofs.Writers

/-!
# Instant scripts run when their inputs differ

An instant script is invoked at an update exactly if the levels of its inputs are not those of the
update before. The circuit compares no levels: it keeps a flag with every connection, which a real
transition sets and the one reader clears. The two are the same because between two updates a
connection makes at most one transition. One that comes from a wire is written by nothing else, and a
tick that stops half way stops before the wires. One that comes from outside is written when the inner
circuit is fed, which happens once a tick; if the inner circuit then stops before the script, so does
everything around it, and the next feed brings the same levels.

So the invariant looks at inner circuits as they will be fed next.
-/

namespace GridCircuit

namespace Component

/-- The circuit that the component is, as it starts its tick when the component is updated. -/
def entered? (m : Component) (bus : Bus) : Option Circuit :=
  match m.kind with
  | .nested pins inner =>
    some { inner with connections := pins.feed m.inputs m.clock bus inner.connections }
  | _ => none

end Component

theorem Pins.entries_of_shape {pins : Pins} {m n : Component} (h : m.shape = n.shape) :
    pins.entries m = pins.entries n := by
  rw [entries, entries, Component.inputs_of_shape h, Component.clock_of_shape h]

namespace Circuit

/-- The component at a place, with the connections around it. A place is a path of components that are
circuits, outermost first, and a number in the innermost of them. -/
def located? (i : Nat) : List Nat → Circuit → Option (Component × Bus)
  | [], c => (c.components[i]?).map (·, c.connections)
  | k :: path, c => ((c.components[k]?).bind Component.inner?).bind (located? i path)

/-- The component at a place and the connections around it at the moment when a tick updates it, unless
the tick stops before. -/
def updating? (now : Times) (i : Nat) : List Nat → Circuit → Option (Component × Bus)
  | [], c => c.moment? now i
  | k :: path, c =>
    (c.moment? now k).bind fun e =>
      (e.1.entered? e.2).bind (updating? (now.inside e.1.firstCell) i path)

end Circuit

/-- What a tick of a circuit adds to the history of the component at a place. -/
def History.tick (script : Script) (now : Times) (i : Nat) (path : List Nat) (c : Circuit) (h : History) :
    History :=
  match c.updating? now i path with
  | some (m, bus) => h.update script (m.read bus).inputs
  | none => h

/-- What actions make of a circuit and of the history of the component at a place. A tick that fails
leaves behind what it has done. -/
def Circuit.follow (script : Script) (i : Nat) (path : List Nat) :
    List Action → Circuit × History → Circuit × History
  | [], s => s
  | .tick now :: actions, (c, h) =>
    follow script i path actions ((c.tick now).1, h.tick script now i path c)
  | .toggle n :: actions, (c, h) => follow script i path actions ((c.toggle? n).getD c, h)

/-- The levels that an inner circuit is fed when it is updated as a component. -/
def Component.feeding (m : Component) (inner : Circuit) (bus : Bus) : List (Nat × Bool) :=
  (inner.pins.entries m).map fun joint => (joint.2, Bus.level bus joint.1)

namespace Circuit

variable {script : Script} {h : History} {now : Times} {i k id : Nat} {path : List Nat} {c inner : Circuit}
  {m : Component} {bus bus' : Bus} {writes writes' : List (Nat × Bool)}

/-- The circuit with some connections written from outside. -/
def feed (c : Circuit) (writes : List (Nat × Bool)) : Circuit :=
  { c with connections := Bus.driveAll c.connections writes }

/-- What is written comes from outside only, and once. -/
structure Feeds (c : Circuit) (writes : List (Nat × Bool)) : Prop where
  nodup : (writes.map (·.1)).Nodup
  driverless : ∀ id ∈ writes.map (·.1), ∀ k, c.connections[id]? = some k → k.driver = none

theorem feed_wiring (c : Circuit) (writes : List (Nat × Bool)) : (c.feed writes).wiring = c.wiring :=
  Prod.ext rfl (Bus.blank_driveAll writes c.connections)

theorem feeds_nil (c : Circuit) : c.Feeds [] := ⟨List.nodup_nil, fun id hid => by cases hid⟩

theorem feed_nil (c : Circuit) : c.feed [] = c := by
  cases c
  rfl

theorem map_fst_feeding (m : Component) (inner : Circuit) (bus : Bus) :
    (m.feeding inner bus).map (·.1) = (inner.pins.entries m).map (·.2) := by
  rw [Component.feeding, List.map_map]
  rfl

theorem map_snd_entries_sublist (pins : Pins) (m : Component) :
    ((pins.entries m).map (·.2)).Sublist (pins.inputs ++ pins.clock.toList) := by
  rw [Pins.entries, List.map_append]
  exact (map_snd_zip_sublist _ _).append (map_snd_zip_sublist _ _)

theorem driverless_of_mem_entries (m : Component) (inner : Circuit) :
    ∀ id ∈ (inner.pins.entries m).map (·.2), ∀ k, inner.connections[id]? = some k →
      k.driver = none := by
  intro id hid k hk
  have hmem := (map_snd_entries_sublist inner.pins m).subset hid
  obtain ⟨k', hk', hd⟩ := fed_pin ((List.mem_append.1 hmem).imp_right Option.mem_toList.1)
  obtain rfl := Option.some.inj (hk.symm.trans hk')
  exact hd

theorem feeds_feeding (m : Component) (inner : Circuit) (bus : Bus) :
    inner.Feeds (m.feeding inner bus) := by
  constructor
  all_goals rw [map_fst_feeding]
  case nodup =>
    exact (List.nodup_append.1 inner.pins_nodup).1.sublist (map_snd_entries_sublist inner.pins m)
  case driverless => exact driverless_of_mem_entries m inner

theorem entered?_eq (hk : m.kind = .nested inner.pins inner) (bus : Bus) :
    m.entered? bus = some (inner.feed (m.feeding inner bus)) := by
  rw [Component.entered?, hk]
  dsimp only
  rw [Pins.feed_eq, feed, Component.feeding]

/-- The same levels outside give the same levels to be fed. -/
theorem feeding_congr (ha : Bus.Agree m.readers bus bus') :
    m.feeding inner bus = m.feeding inner bus' := by
  apply List.map_congr_left
  intro joint hjoint
  have hmem : joint.1 ∈ m.readers := by
    obtain hj | hj := List.mem_append.1 hjoint
    · exact List.mem_append_left _ (List.of_mem_zip hj).1
    · exact List.mem_append_right _ (List.of_mem_zip hj).1
  rw [Bus.level, Bus.level, ha joint.1 hmem]

theorem feeding_of_shape {m' : Component} {inner' : Circuit} (hs : m'.shape = m.shape)
    (hp : inner'.pins = inner.pins) (bus : Bus) : m'.feeding inner' bus = m.feeding inner bus := by
  rw [Component.feeding, Component.feeding, hp, Pins.entries_of_shape hs]

/-- A component that is a circuit is updated by a tick of this circuit, and hands its results out if that
succeeds. -/
theorem update_nested_eq (hk : m.kind = .nested inner.pins inner) (now : Times) (bus : Bus) :
    m.update now bus =
      match (inner.feed (m.feeding inner bus)).tick (now.inside m.firstCell) with
      | (inner', some failure) =>
        ⟨{ m with kind := .nested inner.pins inner' }, bus, some failure⟩
      | (inner', none) =>
        let writes := inner.pins.results m.outputs inner'.connections
        ⟨{ m with kind := .nested inner.pins inner', level := writes.any (·.2) },
          Bus.driveAll bus writes, none⟩ := by
  have hfeed := Pins.feed_eq inner.pins m bus inner.connections
  rw [feed, Component.feeding, ← hfeed, tick]
  generalize hpins : inner.pins = pins at hk
  obtain ⟨code, kind, level, cells, inputs, outputs, clock⟩ := m
  obtain ⟨name, components, connections, ticks⟩ := inner
  obtain rfl : kind = _ := hk
  dsimp only
  rw [Component.update]
  dsimp only [Component.firstCell]
  generalize completeTick (now.inside _) _ _ = ticked
  obtain ⟨inner', failure⟩ := ticked
  cases failure <;> rfl

theorem update_nested (hk : m.kind = .nested inner.pins inner) (now : Times) (bus : Bus) :
    (m.update now bus).value.kind =
        .nested inner.pins ((inner.feed (m.feeding inner bus)).tick (now.inside m.firstCell)).1 ∧
      (m.update now bus).failure =
        ((inner.feed (m.feeding inner bus)).tick (now.inside m.firstCell)).2 ∧
      (((inner.feed (m.feeding inner bus)).tick (now.inside m.firstCell)).2 ≠ none →
        (m.update now bus).bus = bus) := by
  rw [update_nested_eq hk]
  split
  case h_1 inner' failure ht =>
    rw [ht]
    exact ⟨rfl, rfl, fun _ => rfl⟩
  case h_2 inner' ht =>
    rw [ht]
    exact ⟨rfl, rfl, fun hne => absurd rfl hne⟩

section Feeds

variable (hF : c.Feeds writes)

include hF

theorem Feeds.kept (hd : ∀ k, c.connections[id]? = some k → k.driver ≠ none) :
    (c.feed writes).connections[id]? = c.connections[id]? := by
  by_cases hid : id ∈ writes.map (·.1)
  · cases hk : c.connections[id]? with
    | some k => exact absurd (hF.driverless id hid k hk) (hd k hk)
    | none =>
      show (Bus.driveAll c.connections writes)[id]? = _
      rw [Bus.getElem?_driveAll, hk, Option.map_none]
  · exact Component.driveAll_frame hid

/-- Where no news is waiting, feeding is no news to the reader. -/
theorem Feeds.noted (hcalm : ∀ k, c.connections[id]? = some k → k.driver = none → k.changed = false) :
    Bus.noted (c.feed writes).connections id = Bus.noted c.connections id := by
  by_cases hid : id ∈ writes.map (·.1)
  · obtain ⟨w, hmem, rfl⟩ := List.mem_map.1 hid
    show Bus.noted (Bus.driveAll c.connections writes) w.1 = _
    rw [Bus.noted, Bus.noted, Bus.getElem?_driveAll]
    cases hk : c.connections[w.1]? with
    | none => rfl
    | some k =>
      have hchanged := hcalm k hk (hF.driverless w.1 hid k hk)
      rw [Option.map_some, Option.map_some, Option.getD_some, Connection.receive_of_mem k hF.nodup hmem,
        Connection.noted_drive hchanged]
      rfl
  · have hkept : (c.feed writes).connections[id]? = c.connections[id]? := Component.driveAll_frame hid
    rw [Bus.noted, Bus.noted, hkept]

/-- After a tick that was fed, the same feed has nothing left to do. -/
theorem Feeds.tick_feed (hw : c.Wired) (now : Times) :
    ((c.feed writes).tick now).1.feed writes = ((c.feed writes).tick now).1 := by
  refine ext_getElem? rfl rfl (fun _ => rfl) fun id => ?_
  by_cases hid : id ∈ writes.map (·.1)
  · obtain ⟨w, hmem, rfl⟩ := List.mem_map.1 hid
    have hno : ∀ k, (c.feed writes).connections[w.1]? = some k → k.driver = none := by
      intro k hk
      obtain ⟨k₀, hk₀, he⟩ := exists_of_wiring (c.feed_wiring writes) hk
      have hdriver : k.driver = k₀.driver := congrArg (·.driver) he
      rw [hdriver, hF.driverless w.1 hid k₀ hk₀]
    have hactive := (hw.of_wiring (c.feed_wiring writes)).tick_unwritten now hno
    show (Bus.driveAll _ writes)[w.1]? = _
    rw [Bus.getElem?_driveAll]
    cases hk : ((c.feed writes).tick now).1.connections[w.1]? with
    | none => rfl
    | some k =>
      have hfed : (c.feed writes).connections[w.1]? = _ :=
        Bus.getElem?_driveAll writes w.1 c.connections
      rw [hk, hfed, Option.map_map, Option.map_some, eq_comm, Option.map_eq_some_iff] at hactive
      obtain ⟨k₀, -, hlevel⟩ := hactive
      rw [Function.comp_apply, Connection.receive_of_mem k₀ hF.nodup hmem,
        Connection.active_drive] at hlevel
      rw [Option.map_some, Connection.receive_of_mem k hF.nodup hmem, hlevel, Connection.drive_active]
  · exact Component.driveAll_frame hid

end Feeds

/-- The circuits down a path are wired, and the component at its end recounts a history. Each inner
circuit is looked at as it is fed next. -/
def RecountsAt (script : Script) (h : History) (i : Nat) : List Nat → Circuit → Prop
  | [], c => c.Wired ∧ ∃ m, c.components[i]? = some m ∧ m.Recounts script h c.connections
  | k :: path, c => c.Wired ∧ ∃ m inner, c.components[k]? = some m ∧
      m.kind = .nested inner.pins inner ∧
      RecountsAt script h i path (inner.feed (m.feeding inner c.connections))

/-- No news from outside is waiting for the component at a place. -/
def CalmAt (i : Nat) : List Nat → Circuit → Prop
  | [], c => ∀ m, c.components[i]? = some m → ∀ id ∈ m.inputs, ∀ k,
      c.connections[id]? = some k → k.driver = none → k.changed = false
  | k :: path, c => ∀ m, c.components[k]? = some m → ∀ inner, m.inner? = some inner →
      CalmAt i path inner

theorem RecountsAt.wired (hr : c.RecountsAt script h i path) : c.Wired := by
  cases path with
  | nil => exact hr.1
  | cons k path => exact hr.1

theorem Wired.written (hw : c.Wired) (hm : c.components[i]? = some m) (hid : id ∈ m.outputs) :
    ∀ k, c.connections[id]? = some k → k.driver ≠ none := by
  intro k hk
  obtain ⟨k', hk', hd⟩ := hw.driver_of_mem hm hid
  obtain rfl := Option.some.inj (hk.symm.trans hk')
  simp [hd]

/-- Where no news is waiting, it does not matter what comes in. -/
theorem RecountsAt.feed (hr : (c.feed writes).RecountsAt script h i path) (hc : c.CalmAt i path)
    (hF : c.Feeds writes) (hF' : c.Feeds writes') : (c.feed writes').RecountsAt script h i path := by
  have hw : c.Wired := hr.wired.of_wiring (c.feed_wiring writes).symm
  induction path generalizing c writes writes' with
  | nil =>
    obtain ⟨-, m, hm, hrec⟩ := hr
    refine ⟨hw.of_wiring (c.feed_wiring writes'), m, hm, ⟨hrec.kind, hrec.level, fun j id hj => ?_⟩, ?_⟩
    · have hd := hw.written hm (List.mem_of_getElem? hj)
      rw [← hrec.outputs j id hj, Bus.level, Bus.level, hF.kept hd, hF'.kept hd]
    · rw [← hrec.noted]
      apply List.map_congr_left
      intro id hid
      rw [hF.noted (hc m hm id hid), hF'.noted (hc m hm id hid)]
  | cons k path ih =>
    obtain ⟨-, m, inner, hm, hk, hrec⟩ := hr
    refine ⟨hw.of_wiring (c.feed_wiring writes'), m, inner, hm, hk, ?_⟩
    have hcalm := hc m hm inner (Component.inner?_of_nested hk)
    exact ih hrec hcalm (feeds_feeding m inner _) (feeds_feeding m inner _)
      (hrec.wired.of_wiring (inner.feed_wiring _).symm)

section Tick

theorem Meets.shape_eq (hM : c.Meets now i m bus) {m' : Component}
    (hm' : (c.tick now).1.components[i]? = some m') : m'.shape = m.shape := by
  obtain rfl := Option.some.inj (hm'.symm.trans hM.component)
  exact m.update_shape now bus

theorem Meets.outputs_lt (hM : c.Meets now i m bus) (hw : c.Wired) (hm : c.components[i]? = some m) :
    ∀ id ∈ m.outputs, id < bus.size := by
  intro id hid
  obtain ⟨k, hk⟩ := hw.exists_connection hm (Component.mem_pins_of_outputs hid)
  rw [← hM.before id (Component.mem_pins_of_outputs hid)] at hk
  exact (Array.getElem?_eq_some_iff.1 hk).1

/-- A tick that comes to the component leaves what the history of its update says, and if it succeeds,
no news from outside is left. -/
theorem Meets.recounts (hM : c.Meets now i m bus) (hw : c.Wired) (hm : c.components[i]? = some m)
    (hr : m.Recounts script h bus) (hi : script.trigger = .instant) :
    (m.update now bus).value.Recounts script (h.update script (m.read bus).inputs)
        (c.tick now).1.connections ∧
      ((c.tick now).2 = none → (c.tick now).1.CalmAt i []) := by
  obtain ⟨hafter, hclear⟩ := hr.update hi (hw.component_pins_nodup hm) (hM.outputs_lt hw hm) now
  have hshape := m.update_shape now bus
  have hpins := Component.pins_of_shape hshape
  have hreads : ∀ id ∈ m.inputs, id ∈ m.pins :=
    fun id hid => List.mem_append_left _ (Component.mem_readers.2 (.inl hid))
  by_cases hf : (c.tick now).2 = none
  · refine ⟨⟨⟨hafter.kind, hafter.level, fun j id hj => ?_⟩, ?_⟩, fun _ m' hm' id hid k hk hd => ?_⟩
    · rw [← hafter.outputs j id hj, Bus.level, Bus.level]
      have hid : id ∈ m.outputs := Component.outputs_of_shape hshape ▸ List.mem_of_getElem? hj
      rw [hM.unwritten id (Component.mem_pins_of_outputs hid) fun j n hn hwire hout => ?_]
      obtain rfl := hw.writer_unique hm hn hid hout
      obtain rfl := Option.some.inj (hm.symm.trans hn)
      rw [hr.isWire] at hwire
      cases hwire
    · rw [← hafter.noted, Component.inputs_of_shape hshape]
      apply List.map_congr_left
      intro id hid
      rw [Bus.noted, Bus.noted, hM.driven hf id (hreads id hid)]
      cases hk : (m.update now bus).bus[id]? with
      | none => rfl
      | some k =>
        rw [Option.map_some, Option.map_some, Option.getD_some,
          Connection.noted_drive (hclear id hid k hk)]
        rfl
    · have hid : id ∈ m.inputs := Component.inputs_of_shape (hM.shape_eq hm') ▸ hid
      have hno : ∀ k, c.connections[id]? = some k → k.driver = none := by
        intro k₀ hk₀
        obtain ⟨k', hk', he⟩ := exists_of_wiring (c.tick_wiring now) hk
        obtain rfl := Option.some.inj (hk₀.symm.trans hk')
        exact (congrArg (·.driver) he).symm.trans hd
      rw [hM.unwritten id (hreads id hid) fun j n hn _ => hw.notMem_outputs hno hn] at hk
      exact hclear id hid k hk
  · refine ⟨hafter.of_agree fun id hid => ?_, fun hnone => absurd hnone hf⟩
    exact hM.stopped hf id (hpins ▸ hid)

/-- What happens in a tick to a component with a history. -/
theorem RecountsAt.here (hr : c.RecountsAt script h i []) (now : Times) :
    ∃ m, c.components[i]? = some m ∧ m.Recounts script h c.connections ∧
      ((c.updating? now i [] = none ∧ c.Misses now i m) ∨
        ∃ bus, c.updating? now i [] = some (m, bus) ∧ c.Meets now i m bus ∧
          m.Recounts script h bus) := by
  obtain ⟨hw, m, hm, hrec⟩ := hr
  refine ⟨m, hm, hrec, ?_⟩
  cases hmoment : c.moment? now i with
  | none => exact .inl ⟨hmoment, hw.misses hrec.isWire hm hmoment⟩
  | some e =>
    obtain ⟨m', bus⟩ := e
    obtain rfl := Option.some.inj (hm.symm.trans (moment?_eq_some_iff.1 hmoment).1)
    have hM := hw.meets hrec.isWire hmoment
    exact .inr ⟨bus, hmoment, hM, hrec.of_agree hM.before⟩

/-- What happens in a tick to a component that holds one with a history: it is not reached, or the
circuit inside ticks as it is fed. -/
theorem RecountsAt.below (hr : c.RecountsAt script h i (k :: path)) (now : Times) :
    ∃ m inner, c.components[k]? = some m ∧ m.kind = .nested inner.pins inner ∧
      (inner.feed (m.feeding inner c.connections)).RecountsAt script h i path ∧
      ((c.updating? now i (k :: path) = none ∧ c.Misses now k m) ∨
        ∃ bus, c.updating? now i (k :: path) =
            (inner.feed (m.feeding inner bus)).updating? (now.inside m.firstCell) i path ∧
          c.Meets now k m bus ∧
          (inner.feed (m.feeding inner bus)).RecountsAt script h i path) := by
  obtain ⟨hw, m, inner, hm, hk, hrec⟩ := hr
  have hgate : m.isWire = false := by
    rw [Component.isWire, hk]
    rfl
  refine ⟨m, inner, hm, hk, hrec, ?_⟩
  rw [updating?]
  cases hmoment : c.moment? now k with
  | none => exact .inl ⟨rfl, hw.misses hgate hm hmoment⟩
  | some e =>
    obtain ⟨m', bus⟩ := e
    obtain rfl := Option.some.inj (hm.symm.trans (moment?_eq_some_iff.1 hmoment).1)
    have hM := hw.meets hgate hmoment
    rw [← feeding_congr fun id hid => hM.before id (List.mem_append_left _ hid)] at hrec
    refine .inr ⟨bus, ?_, hM, hrec⟩
    rw [Option.bind_some, entered?_eq hk, Option.bind_some]

/-- What a tick does to the component at a place is what it does to the history. -/
theorem RecountsAt.tick (hr : c.RecountsAt script h i path) (hi : script.trigger = .instant)
    (now : Times) : (c.tick now).1.RecountsAt script (h.tick script now i path c) i path ∧
      ((c.tick now).2 = none → (c.tick now).1.CalmAt i path) := by
  have hw := hr.wired
  have hw' := hw.of_wiring (c.tick_wiring now)
  induction path generalizing c now with
  | nil =>
    obtain ⟨m, hm, hrec, ⟨hu, hM⟩ | ⟨bus, hu, hM, hbus⟩⟩ := hr.here now
    · rw [History.tick, hu]
      exact ⟨⟨hw', m, hM.component, hrec.of_agree hM.agrees⟩, fun hnone => absurd hnone hM.failed⟩
    · obtain ⟨hafter, hcalm⟩ := hM.recounts hw hm hbus hi
      rw [History.tick, hu]
      exact ⟨⟨hw', _, hM.component, hafter⟩, hcalm⟩
  | cons k path ih =>
    obtain ⟨m, inner, hm, hk, hrec, ⟨hu, hM⟩ | ⟨bus, hu, hM, hbus⟩⟩ := hr.below now
    · rw [History.tick, hu]
      refine ⟨⟨hw', m, inner, hM.component, hk, ?_⟩, fun hnone => absurd hnone hM.failed⟩
      rwa [feeding_congr fun id hid => hM.agrees id (List.mem_append_left _ hid)]
    · have hwired := hbus.wired
      obtain ⟨hinner, hcalm⟩ := ih hbus _ hwired (hwired.of_wiring (tick_wiring _ _))
      obtain ⟨hkind, hfailure, hsame⟩ := update_nested hk now bus
      have hwiring : ((inner.feed (m.feeding inner bus)).tick (now.inside m.firstCell)).1.wiring =
          inner.wiring := (tick_wiring _ _).trans (inner.feed_wiring _)
      rw [← pins_of_wiring hwiring] at hkind
      rw [History.tick, hu]
      refine ⟨⟨hw', _, _, hM.component, hkind, ?_⟩, fun hnone n hn d hd => ?_⟩
      · by_cases hf : ((inner.feed (m.feeding inner bus)).tick (now.inside m.firstCell)).2 = none
        · rw [← feed_nil ((inner.feed (m.feeding inner bus)).tick (now.inside m.firstCell)).1] at hinner
          exact hinner.feed (hcalm hf) (feeds_nil _) (feeds_feeding _ _ _)
        · have hstop : (c.tick now).2 ≠ none := fun hnone => hf (hfailure ▸ hM.passed hnone)
          have houtside : Bus.Agree m.readers (c.tick now).1.connections bus := by
            intro id hid
            rw [hM.stopped hstop id (List.mem_append_left _ hid), hsame hf]
          rw [feeding_of_shape (m.update_shape now bus) (pins_of_wiring hwiring),
            feeding_congr houtside, (feeds_feeding m inner bus).tick_feed
              (hwired.of_wiring (inner.feed_wiring _).symm) _]
          exact hinner
      · obtain rfl := Option.some.inj (hn.symm.trans hM.component)
        obtain rfl := Option.some.inj ((Component.inner?_of_nested hkind).symm.trans hd)
        exact hcalm (hfailure ▸ hM.passed hnone)

/-- When a tick comes to the component at a place, it finds it as the history has it. -/
theorem RecountsAt.obeys (hr : c.RecountsAt script h i path) (hi : script.trigger = .instant)
    (hu : c.updating? now i path = some (m, bus)) (times : Times) : m.Obeys times script h bus := by
  induction path generalizing c now with
  | nil =>
    obtain ⟨m', hm, -, ⟨hnone, -⟩ | ⟨bus', hu', hM, hbus⟩⟩ := hr.here now
    · cases hnone.symm.trans hu
    · obtain ⟨rfl, rfl⟩ := Prod.mk.inj (Option.some.inj (hu'.symm.trans hu))
      exact hbus.obeys hi (hr.wired.component_pins_nodup hm) (hM.outputs_lt hr.wired hm) times
  | cons k path ih =>
    obtain ⟨n, inner, -, -, -, ⟨hnone, -⟩ | ⟨outer, hu', -, hinner⟩⟩ := hr.below now
    · cases hnone.symm.trans hu
    · exact ih hinner (hu'.symm.trans hu)

/-- Feeding changes nothing about components. -/
theorem located?_feed (c : Circuit) (writes : List (Nat × Bool)) (i : Nat) (path : List Nat) :
    ((c.feed writes).located? i path).map (·.1) = (c.located? i path).map (·.1) := by
  cases path with
  | nil =>
    rw [located?, located?, Option.map_map, Option.map_map]
    rfl
  | cons k path => rfl

/-- To the component at a place a tick does this one update, or nothing. -/
theorem RecountsAt.located_tick (hr : c.RecountsAt script h i path) (now times : Times) :
    ((c.tick now).1.located? i path).map (·.1) =
      match c.updating? now i path with
      | some (m, bus) => some (m.update times bus).value
      | none => (c.located? i path).map (·.1) := by
  induction path generalizing c now with
  | nil =>
    obtain ⟨m, hm, -, ⟨hu, hM⟩ | ⟨bus, hu, hM, hbus⟩⟩ := hr.here now
    · rw [located?, located?, hu, hM.component, hm]
      rfl
    · have hsame : m.update now bus = m.update times bus :=
        (Component.update_scripted hbus.kind now bus).trans
          (Component.update_scripted hbus.kind times bus).symm
      rw [located?, hu, hM.component, hsame]
      rfl
  | cons k path ih =>
    obtain ⟨m, inner, hm, hk, -, ⟨hu, hM⟩ | ⟨bus, hu, hM, hinner⟩⟩ := hr.below now
    · rw [located?, located?, hu, hM.component, hm]
    · have hafter := Component.inner?_of_nested (update_nested hk now bus).1
      rw [hu, located?, located?, hM.component, hm, Option.bind_some, Option.bind_some, hafter,
        Component.inner?_of_nested hk, Option.bind_some, Option.bind_some, ih hinner, located?_feed]

/-- Between actions, too, the component at a place is as the history has it. -/
theorem RecountsAt.located (hr : (c.feed writes).RecountsAt script h i path) (hF : c.Feeds writes) :
    ∃ m bus, c.located? i path = some (m, bus) ∧ m.Recalls script h bus := by
  have hw : c.Wired := hr.wired.of_wiring (c.feed_wiring writes).symm
  induction path generalizing c writes with
  | nil =>
    obtain ⟨-, m, hm, hrec⟩ := hr
    have hm : c.components[i]? = some m := hm
    refine ⟨m, c.connections, by rw [located?, hm]; rfl, hrec.kind, hrec.level, fun j id hj => ?_⟩
    rw [← hrec.outputs j id hj, Bus.level, Bus.level, hF.kept (hw.written hm (List.mem_of_getElem? hj))]
  | cons k path ih =>
    obtain ⟨-, n, inner, hn, hk, hrec⟩ := hr
    have hn : c.components[k]? = some n := hn
    obtain ⟨m, bus, hlocated, hrecalls⟩ := ih hrec (feeds_feeding n inner _)
      (hrec.wired.of_wiring (inner.feed_wiring _).symm)
    refine ⟨m, bus, ?_, hrecalls⟩
    rw [located?, hn, Option.bind_some, Component.inner?_of_nested hk, Option.bind_some]
    exact hlocated

theorem toggle_getElem? (c : Circuit) (n : Nat) (hm : c.components[i]? = some m)
    (hb : m.isButton = false) : ((c.toggle? n).getD c).components[i]? = some m := by
  rw [toggle?_eq]
  cases hn : c.buttons[n]? with
  | none => exact hm
  | some id =>
    have hne : id ≠ i := by
      rintro rfl
      have hbutton : (c.components[id]?).any Component.isButton = true :=
        (List.mem_filter.1 (List.mem_of_getElem? hn)).2
      rw [hm, Option.any_some, hb] at hbutton
      cases hbutton
    rw [Option.map_some, Option.getD_some, flip_getElem?, hm, Option.map_some, if_neg hne]

theorem toggle_wiring (c : Circuit) (n : Nat) : ((c.toggle? n).getD c).wiring = c.wiring := by
  rw [toggle?_eq]
  cases c.buttons[n]? with
  | none => rfl
  | some id => exact c.flip_wiring id

/-- Toggles are outside of every history. -/
theorem RecountsAt.toggle (hr : c.RecountsAt script h i path) (n : Nat) :
    ((c.toggle? n).getD c).RecountsAt script h i path := by
  have hw' := hr.wired.of_wiring (c.toggle_wiring n)
  have hconnections : ((c.toggle? n).getD c).connections = c.connections :=
    connections_toggleAll [n] c
  cases path with
  | nil =>
    obtain ⟨-, m, hm, hrec⟩ := hr
    have hb : m.isButton = false := by
      rw [Component.isButton, hrec.kind]
      rfl
    exact ⟨hw', m, c.toggle_getElem? n hm hb, hconnections ▸ hrec⟩
  | cons k path =>
    obtain ⟨-, m, inner, hm, hk, hrec⟩ := hr
    have hb : m.isButton = false := by
      rw [Component.isButton, hk]
      rfl
    exact ⟨hw', m, inner, c.toggle_getElem? n hm hb, hk, hconnections ▸ hrec⟩

/-- A run keeps the history true. -/
theorem RecountsAt.follow (hi : script.trigger = .instant) (actions : List Action)
    (hr : c.RecountsAt script h i path) (hl : h.Lawful script) :
    (Circuit.follow script i path actions (c, h)).1.RecountsAt script
        (Circuit.follow script i path actions (c, h)).2 i path ∧
      (Circuit.follow script i path actions (c, h)).2.Lawful script := by
  induction actions generalizing c h with
  | nil => exact ⟨hr, hl⟩
  | cons action actions ih =>
    cases action with
    | toggle n => exact ih (hr.toggle n) hl
    | tick now =>
      refine ih (hr.tick hi now).1 ?_
      rw [History.tick]
      split
      · exact hl.update _
      · exact hl

end Tick

/-- In this state of the circuit, the component at a place goes by this history of its script, whatever
times the clocks read. The script reads no time, so any `times` will do for its own update. -/
structure GoesBy (script : Script) (i : Nat) (path : List Nat) (c : Circuit) (h : History) : Prop where
  lawful : h.Lawful script
  located : ∃ m bus, c.located? i path = some (m, bus) ∧ m.Recalls script h bus
  updating : ∀ now times m bus, c.updating? now i path = some (m, bus) → m.Obeys times script h bus
  /-- A tick does to the component this one update, or nothing. -/
  ticked : ∀ now times, ((c.tick now).1.located? i path).map (·.1) =
    match c.updating? now i path with
    | some (m, bus) => some (m.update times bus).value
    | none => (c.located? i path).map (·.1)

theorem RecountsAt.goesBy (hr : c.RecountsAt script h i path) (hi : script.trigger = .instant)
    (hl : h.Lawful script) : c.GoesBy script i path h := by
  constructor
  case lawful => exact hl
  case located =>
    rw [← c.feed_nil] at hr
    exact hr.located c.feeds_nil
  case updating => exact fun now times m bus hu => hr.obeys hi hu times
  case ticked => exact hr.located_tick

/-- Where nothing is on, low levels that are fed change nothing. -/
theorem Fresh.feed (hc : c.Fresh) (hlow : ∀ w ∈ writes, w.2 = false) : c.feed writes = c := by
  refine ext_getElem? rfl rfl (fun _ => rfl) fun id => ?_
  show (Bus.driveAll c.connections writes)[id]? = _
  rw [Bus.getElem?_driveAll]
  cases hk : c.connections[id]? with
  | none => rfl
  | some k =>
    have hactive := (hc id k hk).1
    rw [Option.map_some, Connection.receive]
    congr 1
    clear hk
    induction writes with
    | nil => rfl
    | cons w writes ih =>
      have hdrive : (if w.1 = id then k.drive w.2 else k) = k := by
        rw [hlow w List.mem_cons_self, ← hactive, Connection.drive_active, ite_self]
      rw [List.foldl_cons, hdrive]
      exact ih fun w hw => hlow w (List.mem_cons_of_mem _ hw)

theorem Fresh.feed_feeding (hc : c.Fresh) (hi : inner.Fresh) (m : Component) :
    inner.feed (m.feeding inner c.connections) = inner := by
  apply hi.feed
  intro w hw
  obtain ⟨joint, -, rfl⟩ := List.mem_map.1 hw
  exact hc.level joint.1

theorem Fresh.recounts (hc : c.Fresh) (hk : m.kind = .scripted { script }) (hlow : m.level = false) :
    m.Recounts script (.start m.inputs.length) c.connections := by
  refine ⟨⟨hk, hlow, fun j id _ => ?_⟩, ?_⟩
  · rw [hc.level]
    rfl
  · refine List.eq_replicate_iff.2 ⟨List.length_map _, fun level hlevel => ?_⟩
    obtain ⟨id, -, rfl⟩ := List.mem_map.1 hlevel
    rw [Bus.noted_of_changed fun k hk => (hc id k hk).2, hc.level]

end Circuit

namespace Field

variable {rs : Registries} {clockPeriod depth i : Nat} {f : Field} {b : Build} {path : List Nat}
  {m : Component} {bus : Bus} {unit : ScriptUnit}

/-- A component is built as what its code stands for: a fresh built-in part, a script that has not run,
or a circuit. -/
theorem kind_of_build (he : f.grid.Exact) (hb : buildWithin rs clockPeriod depth f = .ok b)
    (hm : m ∈ b.circuit.components) : Kind.builtin? clockPeriod m.code = some m.kind ∨
      (∃ script, m.kind = .scripted { script }) ∨ ∃ pins inner, m.kind = .nested pins inner := by
  obtain ⟨b', hb', hc⟩ := buildWithin_circuitOf rs clockPeriod depth he
  obtain rfl := Except.ok.inj (hb.symm.trans hb')
  rw [hc] at hm
  obtain ⟨i, hi⟩ := List.getElem?_of_mem hm
  obtain ⟨p, hp, rfl⟩ := Grid.circuitOf_component_iff.1 hi
  obtain ⟨issues, hmake⟩ := Grid.make_of_mem_builtHeads (List.mem_of_getElem? hp)
  exact (maker_cases hmake).imp And.left And.right

theorem unit_of_build (he : f.grid.Exact) (hb : buildWithin rs clockPeriod depth f = .ok b)
    (hm : m ∈ b.circuit.components) (hk : m.kind = .scripted unit) :
    unit = { script := unit.script } := by
  obtain hbuiltin | ⟨script, hs⟩ | ⟨pins, inner, hn⟩ := kind_of_build he hb hm
  · rw [hk] at hbuiltin
    cases hc : m.code <;> rw [hc] at hbuiltin <;> cases hbuiltin
  · obtain rfl := Kind.scripted.inj (hk.symm.trans hs)
    rfl
  · cases hk.symm.trans hn

/-- At the start, the history of a component is empty. -/
theorem buildWithin_recountsAt (hr : rs.Exact) (he : f.grid.Exact)
    (hb : buildWithin rs clockPeriod depth f = .ok b)
    (hm : b.circuit.located? i path = some (m, bus)) (hk : m.kind = .scripted unit) :
    b.circuit.RecountsAt unit.script (.start m.inputs.length) i path := by
  obtain ⟨hw, hfresh⟩ := buildWithin_wired he hb
  induction path generalizing f depth b with
  | nil =>
    rw [Circuit.located?, Option.map_eq_some_iff] at hm
    obtain ⟨n, hn, hnm⟩ := hm
    obtain ⟨rfl, -⟩ := Prod.mk.inj hnm
    have hmem := List.mem_of_getElem? hn
    have hlow := Grid.level_of_mem_build ((buildWithin_eq rs clockPeriod depth f).symm.trans hb) n hmem
    rw [unit_of_build he hb hmem hk] at hk
    exact ⟨hw, n, hn, hfresh.recounts hk hlow⟩
  | cons k path ih =>
    rw [Circuit.located?, Option.bind_eq_some_iff] at hm
    obtain ⟨inner, hinner, hm⟩ := hm
    obtain ⟨n, hn, hinner⟩ := Option.bind_eq_some_iff.1 hinner
    obtain ⟨pins, hkind⟩ := Component.nested_of_inner? hinner
    obtain ⟨drawing, b', depth', -, hd, hb', rfl, rfl⟩ :=
      drawing_of_nested he hb (List.mem_of_getElem? hn) hkind
    have he' := hr.drawingOf? hd
    obtain ⟨hw', hfresh'⟩ := buildWithin_wired he' hb'
    refine ⟨hw, n, b'.circuit, hn, hkind, ?_⟩
    rw [hfresh.feed_feeding hfresh']
    exact ih he' hb' hm hw' hfresh'

/-- In every run of a built circuit, and however deep it sits, an instant script is invoked exactly at
the updates that find its inputs at other levels than the update before; each invocation is given the
number of earlier successes and the memory of the one before, and the last success shows. -/
theorem instant_goesBy (hr : rs.Exact) (he : f.grid.Exact) (hb : f.build rs clockPeriod = .ok b)
    (hm : b.circuit.located? i path = some (m, bus)) (hk : m.kind = .scripted unit)
    (hi : unit.script.trigger = .instant) (actions : List Action) :
    Circuit.GoesBy unit.script i path
      (Circuit.follow unit.script i path actions (b.circuit, .start m.inputs.length)).1
      (Circuit.follow unit.script i path actions (b.circuit, .start m.inputs.length)).2 := by
  have hstart := buildWithin_recountsAt hr he hb hm hk
  obtain ⟨hrecounts, hlawful⟩ := hstart.follow hi actions (History.start_lawful _ _)
  exact hrecounts.goesBy hi hlawful

end Field

/-- The script of a component that has one. -/
def Component.unit? (m : Component) : Option ScriptUnit :=
  match m.kind with
  | .scripted unit => some unit
  | _ => none

theorem Component.scripted_of_unit? {m : Component} {unit : ScriptUnit} (h : m.unit? = some unit) :
    m.kind = .scripted unit := by
  rw [unit?] at h
  split at h
  case h_1 unit' hk => exact Option.some.inj h ▸ hk
  case h_2 => cases h

/-- A script that fails the first time. -/
def hesitant : Script where
  name := "hesitant"
  trigger := .instant
  run inputs _ memory :=
    match memory.get? "tried" with
    | none => (memory.insert "tried" .null, .error (.failed "hesitant" ""))
    | some _ => (memory, .ok inputs)

/-- A part with the script in a part of its own. -/
def boxedRegistries : Registries :=
  ⟨#[⟨[⟨"box", .circuit ⟨"box", ⟨2, 1, #v[.input, .custom 0]⟩, ⟨1⟩⟩⟩]⟩,
    ⟨[⟨"hesitant", .script hesitant⟩]⟩]⟩

/-- A button that leads to the box. -/
def sampleBox : Field where
  name := "box"
  grid := ⟨5, 1, #v[.button, .output, .wire, .input, .custom 0]⟩
  registry := ⟨0⟩

/-- The button is pressed, and released after the script has failed once. -/
def samplePresses : List Action :=
  [.toggle 0, .tick 0, .tick 1, .tick 2, .toggle 0, .tick 3, .tick 4]

theorem sampleBox_goesBy : boxedRegistries.Exact ∧ sampleBox.grid.Exact ∧
    ∃ b m bus unit, sampleBox.build boxedRegistries 0 = .ok b ∧
      b.circuit.located? 0 [2] = some (m, bus) ∧ m.kind = .scripted unit ∧
      unit.script.trigger = .instant ∧
      (Circuit.follow unit.script 0 [2] samplePresses
        (b.circuit, .start m.inputs.length)).2.invocations.map (·.inputs) = [[true], [false]] ∧
      Circuit.GoesBy unit.script 0 [2]
        (Circuit.follow unit.script 0 [2] samplePresses (b.circuit, .start m.inputs.length)).1
        (Circuit.follow unit.script 0 [2] samplePresses (b.circuit, .start m.inputs.length)).2 := by
  have hr : boxedRegistries.Exact := by
    simp [Registries.Exact, boxedRegistries]
    decide
  have he : sampleBox.grid.Exact := by decide
  have hinvoked : (sampleBox.build boxedRegistries 0).toOption.any (fun b =>
      (b.circuit.located? 0 [2]).any fun e => e.1.unit?.any fun unit =>
        decide (unit.script.trigger = .instant ∧
          (Circuit.follow unit.script 0 [2] samplePresses
            (b.circuit, .start e.1.inputs.length)).2.invocations.map (·.inputs) =
              [[true], [false]])) = true := by decide +kernel
  obtain ⟨b, hb, -⟩ := Field.buildWithin_circuitOf boxedRegistries 0 maxNesting he
  have hb : sampleBox.build boxedRegistries 0 = .ok b := hb
  rw [hb, Except.toOption, Option.any_some] at hinvoked
  obtain ⟨⟨m, bus⟩, hm, hunit⟩ := (Option.any_eq_true _ _).1 hinvoked
  obtain ⟨unit, hunit, hcalls⟩ := (Option.any_eq_true _ _).1 hunit
  obtain ⟨hi, hcalls⟩ := of_decide_eq_true hcalls
  have hk := Component.scripted_of_unit? hunit
  exact ⟨hr, he, b, m, bus, unit, hb, hm, hk, hi, hcalls,
    Field.instant_goesBy hr he hb hm hk hi samplePresses⟩

end GridCircuit
