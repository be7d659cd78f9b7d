import GridCircuit.Proofs.Undriven

/-!
# What a failing tick leaves behind

A tick that fails stops in its first half, at one component. The gates before it have been updated, each
as if it had been alone, since no two gates share a connection; the gates behind it and all wires are
as they were. The component itself has a script that has failed, or it is a circuit whose own tick has
failed, after it was fed; then the same is true inside of it, down to a script.
-/

namespace GridCircuit

section Gates

variable {now : Times} {i j : Nat} {cs : List Component} {m : Component} {bus : Bus}
  {failure : ScriptFailure}

/-- The first half of a tick passes over the wires. -/
theorem updateGates_wire (hm : cs[j]? = some m) (hw : m.isWire = true) (bus : Bus) :
    (updateGates now cs bus).value[j]? = some m := by
  induction cs generalizing j bus with
  | nil => cases hm
  | cons n cs ih =>
    rw [updateGates]
    cases j with
    | zero =>
      obtain rfl := Option.some.inj hm
      rw [if_pos hw]
      rfl
    | succ j =>
      have hm : cs[j]? = some m := hm
      split
      case isTrue => exact ih hm bus
      case isFalse =>
        split
        case h_1 => exact hm
        case h_2 n' bus' hu => exact ih hm bus'

/-- If some gate fails, there is a first one. -/
theorem exists_first_failure (hf : (updateGates now cs bus).failure = some failure) :
    ∃ i m, cs[i]? = some m ∧ m.isWire = false ∧ (updateGates now (cs.take i) bus).failure = none ∧
      (m.update now (updateGates now (cs.take i) bus).bus).failure = some failure := by
  induction cs generalizing bus with
  | nil => cases hf
  | cons n cs ih =>
    rw [updateGates] at hf
    split at hf
    case isTrue hw =>
      obtain ⟨i, m, hm, hgate, hnone, hfails⟩ := ih hf
      refine ⟨i + 1, m, hm, hgate, ?_, ?_⟩
      all_goals rw [List.take_succ_cons, updateGates, if_pos hw]
      exacts [hnone, hfails]
    case isFalse hw =>
      split at hf
      case h_1 n' bus' failure' hu =>
        refine ⟨0, n, rfl, Bool.eq_false_iff.2 hw, rfl, ?_⟩
        rw [List.take_zero, updateGates, hu]
        exact hf
      case h_2 n' bus' hu =>
        obtain ⟨i, m, hm, hgate, hnone, hfails⟩ := ih hf
        refine ⟨i + 1, m, hm, hgate, ?_, ?_⟩
        all_goals rw [List.take_succ_cons, updateGates, if_neg hw, hu]
        exacts [hnone, hfails]

end Gates

namespace Component

variable {now : Times} {m m' : Component} {bus bus' bus₁ bus₁' : Bus} {unit : ScriptUnit} {memory : Memory}
  {failure : ScriptFailure}

/-- Only a script fails, here or further inside. -/
theorem failed_cases (h : (m.update now bus).failure = some failure) :
    (∃ unit, m.kind = .scripted unit) ∨ ∃ pins inner, m.kind = .nested pins inner := by
  by_contra hno
  obtain ⟨hscript, hnested⟩ := not_or.1 hno
  rw [update_plain (fun unit hk => hscript ⟨unit, hk⟩) fun pins inner hk => hnested ⟨pins, inner, hk⟩] at h
  cases h

/-- What a script that has failed leaves of its component `m`, and of the connections that this is at:
the level, the outputs and the counter as they were, the memory of the failed run, and no news, be it
flags of changes or the edge of the clock. -/
structure Breaks (m : Component) (unit : ScriptUnit) (memory : Memory) (bus : Bus) (m' : Component)
    (bus' : Bus) (failure : ScriptFailure) : Prop where
  pos : m.cells.head? = some failure.pos
  run : unit.script.run (m.read bus).inputs unit.runs unit.memory = (memory, .error failure.cause)
  outputs : Bus.Agree m.outputs bus' bus
  instant : unit.script.trigger = .instant → m.inputs.any (Bus.hasChanged bus) = true ∧
    m' = { m with kind := .scripted { unit with memory } } ∧
    Bus.Agree m.pins bus' (Bus.acknowledge bus m.inputs)
  clocked : unit.script.trigger = .clocked → unit.edge.last = false ∧ (m.read bus).clock = true ∧
    m' = { m with kind := .scripted { unit with memory, edge := ⟨true⟩ } } ∧ Bus.Agree m.pins bus' bus

theorem runScript_failed (h : (m.runScript unit bus).failure = some failure) :
    ∃ memory, unit.script.run (m.read bus).inputs unit.runs unit.memory = (memory, .error failure.cause) ∧
      failure.pos = m.firstCell ∧
      m.runScript unit bus = ⟨{ m with kind := .scripted { unit with memory } }, bus, some failure⟩ := by
  rw [runScript] at h ⊢
  split at h
  case h_1 memory cause hrun =>
    obtain rfl := Option.some.inj h
    exact ⟨memory, hrun, rfl, rfl⟩
  case h_2 => cases h

theorem breaks_of_failed_instant (hk : m.kind = .scripted unit) (hi : unit.script.trigger = .instant)
    (hhead : m.cells.head? = some m.firstCell) (hn : m.pins.Nodup)
    (h : (m.update now bus).failure = some failure) :
    ∃ memory, m.Breaks unit memory bus (m.update now bus).value (m.update now bus).bus failure := by
  have hdisjoint := (List.nodup_append.1 hn).2.2
  rw [update_scripted hk, updateScripted, fires, hi] at h ⊢
  dsimp only at h ⊢
  cases hchanged : m.inputs.any (Bus.hasChanged bus) with
  | false =>
    rw [hchanged] at h
    cases h
  | true =>
    rw [hchanged] at h
    obtain ⟨memory, hrun, hpos, hleft⟩ := runScript_failed h
    rw [read_acknowledge] at hrun
    dsimp only
    rw [hleft]
    refine ⟨memory, hpos ▸ hhead, hrun, fun id hid => ?_, fun _ => ?_, fun hc => ?_⟩
    · have hno : id ∉ m.inputs := fun hin => hdisjoint id (mem_readers.2 (.inl hin)) id hid rfl
      rw [Bus.getElem?_acknowledge]
      simp only [if_neg hno]
      exact Option.map_id'
    · exact ⟨hchanged, rfl, fun _ _ => rfl⟩
    · cases hi.symm.trans hc

theorem breaks_of_failed_clocked (hk : m.kind = .scripted unit) (hc : unit.script.trigger = .clocked)
    (hhead : m.cells.head? = some m.firstCell) (h : (m.update now bus).failure = some failure) :
    ∃ memory, m.Breaks unit memory bus (m.update now bus).value (m.update now bus).bus failure := by
  rw [update_scripted hk, updateScripted, fires, hc] at h ⊢
  dsimp only at h ⊢
  rw [EdgeDetector.rising] at h ⊢
  dsimp only at h ⊢
  cases hrise : (m.read bus).clock && !unit.edge.last with
  | false =>
    rw [hrise] at h
    cases h
  | true =>
    obtain ⟨hclock, hlast⟩ := Bool.and_eq_true_iff.1 hrise
    have hlow : unit.edge.last = false := by simpa using hlast
    rw [hrise] at h
    obtain ⟨memory, hrun, hpos, hleft⟩ := runScript_failed h
    dsimp only
    rw [hleft, hclock]
    refine ⟨memory, hpos ▸ hhead, hrun, fun _ _ => rfl, fun hi => ?_, fun _ => ?_⟩
    · cases hc.symm.trans hi
    · exact ⟨hlow, hclock, rfl, fun _ _ => rfl⟩

theorem breaks_of_failed (hk : m.kind = .scripted unit) (hcells : m.cells ≠ []) (hn : m.pins.Nodup)
    (h : (m.update now bus).failure = some failure) :
    ∃ memory, m.Breaks unit memory bus (m.update now bus).value (m.update now bus).bus failure := by
  have hhead : m.cells.head? = some m.firstCell := by
    rw [firstCell]
    cases hc : m.cells with
    | nil => exact absurd hc hcells
    | cons p cells => rfl
  cases ht : unit.script.trigger with
  | instant => exact breaks_of_failed_instant hk ht hhead hn h
  | clocked => exact breaks_of_failed_clocked hk ht hhead h

/-- It depends on the connections of the component alone. -/
theorem Breaks.congr (h : m.Breaks unit memory bus m' bus' failure) (ha : Bus.Agree m.pins bus bus₁)
    (ha' : Bus.Agree m.pins bus₁' bus') : m.Breaks unit memory bus₁ m' bus₁' failure := by
  have hreaders : Bus.Agree m.readers bus bus₁ := fun id hid => ha id (List.mem_append_left _ hid)
  have hinputs : Bus.Agree m.inputs bus bus₁ := fun id hid => hreaders id (mem_readers.2 (.inl hid))
  have hread := read_congr hreaders
  constructor
  case pos => exact h.pos
  case run => exact hread ▸ h.run
  case outputs =>
    intro id hid
    have hmem : id ∈ m.pins := mem_pins_of_outputs hid
    rw [ha' id hmem, h.outputs id hid, ha id hmem]
  case instant =>
    intro hi
    obtain ⟨hchanged, hleft, hack⟩ := h.instant hi
    refine ⟨hinputs.hasChanged ▸ hchanged, hleft, fun id hid => ?_⟩
    rw [ha' id hid, hack id hid, Bus.getElem?_acknowledge, Bus.getElem?_acknowledge, ha id hid]
  case clocked =>
    intro hc
    obtain ⟨hlast, hclock, hleft, hagree⟩ := h.clocked hc
    refine ⟨hlast, hread ▸ hclock, hleft, fun id hid => ?_⟩
    rw [ha' id hid, hagree id hid, ha id hid]

end Component

namespace Circuit

variable {now : Times} {i j id : Nat} {c c' d : Circuit} {m n : Component} {bus : Bus}
  {failure : ScriptFailure}

/-- The gates before one that is reached are reached too, and do not fail. -/
theorem moment_before (hm : c.moment? now i = some (m, bus)) (hji : j < i)
    (hn : c.components[j]? = some n) (hgate : n.isWire = false) :
    ∃ bus, c.moment? now j = some (n, bus) ∧ (n.update now bus).failure = none := by
  obtain ⟨-, hok, -⟩ := moment?_eq_some_iff.1 hm
  have hn' : (c.components.take i)[j]? = some n := (List.getElem?_take_of_lt hji).trans hn
  have hsplit := updateGates_split (c := { c with components := c.components.take i }) now hn'
  have hbefore : gatesBefore now { c with components := c.components.take i } j = c.gatesBefore now j := by
    rw [gatesBefore, gatesBefore, List.take_take, Nat.min_eq_left (Nat.le_of_lt hji)]
  rw [hbefore] at hsplit
  rw [gatesBefore, hsplit] at hok
  cases hb : c.gatesBefore now j with
  | mk value bus failure =>
    rw [hb] at hok
    cases failure with
    | some failure => cases hok
    | none =>
      refine ⟨bus, moment?_eq_some_iff.2 ⟨hn, by rw [hb], by rw [hb]⟩, ?_⟩
      dsimp only at hok
      rw [updateGates, hgate, if_neg Bool.false_ne_true] at hok
      split at hok
      case h_1 => cases hok
      case h_2 hu => rw [hu]

/-- A tick that fails stops at a component that it has come to. -/
structure BreaksAt (now : Times) (c : Circuit) (i : Nat) (m : Component) (bus : Bus)
    (failure : ScriptFailure) : Prop where
  moment : c.moment? now i = some (m, bus)
  gate : m.isWire = false
  fails : (m.update now bus).failure = some failure

theorem exists_break (h : (c.tick now).2 = some failure) :
    ∃ i m bus, c.BreaksAt now i m bus failure := by
  have hf : (updateGates now c.components c.connections).failure = some failure := by
    rw [tick, completeTick] at h
    split at h
    case h_1 failure' hf => exact hf.trans h
    case h_2 => cases h
  obtain ⟨i, m, hm, hgate, hnone, hfails⟩ := exists_first_failure hf
  exact ⟨i, m, _, moment?_eq_some_iff.2 ⟨hm, hnone, rfl⟩, hgate, hfails⟩

namespace BreaksAt

variable (h : c.BreaksAt now i m bus failure)

include h

/-- The table that such a tick leaves, part by part. -/
theorem updateGates_eq : updateGates now c.components c.connections =
    ⟨(c.gatesBefore now i).value ++ (m.update now bus).value :: c.components.drop (i + 1),
      (m.update now bus).bus, some failure⟩ := by
  obtain ⟨hm, hok, hbus⟩ := moment?_eq_some_iff.1 h.moment
  have hfails := h.fails
  rw [updateGates_split now hm]
  cases hb : c.gatesBefore now i with
  | mk value bus' failure' =>
    rw [hb] at hok hbus
    obtain rfl : failure' = none := hok
    obtain rfl : bus' = bus := hbus
    dsimp only
    rw [updateGates, h.gate, if_neg Bool.false_ne_true]
    cases hu : m.update now bus' with
    | mk m' bus'' failure'' =>
      rw [hu] at hfails
      obtain rfl : failure'' = some failure := hfails
      rfl

theorem tick_eq : c.tick now = (c.gated now, some failure) := by
  rw [tick, completeTick, h.updateGates_eq, gated, h.updateGates_eq]

/-- Connections of no gate up to the one that fails are as they were. -/
theorem elsewhere (hid : ∀ j ≤ i, ∀ n, c.components[j]? = some n → n.isWire = false → id ∉ n.pins) :
    (c.gated now).connections[id]? = c.connections[id]? := by
  obtain ⟨hm, -, hbus⟩ := moment?_eq_some_iff.1 h.moment
  have hown : (c.gated now).connections[id]? = bus[id]? := by
    rw [gated, h.updateGates_eq]
    exact m.update_frame now (hid i (Nat.le_refl i) m hm h.gate)
  rw [hown, ← hbus]
  refine updateGates_keeps (p := fun bus => bus[id]?) (fun n hn hw bus => ?_) c.connections
  obtain ⟨j, hj⟩ := List.getElem?_of_mem hn
  have hlt : j < i := (List.length_take_le i _).trans_lt' (List.getElem?_eq_some_iff.1 hj).1
  rw [List.getElem?_take_of_lt hlt] at hj
  exact n.update_frame now (hid j (Nat.le_of_lt hlt) n hj hw)

/-- Components behind the one that fails are as they were. -/
theorem behind (hij : i < j) (hn : c.components[j]? = some n) :
    (c.gated now).components[j]? = some n := by
  have hlen := gatesBefore_length now (moment?_eq_some_iff.1 h.moment).1
  obtain ⟨r, rfl⟩ : ∃ r, j = i + (r + 1) := ⟨j - i - 1, by omega⟩
  rw [gated, h.updateGates_eq]
  dsimp only
  rw [List.getElem?_append_right (by omega), hlen, Nat.add_sub_cancel_left, List.getElem?_cons_succ,
    List.getElem?_drop, Nat.add_assoc, Nat.add_comm 1 r, hn]

end BreaksAt

/-- In the first half of a tick no connection that comes from a wire is written. -/
theorem Wired.level_gated (hw : c.Wired) (now : Times) (hn : c.components[j]? = some n)
    (hwire : n.isWire = true) (hid : id ∈ n.outputs) :
    Bus.level (c.gated now).connections id = Bus.level c.connections id := by
  have hkept : ((c.gated now).connections[id]?).map (·.active) =
      (c.connections[id]?).map (·.active) := by
    refine updateGates_keeps (p := fun bus => (bus[id]?).map (·.active)) (fun g hg hgate bus => ?_)
      c.connections
    refine Component.update_unwritten now fun hwritten => ?_
    obtain ⟨k, hk⟩ := List.getElem?_of_mem hg
    obtain rfl := hw.writer_unique hn hk hid (g.written_subset hwritten)
    obtain rfl := Option.some.inj (hn.symm.trans hk)
    rw [hwire] at hgate
    cases hgate
  rw [Bus.level, Bus.level, hkept]

/-- What a tick that stops at the `i`-th component leaves of everything but this component. -/
structure StopsAt (now : Times) (c c' : Circuit) (i : Nat) (m : Component) : Prop where
  component : c.components[i]? = some m
  gate : m.isWire = false
  ticks : c'.ticks = c.ticks
  wiring : c'.wiring = c.wiring
  wires : ∀ (j : Nat) (n : Component), c.components[j]? = some n → n.isWire = true →
    c'.components[j]? = some n
  /-- Connections that come from a wire keep their levels. -/
  driven : ∀ (id j : Nat) (k : Connection) (n : Component), c.connections[id]? = some k →
    k.driver = some j → c.components[j]? = some n → n.isWire = true →
      Bus.level c'.connections id = Bus.level c.connections id
  /-- Every gate before has been updated, on its own. -/
  before : ∀ j < i, ∀ n, c.components[j]? = some n → n.isWire = false →
    (n.update now c.connections).failure = none ∧
      c'.components[j]? = some (n.update now c.connections).value ∧
      Bus.Agree n.pins c'.connections (n.update now c.connections).bus
  /-- So it is as after the first half of a tick that succeeds, in a circuit that differs only from here
  on. -/
  succeeding : ∀ d : Circuit, d.wiring = c.wiring → d.connections = c.connections →
    d.components.take i = c.components.take i → (d.tick now).2 = none →
      ∀ j < i, ∀ n, c.components[j]? = some n → n.isWire = false →
        c'.components[j]? = (d.gated now).components[j]? ∧
          Bus.Agree n.pins c'.connections (d.gated now).connections
  /-- Every gate behind is as it was, and so are its connections. -/
  after : ∀ j > i, ∀ n, c.components[j]? = some n → n.isWire = false →
    c'.components[j]? = some n ∧ Bus.Agree n.pins c'.connections c.connections
  /-- Connections of no gate up to this one are as they were. -/
  elsewhere : ∀ id, (∀ j ≤ i, ∀ n, c.components[j]? = some n → n.isWire = false → id ∉ n.pins) →
    c'.connections[id]? = c.connections[id]?

namespace BreaksAt

theorem updated (hw : c.Wired) (hm : c.moment? now j = some (n, bus)) (hgate : n.isWire = false)
    (hok : (n.update now bus).failure = none) : (n.update now c.connections).failure = none ∧
      (c.gated now).components[j]? = some (n.update now c.connections).value ∧
      Bus.Agree n.pins (c.gated now).connections (n.update now c.connections).bus := by
  obtain ⟨hbefore, hcomponent, hafter, -⟩ := hw.gated_of_moment hgate hm
  have hreaders : Bus.Agree n.readers bus c.connections := fun id hid =>
    hbefore id (List.mem_append_left _ hid)
  have hlocal := n.update_local now hreaders
  refine ⟨hlocal.failure ▸ hok, hlocal.value ▸ hcomponent, fun id hid => ?_⟩
  rw [hafter id hid, hlocal.bus id (hbefore id hid)]

theorem stopsAt (h : c.BreaksAt now i m bus failure) (hw : c.Wired) :
    c.StopsAt now (c.gated now) i m := by
  have hm := (moment?_eq_some_iff.1 h.moment).1
  constructor
  case component => exact hm
  case gate => exact h.gate
  case ticks => rfl
  case wiring =>
    have hwiring := c.tick_wiring now
    rwa [h.tick_eq] at hwiring
  case wires => exact fun j n hn hwire => updateGates_wire hn hwire c.connections
  case driven =>
    intro id j k₀ n hk₀ hdriver hn hwire
    obtain ⟨n', hn', hid⟩ := (hw.driver_iff id k₀ hk₀ j).1 hdriver
    obtain rfl := Option.some.inj (hn.symm.trans hn')
    exact hw.level_gated now hn hwire hid
  case before =>
    intro j hji n hn hgate
    obtain ⟨bus', hmoment, hok⟩ := moment_before h.moment hji hn hgate
    exact updated hw hmoment hgate hok
  case succeeding =>
    intro d hwiring hconnections hcomponents hok j hji n hn hgate
    have hd : d.Wired := hw.of_wiring hwiring
    have hdn : d.components[j]? = some n := by
      rw [← List.getElem?_take_of_lt hji, hcomponents, List.getElem?_take_of_lt hji, hn]
    obtain ⟨bus', hmoment, hok'⟩ := moment_before h.moment hji hn hgate
    obtain ⟨-, hcomponent, hafter⟩ := updated hw hmoment hgate hok'
    obtain ⟨bus'', hmoment'⟩ := hd.moment_of_success hgate hdn hok
    obtain ⟨-, hcomponent', hafter'⟩ :=
      updated hd hmoment' hgate ((hd.meets hgate hmoment').passed hok)
    rw [hconnections] at hcomponent' hafter'
    exact ⟨hcomponent.trans hcomponent'.symm, fun id hid => (hafter id hid).trans (hafter' id hid).symm⟩
  case after =>
    intro j hij n hn hgate
    refine ⟨h.behind hij hn, fun id hid => h.elsewhere fun k hki g hg hgate' hidg => ?_⟩
    exact hw.gate_apart hgate hn (by omega) hg hgate' hid hidg
  case elsewhere => exact fun id => h.elsewhere

end BreaksAt

/-- What a tick that fails makes of a circuit. -/
inductive Stops : Times → Circuit → Circuit → ScriptFailure → Prop
  /-- A script of this circuit has failed. -/
  | script {now : Times} {c c' : Circuit} {failure : ScriptFailure} {i : Nat} {m m' : Component}
      {unit : ScriptUnit} {memory : Memory} (here : c.StopsAt now c' i m) (kind : m.kind = .scripted unit)
      (component : c'.components[i]? = some m')
      (breaks : m.Breaks unit memory c.connections m' c'.connections failure) : Stops now c c' failure
  /-- The tick of a circuit inside has failed. Its pins were given the levels outside; outside of it,
  the level and all connections of the component are as they were. -/
  | nested {now : Times} {c c' : Circuit} {failure : ScriptFailure} {i : Nat} {m : Component}
      {inner inner' : Circuit}
      (here : c.StopsAt now c' i m) (kind : m.kind = .nested inner.pins inner)
      (component : c'.components[i]? = some { m with kind := .nested inner.pins inner' })
      (outside : Bus.Agree m.pins c'.connections c.connections)
      (fed : ∀ joint ∈ inner.pins.entries m,
        Bus.level inner'.connections joint.2 = Bus.level c.connections joint.1)
      (inside : Stops (now.inside m.firstCell) (inner.feed (m.feeding inner c.connections)) inner'
        failure) :
      Stops now c c' failure

/-- A circuit is wired, every component covers a cell, and so it is in every circuit inside. -/
inductive Proper : Circuit → Prop
  | intro {c : Circuit} (wired : c.Wired) (cells : ∀ m ∈ c.components, m.cells ≠ [])
      (pins_eq : ∀ m ∈ c.components, ∀ pins inner, m.kind = .nested pins inner → pins = inner.pins)
      (within : ∀ m ∈ c.components, ∀ pins inner, m.kind = .nested pins inner → Proper inner) : Proper c

namespace Proper

variable {writes : List (Nat × Bool)}

theorem wired (h : c.Proper) : c.Wired := by
  cases h with
  | intro wired cells pins_eq within => exact wired

theorem feed (h : c.Proper) (writes : List (Nat × Bool)) : (c.feed writes).Proper := by
  cases h with
  | intro wired cells pins_eq within =>
    exact .intro (wired.of_wiring (c.feed_wiring writes)) cells pins_eq within

theorem tick_feed (h : c.Proper) : ∀ now writes, ((c.feed writes).tick now).1.Proper := by
  induction h with
  | @intro c wired cells pins_eq within ih =>
    intro now writes
    have hw : (c.feed writes).Wired := wired.of_wiring (c.feed_wiring writes)
    have hinner : ∀ m ∈ ((c.feed writes).tick now).1.components, ∀ pins inner,
        m.kind = .nested pins inner → pins = inner.pins ∧ inner.Proper := fun m hm pins inner hk =>
      hw.nested_of_tick (P := fun _ inner => inner.Proper) (fun _ _ _ _ hinner => hinner) pins_eq
        (fun m hm inner hk => within m hm _ _ hk) (fun m hm inner hk times bus => ih m hm _ _ hk times _)
        hm hk
    have hcells := tick_map (p := fun m => m.cells)
      (fun m bus => congrArg Prod.snd (m.update_figure now bus)) (c.feed writes)
    refine .intro (hw.of_wiring (tick_wiring now _)) (fun m hm => ?_)
      (fun m hm pins inner hk => (hinner m hm pins inner hk).1)
      fun m hm pins inner hk => (hinner m hm pins inner hk).2
    have hmem := List.mem_map_of_mem (f := fun m : Component => m.cells) hm
    rw [hcells] at hmem
    obtain ⟨m₀, hm₀, he⟩ := List.mem_map.1 hmem
    exact he ▸ cells m₀ hm₀

theorem flip (h : c.Proper) (id : Nat) : (c.flip id).Proper := by
  cases h with
  | intro wired cells pins_eq within =>
    refine .intro (wired.of_wiring (c.flip_wiring id)) ?_ ?_ ?_
    all_goals
      intro m hm
      obtain ⟨m₀, hm₀, level, rfl⟩ := exists_of_mem_flip hm
    · exact cells m₀ hm₀
    · exact pins_eq m₀ hm₀
    · exact within m₀ hm₀

theorem reachable {c₀ : Circuit} (h : c₀.Proper) (hc : Reachable c₀ c) : c.Proper := by
  induction hc with
  | start => exact h
  | tick now hc ih =>
    have hticked := ih.tick_feed now []
    rwa [feed_nil] at hticked
  | toggle events hc ih => exact toggleAll_induction Proper (fun _ id hd => hd.flip id) events _ ih
  | drive id level hc ih => exact ih.feed [(id, level)]

/-- A tick that fails, of a circuit that was fed, leaves what it says. -/
theorem stops (h : c.Proper) : ∀ now writes failure,
    ((c.feed writes).tick now).2 = some failure →
      (c.feed writes).Stops now ((c.feed writes).tick now).1 failure := by
  induction h with
  | @intro c wired cells pins_eq within ih =>
    intro now writes failure hf
    obtain ⟨i, m, bus, hbreak⟩ := exists_break hf
    have hw : (c.feed writes).Wired := wired.of_wiring (c.feed_wiring writes)
    have hm := (moment?_eq_some_iff.1 hbreak.moment).1
    have hmem : m ∈ c.components := List.mem_of_getElem? hm
    have hhere := hbreak.stopsAt hw
    obtain ⟨hbefore, hcomponent, hafter, -⟩ := hw.gated_of_moment hbreak.gate hbreak.moment
    rw [hbreak.tick_eq]
    obtain ⟨unit, hk⟩ | ⟨pins, inner, hk⟩ := Component.failed_cases hbreak.fails
    · obtain ⟨memory, hbreaks⟩ := Component.breaks_of_failed hk (cells m hmem)
        (hw.component_pins_nodup hm) hbreak.fails
      exact .script hhere hk hcomponent (hbreaks.congr hbefore hafter)
    · obtain rfl := pins_eq m hmem pins inner hk
      have hreaders : Bus.Agree m.readers bus (c.feed writes).connections :=
        fun id hid => hbefore id (List.mem_append_left _ hid)
      have hfails := (update_nested hk now bus).2.1.symm.trans hbreak.fails
      obtain ⟨inner', ht⟩ : ∃ inner', (inner.feed (m.feeding inner bus)).tick (now.inside m.firstCell) =
          (inner', some failure) := ⟨_, Prod.ext rfl hfails⟩
      have hupdate : m.update now bus =
          ⟨{ m with kind := .nested inner.pins inner' }, bus, some failure⟩ := by
        rw [update_nested_eq hk, ht]
      rw [hupdate] at hcomponent hafter
      rw [feeding_congr hreaders] at ht
      have hinside := ih m hmem _ _ hk (now.inside m.firstCell)
        (m.feeding inner (c.feed writes).connections) failure (by rw [ht])
      have hlast := tick_mem_during (now.inside m.firstCell)
        (inner.feed (m.feeding inner (c.feed writes).connections))
      rw [ht] at hinside hlast
      exact .nested hhere hk hcomponent (fun id hid => (hafter id hid).trans (hbefore id hid))
        (fun joint hjoint => (within m hmem _ _ hk).wired.level_fed m _ hlast hjoint) hinside

end Proper

end Circuit

namespace Field

variable {rs : Registries} {clockPeriod depth : Nat} {f : Field} {b : Build}

/-- Every component of a built circuit covers a cell. -/
theorem cells_of_build (he : f.grid.Exact) (hb : buildWithin rs clockPeriod depth f = .ok b) :
    ∀ m ∈ b.circuit.components, m.cells ≠ [] := by
  obtain ⟨b', hb', hc⟩ := buildWithin_circuitOf rs clockPeriod depth he
  obtain rfl := Except.ok.inj (hb.symm.trans hb')
  rw [hc]
  intro m hm
  obtain ⟨i, hi⟩ := List.getElem?_of_mem hm
  obtain ⟨h, hh, rfl⟩ := Grid.circuitOf_component_iff.1 hi
  have hhead := Grid.mem_heads_of_mem_builtHeads (List.mem_of_getElem? hh)
  exact List.ne_nil_of_mem (Grid.self_mem_classOf (Grid.mem_heads.1 hhead).1)

theorem buildWithin_proper (hr : rs.Exact) (he : f.grid.Exact)
    (hb : buildWithin rs clockPeriod depth f = .ok b) : b.circuit.Proper := by
  refine buildWithin_induction (P := fun _ _ c => c.Proper) hr (fun depth f b he hb below => ?_) he hb
  refine .intro (buildWithin_wired he hb).1 (cells_of_build he hb)
    (fun m hm pins inner hk => (below m hm pins inner hk).1) fun m hm pins inner hk => ?_
  obtain ⟨-, drawing, -, hinner⟩ := below m hm pins inner hk
  exact hinner

/-- In every state that a built circuit can come to, a tick that fails reports a script that has failed,
and leaves every other component updated or not, according to the order of the table. -/
theorem tick_stops (hr : rs.Exact) (he : f.grid.Exact) (hb : f.build rs clockPeriod = .ok b)
    {c c' : Circuit} (hc : b.circuit.Reachable c) {now : Times} {failure : ScriptFailure}
    (ht : c.tick now = (c', some failure)) : c.Stops now c' failure := by
  have hproper := (buildWithin_proper hr he hb).reachable hc
  have hstops := hproper.stops now [] failure (by rw [Circuit.feed_nil, ht])
  rwa [Circuit.feed_nil, ht] at hstops

end Field

/-- A button that leads to a part with a script inside, between an inverter and a battery. -/
def sampleCrowd : Field where
  name := "crowd"
  grid := ⟨5, 5, #v[.not, .output, .wire, .empty, .empty,
    .empty, .empty, .empty, .empty, .empty,
    .button, .output, .wire, .input, .custom 0,
    .empty, .empty, .empty, .empty, .empty,
    .battery, .output, .wire, .empty, .empty]⟩
  registry := ⟨0⟩

theorem sampleCrowd_stops : boxedRegistries.Exact ∧ sampleCrowd.grid.Exact ∧
    ∃ b c c' failure, sampleCrowd.build boxedRegistries 0 = .ok b ∧ b.circuit.Reachable c ∧
      c.tick 1 = (c', some failure) ∧ failure.pos = ⟨1, 0⟩ ∧ c.Stops 1 c' failure := by
  have hr : boxedRegistries.Exact := by
    simp [Registries.Exact, boxedRegistries]
    decide
  have he : sampleCrowd.grid.Exact := by decide
  have hrun : (sampleCrowd.build boxedRegistries 0).toOption.any (fun b =>
      (((b.circuit.toggleAll [0]).tick 0).1.tick 1).2.any fun failure =>
        decide (failure.pos = ⟨1, 0⟩)) = true := by decide +kernel
  obtain ⟨b, hb, -⟩ := Field.buildWithin_circuitOf boxedRegistries 0 maxNesting he
  have hb : sampleCrowd.build boxedRegistries 0 = .ok b := hb
  rw [hb, Except.toOption, Option.any_some] at hrun
  obtain ⟨failure, hf, hpos⟩ := (Option.any_eq_true _ _).1 hrun
  obtain ⟨c', ht⟩ : ∃ c', ((b.circuit.toggleAll [0]).tick 0).1.tick 1 = (c', some failure) :=
    ⟨_, Prod.ext rfl hf⟩
  have hc : b.circuit.Reachable ((b.circuit.toggleAll [0]).tick 0).1 := .tick 0 (.toggle [0] .start)
  exact ⟨hr, he, b, _, c', failure, hb, hc, ht, of_decide_eq_true hpos, Field.tick_stops hr he hb hc ht⟩

end GridCircuit
