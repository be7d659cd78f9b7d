import GridCircuit.Proofs.Inlined

/-!
# The moment at which a tick comes to a component

A tick comes to a component that is no wire at most once. The gates before it have been updated by then
and none of them has failed, but the connections of the component are still as they were. Afterwards no
other gate touches them; the wires, which follow only if nothing has failed, write each of them at most
once. Who is connected to whom is never changed, so a circuit that is wired stays so.
-/

namespace GridCircuit

section Gates

variable {now : Times} {cs : List Component} {bus : Bus}

/-- What every update keeps about a component, the gates keep about the table. -/
theorem updateGates_map {β : Type} {p : Component → β}
    (h : ∀ (m : Component) (bus : Bus), p (m.update now bus).value = p m) (bus : Bus) :
    (updateGates now cs bus).value.map p = cs.map p := by
  induction cs generalizing bus with
  | nil => rfl
  | cons m cs ih =>
    rw [updateGates]
    split
    case isTrue => exact congrArg (p m :: ·) (ih bus)
    case isFalse =>
      have hm := h m bus
      split
      case h_1 hu =>
        rw [hu] at hm
        rw [List.map_cons, List.map_cons, hm]
      case h_2 m' bus' hu =>
        rw [hu] at hm
        rw [List.map_cons, List.map_cons, hm, ih bus']

theorem updateGates_shape (now : Times) (cs : List Component) (bus : Bus) :
    (updateGates now cs bus).value.map Component.shape = cs.map Component.shape :=
  updateGates_map (fun m bus => m.update_shape now bus) bus

/-- What every gate keeps about the bus, all of them keep, one after another. -/
theorem updateGates_keeps {β : Type} {p : Bus → β}
    (h : ∀ m ∈ cs, m.isWire = false → ∀ bus, p (m.update now bus).bus = p bus) (bus : Bus) :
    p (updateGates now cs bus).bus = p bus := by
  induction cs generalizing bus with
  | nil => rfl
  | cons m cs ih =>
    have ih := ih fun n hn => h n (List.mem_cons_of_mem _ hn)
    rw [updateGates]
    split
    case isTrue => exact ih bus
    case isFalse hw =>
      have hm := h m List.mem_cons_self (Bool.eq_false_iff.2 hw) bus
      split
      case h_1 hu => rwa [hu] at hm
      case h_2 m' bus' hu =>
        rw [hu] at hm
        exact (ih bus').trans hm

theorem updateWires_keeps {β : Type} {p : Bus → β}
    (h : ∀ m ∈ cs, m.isWire = true → ∀ bus, p (m.updatePlain now bus).bus = p bus) (bus : Bus) :
    p (updateWires now cs bus).2 = p bus := by
  induction cs generalizing bus with
  | nil => rfl
  | cons m cs ih =>
    have ih := ih fun n hn => h n (List.mem_cons_of_mem _ hn)
    rw [updateWires]
    split
    case isTrue hw => exact (ih _).trans (h m List.mem_cons_self hw bus)
    case isFalse => exact ih bus

theorem updateWires_map {β : Type} {p : Component → β}
    (h : ∀ (m : Component) (bus : Bus), p (m.update now bus).value = p m) (bus : Bus) :
    (updateWires now cs bus).1.map p = cs.map p := by
  induction cs generalizing bus with
  | nil => rfl
  | cons m cs ih =>
    rw [updateWires]
    split
    case isTrue hw =>
      rw [← Component.update_wire hw, List.map_cons, List.map_cons, h m bus, ih]
    case isFalse => exact congrArg (p m :: ·) (ih bus)

/-- The gates of a table one after another, part by part. -/
theorem updateGates_append (now : Times) (cs ds : List Component) (bus : Bus) :
    updateGates now (cs ++ ds) bus =
      match updateGates now cs bus with
      | ⟨value, bus, some failure⟩ => ⟨value ++ ds, bus, some failure⟩
      | ⟨value, bus, none⟩ =>
        { updateGates now ds bus with value := value ++ (updateGates now ds bus).value } := by
  induction cs generalizing bus with
  | nil => rfl
  | cons m cs ih =>
    rw [List.cons_append, updateGates, updateGates]
    split
    case isTrue =>
      rw [ih]
      cases updateGates now cs bus with
      | mk value bus failure => cases failure <;> rfl
    case isFalse =>
      cases m.update now bus with
      | mk m' bus' failure =>
        cases failure with
        | some failure => rfl
        | none =>
          dsimp only
          rw [ih]
          cases updateGates now cs bus' with
          | mk value bus failure => cases failure <;> rfl

end Gates

namespace Circuit

variable {now : Times} {i id : Nat} {c c' : Circuit} {m : Component} {bus : Bus}

section Wiring

/-- Who is connected to whom. -/
def wiring (c : Circuit) : List (Bool × List Nat × List Nat × Option Nat) × Bus :=
  (c.shape, c.connections.blank)

theorem tick_blank (now : Times) (c : Circuit) :
    (c.tick now).1.connections.blank = c.connections.blank := by
  have hgates : (updateGates now c.components c.connections).bus.blank = c.connections.blank :=
    updateGates_keeps (fun m _ _ bus => m.update_blank now bus) c.connections
  rw [tick, completeTick]
  split
  · exact hgates
  · exact (updateWires_keeps (fun m _ _ bus => Bus.blank_driveAll _ bus) _).trans hgates

theorem tick_wiring (now : Times) (c : Circuit) : (c.tick now).1.wiring = c.wiring :=
  Prod.ext (tick_shape now c) (c.tick_blank now)

theorem flip_wiring (c : Circuit) (id : Nat) : (c.flip id).wiring = c.wiring :=
  Prod.ext (c.flip_shape id) rfl

theorem exists_of_wiring (h : c'.wiring = c.wiring) {k : Connection}
    (hk : c'.connections[id]? = some k) :
    ∃ k₀, c.connections[id]? = some k₀ ∧ k.blank = k₀.blank := by
  have hid : c'.connections.blank[id]? = c.connections.blank[id]? :=
    congrArg (fun w : _ × Bus => w.2[id]?) h
  rw [Bus.getElem?_blank, Bus.getElem?_blank, hk, Option.map_some, eq_comm,
    Option.map_eq_some_iff] at hid
  obtain ⟨k₀, hk₀, he⟩ := hid
  exact ⟨k₀, hk₀, he.symm⟩

theorem pins_of_wiring (h : c'.wiring = c.wiring) : c'.pins = c.pins := by
  have hwhere : ∀ (bus : Bus) (P : Connection → Bool), (∀ k, P k.blank = P k) →
      connectionsWhere bus P = connectionsWhere bus.blank P := by
    intro bus P hP
    simp only [connectionsWhere, Bus.blank, Array.size_map, Array.getElem?_map, Option.any_map, hP]
  have hclock : ∀ (bus : Bus) (P : Connection → Bool), (∀ k, P k.blank = P k) →
      bus.findIdx? P = bus.blank.findIdx? P := by
    intro bus P hP
    rw [Bus.blank, Array.findIdx?_map]
    congr 1
    exact funext fun k => (hP k).symm
  have hblank : c'.connections.blank = c.connections.blank := congrArg Prod.snd h
  rw [pins, pins, Pins.mk.injEq]
  refine ⟨?_, ?_, ?_⟩
  · rw [hwhere c'.connections _ fun _ => rfl, hwhere c.connections _ fun _ => rfl, hblank]
  · rw [hwhere c'.connections _ fun _ => rfl, hwhere c.connections _ fun _ => rfl, hblank]
  · rw [hclock c'.connections _ fun _ => rfl, hclock c.connections _ fun _ => rfl, hblank]

theorem exists_shape_iff (h : c'.shape = c.shape) {P : Component → Prop}
    (hP : ∀ m n : Component, m.shape = n.shape → (P m ↔ P n)) (i : Nat) :
    (∃ m, c'.components[i]? = some m ∧ P m) ↔ ∃ m, c.components[i]? = some m ∧ P m := by
  constructor
  · intro hm
    obtain ⟨m, hm, hp⟩ := hm
    obtain ⟨n, hn, hs⟩ := exists_of_shape h hm
    exact ⟨n, hn, (hP m n hs).1 hp⟩
  · intro hm
    obtain ⟨m, hm, hp⟩ := hm
    obtain ⟨n, hn, hs⟩ := exists_of_shape h.symm hm
    exact ⟨n, hn, (hP m n hs).1 hp⟩

theorem flatMap_of_shape (h : c'.shape = c.shape)
    (f : Bool × List Nat × List Nat × Option Nat → List Nat) :
    c'.components.flatMap (fun m => f m.shape) = c.components.flatMap fun m => f m.shape := by
  have hf := congrArg (List.flatMap f) h
  rwa [shape, shape, List.flatMap_map, List.flatMap_map] at hf

/-- What is wired stays so as long as nothing but states change. -/
theorem Wired.of_wiring (hc : c.Wired) (h : c'.wiring = c.wiring) : c'.Wired := by
  have hshape : c'.shape = c.shape := congrArg Prod.fst h
  have hmem : ∀ m ∈ c'.components, ∃ m₀ ∈ c.components, m.shape = m₀.shape := by
    intro m hm
    obtain ⟨i, hi⟩ := List.getElem?_of_mem hm
    obtain ⟨m₀, hm₀, hs⟩ := exists_of_shape hshape hi
    exact ⟨m₀, List.mem_of_getElem? hm₀, hs⟩
  have hconnection : ∀ k ∈ c'.connections.toList, ∃ k₀ ∈ c.connections.toList,
      k.driver = k₀.driver ∧ k.sink = k₀.sink ∧ k.kind = k₀.kind := by
    intro k hk
    obtain ⟨id, hid⟩ := List.getElem?_of_mem hk
    obtain ⟨k₀, hk₀, he⟩ := exists_of_wiring h (Array.getElem?_toList.symm.trans hid)
    exact ⟨k₀, List.mem_of_getElem? (Array.getElem?_toList.trans hk₀), congrArg (·.driver) he,
      congrArg (·.sink) he, congrArg (·.kind) he⟩
  constructor
  case driver_iff =>
    intro id k hk i
    obtain ⟨k₀, hk₀, he⟩ := exists_of_wiring h hk
    have hdriver : k.driver = k₀.driver := congrArg (·.driver) he
    rw [hdriver, hc.driver_iff id k₀ hk₀ i]
    refine (exists_shape_iff hshape (fun m n hs => ?_) i).symm
    rw [Component.outputs_of_shape hs]
  case sink_iff =>
    intro id k hk i
    obtain ⟨k₀, hk₀, he⟩ := exists_of_wiring h hk
    have hsink : k.sink = k₀.sink := congrArg (·.sink) he
    rw [hsink, hc.sink_iff id k₀ hk₀ i]
    refine (exists_shape_iff hshape (fun m n hs => ?_) i).symm
    rw [Component.inputs_of_shape hs, Component.clock_of_shape hs]
  case ids_lt =>
    intro m hm id hid
    obtain ⟨m₀, hm₀, hs⟩ := hmem m hm
    have hsize := congrArg (fun w : _ × Bus => w.2.size) h
    simp only [wiring, Bus.blank, Array.size_map] at hsize
    rw [hsize]
    exact hc.ids_lt m₀ hm₀ id (Component.pins_of_shape hs ▸ hid)
  case readers_nodup =>
    exact (flatMap_of_shape hshape fun s => s.2.1 ++ s.2.2.2.toList) ▸ hc.readers_nodup
  case writers_nodup => exact (flatMap_of_shape hshape fun s => s.2.2.1) ▸ hc.writers_nodup
  case rising =>
    intro m hm
    obtain ⟨m₀, hm₀, hs⟩ := hmem m hm
    rw [Component.inputs_of_shape hs, Component.outputs_of_shape hs]
    exact hc.rising m₀ hm₀
  case sides =>
    intro k hk i m hm
    obtain ⟨k₀, hk₀, hdriver, hsink, hkind⟩ := hconnection k hk
    obtain ⟨m₀, hm₀, hs⟩ := exists_of_shape hshape hm
    rw [hdriver, hsink, hkind, Component.isWire_of_shape hs]
    exact hc.sides k₀ hk₀ i m₀ hm₀
  case crosses =>
    intro k hk hcross
    obtain ⟨k₀, hk₀, hdriver, hsink, hkind⟩ := hconnection k hk
    rw [hdriver, hsink]
    exact hc.crosses k₀ hk₀ (hkind ▸ hcross)

end Wiring

section Moment

/-- The components before the `i`-th one, once the gates among them have been updated. -/
def gatesBefore (now : Times) (c : Circuit) (i : Nat) : Step (List Component) :=
  updateGates now (c.components.take i) c.connections

/-- The `i`-th component and the connections as a tick finds them when it comes to it, unless it stops
before. -/
def moment? (now : Times) (c : Circuit) (i : Nat) : Option (Component × Bus) :=
  if (c.gatesBefore now i).failure = none then
    (c.components[i]?).map (·, (c.gatesBefore now i).bus)
  else none

theorem moment?_eq_some_iff : c.moment? now i = some (m, bus) ↔
    c.components[i]? = some m ∧ (c.gatesBefore now i).failure = none ∧
      (c.gatesBefore now i).bus = bus := by
  rw [moment?]
  split
  case isTrue h =>
    rw [Option.map_eq_some_iff]
    constructor
    · rintro ⟨n, hn, he⟩
      obtain ⟨rfl, rfl⟩ := Prod.mk.inj he
      exact ⟨hn, h, rfl⟩
    · rintro ⟨hm, -, rfl⟩
      exact ⟨m, hm, rfl⟩
  case isFalse h =>
    constructor
    · intro hn
      cases hn
    · rintro ⟨-, hf, -⟩
      exact absurd hf h

theorem moment?_eq_none_iff (hm : c.components[i]? = some m) :
    c.moment? now i = none ↔ ∃ failure, (c.gatesBefore now i).failure = some failure := by
  rw [moment?, hm]
  cases (c.gatesBefore now i).failure <;> simp

/-- The circuit after the first half of a tick. -/
def gated (now : Times) (c : Circuit) : Circuit :=
  { c with
    components := (updateGates now c.components c.connections).value
    connections := (updateGates now c.components c.connections).bus }

theorem gated_shape (now : Times) (c : Circuit) : (c.gated now).shape = c.shape :=
  updateGates_shape now c.components c.connections

/-- A tick ends with its first half, or the wires act on the circuit that this has left. -/
theorem Wired.tick_cases (h : c.Wired) (now : Times) :
    (∃ failure, (updateGates now c.components c.connections).failure = some failure ∧
        c.tick now = (c.gated now, some failure)) ∨
      ((updateGates now c.components c.connections).failure = none ∧
        ∃ d, Simultaneous now ((c.gated now).numbers true) (c.gated now) d ∧
          c.tick now = ({ d with ticks := d.ticks + 1 }, none)) := by
  rw [tick, completeTick]
  cases hf : (updateGates now c.components c.connections).failure with
  | some failure => exact .inl ⟨failure, rfl, rfl⟩
  | none =>
    refine .inr ⟨rfl, ?_⟩
    have hwires : updateInOrder now ((c.gated now).numbers true) (c.gated now) = _ :=
      updateInOrder_wires now c.name c.ticks (c.gated now).components [] (c.gated now).connections
    obtain ⟨-, d, hd, hsim⟩ | ⟨hfails, -⟩ := updateInOrder_perm now
      (apart_of_shape h.apart (c.gated_shape now) true) (.refl _)
    · rw [hwires] at hd
      obtain ⟨rfl, -⟩ := Prod.mk.inj hd
      exact ⟨_, hsim, rfl⟩
    · exact absurd hfails (not_fails_wires _ fun _ hi => hi)

/-- The gates up to a component, the component itself and the gates behind it. -/
theorem updateGates_split (now : Times) (hm : c.components[i]? = some m) :
    updateGates now c.components c.connections =
      match c.gatesBefore now i with
      | ⟨value, bus, some failure⟩ => ⟨value ++ m :: c.components.drop (i + 1), bus, some failure⟩
      | ⟨value, bus, none⟩ =>
        { updateGates now (m :: c.components.drop (i + 1)) bus with
          value := value ++ (updateGates now (m :: c.components.drop (i + 1)) bus).value } := by
  obtain ⟨hlt, rfl⟩ := List.getElem?_eq_some_iff.1 hm
  conv_lhs => rw [← List.take_append_drop i c.components, List.drop_eq_getElem_cons hlt]
  exact updateGates_append now _ _ _

theorem gatesBefore_length (now : Times) (hm : c.components[i]? = some m) :
    (c.gatesBefore now i).value.length = i := by
  have hlen := congrArg List.length (updateGates_shape now (c.components.take i) c.connections)
  rw [List.length_map, List.length_map, List.length_take] at hlen
  have hlt := (List.getElem?_eq_some_iff.1 hm).1
  exact hlen.trans (Nat.min_eq_left (Nat.le_of_lt hlt))

/-- Gates that have no connection in common with a component leave its connections alone. -/
theorem agree_updateGates {cs : List Component}
    (h : ∀ n ∈ cs, n.isWire = false → m.pins.Disjoint n.pins) (bus : Bus) :
    Bus.Agree m.pins (updateGates now cs bus).bus bus := by
  intro id hid
  exact updateGates_keeps (p := fun bus => bus[id]?)
    (fun n hn hw _ => n.update_frame now (h n hn hw hid)) bus

section Wired

variable (h : c.Wired) (hw : m.isWire = false)

include h hw

theorem Wired.gate_apart (hm : c.components[i]? = some m) {j : Nat} {n : Component} (hij : i ≠ j)
    (hn : c.components[j]? = some n) (hwn : n.isWire = false) : m.pins.Disjoint n.pins :=
  h.apart false i (mem_numbers.2 ⟨m, hm, hw⟩) j (mem_numbers.2 ⟨n, hn, hwn⟩) hij m n hm hn

theorem Wired.apart_take (hm : c.components[i]? = some m) :
    ∀ n ∈ c.components.take i, n.isWire = false → m.pins.Disjoint n.pins := by
  intro n hn hwn
  obtain ⟨j, hj⟩ := List.getElem?_of_mem hn
  rw [List.getElem?_take] at hj
  split at hj
  case isTrue hji => exact h.gate_apart hw hm (Nat.ne_of_gt hji) hj hwn
  case isFalse => cases hj

theorem Wired.apart_drop (hm : c.components[i]? = some m) :
    ∀ n ∈ c.components.drop (i + 1), n.isWire = false → m.pins.Disjoint n.pins := by
  intro n hn hwn
  obtain ⟨j, hj⟩ := List.getElem?_of_mem hn
  rw [List.getElem?_drop] at hj
  exact h.gate_apart hw hm (by omega) hj hwn

/-- The first half of a tick that comes to a component: it is updated, and what it has left on its
connections stays there. -/
theorem Wired.gated_of_moment (hm : c.moment? now i = some (m, bus)) :
    Bus.Agree m.pins bus c.connections ∧
      (c.gated now).components[i]? = some (m.update now bus).value ∧
      Bus.Agree m.pins (c.gated now).connections (m.update now bus).bus ∧
      ((updateGates now c.components c.connections).failure = none →
        (m.update now bus).failure = none) := by
  obtain ⟨hi, hf, rfl⟩ := moment?_eq_some_iff.1 hm
  refine ⟨agree_updateGates (h.apart_take hw hi) c.connections, ?_⟩
  have hlen := gatesBefore_length now hi
  rw [gated, updateGates_split now hi]
  cases hb : c.gatesBefore now i with
  | mk value bus failure =>
    rw [hb] at hf hlen
    obtain rfl : failure = none := hf
    dsimp only at hlen ⊢
    subst hlen
    rw [updateGates, if_neg (by rw [hw]; exact Bool.false_ne_true)]
    cases hu : m.update now bus with
    | mk m' bus' failure =>
      cases failure with
      | some failure =>
        refine ⟨by simp, fun _ _ => rfl, fun hnone => by cases hnone⟩
      | none =>
        exact ⟨by simp, agree_updateGates (h.apart_drop hw hi) bus', fun _ => rfl⟩

end Wired

/-- How a tick goes for a component that it does not come to. -/
structure Misses (now : Times) (c : Circuit) (i : Nat) (m : Component) : Prop where
  failed : (c.tick now).2 ≠ none
  component : (c.tick now).1.components[i]? = some m
  agrees : Bus.Agree m.pins (c.tick now).1.connections c.connections

theorem Wired.misses (h : c.Wired) (hw : m.isWire = false) (hm : c.components[i]? = some m)
    (hno : c.moment? now i = none) : c.Misses now i m := by
  obtain ⟨failure, hf⟩ := (moment?_eq_none_iff hm).1 hno
  have hagree : Bus.Agree m.pins (c.gatesBefore now i).bus c.connections :=
    agree_updateGates (h.apart_take hw hm) c.connections
  have hlen := gatesBefore_length now hm
  have hgates := updateGates_split now hm
  cases hb : c.gatesBefore now i with
  | mk value bus failure' =>
    rw [hb] at hf hlen hagree hgates
    obtain rfl : failure' = some failure := hf
    dsimp only at hlen hagree hgates
    subst hlen
    constructor <;> rw [tick, completeTick, hgates]
    case failed =>
      intro hnone
      cases hnone
    case component => simp
    case agrees => exact hagree

/-- How a tick goes for a component that it comes to. -/
structure Meets (now : Times) (c : Circuit) (i : Nat) (m : Component) (bus : Bus) : Prop where
  before : Bus.Agree m.pins bus c.connections
  component : (c.tick now).1.components[i]? = some (m.update now bus).value
  /-- If the tick fails, its connections are as it has left them. -/
  stopped : (c.tick now).2 ≠ none →
    Bus.Agree m.pins (c.tick now).1.connections (m.update now bus).bus
  passed : (c.tick now).2 = none → (m.update now bus).failure = none
  /-- Otherwise some of them are written once more. -/
  driven : (c.tick now).2 = none → ∀ id ∈ m.pins, (c.tick now).1.connections[id]? =
    ((m.update now bus).bus[id]?).map (·.drive (Bus.level (c.tick now).1.connections id))
  /-- Those are the ones that come from a wire. -/
  unwritten : ∀ id ∈ m.pins,
    (∀ (j : Nat) (n : Component), c.components[j]? = some n → n.isWire = true → id ∉ n.outputs) →
      (c.tick now).1.connections[id]? = (m.update now bus).bus[id]?

theorem Wired.meets (h : c.Wired) (hw : m.isWire = false) (hm : c.moment? now i = some (m, bus)) :
    c.Meets now i m bus := by
  obtain ⟨hbefore, hcomponent, hagree, hpassed⟩ := h.gated_of_moment hw hm
  obtain ⟨failure, hf, htick⟩ | ⟨hf, d, hd, htick⟩ := h.tick_cases now
  · constructor
    case before => exact hbefore
    all_goals rw [htick]
    case component => exact hcomponent
    case stopped => exact fun _ => hagree
    case passed =>
      intro hnone
      cases hnone
    case driven =>
      intro hnone
      cases hnone
    case unwritten => exact fun id hid _ => hagree id hid
  · constructor
    case before => exact hbefore
    all_goals rw [htick]
    case component =>
      have hno : i ∉ (c.gated now).numbers true := by
        intro hi
        have hwire := isWire_of_mem_numbers hi hcomponent
        rw [Component.isWire_of_shape (m.update_shape now bus), hw] at hwire
        cases hwire
      show d.components[i]? = _
      rw [hd.components, hcomponent, Option.map_some, if_neg hno]
    case stopped => exact fun hnone => absurd rfl hnone
    case passed => exact fun _ => hpassed hf
    case driven =>
      intro _ id hid
      rw [← hagree id hid]
      exact hd.wires_drive id
    case unwritten =>
      intro id hid hno
      rw [← hagree id hid]
      refine hd.wires_unwritten fun j n hn hwire hout => ?_
      obtain ⟨n₀, hn₀, hs⟩ := exists_of_shape (c.gated_shape now) hn
      rw [Component.isWire_of_shape hs] at hwire
      rw [Component.outputs_of_shape hs] at hout
      exact hno j n₀ hn₀ hwire hout

/-- A tick that succeeds comes to every component that is no wire. -/
theorem Wired.moment_of_success (hw : c.Wired) (hgate : m.isWire = false)
    (hm : c.components[i]? = some m) (hok : (c.tick now).2 = none) :
    ∃ bus, c.moment? now i = some (m, bus) := by
  cases hmoment : c.moment? now i with
  | none => exact absurd hok (hw.misses hgate hm hmoment).failed
  | some e =>
    obtain ⟨m', bus⟩ := e
    obtain rfl := Option.some.inj (hm.symm.trans (moment?_eq_some_iff.1 hmoment).1)
    exact ⟨bus, rfl⟩

end Moment

end Circuit

end GridCircuit
