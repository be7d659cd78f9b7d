import GridCircuit.Proofs.Ports
import GridCircuit.Proofs.TickOrder
import GridCircuit.Proofs.Words

/-!
# A running circuit mirrors its drawing

`Mirrors` relates a circuit to a snapshot of its drawing: every component holds what the snapshot says
of its class, and every connection carries what should be on its cell. One half of a tick changes the
connections that the components of this half write, and nothing else. After the first half the circuit
is `Halfway`; after the second it mirrors the next snapshot.
-/

namespace GridCircuit

/-- A display shows the number of its inputs. -/
theorem toWord_toNat (levels : List Bool) : (Bits.toWord levels).toNat = displayed levels :=
  Bits.toNat_toWord_eq_sum levels

namespace Connection

@[simp] theorem active_drive (k : Connection) (level : Bool) : (k.drive level).active = level := by
  unfold drive
  split
  case isTrue h => exact h
  case isFalse => rfl

@[simp] theorem pos_drive (k : Connection) (level : Bool) : (k.drive level).pos = k.pos := by
  rw [drive]
  split <;> rfl

@[simp] theorem kind_drive (k : Connection) (level : Bool) : (k.drive level).kind = k.kind := by
  rw [drive]
  split <;> rfl

theorem drive_drive (k : Connection) (level : Bool) : (k.drive level).drive level = k.drive level := by
  rw [drive, if_pos (active_drive k level)]

/-- Writing one level to several connections. -/
theorem receive_level (level : Bool) (id : Nat) : ∀ (ids : List Nat) (k : Connection),
    k.receive (ids.map (·, level)) id = if id ∈ ids then k.drive level else k := by
  intro ids
  induction ids with
  | nil => exact fun k => rfl
  | cons n ids ih =>
    intro k
    rw [List.map_cons, receive, List.foldl_cons]
    refine (ih _).trans ?_
    by_cases hn : n = id
    · subst hn
      simp [drive_drive]
    · simp [hn, Ne.symm hn]

end Connection

/-- What a component without script and inner circuit writes. -/
theorem Component.updatePlain_getElem? (now : Times) (m : Component) (bus : Bus) (id : Nat) :
    (m.updatePlain now bus).bus[id]? = (bus[id]?).map fun k =>
      if m.kind.showsLevel = true ∧ id ∈ m.outputs then
        k.drive (m.updatePlain now bus).value.level else k := by
  simp only [updatePlain]
  rw [Bus.getElem?_driveAll]
  cases m.kind.showsLevel with
  | true => simp [Connection.receive_level]
  | false => simp [Connection.receive]

/-- The level on the cell of a connector or cross. -/
noncomputable def Snapshot.signal (g : Grid) (s : Snapshot) (p : Pos) : Bool :=
  match g.get p with
  | .input | .clockInput => s.onWire g p
  | .output => (g.otherSide? p).any s.given
  | _ => false

/-- What the component of a class remembers. -/
def Snapshot.Holds (g : Grid) (s : Snapshot) (h : Pos) (kind : Kind) : Prop :=
  match g.get h with
  | .clock => ∃ phase, kind = .clock phase ∧ phase.period = 0 ∧ phase.high = s.level h ∧
      (phase.lastFlip.isSome = true ↔ s.ticks ≠ 0) ∧ (s.ticks = 0 → s.level h = false)
  | .flipFlop => kind = .flipFlop ⟨s.seen h⟩ (s.level h)
  | .display => ∃ value, kind = .display value ∧ value.toNat = s.shown h
  | c => Kind.builtin? 0 c = some kind

/-- The connections of a drawing carry given levels on their cells. -/
structure Grid.Carries (g : Grid) (levels : Pos → Bool) (bus : Bus) : Prop where
  connection : ∀ (id : Nat) (p : Pos), g.junctions[id]? = some p →
    ∃ k, bus[id]? = some k ∧ k.pos = p ∧ k.kind = g.junctionKind p ∧ k.active = levels p
  size_eq : bus.size = g.junctions.length

/-- A circuit with the pins of `c₀` is in the state that a snapshot describes. -/
structure Mirrors (g : Grid) (c₀ : Circuit) (s : Snapshot) (c : Circuit) : Prop where
  shape : c.shape = c₀.shape
  ticks : c.ticks = s.ticks
  component : ∀ (i : Nat) (h : Pos), g.heads[i]? = some h → ∃ m, c.components[i]? = some m ∧
    m.cells = g.classOf h ∧ m.level = s.level h ∧ s.Holds g h m.kind
  carries : g.Carries (s.signal g) c.connections
  quiet : ∀ h, g.get h = .display → s.given h = false

namespace Grid

variable {g : Grid} {make : Code → Making} {name : String} {s : Snapshot} {c : Circuit} {m : Component}
  {levels : Pos → Bool} {bus : Bus} {h p : Pos} {i id : Nat}

theorem Carries.level (hc : g.Carries levels bus) (id : Nat) :
    Bus.level bus id = ((g.junctions[id]?).map levels).getD false := by
  cases hp : g.junctions[id]? with
  | some p =>
    obtain ⟨k, hk, -, -, ha⟩ := hc.connection id p hp
    rw [Bus.level, hk, Option.map_some, Option.getD_some, ha]
    rfl
  | none =>
    have hlen := List.getElem?_eq_none_iff.1 hp
    rw [Bus.level, Array.getElem?_eq_none (hc.size_eq ▸ hlen)]
    rfl

/-- The levels that a component reads are those on the connectors of its class. -/
theorem Carries.inputs (hc : g.Carries levels bus) (hf : Faithful make) (ha : g.AllMade make)
    (hi : g.heads[i]? = some h) (hm : m.shape = (g.componentOf name make i h).shape) :
    m.inputs.map (Bus.level bus) = (g.readsOf h).map levels := by
  have hinputs := Component.inputs_of_shape hm
  have hread := congrArg (List.map fun p : Option Pos => (p.map levels).getD false)
    (componentOf_inputs name hf ha hi)
  rw [List.map_map, List.map_map, ← hinputs] at hread
  rw [List.map_congr_left fun id _ => hc.level id]
  exact hread

theorem Carries.clock (hc : g.Carries levels bus) (hf : Faithful make) (ha : g.AllMade make)
    (hi : g.heads[i]? = some h) (hm : m.shape = (g.componentOf name make i h).shape) :
    m.clock.any (Bus.level bus) = (g.clockOf? h).any levels := by
  have hclock := Component.clock_of_shape hm
  rw [← componentOf_clock name hf ha hi, ← hclock]
  cases m.clock with
  | none => rfl
  | some id =>
    rw [Option.any_some, Option.bind_some, hc.level]
    cases g.junctions[id]? <;> rfl

/-- The levels on the connectors after one half of a tick. -/
noncomputable def driven (g : Grid) (wires : Bool) (new levels : Pos → Bool) (p : Pos) : Bool :=
  match g.source? p with
  | some h => if (g.get h).isWire = wires ∧ g.get h ≠ .display then new h else levels p
  | none => levels p

/-- The component with a number, in a circuit with the pins of the one that is built. -/
theorem exists_component (ha : g.AllMade make) (hs : c.shape = (g.circuitOf name make).shape)
    (hm : c.components[i]? = some m) :
    ∃ h, g.heads[i]? = some h ∧ m.shape = (g.componentOf name make i h).shape := by
  obtain ⟨m', hm', he⟩ := Circuit.exists_of_shape hs hm
  rw [circuitOf_component ha] at hm'
  obtain ⟨h, hh, rfl⟩ := Option.map_eq_some_iff.1 hm'
  exact ⟨h, hh, he⟩

/-- The component of a class, in such a circuit. -/
theorem exists_component_of_head (ha : g.AllMade make)
    (hs : c.shape = (g.circuitOf name make).shape) (hi : g.heads[i]? = some h) :
    ∃ m, c.components[i]? = some m ∧ m.shape = (g.componentOf name make i h).shape := by
  have hm : (g.circuitOf name make).components[i]? = some (g.componentOf name make i h) := by
    rw [circuitOf_component ha, hi, Option.map_some]
  obtain ⟨m, hm, he⟩ := Circuit.exists_of_shape hs.symm hm
  exact ⟨m, hm, he.symm⟩

theorem size_eq_of_isSome {α : Type} {xs ys : Array α}
    (h : ∀ i : Nat, (xs[i]?).isSome = (ys[i]?).isSome) : xs.size = ys.size := by
  have hle : ∀ {xs ys : Array α}, (∀ i : Nat, (xs[i]?).isSome = (ys[i]?).isSome) →
      xs.size ≤ ys.size := by
    intro xs ys h
    by_contra hlt
    have hi := h ys.size
    rw [Array.getElem?_eq_getElem (by omega), Array.getElem?_eq_none (Nat.le_refl _)] at hi
    cases hi
  exact Nat.le_antisymm (hle h) (hle fun i => (h i).symm)

section Numbers

variable (hs : c.shape = (g.circuitOf name make).shape) (hf : Faithful make) (ha : g.AllMade make)

include hs hf ha

theorem isWire_iff_get (hi : g.heads[i]? = some h) (hm : c.components[i]? = some m) :
    m.isWire = (g.get h).isWire := by
  obtain ⟨h', hi', hshape⟩ := exists_component ha hs hm
  obtain rfl := Option.some.inj (hi.symm.trans hi')
  rw [Component.isWire_of_shape hshape, componentOf_isWire name hf ha hi]

theorem mem_numbers_iff (hi : g.heads[i]? = some h) (wires : Bool) :
    i ∈ c.numbers wires ↔ (g.get h).isWire = wires := by
  obtain ⟨m, hm, -⟩ := exists_component_of_head ha hs hi
  rw [Circuit.mem_numbers, ← isWire_iff_get hs hf ha hi hm]
  simp [hm]

theorem mem_outputs_iff (hi : g.heads[i]? = some h) (hm : c.components[i]? = some m)
    (hp : g.junctions[id]? = some p) : id ∈ m.outputs ↔ g.source? p = some h := by
  obtain ⟨h', hi', hshape⟩ := exists_component ha hs hm
  obtain rfl := Option.some.inj (hi.symm.trans hi')
  rw [← mem_componentOf_outputs name hf ha hi hp]
  rw [Component.outputs_of_shape hshape]

end Numbers

/-- The components of one half of a tick act alone, with given new levels of their classes. -/
def Acts (g : Grid) (c : Circuit) (wires : Bool) (now : Times) (new : Pos → Bool) : Prop :=
  ∀ (i : Nat) (h : Pos) (m : Component), g.heads[i]? = some h → c.components[i]? = some m →
    m.isWire = wires → (m.update now c.connections = m.updatePlain now c.connections) ∧
      (m.updatePlain now c.connections).value.level = new h ∧
      (m.kind.showsLevel = true ↔ g.get h ≠ .display)

section Phase

variable {wires : Bool} {now : Times} {new : Pos → Bool} {c' : Circuit}
  (hact : g.Acts c wires now new) (h₁ : Circuit.Simultaneous now (c.numbers wires) c c')

include hact h₁

/-- What becomes of the connections that a component of this half touches. -/
theorem Acts.touched (hi : g.heads[i]? = some h) (hm : c.components[i]? = some m)
    (hw : m.isWire = wires) (hid : id ∈ m.pins) :
    c'.connections[id]? = (c.connections[id]?).map fun k =>
      if g.get h ≠ .display ∧ id ∈ m.outputs then k.drive (new h) else k := by
  obtain ⟨hupdate, hnew, hshows⟩ := hact i h m hi hm hw
  rw [h₁.touched i (Circuit.mem_numbers.2 ⟨m, hm, hw⟩) m hm id hid, hupdate,
    Component.updatePlain_getElem?, hnew]
  simp only [hshows]

variable (hf : Faithful make) (ha : g.AllMade make) (hs : c.shape = (g.circuitOf name make).shape)

include hf ha hs

/-- A connection whose source takes part gets its new level, except from a display. -/
theorem Acts.of_source (hp : g.junctions[id]? = some p) (hsource : g.source? p = some h)
    (hw : (g.get h).isWire = wires) :
    c'.connections[id]? = (c.connections[id]?).map fun k =>
      if g.get h ≠ .display then k.drive (new h) else k := by
  obtain ⟨i, hi⟩ := List.getElem?_of_mem (source?_mem_heads hsource)
  obtain ⟨m, hm, -⟩ := exists_component_of_head ha hs hi
  have hout : id ∈ m.outputs := (mem_outputs_iff hs hf ha hi hm hp).2 hsource
  have hwire : m.isWire = wires := (isWire_iff_get hs hf ha hi hm).trans hw
  rw [hact.touched h₁ hi hm hwire (List.mem_append_right _ hout)]
  simp only [hout, and_true]

/-- A connection whose source does not take part stays as it is, whoever reads it. -/
theorem Acts.of_no_source (hp : g.junctions[id]? = some p)
    (hno : ∀ h, g.source? p = some h → (g.get h).isWire ≠ wires) :
    c'.connections[id]? = c.connections[id]? := by
  obtain ⟨i, hmem, m, hm, hid⟩ | ⟨-, hsame⟩ := h₁.touched_or id
  · obtain ⟨h, hi, -⟩ := exists_component ha hs hm
    have hw := (mem_numbers_iff hs hf ha hi wires).1 hmem
    have hnot : id ∉ m.outputs := fun ho => hno h ((mem_outputs_iff hs hf ha hi hm hp).1 ho) hw
    rw [hact.touched h₁ hi hm ((isWire_iff_get hs hf ha hi hm).trans hw) hid]
    simp only [hnot, and_false, if_false, Option.map_id']
  · exact hsame

theorem Acts.size_eq : c'.connections.size = c.connections.size := by
  apply size_eq_of_isSome
  intro id
  obtain ⟨i, hmem, m, hm, hid⟩ | ⟨-, hsame⟩ := h₁.touched_or id
  · obtain ⟨h, hi, -⟩ := exists_component ha hs hm
    have hw := (mem_numbers_iff hs hf ha hi wires).1 hmem
    rw [hact.touched h₁ hi hm ((isWire_iff_get hs hf ha hi hm).trans hw) hid, Option.isSome_map]
  · rw [hsame]

/-- One half of a tick writes the connections whose source takes part in it. -/
theorem Carries.phase (hc : g.Carries levels c.connections) :
    g.Carries (g.driven wires new levels) c'.connections := by
  constructor
  case connection =>
    intro id p hp
    obtain ⟨k, hk, hpos, hkind, hactive⟩ := hc.connection id p hp
    by_cases hsource : ∃ h, g.source? p = some h ∧ (g.get h).isWire = wires
    · obtain ⟨h, hsource, hw⟩ := hsource
      rw [hact.of_source h₁ hf ha hs hp hsource hw, hk, Option.map_some]
      refine ⟨_, rfl, ?_⟩
      rw [driven, hsource]
      by_cases hd : g.get h = .display
      · simp [hd, hpos, hkind, hactive]
      · simp [hd, hw, hpos, hkind]
    · have hno : ∀ h, g.source? p = some h → (g.get h).isWire ≠ wires :=
        fun h hh hw => hsource ⟨h, hh, hw⟩
      have hsame : g.driven wires new levels p = levels p := by
        rw [driven]
        cases hh : g.source? p with
        | none => rfl
        | some h => exact if_neg fun hw => hno h hh hw.1
      rw [hact.of_no_source h₁ hf ha hs hp hno, hsame]
      exact ⟨k, hk, hpos, hkind, hactive⟩
  case size_eq => rw [hact.size_eq h₁ hf ha hs, hc.size_eq]

end Phase

end Grid

namespace Snapshot

variable {g : Grid} {s : Snapshot} {h : Pos} {kind : Kind}

/-- A display alone writes nothing; nothing here is a script or a circuit of its own. -/
theorem Holds.plain (hk : s.Holds g h kind) :
    (kind.showsLevel = true ↔ g.get h ≠ .display) ∧ (∀ unit, kind ≠ .scripted unit) ∧
      ∀ pins inner, kind ≠ .nested pins inner := by
  unfold Holds at hk
  split at hk
  case h_1 hc =>
    obtain ⟨phase, rfl, -⟩ := hk
    simp [hc, Kind.showsLevel]
  case h_2 hc =>
    obtain rfl := hk
    simp [hc, Kind.showsLevel]
  case h_3 hc =>
    obtain ⟨value, rfl, -⟩ := hk
    simp [hc, Kind.showsLevel]
  case h_4 hclock hflip hdisplay =>
    cases hc : g.get h <;> rw [hc] at hk <;> cases hk <;> simp [Kind.showsLevel]

/-- A class that is no wire does in a tick what the snapshot says. -/
theorem Holds.settle (hk : s.Holds g h kind) (hw : g.get h ≠ .wire) (t : Nat) {r : Reading}
    (hr : r.inputs = s.reads g h) (hclock : r.clock = s.clock g h) (hown : r.own = s.level h) :
    (kind.settle t r).2 = s.next g h ∧ (s.tick g).Holds g h (kind.settle t r).1 := by
  have hlevel : (s.tick g).level h = s.next g h := if_neg hw
  have hseen : (s.tick g).seen h = s.clock g h := rfl
  have hshown : (s.tick g).shown h = displayed (s.reads g h) := rfl
  rw [Holds] at hk ⊢
  cases hc : g.get h <;> simp only [hc] at hk ⊢
  case wire => exact absurd hc hw
  case clock =>
    obtain ⟨⟨period, lastFlip, high⟩, rfl, hperiod, hhigh, hlast, hfirst⟩ := hk
    obtain rfl : period = 0 := hperiod
    obtain rfl : high = s.level h := hhigh
    have hticks : (s.tick g).ticks = s.ticks + 1 := rfl
    have hpoll : ((ClockPhase.mk 0 lastFlip (s.level h)).poll t).high = s.next g h := by
      rw [next, hc]
      cases lastFlip with
      | none =>
        have hzero : s.ticks = 0 := by simpa using hlast
        simp [ClockPhase.poll, hzero, hfirst hzero]
      | some flip =>
        have hpos : s.ticks ≠ 0 := by simpa using hlast
        simp [ClockPhase.poll, hpos]
    refine ⟨hpoll, _, rfl, ?_, ?_, ?_, ?_⟩
    · cases lastFlip <;> simp [ClockPhase.poll]
    · rw [hlevel, hpoll]
    · cases lastFlip <;> simp [ClockPhase.poll, hticks]
    · simp [hticks]
  case flipFlop =>
    subst hk
    rw [hlevel, hseen, next, hc]
    simp [Kind.settle, EdgeDetector.rising, hr, hclock]
  case display =>
    obtain ⟨value, rfl, -⟩ := hk
    rw [hshown, next, hc]
    refine ⟨?_, _, rfl, ?_⟩
    · show (Bits.toWord r.inputs != 0) = decide (displayed (s.reads g h) ≠ 0)
      rw [hr, ← toWord_toNat, bne, Bool.eq_iff_iff]
      simp [← UInt64.toNat_inj]
    · rw [hr, toWord_toNat]
  all_goals cases hk
  all_goals simp [Kind.settle, next, hc, hr, hown, Kind.builtin?]

theorem Holds.settle_wire (hk : s.Holds g h kind) (hw : g.get h = .wire) (t : Nat) (r : Reading) :
    (kind.settle t r).2 = r.inputs.any id ∧ (s.tick g).Holds g h (kind.settle t r).1 := by
  rw [Holds, hw] at hk
  cases hk
  refine ⟨rfl, ?_⟩
  rw [Holds, hw]
  rfl

end Snapshot

section Tick

variable {g : Grid} {make : Code → Making} {name : String} {s : Snapshot} {c : Circuit}

/-- The signals on the connectors between the two halves of a tick. -/
noncomputable def Snapshot.halfway (g : Grid) (s : Snapshot) (p : Pos) : Bool :=
  if g.get p = .output then (g.otherSide? p).any (s.gives g) else s.signal g p

theorem driven_gates (hquiet : ∀ h, g.get h = .display → s.given h = false) :
    g.driven false (s.next g) (s.signal g) = s.halfway g := by
  funext p
  rw [Grid.driven, Snapshot.halfway, Snapshot.signal, Grid.source?]
  cases hc : g.get p <;> simp only [reduceCtorEq, if_false, if_true]
  case input =>
    cases hs : g.wireSide? p with
    | none => rfl
    | some h => simp [Grid.wireSide?_wire hs, Code.isWire]
  case clockInput =>
    cases hs : g.wireSide? p with
    | none => rfl
    | some h => simp [Grid.wireSide?_wire hs, Code.isWire]
  case output =>
    cases hs : g.otherSide? p with
    | none => rfl
    | some h =>
      have hw := Grid.otherSide?_ne_wire hs
      by_cases hd : g.get h = .display
      · simp [hd, hquiet h hd, Snapshot.gives]
      · simp [hw, hd, Snapshot.gives, Code.isWire]

theorem driven_wires : g.driven true (s.tick g).level (s.halfway g) = (s.tick g).signal g := by
  funext p
  rw [Grid.driven, Snapshot.halfway, Snapshot.signal, Snapshot.signal, Grid.source?]
  cases hc : g.get p <;> simp only [reduceCtorEq, if_false, if_true]
  case input =>
    rw [Snapshot.onWire, Snapshot.onWire]
    cases hs : g.wireSide? p with
    | none => rfl
    | some h => simp [Grid.wireSide?_wire hs, Code.isWire]
  case clockInput =>
    rw [Snapshot.onWire, Snapshot.onWire]
    cases hs : g.wireSide? p with
    | none => rfl
    | some h => simp [Grid.wireSide?_wire hs, Code.isWire]
  case output =>
    cases hs : g.otherSide? p with
    | none => rfl
    | some h => simp [Grid.otherSide?_ne_wire hs, Snapshot.tick, Code.isWire]

theorem readsOf_gate {h : Pos} (hw : g.get h ≠ .wire) :
    (g.readsOf h).map (s.signal g) = s.reads g h := by
  rw [Grid.readsOf, if_neg hw, Snapshot.reads]
  apply List.map_congr_left
  intro p hp
  have hc : g.get p = .input := (of_decide_eq_true (List.mem_filter.1 hp).2).1
  rw [Snapshot.signal, hc]

theorem readsOf_wire {h : Pos} (hw : g.get h = .wire) :
    ((g.readsOf h).map (s.halfway g)).any id = (s.tick g).level h := by
  have hlevel : (s.tick g).level h = (g.outputsTo h).any fun p => (g.otherSide? p).any (s.gives g) :=
    if_pos hw
  rw [hlevel, Grid.readsOf, if_pos hw, List.any_map]
  apply Bool.eq_iff_iff.2
  simp only [List.any_eq_true]
  refine exists_congr fun p => and_congr_right fun hp => ?_
  have hc : g.get p = .output := (of_decide_eq_true (List.mem_filter.1 hp).2).1
  rw [Function.comp_apply, id, Snapshot.halfway, if_pos hc]

theorem clockOf?_signal (h : Pos) : (g.clockOf? h).any (s.signal g) = s.clock g h := by
  rw [Snapshot.clock]
  cases hp : g.clockOf? h with
  | none => rfl
  | some p =>
    rw [Grid.clockOf?] at hp
    have hfound : g.get p = .clockInput ∧ g.otherSide? p = some h := by
      simpa using List.find?_some hp
    have hc := hfound.1
    rw [Option.any_some, Option.any_some, Snapshot.signal, hc]

/-- The gates of a circuit have acted, its wires have not. -/
structure Halfway (g : Grid) (c₀ : Circuit) (s : Snapshot) (c : Circuit) : Prop where
  shape : c.shape = c₀.shape
  ticks : c.ticks = s.ticks
  carries : g.Carries (s.halfway g) c.connections
  gate : ∀ (i : Nat) (h : Pos), g.heads[i]? = some h → g.get h ≠ .wire →
    ∃ m, c.components[i]? = some m ∧ m.cells = g.classOf h ∧ m.level = (s.tick g).level h ∧
      (s.tick g).Holds g h m.kind
  wire : ∀ (i : Nat) (h : Pos), g.heads[i]? = some h → g.get h = .wire →
    ∃ m, c.components[i]? = some m ∧ m.cells = g.classOf h ∧ s.Holds g h m.kind

variable (hf : Faithful make) (ha : g.AllMade make)

include hf ha

/-- A component that is no wire does what the snapshot says of its class. -/
theorem Mirrors.gate (hM : Mirrors g (g.circuitOf name make) s c) {i : Nat} {h : Pos}
    (hi : g.heads[i]? = some h) (hw : g.get h ≠ .wire) (t : Times) : ∃ m, c.components[i]? = some m ∧
      m.update t c.connections = m.updatePlain t c.connections ∧
      (m.kind.showsLevel = true ↔ g.get h ≠ .display) ∧
      (m.updatePlain t c.connections).value.cells = g.classOf h ∧
      (m.updatePlain t c.connections).value.level = s.next g h ∧
      (s.tick g).Holds g h (m.updatePlain t c.connections).value.kind := by
  obtain ⟨m, hm, hcells, hlevel, hk⟩ := hM.component i h hi
  obtain ⟨h', hi', hshape⟩ := Grid.exists_component ha hM.shape hm
  obtain rfl := Option.some.inj (hi.symm.trans hi')
  obtain ⟨hshows, hscript, hnested⟩ := hk.plain
  have hinputs := (hM.carries.inputs hf ha hi hshape).trans (readsOf_gate hw)
  have hclock := (hM.carries.clock hf ha hi hshape).trans (clockOf?_signal h)
  have hr : (m.read c.connections).inputs = s.reads g h := hinputs
  obtain ⟨hnext, hholds⟩ := hk.settle hw (t.read [m.firstCell]) hr hclock hlevel
  exact ⟨m, hm, Component.update_plain hscript hnested, hshows, hcells, hnext, hholds⟩

theorem Mirrors.acts (hM : Mirrors g (g.circuitOf name make) s c) (t : Times) :
    g.Acts c false t (s.next g) := by
  intro i h m hi hm hw
  have hne : g.get h ≠ .wire := by
    intro hc
    rw [Grid.isWire_iff_get hM.shape hf ha hi hm, hc] at hw
    cases hw
  obtain ⟨m', hm', hupdate, hshows, -, hnext, -⟩ := hM.gate hf ha hi hne t
  obtain rfl := Option.some.inj (hm.symm.trans hm')
  exact ⟨hupdate, hnext, hshows⟩

theorem Mirrors.halfway (hM : Mirrors g (g.circuitOf name make) s c) {t : Times} {c₁ : Circuit}
    (h₁ : Circuit.Simultaneous t (c.numbers false) c c₁) :
    Halfway g (g.circuitOf name make) s c₁ := by
  constructor
  case shape => exact h₁.shape.trans hM.shape
  case ticks => exact h₁.ticks.trans hM.ticks
  case carries =>
    rw [← driven_gates hM.quiet]
    exact hM.carries.phase (hM.acts hf ha t) h₁ hf ha hM.shape
  case gate =>
    intro i h hi hc
    obtain ⟨m, hm, hupdate, -, hcells, hnext, hholds⟩ := hM.gate hf ha hi hc t
    have hmem : i ∈ c.numbers false :=
      (Grid.mem_numbers_iff hM.shape hf ha hi false).2 (by simpa [Code.isWire] using hc)
    have htick : (s.tick g).level h = s.next g h := if_neg hc
    refine ⟨_, ?_, hcells, hnext.trans htick.symm, hholds⟩
    rw [h₁.components, hm, Option.map_some, if_pos hmem, hupdate]
  case wire =>
    intro i h hi hc
    obtain ⟨m, hm, hcells, -, hk⟩ := hM.component i h hi
    have hnot : i ∉ c.numbers false := by
      rw [Grid.mem_numbers_iff hM.shape hf ha hi false, hc]
      decide
    refine ⟨m, ?_, hcells, hk⟩
    rw [h₁.components, hm, Option.map_some, if_neg hnot]

/-- A wire does in the second half what the snapshot says of its class. -/
theorem Halfway.settle (hH : Halfway g (g.circuitOf name make) s c) {i : Nat} {h : Pos}
    (hi : g.heads[i]? = some h) (hc : g.get h = .wire) (t : Times) : ∃ m, c.components[i]? = some m ∧
      m.update t c.connections = m.updatePlain t c.connections ∧
      (m.updatePlain t c.connections).value.cells = g.classOf h ∧
      (m.updatePlain t c.connections).value.level = (s.tick g).level h ∧
      (s.tick g).Holds g h (m.updatePlain t c.connections).value.kind := by
  obtain ⟨m, hm, hcells, hk⟩ := hH.wire i h hi hc
  obtain ⟨h', hi', hshape⟩ := Grid.exists_component ha hH.shape hm
  obtain rfl := Option.some.inj (hi.symm.trans hi')
  have hw : m.isWire = true := by
    rw [Grid.isWire_iff_get hH.shape hf ha hi hm, hc]
    rfl
  have hinputs : (m.read c.connections).inputs = _ := hH.carries.inputs hf ha hi hshape
  obtain ⟨hlevel, hholds⟩ := hk.settle_wire hc (t.read [m.firstCell]) (m.read c.connections)
  rw [hinputs, readsOf_wire hc] at hlevel
  exact ⟨m, hm, Component.update_wire hw, hcells, hlevel, hholds⟩

theorem Halfway.acts (hH : Halfway g (g.circuitOf name make) s c) (t : Times) :
    g.Acts c true t (s.tick g).level := by
  intro i h m hi hm hw
  have hc : g.get h = .wire := by
    rw [Grid.isWire_iff_get hH.shape hf ha hi hm] at hw
    simpa [Code.isWire] using hw
  obtain ⟨m', hm', hk⟩ := hH.wire i h hi hc
  obtain ⟨m'', hm'', hupdate, -, hlevel, -⟩ := hH.settle hf ha hi hc t
  obtain rfl := Option.some.inj (hm.symm.trans hm')
  obtain rfl := Option.some.inj (hm.symm.trans hm'')
  exact ⟨hupdate, hlevel, hk.2.plain.1⟩

/-- After the second half the circuit mirrors the next snapshot. -/
theorem Halfway.complete (hH : Halfway g (g.circuitOf name make) s c) {t : Times} {c' : Circuit}
    (h₂ : Circuit.Simultaneous t (c.numbers true) c c') :
    Mirrors g (g.circuitOf name make) (s.tick g) { c' with ticks := c'.ticks + 1 } := by
  constructor
  case shape => exact h₂.shape.trans hH.shape
  case ticks =>
    show c'.ticks + 1 = s.ticks + 1
    rw [h₂.ticks, hH.ticks]
  case component =>
    intro i h hi
    have hnumbers := Grid.mem_numbers_iff hH.shape hf ha hi true
    by_cases hc : g.get h = .wire
    · obtain ⟨m, hm, hupdate, hcells, hlevel, hk⟩ := hH.settle hf ha hi hc t
      have hmem : i ∈ c.numbers true := hnumbers.2 (by rw [hc]; rfl)
      refine ⟨_, ?_, hcells, hlevel, hk⟩
      rw [h₂.components, hm, Option.map_some, if_pos hmem, hupdate]
    · obtain ⟨m, hm, hcells, hlevel, hk⟩ := hH.gate i h hi hc
      have hnot : i ∉ c.numbers true := by
        rw [hnumbers]
        simpa [Code.isWire] using hc
      refine ⟨m, ?_, hcells, hlevel, hk⟩
      rw [h₂.components, hm, Option.map_some, if_neg hnot]
  case carries =>
    show g.Carries _ c'.connections
    rw [← driven_wires]
    exact hH.carries.phase (hH.acts hf ha t) h₂ hf ha hH.shape
  case quiet =>
    intro h hd
    simp [Snapshot.tick, Snapshot.gives, hd]

theorem Mirrors.not_fails (hM : Mirrors g (g.circuitOf name make) s c) (t : Times) :
    ¬ c.Fails t (c.numbers false) := by
  intro hfails
  obtain ⟨i, hmem, m, hm, hfail⟩ := hfails
  obtain ⟨h, hi, -⟩ := Grid.exists_component ha hM.shape hm
  have hw := (Grid.mem_numbers_iff hM.shape hf ha hi false).1 hmem
  obtain ⟨hupdate, -, -⟩ := hM.acts hf ha t i h m hi hm
    ((Grid.isWire_iff_get hM.shape hf ha hi hm).trans hw)
  rw [hupdate] at hfail
  cases hfail

/-- A tick of the circuit is a tick of the snapshot, and completes. -/
theorem Mirrors.tick (hM : Mirrors g (g.circuitOf name make) s c) (t : Times) :
    ∃ c', c.tick t = (c', none) ∧ Mirrors g (g.circuitOf name make) (s.tick g) c' := by
  have hapart := Circuit.apart_of_shape (Grid.circuitOf_wired hf).apart hM.shape
  obtain ⟨-, c', hc', ht⟩ | ⟨hn, -⟩ := Circuit.tickInOrder_spec t hapart
    (List.Perm.refl _) (List.Perm.refl _)
  · obtain ⟨c₁, c₂, h₁, h₂, rfl⟩ := ht.halves
    exact ⟨_, (c.tick_eq t).trans hc', (hM.halfway hf ha h₁).complete hf ha h₂⟩
  · exact absurd hn (hM.not_fails hf ha t)

end Tick

end GridCircuit
