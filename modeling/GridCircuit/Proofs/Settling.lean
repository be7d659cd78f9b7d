import GridCircuit.Proofs.Depth
import GridCircuit.Proofs.Run

/-!
# Drawings without memory settle

From every state that ticks and toggles can bring about, the circuit of a drawing without memory comes
to the solution for its buttons: what lies at depth `k` is right after `k` ticks, and when all is right
nothing changes any more. The proof compares two snapshots that agree on the buttons: after `k` ticks
they agree down to depth `k`. A solution is a snapshot that ticks leave as it is.
-/

namespace GridCircuit

variable {g : Grid} {depth : Pos → Nat} {total : Nat} {a b h w p : Pos} {s s' : Snapshot}

namespace Grid

theorem carried_input {level : Pos → Bool} (hp : p ∈ g.inputsOf h) :
    g.carried level p = (g.wireSide? p).any level := by
  have hc : g.get p = .input := (of_decide_eq_true (List.mem_filter.1 hp).2).1
  rw [carried, hc]

theorem carried_output {level : Pos → Bool} (hp : p ∈ g.outputsTo w) :
    g.carried level p = (g.otherSide? p).any fun a => g.get a ≠ .display && level a := by
  have hc : g.get p = .output := (of_decide_eq_true (List.mem_filter.1 hp).2).1
  rw [carried, hc]

end Grid

namespace Snapshot

theorem reads_eq (s : Snapshot) (h : Pos) : s.reads g h = g.inputLevels s.level h := by
  apply List.map_congr_left
  intro p hp
  rw [Grid.carried_input hp]
  rfl

/-- What a tick computes for a class that is no wire is the value that its inputs ask for. -/
theorem next_eq (hc : (g.get h).isCombinational = true) (hw : g.get h ≠ .wire) :
    s.next g h = g.valueOf s.level s.level h := by
  rw [next, Grid.valueOf, s.reads_eq]
  cases hg : g.get h
  case wire => exact absurd hg hw
  case clock =>
    rw [hg] at hc
    cases hc
  case flipFlop =>
    rw [hg] at hc
    cases hc
  all_goals rfl

/-- A tick brings wires in line with what drives them. -/
theorem tick_wire (hw : g.get w = .wire) :
    (s.tick g).level w = (g.outputsTo w).any (g.carried (s.tick g).level) := by
  have hlevel : (s.tick g).level w = (g.outputsTo w).any fun p => (g.otherSide? p).any (s.gives g) :=
    if_pos hw
  rw [hlevel, Bool.eq_iff_iff, List.any_eq_true, List.any_eq_true]
  refine exists_congr fun p => and_congr_right fun hp => ?_
  rw [Grid.carried_output hp]
  cases ha : g.otherSide? p with
  | none => rfl
  | some a =>
    have hnext : (s.tick g).level a = s.next g a := if_neg (Grid.otherSide?_ne_wire ha)
    rw [Option.any_some, Option.any_some, hnext, gives]

theorem tick_gate (hc : (g.get h).isCombinational = true) (hw : g.get h ≠ .wire) :
    (s.tick g).level h = g.valueOf s.level s.level h := by
  have hlevel : (s.tick g).level h = s.next g h := if_neg hw
  rw [hlevel, next_eq hc hw]

end Snapshot

namespace Grid

variable {pressed pressed' level level' : Pos → Bool}

/-- The value of a class that is no wire depends on the wires before it, and on its button. -/
theorem valueOf_congr (hw : g.get h ≠ .wire)
    (hi : ∀ p ∈ g.inputsOf h, ∀ w, g.wireSide? p = some w → level w = level' w)
    (hb : g.get h = .button → pressed h = pressed' h) :
    g.valueOf pressed level h = g.valueOf pressed' level' h := by
  have hlevels : g.inputLevels level h = g.inputLevels level' h := by
    apply List.map_congr_left
    intro p hp
    rw [carried_input hp, carried_input hp]
    cases hside : g.wireSide? p with
    | none => rfl
    | some w => rw [Option.any_some, Option.any_some, hi p hp w hside]
  rw [valueOf, valueOf, hlevels]
  cases hg : g.get h
  case wire => exact absurd hg hw
  case button => exact hb hg
  all_goals rfl

/-- What drives a wire depends on the classes before it. -/
theorem drivers_congr (ha : ∀ a, g.Drives a w → level a = level' a) :
    (g.outputsTo w).any (g.carried level) = (g.outputsTo w).any (g.carried level') := by
  rw [Bool.eq_iff_iff, List.any_eq_true, List.any_eq_true]
  refine exists_congr fun p => and_congr_right fun hp => ?_
  rw [carried_output hp, carried_output hp]
  cases hside : g.otherSide? p with
  | none => rfl
  | some a => rw [Option.any_some, Option.any_some, ha a ⟨p, hp, hside⟩]

end Grid

namespace Snapshot

/-- The snapshot after a number of ticks. -/
noncomputable def after (g : Grid) (s : Snapshot) : Nat → Snapshot
  | 0 => s
  | k + 1 => (after g s k).tick g

theorem after_add (s : Snapshot) (j k : Nat) : s.after g (j + k) = (s.after g j).after g k := by
  induction k with
  | zero => rfl
  | succ k ih =>
    rw [← Nat.add_assoc, after, after, ih]

theorem run_ticks (times : List Times) : ∀ s : Snapshot,
    s.run g (times.map .tick) = s.after g times.length := by
  induction times with
  | nil => exact fun s => rfl
  | cons t times ih =>
    intro s
    rw [List.map_cons, run, ih, List.length_cons, Nat.add_comm, after_add]
    rfl

theorem after_button (hc : g.Combinational) (hh : h ∈ g.heads) (hb : g.get h = .button) (s : Snapshot)
    (k : Nat) : (s.after g k).level h = s.level h := by
  induction k with
  | zero => rfl
  | succ k ih =>
    have hw : g.get h ≠ .wire := by simp [hb]
    rw [after, tick_gate (hc h (Grid.mem_heads.1 hh).1) hw, Grid.valueOf, hb, ih]

/-- Two snapshots with the same buttons, and the same levels on what nothing drives. -/
structure Alike (g : Grid) (s s' : Snapshot) : Prop where
  button : ∀ h ∈ g.heads, g.get h = .button → s.level h = s'.level h
  undriven : ∀ w ∈ g.heads, g.get w = .wire → (∀ a, ¬ g.Drives a w) → s.level w = s'.level w

/-- Such snapshots become the same, from the surface down: one tick for each class on the way. -/
theorem Alike.after (hal : s.Alike g s') (hd : g.Depths depth total) (hc : g.Combinational) (k : Nat) :
    ∀ h ∈ g.heads, depth h ≤ k → (s.after g k).level h = (s'.after g k).level h := by
  induction k with
  | zero =>
    intro h hh hle
    have hw : g.get h = .wire := by
      by_contra hw
      have hpos := hd.gate_pos hh hw
      omega
    exact hal.undriven h hh hw fun a => hd.no_driver hh hw (by omega)
  | succ k ih =>
    have hgate : ∀ h ∈ g.heads, g.get h ≠ .wire → depth h ≤ k + 1 →
        (s.after g (k + 1)).level h = (s'.after g (k + 1)).level h := by
      intro h hh hw hle
      have hcomb := hc h (Grid.mem_heads.1 hh).1
      rw [Snapshot.after, Snapshot.after, tick_gate hcomb hw, tick_gate hcomb hw]
      refine Grid.valueOf_congr hw (fun p hp w hside => ?_) fun hb => ?_
      · have hlt := hd.wire_lt hh hw hp hside
        exact ih w (Grid.side?_eq_some hside).1 (by omega)
      · rw [after_button hc hh hb, after_button hc hh hb, hal.button h hh hb]
    intro h hh hle
    by_cases hw : g.get h = .wire
    · rw [Snapshot.after, Snapshot.after, tick_wire hw, tick_wire hw]
      refine Grid.drivers_congr fun a ha => ?_
      obtain ⟨p, -, hp⟩ := id ha
      have hdriver := hd.driver_le hh hw ha
      exact hgate a (Grid.side?_eq_some hp).1 (Grid.otherSide?_ne_wire hp) (by omega)
    · exact hgate h hh hw hle

/-- What nothing drives is low. -/
def Grounded (g : Grid) (s : Snapshot) : Prop :=
  ∀ w ∈ g.heads, g.get w = .wire → (∀ a, ¬ g.Drives a w) → s.level w = false

theorem outputs_low {level : Pos → Bool} (hno : ∀ a, ¬ g.Drives a w) :
    (g.outputsTo w).any (g.carried level) = false := by
  rw [List.any_eq_false]
  intro p hp
  rw [Grid.carried_output hp]
  cases ha : g.otherSide? p with
  | none => simp
  | some a => exact absurd ⟨p, hp, ha⟩ (hno a)

theorem grounded_tick (g : Grid) (s : Snapshot) : (s.tick g).Grounded g := by
  intro w _ hw hno
  rw [tick_wire hw, outputs_low hno]

theorem Grounded.toggle (hs : s.Grounded g) (n : Nat) : (s.toggle g n).Grounded g := by
  intro w hw hc hno
  rw [Snapshot.toggle]
  cases hb : g.buttonHeads[n]? with
  | none => exact hs w hw hc hno
  | some b =>
    have hbutton : g.get b = .button :=
      of_decide_eq_true (List.mem_filter.1 (List.mem_of_getElem? hb)).2
    have hne : w ≠ b := by
      intro he
      rw [← he, hc] at hbutton
      cases hbutton
    exact (if_neg hne).trans (hs w hw hc hno)

theorem Grounded.run : ∀ (actions : List Action) {s : Snapshot}, s.Grounded g →
    (s.run g actions).Grounded g := by
  intro actions
  induction actions with
  | nil => exact fun hs => hs
  | cons action actions ih =>
    intro s hs
    cases action with
    | tick now => exact ih (grounded_tick g s)
    | toggle n => exact ih (hs.toggle n)

theorem Grounded.alike (hs : s.Grounded g) (hs' : s'.Grounded g)
    (hb : ∀ h ∈ g.heads, g.get h = .button → s.level h = s'.level h) : s.Alike g s' :=
  ⟨hb, fun w hw hc hno => (hs w hw hc hno).trans (hs' w hw hc hno).symm⟩

/-- A snapshot whose levels solve the drawing. -/
theorem grounded_of_solves {pressed level : Pos → Bool} (hs : g.Solves pressed level) :
    Grounded g { level } := by
  intro w hw hc hno
  show level w = false
  rw [hs w hw, Grid.valueOf, hc, outputs_low hno]

/-- Ticks leave a solution as it is. -/
theorem after_of_solves {pressed level : Pos → Bool} (hc : g.Combinational)
    (hs : g.Solves pressed level) (k : Nat) :
    ∀ h ∈ g.heads, (after g { level } k).level h = level h := by
  induction k with
  | zero => exact fun h _ => rfl
  | succ k ih =>
    have hgate : ∀ h ∈ g.heads, g.get h ≠ .wire → (after g { level } (k + 1)).level h = level h := by
      intro h hh hw
      rw [after, tick_gate (hc h (Grid.mem_heads.1 hh).1) hw, hs h hh]
      refine Grid.valueOf_congr hw (fun p hp w hside => ?_) fun hb => ?_
      · exact ih w (Grid.side?_eq_some hside).1
      · rw [ih h hh, hs h hh, Grid.valueOf, hb]
    intro h hh
    by_cases hw : g.get h = .wire
    · rw [after, tick_wire hw, hs h hh, Grid.valueOf, hw]
      refine Grid.drivers_congr fun a ha => ?_
      obtain ⟨p, -, hp⟩ := id ha
      exact hgate a (Grid.side?_eq_some hp).1 (Grid.otherSide?_ne_wire hp)
    · exact hgate h hh hw

section Settled

variable (hd : g.Depths depth total) (hc : g.Combinational) (hs : s.Grounded g)

include hd hc hs

/-- A solution for the buttons is where a snapshot goes. -/
theorem after_eq_of_solves {level : Pos → Bool} (hl : g.Solves s.level level) (k : Nat) :
    ∀ h ∈ g.heads, depth h ≤ k → (s.after g k).level h = level h := by
  have hal : s.Alike g { level } := by
    refine hs.alike (grounded_of_solves hl) fun h hh hb => ?_
    show s.level h = level h
    rw [hl h hh, Grid.valueOf, hb]
  intro h hh hle
  rw [hal.after hd hc k h hh hle, after_of_solves hc hl k h hh]

/-- After as many ticks as the drawing is deep, a further tick changes no level. -/
theorem after_stable {k : Nat} (hk : total ≤ k) :
    ∀ h ∈ g.heads, (s.after g (k + 1)).level h = (s.after g k).level h := by
  have hal : (s.tick g).Alike g s :=
    (grounded_tick g s).alike hs fun h hh hb => after_button hc hh hb s 1
  intro h hh
  have hle := hd.le_total hh
  have hstep := hal.after hd hc k h hh (by omega)
  have hsplit : s.after g (1 + k) = (s.tick g).after g k := after_add s 1 k
  rwa [← hsplit, Nat.add_comm] at hstep

/-- There is a solution for the buttons: what the snapshot has come to. -/
theorem solves_after : g.Solves s.level (s.after g total).level := by
  intro h hh
  rw [← after_stable hd hc hs (Nat.le_refl total) h hh]
  by_cases hw : g.get h = .wire
  · rw [after, tick_wire hw, Grid.valueOf, hw]
    refine Grid.drivers_congr fun a ha => ?_
    obtain ⟨p, -, hp⟩ := id ha
    exact after_stable hd hc hs (Nat.le_refl total) a (Grid.side?_eq_some hp).1
  · rw [after, tick_gate (hc h (Grid.mem_heads.1 hh).1) hw]
    exact Grid.valueOf_congr hw (fun p hp w hside => rfl) fun hb => after_button hc hh hb s total

end Settled

end Snapshot

/-- The level at a cell, low where there is none. -/
def Circuit.levelOf (c : Circuit) (p : Pos) : Bool := (c.levelAt? p).getD false

/-- Every class has its component, and those that satisfy a condition have the level of a solution, on all
of their cells. -/
structure Grid.RightOn (g : Grid) (level : Pos → Bool) (P : Pos → Prop) (c : Circuit) : Prop where
  heads_eq : c.components.map (·.firstCell) = g.heads
  component : ∀ m ∈ c.components, P m.firstCell → m.level = level m.firstCell
  cell : ∀ p ∈ g.positions, (g.get p).groups = true → P (g.root p) →
    c.levelAt? p = some (level (g.root p))

/-- A circuit shows the levels of a solution everywhere, and its displays the numbers that follow. -/
structure Grid.Shows (g : Grid) (level : Pos → Bool) (c : Circuit) : Prop
    extends g.RightOn level (fun _ => True) c where
  connection : ∀ k ∈ c.connections.toList, k.active = g.carried level k.pos
  junction : ∀ p ∈ g.positions, g.get p = .cross ∨ (g.get p).isConnector = true →
    c.levelAt? p = some (g.carried level p)
  displays : c.displayValues.map (fun e => (e.1, e.2.toNat)) =
    (g.heads.filter fun h => g.get h = .display).map fun h => (h, displayed (g.inputLevels level h))

/-- Two circuits that do not differ in any level or display value. -/
structure Circuit.Still (c c' : Circuit) : Prop where
  components : c'.components.map (·.level) = c.components.map (·.level)
  connections : c'.connections.toList.map (·.active) = c.connections.toList.map (·.active)
  displays : c'.displayValues = c.displayValues

section Circuits

variable {make : Code → Making} {name : String} {c c' : Circuit} {m : Component} {level : Pos → Bool}

/-- The components of a circuit that mirrors a snapshot are the classes. -/
theorem Mirrors.exists_head (hM : Mirrors g (g.circuitOf name make) s c) (ha : g.AllMade make)
    (hm : m ∈ c.components) : m.firstCell ∈ g.heads ∧ m.level = s.level m.firstCell := by
  obtain ⟨i, hi⟩ := List.getElem?_of_mem hm
  obtain ⟨h, hh, -⟩ := Grid.exists_component ha hM.shape hi
  obtain ⟨m', hm', hcells, hlevel, -⟩ := hM.component i h hh
  obtain rfl := Option.some.inj (hi.symm.trans hm')
  have hmem := List.mem_of_getElem? hh
  obtain ⟨hpos, -, hroot⟩ := Grid.mem_heads.1 hmem
  have hfirst : m.firstCell = h := by
    rw [Component.firstCell, hcells, Grid.headD_classOf hpos, hroot]
  rw [hfirst]
  exact ⟨hmem, hlevel⟩

/-- A connection carries what the classes give it, once they have been updated. -/
theorem Snapshot.signal_after (hd : g.Depths depth total) {k : Nat} (hk : total ≤ k)
    (hl : ∀ h ∈ g.heads, (s.after g k).level h = level h) :
    (s.after g k).signal g p = g.carried level p := by
  have hwire : (s.after g k).onWire g p = (g.wireSide? p).any level := by
    rw [onWire]
    cases hside : g.wireSide? p with
    | none => rfl
    | some w => rw [Option.any_some, Option.any_some, hl w (Grid.side?_eq_some hside).1]
  rw [signal, Grid.carried, hwire]
  cases hg : g.get p
  case output =>
    cases hside : g.otherSide? p with
    | none => rfl
    | some a =>
      have hmem := (Grid.side?_eq_some hside).1
      have hne := Grid.otherSide?_ne_wire hside
      have hpos := hd.gate_pos hmem hne
      have hle := hd.gate_le hmem hne
      obtain ⟨j, rfl⟩ : ∃ j, k = j + 1 := ⟨k - 1, by omega⟩
      have hnext : (s.after g (j + 1)).level a = (s.after g j).next g a := if_neg hne
      have hgiven : (s.after g (j + 1)).given = (s.after g j).gives g := rfl
      simp only [Option.any_some, hgiven, gives, ← hnext, hl a hmem]
  all_goals rfl

/-- A display shows the number of its inputs one tick after they are right. -/
theorem Snapshot.shown_after (hd : g.Depths depth total) (hh : h ∈ g.heads) (hc : g.get h = .display)
    {k : Nat} (hk : total ≤ k) (hl : ∀ j, ∀ w ∈ g.heads, depth w ≤ j → (s.after g j).level w = level w) :
    (s.after g k).shown h = displayed (g.inputLevels level h) := by
  have hne : g.get h ≠ .wire := by simp [hc]
  have hpos := hd.gate_pos hh hne
  have hle := hd.gate_le hh hne
  obtain ⟨j, rfl⟩ : ∃ j, k = j + 1 := ⟨k - 1, by omega⟩
  have hshown : (s.after g (j + 1)).shown h = displayed ((s.after g j).reads g h) := rfl
  rw [hshown, reads_eq]
  congr 1
  apply List.map_congr_left
  intro p hp
  rw [Grid.carried_input hp, Grid.carried_input hp]
  cases hside : g.wireSide? p with
  | none => rfl
  | some w =>
    have hlt := hd.wire_lt hh hne hp hside
    rw [Option.any_some, Option.any_some, hl j w (Grid.side?_eq_some hside).1 (by omega)]

/-- The equations for the levels read the same buttons in both. -/
theorem Mirrors.solves_iff (hM : Mirrors g (g.circuitOf name make) s c) (ha : g.AllMade make) :
    g.Solves c.levelOf level ↔ g.Solves s.level level := by
  refine forall₂_congr fun h hh => ?_
  obtain ⟨hpos, hgroups, hroot⟩ := Grid.mem_heads.1 hh
  have hbutton : c.levelOf h = s.level h := by
    rw [Circuit.levelOf, hM.levelAt?_class ha hpos hgroups, hroot]
    rfl
  rw [Grid.valueOf, Grid.valueOf, hbutton]

theorem Mirrors.heads_eq (hM : Mirrors g (g.circuitOf name make) s c) (ha : g.AllMade make) :
    c.components.map (·.firstCell) = g.heads := by
  have hhead := congrArg (List.map fun cells : List Pos => cells.headD Pos.origin) (hM.covered ha).1
  rw [List.map_map, List.map_map] at hhead
  refine hhead.trans ((List.map_congr_left fun h hh => ?_).trans (List.map_id _))
  obtain ⟨hpos, -, hroot⟩ := Grid.mem_heads.1 hh
  exact (Grid.headD_classOf hpos _).trans hroot

/-- What is right in a snapshot is right in the circuit. -/
theorem Mirrors.rightOn (hM : Mirrors g (g.circuitOf name make) s c) (ha : g.AllMade make)
    {P : Pos → Prop} (hP : ∀ h ∈ g.heads, P h → s.level h = level h) : g.RightOn level P c := by
  constructor
  case heads_eq => exact hM.heads_eq ha
  case component =>
    intro m hm hp
    obtain ⟨hmem, hlevel⟩ := hM.exists_head ha hm
    rw [hlevel, hP _ hmem hp]
  case cell =>
    intro p hp hg hroot
    rw [hM.levelAt?_class ha hp hg, hP _ (Grid.root_mem_heads hp hg) hroot]

theorem Mirrors.shows {k : Nat} (hM : Mirrors g (g.circuitOf name make) (s.after g k) c)
    (ha : g.AllMade make) (hd : g.Depths depth total) (hk : total ≤ k)
    (hl : ∀ j, ∀ w ∈ g.heads, depth w ≤ j → (s.after g j).level w = level w) : g.Shows level c := by
  have hall : ∀ h ∈ g.heads, (s.after g k).level h = level h :=
    fun h hh => hl k h hh ((hd.le_total hh).trans hk)
  constructor
  case toRightOn => exact hM.rightOn ha fun h hh _ => hall h hh
  case connection =>
    intro k' hk'
    obtain ⟨id, hid⟩ := List.getElem?_of_mem hk'
    rw [Array.getElem?_toList] at hid
    obtain ⟨p, hp⟩ : ∃ p, g.junctions[id]? = some p := by
      have hlt := (Array.getElem?_eq_some_iff.1 hid).1
      rw [hM.carries.size_eq] at hlt
      exact ⟨_, List.getElem?_eq_getElem hlt⟩
    obtain ⟨k'', hk'', hpos, -, hactive⟩ := hM.carries.connection id p hp
    obtain rfl := Option.some.inj (hid.symm.trans hk'')
    rw [hactive, Snapshot.signal_after hd hk hall, hpos]
  case junction =>
    intro p hp hc
    rw [hM.levelAt?_junction ha (Grid.mem_junctions.2 ⟨hp, hc⟩), Snapshot.signal_after hd hk hall]
  case displays =>
    rw [hM.displayValues ha, Snapshot.displays]
    apply List.map_congr_left
    intro h hh
    obtain ⟨hmem, hdisplay⟩ := List.mem_filter.1 hh
    rw [Snapshot.shown_after hd hmem (of_decide_eq_true hdisplay) hk hl]

/-- What two circuits of one drawing show is the same once all is right. -/
theorem Mirrors.still {j k : Nat} (hM : Mirrors g (g.circuitOf name make) (s.after g j) c)
    (hM' : Mirrors g (g.circuitOf name make) (s.after g k) c') (ha : g.AllMade make)
    (hd : g.Depths depth total) (hj : total ≤ j) (hk : total ≤ k)
    (hl : ∀ j, ∀ w ∈ g.heads, depth w ≤ j → (s.after g j).level w = level w) : c.Still c' := by
  have hc := hM.shows ha hd hj hl
  have hc' := hM'.shows ha hd hk hl
  constructor
  case components =>
    have h := congrArg (List.map level) (hc'.heads_eq.trans hc.heads_eq.symm)
    rw [List.map_map, List.map_map] at h
    rw [List.map_congr_left fun m hm => hc.component m hm trivial,
      List.map_congr_left fun m hm => hc'.component m hm trivial]
    exact h
  case connections =>
    have hpos := (hM'.covered ha).2.trans (hM.covered ha).2.symm
    have h := congrArg (List.map (g.carried level)) hpos
    rw [List.map_map, List.map_map] at h
    rw [List.map_congr_left hc.connection, List.map_congr_left hc'.connection]
    exact h
  case displays =>
    refine List.map_injective_iff.2 (fun e e' he => ?_) (hc'.displays.trans hc.displays.symm)
    obtain ⟨hpos, hvalue⟩ := Prod.mk.inj he
    exact Prod.ext hpos (UInt64.toNat_inj.1 hvalue)

end Circuits

theorem Grid.Combinational.builtIn (hc : g.Combinational) : g.BuiltIn := by
  intro p hp
  have h := hc p hp
  cases hg : g.get p <;> rw [hg] at h
  case custom => cases h
  all_goals rfl

/-- Without clocks the period does not show in what is made. -/
theorem Code.isCombinational_builtin? {c : Code} (hc : c.isCombinational = true) (clockPeriod : Nat) :
    Kind.builtin? clockPeriod c = Kind.builtin? 0 c := by
  cases c <;> first | rfl | cases hc

namespace Field

/-- The circuit of a drawing without memory and without cycles settles. From whatever ticks and toggles
have made of it, `k` ticks bring what lies at depth `k` to the one solution for the buttons, and when
there have been as many as the drawing is deep, every component, connection and display is right and
stays so. -/
theorem settles (rs : Registries) (clockPeriod : Nat) (f : Field) (he : f.grid.Labellable)
    (hc : f.grid.Combinational) (hacyclic : f.grid.Acyclic) :
    ∃ b depth total, f.build rs clockPeriod = .ok b ∧ f.grid.Depths depth total ∧
      ∀ actions : List Action, ∃ c level, b.circuit.run actions = some c ∧
        f.grid.Solves c.levelOf level ∧
        (∀ level', f.grid.Solves c.levelOf level' → ∀ h ∈ f.grid.heads, level' h = level h) ∧
        ∀ times : List Times, ∃ c', c.run (times.map .tick) = some c' ∧
          f.grid.RightOn level (fun h => depth h ≤ times.length) c' ∧
          (total ≤ times.length → f.grid.Shows level c' ∧
            ∀ later : List Times, ∃ c'', c'.run (later.map .tick) = some c'' ∧ c'.Still c'') := by
  have hbuild : f.build rs clockPeriod = .ok _ :=
    (buildWithin_eq rs clockPeriod maxNesting f).trans (Grid.build_eq he.exact f.name _)
  have hf := f.maker_faithful rs clockPeriod maxNesting
  have hmade : f.grid.MadeBuiltIn (f.maker rs clockPeriod maxNesting) := by
    intro h hh
    obtain ⟨kind, hk, hm⟩ := maker_of_mem_heads rs clockPeriod maxNesting hc.builtIn hh
    rw [hm, ← Code.isCombinational_builtin? (hc h (Grid.mem_heads.1 hh).1) clockPeriod, hk]
    rfl
  have ha := allMade_of_builtIn rs clockPeriod maxNesting hc.builtIn
  obtain ⟨depth, total, hd⟩ := Grid.exists_depths hacyclic
  refine ⟨_, depth, total, hbuild, hd, fun actions => ?_⟩
  obtain ⟨c, hrun, hM⟩ := Mirrors.run hf ha actions {} (f.grid.circuitOf f.name _) (.start ha hmade)
  generalize hs : Snapshot.run f.grid {} actions = s at hM
  have hground : s.Grounded f.grid := hs ▸ Snapshot.Grounded.run actions fun w _ _ _ => rfl
  have hsol := Snapshot.solves_after hd hc hground
  have hright := Snapshot.after_eq_of_solves hd hc hground hsol
  refine ⟨c, (s.after f.grid total).level, hrun, (hM.solves_iff ha).2 hsol, ?_, fun times => ?_⟩
  · intro level' hl' h hh
    have hle := hd.le_total hh
    exact (Snapshot.after_eq_of_solves hd hc hground ((hM.solves_iff ha).1 hl') total h hh hle).symm
  · obtain ⟨c', hrun', hM'⟩ := Mirrors.run hf ha (times.map .tick) s c hM
    rw [Snapshot.run_ticks] at hM'
    refine ⟨c', hrun', hM'.rightOn ha (hright times.length), fun hle => ?_⟩
    refine ⟨hM'.shows ha hd hle hright, fun later => ?_⟩
    obtain ⟨c'', hrun'', hM''⟩ := Mirrors.run hf ha (later.map .tick) _ c' hM'
    rw [Snapshot.run_ticks, ← Snapshot.after_add] at hM''
    exact ⟨c'', hrun'', hM'.still hM'' ha hd hle (by omega) hright⟩

end Field

/-- In the sample lamp only the button feeds, and only the display is fed. -/
theorem sampleLamp_feeds (hf : sampleLamp.grid.Feeds a b) :
    sampleLamp.grid.get a = .button ∧ sampleLamp.grid.get b = .display := by
  have hcells : ∀ code p, p ∈ (sampleLamp.grid.positions.filter fun p => sampleLamp.grid.get p = code) →
      code = .output ∨ code = .input → ∀ q ∈ p.neighbors, (sampleLamp.grid.get q).groups = true →
      (sampleLamp.grid.get q).isWire = false →
      sampleLamp.grid.get q = if code = .output then .button else .display := by
    rintro code p hp (rfl | rfl)
    · revert p
      decide
    · revert p
      decide
  have hside : ∀ code p h, p ∈ sampleLamp.grid.positions → sampleLamp.grid.get p = code →
      code = .output ∨ code = .input → sampleLamp.grid.otherSide? p = some h →
      sampleLamp.grid.get h = if code = .output then .button else .display := by
    intro code p h hp hc hcode hh
    obtain ⟨q, hq, rfl⟩ := Option.map_eq_some_iff.1 hh
    have hmem := List.mem_of_find?_eq_some hq
    obtain ⟨hpos, hgroups, hwire⟩ : q ∈ sampleLamp.grid.positions ∧
        (sampleLamp.grid.get q).groups = true ∧ (sampleLamp.grid.get q).isWire = false := by
      simpa using List.find?_some hq
    rw [Grid.get_root hpos]
    exact hcells code p (List.mem_filter.2 ⟨hp, by simpa using hc⟩) hcode q hmem hgroups hwire
  obtain ⟨w, ⟨p, hp, hpa⟩, q, hq, -⟩ := hf
  obtain ⟨hp, hout⟩ := List.mem_filter.1 hp
  obtain ⟨hq, hin⟩ := List.mem_filter.1 hq
  obtain ⟨hout, -⟩ := of_decide_eq_true hout
  obtain ⟨hin, hqb⟩ := of_decide_eq_true hin
  exact ⟨hside _ p a hp hout (.inl rfl) hpa, hside _ q b hq hin (.inr rfl) hqb⟩

theorem sampleLamp_acyclic : sampleLamp.grid.Acyclic := by
  intro h hcycle
  obtain ⟨x, hfirst, -⟩ := Relation.TransGen.head'_iff.1 hcycle
  obtain ⟨y, -, hlast⟩ := Relation.TransGen.tail'_iff.1 hcycle
  have hbutton := (sampleLamp_feeds hfirst).1
  rw [(sampleLamp_feeds hlast).2] at hbutton
  cases hbutton

theorem sampleLamp_settles : sampleLamp.grid.Labellable ∧ sampleLamp.grid.Combinational ∧
    sampleLamp.grid.Acyclic ∧
    ∃ b depth total, sampleLamp.build {} 0 = .ok b ∧ sampleLamp.grid.Depths depth total ∧
      ∀ actions : List Action, ∃ c level, b.circuit.run actions = some c ∧
        sampleLamp.grid.Solves c.levelOf level ∧
        (∀ level', sampleLamp.grid.Solves c.levelOf level' →
          ∀ h ∈ sampleLamp.grid.heads, level' h = level h) ∧
        ∀ times : List Times, ∃ c', c.run (times.map .tick) = some c' ∧
          sampleLamp.grid.RightOn level (fun h => depth h ≤ times.length) c' ∧
          (total ≤ times.length → sampleLamp.grid.Shows level c' ∧
            ∀ later : List Times, ∃ c'', c'.run (later.map .tick) = some c'' ∧ c'.Still c'') :=
  ⟨by decide, by decide, sampleLamp_acyclic,
    Field.settles {} 0 sampleLamp (by decide) (by decide) sampleLamp_acyclic⟩

end GridCircuit
