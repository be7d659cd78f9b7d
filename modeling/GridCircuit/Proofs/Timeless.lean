import GridCircuit.Proofs.Orders

/-!
# Clocks without a period

A clock whose period is zero flips on every poll but the first, whenever it is polled. `timeless`
forgets when the clocks of a component flipped last, inside it too; for components whose clocks all
have period zero, nothing else that an update leaves behind depends on the time.
-/

namespace GridCircuit

/-- A clock without the time of its last flip; only whether it has been polled is kept. -/
def ClockPhase.timeless (phase : ClockPhase) : ClockPhase :=
  { phase with lastFlip := phase.lastFlip.map fun _ => 0 }

mutual

/-- A component without the times of its clocks. -/
def Component.timeless : Component → Component
  | ⟨code, .nested pins ⟨name, components, connections, ticks⟩, level, cells, inputs, outputs, clock⟩ =>
    ⟨code, .nested pins ⟨name, timelessAll components, connections, ticks⟩, level, cells, inputs,
      outputs, clock⟩
  | ⟨code, .clock phase, level, cells, inputs, outputs, clock⟩ =>
    ⟨code, .clock phase.timeless, level, cells, inputs, outputs, clock⟩
  | m => m

def timelessAll : List Component → List Component
  | [] => []
  | m :: cs => m.timeless :: timelessAll cs

end

mutual

/-- Every clock of a component has period zero. -/
def Component.Untimed : Component → Prop
  | ⟨_, .nested _ ⟨_, components, _, _⟩, _, _, _, _, _⟩ => UntimedAll components
  | ⟨_, .clock phase, _, _, _, _, _⟩ => phase.period = 0
  | _ => True

def UntimedAll : List Component → Prop
  | [] => True
  | m :: cs => m.Untimed ∧ UntimedAll cs

end

/-- A circuit without the times of its clocks. -/
def Circuit.timeless (c : Circuit) : Circuit := { c with components := timelessAll c.components }

/-- Every clock of a circuit, at any depth, has period zero. -/
def Circuit.Untimed (c : Circuit) : Prop := UntimedAll c.components

theorem timelessAll_eq_map (cs : List Component) : timelessAll cs = cs.map Component.timeless := by
  induction cs with
  | nil => rfl
  | cons m cs ih => rw [timelessAll, ih, List.map_cons]

theorem untimedAll_iff {cs : List Component} : UntimedAll cs ↔ ∀ m ∈ cs, m.Untimed := by
  induction cs with
  | nil => simp [UntimedAll]
  | cons m cs ih => simp [UntimedAll, ih]

/-- Only the kind of a component says whether its clocks have periods. -/
theorem Component.untimed_of_kind {m n : Component} (h : n.kind = m.kind) (hu : m.Untimed) :
    n.Untimed := by
  obtain ⟨code, kind, level, cells, inputs, outputs, clock⟩ := m
  obtain ⟨code', kind', level', cells', inputs', outputs', clock'⟩ := n
  simp only at h
  subst h
  cases kind'
  case nested pins inner => cases inner; exact hu
  all_goals exact hu

theorem Component.untimed_inner {m : Component} {pins : Pins} {inner : Circuit}
    (h : m.kind = .nested pins inner) (hu : m.Untimed) : inner.Untimed := by
  obtain ⟨code, kind, level, cells, inputs, outputs, clock⟩ := m
  simp only at h
  subst h
  cases inner
  exact hu

/-- Induction over components: a component inside a circuit inside comes before. -/
theorem Component.nestedInduction {P : Component → Prop}
    (h : ∀ m, (∀ pins inner, m.kind = .nested pins inner → ∀ n ∈ inner.components, P n) → P m) :
    ∀ m, P m := by
  have hsize : ∀ (size : Nat) (m : Component), sizeOf m = size → P m := by
    intro size
    induction size using Nat.strongRecOn with
    | _ size ih =>
      intro m hm
      refine h m fun pins inner hkind n hn => ih (sizeOf n) ?_ n rfl
      obtain ⟨code, kind, level, cells, inputs, outputs, clock⟩ := m
      obtain ⟨name, components, connections, ticks⟩ := inner
      obtain rfl : kind = .nested pins ⟨name, components, connections, ticks⟩ := hkind
      have hlt := List.sizeOf_lt_of_mem hn
      simp only [Component.mk.sizeOf_spec, Kind.nested.sizeOf_spec, Circuit.mk.sizeOf_spec] at hm
      simp only at hlt
      omega
  exact fun m => hsize _ m rfl

theorem ClockPhase.timeless_timeless (phase : ClockPhase) : phase.timeless.timeless = phase.timeless := by
  simp [ClockPhase.timeless, Function.comp_def]

theorem Component.timeless_timeless (m : Component) : m.timeless.timeless = m.timeless := by
  induction m using Component.nestedInduction with
  | _ m ih =>
    obtain ⟨code, kind, level, cells, inputs, outputs, clock⟩ := m
    cases kind
    case nested pins inner =>
      obtain ⟨name, components, connections, ticks⟩ := inner
      have hall : (components.map Component.timeless).map Component.timeless =
          components.map Component.timeless := by
        rw [List.map_map]
        exact List.map_congr_left fun n hn => ih _ _ rfl n hn
      simp only [Component.timeless, timelessAll_eq_map, hall]
    case clock phase => simp only [Component.timeless, ClockPhase.timeless_timeless]
    all_goals rfl

theorem timelessAll_timelessAll (cs : List Component) :
    timelessAll (timelessAll cs) = timelessAll cs := by
  rw [timelessAll_eq_map, timelessAll_eq_map, List.map_map]
  exact List.map_congr_left fun m _ => m.timeless_timeless

theorem Component.timeless_shape (m : Component) : m.timeless.shape = m.shape := by
  obtain ⟨code, kind, level, cells, inputs, outputs, clock⟩ := m
  cases kind
  case nested pins inner => cases inner; rfl
  all_goals rfl

theorem Component.timeless_wire {m : Component} (h : m.isWire = true) : m.timeless = m := by
  obtain ⟨code, kind, level, cells, inputs, outputs, clock⟩ := m
  cases kind <;> first | rfl | cases h

/-- A clock without period does the same at any time, except for noting the time. -/
theorem ClockPhase.poll_timeless {phase : ClockPhase} (h : phase.period = 0) (now t : Nat) :
    (phase.poll now).timeless = (phase.timeless.poll t).timeless ∧
      (phase.poll now).high = (phase.timeless.poll t).high ∧ (phase.poll now).period = 0 := by
  obtain ⟨period, lastFlip, high⟩ := phase
  obtain rfl : period = 0 := h
  cases lastFlip <;> simp [ClockPhase.poll, ClockPhase.timeless]

/-- Steps that leave the same behind, up to the times of clocks. -/
structure Alike {α : Type} (f : α → α) (s s' : Step α) : Prop where
  value : f s.value = f s'.value
  bus : s.bus = s'.bus
  failure : s.failure = s'.failure

/-- The wires of a table do the same at any time. -/
theorem updateWires_timeless (now t : Times) : ∀ (cs : List Component) (bus : Bus),
    timelessAll (updateWires now cs bus).1 = timelessAll (updateWires t (timelessAll cs) bus).1 ∧
      (updateWires now cs bus).2 = (updateWires t (timelessAll cs) bus).2 := by
  intro cs
  induction cs with
  | nil => exact fun bus => ⟨rfl, rfl⟩
  | cons m cs ih =>
    intro bus
    have hwire := Component.isWire_of_shape m.timeless_shape
    rw [timelessAll, updateWires, updateWires, hwire]
    cases hw : m.isWire with
    | false =>
      obtain ⟨hv, hb⟩ := ih bus
      simp only [Bool.false_eq_true, if_false, timelessAll, m.timeless_timeless, hv, hb, and_self]
    | true =>
      have hplain : m.updatePlain now bus = m.updatePlain t bus := by
        obtain ⟨code, kind, level, cells, inputs, outputs, clock⟩ := m
        cases kind <;> first | rfl | cases hw
      obtain ⟨hv, hb⟩ := ih (m.updatePlain t bus).bus
      simp only [if_true, Component.timeless_wire hw, hplain, timelessAll, hv, hb, and_self]

/-- So do the other components up to the first failure, if each of them does. -/
theorem updateGates_timeless {now t : Times} : ∀ {cs : List Component},
    (∀ m ∈ cs, ∀ bus, Alike Component.timeless (m.update now bus) (m.timeless.update t bus)) →
    ∀ bus, Alike timelessAll (updateGates now cs bus) (updateGates t (timelessAll cs) bus) := by
  intro cs
  induction cs with
  | nil => exact fun _ bus => ⟨rfl, rfl, rfl⟩
  | cons m cs ih =>
    intro hm bus
    have hcs := ih fun n hn => hm n (List.mem_cons_of_mem m hn)
    have hwire := Component.isWire_of_shape m.timeless_shape
    rw [timelessAll, updateGates, updateGates, hwire]
    cases hw : m.isWire with
    | true =>
      obtain ⟨hv, hb, hf⟩ := hcs bus
      exact ⟨by simp only [if_true, timelessAll, m.timeless_timeless, hv], hb, hf⟩
    | false =>
      obtain ⟨hv, hb, hf⟩ := hm m List.mem_cons_self bus
      simp only [Bool.false_eq_true, if_false]
      cases hs : m.update now bus with
      | mk value bus₁ failure =>
        cases hs' : m.timeless.update t bus with
        | mk value' bus₁' failure' =>
          rw [hs, hs'] at hv hb hf
          simp only at hv hb hf
          subst hb hf
          cases failure with
          | some failure =>
            exact ⟨by simp only [timelessAll, hv, timelessAll_timelessAll], rfl, rfl⟩
          | none =>
            obtain ⟨hv', hb', hf'⟩ := hcs bus₁
            exact ⟨by simp only [timelessAll, hv, hv'], hb', hf'⟩

theorem completeTick_timeless (now t : Times) (c : Circuit) {gates gates' : Step (List Component)}
    (h : Alike timelessAll gates gates') :
    (c.completeTick now gates).1.timeless = (c.timeless.completeTick t gates').1.timeless ∧
      (c.completeTick now gates).2 = (c.timeless.completeTick t gates').2 := by
  obtain ⟨value, bus, failure⟩ := gates
  obtain ⟨value', bus', failure'⟩ := gates'
  obtain ⟨hv, hb, hf⟩ := h
  simp only at hv hb hf
  subst hb hf
  cases failure with
  | some failure => exact ⟨by simp only [Circuit.completeTick, Circuit.timeless, hv], rfl⟩
  | none =>
    obtain ⟨hw, hb⟩ := updateWires_timeless now t value bus
    obtain ⟨hw', hb'⟩ := updateWires_timeless t t value' bus
    refine ⟨?_, rfl⟩
    simp only [Circuit.completeTick, Circuit.timeless, hw, hw', hb, hb', hv]

theorem Component.timeless_nested (code : Code) (pins : Pins) (inner : Circuit) (level : Bool)
    (cells : List Pos) (inputs outputs : List Nat) (clock : Option Nat) :
    Component.timeless ⟨code, .nested pins inner, level, cells, inputs, outputs, clock⟩ =
      ⟨code, .nested pins inner.timeless, level, cells, inputs, outputs, clock⟩ := by
  cases inner
  rfl

/-- What an update does depends on the time only through clocks that have a period. -/
theorem Component.update_timeless {m : Component} (hu : m.Untimed) (now t : Times) (bus : Bus) :
    Alike timeless (m.update now bus) (m.timeless.update t bus) := by
  induction m using Component.nestedInduction generalizing now t bus with
  | _ m ih =>
    obtain ⟨code, kind, level, cells, inputs, outputs, clock⟩ := m
    cases kind
    case nested pins inner =>
      obtain ⟨name, components, connections, ticks⟩ := inner
      have hall : ∀ n ∈ components, n.Untimed := untimedAll_iff.1 hu
      have hgates := updateGates_timeless (fun n hn bus => ih _ _ rfl n hn (hall n hn)
        (now.inside (cells.headD Pos.origin)) (t.inside (cells.headD Pos.origin)) bus)
        (pins.feed inputs clock bus connections)
      obtain ⟨hc, hf⟩ := completeTick_timeless (now.inside (cells.headD Pos.origin))
        (t.inside (cells.headD Pos.origin))
        ⟨name, components, pins.feed inputs clock bus connections, ticks⟩ hgates
      simp only [Component.timeless, Component.update]
      simp only [Circuit.timeless] at hc hf
      generalize Circuit.completeTick (now.inside _) _ _ = r at hc hf ⊢
      generalize Circuit.completeTick (t.inside _) _ _ = r' at hc hf ⊢
      obtain ⟨inner, failure⟩ := r
      obtain ⟨inner', failure'⟩ := r'
      simp only at hc hf
      subst hf
      have hbus : inner.connections = inner'.connections := by
        have h := congrArg Circuit.connections hc
        exact h
      cases failure with
      | some failure =>
        refine ⟨?_, rfl, rfl⟩
        rw [timeless_nested, timeless_nested]
        exact congrArg (fun inner => Component.mk _ (.nested pins inner) _ _ _ _ _) hc
      | none =>
        refine ⟨?_, by rw [hbus], rfl⟩
        rw [timeless_nested, timeless_nested, hbus]
        exact congrArg (fun inner => Component.mk _ (.nested pins inner) _ _ _ _ _) hc
    case clock phase =>
      obtain ⟨hp, hh, -⟩ := ClockPhase.poll_timeless hu (now.read [cells.headD Pos.origin])
        (t.read [cells.headD Pos.origin])
      simp only [Component.timeless, Component.update, updatePlain, Kind.settle, firstCell]
      exact ⟨by simp only [Component.timeless, hp, hh], by rw [hh]; rfl, rfl⟩
    all_goals exact ⟨rfl, rfl, rfl⟩

theorem updateGates_untimed {now : Times} : ∀ {cs : List Component},
    (∀ m ∈ cs, ∀ bus, (m.update now bus).value.Untimed) → UntimedAll cs →
    ∀ bus, UntimedAll (updateGates now cs bus).value := by
  intro cs
  induction cs with
  | nil => exact fun _ _ bus => trivial
  | cons m cs ih =>
    intro hm hu bus
    have hcs := ih (fun n hn => hm n (List.mem_cons_of_mem m hn)) hu.2
    unfold updateGates
    split
    case isTrue => exact ⟨hu.1, hcs bus⟩
    case isFalse =>
      have hv := hm m List.mem_cons_self bus
      split
      case h_1 value bus₁ failure hs =>
        rw [hs] at hv
        exact ⟨hv, hu.2⟩
      case h_2 value bus₁ hs =>
        rw [hs] at hv
        exact ⟨hv, hcs bus₁⟩

theorem updateWires_untimed (now : Times) : ∀ {cs : List Component}, UntimedAll cs →
    ∀ bus, UntimedAll (updateWires now cs bus).1 := by
  intro cs
  induction cs with
  | nil => exact fun _ bus => trivial
  | cons m cs ih =>
    intro hu bus
    unfold updateWires
    split
    case isTrue hw =>
      refine ⟨?_, ih hu.2 _⟩
      obtain ⟨code, kind, level, cells, inputs, outputs, clock⟩ := m
      cases kind <;> trivial
    case isFalse => exact ⟨hu.1, ih hu.2 bus⟩

/-- Periods never change. -/
theorem Component.update_untimed {m : Component} (hu : m.Untimed) (now : Times) (bus : Bus) :
    (m.update now bus).value.Untimed := by
  induction m using Component.nestedInduction generalizing now bus with
  | _ m ih =>
    obtain ⟨code, kind, level, cells, inputs, outputs, clock⟩ := m
    cases kind
    case nested pins inner =>
      obtain ⟨name, components, connections, ticks⟩ := inner
      have hall : ∀ n ∈ components, n.Untimed := untimedAll_iff.1 hu
      have hgates := updateGates_untimed (fun n hn bus => ih _ _ rfl n hn (hall n hn)
        (now.inside (cells.headD Pos.origin)) bus) hu
        (pins.feed inputs clock bus connections)
      simp only [Component.update, Circuit.completeTick]
      cases (updateGates _ components (pins.feed inputs clock bus connections)).failure with
      | some failure => exact hgates
      | none => exact updateWires_untimed _ hgates _
    case clock phase =>
      have hp := (ClockPhase.poll_timeless hu (now.read [cells.headD Pos.origin]) 0).2.2
      exact hp
    case scripted unit =>
      show (updateScripted _ unit bus).value.Untimed
      unfold updateScripted
      split
      · rw [runScript]
        split <;> trivial
      · trivial
    all_goals trivial

end GridCircuit
