import GridCircuit.Proofs.Following
import GridCircuit.Proofs.Run

/-!
# What no run changes

The cells of a circuit, the places of its connections and its buttons stay as they are for good. And
where no clock has a period, the times at which ticks happen do not show in the levels.
-/

namespace GridCircuit

namespace Component

/-- What shows of a component besides its level: whether it is a button, and its cells. -/
def figure (m : Component) : Bool × List Pos := (m.isButton, m.cells)

theorem runScript_figure (m : Component) (unit : ScriptUnit) (bus : Bus) (hk : m.isButton = false) :
    (m.runScript unit bus).value.figure = m.figure := by
  rw [runScript, figure, figure, hk]
  split <;> rfl

theorem update_figure (now : Times) (m : Component) (bus : Bus) :
    (m.update now bus).value.figure = m.figure := by
  obtain ⟨code, kind, level, cells, inputs, outputs, clock⟩ := m
  cases kind
  case scripted unit =>
    show (updateScripted _ unit bus).value.figure = _
    unfold updateScripted
    split
    · exact runScript_figure _ _ _ rfl
    · rfl
  case nested pins inner =>
    obtain ⟨name, components, connections, ticks⟩ := inner
    simp only [Component.update]
    split <;> rfl
  all_goals rfl

end Component

/-- The connection without what it carries. -/
def Connection.blank (k : Connection) : Connection := { k with active := false, changed := false }

theorem Connection.blank_drive (k : Connection) (level : Bool) : (k.drive level).blank = k.blank := by
  rw [drive]
  split <;> rfl

namespace Bus

/-- The connections without what they carry. -/
def blank (bus : Bus) : Bus := bus.map Connection.blank

theorem getElem?_blank (bus : Bus) (id : Nat) : bus.blank[id]? = (bus[id]?).map Connection.blank :=
  Array.getElem?_map

theorem blank_modify (bus : Bus) (id : Nat) {f : Connection → Connection}
    (hf : ∀ k, (f k).blank = k.blank) : Bus.blank (bus.modify id f) = bus.blank := by
  apply Array.ext_getElem?
  intro i
  rw [getElem?_blank, getElem?_blank, Array.getElem?_modify]
  split
  · cases bus[i]? <;> simp [hf]
  · rfl

theorem blank_driveAll (writes : List (Nat × Bool)) :
    ∀ bus : Bus, (Bus.driveAll bus writes).blank = bus.blank := by
  induction writes with
  | nil => exact fun _ => rfl
  | cons w writes ih =>
    intro bus
    exact (ih _).trans (blank_modify bus w.1 fun k => k.blank_drive w.2)

theorem blank_acknowledge (ids : List Nat) :
    ∀ bus : Bus, (Bus.acknowledge bus ids).blank = bus.blank := by
  induction ids with
  | nil => exact fun _ => rfl
  | cons id ids ih =>
    intro bus
    exact (ih _).trans (blank_modify bus id fun _ => rfl)

theorem map_pos_of_blank {bus bus' : Bus} (h : bus.blank = bus'.blank) :
    bus.map (·.pos) = bus'.map (·.pos) := by
  have hpos := congrArg (Array.map (·.pos)) h
  rwa [blank, blank, Array.map_map, Array.map_map] at hpos

end Bus

namespace Component

theorem runScript_blank (m : Component) (unit : ScriptUnit) (bus : Bus) :
    (m.runScript unit bus).bus.blank = bus.blank := by
  unfold runScript
  split
  · rfl
  · exact Bus.blank_driveAll _ bus

theorem update_blank (now : Times) (m : Component) (bus : Bus) :
    (m.update now bus).bus.blank = bus.blank := by
  obtain ⟨code, kind, level, cells, inputs, outputs, clock⟩ := m
  cases kind
  case scripted unit =>
    show (updateScripted _ unit bus).bus.blank = _
    simp only [updateScripted, fires]
    cases unit.script.trigger with
    | clocked =>
      dsimp only
      cases (unit.edge.rising _).1 with
      | false => rfl
      | true => exact runScript_blank _ _ bus
    | instant =>
      have hack := Bus.blank_acknowledge inputs bus
      dsimp only
      cases inputs.any (Bus.hasChanged bus) with
      | false => exact hack
      | true => exact (runScript_blank _ _ _).trans hack
  case nested pins inner =>
    obtain ⟨name, components, connections, ticks⟩ := inner
    simp only [Component.update]
    split
    · rfl
    · exact Bus.blank_driveAll _ bus
  all_goals exact Bus.blank_driveAll _ bus

theorem update_map_pos (now : Times) (m : Component) (bus : Bus) :
    (m.update now bus).bus.map (·.pos) = bus.map (·.pos) :=
  Bus.map_pos_of_blank (m.update_blank now bus)

end Component

namespace Circuit

variable {c c' d : Circuit} {p : Pos}

/-- The parts of a circuit with their places. -/
def layout (c : Circuit) : List (Bool × List Pos) × Array Pos :=
  (c.components.map Component.figure, c.connections.map (·.pos))

theorem updateAt_layout (now : Times) (c : Circuit) (i : Nat) :
    (c.updateAt now i).1.layout = c.layout := by
  unfold updateAt
  split
  case h_1 => rfl
  case h_2 m hm =>
    refine Prod.ext ?_ (m.update_map_pos now c.connections)
    apply List.ext_getElem?
    intro j
    simp only [layout, List.getElem?_map, List.getElem?_set]
    by_cases hj : i = j
    · subst hj
      obtain ⟨hlt, rfl⟩ := List.getElem?_eq_some_iff.1 hm
      simp [hlt, Component.update_figure]
    · simp [hj]

theorem updateInOrder_layout (now : Times) (is : List Nat) :
    ∀ c : Circuit, (updateInOrder now is c).1.layout = c.layout := by
  induction is with
  | nil => exact fun _ => rfl
  | cons i is ih =>
    intro c
    have hi := c.updateAt_layout now i
    unfold updateInOrder
    split
    case h_1 c' h =>
      rw [h] at hi
      exact (ih c').trans hi
    case h_2 c' failure h =>
      rw [h] at hi
      exact hi

theorem tickInOrder_layout (now : Times) (gates wires : List Nat) (c : Circuit) :
    (c.tickInOrder now gates wires).1.layout = c.layout := by
  have hg := updateInOrder_layout now gates c
  unfold tickInOrder
  split
  case h_1 c₁ failure h₁ =>
    rw [h₁] at hg
    exact hg
  case h_2 c₁ h₁ =>
    rw [h₁] at hg
    have hw := updateInOrder_layout now wires c₁
    split
    case h_1 c₂ failure h₂ =>
      rw [h₂] at hw
      exact hw.trans hg
    case h_2 c₂ h₂ =>
      rw [h₂] at hw
      exact hw.trans hg

theorem tick_layout (t : Times) (c : Circuit) : (c.tick t).1.layout = c.layout := by
  rw [tick_eq, tickInOrder_layout]

theorem flip_layout (c : Circuit) (id : Nat) : (c.flip id).layout = c.layout := by
  refine Prod.ext (List.ext_getElem? fun j => ?_) rfl
  simp only [layout, List.getElem?_map, flip_getElem?, Option.map_map]
  congr 1
  funext m
  rw [Function.comp_apply]
  split <;> rfl

/-- A run keeps whatever ticks and toggles keep. -/
theorem run_induction {P : Circuit → Prop} (htick : ∀ c t, P c → P (c.tick t).1)
    (hflip : ∀ c id, P c → P (c.flip id)) : ∀ (actions : List Action) (c c' : Circuit), P c →
      c.run actions = some c' → P c' := by
  intro actions
  induction actions with
  | nil =>
    intro c c' hP hrun
    exact Option.some.inj hrun ▸ hP
  | cons action actions ih =>
    intro c c' hP hrun
    cases action with
    | tick t =>
      have hnext := htick c t hP
      rw [run] at hrun
      split at hrun
      case h_1 d hd =>
        rw [hd] at hnext
        exact ih d c' hnext hrun
      case h_2 => cases hrun
    | toggle n =>
      refine ih _ c' ?_ hrun
      obtain he | ⟨id, he⟩ := c.toggle_cases n
      · rwa [he]
      · rw [he]
        exact hflip c id hP

theorem run_layout {actions : List Action} (h : c.run actions = some c') : c'.layout = c.layout :=
  run_induction (P := fun d => d.layout = c.layout) (fun d t hd => (tick_layout t d).trans hd)
    (fun d id hd => (d.flip_layout id).trans hd) actions c c' rfl h

theorem covered_of_layout (h : c.layout = c'.layout) : c.covered = c'.covered := by
  have hcells : ∀ c : Circuit, c.covered =
      c.layout.1.flatMap (·.2) ++ c.layout.2.toList := by
    intro c
    rw [covered, layout, List.flatMap_map, Array.toList_map]
    rfl
  rw [hcells, hcells, h]

theorem buttons_of_layout (h : c.layout = c'.layout) : c.buttons = c'.buttons := by
  have hbuttons : ∀ c : Circuit, c.buttons =
      (List.range c.layout.1.length).filter fun id => c.layout.1[id]?.any (·.1) := by
    intro c
    simp only [buttons, layout, List.length_map, List.getElem?_map, Option.any_map]
    rfl
  rw [hbuttons, hbuttons, h]

theorem figure_of_layout (h : c.layout = c'.layout) (i : Nat) :
    (c.components[i]?).map Component.figure = (c'.components[i]?).map Component.figure := by
  have hi := congrArg (fun l : List (Bool × List Pos) × Array Pos => l.1[i]?) h
  simpa only [layout, List.getElem?_map] using hi

end Circuit

section Times

/-- An action without the times that are read in it. -/
def Action.timeless : Action → Action
  | .tick _ => .tick (.all 0)
  | .toggle n => .toggle n

/-- What shows of a component. -/
theorem Component.timeless_shows (m : Component) : m.timeless.cells = m.cells ∧
    m.timeless.level = m.level ∧ m.timeless.isButton = m.isButton ∧
    m.timeless.displayValue? = m.displayValue? := by
  obtain ⟨code, kind, level, cells, inputs, outputs, clock⟩ := m
  cases kind
  case nested pins inner =>
    cases inner
    exact ⟨rfl, rfl, rfl, rfl⟩
  all_goals exact ⟨rfl, rfl, rfl, rfl⟩

theorem Component.timeless_level (m : Component) (level : Bool) :
    Component.timeless { m with level } = { m.timeless with level } := by
  obtain ⟨code, kind, _, cells, inputs, outputs, clock⟩ := m
  cases kind
  case nested pins inner =>
    cases inner
    rfl
  all_goals rfl

namespace Circuit

variable {c c' d : Circuit}

theorem timeless_getElem?_eq (c : Circuit) (i : Nat) :
    c.timeless.components[i]? = (c.components[i]?).map Component.timeless := by
  rw [timeless, timelessAll_eq_map, List.getElem?_map]

theorem layout_timeless (c : Circuit) : c.timeless.layout = c.layout := by
  refine Prod.ext (List.ext_getElem? fun i => ?_) rfl
  simp only [layout, List.getElem?_map, timeless_getElem?_eq, Option.map_map]
  congr 1
  funext m
  obtain ⟨hcells, -, hbutton, -⟩ := m.timeless_shows
  rw [Function.comp_apply, Component.figure, Component.figure, hcells, hbutton]

theorem levelAt?_timeless (c : Circuit) : c.timeless.levelAt? = c.levelAt? := by
  have hgroups : c.timeless.components.map (fun m => (m.cells, m.level)) =
      c.components.map fun m => (m.cells, m.level) := by
    rw [timeless, timelessAll_eq_map, List.map_map]
    apply List.map_congr_left
    intro m _
    obtain ⟨hcells, hlevel, -⟩ := m.timeless_shows
    rw [Function.comp_apply, hcells, hlevel]
  funext p
  simp only [levelAt?, states, hgroups]
  rfl

theorem displayValues_timeless (c : Circuit) : c.timeless.displayValues = c.displayValues := by
  rw [displayValues, displayValues, timeless, timelessAll_eq_map, List.filterMap_map]
  apply List.filterMap_congr
  intro m _
  obtain ⟨hcells, -, -, hvalue⟩ := m.timeless_shows
  rw [Function.comp_apply, hvalue, Component.firstCell, Component.firstCell, hcells]

theorem flip_timeless (c : Circuit) (id : Nat) : (c.flip id).timeless = c.timeless.flip id := by
  refine ext_getElem? rfl rfl (fun i => ?_) fun _ => rfl
  rw [flip_getElem?, timeless_getElem?_eq, timeless_getElem?_eq, flip_getElem?, Option.map_map,
    Option.map_map]
  congr 1
  funext m
  simp only [Function.comp_apply]
  split
  · rw [Component.timeless_level, m.timeless_shows.2.1]
  · rfl

theorem flip_untimed (hu : c.Untimed) (id : Nat) : (c.flip id).Untimed := by
  apply untimedAll_iff.2
  intro m hm
  obtain ⟨j, hj⟩ := List.getElem?_of_mem hm
  rw [flip_getElem?] at hj
  obtain ⟨n, hn, rfl⟩ := Option.map_eq_some_iff.1 hj
  have hun := untimedAll_iff.1 hu n (List.mem_of_getElem? hn)
  split
  · exact untimed_level hun _
  · exact hun

theorem tick_timeless (hu : c.Untimed) (t : Times) : (c.tick t).1.timeless = (c.timeless.tick 0).1.timeless ∧
    (c.tick t).2 = (c.timeless.tick 0).2 :=
  completeTick_timeless t 0 c (updateGates_timeless
    (fun m hm bus => Component.update_timeless (untimedAll_iff.1 hu m hm) t 0 bus) c.connections)

theorem toggle_timeless (c : Circuit) (n : Nat) :
    ((c.toggle? n).getD c).timeless = (c.timeless.toggle? n).getD c.timeless := by
  rw [toggle?_eq, toggle?_eq, buttons_of_layout c.layout_timeless]
  cases c.buttons[n]? with
  | none => rfl
  | some id => exact c.flip_timeless id

theorem toggle_untimed (hu : c.Untimed) (n : Nat) : ((c.toggle? n).getD c).Untimed := by
  rw [toggle?_eq]
  cases c.buttons[n]? with
  | none => exact hu
  | some id => exact flip_untimed hu id

/-- Circuits whose clocks have no period do the same at other times. -/
theorem run_timeless : ∀ (actions actions' : List Action) (c c' : Circuit),
    actions.map Action.timeless = actions'.map Action.timeless → c.Untimed → c'.Untimed →
    c.timeless = c'.timeless → (c.run actions).map timeless = (c'.run actions').map timeless := by
  intro actions
  induction actions with
  | nil =>
    intro actions' c c' ha hu hu' hc
    obtain rfl := List.map_eq_nil_iff.1 ha.symm
    exact congrArg some hc
  | cons action actions ih =>
    intro actions' c c' ha hu hu' hc
    obtain ⟨action', rest, rfl, hhead, hrest⟩ := List.map_eq_cons_iff.1 ha.symm
    cases action with
    | tick t =>
      cases action' with
      | toggle n => cases hhead
      | tick t' =>
        obtain ⟨hcircuit, hfailure⟩ := tick_timeless hu t
        obtain ⟨hcircuit', hfailure'⟩ := tick_timeless hu' t'
        rw [hc] at hcircuit hfailure
        have hnext := ih rest (c.tick t).1 (c'.tick t').1 hrest.symm (tick_untimed t hu)
          (tick_untimed t' hu') (hcircuit.trans hcircuit'.symm)
        have hfail := hfailure.trans hfailure'.symm
        rw [run, run]
        cases hd : c.tick t with
        | mk d failure =>
          cases hd' : c'.tick t' with
          | mk d' failure' =>
            rw [hd, hd'] at hnext hfail
            obtain rfl : failure = failure' := hfail
            cases failure with
            | none => exact hnext
            | some failure => rfl
    | toggle n =>
      cases action' with
      | tick t => cases hhead
      | toggle n' =>
        obtain rfl : n' = n := by cases hhead; rfl
        refine ih rest _ _ hrest.symm (toggle_untimed hu _) (toggle_untimed hu' _) ?_
        rw [toggle_timeless, toggle_timeless, hc]

/-- Whether a run fails does not depend on the times of its ticks. -/
theorem run_fails (hu : c.Untimed) {actions actions' : List Action}
    (ha : actions.map Action.timeless = actions'.map Action.timeless) (h : c.run actions = none) :
    c.run actions' = none := by
  have hrun := run_timeless actions actions' c c ha hu hu rfl
  rwa [h, Option.map_none, eq_comm, Option.map_eq_none_iff] at hrun

/-- What a run shows does not depend on them either. -/
theorem run_shows (hu : c.Untimed) {actions actions' : List Action}
    (ha : actions.map Action.timeless = actions'.map Action.timeless) (h : c.run actions = some d) :
    ∃ d', c.run actions' = some d' ∧ d'.levelAt? = d.levelAt? ∧ d'.displayValues = d.displayValues := by
  have hrun := run_timeless actions actions' c c ha hu hu rfl
  rw [h, Option.map_some, eq_comm, Option.map_eq_some_iff] at hrun
  obtain ⟨d', hd', he⟩ := hrun
  refine ⟨d', hd', ?_, ?_⟩
  · rw [← levelAt?_timeless, he, levelAt?_timeless]
  · rw [← displayValues_timeless, he, displayValues_timeless]

end Circuit

end Times

end GridCircuit
