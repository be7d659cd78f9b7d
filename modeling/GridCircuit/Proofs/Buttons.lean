import GridCircuit.Proofs.Runs

/-!
# The levels of buttons

Nobody but toggles writes the level of a button: a tick leaves it alone, whether it fails or not, and a
toggle turns over the level of one button. So the level of a button is high exactly if it was toggled an
odd number of times, whatever happened in between.
-/

namespace GridCircuit

namespace Component

/-- The level of a button. -/
def pressed? (m : Component) : Option Bool := if m.isButton then some m.level else none

theorem pressed?_of_isButton {m : Component} (h : m.isButton = true) : m.pressed? = some m.level :=
  if_pos h

theorem update_pressed? (now : Times) (m : Component) (bus : Bus) :
    (m.update now bus).value.pressed? = m.pressed? := by
  have hfigure : ((m.update now bus).value.isButton, (m.update now bus).value.cells) =
      (m.isButton, m.cells) := m.update_figure now bus
  rw [pressed?, pressed?, (Prod.mk.inj hfigure).1]
  split
  case isFalse => rfl
  case isTrue hbutton =>
    obtain ⟨code, kind, level, cells, inputs, outputs, clock⟩ := m
    cases kind with
    | button => rfl
    | _ => cases hbutton

end Component

theorem updateGates_pressed? (now : Times) (cs : List Component) (bus : Bus) :
    (updateGates now cs bus).value.map Component.pressed? = cs.map Component.pressed? := by
  induction cs generalizing bus with
  | nil => rfl
  | cons m cs ih =>
    rw [updateGates]
    split
    · exact congrArg (m.pressed? :: ·) (ih bus)
    · have hm := m.update_pressed? now bus
      split
      case h_1 m' bus' failure h =>
        rw [h] at hm
        exact congrArg (· :: cs.map Component.pressed?) hm
      case h_2 m' bus' h =>
        rw [h] at hm
        exact congrArg₂ List.cons hm (ih bus')

theorem updateWires_pressed? (now : Times) (cs : List Component) (bus : Bus) :
    (updateWires now cs bus).1.map Component.pressed? = cs.map Component.pressed? := by
  induction cs generalizing bus with
  | nil => rfl
  | cons m cs ih =>
    rw [updateWires]
    split
    case isTrue hwire =>
      obtain ⟨code, kind, level, cells, inputs, outputs, clock⟩ := m
      cases kind with
      | wire => exact congrArg (none :: ·) (ih _)
      | _ => cases hwire
    case isFalse => exact congrArg (m.pressed? :: ·) (ih bus)

/-- The button that an action toggles. -/
def Action.toggled? : Action → Option Nat
  | .tick _ => none
  | .toggle n => some n

/-- The toggles of a run, first one first. -/
def Action.toggles (actions : List Action) : List Nat := actions.filterMap toggled?

theorem Action.toggles_append (actions actions' : List Action) :
    toggles (actions ++ actions') = toggles actions ++ toggles actions' :=
  List.filterMap_append

theorem Action.toggles_map (events : List Nat) : toggles (events.map .toggle) = events := by
  rw [toggles, List.filterMap_map]
  exact List.filterMap_some

namespace Circuit

variable {c c' : Circuit} {i id n : Nat}

theorem tick_pressed? (now : Times) (c : Circuit) :
    (c.tick now).1.components.map Component.pressed? = c.components.map Component.pressed? := by
  have hgates := updateGates_pressed? now c.components c.connections
  rw [tick, completeTick]
  split
  · exact hgates
  · exact (updateWires_pressed? now _ _).trans hgates

/-- The level of the `i`-th button. -/
def buttonLevel? (c : Circuit) (i : Nat) : Option Bool :=
  (c.buttons[i]?).bind fun id => (c.components[id]?).bind Component.pressed?

theorem buttonLevel?_eq (h : c.buttons[i]? = some id) :
    c.buttonLevel? i = (c.components[id]?).map (·.level) := by
  have hbutton : (c.components[id]?).any Component.isButton = true :=
    (List.mem_filter.1 (List.mem_of_getElem? h)).2
  obtain ⟨m, hm, hbutton⟩ := (Option.any_eq_true _ _).1 hbutton
  rw [buttonLevel?, h, Option.bind_some, hm, Option.bind_some, Component.pressed?_of_isButton hbutton,
    Option.map_some]

theorem buttons_nodup (c : Circuit) : c.buttons.Nodup := List.nodup_range.filter _

theorem buttonLevel?_tick (now : Times) (c : Circuit) (i : Nat) :
    (c.tick now).1.buttonLevel? i = c.buttonLevel? i := by
  rw [buttonLevel?, buttonLevel?, buttons_of_layout (c.tick_layout now)]
  congr 1
  funext id
  have hid := congrArg (·[id]?) (c.tick_pressed? now)
  simp only [List.getElem?_map] at hid
  cases h : (c.tick now).1.components[id]? <;> cases h' : c.components[id]? <;> simp_all

/-- A toggle turns over one button, and is of no effect if there is no such button. -/
theorem buttonLevel?_toggle (n : Nat) (c : Circuit) (i : Nat) :
    ((c.toggle? n).getD c).buttonLevel? i = (c.buttonLevel? i).map (Bool.xor (i = n)) := by
  rw [toggle?_eq]
  cases hn : c.buttons[n]? with
  | none =>
    by_cases hin : i = n
    · subst hin
      rw [Option.map_none, Option.getD_none, buttonLevel?, hn]
      rfl
    · cases h : c.buttonLevel? i <;> simp [hin, h]
  | some id =>
    rw [Option.map_some, Option.getD_some]
    have hbuttons := buttons_of_layout (c.flip_layout id)
    cases hi : c.buttons[i]? with
    | none =>
      rw [buttonLevel?, buttonLevel?, hbuttons, hi]
      rfl
    | some j =>
      have hiff : id = j ↔ i = n := by
        constructor
        · rintro rfl
          exact (List.getElem?_inj (List.getElem?_eq_some_iff.1 hi).1 c.buttons_nodup).1
            (hi.trans hn.symm)
        · rintro rfl
          exact Option.some.inj (hn.symm.trans hi)
      rw [buttonLevel?_eq hi, buttonLevel?_eq (hbuttons ▸ hi), flip_getElem?, Option.map_map,
        Option.map_map]
      congr 1
      funext m
      by_cases hin : i = n
      · simp [hiff.2 hin, hin]
      · simp [mt hiff.1 hin, hin]

/-- What a run makes of the level of a button: only the number of its toggles counts. -/
theorem buttonLevel?_run (actions : List Action) (hrun : c.run actions = some c') (i : Nat) :
    c'.buttonLevel? i =
      (c.buttonLevel? i).map (Bool.xor ((Action.toggles actions).count i % 2 = 1)) := by
  induction actions generalizing c with
  | nil =>
    obtain rfl := Option.some.inj hrun
    cases c.buttonLevel? i <;> simp [Action.toggles]
  | cons action actions ih =>
    cases action with
    | tick now =>
      rw [run] at hrun
      split at hrun
      case h_2 => cases hrun
      case h_1 d hd =>
        have htick := c.buttonLevel?_tick now i
        rw [hd] at htick
        rw [ih hrun, htick]
        rfl
    | toggle m =>
      have htoggles : Action.toggles (.toggle m :: actions) = m :: Action.toggles actions := rfl
      rw [ih hrun, buttonLevel?_toggle, Option.map_map, htoggles, List.count_cons]
      congr 1
      funext level
      have hodd : ∀ k : Nat, decide ((k + 1) % 2 = 1) = !decide (k % 2 = 1) := by
        intro k
        by_cases h : k % 2 = 1 <;> simp [h] <;> omega
      by_cases him : i = m
      · subst him
        simp [hodd]
      · simp [him, Ne.symm him]

theorem buttons_toggleAll (events : List Nat) (c : Circuit) :
    (c.toggleAll events).buttons = c.buttons :=
  toggleAll_induction (fun d => d.buttons = c.buttons)
    (fun d id hd => (buttons_of_layout (d.flip_layout id)).trans hd) events c rfl

/-- A toggle that no button takes changes nothing. -/
theorem toggle_of_le (h : c.buttons.length ≤ n) : (c.toggle? n).getD c = c := by
  rw [toggle?_eq, List.getElem?_eq_none h]
  rfl

/-- Toggles change no connection. -/
theorem connections_toggleAll (events : List Nat) (c : Circuit) :
    (c.toggleAll events).connections = c.connections :=
  toggleAll_induction (fun d => d.connections = c.connections) (fun _ _ hd => hd) events c rfl

theorem toggleAll_filter (events : List Nat) (c : Circuit) :
    c.toggleAll (events.filter (· < c.buttons.length)) = c.toggleAll events := by
  induction events generalizing c with
  | nil => rfl
  | cons n events ih =>
    have hnext : c.toggleAll (n :: events) = ((c.toggle? n).getD c).toggleAll events := rfl
    rw [hnext, List.filter_cons]
    split
    case isTrue =>
      have hbuttons : ((c.toggle? n).getD c).buttons = c.buttons := buttons_toggleAll [n] c
      have hcons : c.toggleAll (n :: events.filter (· < c.buttons.length)) =
          ((c.toggle? n).getD c).toggleAll (events.filter (· < c.buttons.length)) := rfl
      rw [hcons, ← hbuttons]
      exact ih _
    case isFalse h =>
      rw [toggle_of_le (by simpa using h)]
      exact ih c

end Circuit

namespace Grid

theorem level_of_mem_build {grid : Grid} {name : String} {make : Code → Making} {b : Build}
    (h : grid.build name make = .ok b) : ∀ m ∈ b.circuit.components, m.level = false := by
  rw [build] at h
  cases hlabels : Labels.ofGrid grid with
  | error e => rw [hlabels] at h; cases h
  | ok labels =>
    rw [hlabels] at h
    obtain rfl := Except.ok.inj h
    intro m hm
    obtain ⟨⟨p, id⟩, -, rfl⟩ := List.mem_map.1 hm
    rfl

end Grid

/-- All components of a fresh circuit are low. -/
theorem Field.level_of_mem_build {rs : Registries} {clockPeriod : Nat} {f : Field} {b : Build}
    (h : f.build rs clockPeriod = .ok b) : ∀ m ∈ b.circuit.components, m.level = false := by
  rw [build, maxNesting, buildWithin] at h
  exact Grid.level_of_mem_build h

/-- The level of a button in a circuit that was built and run. -/
theorem Field.level_of_run {rs : Registries} {clockPeriod : Nat} {f : Field} {b : Build}
    (hb : f.build rs clockPeriod = .ok b) {actions : List Action} {c : Circuit}
    (hrun : b.circuit.run actions = some c) {i id : Nat} (hid : c.buttons[i]? = some id) :
    (c.components[id]?).map (·.level) = some (decide ((Action.toggles actions).count i % 2 = 1)) := by
  have hid' : b.circuit.buttons[i]? = some id := by
    rw [← Circuit.buttons_of_layout (Circuit.run_layout hrun)]
    exact hid
  have hlevel := Circuit.buttonLevel?_run actions hrun i
  rw [Circuit.buttonLevel?_eq hid, Circuit.buttonLevel?_eq hid'] at hlevel
  have hlt : id < b.circuit.components.length :=
    List.mem_range.1 (List.mem_filter.1 (List.mem_of_getElem? hid')).1
  rw [List.getElem?_eq_getElem hlt, Option.map_some, Option.map_some,
    level_of_mem_build hb _ (List.getElem_mem hlt), Bool.xor_false] at hlevel
  exact hlevel

end GridCircuit
