import GridCircuit.Proofs.Embedded
import GridCircuit.Proofs.Runs

/-!
# Two drawings in one

Two drawings that lie in a third with nothing in common, and fill it, do there what they do alone:
through every run of ticks and presses of buttons the levels of each are those of its own circuit, and
the whole completes a tick exactly if both parts do. A button is pressed by a cell of it, since its
number differs from circuit to circuit.
-/

namespace GridCircuit

namespace Circuit

variable {b c d : Circuit} {p : Pos} {i j : Nat} {m m' : Component}

/-- The number of the button on a cell, as toggles count. -/
def buttonAt? (c : Circuit) (p : Pos) : Option Nat :=
  c.buttons.findIdx? fun id => (c.components[id]?).any fun m => p ∈ m.cells

/-- The toggle of the button on a cell, if there is one. -/
def press? (c : Circuit) (p : Pos) : Option Action := (c.buttonAt? p).map .toggle

theorem mem_buttons : i ∈ c.buttons ↔ ∃ m, c.components[i]? = some m ∧ m.isButton = true := by
  rw [buttons, List.mem_filter, List.mem_range, Option.any_eq_true]
  constructor
  · exact fun h => h.2
  · intro h
    obtain ⟨m, hm, hb⟩ := h
    exact ⟨(List.getElem?_eq_some_iff.1 hm).1, m, hm, hb⟩

/-- No two components cover one cell. -/
theorem eq_of_covered (hn : c.covered.Nodup) (hm : c.components[i]? = some m)
    (hm' : c.components[j]? = some m') (hp : p ∈ m.cells) (hp' : p ∈ m'.cells) : i = j := by
  have hpair := (List.nodup_flatMap.1 (List.nodup_append.1 hn).1).2
  obtain ⟨hi, rfl⟩ := List.getElem?_eq_some_iff.1 hm
  obtain ⟨hj, rfl⟩ := List.getElem?_eq_some_iff.1 hm'
  obtain hlt | heq | hlt := Nat.lt_trichotomy i j
  · exact absurd hp' (List.pairwise_iff_getElem.1 hpair i j hi hj hlt hp)
  · exact heq
  · exact absurd hp (List.pairwise_iff_getElem.1 hpair j i hj hi hlt hp')

theorem exists_of_layout (h : c.layout = d.layout) (hm : c.components[i]? = some m) :
    ∃ n, d.components[i]? = some n ∧ n.cells = m.cells ∧ n.isButton = m.isButton := by
  have hi := figure_of_layout h i
  rw [hm, Option.map_some, eq_comm, Option.map_eq_some_iff] at hi
  obtain ⟨n, hn, hf⟩ := hi
  obtain ⟨hb, hc⟩ := Prod.mk.inj hf
  exact ⟨n, hn, hc, hb⟩

/-- A press turns the button on the cell over, or there is none. -/
theorem press?_cases (hd : d.layout = b.layout) (p : Pos) :
    (b.press? p = none ∧ ∀ (i : Nat) (m : Component), d.components[i]? = some m → p ∈ m.cells →
        m.isButton = false) ∨
      ∃ (n i : Nat) (m : Component), b.press? p = some (.toggle n) ∧ d.toggle? n = some (d.flip i) ∧
        d.components[i]? = some m ∧ p ∈ m.cells ∧ m.isButton = true := by
  cases hat : b.buttonAt? p with
  | none =>
    refine .inl ⟨by rw [press?, hat, Option.map_none], fun i m hm hp => ?_⟩
    by_contra hb
    obtain ⟨n, hn', hcells, hbutton⟩ := exists_of_layout hd hm
    have hmem : i ∈ b.buttons := mem_buttons.2 ⟨n, hn', hbutton.trans (by simpa using hb)⟩
    have hnone := List.findIdx?_eq_none_iff.1 hat i hmem
    simp [hn', hcells, hp] at hnone
  | some n =>
    obtain ⟨hany, -⟩ := findIdx?_eq_some_iff_any.1 hat
    obtain ⟨i, hi, hcover⟩ := (Option.any_eq_true _ _).1 hany
    obtain ⟨m, hm, hp⟩ := (Option.any_eq_true _ _).1 hcover
    obtain ⟨m', hm', hbutton⟩ := mem_buttons.1 (List.mem_of_getElem? hi)
    obtain rfl := Option.some.inj (hm.symm.trans hm')
    obtain ⟨n', hn', hcells, hbutton'⟩ := exists_of_layout hd.symm hm
    refine .inr ⟨n, i, n', by rw [press?, hat, Option.map_some], ?_, hn', hcells ▸ of_decide_eq_true hp,
      hbutton'.trans hbutton⟩
    rw [toggle?_eq, buttons_of_layout hd, hi, Option.map_some]

end Circuit

namespace Grid

variable {τ : Pos → Pos} {ρ : Code → Code} {s g : Grid} {make make' : Code → Making}
  {name name' : String} {p : Pos} {c c' d d' : Circuit} {t i j : Nat}

/-- Two running circuits, one from a drawing that lies in the drawing of the other. -/
structure InStep (n : Numbering τ s make g make') (name name' : String) (c c' : Circuit) : Prop where
  follows : Circuit.Follows n.placement c c'
  shape : c.shape = (s.circuitOf name make).shape
  shape' : c'.shape = (g.circuitOf name' make').shape
  layout : c.layout = (s.circuitOf name make).layout
  layout' : c'.layout = (g.circuitOf name' make').layout

theorem covered_nodup_of_layout (h : c.layout = (s.circuitOf name make).layout) : c.covered.Nodup := by
  rw [Circuit.covered_of_layout h]
  exact covered_nodup

/-- The class that a component of a running circuit stands for. -/
theorem exists_head (h : c.layout = (s.circuitOf name make).layout) {m : Component}
    (hm : c.components[i]? = some m) :
    ∃ head, (s.builtHeads make)[i]? = some head ∧ m.cells = s.classOf head := by
  obtain ⟨m', hm', hcells, -⟩ := Circuit.exists_of_layout h hm
  obtain ⟨head, hhead, rfl⟩ := circuitOf_component_iff.1 hm'
  exact ⟨head, hhead, hcells.symm⟩

/-- The component of a class, in a running circuit. -/
theorem exists_component_of_layout (h : c.layout = (s.circuitOf name make).layout) {head : Pos}
    (hhead : (s.builtHeads make)[i]? = some head) :
    ∃ m, c.components[i]? = some m ∧ m.cells = s.classOf head := by
  obtain ⟨m, hm, hcells, -⟩ :=
    Circuit.exists_of_layout h.symm (circuitOf_component_iff.2 ⟨head, hhead, rfl⟩)
  exact ⟨m, hm, hcells⟩

theorem exists_connection_of_layout (h : c.layout = (s.circuitOf name make).layout) {id : Nat}
    (hid : s.junctions[id]? = some p) : ∃ k, c.connections[id]? = some k ∧ k.pos = p := by
  have hpos := congrArg (fun l : List (Bool × List Pos) × Array Pos => l.2[id]?) h
  simp only [Circuit.layout, Array.getElem?_map] at hpos
  rw [circuitOf_connections_getElem?, hid] at hpos
  exact Option.map_eq_some_iff.1 hpos

namespace Embeds

variable (h : Embeds τ ρ s make g make') (n : Numbering τ s make g make')

include h

/-- The number of a class that lies in the larger drawing. -/
theorem exists_component (hp : s.Live make p) (hj : (g.builtHeads make')[j]? = some (τ p)) :
    ∃ i, (s.builtHeads make)[i]? = some p ∧ n.component i = j := by
  obtain ⟨i, hi⟩ := List.getElem?_of_mem ((h.mem_builtHeads_iff hp).1 (List.mem_of_getElem? hj))
  have hi' : (g.builtHeads make')[n.component i]? = some (τ p) := by
    rw [← n.heads, hi, Option.map_some]
  obtain ⟨hlt, hget⟩ := List.getElem?_eq_some_iff.1 hi'
  obtain ⟨hlt', hget'⟩ := List.getElem?_eq_some_iff.1 hj
  exact ⟨i, hi, ((g.builtHeads_nodup make').getElem_inj_iff).1 (hget.trans hget'.symm)⟩

variable {n}

section State

variable (hs : InStep n name name' c c')

include hs

/-- The copy of a component covers what its cells lie at. -/
theorem copy_of_cell {m : Component} (hm : c.components[i]? = some m) (hp : p ∈ m.cells) :
    ∃ m', c'.components[n.component i]? = some m' ∧ τ p ∈ m'.cells ∧ m.Copies n.connection m' := by
  obtain ⟨head, hhead, hcells⟩ := exists_head hs.layout hm
  have hhead' : (g.builtHeads make')[n.component i]? = some (τ head) := by
    rw [← n.heads, hhead, Option.map_some]
  obtain ⟨m', hm', hcells'⟩ := exists_component_of_layout hs.layout' hhead'
  obtain ⟨m'', hm'', hcopy⟩ := hs.follows.component i m trivial hm
  obtain rfl := Option.some.inj (hm'.symm.trans hm'')
  refine ⟨m', hm', ?_, hcopy⟩
  rw [hcells', h.classOf_eq (live_of_builtHead (List.mem_of_getElem? hhead)), ← hcells]
  exact List.mem_map_of_mem hp

/-- What covers a cell of the smaller drawing in the larger circuit is a copy. -/
theorem copy_of_image (hp : g.Live make' (τ p) → s.Live make p) {m' : Component}
    (hm' : c'.components[j]? = some m') (hp' : τ p ∈ m'.cells) : ∃ (i : Nat) (m : Component),
      c.components[i]? = some m ∧ p ∈ m.cells ∧ n.component i = j ∧ m.Copies n.connection m' := by
  obtain ⟨head', hhead', hcells'⟩ := exists_head hs.layout' hm'
  have hconn := (mem_classOf.1 (hcells' ▸ hp')).2
  have hlive := hp (live_of_connected (live_of_builtHead (List.mem_of_getElem? hhead')) hconn)
  obtain ⟨head, rfl, hhead, hpq⟩ :=
    (h.exists_connected (g.connected_equivalence.symm hconn)).1 p hlive rfl
  obtain ⟨i, hi, rfl⟩ := h.exists_component n hhead hhead'
  obtain ⟨m, hm, hcells⟩ := exists_component_of_layout hs.layout hi
  obtain ⟨m'', hm'', hcopy⟩ := hs.follows.component i m trivial hm
  obtain rfl := Option.some.inj (hm'.symm.trans hm'')
  refine ⟨i, m, hm, ?_, rfl, hcopy⟩
  rw [hcells]
  exact mem_classOf.2 ⟨hlive.1, s.connected_equivalence.symm hpq⟩

/-- The levels of the smaller circuit show in the larger one. -/
theorem levelAt?_eq (hf : Faithful make) (hf' : Faithful make')
    (hp : g.Live make' (τ p) → s.Live make p) : c'.levelAt? (τ p) = c.levelAt? p := by
  have hn := covered_nodup_of_layout hs.layout
  have hn' := covered_nodup_of_layout hs.layout'
  by_cases hlive : s.Live make p
  · by_cases hj : p ∈ s.junctions
    · obtain ⟨id, hid⟩ := List.getElem?_of_mem hj
      have hid' : g.junctions[n.connection id]? = some (τ p) := by
        rw [← n.junctions, hid, Option.map_some]
      obtain ⟨k, hk, hpos⟩ := exists_connection_of_layout hs.layout hid
      obtain ⟨k', hk', hpos'⟩ := exists_connection_of_layout hs.layout' hid'
      have htracks := (hs.follows.connection id trivial).active
      simp only [Numbering.placement, hk, hk', Option.map_some, Option.some.injEq] at htracks
      have hmem := List.mem_of_getElem? (Array.getElem?_toList.trans hk)
      have hmem' := List.mem_of_getElem? (Array.getElem?_toList.trans hk')
      rw [← hpos', Circuit.levelAt?_connection hn' hmem', ← hpos, Circuit.levelAt?_connection hn hmem,
        htracks]
    · have hg : (s.get p).groups = true := by
        obtain ⟨hpos, hc | hc | hok⟩ := hlive
        · exact absurd (mem_junctions.2 ⟨hpos, .inr hc⟩) hj
        · exact absurd (mem_junctions.2 ⟨hpos, .inl hc⟩) hj
        · exact hf.groups _ hok
      have hroot : s.root p ∈ s.builtHeads make := by
        refine mem_builtHeads.2 ⟨root_mem_heads hlive.1 hg, ?_⟩
        rw [get_root hlive.1]
        exact isOk_of_groups hlive hg
      obtain ⟨i, hi⟩ := List.getElem?_of_mem hroot
      obtain ⟨m, hm, hcells⟩ := exists_component_of_layout hs.layout hi
      have hpm : p ∈ m.cells := by
        rw [hcells, classOf_root hlive.1]
        exact self_mem_classOf hlive.1
      obtain ⟨m', hm', hpm', hcopy⟩ := h.copy_of_cell hs hm hpm
      rw [Circuit.levelAt?_component hn (List.mem_of_getElem? hm) hpm,
        Circuit.levelAt?_component hn' (List.mem_of_getElem? hm') hpm', hcopy.level]
  · have hnone : c.levelAt? p = none := by
      rw [← Option.not_isSome_iff_eq_none, Circuit.levelAt?_isSome,
        Circuit.covered_of_layout hs.layout, covered_iff hf]
      exact hlive
    have hnone' : c'.levelAt? (τ p) = none := by
      rw [← Option.not_isSome_iff_eq_none, Circuit.levelAt?_isSome,
        Circuit.covered_of_layout hs.layout', covered_iff hf']
      exact fun hl => hlive (hp hl)
    rw [hnone, hnone']

omit h hs in
theorem mem_displayValues {v : UInt64} (hl : c.layout = (s.circuitOf name make).layout) :
    (p, v) ∈ c.displayValues ↔ ∃ (i : Nat) (m : Component), c.components[i]? = some m ∧
      (s.builtHeads make)[i]? = some p ∧ m.displayValue? = some v := by
  rw [Circuit.displayValues, List.mem_filterMap]
  have hfirst : ∀ {i : Nat} {m : Component}, c.components[i]? = some m →
      (s.builtHeads make)[i]? = some m.firstCell := by
    intro i m hm
    obtain ⟨head, hhead, hcells⟩ := exists_head hl hm
    obtain ⟨hpos, -, hroot⟩ := mem_heads.1 (mem_heads_of_mem_builtHeads (List.mem_of_getElem? hhead))
    rw [hhead, Component.firstCell, hcells, headD_classOf hpos, hroot]
  constructor
  · intro hm
    obtain ⟨m, hm, hv⟩ := hm
    obtain ⟨w, hw, he⟩ := Option.map_eq_some_iff.1 hv
    obtain ⟨rfl, rfl⟩ := Prod.mk.inj he
    obtain ⟨i, hi⟩ := List.getElem?_of_mem hm
    exact ⟨i, m, hi, hfirst hi, hw⟩
  · intro hm
    obtain ⟨i, m, hm, hp, hv⟩ := hm
    have he : m.firstCell = p := Option.some.inj ((hfirst hm).symm.trans hp)
    exact ⟨m, List.mem_of_getElem? hm, by rw [hv, he]; rfl⟩

/-- So do the numbers on its displays. -/
theorem displayValues_iff (hp : g.Live make' (τ p) → s.Live make p) (v : UInt64) :
    (τ p, v) ∈ c'.displayValues ↔ (p, v) ∈ c.displayValues := by
  rw [mem_displayValues hs.layout, mem_displayValues hs.layout']
  have hvalue : ∀ {m m' : Component}, m.Copies n.connection m' → m'.displayValue? = m.displayValue? := by
    intro m m' hcopy
    rw [Component.displayValue?, Component.displayValue?, hcopy.kind]
  constructor
  · intro hm
    obtain ⟨j, m', hm', hj, hv⟩ := hm
    obtain ⟨i, hi, rfl⟩ := h.exists_component n (hp (live_of_builtHead (List.mem_of_getElem? hj))) hj
    obtain ⟨m, hm, -⟩ := exists_component_of_layout hs.layout hi
    obtain ⟨m'', hm'', hcopy⟩ := hs.follows.component i m trivial hm
    obtain rfl := Option.some.inj (hm'.symm.trans hm'')
    exact ⟨i, m, hm, hi, (hvalue hcopy).symm.trans hv⟩
  · intro hm
    obtain ⟨i, m, hm, hi, hv⟩ := hm
    obtain ⟨m', hm', hcopy⟩ := hs.follows.component i m trivial hm
    exact ⟨_, m', hm', by rw [Numbering.placement, ← n.heads, hi, Option.map_some],
      (hvalue hcopy).trans hv⟩

/-- A press of a cell in both circuits turns over a button and its copy, or there is none. -/
theorem press?_cases (hp : g.Live make' (τ p) → s.Live make p) :
    ((s.circuitOf name make).press? p = none ∧ (g.circuitOf name' make').press? (τ p) = none) ∨
      ∃ k k' i head, (s.builtHeads make)[i]? = some head ∧
        (s.circuitOf name make).press? p = some (.toggle k) ∧
        (g.circuitOf name' make').press? (τ p) = some (.toggle k') ∧
        c.toggle? k = some (c.flip i) ∧ c'.toggle? k' = some (c'.flip (n.component i)) := by
  obtain ⟨hnone, hno⟩ | ⟨k, i, m, hpress, htoggle, hm, hpm, hbutton⟩ :=
    Circuit.press?_cases hs.layout p
  · refine .inl ⟨hnone, ?_⟩
    obtain ⟨hnone', -⟩ | ⟨k', j, m', -, -, hm', hpm', hbutton'⟩ :=
      Circuit.press?_cases hs.layout' (τ p)
    · exact hnone'
    · obtain ⟨i, m, hm, hpm, -, hcopy⟩ := h.copy_of_image hs hp hm' hpm'
      rw [hcopy.isButton, hno i m hm hpm] at hbutton'
      cases hbutton'
  · obtain ⟨head, hhead, -⟩ := exists_head hs.layout hm
    obtain ⟨m', hm', hpm', hcopy⟩ := h.copy_of_cell hs hm hpm
    obtain ⟨-, hno⟩ | ⟨k', j, m'', hpress', htoggle', hm'', hpm'', -⟩ :=
      Circuit.press?_cases hs.layout' (τ p)
    · rw [← hcopy.isButton, hno _ m' hm' hpm'] at hbutton
      cases hbutton
    · obtain rfl :=
        Circuit.eq_of_covered (covered_nodup_of_layout hs.layout') hm'' hm' hpm'' hpm'
      exact .inr ⟨k, k', i, head, hhead, hpress, hpress', htoggle, htoggle'⟩

end State

end Embeds

section Steps

variable {n : Numbering τ s make g make'}

theorem Embeds.start (h : Embeds τ ρ s make g make') (n : Numbering τ s make g make')
    (name name' : String) :
    InStep n name name' (s.circuitOf name make) (g.circuitOf name' make') :=
  ⟨h.follows n, rfl, rfl, rfl, rfl⟩

theorem InStep.tick (hs : InStep n name name' c c') (h : Embeds τ ρ s make g make')
    (hf : Faithful make) (hf' : Faithful make') (hd : c.tick (.all t) = (d, none))
    (hd' : c'.tick (.all t) = (d', none)) (ht : Circuit.TickedAtOnce (.all t) c d)
    (ht' : Circuit.TickedAtOnce (.all t) c' d') : InStep n name name' d d' := by
  have hshape := Circuit.tick_shape (.all t) c
  have hshape' := Circuit.tick_shape (.all t) c'
  have hlayout := Circuit.tick_layout (.all t) c
  have hlayout' := Circuit.tick_layout (.all t) c'
  rw [hd] at hshape hlayout
  rw [hd'] at hshape' hlayout'
  exact ⟨hs.follows.ticked (fun w => (h.secluded n hf hf' w).of_shape hs.shape hs.shape') ht ht',
    hshape.trans hs.shape, hshape'.trans hs.shape', hlayout.trans hs.layout,
    hlayout'.trans hs.layout'⟩

theorem InStep.flip (hs : InStep n name name' c c') (i : Nat) :
    InStep n name name' (c.flip i) (c'.flip (n.component i)) :=
  ⟨hs.follows.flip fun _ _ he => n.component.injective he, (Circuit.flip_shape c i).trans hs.shape,
    (Circuit.flip_shape c' _).trans hs.shape', (c.flip_layout i).trans hs.layout,
    (c'.flip_layout _).trans hs.layout'⟩

theorem InStep.flip_stranger (hs : InStep n name name' c c') (hj : ∀ i, j ≠ n.component i) :
    InStep n name name' c (c'.flip j) :=
  ⟨hs.follows.flip_stranger fun i _ => hj i, hs.shape, (Circuit.flip_shape c' j).trans hs.shape',
    hs.layout, (c'.flip_layout j).trans hs.layout'⟩

/-- A smaller circuit has no clocks with a period if the larger one has none. -/
theorem Embeds.untimed (h : Embeds τ ρ s make g make') (n : Numbering τ s make g make')
    (name : String) (hu : (g.circuitOf name' make').Untimed) : (s.circuitOf name make).Untimed := by
  apply untimedAll_iff.2
  intro m hm
  obtain ⟨i, hi⟩ := List.getElem?_of_mem hm
  obtain ⟨m', hm', hcopy, -⟩ : ∃ m', (g.circuitOf name' make').components[n.component i]? = some m' ∧
      m.Copies n.connection m' ∧ m'.cells = m.cells.map τ := h.component_copies n hi
  exact Component.untimed_of_kind hcopy.kind.symm (untimedAll_iff.1 hu m' (List.mem_of_getElem? hm'))

end Steps

end Grid

/-- What happens to two drawings in a third one: a tick, at a time of its own for each of the three
circuits, or a press of a cell of one of the two. -/
inductive JointEvent where
  | tick (whole first second : Times)
  | pressFirst (p : Pos)
  | pressSecond (q : Pos)

namespace JointEvent

/-- What an event is to the circuit of the whole, where the cells of the two drawings lie at `τ` and `τ'`. -/
def inWhole (c : Circuit) (τ τ' : Pos → Pos) : JointEvent → Option Action
  | tick t _ _ => some (.tick t)
  | pressFirst p => c.press? (τ p)
  | pressSecond q => c.press? (τ' q)

def inFirst (c : Circuit) : JointEvent → Option Action
  | tick _ t _ => some (.tick t)
  | pressFirst p => c.press? p
  | pressSecond _ => none

def inSecond (c : Circuit) : JointEvent → Option Action
  | tick _ _ t => some (.tick t)
  | pressFirst _ => none
  | pressSecond q => c.press? q

/-- The same event at one time for all. -/
def sync : JointEvent → JointEvent
  | tick _ _ _ => tick (.all 0) (.all 0) (.all 0)
  | e => e

theorem sync_inWhole (c : Circuit) (τ τ' : Pos → Pos) (e : JointEvent) :
    (e.sync.inWhole c τ τ').map Action.timeless = (e.inWhole c τ τ').map Action.timeless := by
  cases e <;> rfl

theorem sync_inFirst (c : Circuit) (e : JointEvent) :
    (e.sync.inFirst c).map Action.timeless = (e.inFirst c).map Action.timeless := by
  cases e <;> rfl

theorem sync_inSecond (c : Circuit) (e : JointEvent) :
    (e.sync.inSecond c).map Action.timeless = (e.inSecond c).map Action.timeless := by
  cases e <;> rfl

/-- A circuit gets the same events, up to their times, from a list in which all happen at one time. -/
theorem filterMap_sync {inCircuit : JointEvent → Option Action}
    (h : ∀ e : JointEvent, (inCircuit e.sync).map Action.timeless = (inCircuit e).map Action.timeless)
    (events : List JointEvent) :
    ((events.map sync).filterMap inCircuit).map Action.timeless =
      (events.filterMap inCircuit).map Action.timeless := by
  rw [List.map_filterMap, List.filterMap_map, List.map_filterMap]
  apply List.filterMap_congr
  intro e _
  exact h e

end JointEvent

namespace Grid

variable {τ τ' : Pos → Pos} {ρ ρ' : Code → Code} {s r g : Grid} {make₁ make₂ make : Code → Making}
  {name₁ name₂ name : String} {n₁ : Numbering τ s make₁ g make} {n₂ : Numbering τ' r make₂ g make}
  {c₁ c₂ c : Circuit} {i j : Nat}

/-- Two drawings that lie in a third have nothing in common there, and it has nothing else. -/
structure Fills (τ τ' : Pos → Pos) (s : Grid) (make₁ : Code → Making) (r : Grid)
    (make₂ : Code → Making) (g : Grid) (make : Code → Making) : Prop where
  apart : ∀ p q, s.Live make₁ p → r.Live make₂ q → τ p ≠ τ' q
  cover : ∀ P, g.Live make P → (∃ p, s.Live make₁ p ∧ τ p = P) ∨ ∃ q, r.Live make₂ q ∧ τ' q = P

/-- The circuits of two drawings, and that of a third in which they lie. -/
structure Joint (n₁ : Numbering τ s make₁ g make) (n₂ : Numbering τ' r make₂ g make)
    (name₁ name₂ name : String) (c₁ c₂ c : Circuit) : Prop where
  first : InStep n₁ name₁ name c₁ c
  second : InStep n₂ name₂ name c₂ c

theorem Fills.component_ne (hfill : Fills τ τ' s make₁ r make₂ g make)
    (n₁ : Numbering τ s make₁ g make) (n₂ : Numbering τ' r make₂ g make) {head : Pos}
    (hi : (s.builtHeads make₁)[i]? = some head) (j : Nat) : n₁.component i ≠ n₂.component j := by
  intro he
  have hhead := n₂.heads j
  rw [← he, ← n₁.heads, hi, Option.map_some, Option.map_eq_some_iff] at hhead
  obtain ⟨head', hhead', he'⟩ := hhead
  exact hfill.apart head head' (Embeds.live_of_builtHead (List.mem_of_getElem? hi))
    (Embeds.live_of_builtHead (List.mem_of_getElem? hhead')) he'.symm

theorem Fills.symm (hfill : Fills τ τ' s make₁ r make₂ g make) : Fills τ' τ r make₂ s make₁ g make :=
  ⟨fun q p hq hp he => hfill.apart p q hp hq he.symm, fun P hP => (hfill.cover P hP).symm⟩

section Joint

variable (h₁ : Embeds τ ρ s make₁ g make) (h₂ : Embeds τ' ρ' r make₂ g make)
  (hfill : Fills τ τ' s make₁ r make₂ g make) (hf₁ : Faithful make₁) (hf₂ : Faithful make₂)
  (hf : Faithful make) (hj : Joint n₁ n₂ name₁ name₂ name c₁ c₂ c) {t : Nat}

include h₁ h₂ hfill hf₁ hf₂ hf hj

/-- The whole fails in a tick exactly if one of its parts does. -/
theorem Joint.fails_iff : c.Fails (.all t) (c.numbers false) ↔
    c₁.Fails (.all t) (c₁.numbers false) ∨ c₂.Fails (.all t) (c₂.numbers false) := by
  have hs₁ := (h₁.secluded n₁ hf₁ hf false).of_shape hj.first.shape hj.first.shape'
  have hs₂ := (h₂.secluded n₂ hf₂ hf false).of_shape hj.second.shape hj.second.shape'
  constructor
  · intro hfails
    obtain ⟨j, hmem, m', hm', hfail⟩ := hfails
    have hw := Circuit.isWire_of_mem_numbers hmem hm'
    obtain ⟨head, hhead, -⟩ := exists_head hj.first.layout' hm'
    obtain ⟨p, hp, rfl⟩ | ⟨q, hq, rfl⟩ :=
      hfill.cover head (Embeds.live_of_builtHead (List.mem_of_getElem? hhead))
    · obtain ⟨i, hi, rfl⟩ := h₁.exists_component n₁ hp hhead
      obtain ⟨m, hm, -⟩ := exists_component_of_layout hj.first.layout hi
      exact .inl (hj.first.follows.fails_of_copy hs₁ trivial hm hm' hw hfail)
    · obtain ⟨i, hi, rfl⟩ := h₂.exists_component n₂ hq hhead
      obtain ⟨m, hm, -⟩ := exists_component_of_layout hj.second.layout hi
      exact .inr (hj.second.follows.fails_of_copy hs₂ trivial hm hm' hw hfail)
  · intro hfails
    obtain ⟨i, hmem, m, hm, hfail⟩ | ⟨i, hmem, m, hm, hfail⟩ := hfails
    · exact hj.first.follows.fails hs₁ trivial hm (Circuit.isWire_of_mem_numbers hmem hm) hfail
    · exact hj.second.follows.fails hs₂ trivial hm (Circuit.isWire_of_mem_numbers hmem hm) hfail

/-- A tick keeps the parts in step with the whole, or fails in one of them and in the whole. -/
theorem Joint.tick (t : Nat) : (∃ d₁ d₂ d, c₁.tick (.all t) = (d₁, none) ∧ c₂.tick (.all t) = (d₂, none) ∧
      c.tick (.all t) = (d, none) ∧ Joint n₁ n₂ name₁ name₂ name d₁ d₂ d) ∨
    ∃ d e, c.tick (.all t) = (d, some e) ∧
      ((∃ d₁ e₁, c₁.tick (.all t) = (d₁, some e₁)) ∨ ∃ d₂ e₂, c₂.tick (.all t) = (d₂, some e₂)) := by
  have hiff := Joint.fails_iff h₁ h₂ hfill hf₁ hf₂ hf hj (t := t)
  have ha₁ := Circuit.apart_of_shape (circuitOf_wired hf₁).apart hj.first.shape
  have ha₂ := Circuit.apart_of_shape (circuitOf_wired hf₂).apart hj.second.shape
  have ha := Circuit.apart_of_shape (circuitOf_wired hf).apart hj.first.shape'
  by_cases hfails : c.Fails (.all t) (c.numbers false)
  case pos =>
    obtain ⟨d, e, hd⟩ := Circuit.tick_of_fails ha hfails
    exact .inr ⟨d, e, hd, (hiff.1 hfails).imp (Circuit.tick_of_fails ha₁) (Circuit.tick_of_fails ha₂)⟩
  case neg =>
    obtain ⟨hn₁, hn₂⟩ := not_or.1 (mt hiff.2 hfails)
    obtain ⟨d₁, hd₁, ht₁⟩ := Circuit.tick_of_not_fails ha₁ hn₁
    obtain ⟨d₂, hd₂, ht₂⟩ := Circuit.tick_of_not_fails ha₂ hn₂
    obtain ⟨d, hd, ht⟩ := Circuit.tick_of_not_fails ha hfails
    exact .inl ⟨d₁, d₂, d, hd₁, hd₂, hd, hj.first.tick h₁ hf₁ hf hd₁ hd ht₁ ht,
      hj.second.tick h₂ hf₂ hf hd₂ hd ht₂ ht⟩

end Joint

/-- Whatever happens to the two drawings leaves them in step with the whole, or makes a part and the
whole fail. -/
theorem Joint.run (h₁ : Embeds τ ρ s make₁ g make) (h₂ : Embeds τ' ρ' r make₂ g make)
    (hfill : Fills τ τ' s make₁ r make₂ g make) (hf₁ : Faithful make₁) (hf₂ : Faithful make₂)
    (hf : Faithful make) : ∀ (events : List JointEvent) (c₁ c₂ c : Circuit),
      (∀ p, JointEvent.pressFirst p ∈ events → g.Live make (τ p) → s.Live make₁ p) →
      (∀ q, JointEvent.pressSecond q ∈ events → g.Live make (τ' q) → r.Live make₂ q) →
      Joint n₁ n₂ name₁ name₂ name c₁ c₂ c →
      (∃ d₁ d₂ d,
          c₁.run ((events.map JointEvent.sync).filterMap
            (JointEvent.inFirst (s.circuitOf name₁ make₁))) = some d₁ ∧
          c₂.run ((events.map JointEvent.sync).filterMap
            (JointEvent.inSecond (r.circuitOf name₂ make₂))) = some d₂ ∧
          c.run ((events.map JointEvent.sync).filterMap
            (JointEvent.inWhole (g.circuitOf name make) τ τ')) = some d ∧
          Joint n₁ n₂ name₁ name₂ name d₁ d₂ d) ∨
        c.run ((events.map JointEvent.sync).filterMap
            (JointEvent.inWhole (g.circuitOf name make) τ τ')) = none ∧
          (c₁.run ((events.map JointEvent.sync).filterMap
              (JointEvent.inFirst (s.circuitOf name₁ make₁))) = none ∨
            c₂.run ((events.map JointEvent.sync).filterMap
              (JointEvent.inSecond (r.circuitOf name₂ make₂))) = none) := by
  intro events
  induction events with
  | nil => exact fun c₁ c₂ c _ _ hj => .inl ⟨c₁, c₂, c, rfl, rfl, rfl, hj⟩
  | cons event events ih =>
    intro c₁ c₂ c hp hq hj
    have hrest := fun c₁ c₂ c => ih c₁ c₂ c (fun p hmem => hp p (List.mem_cons_of_mem _ hmem))
      fun q hmem => hq q (List.mem_cons_of_mem _ hmem)
    cases event with
    | tick _ _ _ =>
      simp only [List.map_cons, JointEvent.sync, List.filterMap_cons, JointEvent.inFirst,
        JointEvent.inSecond, JointEvent.inWhole, Circuit.run]
      obtain ⟨d₁, d₂, d, hd₁, hd₂, hd, hj'⟩ | ⟨d, e, hd, hfails⟩ :=
        Joint.tick h₁ h₂ hfill hf₁ hf₂ hf hj 0
      · rw [hd₁, hd₂, hd]
        exact hrest d₁ d₂ d hj'
      · rw [hd]
        obtain ⟨d₁, e₁, hd₁⟩ | ⟨d₂, e₂, hd₂⟩ := hfails
        · rw [hd₁]
          exact .inr ⟨rfl, .inl rfl⟩
        · rw [hd₂]
          exact .inr ⟨rfl, .inr rfl⟩
    | pressFirst p =>
      simp only [List.map_cons, JointEvent.sync, List.filterMap_cons, JointEvent.inFirst,
        JointEvent.inSecond, JointEvent.inWhole]
      obtain ⟨hnone, hnone'⟩ | ⟨k, k', i, head, hhead, hk, hk', ht, ht'⟩ :=
        h₁.press?_cases hj.first (hp p List.mem_cons_self)
      · rw [hnone, hnone']
        exact hrest c₁ c₂ c hj
      · rw [hk, hk']
        simp only [Circuit.run, ht, ht', Option.getD_some]
        exact hrest _ _ _ ⟨hj.first.flip i,
          hj.second.flip_stranger fun j => hfill.component_ne n₁ n₂ hhead j⟩
    | pressSecond q =>
      simp only [List.map_cons, JointEvent.sync, List.filterMap_cons, JointEvent.inFirst,
        JointEvent.inSecond, JointEvent.inWhole]
      obtain ⟨hnone, hnone'⟩ | ⟨k, k', i, head, hhead, hk, hk', ht, ht'⟩ :=
        h₂.press?_cases hj.second (hq q List.mem_cons_self)
      · rw [hnone, hnone']
        exact hrest c₁ c₂ c hj
      · rw [hk, hk']
        simp only [Circuit.run, ht, ht', Option.getD_some]
        exact hrest _ _ _ ⟨hj.first.flip_stranger fun j => hfill.symm.component_ne n₂ n₁ hhead j,
          hj.second.flip i⟩

/-- What a circuit shows on the cells of a drawing is what another one shows where they lie in it. -/
def ShowsIn (τ : Pos → Pos) (s : Grid) (make : Code → Making) (g : Grid) (make' : Code → Making)
    (c c' : Circuit) : Prop :=
  ∀ p, (g.Live make' (τ p) → s.Live make p) → c'.levelAt? (τ p) = c.levelAt? p ∧
    ∀ v, (τ p, v) ∈ c'.displayValues ↔ (p, v) ∈ c.displayValues

theorem ShowsIn.congr {d d' : Circuit} (h : ShowsIn τ s make₁ g make c₁ c)
    (hl : d.levelAt? = c₁.levelAt?) (hv : d.displayValues = c₁.displayValues)
    (hl' : d'.levelAt? = c.levelAt?) (hv' : d'.displayValues = c.displayValues) :
    ShowsIn τ s make₁ g make d d' := by
  intro p hp
  rw [hl, hv, hl', hv']
  exact h p hp

/-- Two drawings in a third one show there what they show alone, whatever happens to them. With no
periods, each circuit may tick at times of its own. -/
theorem Fills.run (h₁ : Embeds τ ρ s make₁ g make) (h₂ : Embeds τ' ρ' r make₂ g make)
    (hfill : Fills τ τ' s make₁ r make₂ g make) (hf₁ : Faithful make₁) (hf₂ : Faithful make₂)
    (hf : Faithful make) (hu : (g.circuitOf name make).Untimed) (name₁ name₂ : String)
    {events : List JointEvent}
    (hp : ∀ p, JointEvent.pressFirst p ∈ events → g.Live make (τ p) → s.Live make₁ p)
    (hq : ∀ q, JointEvent.pressSecond q ∈ events → g.Live make (τ' q) → r.Live make₂ q) :
    (∃ d₁ d₂ d,
        (s.circuitOf name₁ make₁).run
          (events.filterMap (JointEvent.inFirst (s.circuitOf name₁ make₁))) = some d₁ ∧
        (r.circuitOf name₂ make₂).run
          (events.filterMap (JointEvent.inSecond (r.circuitOf name₂ make₂))) = some d₂ ∧
        (g.circuitOf name make).run
          (events.filterMap (JointEvent.inWhole (g.circuitOf name make) τ τ')) = some d ∧
        ShowsIn τ s make₁ g make d₁ d ∧ ShowsIn τ' r make₂ g make d₂ d) ∨
      (g.circuitOf name make).run
          (events.filterMap (JointEvent.inWhole (g.circuitOf name make) τ τ')) = none ∧
        ((s.circuitOf name₁ make₁).run
            (events.filterMap (JointEvent.inFirst (s.circuitOf name₁ make₁))) = none ∨
          (r.circuitOf name₂ make₂).run
            (events.filterMap (JointEvent.inSecond (r.circuitOf name₂ make₂))) = none) := by
  obtain ⟨n₁⟩ := h₁.exists_numbering
  obtain ⟨n₂⟩ := h₂.exists_numbering
  have hu₁ := h₁.untimed n₁ name₁ hu
  have hu₂ := h₂.untimed n₂ name₂ hu
  have hs₁ := JointEvent.filterMap_sync (JointEvent.sync_inFirst (s.circuitOf name₁ make₁)) events
  have hs₂ := JointEvent.filterMap_sync (JointEvent.sync_inSecond (r.circuitOf name₂ make₂)) events
  have hs := JointEvent.filterMap_sync (JointEvent.sync_inWhole (g.circuitOf name make) τ τ') events
  obtain ⟨d₁, d₂, d, hd₁, hd₂, hd, hj⟩ | ⟨hnone, hpart⟩ :=
    Joint.run h₁ h₂ hfill hf₁ hf₂ hf events _ _ _ hp hq
      ⟨h₁.start n₁ name₁ name, h₂.start n₂ name₂ name⟩
  · obtain ⟨d₁', hd₁', hl₁, hv₁⟩ := Circuit.run_shows hu₁ hs₁ hd₁
    obtain ⟨d₂', hd₂', hl₂, hv₂⟩ := Circuit.run_shows hu₂ hs₂ hd₂
    obtain ⟨d', hd', hl, hv⟩ := Circuit.run_shows hu hs hd
    refine .inl ⟨d₁', d₂', d', hd₁', hd₂', hd', ShowsIn.congr (fun p hl => ?_) hl₁ hv₁ hl hv,
      ShowsIn.congr (fun q hl => ?_) hl₂ hv₂ hl hv⟩
    · exact ⟨h₁.levelAt?_eq hj.first hf₁ hf hl, h₁.displayValues_iff hj.first hl⟩
    · exact ⟨h₂.levelAt?_eq hj.second hf₂ hf hl, h₂.displayValues_iff hj.second hl⟩
  · exact .inr ⟨Circuit.run_fails hu hs hnone,
      hpart.imp (Circuit.run_fails hu₁ hs₁) (Circuit.run_fails hu₂ hs₂)⟩

end Grid

end GridCircuit
