import GridCircuit.Proofs.Moments

/-!
# Who writes a connection

Only the components that write a connection change its level. So the level of a connection that nobody
writes stays as it is all through a tick, also if the tick fails half way. A connection without driver is
one of them, and so are the outputs of a circuit for which it has no output pins.
-/

namespace GridCircuit

theorem Component.written_update (now : Times) (m : Component) (bus : Bus) :
    (m.update now bus).value.written = m.written := by
  obtain ⟨code, kind, level, cells, inputs, outputs, clock⟩ := m
  cases kind
  case scripted unit =>
    show (updateScripted _ unit bus).value.written = _
    unfold updateScripted
    split
    · rw [runScript]
      split <;> rfl
    · rfl
  case nested pins inner =>
    obtain ⟨name, components, connections, ticks⟩ := inner
    simp only [Component.update]
    split <;> rfl
  all_goals rfl

namespace Circuit

variable {now : Times} {i id : Nat} {c c' : Circuit} {m : Component} {bus : Bus}

/-- What every update keeps about a component, a tick keeps about the table. -/
theorem tick_map {β : Type} {p : Component → β}
    (h : ∀ (m : Component) (bus : Bus), p (m.update now bus).value = p m) (c : Circuit) :
    (c.tick now).1.components.map p = c.components.map p := by
  rw [tick, completeTick]
  split
  · exact updateGates_map h c.connections
  · exact (updateWires_map h _).trans (updateGates_map h c.connections)

/-- The connections in the course of a tick: as the gates leave them one after another and then, unless
a script has failed, as the wires leave them. -/
def during (now : Times) (c : Circuit) : List Bus :=
  let stages := List.range (c.components.length + 1)
  let gates := stages.map fun n => (c.gatesBefore now n).bus
  let wires := stages.map fun n =>
    (updateWires now ((c.gated now).components.take n) (c.gated now).connections).2
  if (updateGates now c.components c.connections).failure = none then gates ++ wires else gates

theorem mem_during (h : bus ∈ c.during now) :
    (∃ n, bus = (c.gatesBefore now n).bus) ∨
      ∃ n, bus = (updateWires now ((c.gated now).components.take n) (c.gated now).connections).2 := by
  have hall : bus ∈ (List.range (c.components.length + 1)).map (fun n => (c.gatesBefore now n).bus) ++
      (List.range (c.components.length + 1)).map fun n =>
        (updateWires now ((c.gated now).components.take n) (c.gated now).connections).2 := by
    rw [during] at h
    split at h
    · exact h
    · exact List.mem_append_left _ h
  rcases List.mem_append.1 hall with h | h
  · obtain ⟨n, -, rfl⟩ := List.mem_map.1 h
    exact .inl ⟨n, rfl⟩
  · obtain ⟨n, -, rfl⟩ := List.mem_map.1 h
    exact .inr ⟨n, rfl⟩

/-- The connections that a tick leaves are the last ones in its course. -/
theorem tick_mem_during (now : Times) (c : Circuit) : (c.tick now).1.connections ∈ c.during now := by
  have hlast : c.components.length ∈ List.range (c.components.length + 1) :=
    List.mem_range.2 (Nat.lt_succ_self _)
  have hlen : (updateGates now c.components c.connections).value.length = c.components.length := by
    have h := congrArg List.length (updateGates_shape now c.components c.connections)
    rwa [List.length_map, List.length_map] at h
  rw [tick, completeTick, during]
  cases hf : (updateGates now c.components c.connections).failure with
  | none =>
    refine List.mem_append_right _ (List.mem_map.2 ⟨_, hlast, ?_⟩)
    rw [gated, ← hlen, List.take_length]
  | some failure =>
    refine List.mem_map.2 ⟨_, hlast, ?_⟩
    rw [gatesBefore, List.take_length]

/-- What every component keeps about the connections stays as it is all through a tick. -/
theorem during_keeps {β : Type} {p : Bus → β}
    (hgate : ∀ m ∈ c.components, ∀ bus, p (m.update now bus).bus = p bus)
    (hwire : ∀ m ∈ (c.gated now).components, ∀ bus, p (m.update now bus).bus = p bus)
    (h : bus ∈ c.during now) : p bus = p c.connections := by
  have hgates : ∀ cs ⊆ c.components, p (updateGates now cs c.connections).bus = p c.connections :=
    fun cs hcs => updateGates_keeps (fun m hm _ => hgate m (hcs hm)) c.connections
  obtain ⟨n, rfl⟩ | ⟨n, rfl⟩ := mem_during h
  · exact hgates _ (List.take_subset _ _)
  · have hgated : p (c.gated now).connections = p c.connections := hgates _ (List.Subset.refl _)
    rw [← hgated]
    refine updateWires_keeps (fun m hm hw bus => ?_) _
    rw [← Component.update_wire hw]
    exact hwire m (List.take_subset _ _ hm) bus

theorem blank_of_mem_during (h : bus ∈ c.during now) : bus.blank = c.connections.blank :=
  during_keeps (fun m _ bus => m.update_blank now bus) (fun m _ bus => m.update_blank now bus) h

/-- No component writes the connection. -/
def Unwritten (c : Circuit) (id : Nat) : Prop := ∀ m ∈ c.components, id ∉ m.written

theorem unwritten_congr (h : c'.components.map Component.written = c.components.map Component.written)
    (id : Nat) : c'.Unwritten id ↔ c.Unwritten id := by
  have hmap : ∀ cs : List Component, (∀ m ∈ cs, id ∉ m.written) ↔
      ∀ ids ∈ cs.map Component.written, id ∉ ids :=
    fun cs => (List.forall_mem_map (P := fun ids => id ∉ ids)).symm
  rw [Unwritten, Unwritten, hmap, hmap, h]

/-- A level that nobody writes stays all through a tick. -/
theorem Unwritten.active_during (hu : c.Unwritten id) (h : bus ∈ c.during now) :
    (bus[id]?).map (·.active) = (c.connections[id]?).map (·.active) := by
  have hgated : (c.gated now).Unwritten id :=
    (unwritten_congr (updateGates_map (fun m bus => m.written_update now bus) c.connections) id).2 hu
  exact during_keeps (p := fun bus => (bus[id]?).map (·.active))
    (fun m hm _ => Component.update_unwritten now (hu m hm))
    (fun m hm _ => Component.update_unwritten now (hgated m hm)) h

/-- A connection without driver is an output of nobody. -/
theorem Wired.notMem_outputs (h : c.Wired)
    (hno : ∀ k, c.connections[id]? = some k → k.driver = none) (hm : c.components[i]? = some m) :
    id ∉ m.outputs := by
  intro hid
  obtain ⟨k, hk, hd⟩ := h.driver_of_mem hm hid
  rw [hno k hk] at hd
  cases hd

theorem Wired.unwritten_of_driverless (h : c.Wired)
    (hno : ∀ k, c.connections[id]? = some k → k.driver = none) : c.Unwritten id := by
  intro m hm hid
  obtain ⟨i, hi⟩ := List.getElem?_of_mem hm
  exact h.notMem_outputs hno hi (m.written_subset hid)

/-- An output that its component does not write is written by no other. -/
theorem Wired.unwritten_of_output (h : c.Wired) (hm : c.components[i]? = some m) (hid : id ∈ m.outputs)
    (hno : id ∉ m.written) : c.Unwritten id := by
  intro n hn hwritten
  obtain ⟨j, hj⟩ := List.getElem?_of_mem hn
  obtain rfl := h.writer_unique hm hj hid (n.written_subset hwritten)
  obtain rfl := Option.some.inj (hm.symm.trans hj)
  exact hno hwritten

/-- A tick changes no level that nobody writes, also if it fails. -/
theorem Wired.tick_unwritten (h : c.Wired) (now : Times)
    (hno : ∀ k, c.connections[id]? = some k → k.driver = none) :
    ((c.tick now).1.connections[id]?).map (·.active) = (c.connections[id]?).map (·.active) :=
  (h.unwritten_of_driverless hno).active_during (tick_mem_during now c)

end Circuit

end GridCircuit
