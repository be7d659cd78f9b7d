import GridCircuit.Proofs.Inlining

/-!
# Laid out in place, an inner circuit does what it did as a component

As a component the inner circuit goes through a whole tick while the gates outside are updated; laid out
in place its gates take part in the first half of the tick and its wires in the second. Between ticks
the two circuits are alike, if the inner one is looked at as it will be fed next.
-/

namespace GridCircuit

theorem Connection.Tracks.imp {full full' : Prop} {k k' : Option Connection} (h : Tracks full k k')
    (hf : full' → full) : Tracks full' k k' := ⟨h.active, fun hfull => h.changed (hf hfull)⟩

theorem Connection.drive_active (k : Connection) : k.drive k.active = k := if_pos rfl

/-- The one level that is written to a connection. -/
theorem Connection.receive_of_mem {id : Nat} {level : Bool} : ∀ {writes : List (Nat × Bool)}
    (k : Connection), (writes.map (·.1)).Nodup → (id, level) ∈ writes →
      k.receive writes id = k.drive level := by
  intro writes
  induction writes with
  | nil =>
    intro k _ hmem
    cases hmem
  | cons w writes ih =>
    intro k hn hmem
    rw [List.map_cons, List.nodup_cons] at hn
    rw [receive, List.foldl_cons]
    obtain rfl | hmem := List.mem_cons.1 hmem
    · exact (congrArg _ (if_pos rfl)).trans (receive_of_notMem _ hn.1)
    · have hne : w.1 ≠ id := fun he => hn.1 (he ▸ List.mem_map_of_mem (f := (·.1)) hmem)
      rw [if_neg hne]
      exact ih k hn.2 hmem

namespace Component

variable {now : Times} {id : Nat} {m : Component} {bus : Bus}

theorem updateScripted_unwritten (unit : ScriptUnit) (h : id ∉ m.outputs) :
    ((m.updateScripted unit bus).bus[id]?).map (·.active) = (bus[id]?).map (·.active) := by
  have hack : ((Bus.acknowledge bus m.inputs)[id]?).map (·.active) = (bus[id]?).map (·.active) := by
    rw [Bus.getElem?_acknowledge, Option.map_map]
    congr 1
    funext k
    rw [Function.comp_apply]
    split <;> rfl
  simp only [updateScripted, fires]
  cases unit.script.trigger with
  | clocked =>
    dsimp only
    cases unit.edge.rising (m.read bus).clock with
    | mk rising edge =>
      cases rising with
      | false => rfl
      | true => exact congrArg _ (runScript_frame _ h)
  | instant =>
    dsimp only
    cases m.inputs.any (Bus.hasChanged bus) with
    | false => exact hack
    | true => exact (congrArg _ (runScript_frame unit h)).trans hack

/-- The connections that a component writes. A display writes none of its outputs, and a circuit no more
of them than it has output pins. -/
def written (m : Component) : List Nat :=
  match m.kind with
  | .display _ => []
  | .nested pins _ => m.outputs.take pins.outputs.length
  | _ => m.outputs

theorem written_subset (m : Component) : m.written ⊆ m.outputs := by
  rw [written]
  split
  · exact List.nil_subset _
  · exact List.take_subset _ _
  · exact List.Subset.refl _

theorem mem_take_of_mem_zip {α β : Type} {xs : List α} {ys : List β} {e : α × β}
    (h : e ∈ xs.zip ys) : e.1 ∈ xs.take ys.length := by
  obtain ⟨i, hi⟩ := List.mem_iff_getElem?.1 h
  obtain ⟨hx, hy⟩ := List.getElem?_zip_eq_some.1 hi
  have hlt := (List.getElem?_eq_some_iff.1 hy).1
  exact List.mem_iff_getElem?.2 ⟨i, by rw [List.getElem?_take_of_lt hlt, hx]⟩

/-- A component changes no other levels. -/
theorem update_unwritten (now : Times) (h : id ∉ m.written) :
    ((m.update now bus).bus[id]?).map (·.active) = (bus[id]?).map (·.active) := by
  obtain ⟨code, kind, level, cells, inputs, outputs, clock⟩ := m
  cases kind
  case scripted unit => exact updateScripted_unwritten unit h
  case nested pins inner =>
    obtain ⟨name, components, connections, ticks⟩ := inner
    simp only [Component.update]
    split
    · rfl
    · refine congrArg _ (driveAll_frame ?_)
      rw [Pins.results, List.map_map]
      intro hid
      obtain ⟨e, he, rfl⟩ := List.mem_map.1 hid
      exact h (mem_take_of_mem_zip he)
  case display value => rfl
  all_goals exact congrArg _ (updatePlain_frame now h)

end Component

namespace Circuit

section Halves

variable {now : Times} {is : List Nat} {c d : Circuit} {id : Nat}

theorem Simultaneous.isSome_eq (h : Simultaneous now is c d) (id : Nat) :
    (d.connections[id]?).isSome = (c.connections[id]?).isSome := by
  obtain ⟨i, hi, m, hm, hid⟩ | ⟨-, hsame⟩ := h.touched_or id
  · have hpos := congrArg (·[id]?) (m.update_map_pos now c.connections)
    simp only [Array.getElem?_map] at hpos
    have hsome := congrArg Option.isSome hpos
    rw [Option.isSome_map, Option.isSome_map] at hsome
    rw [h.touched i hi m hm id hid, hsome]
  · rw [hsame]

theorem Simultaneous.unwritten (h : Simultaneous now is c d)
    (hno : ∀ i ∈ is, ∀ m, c.components[i]? = some m → id ∉ m.outputs) :
    (d.connections[id]?).map (·.active) = (c.connections[id]?).map (·.active) := by
  obtain ⟨i, hi, m, hm, hid⟩ | ⟨-, hsame⟩ := h.touched_or id
  · rw [h.touched i hi m hm id hid]
    exact Component.update_unwritten now fun hid => hno i hi m hm (m.written_subset hid)
  · rw [hsame]

/-- Wires do nothing to a connection but write its level. -/
theorem Simultaneous.wires_drive (h : Simultaneous now (c.numbers true) c d) (id : Nat) :
    d.connections[id]? = (c.connections[id]?).map (·.drive (Bus.level d.connections id)) := by
  have hlevel : ∀ k, d.connections[id]? = some k → Bus.level d.connections id = k.active := by
    intro k hk
    rw [Bus.level, hk]
    rfl
  obtain ⟨i, hi, m, hm, hid⟩ | ⟨-, hsame⟩ := h.touched_or id
  · have hd := h.touched i hi m hm id hid
    rw [Component.update_wire (isWire_of_mem_numbers hi hm), Component.updatePlain_getElem?] at hd
    cases hk : c.connections[id]? with
    | none =>
      rw [hd, hk]
      rfl
    | some k =>
      rw [hk, Option.map_some] at hd
      rw [hlevel _ hd, hd, Option.map_some]
      split
      · rw [Connection.active_drive]
      · rw [Connection.drive_active]
  · rw [hsame]
    cases hk : c.connections[id]? with
    | none => rfl
    | some k => rw [hlevel k (hsame.trans hk), Option.map_some, Connection.drive_active]

theorem Simultaneous.wires_unwritten (h : Simultaneous now (c.numbers true) c d)
    (hno : ∀ (i : Nat) (m : Component), c.components[i]? = some m → m.isWire = true →
      id ∉ m.outputs) : d.connections[id]? = c.connections[id]? := by
  have hactive := h.unwritten fun i hi m hm => hno i m hm (isWire_of_mem_numbers hi hm)
  rw [h.wires_drive id]
  cases hk : c.connections[id]? with
  | none => rfl
  | some k =>
    have hlevel : Bus.level d.connections id = k.active := by rw [Bus.level, hactive, hk]; rfl
    rw [Option.map_some, hlevel, Connection.drive_active]

end Halves

namespace Nesting

variable {c₀ : Circuit} (u : c₀.Nesting)

/-- Where the outer components and connections are found. Whether a pin of the inner circuit has
changed is known inside only. -/
def outside : Placement where
  component := u.shift
  connection := id
  chosen i := i ≠ u.index
  placed id := id < c₀.connections.size
  full id := id ∉ u.host.pins

/-- Outside, without the connections that the inner circuit has to do with. -/
def outsideGates : Placement :=
  { u.outside with
    placed := fun id => id < c₀.connections.size ∧ id ∉ u.host.pins
    full := fun _ => True }

/-- Where the inner components and connections are found. -/
def inside : Placement where
  component := u.shiftInner
  connection := u.place
  chosen _ := True
  placed id := id < u.inner.connections.size
  full _ := True

/-- Inside, with nothing but the connections that are joined to no outer one. -/
def insideWires : Placement := { u.inside with placed := fun id => id ∈ u.free }

/-- The inner circuit when it is fed. -/
def fed (inner : Circuit) (outer : Bus) : Circuit :=
  { inner with connections := u.pins.feed u.host.inputs u.host.clock outer inner.connections }

/-- The component in another state. -/
def hostWith (inner : Circuit) (level : Bool) : Component :=
  { u.host with kind := .nested u.pins inner, level }

section Secluded

variable {u} (h : u.Fits)

include h

theorem Fits.size_le_place {id : Nat} (hid : id ∈ u.free) : c₀.connections.size ≤ u.place id := by
  obtain ⟨o, hoi, -⟩ | ⟨-, hle⟩ := h.place_cases (Joints.mem_free.1 hid).1
  · exact absurd (List.mem_map_of_mem hoi) (Joints.mem_free.1 hid).2
  · exact hle

theorem Fits.secluded_outsideGates : Secluded u.outsideGates false c₀ u.flat := by
  constructor
  case injective => exact fun a b _ _ he => he
  case pins =>
    intro i m hi hm hw id hid
    exact ⟨h.outer_pin_lt hm hid, fun hhost => h.outer_gate_apart hi hm hw hid hhost⟩
  case full => exact fun _ _ _ _ _ _ _ _ => trivial
  case others =>
    intro i m hi hm hw id hid hplaced
    obtain rfl : i = u.index := not_not.1 hi
    obtain rfl := Option.some.inj (hm.symm.trans u.host_eq)
    exact hplaced.2 hid
  case strangers =>
    intro j m' hm' hw
    obtain ⟨i, hi, hm, rfl⟩ | ⟨j, n, hn, rfl, rfl⟩ := u.flat_cases hm'
    · exact .inl ⟨i, m', hi, hm, rfl⟩
    · refine .inr fun id hid hmem => ?_
      obtain ⟨a, -, rfl⟩ := (mem_renumber_pins n).1 hmem
      exact hid.2 (mem_joints_outer (h.joined_of_place_lt hid.1))

theorem Fits.secluded_outside : Secluded u.outside true c₀ u.flat := by
  constructor
  case injective => exact fun a b _ _ he => he
  case pins => exact fun i m _ hm _ id hid => h.outer_pin_lt hm hid
  case full =>
    intro i m _ _ _ hwires
    cases hwires
  case others =>
    intro i m hi hm hw
    obtain rfl : i = u.index := not_not.1 hi
    obtain rfl := Option.some.inj (hm.symm.trans u.host_eq)
    rw [u.host_isWire] at hw
    cases hw
  case strangers =>
    intro j m' hm' hw
    obtain ⟨i, hi, hm, rfl⟩ | ⟨j, n, hn, rfl, rfl⟩ := u.flat_cases hm'
    · exact .inl ⟨i, m', hi, hm, rfl⟩
    · refine .inr fun id hid hmem => ?_
      obtain ⟨a, ha, rfl⟩ := (mem_renumber_pins n).1 hmem
      have hle := h.size_le_place (h.wire_free hn hw ha)
      have hlt : u.place a < c₀.connections.size := hid
      omega

theorem Fits.secluded_inside : Secluded u.inside false u.inner u.flat := by
  constructor
  case injective => exact fun a b ha _ he => h.place_injective ha he
  case pins => exact fun j n _ hn _ id hid => h.inner_pin_lt hn hid
  case full => exact fun _ _ _ _ _ _ _ _ => trivial
  case others => exact fun j n hno => absurd trivial hno
  case strangers =>
    intro i m' hm' hw
    obtain ⟨i, hi, hm, rfl⟩ | ⟨j, n, hn, rfl, rfl⟩ := u.flat_cases hm'
    · refine .inr fun id hid hmem => ?_
      have hjoined := h.joined_of_place_lt (h.outer_pin_lt hm hmem)
      exact h.outer_gate_apart hi hm hw hmem (mem_joints_outer hjoined)
    · exact .inl ⟨j, n, trivial, hn, rfl⟩

theorem Fits.secluded_insideWires : Secluded u.insideWires true u.inner u.flat := by
  constructor
  case injective => exact fun a b ha _ he => h.place_injective (Joints.mem_free.1 ha).1 he
  case pins => exact fun j n _ hn hw id hid => h.wire_free hn hw hid
  case full =>
    intro i m _ _ _ hwires
    cases hwires
  case others => exact fun j n hno => absurd trivial hno
  case strangers =>
    intro i m' hm' hw
    obtain ⟨i, hi, hm, rfl⟩ | ⟨j, n, hn, rfl, rfl⟩ := u.flat_cases hm'
    · refine .inr fun id hid hmem => ?_
      have hle := h.size_le_place hid
      have hlt : u.place id < c₀.connections.size := h.outer_pin_lt hm hmem
      omega
    · exact .inl ⟨j, n, trivial, hn, rfl⟩

end Secluded

/-- An update of the component is a tick of the inner circuit as it is fed. -/
theorem update_hostWith (inner : Circuit) (level : Bool) (t : Nat) (bus : Bus) :
    (u.hostWith inner level).update (.all t) bus =
      match (u.fed inner bus).tick (.all t) with
      | (inner', some failure) => ⟨u.hostWith inner' level, bus, some failure⟩
      | (inner', none) =>
        ⟨u.hostWith inner' ((u.pins.results u.host.outputs inner'.connections).any (·.2)),
          Bus.driveAll bus (u.pins.results u.host.outputs inner'.connections), none⟩ := by
  obtain ⟨name, components, connections, ticks⟩ := inner
  simp only [hostWith, Component.update, Times.inside_all, fed, tick]
  generalize completeTick (.all t) _ _ = ticked
  obtain ⟨inner', failure⟩ := ticked
  cases failure <;> rfl

/-- Between ticks, a circuit with `inner` as the inner one is like a flat circuit. The inner circuit is
looked at as it will be fed, since nothing is fed to the flat one. -/
structure Inlines (inner c f : Circuit) : Prop where
  shape : c.shape = c₀.shape
  layout : c.layout = c₀.layout
  flat_shape : f.shape = u.flat.shape
  flat_layout : f.layout = u.flat.layout
  inner_shape : inner.shape = u.inner.shape
  ticks : f.ticks = c.ticks
  host : ∃ level, c.components[u.index]? = some (u.hostWith inner level)
  outer : Follows u.outside c f
  inner : Follows u.inside (u.fed inner c.connections) f

variable {u} {inner c f g c₁ f₁ g₁ c₂ f₂ g₂ : Circuit} {t i j id o : Nat}

theorem host_fails_iff (ha : ∀ wires, (u.fed inner c.connections).Apart
      ((u.fed inner c.connections).numbers wires)) (level : Bool) (t : Nat) :
    ((u.hostWith inner level).update (.all t) c.connections).failure.isSome = true ↔
      (u.fed inner c.connections).Fails (.all t) ((u.fed inner c.connections).numbers false) := by
  rw [update_hostWith]
  by_cases hfails : (u.fed inner c.connections).Fails (.all t)
    ((u.fed inner c.connections).numbers false)
  case pos =>
    obtain ⟨g, failure, hg⟩ := tick_of_fails ha hfails
    rw [hg]
    exact iff_of_true rfl hfails
  case neg =>
    obtain ⟨g, hg, -⟩ := tick_of_not_fails ha hfails
    rw [hg]
    exact iff_of_false Bool.false_ne_true hfails

theorem Inlines.outsideGates (hI : u.Inlines inner c f) : Follows u.outsideGates c f :=
  ⟨hI.outer.component, fun id hid => (hI.outer.connection id hid.1).imp fun _ => hid.2⟩

theorem fed_entry (h : u.Fits) (hoi : (o, i) ∈ u.pins.entries u.host) (g : Circuit) (outer : Bus) :
    (u.fed g outer).connections[i]? = (g.connections[i]?).map (·.drive (Bus.level outer o)) := by
  have hsub : ((u.pins.entries u.host).map (·.2)).Sublist (u.joints.map (·.2)) :=
    (List.sublist_append_left _ _).map _
  have hn := h.joints_inner_nodup.sublist hsub
  show (u.pins.feed u.host.inputs u.host.clock outer g.connections)[i]? = _
  rw [Pins.feed_eq, Bus.getElem?_driveAll]
  congr 1
  funext k
  refine Connection.receive_of_mem k ?_ (List.mem_map.2 ⟨_, hoi, rfl⟩)
  rwa [List.map_map]

theorem fed_other (hno : i ∉ (u.pins.entries u.host).map (·.2)) (g : Circuit) (outer : Bus) :
    (u.fed g outer).connections[i]? = g.connections[i]? := by
  show (u.pins.feed u.host.inputs u.host.clock outer g.connections)[i]? = _
  rw [Pins.feed_eq]
  apply Component.driveAll_frame
  rwa [List.map_map]

section Inlines

variable (hI : u.Inlines inner c f)

include hI

theorem Inlines.size_eq : c.connections.size = c₀.connections.size := by
  have hsize : c.layout.2.size = c₀.layout.2.size := by rw [hI.layout]
  simpa only [Circuit.layout, Array.size_map] using hsize

theorem Inlines.connection (hid : id < c₀.connections.size) :
    Connection.Tracks (id ∉ u.host.pins) (c.connections[id]?) (f.connections[id]?) :=
  hI.outer.connection id hid

theorem Inlines.fed_apart (h : u.Fits) (wires : Bool) :
    (u.fed inner c.connections).Apart ((u.fed inner c.connections).numbers wires) :=
  apart_of_shape (d := u.fed inner c.connections) h.inner.apart hI.inner_shape wires

/-- A component of the flat circuit stands outside, or inside. -/
theorem Inlines.flat_cases {m' : Component} (hm' : f.components[j]? = some m') :
    (∃ i m, i ≠ u.index ∧ c.components[i]? = some m ∧ u.shift i = j) ∨
      ∃ i n, (u.fed inner c.connections).components[i]? = some n ∧ u.shiftInner i = j := by
  obtain ⟨n', hn', -⟩ := exists_of_shape hI.flat_shape hm'
  obtain ⟨i, hi, hm, he⟩ | ⟨i, n, hn, he, -⟩ := u.flat_cases hn'
  · obtain ⟨m, hm, -⟩ := exists_of_shape hI.shape.symm hm
    exact .inl ⟨i, m, hi, hm, he⟩
  · obtain ⟨n, hn, -⟩ := exists_of_shape hI.inner_shape.symm hn
    exact .inr ⟨i, n, hn, he⟩

/-- The nested circuit fails in a tick exactly if the flat one does. -/
theorem Inlines.fails_iff (h : u.Fits) (t : Nat) :
    c.Fails (.all t) (c.numbers false) ↔ f.Fails (.all t) (f.numbers false) := by
  have ho := h.secluded_outsideGates.of_shape hI.shape hI.flat_shape
  have hi := h.secluded_inside.of_shape (d := u.fed inner c.connections) hI.inner_shape hI.flat_shape
  obtain ⟨level, hhost⟩ := hI.host
  have hfed := host_fails_iff (hI.fed_apart h) level t
  constructor
  · intro hfails
    obtain ⟨i, hmem, m, hm, hfail⟩ := hfails
    by_cases hindex : i = u.index
    · subst hindex
      obtain rfl := Option.some.inj (hm.symm.trans hhost)
      obtain ⟨j, hj, n, hn, hfail⟩ := hfed.1 hfail
      exact hI.inner.fails hi trivial hn (isWire_of_mem_numbers hj hn) hfail
    · exact hI.outsideGates.fails ho hindex hm (isWire_of_mem_numbers hmem hm) hfail
  · intro hfails
    obtain ⟨j, hmem, m', hm', hfail⟩ := hfails
    have hw := isWire_of_mem_numbers hmem hm'
    obtain ⟨i, m, hindex, hm, rfl⟩ | ⟨i, n, hn, rfl⟩ := hI.flat_cases hm'
    · exact hI.outsideGates.fails_of_copy ho hindex hm hm' hw hfail
    · have hfails := hI.inner.fails_of_copy hi trivial hn hm' hw hfail
      exact ⟨u.index, mem_numbers.2 ⟨_, hhost, rfl⟩, _, hhost, hfed.2 hfails⟩

end Inlines

/-- The two circuits in the middle of a tick. The inner one has been through both halves already: `g₁`
is what its gates have left, `g₂` what its wires have. -/
structure Halfway (u : c₀.Nesting) (t : Nat) (inner c f g₁ g₂ c₁ f₁ : Circuit) : Prop where
  fits : u.Fits
  before : u.Inlines inner c f
  gates : Simultaneous (.all t) (c.numbers false) c c₁
  flat_gates : Simultaneous (.all t) (f.numbers false) f f₁
  inner_gates : Simultaneous (.all t) ((u.fed inner c.connections).numbers false)
    (u.fed inner c.connections) g₁
  inner_wires : Simultaneous (.all t) (g₁.numbers true) g₁ g₂
  ticked : (u.fed inner c.connections).tick (.all t) = ({ g₂ with ticks := g₂.ticks + 1 }, none)

namespace Halfway

variable (hH : u.Halfway t inner c f g₁ g₂ c₁ f₁)

include hH

/-- The gates inside do what their copies in the flat circuit do. -/
theorem follows_inner : Follows u.inside g₁ f₁ :=
  hH.before.inner.half (hH.fits.secluded_inside.of_shape (d := u.fed inner c.connections)
    hH.before.inner_shape hH.before.flat_shape) hH.inner_gates hH.flat_gates

theorem inner_shape : g₁.shape = u.inner.shape := hH.inner_gates.shape.trans hH.before.inner_shape

theorem flat_shape : f₁.shape = u.flat.shape := hH.flat_gates.shape.trans hH.before.flat_shape

/-- The wires inside do not change what is joined. -/
theorem joint_kept (hoi : (o, i) ∈ u.joints) : g₂.connections[i]? = g₁.connections[i]? := by
  refine hH.inner_wires.wires_unwritten fun j n hn hwire hout => ?_
  obtain ⟨n₀, hn₀, hs⟩ := exists_of_shape hH.inner_shape hn
  rw [Component.isWire_of_shape hs] at hwire
  have hpin : i ∈ n₀.pins := Component.pins_of_shape hs ▸ Component.mem_pins_of_outputs hout
  exact (Joints.mem_free.1 (hH.fits.wire_free hn₀ hwire hpin)).2 (List.mem_map_of_mem (f := (·.2)) hoi)

/-- A pin of the component shows what the inner circuit has written to it, if anything. -/
theorem host_pin (hid : id ∈ u.host.pins) : c₁.connections[id]? =
    (Bus.driveAll c.connections (u.pins.results u.host.outputs g₂.connections))[id]? := by
  obtain ⟨level, hhost⟩ := hH.before.host
  have hmem : u.index ∈ c.numbers false := mem_numbers.2 ⟨_, hhost, rfl⟩
  rw [hH.gates.touched u.index hmem _ hhost id hid, update_hostWith, hH.ticked]

/-- What the inner circuit hands out is what its gates have written. -/
theorem exit_level (hoi : (o, i) ∈ u.pins.exits u.host) :
    (c₁.connections[o]?).map (·.active) = (f₁.connections[o]?).map (·.active) := by
  have hjoint : (o, i) ∈ u.joints := List.mem_append_right _ hoi
  have hpin := mem_joints_outer hjoint
  have hlt := hH.fits.host_pin_lt hpin
  have hi : i < u.inner.connections.size := by
    have hmem := (List.of_mem_zip hoi).2
    rw [hH.fits.pins_eq] at hmem
    exact u.inner.pins_within.lt_size i (.inr (.inl hmem))
  have htracks := hH.follows_inner.connection i hi
  rw [show u.inside.connection i = o from hH.fits.place_joined hjoint] at htracks
  rw [← hH.joint_kept hjoint] at htracks
  obtain ⟨k, hk⟩ : ∃ k, c.connections[o]? = some k :=
    ⟨_, Array.getElem?_eq_getElem (hH.before.size_eq ▸ hlt)⟩
  obtain ⟨k', hk'⟩ : ∃ k', g₂.connections[i]? = some k' := by
    rw [← Option.isSome_iff_exists, htracks.isSome_eq, hH.flat_gates.isSome_eq,
      ← (hH.before.connection hlt).isSome_eq, hk]
    rfl
  have hn : ((u.pins.exits u.host).map (·.1)).Nodup :=
    hH.fits.joints_outer_nodup.sublist ((List.sublist_append_right _ _).map _)
  have hreceive : k.receive (u.pins.results u.host.outputs g₂.connections) o =
      k.drive (Bus.level g₂.connections i) := by
    rw [Pins.results_eq]
    refine Connection.receive_of_mem k ?_ (List.mem_map.2 ⟨_, hoi, rfl⟩)
    rwa [List.map_map]
  rw [← htracks.active, hH.host_pin hpin, Bus.getElem?_driveAll, hk, Option.map_some, hreceive,
    Option.map_some, Connection.active_drive, Bus.level, hk']
  rfl

/-- The other pins of the component keep their levels while the gates are updated. -/
theorem other_level (hid : id ∈ u.host.pins) (hno : id ∉ (u.pins.exits u.host).map (·.1)) :
    (c₁.connections[id]?).map (·.active) = (f₁.connections[id]?).map (·.active) := by
  have hlt := hH.fits.host_pin_lt hid
  have hflat : (f₁.connections[id]?).map (·.active) = (f.connections[id]?).map (·.active) := by
    refine hH.flat_gates.unwritten fun j hj m hm hout => ?_
    obtain ⟨m', hm', hs⟩ := exists_of_shape hH.before.flat_shape hm
    have hw := (Component.isWire_of_shape hs).symm.trans (isWire_of_mem_numbers hj hm)
    have hout' : id ∈ m'.outputs := Component.outputs_of_shape hs ▸ hout
    obtain ⟨i, hi, hm', -⟩ | ⟨i, n, hn, -, rfl⟩ := u.flat_cases hm'
    · exact hH.fits.outer_gate_apart hi hm' hw (Component.mem_pins_of_outputs hout') hid
    · obtain ⟨a, ha, rfl⟩ := List.mem_map.1 hout'
      obtain hentry | hexit := List.mem_append.1 (hH.fits.joined_of_place_lt hlt)
      · exact hH.fits.entry_unwritten hentry hn ha
      · exact hno (List.mem_map_of_mem (f := (·.1)) hexit)
  have hkept : c₁.connections[id]? = c.connections[id]? := by
    rw [hH.host_pin hid, Pins.results_eq]
    apply Component.driveAll_frame
    rwa [List.map_map]
  rw [hkept, hflat]
  exact (hH.before.connection hlt).active

/-- After the gates, the two circuits are alike outside. -/
theorem follows_outer : Follows u.outside c₁ f₁ := by
  have hgates := hH.before.outsideGates.half
    (hH.fits.secluded_outsideGates.of_shape hH.before.shape hH.before.flat_shape) hH.gates hH.flat_gates
  refine ⟨hgates.component, fun id hid => ?_⟩
  by_cases hhost : id ∈ u.host.pins
  · refine ⟨?_, fun hfull => absurd hhost hfull⟩
    by_cases hexit : id ∈ (u.pins.exits u.host).map (·.1)
    · obtain ⟨⟨o, i⟩, hoi, rfl⟩ := List.mem_map.1 hexit
      exact hH.exit_level hoi
    · exact hH.other_level hhost hexit
  · exact (hgates.connection id ⟨hid, hhost⟩).imp fun _ => trivial

theorem outer_wires (hc : Simultaneous (.all t) (c₁.numbers true) c₁ c₂)
    (hf : Simultaneous (.all t) (f₁.numbers true) f₁ f₂) : Follows u.outside c₂ f₂ :=
  hH.follows_outer.half (hH.fits.secluded_outside.of_shape (hH.gates.shape.trans hH.before.shape)
    hH.flat_shape) hc hf

theorem free_wires (hf : Simultaneous (.all t) (f₁.numbers true) f₁ f₂) :
    Follows u.insideWires g₂ f₂ := by
  have hfree : Follows u.insideWires g₁ f₁ :=
    ⟨hH.follows_inner.component, fun id hid => hH.follows_inner.connection id (Joints.mem_free.1 hid).1⟩
  exact hfree.half (hH.fits.secluded_insideWires.of_shape hH.inner_shape hH.flat_shape)
    hH.inner_wires hf

/-- Wires write no exit. -/
theorem exit_kept (hf : Simultaneous (.all t) (f₁.numbers true) f₁ f₂)
    (hoi : (o, i) ∈ u.pins.exits u.host) : f₂.connections[o]? = f₁.connections[o]? := by
  have hlt := hH.fits.host_pin_lt (mem_joints_outer (List.mem_append_right _ hoi))
  refine hf.wires_unwritten fun j m hm hw hout => ?_
  obtain ⟨m', hm', hs⟩ := exists_of_shape hH.flat_shape hm
  rw [Component.isWire_of_shape hs] at hw
  have hout' : o ∈ m'.outputs := Component.outputs_of_shape hs ▸ hout
  obtain ⟨i, hi, hm', -⟩ | ⟨i, n, hn, -, rfl⟩ := u.flat_cases hm'
  · exact hi (hH.fits.outer.writer_unique hm' u.host_eq hout' (mem_exits_outer hoi))
  · obtain ⟨a, ha, rfl⟩ := List.mem_map.1 hout'
    have hfree := hH.fits.wire_free hn hw (Component.mem_pins_of_outputs ha)
    exact absurd hlt (Nat.not_lt.2 (hH.fits.size_le_place hfree))

/-- After the wires, the two circuits are alike inside, as the inner one is fed next. -/
theorem inner_wires_fed (hc : Simultaneous (.all t) (c₁.numbers true) c₁ c₂)
    (hf : Simultaneous (.all t) (f₁.numbers true) f₁ f₂) (ticks : Nat) : Follows u.inside
    (u.fed { g₂ with ticks } c₂.connections) f₂ := by
  have hfree := hH.free_wires hf
  have houter := hH.outer_wires hc hf
  refine ⟨hfree.component, fun i hi => ?_⟩
  obtain ⟨o, hoi, ho⟩ | ⟨hmem, -⟩ := hH.fits.place_cases hi
  · have htracks := hH.follows_inner.connection i hi
    rw [show u.inside.connection i = o from ho, ← hH.joint_kept hoi] at htracks
    rw [show u.inside.connection i = o from ho]
    obtain hentry | hexit := List.mem_append.1 hoi
    · have hlevel : Bus.level c₂.connections o = Bus.level f₂.connections o :=
        Bus.level_of_tracks (houter.connection o (hH.fits.host_pin_lt (mem_joints_outer hoi)))
      rw [fed_entry hH.fits hentry, hf.wires_drive o, hlevel]
      exact htracks.drive _
    · have hno : i ∉ (u.pins.entries u.host).map (·.2) := by
        intro hentry
        have hn := hH.fits.joints_inner_nodup
        rw [joints, Pins.joints, List.map_append, List.nodup_append] at hn
        exact hn.2.2 i hentry i (List.mem_map_of_mem (f := (·.2)) hexit) rfl
      rw [fed_other hno, hH.exit_kept hf hexit]
      exact htracks
  · have hno : i ∉ (u.pins.entries u.host).map (·.2) := by
      intro hentry
      refine (Joints.mem_free.1 hmem).2 ?_
      rw [joints, Pins.joints, List.map_append]
      exact List.mem_append_left _ hentry
    rw [fed_other hno]
    exact hfree.connection i hmem

/-- The component is left with the inner circuit as its tick has left that. -/
theorem host_wires (hc : Simultaneous (.all t) (c₁.numbers true) c₁ c₂) : ∃ level,
    c₂.components[u.index]? = some (u.hostWith { g₂ with ticks := g₂.ticks + 1 } level) := by
  obtain ⟨level, hhost⟩ := hH.before.host
  have hgate : u.index ∈ c.numbers false := mem_numbers.2 ⟨_, hhost, rfl⟩
  have hhost₁ := hH.gates.components u.index
  rw [hhost, Option.map_some, if_pos hgate, update_hostWith, hH.ticked] at hhost₁
  have hwire : u.index ∉ c₁.numbers true := by
    intro hmem
    have hw := isWire_of_mem_numbers hmem hhost₁
    cases hw
  have hhost₂ := hc.components u.index
  rw [hhost₁, Option.map_some, if_neg hwire] at hhost₂
  exact ⟨_, hhost₂⟩

end Halfway

/-- One tick keeps the two circuits alike, or fails in both. -/
theorem Inlines.tick (h : u.Fits) (hI : u.Inlines inner c f) (t : Nat) :
    (∃ g d e, c.tick (.all t) = (d, none) ∧ f.tick (.all t) = (e, none) ∧ u.Inlines g d e) ∨
      ((∃ d failure, c.tick (.all t) = (d, some failure)) ∧
        ∃ e failure, f.tick (.all t) = (e, some failure)) := by
  have hiff := hI.fails_iff h t
  have ha := apart_of_shape h.outer.apart hI.shape
  have ha' := apart_of_shape h.flat_apart hI.flat_shape
  by_cases hfails : c.Fails (.all t) (c.numbers false)
  case pos => exact .inr ⟨tick_of_fails ha hfails, tick_of_fails ha' (hiff.1 hfails)⟩
  case neg =>
    obtain ⟨level, hhost⟩ := hI.host
    have hok : ¬ (u.fed inner c.connections).Fails (.all t)
        ((u.fed inner c.connections).numbers false) := fun hinner =>
      hfails ⟨u.index, mem_numbers.2 ⟨_, hhost, rfl⟩, _, hhost,
        (host_fails_iff (hI.fed_apart h) level t).2 hinner⟩
    obtain ⟨d, hd, hdt⟩ := tick_of_not_fails ha hfails
    obtain ⟨e, he, het⟩ := tick_of_not_fails ha' (mt hiff.2 hfails)
    obtain ⟨g, hg, hgt⟩ := tick_of_not_fails (hI.fed_apart h) hok
    have hlayout : d.layout = c.layout := by rw [← tick_layout (.all t) c, hd]
    have hflat : e.layout = f.layout := by rw [← tick_layout (.all t) f, he]
    obtain ⟨c₁, c₂, hc₁, hc₂, rfl⟩ := hdt.halves
    obtain ⟨f₁, f₂, hf₁, hf₂, rfl⟩ := het.halves
    obtain ⟨g₁, g₂, hg₁, hg₂, rfl⟩ := hgt.halves
    have hH : u.Halfway t inner c f g₁ g₂ c₁ f₁ := ⟨h, hI, hc₁, hf₁, hg₁, hg₂, hg⟩
    refine .inl ⟨{ g₂ with ticks := g₂.ticks + 1 }, _, _, hd, he, ?_⟩
    constructor
    case shape => exact (hc₂.shape.trans hc₁.shape).trans hI.shape
    case layout => exact hlayout.trans hI.layout
    case flat_shape => exact (hf₂.shape.trans hf₁.shape).trans hI.flat_shape
    case flat_layout => exact hflat.trans hI.flat_layout
    case inner_shape => exact hg₂.shape.trans hH.inner_shape
    case ticks =>
      show f₂.ticks + 1 = c₂.ticks + 1
      rw [hf₂.ticks, hf₁.ticks, hc₂.ticks, hc₁.ticks, hI.ticks]
    case host =>
      obtain ⟨level, hlevel⟩ := hH.host_wires hc₂
      exact ⟨level, hlevel⟩
    case outer =>
      have houter := hH.outer_wires hc₂ hf₂
      exact ⟨houter.component, houter.connection⟩
    case inner =>
      have hinner := hH.inner_wires_fed hc₂ hf₂ (g₂.ticks + 1)
      exact ⟨hinner.component, hinner.connection⟩

end Nesting

end Circuit

end GridCircuit
