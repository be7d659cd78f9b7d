import GridCircuit.Proofs.Reference
import GridCircuit.Proofs.Wiring

/-!
# The pins of a component are the connectors of its class

When every class of a drawing is made, components correspond to classes and the pin lists of a
component list the connectors that lie on its class, in row-major order. These lemmas turn the numbers
that the tables use into cells; what a component reads can then be said about the drawing.
-/

namespace GridCircuit

/-- The element found is the one at the number found. -/
theorem bind_findIdx?_getElem? {α : Type} (P : α → Bool) :
    ∀ xs : List α, ((xs.findIdx? P).bind fun i => xs[i]?) = xs.find? P := by
  intro xs
  induction xs with
  | nil => rfl
  | cons x xs ih =>
    rw [List.findIdx?_cons, List.find?_cons]
    cases hP : P x with
    | true => rfl
    | false =>
      rw [← ih]
      cases xs.findIdx? P <;> rfl

theorem findIdx?_eq_some_iff_of_nodup {α : Type} [DecidableEq α] {xs : List α} (hn : xs.Nodup)
    {x : α} {i : Nat} : (xs.findIdx? fun y => y = x) = some i ↔ xs[i]? = some x := by
  constructor
  · intro h
    obtain ⟨hlt, hx, -⟩ := List.findIdx?_eq_some_iff_getElem.1 h
    rw [List.getElem?_eq_getElem hlt, of_decide_eq_true hx]
  · intro h
    obtain ⟨hlt, rfl⟩ := List.getElem?_eq_some_iff.1 h
    refine List.findIdx?_eq_some_iff_getElem.2 ⟨hlt, by simp, fun j hj hjx => ?_⟩
    have hji := (hn.getElem_inj_iff).1 (of_decide_eq_true hjx)
    omega

namespace Grid

/-- Every class of a drawing can be made. -/
def AllMade (g : Grid) (make : Code → Making) : Prop :=
  ∀ p ∈ g.positions, (g.get p).groups = true → (make (g.get p)).isOk = true

/-- The class that writes the connection on a cell. -/
noncomputable def source? (g : Grid) (p : Pos) : Option Pos :=
  match g.get p with
  | .output => g.otherSide? p
  | .input | .clockInput => g.wireSide? p
  | _ => none

variable {g : Grid} {make : Code → Making} {name : String} {p q h : Pos} {i id : Nat}

theorem builtHeads_eq (ha : g.AllMade make) : g.builtHeads make = g.heads := by
  apply List.filter_eq_self.2
  intro p hp
  obtain ⟨hp₁, hp₂, -⟩ := mem_heads.1 hp
  exact ha p hp₁ hp₂

theorem side?_eq_some {accept : Code → Bool} (hs : g.side? accept p = some h) :
    h ∈ g.heads ∧ accept (g.get h) = true := by
  obtain ⟨q, hq, rfl⟩ := Option.map_eq_some_iff.1 hs
  obtain ⟨hpos, hg, hc⟩ : q ∈ g.positions ∧ (g.get q).groups = true ∧ accept (g.get q) = true := by
    simpa using List.find?_some hq
  exact ⟨root_mem_heads hpos hg, by rw [get_root hpos]; exact hc⟩

theorem otherSide?_ne_wire (hs : g.otherSide? p = some h) : g.get h ≠ .wire := by
  have hc : (!(g.get h).isWire) = true := (side?_eq_some hs).2
  simpa [Code.isWire] using hc

theorem wireSide?_wire (hs : g.wireSide? p = some h) : g.get h = .wire := by
  simpa [Code.isWire] using (side?_eq_some hs).2

theorem source?_mem_heads (hs : g.source? p = some h) : h ∈ g.heads := by
  unfold source? at hs
  split at hs
  · exact (side?_eq_some hs).1
  · exact (side?_eq_some hs).1
  · exact (side?_eq_some hs).1
  · cases hs

/-- The component next to a cell is the one for the class next to it. -/
theorem neighborIndex?_eq_some (hf : Faithful make) (ha : g.AllMade make) {accept : Code → Bool}
    (hi : g.heads[i]? = some h) :
    g.neighborIndex? make p accept = some i ↔ g.side? accept p = some h := by
  have hF : ∀ q, (if accept (g.get q) then g.indexOf? make q else none) =
      if decide (q ∈ g.positions ∧ (g.get q).groups = true ∧ accept (g.get q) = true) then
        g.indexOf? make q else none := by
    intro q
    cases hq : g.indexOf? make q with
    | none => simp
    | some j =>
      obtain ⟨-, hpos, hg⟩ := indexOf?_eq_some hq
      simp [hpos, hg]
  have hG : ∀ q, decide (q ∈ g.positions ∧ (g.get q).groups = true ∧ accept (g.get q) = true) = true →
      (g.indexOf? make q).isSome = true := by
    intro q hq
    obtain ⟨hpos, hg, -⟩ := of_decide_eq_true hq
    exact indexOf?_isSome hf hpos (ha q hpos hg)
  rw [neighborIndex?, findSome?_eq_find?_bind hF hG, side?, Option.bind_eq_some_iff,
    Option.map_eq_some_iff]
  refine exists_congr fun q => and_congr_right fun _ => ?_
  rw [indexOf?, builtHeads_eq ha, findIdx?_eq_some_iff_of_nodup g.heads_nodup, hi,
    Option.some.injEq, eq_comm]

/-- The sides of a connector, as classes and as components. -/
theorem siteOf_side_iff (hf : Faithful make) (ha : g.AllMade make) (hi : g.heads[i]? = some h)
    (hc : g.get p ≠ .cross) :
    ((g.siteOf make p).wire = some i ↔ g.wireSide? p = some h) ∧
      ((g.siteOf make p).other = some i ↔ g.otherSide? p = some h) := by
  have hw : (g.siteOf make p).wire = g.neighborIndex? make p Code.isWire := by
    rw [siteOf, if_neg hc]
  have ho : (g.siteOf make p).other = g.neighborIndex? make p (!·.isWire) := by
    rw [siteOf, if_neg hc]
  rw [hw, ho]
  exact ⟨neighborIndex?_eq_some hf ha hi, neighborIndex?_eq_some hf ha hi⟩

theorem junctionKind_iff (hp : p ∈ g.junctions) :
    (g.junctionKind p = .input ↔ g.get p = .input) ∧
      (g.junctionKind p = .output ↔ g.get p = .output) ∧
      (g.junctionKind p = .clockInput ↔ g.get p = .clockInput) ∧
      (g.junctionKind p = .cross ↔ g.get p = .cross) := by
  have hk := ofCode?_junction hp
  cases hc : g.get p <;> simp_all [junctionKind, ConnectionKind.ofCode?]

theorem driver_iff (hf : Faithful make) (ha : g.AllMade make) (hi : g.heads[i]? = some h)
    (hp : p ∈ g.junctions) : (g.siteOf make p).driver = some i ↔ g.source? p = some h := by
  obtain ⟨hin, hout, hclock, hcross⟩ := junctionKind_iff hp
  rw [Site.driver, siteOf_kind, source?]
  cases hk : g.junctionKind p
  case input =>
    have hc := hin.1 hk
    rw [hc]
    exact (siteOf_side_iff hf ha hi (by simp [hc])).1
  case output =>
    have hc := hout.1 hk
    rw [hc]
    exact (siteOf_side_iff hf ha hi (by simp [hc])).2
  case clockInput =>
    have hc := hclock.1 hk
    rw [hc]
    exact (siteOf_side_iff hf ha hi (by simp [hc])).1
  case cross =>
    rw [hcross.1 hk]
    simp

/-- The connectors that a class reads: its inputs, or for a wire what leads to it. -/
noncomputable def readsOf (g : Grid) (h : Pos) : List Pos :=
  if g.get h = .wire then g.outputsTo h else g.inputsOf h

/-- Whether a class reads a connector. -/
noncomputable def isReadBy (g : Grid) (h p : Pos) : Bool :=
  decide (g.get p = .output ∧ g.wireSide? p = some h) ||
    decide (g.get p = .input ∧ g.otherSide? p = some h)

theorem filter_junctions {P : Pos → Bool} (hP : ∀ p, P p = true → (g.get p).isConnector = true) :
    g.junctions.filter P = g.positions.filter P := by
  have hcross : (g.positions.filter fun p => g.get p = .cross).filter P = [] := by
    apply List.filter_eq_nil_iff.2
    intro p hp hPp
    have hc : g.get p = .cross := by simpa using (List.mem_filter.1 hp).2
    have := hP p hPp
    rw [hc] at this
    cases this
  rw [junctions, List.filter_append, hcross, List.nil_append, List.filter_filter]
  apply List.filter_congr
  intro p _
  cases hPp : P p with
  | false => rfl
  | true => simp [hP p hPp]

theorem filter_isReadBy (h : Pos) : g.positions.filter (g.isReadBy h) = g.readsOf h := by
  unfold readsOf
  split
  case isTrue hc =>
    apply List.filter_congr
    intro p _
    have hno : ¬(g.get p = .input ∧ g.otherSide? p = some h) := fun hp => otherSide?_ne_wire hp.2 hc
    simp [isReadBy, hno]
  case isFalse hc =>
    apply List.filter_congr
    intro p _
    have hno : ¬(g.get p = .output ∧ g.wireSide? p = some h) := fun hp => hc (wireSide?_wire hp.2)
    simp [isReadBy, hno]

theorem sink_iff (hf : Faithful make) (ha : g.AllMade make) (hi : g.heads[i]? = some h)
    (hp : p ∈ g.junctions) (sites : List Site) (id : Nat) :
    ((g.siteOf make p).sink sites id = some i ∧ g.junctionKind p ≠ .clockInput) ↔
      g.isReadBy h p = true := by
  obtain ⟨hin, hout, hclock, hcross⟩ := junctionKind_iff hp
  rw [Site.sink, siteOf_kind]
  cases hk : g.junctionKind p
  case input =>
    have hc := hin.1 hk
    simp [isReadBy, hc, (siteOf_side_iff hf ha hi (p := p) (by simp [hc])).2]
  case output =>
    have hc := hout.1 hk
    simp [isReadBy, hc, (siteOf_side_iff hf ha hi (p := p) (by simp [hc])).1]
  case clockInput => simp [isReadBy, hclock.1 hk]
  case cross => simp [isReadBy, hcross.1 hk]

/-- The component of a class, as the builder makes it. -/
noncomputable def componentOf (g : Grid) (name : String) (make : Code → Making) (i : Nat) (h : Pos) :
    Component :=
  (g.partOf make h).toComponent (g.circuitOf name make).connections i

theorem circuitOf_component (ha : g.AllMade make) :
    (g.circuitOf name make).components[i]? =
      (g.heads[i]?).map fun h => g.componentOf name make i h := by
  cases hi : g.heads[i]? with
  | some h => exact circuitOf_component_iff.2 ⟨h, by rw [builtHeads_eq ha, hi], rfl⟩
  | none =>
    cases hm : (g.circuitOf name make).components[i]? with
    | none => rfl
    | some m =>
      obtain ⟨h, hh, -⟩ := circuitOf_component_iff.1 hm
      rw [builtHeads_eq ha, hi] at hh
      cases hh

theorem circuitOf_connections_getElem? :
    (g.circuitOf name make).connections[id]? = (g.junctions[id]?).map fun p =>
      { pos := p, kind := g.junctionKind p, driver := (g.siteOf make p).driver
        sink := (g.siteOf make p).sink (g.junctions.map (g.siteOf make)) id } := by
  cases hp : g.junctions[id]? with
  | some p => exact circuitOf_connection_iff.2 ⟨p, hp, rfl⟩
  | none =>
    cases hk : (g.circuitOf name make).connections[id]? with
    | none => rfl
    | some k =>
      obtain ⟨p, hp', -⟩ := circuitOf_connection_iff.1 hk
      rw [hp] at hp'
      cases hp'

theorem componentOf_isWire (name : String) (hf : Faithful make) (ha : g.AllMade make)
    (hi : g.heads[i]? = some h) : (g.componentOf name make i h).isWire = (g.get h).isWire := by
  have hmem : h ∈ g.builtHeads make := builtHeads_eq ha ▸ List.mem_of_getElem? hi
  obtain ⟨inner, hmake⟩ := make_of_mem_builtHeads hmem
  show (make (g.get h)).kind.isWire = _
  rw [Bool.eq_iff_iff, hf.isWire_iff _ _ _ hmake]
  simp [Code.isWire]

/-- A component reads the connectors of its class in row-major order. -/
theorem componentOf_inputs (name : String) (hf : Faithful make) (ha : g.AllMade make)
    (hi : g.heads[i]? = some h) :
    (g.componentOf name make i h).inputs.map (fun id => g.junctions[id]?) =
      (g.readsOf h).map some := by
  have hsize : (g.circuitOf name make).connections.size = g.junctions.length := by
    simpa using congrArg List.length (circuitOf_connections g name make)
  have hany : ∀ id : Nat, (((g.circuitOf name make).connections[id]?).any fun k =>
      k.sink = some i && k.kind ≠ .clockInput) = (g.junctions[id]?).any (g.isReadBy h) := by
    intro id
    rw [circuitOf_connections_getElem?]
    cases hp : g.junctions[id]? with
    | none => rfl
    | some p =>
      have hs := sink_iff hf ha hi (List.mem_of_getElem? hp) (g.junctions.map (g.siteOf make)) id
      simp only [Option.map_some, Option.any_some]
      rw [Bool.eq_iff_iff, ← hs]
      simp
  rw [componentOf, Part.toComponent, Circuit.connectionsWhere, hsize]
  simp only [hany]
  rw [map_getElem?_filter_range, filter_junctions, filter_isReadBy]
  intro p hp
  rw [isReadBy, Bool.or_eq_true, decide_eq_true_eq, decide_eq_true_eq] at hp
  obtain ⟨hc, -⟩ | ⟨hc, -⟩ := hp <;> rw [hc] <;> rfl

theorem mem_componentOf_outputs (name : String) (hf : Faithful make) (ha : g.AllMade make)
    (hi : g.heads[i]? = some h) (hp : g.junctions[id]? = some p) :
    id ∈ (g.componentOf name make i h).outputs ↔ g.source? p = some h := by
  rw [componentOf, mem_toComponent_outputs, ← driver_iff hf ha hi (List.mem_of_getElem? hp)]
  simp [circuitOf_connections_getElem?, hp]

/-- The clock of a component is the first clock input of its class. -/
theorem componentOf_clock (name : String) (hf : Faithful make) (ha : g.AllMade make)
    (hi : g.heads[i]? = some h) :
    ((g.componentOf name make i h).clock.bind fun id => g.junctions[id]?) = g.clockOf? h := by
  have hclock : (g.componentOf name make i h).clock =
      Site.clockOf? (g.junctions.map (g.siteOf make)) i := Site.clock_eq _
  have hclocks : ∀ p ∈ g.junctions, (Site.clocks i ∘ g.siteOf make) p =
      decide (g.get p = .clockInput ∧ g.otherSide? p = some h) := by
    intro p hp
    obtain ⟨-, -, hclock, -⟩ := junctionKind_iff hp
    rw [Function.comp_apply, Site.clocks, siteOf_kind]
    by_cases hc : g.get p = .clockInput
    · simp [hclock.2 hc, hc, (siteOf_side_iff hf ha hi (p := p) (by simp [hc])).2]
    · have hk : g.junctionKind p ≠ .clockInput := fun hk => hc (hclock.1 hk)
      simp [hk, hc]
  have hfind : g.junctions.find? (fun p => g.get p = .clockInput ∧ g.otherSide? p = some h) =
      g.positions.find? fun p => g.get p = .clockInput ∧ g.otherSide? p = some h := by
    rw [← List.head?_filter, ← List.head?_filter, filter_junctions]
    intro p hp
    rw [(of_decide_eq_true hp).1]
    rfl
  rw [hclock, Site.clockOf?, List.findIdx?_map, findIdx?_congr hclocks, bind_findIdx?_getElem?, hfind,
    clockOf?]

end Grid

end GridCircuit
