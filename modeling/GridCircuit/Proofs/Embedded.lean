import GridCircuit.Proofs.Embedding
import GridCircuit.Proofs.Following
import GridCircuit.Proofs.Ports

/-!
# The circuit of a drawing inside a drawing

Where a drawing lies in another one, its circuit lies in the other circuit: components and connections
are renumbered in order, with the pins of each component in the order that they had, and nothing else
in the larger circuit touches them.
-/

namespace GridCircuit

section Numbers

/-- A list of numbers found by a condition, seen through an order-preserving renumbering. -/
theorem connectionsWhere_embedding (f : ℕ ↪o ℕ) {bus bus' : Bus} {P Q : Connection → Bool}
    (h : ∀ id : Nat, (bus'[f id]?).any Q = (bus[id]?).any P)
    (hout : ∀ j : Nat, (bus'[j]?).any Q = true → ∃ id, f id = j) :
    Circuit.connectionsWhere bus' Q = (Circuit.connectionsWhere bus P).map f := by
  have hmem : ∀ {bus : Bus} {P : Connection → Bool} {id : Nat},
      id ∈ Circuit.connectionsWhere bus P ↔ (bus[id]?).any P = true := by
    intro bus P id
    rw [Circuit.mem_connectionsWhere, Option.any_eq_true]
  refine Grid.eq_of_pairwise (R := (· < ·)) Nat.lt_irrefl (fun _ _ => Nat.lt_asymm)
    (Circuit.pairwise_connectionsWhere _ _) ?_ fun j => ?_
  · rw [List.pairwise_map]
    exact (Circuit.pairwise_connectionsWhere _ _).imp fun hlt => f.lt_iff_lt.2 hlt
  · rw [hmem, List.mem_map]
    constructor
    · intro hj
      obtain ⟨id, rfl⟩ := hout j hj
      exact ⟨id, hmem.2 (h id ▸ hj), rfl⟩
    · intro hj
      obtain ⟨id, hid, rfl⟩ := hj
      rw [h]
      exact hmem.1 hid

theorem findIdx?_eq_some_iff_any {α : Type} {xs : List α} {P : α → Bool} {i : Nat} :
    xs.findIdx? P = some i ↔ (xs[i]?).any P = true ∧ ∀ j < i, (xs[j]?).any P = false := by
  rw [List.findIdx?_eq_some_iff_getElem]
  constructor
  · intro h
    obtain ⟨hlt, hi, hj⟩ := h
    refine ⟨by simpa [hlt] using hi, fun j hji => ?_⟩
    have hjlt : j < xs.length := Nat.lt_trans hji hlt
    simpa [hjlt] using hj j hji
  · intro h
    obtain ⟨hi, hj⟩ := h
    obtain ⟨x, hx, hPx⟩ := (Option.any_eq_true _ _).1 hi
    obtain ⟨hlt, rfl⟩ := List.getElem?_eq_some_iff.1 hx
    refine ⟨hlt, hPx, fun j hji => ?_⟩
    have hjlt : j < xs.length := Nat.lt_trans hji hlt
    simpa [hjlt] using hj j hji

/-- The first place found by a condition, seen through an order-preserving renumbering. -/
theorem findIdx?_embedding {α β : Type} (f : ℕ ↪o ℕ) {xs : List α} {ys : List β} {P : α → Bool}
    {Q : β → Bool} (h : ∀ i : Nat, (ys[f i]?).any Q = (xs[i]?).any P)
    (hout : ∀ j : Nat, (ys[j]?).any Q = true → ∃ i, f i = j) :
    ys.findIdx? Q = (xs.findIdx? P).map f := by
  cases hx : xs.findIdx? P with
  | some i =>
    obtain ⟨hi, hj⟩ := findIdx?_eq_some_iff_any.1 hx
    refine findIdx?_eq_some_iff_any.2 ⟨(h i).trans hi, fun j hji => ?_⟩
    by_contra hQ
    obtain ⟨k, rfl⟩ := hout j (by simpa using hQ)
    rw [h, hj k (f.lt_iff_lt.1 hji)] at hQ
    exact hQ rfl
  | none =>
    rw [Option.map_none, List.findIdx?_eq_none_iff]
    intro y hy
    obtain ⟨j, hj⟩ := List.getElem?_of_mem hy
    by_contra hQ
    have hQ : Q y = true := by simpa using hQ
    have hany : (ys[j]?).any Q = true := by rw [hj, Option.any_some, hQ]
    obtain ⟨i, rfl⟩ := hout j hany
    have hi : (xs[i]?).any P = true := (h i).symm.trans hany
    obtain ⟨x, hx', hPx⟩ := (Option.any_eq_true _ _).1 hi
    rw [List.findIdx?_eq_none_iff.1 hx x (List.mem_of_getElem? hx')] at hPx
    cases hPx

theorem findSome?_map_congr {α β γ δ : Type} {F : α → Option β} {G : γ → Option δ} {τ : α → γ}
    {f : β → δ} : ∀ {xs : List α}, (∀ x ∈ xs, G (τ x) = (F x).map f) →
      (xs.map τ).findSome? G = (xs.findSome? F).map f := by
  intro xs
  induction xs with
  | nil => exact fun _ => rfl
  | cons x xs ih =>
    intro h
    rw [List.map_cons, List.findSome?_cons, List.findSome?_cons, h x List.mem_cons_self,
      ih fun y hy => h y (List.mem_cons_of_mem _ hy)]
    cases F x <;> rfl

end Numbers

namespace Grid

/-- The numbers that the classes and junctions of a drawing have in a larger one. -/
structure Numbering (τ : Pos → Pos) (s : Grid) (make : Code → Making) (g : Grid)
    (make' : Code → Making) where
  component : ℕ ↪o ℕ
  connection : ℕ ↪o ℕ
  heads : ∀ i : Nat, ((s.builtHeads make)[i]?).map τ = (g.builtHeads make')[component i]?
  junctions : ∀ id : Nat, (s.junctions[id]?).map τ = g.junctions[connection id]?

variable {τ : Pos → Pos} {ρ : Code → Code} {s g : Grid} {make make' : Code → Making}
  {name name' : String} {p q : Pos} {P Q : Pos} {i j id : Nat}

theorem Embeds.exists_numbering (h : Embeds τ ρ s make g make') :
    Nonempty (Numbering τ s make g make') := by
  obtain ⟨f, hf⟩ := List.sublist_iff_exists_orderEmbedding_getElem?_eq.1 h.builtHeads_sublist
  obtain ⟨f', hf'⟩ := List.sublist_iff_exists_orderEmbedding_getElem?_eq.1 h.junctions_sublist
  exact ⟨f, f', fun i => by rw [← hf, List.getElem?_map], fun id => by rw [← hf', List.getElem?_map]⟩

theorem live_of_indexOf? (hi : g.indexOf? make q = some i) : g.Live make q := by
  obtain ⟨hroot, hq, -⟩ := indexOf?_eq_some hi
  refine ⟨hq, .inr (.inr ?_)⟩
  rw [← get_root hq]
  exact (mem_builtHeads.1 (List.mem_of_getElem? hroot)).2

theorem indexOf?_iff : g.indexOf? make q = some i ↔ (g.builtHeads make)[i]? = some (g.root q) :=
  findIdx?_eq_some_iff_of_nodup (g.builtHeads_nodup make)

theorem Numbering.map_component_eq_some (n : Numbering τ s make g make')
    {o : Option Nat} :
    o.map n.component = some (n.component i) ↔ o = some i := by
  rw [Option.map_eq_some_iff]
  constructor
  · intro ho
    obtain ⟨a, ha, he⟩ := ho
    rw [ha, n.component.injective he]
  · exact fun ho => ⟨i, ho, rfl⟩

namespace Embeds

variable (h : Embeds τ ρ s make g make') (n : Numbering τ s make g make')

include h

theorem indexOf?_eq (hq : g.Live make' (τ q) → s.Live make q) :
    g.indexOf? make' (τ q) = (s.indexOf? make q).map n.component := by
  cases hi : s.indexOf? make q with
  | some i =>
    rw [Option.map_some, indexOf?_iff, ← n.heads, indexOf?_iff.1 hi, Option.map_some,
      h.root_eq (live_of_indexOf? hi)]
  | none =>
    rw [Option.map_none, ← Option.not_isSome_iff_eq_none, Option.isSome_iff_exists]
    intro hsome
    obtain ⟨j, hj⟩ := hsome
    have hlive := hq (live_of_indexOf? hj)
    have hmem := List.mem_of_getElem? (indexOf?_iff.1 hj)
    rw [h.root_eq hlive, h.mem_builtHeads_iff (live_root hlive)] at hmem
    obtain ⟨i, hi'⟩ := List.getElem?_of_mem hmem
    rw [indexOf?_iff.2 hi'] at hi
    cases hi

/-- The component beside a cell, in the larger circuit. -/
theorem neighborIndex?_eq (hp : s.Live make p) (accept : Code → Bool)
    (ha : ∀ q, s.Live make q → accept (g.get (τ q)) = accept (s.get q)) :
    g.neighborIndex? make' (τ p) accept = (s.neighborIndex? make p accept).map n.component := by
  rw [neighborIndex?, neighborIndex?, ← h.neighbors p hp]
  refine findSome?_map_congr fun q hq => ?_
  have hbeside := h.beside p hp q hq
  rw [h.indexOf?_eq n hbeside]
  by_cases hl : g.Live make' (τ q)
  · rw [ha q (hbeside hl)]
    split <;> rfl
  · have hnone : s.indexOf? make q = none := by
      cases hi : s.indexOf? make q with
      | none => rfl
      | some i => exact absurd (h.live (live_of_indexOf? hi)) hl
    rw [hnone]
    split <;> split <;> rfl

theorem siteOf_eq (hp : s.Live make p) : (g.siteOf make' (τ p)).kind = (s.siteOf make p).kind ∧
    (g.siteOf make' (τ p)).wire = (s.siteOf make p).wire.map n.component ∧
    (g.siteOf make' (τ p)).other = (s.siteOf make p).other.map n.component := by
  rw [siteOf_kind, siteOf_kind, h.junctionKind_eq hp]
  refine ⟨rfl, ?_⟩
  by_cases hc : s.get p = .cross
  · rw [siteOf, siteOf, if_pos hc, if_pos ((h.get_eq_iff hp rfl).2 hc)]
    exact ⟨rfl, rfl⟩
  · rw [siteOf, siteOf, if_neg hc, if_neg fun he => hc ((h.get_eq_iff hp rfl).1 he)]
    exact ⟨h.neighborIndex?_eq n hp Code.isWire fun q hq => h.isWire_eq hq,
      h.neighborIndex?_eq n hp (!·.isWire) fun q hq => by rw [h.isWire_eq hq]⟩

/-- A junction of the larger drawing with a renumbered component on a side lies in the smaller one. -/
theorem exists_of_side (hP : g.junctions[j]? = some P)
    (hside : (g.siteOf make' P).wire = some (n.component i) ∨
      (g.siteOf make' P).other = some (n.component i)) : ∃ id, n.connection id = j := by
  have hneighbor : ∃ accept, g.neighborIndex? make' P accept = some (n.component i) := by
    by_cases hc : g.get P = .cross
    · rw [siteOf, if_pos hc] at hside
      obtain hside | hside := hside <;> cases hside
    · rw [siteOf, if_neg hc] at hside
      exact hside.elim (fun hw => ⟨Code.isWire, hw⟩) fun ho => ⟨(!·.isWire), ho⟩
  obtain ⟨accept, hneighbor⟩ := hneighbor
  obtain ⟨Q, hQ, hF⟩ := List.exists_of_findSome?_eq_some hneighbor
  have hindex : g.indexOf? make' Q = some (n.component i) := by
    split at hF
    · exact hF
    · cases hF
  have hroot := indexOf?_iff.1 hindex
  rw [← n.heads, Option.map_eq_some_iff] at hroot
  obtain ⟨head, hhead, he⟩ := hroot
  have hhlive := live_of_builtHead (List.mem_of_getElem? hhead)
  have hQpos := (live_of_indexOf? hindex).1
  obtain ⟨q, rfl, hq, -⟩ := (h.exists_connected
    (g.connected_equivalence.symm (connected_root hQpos))).1 head hhlive he
  have hPmem := List.mem_of_getElem? hP
  obtain ⟨p, -, rfl, hp⟩ := h.exists_neighbor hq
    (Pos.neighbors_symm (mem_junctions.1 hPmem).1 hQpos hQ) (live_of_junction hPmem)
  obtain ⟨id, hid⟩ := List.getElem?_of_mem ((h.mem_junctions_iff hp).1 hPmem)
  refine ⟨id, ?_⟩
  have hid' : g.junctions[n.connection id]? = some (τ p) := by rw [← n.junctions, hid, Option.map_some]
  obtain ⟨hlt, hget⟩ := List.getElem?_eq_some_iff.1 hid'
  obtain ⟨hlt', hget'⟩ := List.getElem?_eq_some_iff.1 hP
  exact (g.junctions_nodup.getElem_inj_iff).1 (hget.trans hget'.symm)

/-- The clock that a component takes, in the larger circuit. -/
theorem clockOf?_eq (i : Nat) : Site.clockOf? (g.junctions.map (g.siteOf make')) (n.component i) =
    (Site.clockOf? (s.junctions.map (s.siteOf make)) i).map n.connection := by
  refine findIdx?_embedding n.connection (fun id => ?_) fun j hj => ?_
  · rw [List.getElem?_map, List.getElem?_map, ← n.junctions]
    cases hp : s.junctions[id]? with
    | none => rfl
    | some p =>
      obtain ⟨hkind, -, hother⟩ := h.siteOf_eq n (live_of_junction (List.mem_of_getElem? hp))
      simp only [Option.map_some, Option.any_some, Site.clocks, hkind, hother, n.map_component_eq_some]
  · obtain ⟨site, hsite, hclocks⟩ := (Option.any_eq_true _ _).1 hj
    rw [List.getElem?_map, Option.map_eq_some_iff] at hsite
    obtain ⟨P, hP, rfl⟩ := hsite
    rw [Site.clocks, Bool.and_eq_true, decide_eq_true_eq, decide_eq_true_eq] at hclocks
    exact h.exists_of_side n hP (.inr hclocks.2)

/-- The ends of a connection, in the larger circuit. -/
theorem ends_eq (hid : s.junctions[id]? = some p) :
    (g.siteOf make' (τ p)).driver = (s.siteOf make p).driver.map n.component ∧
      (g.siteOf make' (τ p)).sink (g.junctions.map (g.siteOf make')) (n.connection id) =
        ((s.siteOf make p).sink (s.junctions.map (s.siteOf make)) id).map n.component := by
  obtain ⟨hkind, hwire, hother⟩ := h.siteOf_eq n (live_of_junction (List.mem_of_getElem? hid))
  rw [Site.driver, Site.driver, Site.sink, Site.sink, hkind, hwire, hother]
  cases (s.siteOf make p).kind
  case clockInput =>
    refine ⟨rfl, ?_⟩
    cases (s.siteOf make p).other with
    | none => rfl
    | some i =>
      have hclock : Site.clockOf? (g.junctions.map (g.siteOf make')) (n.component i) =
          some (n.connection id) ↔ Site.clockOf? (s.junctions.map (s.siteOf make)) i = some id := by
        rw [h.clockOf?_eq n, Option.map_eq_some_iff]
        constructor
        · intro hc
          obtain ⟨a, ha, he⟩ := hc
          rw [ha, n.connection.injective he]
        · exact fun hc => ⟨id, hc, rfl⟩
      simp only [Option.map_some, Option.filter_some, hclock]
      split <;> rfl
  all_goals exact ⟨rfl, rfl⟩

/-- A connection of the smaller circuit, in the larger one. -/
theorem connection_eq (name name' : String) (id : Nat) :
    (g.circuitOf name' make').connections[n.connection id]? =
      ((s.circuitOf name make).connections[id]?).map fun k =>
        { k with pos := τ k.pos, driver := k.driver.map n.component, sink := k.sink.map n.component } := by
  rw [circuitOf_connections_getElem?, circuitOf_connections_getElem?, ← n.junctions]
  cases hid : s.junctions[id]? with
  | none => rfl
  | some p =>
    obtain ⟨hdriver, hsink⟩ := h.ends_eq n hid
    simp only [Option.map_some, hdriver, hsink,
      h.junctionKind_eq (live_of_junction (List.mem_of_getElem? hid))]

/-- A connection of the larger circuit that ends in a renumbered component is a renumbered one. -/
theorem exists_connection {k : Connection} (hk : (g.circuitOf name' make').connections[j]? = some k)
    (hend : k.driver = some (n.component i) ∨ k.sink = some (n.component i)) :
    ∃ id, n.connection id = j := by
  obtain ⟨P, hP, rfl⟩ := circuitOf_connection_iff.1 hk
  refine h.exists_of_side n hP (i := i) ?_
  simp only [Site.driver, Site.sink] at hend
  cases hkind : (g.siteOf make' P).kind <;> rw [hkind] at hend <;> simp only [reduceCtorEq, or_false] at hend
  case input => exact hend
  case output => exact hend.symm
  case clockInput => exact hend.imp_right fun ho => (Option.filter_eq_some_iff.1 ho).1

/-- The connections that a component reads, in the larger circuit. -/
theorem inputs_eq (name name' : String) (i : Nat) :
    (Circuit.connectionsWhere (g.circuitOf name' make').connections fun k =>
        k.sink = some (n.component i) && k.kind ≠ .clockInput) =
      (Circuit.connectionsWhere (s.circuitOf name make).connections fun k =>
        k.sink = some i && k.kind ≠ .clockInput).map n.connection := by
  refine connectionsWhere_embedding n.connection (fun id => ?_) fun j hj => ?_
  · rw [h.connection_eq n name name']
    cases (s.circuitOf name make).connections[id]? with
    | none => rfl
    | some k => simp only [Option.map_some, Option.any_some, n.map_component_eq_some]
  · obtain ⟨k, hk, hQ⟩ := (Option.any_eq_true _ _).1 hj
    simp only [Bool.and_eq_true, decide_eq_true_eq] at hQ
    exact h.exists_connection n hk (.inr hQ.1)

/-- The connections that a component writes, in the larger circuit. -/
theorem outputs_eq (name name' : String) (i : Nat) :
    (Circuit.connectionsWhere (g.circuitOf name' make').connections fun k =>
        k.driver = some (n.component i)) =
      (Circuit.connectionsWhere (s.circuitOf name make).connections fun k =>
        k.driver = some i).map n.connection := by
  refine connectionsWhere_embedding n.connection (fun id => ?_) fun j hj => ?_
  · rw [h.connection_eq n name name']
    cases (s.circuitOf name make).connections[id]? with
    | none => rfl
    | some k => simp only [Option.map_some, Option.any_some, n.map_component_eq_some]
  · obtain ⟨k, hk, hQ⟩ := (Option.any_eq_true _ _).1 hj
    exact h.exists_connection n hk (.inl (of_decide_eq_true hQ))

/-- A component of the smaller circuit has a copy in the larger one, on the cells that its own lie at. -/
theorem component_copies {m : Component} (hm : (s.circuitOf name make).components[i]? = some m) :
    ∃ m', (g.circuitOf name' make').components[n.component i]? = some m' ∧
      m.Copies n.connection m' ∧ m'.cells = m.cells.map τ := by
  have hclock := circuitOf_clock hm
  obtain ⟨head, hhead, rfl⟩ := circuitOf_component_iff.1 hm
  have hmem := List.mem_of_getElem? hhead
  have hlive := live_of_builtHead hmem
  have hgroups := (mem_heads.1 (mem_builtHeads.1 hmem).1).2.1
  have hm' : (g.circuitOf name' make').components[n.component i]? = some _ :=
    circuitOf_component_iff.2 ⟨τ head, by rw [← n.heads, hhead, Option.map_some], rfl⟩
  refine ⟨_, hm', ?_, h.classOf_eq hlive⟩
  constructor
  case kind => exact congrArg Making.kind (h.make_eq hlive hgroups)
  case level => rw [Part.toComponent, Part.toComponent]
  case inputs =>
    dsimp only [Part.toComponent]
    exact h.inputs_eq n name name' i
  case outputs =>
    dsimp only [Part.toComponent]
    exact h.outputs_eq n name name' i
  case clock => rw [circuitOf_clock hm', h.clockOf?_eq n, hclock]

end Embeds

/-- The whole of the smaller circuit, placed in the larger one. -/
def Numbering.placement (n : Numbering τ s make g make') : Placement where
  component := n.component
  connection := n.connection
  chosen := fun _ => True
  placed := fun _ => True
  full := fun _ => True

theorem Embeds.follows (h : Embeds τ ρ s make g make') (n : Numbering τ s make g make') :
    Circuit.Follows n.placement (s.circuitOf name make) (g.circuitOf name' make') := by
  constructor
  case component =>
    intro i m _ hm
    obtain ⟨m', hm', hcopy, -⟩ := h.component_copies n hm
    exact ⟨m', hm', hcopy⟩
  case connection =>
    intro id _
    show Connection.Tracks True _ ((g.circuitOf name' make').connections[n.connection id]?)
    rw [h.connection_eq n name name']
    cases (s.circuitOf name make).connections[id]? with
    | none => exact ⟨rfl, fun _ => rfl⟩
    | some k => exact ⟨rfl, fun _ => rfl⟩

/-- Nothing else in the larger circuit touches the connections of the smaller one. -/
theorem Embeds.secluded (h : Embeds τ ρ s make g make') (n : Numbering τ s make g make')
    (hf : Faithful make) (hf' : Faithful make') (wires : Bool) :
    Circuit.Secluded n.placement wires (s.circuitOf name make) (g.circuitOf name' make') := by
  constructor
  case injective => exact fun a b _ _ he => n.connection.injective he
  case pins => exact fun _ _ _ _ _ _ _ => trivial
  case full => exact fun _ _ _ _ _ _ _ _ => trivial
  case others => exact fun _ _ hno _ _ _ _ => absurd trivial hno
  case strangers =>
    intro j m' hm' _
    by_cases hj : ∃ i m, (s.circuitOf name make).components[i]? = some m ∧ n.component i = j
    · obtain ⟨i, m, hm, he⟩ := hj
      exact .inl ⟨i, m, trivial, hm, he⟩
    · refine .inr fun id _ hid => hj ?_
      have hend : ∃ k, (g.circuitOf name' make').connections[n.connection id]? = some k ∧
          (k.driver = some j ∨ k.sink = some j) := by
        have hw : (g.circuitOf name' make').Wired := circuitOf_wired hf'
        obtain hid | hid := List.mem_append.1 hid
        · obtain ⟨k, hk, hs⟩ := hw.sink_of_mem hm' hid
          exact ⟨k, hk, .inr hs⟩
        · obtain ⟨k, hk, hd⟩ := hw.driver_of_mem hm' hid
          exact ⟨k, hk, .inl hd⟩
      obtain ⟨k', hk', hend⟩ := hend
      have hw : (s.circuitOf name make).Wired := circuitOf_wired hf
      have hconnection : (g.circuitOf name' make').connections[n.connection id]? = _ :=
        h.connection_eq n name name' id
      rw [hconnection, Option.map_eq_some_iff] at hk'
      obtain ⟨k, hk, rfl⟩ := hk'
      simp only [Option.map_eq_some_iff] at hend
      obtain ⟨i, hi, he⟩ | ⟨i, hi, he⟩ := hend
      · obtain ⟨m, hm, -⟩ := (hw.driver_iff id k hk i).1 hi
        exact ⟨i, m, hm, he⟩
      · obtain ⟨m, hm, -⟩ := (hw.sink_iff id k hk i).1 hi
        exact ⟨i, m, hm, he⟩

end Grid

end GridCircuit
