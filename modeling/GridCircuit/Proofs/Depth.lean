import GridCircuit.Proofs.Ports
import Mathlib.Data.List.Chain
import Mathlib.Order.Lattice.Nat

/-!
# Drawings without memory

A drawing of wires, gates, batteries, buttons and displays only. Its gate graph leads from a class
that is no wire, over an output, a wire and an input, to the next. When the graph has no cycle, every
class has a depth, and a solution, levels that fit the inputs of every class, can be asked for. Nothing
here says how a circuit comes to a solution.
-/

namespace GridCircuit

/-- Whether a cell may stand in a drawing without memory. -/
def Code.isCombinational : Code → Bool
  | .clock | .flipFlop | .custom _ => false
  | _ => true

namespace Grid

/-- No cell holds a clock, a flip-flop or a custom part. -/
def Combinational (g : Grid) : Prop := ∀ p ∈ g.positions, (g.get p).isCombinational = true

instance (g : Grid) : Decidable g.Combinational := inferInstanceAs (Decidable (∀ _ ∈ _, _))

/-- A class writes an output that leads to a wire. -/
def Drives (g : Grid) (a w : Pos) : Prop := ∃ p ∈ g.outputsTo w, g.otherSide? p = some a

/-- One class drives a wire that leads to an input of another. -/
def Feeds (g : Grid) (a b : Pos) : Prop :=
  ∃ w, g.Drives a w ∧ ∃ p ∈ g.inputsOf b, g.wireSide? p = some w

/-- No class feeds itself, directly or through others. -/
def Acyclic (g : Grid) : Prop := ∀ h, ¬ Relation.TransGen g.Feeds h h

/-- Classes that are no wires, each of which feeds the next. -/
structure IsPath (g : Grid) (hs : List Pos) : Prop where
  gates : ∀ h ∈ hs, h ∈ g.heads ∧ g.get h ≠ .wire
  chain : hs.IsChain g.Feeds

/-- The lengths of the paths that end in a class. -/
def pathsTo (g : Grid) (h : Pos) : Set Nat := {n | ∃ hs, g.IsPath (hs ++ [h]) ∧ hs.length + 1 = n}

/-- The depth of a class that is no wire is the number of classes on the longest path to it, that of a
wire is the depth of its deepest driver, zero without any. The longest path of all gives the depth of
the drawing. -/
structure Depths (g : Grid) (depth : Pos → Nat) (total : Nat) : Prop where
  gate : ∀ h ∈ g.heads, g.get h ≠ .wire → IsGreatest (g.pathsTo h) (depth h)
  wire : ∀ w ∈ g.heads, g.get w = .wire →
    IsGreatest (insert 0 {n | ∃ a, g.Drives a w ∧ depth a = n}) (depth w)
  total : IsGreatest {n | ∃ hs, g.IsPath hs ∧ hs.length = n} total

/-- What a junction carries when the classes have the given levels. Without a driver it is low, and so
is an output of a display. -/
noncomputable def carried (g : Grid) (level : Pos → Bool) (p : Pos) : Bool :=
  match g.get p with
  | .input | .clockInput => (g.wireSide? p).any level
  | .output => (g.otherSide? p).any fun a => g.get a ≠ .display && level a
  | _ => false

/-- The levels on the inputs of a class. -/
noncomputable def inputLevels (g : Grid) (level : Pos → Bool) (h : Pos) : List Bool :=
  (g.inputsOf h).map (g.carried level)

/-- The level that a class should have beside the given levels. A button has the level it was
switched to. -/
noncomputable def valueOf (g : Grid) (pressed level : Pos → Bool) (h : Pos) : Bool :=
  match g.get h with
  | .wire => (g.outputsTo h).any (g.carried level)
  | .and => !(g.inputLevels level h).isEmpty && (g.inputLevels level h).all id
  | .or => (g.inputLevels level h).any id
  | .xor => ((g.inputLevels level h)[0]?.getD false).xor ((g.inputLevels level h)[1]?.getD false)
  | .not => !(g.inputLevels level h)[0]?.getD false
  | .battery => true
  | .button => pressed h
  | .display => displayed (g.inputLevels level h) ≠ 0
  | _ => false

/-- Every class has the level that it should have. -/
def Solves (g : Grid) (pressed level : Pos → Bool) : Prop :=
  ∀ h ∈ g.heads, level h = g.valueOf pressed level h

variable {g : Grid} {depth : Pos → Nat} {total : Nat} {a b h w p : Pos}

section Paths

theorem IsPath.snoc {hs : List Pos} (hp : g.IsPath (hs ++ [a])) (hf : g.Feeds a b)
    (hb : b ∈ g.heads ∧ g.get b ≠ .wire) : g.IsPath ((hs ++ [a]) ++ [b]) := by
  constructor
  · intro h hh
    obtain hh | hh := List.mem_append.1 hh
    · exact hp.gates h hh
    · obtain rfl := List.mem_singleton.1 hh
      exact hb
  · refine List.isChain_append.2 ⟨hp.chain, List.isChain_singleton b, ?_⟩
    intro x hx y hy
    simp only [List.getLast?_append, List.getLast?_singleton, Option.some_or, Option.mem_some_iff,
      List.head?_cons] at hx hy
    rwa [← hx, ← hy]

/-- A path in a graph without cycles meets no class twice. -/
theorem IsPath.nodup {hs : List Pos} (hp : g.IsPath hs) (ha : g.Acyclic) : hs.Nodup := by
  have hchain : hs.IsChain (Relation.TransGen g.Feeds) :=
    hp.chain.imp fun _ _ h => Relation.TransGen.single h
  refine (List.isChain_iff_pairwise.1 hchain).imp ?_
  intro x y hxy he
  exact ha x (he ▸ hxy)

theorem IsPath.length_le {hs : List Pos} (hp : g.IsPath hs) (ha : g.Acyclic) :
    hs.length ≤ g.heads.length :=
  ((hp.nodup ha).subperm fun h hh => (hp.gates h hh).1).length_le

theorem isPath_nil (g : Grid) : g.IsPath [] := ⟨nofun, .nil⟩

theorem isPath_singleton (hh : h ∈ g.heads) (hw : g.get h ≠ .wire) : g.IsPath [h] := by
  refine ⟨fun x hx => ?_, .singleton h⟩
  obtain rfl := List.mem_singleton.1 hx
  exact ⟨hh, hw⟩

/-- A set of numbers with a bound has a greatest one. -/
theorem isGreatest_sSup {s : Set Nat} (hne : s.Nonempty) {n : Nat} (hle : ∀ m ∈ s, m ≤ n) :
    IsGreatest s (sSup s) := by
  have hbdd : BddAbove s := ⟨n, hle⟩
  exact ⟨Nat.sSup_mem hne hbdd, fun m hm => le_csSup hbdd hm⟩

theorem pathsTo_le (ha : g.Acyclic) : ∀ n ∈ g.pathsTo h, n ≤ g.heads.length := by
  intro n hn
  obtain ⟨hs, hp, rfl⟩ := hn
  have hlen := hp.length_le ha
  rwa [List.length_append, List.length_singleton] at hlen

/-- Without cycles everything has a depth. -/
theorem exists_depths (ha : g.Acyclic) : ∃ depth total, g.Depths depth total := by
  let gate (h : Pos) : Nat := sSup (g.pathsTo h)
  let depth (h : Pos) : Nat :=
    if g.get h = .wire then sSup (insert 0 {n | ∃ a, g.Drives a h ∧ gate a = n}) else gate h
  refine ⟨depth, sSup {n | ∃ hs, g.IsPath hs ∧ hs.length = n}, ?_, ?_, ?_⟩
  · intro h hh hw
    show IsGreatest _ (if g.get h = .wire then _ else gate h)
    rw [if_neg hw]
    exact isGreatest_sSup ⟨1, [], isPath_singleton hh hw, rfl⟩ (pathsTo_le ha)
  · intro w hw hc
    have hset : {n | ∃ a, g.Drives a w ∧ depth a = n} = {n | ∃ a, g.Drives a w ∧ gate a = n} := by
      ext n
      refine exists_congr fun a => and_congr_right fun hd => ?_
      obtain ⟨p, -, hp⟩ := hd
      show (if g.get a = .wire then _ else gate a) = n ↔ _
      rw [if_neg (otherSide?_ne_wire hp)]
    show IsGreatest (insert 0 {n | ∃ a, g.Drives a w ∧ depth a = n}) (if g.get w = .wire then _ else _)
    rw [hset, if_pos hc]
    refine isGreatest_sSup (n := g.heads.length) ⟨0, Set.mem_insert 0 _⟩ fun n hn => ?_
    obtain rfl | ⟨a, -, rfl⟩ := hn
    · exact Nat.zero_le _
    · exact csSup_le' (pathsTo_le ha)
  · refine isGreatest_sSup (n := g.heads.length) ⟨0, [], isPath_nil g, rfl⟩ fun n hn => ?_
    obtain ⟨hs, hp, rfl⟩ := hn
    exact hp.length_le ha

end Paths

namespace Depths

theorem gate_pos (hd : g.Depths depth total) (hh : h ∈ g.heads) (hw : g.get h ≠ .wire) :
    0 < depth h := by
  obtain ⟨hs, -, he⟩ := (hd.gate h hh hw).1
  omega

theorem gate_le (hd : g.Depths depth total) (hh : h ∈ g.heads) (hw : g.get h ≠ .wire) :
    depth h ≤ total := by
  obtain ⟨hs, hp, he⟩ := (hd.gate h hh hw).1
  refine hd.total.2 ⟨hs ++ [h], hp, ?_⟩
  rw [List.length_append, List.length_singleton, he]

theorem driver_le (hd : g.Depths depth total) (hw : w ∈ g.heads) (hc : g.get w = .wire)
    (ha : g.Drives a w) : depth a ≤ depth w :=
  (hd.wire w hw hc).2 (.inr ⟨a, ha, rfl⟩)

/-- A wire is as deep as one of its drivers, if it has any. -/
theorem wire_cases (hd : g.Depths depth total) (hw : w ∈ g.heads) (hc : g.get w = .wire) :
    depth w = 0 ∨ ∃ a, g.Drives a w ∧ depth a = depth w := by
  obtain h | h := (hd.wire w hw hc).1
  · exact .inl h
  · exact .inr h

/-- A class lies deeper than what feeds it. -/
theorem feeds_lt (hd : g.Depths depth total) (ha : a ∈ g.heads ∧ g.get a ≠ .wire)
    (hb : b ∈ g.heads ∧ g.get b ≠ .wire) (hf : g.Feeds a b) : depth a < depth b := by
  obtain ⟨hs, hp, he⟩ := (hd.gate a ha.1 ha.2).1
  have hle := (hd.gate b hb.1 hb.2).2 ⟨hs ++ [a], hp.snoc hf hb, rfl⟩
  rw [List.length_append, List.length_singleton] at hle
  omega

theorem le_total (hd : g.Depths depth total) (hh : h ∈ g.heads) : depth h ≤ total := by
  by_cases hw : g.get h = .wire
  · obtain h0 | ⟨a, ⟨p, -, hp⟩, he⟩ := hd.wire_cases hh hw
    · rw [h0]
      exact Nat.zero_le _
    · rw [← he]
      exact hd.gate_le (side?_eq_some hp).1 (otherSide?_ne_wire hp)
  · exact hd.gate_le hh hw

/-- The wires before a class lie less deep than it. -/
theorem wire_lt (hd : g.Depths depth total) (hh : h ∈ g.heads) (hc : g.get h ≠ .wire)
    (hp : p ∈ g.inputsOf h) (hw : g.wireSide? p = some w) : depth w < depth h := by
  obtain h0 | ⟨a, ha, he⟩ := hd.wire_cases (side?_eq_some hw).1 (wireSide?_wire hw)
  · rw [h0]
    exact hd.gate_pos hh hc
  · rw [← he]
    obtain ⟨q, -, hq⟩ := id ha
    exact hd.feeds_lt ⟨(side?_eq_some hq).1, otherSide?_ne_wire hq⟩ ⟨hh, hc⟩ ⟨w, ha, p, hp, hw⟩

/-- A wire at the surface has no driver. -/
theorem no_driver (hd : g.Depths depth total) (hw : w ∈ g.heads) (hc : g.get w = .wire)
    (h0 : depth w = 0) : ¬ g.Drives a w := by
  intro ha
  obtain ⟨p, -, hp⟩ := id ha
  have hpos := hd.gate_pos (side?_eq_some hp).1 (otherSide?_ne_wire hp)
  have hle := hd.driver_le hw hc ha
  omega

end Depths

end Grid

end GridCircuit
