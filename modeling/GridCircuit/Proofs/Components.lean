import GridCircuit.Field.Build
import GridCircuit.Proofs.Classes
import GridCircuit.Proofs.Occupancy

/-!
# Components are the classes of the drawing

A built circuit has one component for each class of cells whose code can be made, listed by first
cell, and one connection for each cross and each connector. Every other class is one issue at its
first cell. The statements name classes by the drawing alone; the labels that the builder works with
appear only in the lemmas that read them as classes.
-/

namespace GridCircuit

theorem findIdx?_congr {α : Type} {P Q : α → Bool} :
    ∀ {xs : List α}, (∀ x ∈ xs, P x = Q x) → xs.findIdx? P = xs.findIdx? Q := by
  intro xs
  induction xs with
  | nil => exact fun _ => rfl
  | cons x xs ih =>
    intro h
    rw [List.findIdx?_cons, List.findIdx?_cons, h x (by simp), ih fun y hy => h y (by simp [hy])]

/-- Numbers that satisfy a condition on the element they stand for list these elements in order. -/
theorem map_getElem?_filter_range {α : Type} (xs : List α) (P : α → Bool) :
    ((List.range xs.length).filter fun i => xs[i]?.any P).map (xs[·]?) = (xs.filter P).map some := by
  have hall : (List.range xs.length).map (xs[·]?) = xs.map some := by
    refine List.ext_getElem (by simp) fun i hi _ => ?_
    simp only [List.length_map, List.length_range] at hi
    simp [hi]
  have hcomp : (fun i : Nat => xs[i]?.any P) = (fun o : Option α => o.any P) ∘ (xs[·]?) := rfl
  rw [hcomp, ← List.filter_map, hall, List.filter_map]
  rfl

/-- The kind of a component that could be made. -/
def Making.kind : Making → Kind
  | .ok (kind, _) => kind
  | .error _ => .wire

namespace Grid

/-- The first cells of the classes that are made into components. -/
noncomputable def builtHeads (g : Grid) (make : Code → Making) : List Pos :=
  g.heads.filter fun p => (make (g.get p)).isOk

/-- The part for the class of a cell. -/
noncomputable def partOf (g : Grid) (make : Code → Making) (p : Pos) : Part :=
  ⟨g.get p, (make (g.get p)).kind, g.classOf p⟩

/-- The number of the component that covers a cell. -/
noncomputable def indexOf? (g : Grid) (make : Code → Making) (p : Pos) : Option Nat :=
  (g.builtHeads make).findIdx? fun h => h = g.root p

/-- What is reported for the class of a cell: why it was left out, or what was left out inside. -/
def issuesAt (g : Grid) (make : Code → Making) (p : Pos) : List BuildIssue :=
  match make (g.get p) with
  | .ok (_, inner) => inner
  | .error reason => [⟨p, g.get p, reason⟩]

/-- The cells that carry connections: the crosses, then the connectors. -/
def junctions (g : Grid) : List Pos :=
  (g.positions.filter fun p => g.get p = .cross) ++ g.positions.filter fun p => (g.get p).isConnector

/-- The component on the first accepted neighbour of a cell. -/
noncomputable def neighborIndex? (g : Grid) (make : Code → Making) (p : Pos) (accept : Code → Bool) :
    Option Nat :=
  p.neighbors.findSome? fun q => if accept (g.get q) then g.indexOf? make q else none

/-- The site of the connection on a junction. -/
noncomputable def siteOf (g : Grid) (make : Code → Making) (p : Pos) : Site :=
  if g.get p = .cross then ⟨p, .cross, none, none⟩
  else ⟨p, (ConnectionKind.ofCode? (g.get p)).getD .cross, g.neighborIndex? make p Code.isWire,
    g.neighborIndex? make p (!·.isWire)⟩

/-- The circuit of a drawing, from its classes and junctions. -/
noncomputable def circuitOf (g : Grid) (name : String) (make : Code → Making) : Circuit :=
  Circuit.assemble name ((g.builtHeads make).map (g.partOf make)) (g.junctions.map (g.siteOf make))

end Grid

namespace Labels

variable {g : Grid} {l : Labels} {make : Code → Making} {p q : Pos}

/-- The number of the group of a cell that is in one. -/
def idAt (l : Labels) (p : Pos) : Nat := (l.get p).groupId?.getD 0

namespace Classified

theorem get_eq_group (h : Classified g l) (hp : p ∈ g.positions) (hg : (g.get p).groups = true) :
    l.get p = .group (l.idAt p) := by
  obtain ⟨id, hid⟩ := h.partition.exists_group hp hg
  rw [idAt, hid]
  rfl

theorem idAt_eq_iff (h : Classified g l) (hp : p ∈ g.heads) (hq : q ∈ g.positions)
    (hg : (g.get q).groups = true) : l.idAt p = l.idAt q ↔ p = g.root q := by
  obtain ⟨hp₁, hp₂, hp₃⟩ := Grid.mem_heads.1 hp
  have hroot : p = g.root q ↔ g.Connected p q := by
    rw [← Grid.root_eq_iff hp₁ hq, hp₃]
  rw [hroot, ← h.same_iff hp₁ hp₂, h.get_eq_group hp₁ hp₂, h.get_eq_group hq hg, Mark.group.injEq]

end Classified

end Labels

namespace Grid

open Labels

variable {g : Grid} {l : Labels} {make : Code → Making} {p q : Pos}

theorem groups_all_eq (h : Classified g l) (he : g.Exact) :
    Group.all g l = g.heads.map fun p => ⟨l.idAt p, g.get p, g.classOf p⟩ := by
  rw [Group.all, h.groups_eq he, List.map_filterMap, ← List.filterMap_eq_map]
  apply List.filterMap_congr
  intro p hp
  obtain ⟨hp₁, hp₂, hp₃⟩ := mem_heads.1 hp
  have hid := h.get_eq_group hp₁ hp₂
  have hhead := (headD_classOf hp₁ Pos.origin).trans hp₃
  simp only [hid, Mark.groupId?, Option.map_some, h.positionsOf_group he hid, hhead]
  rfl

theorem mem_builtHeads :
    p ∈ g.builtHeads make ↔ p ∈ g.heads ∧ (make (g.get p)).isOk = true := List.mem_filter

theorem builtHeads_nodup (g : Grid) (make : Code → Making) : (g.builtHeads make).Nodup :=
  g.heads_nodup.filter _

/-- The parts that a builder makes, with the numbers of their groups. -/
theorem parts_eq (h : Classified g l) (he : g.Exact) :
    ((Group.all g l).map fun k => (k, make k.code)).filterMap (fun (k, m) => k.part? m) =
      (g.builtHeads make).map fun p => (l.idAt p, g.partOf make p) := by
  rw [groups_all_eq h he, List.map_map, List.filterMap_map, builtHeads, ← List.filterMap_eq_map,
    List.filterMap_filter]
  apply List.filterMap_congr
  intro p _
  simp only [Function.comp_apply, Group.part?, partOf]
  cases make (g.get p) <;> rfl

theorem issues_eq (h : Classified g l) (he : g.Exact) :
    ((Group.all g l).map fun k => (k, make k.code)).flatMap (fun (k, m) => k.issues m) =
      g.heads.flatMap (g.issuesAt make) := by
  rw [groups_all_eq h he, List.map_map, List.flatMap_map]
  apply List.flatMap_congr
  intro p hp
  obtain ⟨hp₁, -, hp₃⟩ := mem_heads.1 hp
  have hhead := (headD_classOf hp₁ Pos.origin).trans hp₃
  cases hm : make (g.get p) with
  | ok made => simp only [Function.comp_apply, issuesAt, Group.issues, hm]
  | error reason =>
    simp only [Function.comp_apply, issuesAt, Group.issues, Group.firstCell, hhead, hm]

theorem partAt?_eq (h : Classified g l) (q : Pos) :
    Site.partAt? l ((g.builtHeads make).map l.idAt) q = g.indexOf? make q := by
  rw [Site.partAt?, indexOf?]
  by_cases hq : q ∈ g.positions ∧ (g.get q).groups = true
  · rw [h.get_eq_group hq.1 hq.2]
    simp only [Mark.groupId?, Option.bind_some, List.findIdx?_map]
    apply findIdx?_congr
    intro p hp
    simp only [Function.comp_apply]
    rw [decide_eq_decide]
    exact h.idAt_eq_iff (mem_builtHeads.1 hp).1 hq.1 hq.2
  · have hnone : (l.get q).groupId? = none := by
      by_cases hq' : q ∈ g.positions
      · rw [← Option.not_isSome_iff_eq_none, h.groupId?_isSome hq']
        exact fun hg => hq ⟨hq', hg⟩
      · rw [h.partition.blank q hq']
        rfl
    rw [hnone, Option.bind_none, eq_comm, List.findIdx?_eq_none_iff]
    intro p hp
    rw [decide_eq_false_iff_not]
    exact fun he => hq (root_mem_heads_iff.1 (he ▸ (mem_builtHeads.1 hp).1))

theorem sites_eq (h : Classified g l) (he : g.Exact) :
    Site.all g l ((g.builtHeads make).map l.idAt) = g.junctions.map (g.siteOf make) := by
  have hside : ∀ p accept, Site.neighbor? g l ((g.builtHeads make).map l.idAt) p accept =
      g.neighborIndex? make p accept := by
    intro p accept
    simp only [Site.neighbor?, neighborIndex?, partAt?_eq h]
  rw [Site.all, crosses_eq h.partition he, connectors_eq h.partition he, junctions, List.map_append]
  congr 1
  · apply List.map_congr_left
    intro p hp
    rw [siteOf, if_pos (by simpa using (List.mem_filter.1 hp).2)]
  · refine Eq.trans (List.filterMap_congr fun p hp => ?_) 
      (congrFun (List.filterMap_eq_map (f := g.siteOf make)) _)
    have hc : (g.get p).isConnector = true := (List.mem_filter.1 hp).2
    have hne : g.get p ≠ .cross := fun he => by simp [he, Code.isConnector] at hc
    have hkind : ∃ kind, ConnectionKind.ofCode? (g.get p) = some kind := by
      cases hg : g.get p <;> simp_all [Code.isConnector, ConnectionKind.ofCode?]
    obtain ⟨kind, hk⟩ := hkind
    simp only [Site.ofConnector?, hside, Function.comp_apply, siteOf, if_neg hne, hk,
      Option.map_some, Option.getD_some]

/-- Building a drawing gives the circuit of its classes and junctions, and never fails. -/
theorem build_eq (he : g.Exact) (name : String) (make : Code → Making) :
    g.build name make = .ok ⟨g.circuitOf name make, g.heads.flatMap (g.issuesAt make)⟩ := by
  obtain ⟨l, hl, hs⟩ := Labels.ofGrid_settled he
  have h := joinThroughCrosses_classified hs he
  rw [build, hl]
  show Except.ok _ = _
  simp only [parts_eq h he, issues_eq h he, List.map_map, circuitOf, Function.comp_def]
  rw [sites_eq h he]

end Grid

end GridCircuit
