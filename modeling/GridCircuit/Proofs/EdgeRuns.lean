import GridCircuit.Proofs.Edges
import GridCircuit.Proofs.Undriven

/-!
# What acts on a rising clock, through whole runs

As long as ticks succeed, each of them updates every component once, however deep it sits. Between two
updates nobody else writes its outputs and nobody changes it, unless it is a wire or a button. So what
is said of a component after `n` updates, and kept by an update of it, holds after a run of any length;
flip-flops and clocked scripts are two cases.
-/

namespace GridCircuit

/-- The times that are read down the parts with these first cells. -/
def Times.along (now : Times) (hosts : List Pos) : Times := hosts.foldl inside now

/-- An update of a component: the times that are read where it is, and the component and the connections
as they were then. -/
structure Visit where
  now : Times
  component : Component
  around : Bus

namespace Visit

def reading (v : Visit) : Reading := v.component.read v.around

/-- What the update has left. -/
def left (v : Visit) : Step Component := v.component.update v.now v.around

/-- The update succeeds, and the component has outputs of its own to write. -/
structure Sound (v : Visit) : Prop where
  succeeded : v.left.failure = none
  nodup : v.component.outputs.Nodup
  ids_lt : ∀ id ∈ v.component.outputs, id < v.around.size

end Visit

def Action.times? : Action → Option Times
  | .tick now => some now
  | .toggle _ => none

/-- A statement about a component after `n` updates, and about what it has written, that no successful
update makes false. -/
structure Component.Lasting (rs : Readings) (P : Nat → Component → Bus → Prop) : Prop where
  inert : ∀ {n m bus}, P n m bus → m.isWire = false ∧ m.isButton = false
  elsewhere : ∀ {n m bus bus'}, P n m bus → Bus.Agree m.outputs bus' bus → P n m bus'
  update : ∀ {n} {v : Visit}, P n v.component v.around → v.Sound → rs[n]? = some v.reading →
    P (n + 1) v.left.value v.left.bus

namespace Circuit

/-- The update of the component at a place that a tick makes, unless it stops before. -/
def visit? (now : Times) (i : Nat) (path : List Nat) (c : Circuit) : Option Visit :=
  (c.ticking? now path).bind fun d => (d.2.moment? d.1 i).map fun e => ⟨d.1, e.1, e.2⟩

/-- The updates of the component at a place in the course of some actions. -/
def visits (i : Nat) (path : List Nat) : List Action → Circuit → List Visit
  | [], _ => []
  | .tick now :: actions, c => (c.visit? now i path).toList ++ visits i path actions (c.tick now).1
  | .toggle n :: actions, c => visits i path actions ((c.toggle? n).getD c)

/-- The first cells of the components down a path. -/
def hosts : List Nat → Circuit → List Pos
  | [], _ => []
  | k :: path, c =>
    match c.components[k]? with
    | some m => m.firstCell :: m.inner?.elim [] (hosts path)
    | none => []

variable {fed : List Nat} {now times : Times} {i k id n : Nat} {path : List Nat}
  {c c' d inner : Circuit} {m : Component} {pins : Pins} {bus outer : Bus}
  {writes : List (Nat × Bool)} {actions : List Action} {rs : Readings}
  {P : Nat → Component → Bus → Prop}

theorem hosts_cons (hm : c.components[k]? = some m) (hi : m.inner? = some inner) :
    c.hosts (k :: path) = m.firstCell :: inner.hosts path := by
  rw [hosts, hm]
  dsimp only
  rw [hi, Option.elim_some]

theorem toggle_hosts (path : List Nat) (c : Circuit) (n : Nat) :
    ((c.toggle? n).getD c).hosts path = c.hosts path := by
  rw [toggle?_eq]
  cases c.buttons[n]? with
  | none => rfl
  | some id =>
    cases path with
    | nil => rfl
    | cons k path =>
      rw [Option.map_some, Option.getD_some, hosts, hosts, flip_getElem?]
      cases c.components[k]? with
      | none => rfl
      | some m =>
        dsimp only [Option.map_some]
        by_cases hid : id = k
        · rw [if_pos hid]
          rfl
        · rw [if_neg hid]

/-- A tick that succeeds is a tick of every circuit inside, as that is fed then. -/
theorem Tight.ticking_of_success (h : c.Tight fed) (hF : c.Feeds writes)
    (hok : ((c.feed writes).tick now).2 = none) (hd : c.inside? path = some d) :
    ∃ writes', d.Feeds writes' ∧
      (c.feed writes).ticking? now path = some (now.along (c.hosts path), d.feed writes') ∧
      ((d.feed writes').tick (now.along (c.hosts path))).2 = none ∧
      ((c.feed writes).tick now).1.inside? path =
        some ((d.feed writes').tick (now.along (c.hosts path))).1 ∧
      ((c.feed writes).tick now).1.hosts path = c.hosts path := by
  induction path generalizing c fed writes now with
  | nil =>
    obtain rfl := Option.some.inj hd
    exact ⟨writes, hF, rfl, hok, rfl, rfl⟩
  | cons k path ih =>
    rw [inside?] at hd
    obtain ⟨inner, hinner, hd⟩ := Option.bind_eq_some_iff.1 hd
    obtain ⟨m, hm, hinner⟩ := Option.bind_eq_some_iff.1 hinner
    obtain ⟨pins, hk⟩ := Component.nested_of_inner? hinner
    have hmem := List.mem_of_getElem? hm
    obtain rfl := h.pins_eq hmem hk
    have hgate : m.isWire = false := by
      rw [Component.isWire, hk]
      rfl
    have hw : (c.feed writes).Wired := h.here.wired.of_wiring (c.feed_wiring writes)
    obtain ⟨bus, hmoment⟩ := hw.moment_of_success hgate hm hok
    have hM := hw.meets hgate hmoment
    obtain ⟨hkind, hfailure, -⟩ := update_nested hk now bus
    have hinner' := Component.inner?_of_nested hkind
    have hfirst : (m.update now bus).value.firstCell = m.firstCell :=
      congrArg (fun figure : Bool × List Pos => figure.2.headD Pos.origin) (m.update_figure now bus)
    obtain ⟨writes', hF', hticking, hok', hafter, hhosts⟩ :=
      ih (h.within hmem hk) (feeds_feeding m inner bus) (hfailure.symm.trans (hM.passed hok)) hd
    rw [hosts_cons hm hinner, Times.along, List.foldl_cons]
    refine ⟨writes', hF', ?_, hok', ?_, ?_⟩
    · rw [ticking?, hmoment, Option.bind_some, entered?_eq hk, Option.bind_some, hticking]
      rfl
    · rw [inside?, hM.component, Option.bind_some, hinner', Option.bind_some, hafter]
      rfl
    · rw [hosts_cons hM.component hinner', hfirst, hhosts]

/-- How a tick that succeeds goes for a component that is no wire, with `outer` around it before. -/
structure Passes (now times : Times) (i : Nat) (path : List Nat) (c : Circuit) (m : Component)
    (outer : Bus) (bus outer' : Bus) : Prop where
  visit : c.visit? now i path = some ⟨times, m, bus⟩
  located : (c.tick now).1.located? i path = some ((m.update times bus).value, outer')
  hosts : (c.tick now).1.hosts path = c.hosts path
  sound : Visit.Sound ⟨times, m, bus⟩
  /-- Nobody but the component writes its outputs. -/
  before : Bus.Agree m.outputs bus outer
  after : Bus.Agree m.outputs outer' (m.update times bus).bus

theorem Tight.passes (h : c.Tight []) (hok : (c.tick now).2 = none)
    (hm : c.located? i path = some (m, outer)) (hgate : m.isWire = false) :
    ∃ bus outer', c.Passes now (now.along (c.hosts path)) i path m outer bus outer' := by
  obtain ⟨d, hd, hmd, rfl⟩ := located?_eq_some hm
  have hticked := h.ticking_of_success c.feeds_nil (by rwa [feed_nil]) hd
  rw [feed_nil] at hticked
  obtain ⟨writes, hF, hticking, hok', hafter, hhosts⟩ := hticked
  obtain ⟨fed, hinside⟩ := h.inside hd
  have hw := hinside.here.wired
  have hw' : (d.feed writes).Wired := hw.of_wiring (d.feed_wiring writes)
  have hmd' : (d.feed writes).components[i]? = some m := hmd
  obtain ⟨bus, hmoment⟩ := hw'.moment_of_success hgate hmd' hok'
  have hM := hw'.meets hgate hmoment
  refine ⟨bus, ((d.feed writes).tick (now.along (c.hosts path))).1.connections, ?_⟩
  constructor
  case visit => rw [visit?, hticking, Option.bind_some, hmoment, Option.map_some]
  case located => rw [located?_eq, hafter, Option.bind_some, hM.component, Option.map_some]
  case hosts => exact hhosts
  case sound =>
    exact ⟨hM.passed hok', (List.nodup_append.1 (hw.component_pins_nodup hmd)).2.1,
      hM.outputs_lt hw' hmd'⟩
  case before =>
    intro id hid
    rw [hM.before id (Component.mem_pins_of_outputs hid), hF.kept (hw.written hmd hid)]
  case after =>
    intro id hid
    refine hM.unwritten id (Component.mem_pins_of_outputs hid) fun j n hn hwire hout => ?_
    obtain rfl := hw'.writer_unique hmd' hn hid hout
    obtain rfl := Option.some.inj (hmd'.symm.trans hn)
    rw [hgate] at hwire
    cases hwire

/-- A toggle changes no other component. -/
theorem toggle_located? (hm : c.located? i path = some (m, outer)) (hb : m.isButton = false) (n : Nat) :
    ((c.toggle? n).getD c).located? i path = some (m, outer) := by
  have hconnections : ((c.toggle? n).getD c).connections = c.connections :=
    connections_toggleAll [n] c
  cases path with
  | nil =>
    rw [located?, Option.map_eq_some_iff] at hm
    obtain ⟨m', hm, he⟩ := hm
    obtain ⟨rfl, rfl⟩ := Prod.mk.inj he
    rw [located?, c.toggle_getElem? n hm hb, hconnections]
    rfl
  | cons k path =>
    rw [located?] at hm
    obtain ⟨inner, hinner, hm⟩ := Option.bind_eq_some_iff.1 hm
    obtain ⟨host, hhost, hinner⟩ := Option.bind_eq_some_iff.1 hinner
    obtain ⟨pins, hk⟩ := Component.nested_of_inner? hinner
    have hhost' : host.isButton = false := by
      rw [Component.isButton, hk]
      rfl
    rw [located?, c.toggle_getElem? n hhost hhost', Option.bind_some, hinner, Option.bind_some, hm]

/-- How a lasting statement about the component at a place goes through a run with these updates of it:
it holds right before and right after each of them, and in the end. -/
structure Lasts (P : Nat → Component → Bus → Prop) (i : Nat) (path : List Nat) (n : Nat)
    (visits : List Visit) (c : Circuit) : Prop where
  sound : ∀ v ∈ visits, v.Sound
  before : ∀ (k : Nat) (v : Visit), visits[k]? = some v → P (n + k) v.component v.around
  after : ∀ (k : Nat) (v : Visit), visits[k]? = some v → P (n + k + 1) v.left.value v.left.bus
  located : ∃ m outer, c.located? i path = some (m, outer) ∧ P (n + visits.length) m outer

theorem Lasts.cons {v : Visit} {visits : List Visit} (h : c.Lasts P i path (n + 1) visits)
    (hsound : v.Sound) (hbefore : P n v.component v.around) (hafter : P (n + 1) v.left.value v.left.bus) :
    c.Lasts P i path n (v :: visits) := by
  have hshift : ∀ k, n + (k + 1) = n + 1 + k := fun k => by omega
  constructor
  case sound => exact List.forall_mem_cons.2 ⟨hsound, h.sound⟩
  case before =>
    intro k w hw
    cases k with
    | zero => exact Option.some.inj hw ▸ hbefore
    | succ k => exact hshift k ▸ h.before k w hw
  case after =>
    intro k w hw
    cases k with
    | zero => exact Option.some.inj hw ▸ hafter
    | succ k => exact hshift k ▸ h.after k w hw
  case located =>
    rw [List.length_cons, hshift]
    exact h.located

theorem run_of_tick (hrun : c.run (.tick now :: actions) = some c') :
    (c.tick now).2 = none ∧ (c.tick now).1.run actions = some c' := by
  rw [run] at hrun
  split at hrun
  case h_1 d hd => exact ⟨by rw [hd], by rw [hd]; exact hrun⟩
  case h_2 => cases hrun

/-- In a run without failures every tick updates the component once, and every lasting statement about
it lasts. -/
theorem Tight.run_lasts (hP : Component.Lasting rs P) (h : c.Tight [])
    (hm : c.located? i path = some (m, outer)) (hn : P n m outer)
    (hread : ∀ (k : Nat) (v : Visit), (c.visits i path actions)[k]? = some v →
      rs[n + k]? = some v.reading)
    (hrun : c.run actions = some c') :
    (c.visits i path actions).map (·.now) =
        (actions.filterMap Action.times?).map (·.along (c.hosts path)) ∧
      c'.Lasts P i path n (c.visits i path actions) := by
  induction actions generalizing c n m outer with
  | nil =>
    obtain rfl := Option.some.inj hrun
    refine ⟨rfl, fun v hv => ?_, fun k v hv => ?_, fun k v hv => ?_, m, outer, hm, hn⟩
    all_goals cases hv
  | cons action actions ih =>
    obtain ⟨hgate, hbutton⟩ := hP.inert hn
    cases action with
    | toggle j =>
      have hrest := ih (h.act (.toggle j)) (toggle_located? hm hbutton j) hn hread hrun
      rwa [Circuit.act, toggle_hosts] at hrest
    | tick now =>
      obtain ⟨hok, hrun⟩ := run_of_tick hrun
      obtain ⟨bus, outer', hpass⟩ := h.passes hok hm hgate
      have hvisits : c.visits i path (.tick now :: actions) =
          ⟨now.along (c.hosts path), m, bus⟩ :: (c.tick now).1.visits i path actions := by
        rw [visits, hpass.visit]
        rfl
      rw [hvisits] at hread ⊢
      have hbefore := hP.elsewhere hn hpass.before
      have hafter := hP.update hbefore hpass.sound (hread 0 _ rfl)
      have hleft : P (n + 1) (m.update (now.along (c.hosts path)) bus).value outer' := by
        refine hP.elsewhere hafter ?_
        rw [Component.outputs_of_shape (m.update_shape _ bus)]
        exact hpass.after
      obtain ⟨htimes, hlasts⟩ := ih (h.act (.tick now)) hpass.located hleft
        (fun k v hv => by rw [Nat.add_assoc, Nat.add_comm 1]; exact hread (k + 1) v hv) hrun
      rw [Circuit.act, hpass.hosts] at htimes
      exact ⟨congrArg (now.along (c.hosts path) :: ·) htimes, hlasts.cons hpass.sound hbefore hafter⟩

/-- What the component at a place reads in the course of some actions. -/
def readings (i : Nat) (path : List Nat) (actions : List Action) (c : Circuit) : Readings :=
  (c.visits i path actions).map Visit.reading

/-- Every tick of a run has updated the component at a place once, and what is said of it in terms of
its readings has been true all the time. -/
structure Tracked (P : Readings → Nat → Component → Bus → Prop) (i : Nat) (path : List Nat)
    (actions : List Action) (c c' : Circuit) : Prop where
  times : (c.visits i path actions).map (·.now) =
    (actions.filterMap Action.times?).map (·.along (c.hosts path))
  lasts : c'.Lasts (P (c.readings i path actions)) i path 0 (c.visits i path actions)

theorem readings_getElem? {v : Visit} (hv : (c.visits i path actions)[k]? = some v) :
    (c.readings i path actions)[k]? = some v.reading := by
  rw [readings, List.getElem?_map, hv, Option.map_some]

theorem Tight.tracked {P : Readings → Nat → Component → Bus → Prop}
    (hP : ∀ rs, Component.Lasting rs (P rs)) (h : c.Tight []) (hm : c.located? i path = some (m, outer))
    (hstart : ∀ rs, P rs 0 m outer) (hrun : c.run actions = some c') :
    c.Tracked P i path actions c' := by
  obtain ⟨htimes, hlasts⟩ := h.run_lasts (hP (c.readings i path actions)) hm (hstart _)
    (fun k v hv => by rw [Nat.zero_add]; exact readings_getElem? hv) hrun
  exact ⟨htimes, hlasts⟩

end Circuit

namespace Component

variable {rs : Readings} {script : Script} {m : Component} {bus : Bus}

theorem Latches.lasting (rs : Readings) : Lasting rs (Latches rs) where
  inert h := by
    rw [isWire, isButton, h.kind]
    exact ⟨rfl, rfl⟩
  elsewhere h ha := by
    refine ⟨h.kind, h.level, fun id hid => ?_⟩
    rw [Bus.level, ha id hid]
    exact h.outputs id hid
  update h hv hr := h.update hv.nodup hv.ids_lt hr _

theorem Answers.lasting (script : Script) (rs : Readings) : Lasting rs (Answers script rs) where
  inert h := by
    rw [isWire, isButton, h.kind]
    exact ⟨rfl, rfl⟩
  elsewhere h ha := by
    refine ⟨h.trigger, h.kind, h.level, fun j id hj => ?_, h.succeeded⟩
    rw [Bus.level, ha id (List.mem_of_getElem? hj)]
    exact h.outputs j id hj
  update h hv hr := h.update hv.nodup hv.ids_lt hr hv.succeeded

theorem Latches.start (rs : Readings) (hk : m.kind = .flipFlop {} false) (hlow : m.level = false)
    (hdark : ∀ id, Bus.level bus id = false) : m.Latches rs 0 bus :=
  ⟨hk, hlow, fun id _ => hdark id⟩

theorem Answers.start (rs : Readings) (hi : script.trigger = .clocked)
    (hk : m.kind = .scripted { script }) (hlow : m.level = false)
    (hdark : ∀ id, Bus.level bus id = false) : m.Answers script rs 0 bus := by
  constructor
  case trigger => exact hi
  all_goals rw [History.clocked_zero]
  case kind => exact hk
  case level => exact hlow
  case outputs => exact fun j id _ => hdark id
  case succeeded =>
    intro call hcall
    cases hcall

end Component

/-- How a component at a place of a circuit has acted on its clock in a run. -/
structure Circuit.ActsOnRises (i : Nat) (path : List Nat) (m : Component) (actions : List Action)
    (c c' : Circuit) : Prop where
  /-- A flip-flop and its outputs have shown the first input at the last rise. -/
  flipFlop : ∀ edge output, m.kind = .flipFlop edge output →
    c.Tracked Component.Latches i path actions c'
  /-- A clocked script was invoked at the rises alone. -/
  clocked : ∀ unit, m.kind = .scripted unit → unit.script.trigger = .clocked →
    c.Tracked (Component.Answers unit.script) i path actions c' ∧
      ∀ (k : Nat) (v : Visit), (c.visits i path actions)[k]? = some v →
        v.component.Clocked unit.script (c.readings i path actions) k v.now v.around
  /-- The invocations so far were one for each rise, numbered from zero, each with the memory that the
  one before has left. -/
  invocations : ∀ unit, m.kind = .scripted unit → unit.script.trigger = .clocked →
    let rs := c.readings i path actions
    let h := History.clocked unit.script rs rs.length
    h.invocations.map (·.inputs) = (rs.risings rs.length).map rs.inputsAt ∧
      ∀ (j : Nat) (call : Invocation), h.invocations[j]? = some call → ∃ results,
        unit.script.run call.inputs j (h.before j).memory = (call.memory, .ok results)

namespace Circuit

variable {i : Nat} {path : List Nat} {m : Component} {actions : List Action} {c c' : Circuit}
  {script : Script}

theorem Tracked.clocked (h : c.Tracked (Component.Answers script) i path actions c') {k : Nat} {v : Visit}
    (hv : (c.visits i path actions)[k]? = some v) :
    v.component.Clocked script (c.readings i path actions) k v.now v.around := by
  have hsound := h.lasts.sound v (List.mem_of_getElem? hv)
  have hbefore := h.lasts.before k v hv
  rw [Nat.zero_add] at hbefore
  exact hbefore.clocked hsound.nodup hsound.ids_lt (readings_getElem? hv) hsound.succeeded

theorem Tracked.invocations (h : c.Tracked (Component.Answers script) i path actions c') {j : Nat}
    {call : Invocation} {rs : Readings} (hrs : rs = c.readings i path actions)
    (hcall : (History.clocked script rs rs.length).invocations[j]? = some call) :
    ∃ results, script.run call.inputs j ((History.clocked script rs rs.length).before j).memory =
      (call.memory, .ok results) := by
  obtain ⟨m', outer, -, hanswers⟩ := h.lasts.located
  have hlen : rs.length = 0 + (c.visits i path actions).length := by
    rw [hrs, readings, List.length_map, Nat.zero_add]
  rw [← hrs, ← hlen] at hanswers
  have hlawful := History.clocked_lawful script rs rs.length j call hcall
  obtain ⟨results, hresults⟩ := hanswers.succeeded call (List.mem_of_getElem? hcall)
  rw [hanswers.succeeded.runs_before (List.getElem?_eq_some_iff.1 hcall).1, hresults] at hlawful
  exact ⟨results, hlawful⟩

end Circuit

namespace Field

variable {rs : Registries} {clockPeriod i : Nat} {f : Field} {b : Build} {path : List Nat}
  {m : Component} {bus : Bus} {actions : List Action} {c : Circuit}

theorem flipFlop_of_build {depth : Nat} {edge : EdgeDetector} {output : Bool} (he : f.grid.Exact)
    (hb : buildWithin rs clockPeriod depth f = .ok b) (hm : m ∈ b.circuit.components)
    (hk : m.kind = .flipFlop edge output) : m.kind = .flipFlop {} false := by
  obtain hbuiltin | ⟨script, hs⟩ | ⟨pins, inner, hn⟩ := kind_of_build he hb hm
  · rw [hk] at hbuiltin ⊢
    cases hc : m.code <;> rw [hc] at hbuiltin <;> cases hbuiltin
    rfl
  · cases hk.symm.trans hs
  · cases hk.symm.trans hn

/-- In every run of ticks that succeed and toggles, and however deep it sits, a flip-flop shows what its
first input was when its clock last rose, and a clocked script is invoked once at every rise of its
clock, with the number of rises before, and keeps its outputs in between. -/
theorem run_actsOnRises (hr : rs.Exact) (he : f.grid.Exact) (hb : f.build rs clockPeriod = .ok b)
    (hm : b.circuit.located? i path = some (m, bus)) (hrun : b.circuit.run actions = some c) :
    b.circuit.ActsOnRises i path m actions c := by
  have htight : b.circuit.Tight [] := buildWithin_tight hr he hb fun id hid => by cases hid
  obtain ⟨d, hd, hmd, rfl⟩ := Circuit.located?_eq_some hm
  obtain ⟨f', depth, b', he', hb', rfl⟩ := built_of_inside? hr he hb hd
  have hmem := List.mem_of_getElem? hmd
  have hlow := Grid.level_of_mem_build ((buildWithin_eq rs clockPeriod depth f').symm.trans hb') m hmem
  have hdark := (buildWithin_wired he' hb').2.level
  have hclocked : ∀ unit, m.kind = .scripted unit → unit.script.trigger = .clocked →
      b.circuit.Tracked (Component.Answers unit.script) i path actions c := by
    intro unit hk hi
    rw [unit_of_build he' hb' hmem hk] at hk
    exact htight.tracked (Component.Answers.lasting unit.script) hm
      (fun rs => .start rs hi hk hlow hdark) hrun
  constructor
  case flipFlop =>
    intro edge output hk
    have hk := flipFlop_of_build he' hb' hmem hk
    exact htight.tracked Component.Latches.lasting hm (fun rs => .start rs hk hlow hdark) hrun
  case clocked =>
    intro unit hk hi
    exact ⟨hclocked unit hk hi, fun k v hv => (hclocked unit hk hi).clocked hv⟩
  case invocations =>
    intro unit hk hi
    exact ⟨History.clocked_inputs _ _ _, fun j call hcall => (hclocked unit hk hi).invocations rfl hcall⟩

end Field

/-- A clocked script that counts its runs modulo two. -/
def parity : Script where
  name := "parity"
  trigger := .clocked
  run _ runs memory := (memory, .ok [runs % 2 = 0])

/-- A part with a flip-flop inside, and the script. -/
def latchRegistries : Registries :=
  ⟨#[⟨[⟨"latch", .circuit ⟨"latch", ⟨3, 2, #v[.input, .flipFlop, .output,
      .clockInput, .flipFlop, .empty]⟩, ⟨1⟩⟩⟩, ⟨"parity", .script parity⟩]⟩, ⟨[]⟩]⟩

/-- A battery and a button that lead to input and clock of the latch; the button also clocks the script. -/
def sampleLatch : Field where
  name := "latched"
  grid := ⟨5, 5, #v[.battery, .output, .wire, .input, .custom 0,
    .empty, .empty, .empty, .empty, .custom 0,
    .button, .output, .wire, .clockInput, .custom 0,
    .empty, .empty, .wire, .empty, .empty,
    .empty, .empty, .wire, .clockInput, .custom 1]⟩
  registry := ⟨0⟩

/-- The button is pressed, released and pressed again. -/
def sampleClicks : List Action :=
  [.tick 0, .tick 0, .toggle 0, .tick 0, .tick 0, .toggle 0, .tick 0, .toggle 0, .tick 0, .tick 0]

theorem sampleLatch_actsOnRises : latchRegistries.Exact ∧ sampleLatch.grid.Exact ∧
    ∃ b c m n bus bus', sampleLatch.build latchRegistries 0 = .ok b ∧
      b.circuit.run sampleClicks = some c ∧
      b.circuit.located? 0 [2] = some (m, bus) ∧ m.kind.name = "flip-flop" ∧
      b.circuit.located? 5 [] = some (n, bus') ∧
      n.unit?.any (·.script.trigger = .clocked) = true ∧
      (b.circuit.readings 0 [2] sampleClicks).risings 7 = [4, 7] ∧
      (b.circuit.readings 0 [2] sampleClicks).latched 7 = true ∧
      b.circuit.ActsOnRises 0 [2] m sampleClicks c ∧ b.circuit.ActsOnRises 5 [] n sampleClicks c := by
  have hr : latchRegistries.Exact := by
    simp [Registries.Exact, latchRegistries]
    decide
  have he : sampleLatch.grid.Exact := by decide
  have hall : (sampleLatch.build latchRegistries 0).toOption.any (fun b =>
      (b.circuit.run sampleClicks).any fun _ =>
        (b.circuit.located? 0 [2]).any fun e => (b.circuit.located? 5 []).any fun e' =>
          decide (e.1.kind.name = "flip-flop" ∧
            e'.1.unit?.any (·.script.trigger = .clocked) = true ∧
            (b.circuit.readings 0 [2] sampleClicks).risings 7 = [4, 7] ∧
            (b.circuit.readings 0 [2] sampleClicks).latched 7 = true)) = true := by decide +kernel
  obtain ⟨b, hb, -⟩ := Field.buildWithin_circuitOf latchRegistries 0 maxNesting he
  have hb : sampleLatch.build latchRegistries 0 = .ok b := hb
  rw [hb, Except.toOption, Option.any_some] at hall
  obtain ⟨c, hc, hall⟩ := (Option.any_eq_true _ _).1 hall
  obtain ⟨⟨m, bus⟩, hm, hall⟩ := (Option.any_eq_true _ _).1 hall
  obtain ⟨⟨n, bus'⟩, hn, hall⟩ := (Option.any_eq_true _ _).1 hall
  obtain ⟨hmk, hnk, hrisings, hlatched⟩ := of_decide_eq_true hall
  exact ⟨hr, he, b, c, m, n, bus, bus', hb, hc, hm, hmk, hn, hnk, hrisings, hlatched,
    Field.run_actsOnRises hr he hb hm hc, Field.run_actsOnRises hr he hb hn hc⟩

end GridCircuit
