import GridCircuit.Proofs.EdgeRuns

/-!
# What clocks show

A clock measures its period from the poll at which it last flipped, or else from its first poll. A poll
that comes late makes the next period begin late, and this is not made up for: a clock is never fast, and
at every flip it loses at most the time between two polls. What a run of polls keeps is that the last of
them lies less than a period behind the last flip, while the flips before took a period each, or a gap
more. The unit of time does not matter.

In a circuit each tick is a poll of every clock in it, however deep it sits.
-/

namespace GridCircuit
namespace ClockPhase

variable {c : ClockPhase} {flip gap last now t : Nat} {times : List Nat}

/-- A clock that was not polled yet. -/
def fresh (period : Nat) : ClockPhase := { period }

/-- The clock once its timer runs. -/
def started (c : ClockPhase) (now : Nat) : ClockPhase := { c with lastFlip := some now }

/-- The clock after a flip. -/
def flipped (c : ClockPhase) (now : Nat) : ClockPhase := { c.started now with high := !c.high }

/-- Poll a clock at these times, one after another. -/
def pollAll (c : ClockPhase) (times : List Nat) : ClockPhase := times.foldl poll c

/-- The times of the polls that change the level. -/
def flips (c : ClockPhase) : List Nat → List Nat
  | [] => []
  | t :: times =>
    if (c.poll t).high = c.high then (c.poll t).flips times else t :: (c.poll t).flips times

/-- Polls that do not go back in time, at most `gap` apart. -/
def Regular (gap : Nat) (times : List Nat) : Prop := times.IsChain fun s t => s ≤ t ∧ t ≤ s + gap

instance (gap : Nat) (times : List Nat) : Decidable (Regular gap times) :=
  inferInstanceAs (Decidable (times.IsChain fun s t => s ≤ t ∧ t ≤ s + gap))

/-! ## One poll -/

@[simp] theorem period_started (c : ClockPhase) (now : Nat) : (c.started now).period = c.period := rfl

@[simp] theorem lastFlip_started (c : ClockPhase) (now : Nat) : (c.started now).lastFlip = some now := rfl

@[simp] theorem period_flipped (c : ClockPhase) (now : Nat) : (c.flipped now).period = c.period := rfl

@[simp] theorem lastFlip_flipped (c : ClockPhase) (now : Nat) : (c.flipped now).lastFlip = some now := rfl

theorem poll_first (h : c.lastFlip = none) (now : Nat) : c.poll now = c.started now := by
  rw [poll, h]
  rfl

theorem poll_due (h : c.lastFlip = some flip) (hdue : c.period ≤ now - flip) :
    c.poll now = c.flipped now := by
  rw [poll, h]
  exact if_pos hdue

theorem poll_early (h : c.lastFlip = some flip) (hearly : now - flip < c.period) : c.poll now = c := by
  rw [poll, h]
  exact if_neg (Nat.not_le_of_lt hearly)

theorem flips_first (h : c.lastFlip = none) (now : Nat) (times : List Nat) :
    c.flips (now :: times) = (c.started now).flips times := by
  rw [flips, poll_first h]
  exact if_pos rfl

theorem flips_due (h : c.lastFlip = some flip) (hdue : c.period ≤ now - flip) (times : List Nat) :
    c.flips (now :: times) = now :: (c.flipped now).flips times := by
  rw [flips, poll_due h hdue]
  exact if_neg (Bool.not_ne_self c.high)

theorem flips_early (h : c.lastFlip = some flip) (hearly : now - flip < c.period) (times : List Nat) :
    c.flips (now :: times) = c.flips times := by
  rw [flips, poll_early h hearly, if_pos rfl]

/-! ## Polls at any times -/

/-- The level counts the flips. -/
theorem high_pollAll (c : ClockPhase) (times : List Nat) :
    (c.pollAll times).high = (c.high ^^ decide ((c.flips times).length % 2 = 1)) := by
  induction times generalizing c with
  | nil => exact (Bool.xor_false c.high).symm
  | cons t times ih =>
    have hpoll : c.pollAll (t :: times) = (c.poll t).pollAll times := rfl
    rw [hpoll, ih, flips]
    split
    case isTrue hsame => rw [hsame]
    case isFalse hflip =>
      have hparity : ∀ k : Nat, decide ((k + 1) % 2 = 1) = !decide (k % 2 = 1) := by
        intro k
        rw [← decide_not, decide_eq_decide]
        omega
      rw [Bool.eq_not_of_ne hflip, List.length_cons, hparity, Bool.not_xor, Bool.xor_not]

/-- A flip comes at least a period after the one before, or after the poll that started the timer. -/
theorem le_sub_of_mem_flips (h : c.lastFlip = some flip) (ht : t ∈ c.flips times) :
    c.period ≤ t - flip := by
  induction times generalizing c flip with
  | nil => cases ht
  | cons now times ih =>
    rcases Nat.lt_or_ge (now - flip) c.period with hearly | hdue
    · rw [flips_early h hearly] at ht
      exact ih h ht
    · rw [flips_due h hdue, List.mem_cons] at ht
      rcases ht with rfl | ht
      · exact hdue
      · have hnext := ih (c.lastFlip_flipped now) ht
        rw [period_flipped] at hnext
        omega

theorem pairwise_flips (c : ClockPhase) (times : List Nat) :
    (c.flips times).Pairwise fun s t => c.period ≤ t - s := by
  induction times generalizing c with
  | nil => exact .nil
  | cons now times ih =>
    cases h : c.lastFlip with
    | none =>
      rw [flips_first h]
      exact ih (c.started now)
    | some flip =>
      rcases Nat.lt_or_ge (now - flip) c.period with hearly | hdue
      · rw [flips_early h hearly]
        exact ih c
      · rw [flips_due h hdue]
        refine .cons (fun t ht => ?_) (ih (c.flipped now))
        exact le_sub_of_mem_flips (c := c.flipped now) (c.lastFlip_flipped now) ht

/-- Time that runs backwards does not bring a flip nearer. -/
example : (fresh 10).flips [100, 40, 112, 90, 121, 122] = [112, 122] := by decide

/-- Without a period every poll is a flip. -/
theorem flips_of_period_zero (hp : c.period = 0) (h : c.lastFlip = some flip) (times : List Nat) :
    c.flips times = times := by
  induction times generalizing c flip with
  | nil => rfl
  | cons now times ih =>
    rw [flips_due h (hp ▸ Nat.zero_le _), ih (c := c.flipped now) hp (c.lastFlip_flipped now)]

/-! ## Regular polls -/

/-- The last poll lies less than a period behind the last flip. Every flip takes a period at least, and
at most a gap more. -/
theorem bounds_of_regular (hp : 0 < c.period) (h : c.lastFlip = some flip) (hflip : flip ≤ last)
    (hlast : last < flip + c.period) (hpolls : Regular gap (last :: times)) :
    flip + (c.flips times).length * c.period ≤ times.getLastD last ∧
      times.getLastD last < flip + (c.flips times).length * (c.period + gap) + c.period := by
  induction times generalizing c flip last with
  | nil => simpa [flips] using ⟨hflip, hlast⟩
  | cons now times ih =>
    obtain ⟨⟨hle, hgap⟩, hrest⟩ := List.isChain_cons_cons.1 hpolls
    rw [List.getLastD_cons]
    rcases Nat.lt_or_ge (now - flip) c.period with hearly | hdue
    · rw [flips_early h hearly]
      exact ih hp h (Nat.le_trans hflip hle) (by omega) hrest
    · obtain ⟨hfast, hslow⟩ := ih (c := c.flipped now) hp (c.lastFlip_flipped now) (Nat.le_refl now)
        (Nat.lt_add_of_pos_right hp) hrest
      rw [period_flipped] at hfast hslow
      rw [flips_due h hdue, List.length_cons, Nat.succ_mul, Nat.succ_mul]
      omega

/-- What a new clock does that is polled at `start` and then at these times. -/
structure KeepsTime (period gap start : Nat) (times : List Nat) : Prop where
  fresh_low : (fresh period).high = false
  first_low : ((fresh period).poll start).high = false
  level : ((fresh period).pollAll (start :: times)).high =
    decide (((fresh period).flips (start :: times)).length % 2 = 1)
  /-- There were no more flips than periods have passed, and no fewer than it takes if all are late. -/
  bounds : 0 < period → Regular gap (start :: times) →
    ((fresh period).flips (start :: times)).length * period ≤ times.getLastD start - start ∧
      (times.getLastD start - start) / (period + gap) ≤ ((fresh period).flips (start :: times)).length
  /-- Of two flips the later one is a period ahead, whatever the times of the polls. -/
  apart : ((fresh period).flips (start :: times)).Pairwise fun s t => period ≤ t - s
  every : period = 0 → (fresh period).flips (start :: times) = times

/-- A clock is never fast, and how late it is depends on the polls alone. As the times are any, this says
how the clock stands after each poll of a longer list. -/
theorem keepsTime (period gap start : Nat) (times : List Nat) : KeepsTime period gap start times := by
  have hflips : (fresh period).flips (start :: times) = ((fresh period).started start).flips times :=
    flips_first rfl start times
  have hstarted : ((fresh period).started start).lastFlip = some start := lastFlip_started _ start
  constructor
  case fresh_low => rfl
  case first_low => rfl
  case level => rw [high_pollAll, show (fresh period).high = false from rfl, Bool.false_xor]
  case bounds =>
    intro hp hpolls
    obtain ⟨hfast, hslow⟩ := bounds_of_regular (c := (fresh period).started start) hp hstarted
      (Nat.le_refl start) (Nat.lt_add_of_pos_right hp) hpolls
    rw [period_started, ← hflips] at hfast hslow
    have hperiod : (fresh period).period = period := rfl
    rw [hperiod] at hfast hslow
    refine ⟨by omega, Nat.le_of_lt_succ ?_⟩
    rw [Nat.div_lt_iff_lt_mul (Nat.add_pos_left hp gap), Nat.succ_mul]
    omega
  case apart => exact pairwise_flips (fresh period) (start :: times)
  case every =>
    intro hp
    rw [hflips, flips_of_period_zero (c := (fresh period).started start) hp hstarted]

def samplePolls : List Nat := [104, 109, 113, 118, 121, 124, 129, 133, 134]

theorem samplePolls_keepsTime : 0 < 10 ∧ Regular 5 (100 :: samplePolls) ∧
    (fresh 10).flips (100 :: samplePolls) = [113, 124, 134] ∧
    KeepsTime 10 5 100 samplePolls ∧ 3 * 10 ≤ 134 - 100 ∧ (134 - 100) / (10 + 5) ≤ 3 :=
  ⟨by decide, by decide, by decide, keepsTime 10 5 100 samplePolls,
    (keepsTime 10 5 100 samplePolls).bounds (by decide) (by decide)⟩

end ClockPhase

/-! ## Clocks in a circuit -/

section Runs

variable {rs : Registries} {clockPeriod i : Nat} {f : Field} {b : Build} {path : List Nat}
  {m : Component} {phase : ClockPhase} {bus outer : Bus} {actions : List Action} {c c' : Circuit}

/-- What a clock reads in the course of some actions that has these first cells above it, the outermost
first, and its own. -/
def Action.readings (place : List Pos) (actions : List Action) : List Nat :=
  (actions.filterMap Action.times?).map (·.read place)

theorem Times.read_along (now : Times) (hosts place : List Pos) :
    (now.along hosts).read place = now.read (hosts ++ place) := by
  induction hosts generalizing now with
  | nil => rfl
  | cons p hosts ih => exact ih (now.inside p)

theorem Component.update_clock (hk : m.kind = .clock phase) (now : Times) (bus : Bus) :
    (m.update now bus).value =
      { m with
        kind := .clock (phase.poll (now.read [m.firstCell]))
        level := (phase.poll (now.read [m.firstCell])).high } := by
  have hplain : m.update now bus = m.updatePlain now bus :=
    update_plain (fun unit hu => by cases hk.symm.trans hu) fun pins inner hn => by
      cases hk.symm.trans hn
  rw [hplain, updatePlain, hk]
  rfl

/-- Every tick of a run polls a clock once, and nothing else touches it. -/
theorem Circuit.Tight.run_clock (h : c.Tight []) (hm : c.located? i path = some (m, outer))
    (hk : m.kind = .clock phase) (hlevel : m.level = phase.high) (hrun : c.run actions = some c') :
    ∃ m' outer', c'.located? i path = some (m', outer') ∧
      m'.kind = .clock (phase.pollAll (Action.readings (c.hosts path ++ [m.firstCell]) actions)) ∧
      m'.level = (phase.pollAll (Action.readings (c.hosts path ++ [m.firstCell]) actions)).high := by
  induction actions generalizing c m outer phase with
  | nil =>
    obtain rfl := Option.some.inj hrun
    exact ⟨m, outer, hm, hk, hlevel⟩
  | cons action actions ih =>
    have hgate : m.isWire = false := by rw [Component.isWire, hk]; rfl
    have hbutton : m.isButton = false := by rw [Component.isButton, hk]; rfl
    cases action with
    | toggle j =>
      have hrest := ih (h.act (.toggle j)) (toggle_located? hm hbutton j) hk hlevel hrun
      rwa [Circuit.act, toggle_hosts] at hrest
    | tick now =>
      obtain ⟨hok, hrun⟩ := run_of_tick hrun
      obtain ⟨bus, outer', hpass⟩ := h.passes hok hm hgate
      have hlocated := hpass.located
      rw [Component.update_clock hk, Times.read_along] at hlocated
      have hrest := ih (h.act (.tick now)) hlocated rfl rfl hrun
      rwa [Circuit.act, hpass.hosts] at hrest

theorem Field.clock_of_build {depth : Nat} (he : f.grid.Exact)
    (hb : buildWithin rs clockPeriod depth f = .ok b) (hm : m ∈ b.circuit.components)
    (hk : m.kind = .clock phase) : phase = .fresh clockPeriod := by
  obtain hbuiltin | ⟨script, hs⟩ | ⟨pins, inner, hn⟩ := kind_of_build he hb hm
  · rw [hk] at hbuiltin
    cases hc : m.code <;> rw [hc] at hbuiltin <;> cases hbuiltin
    rfl
  · cases hk.symm.trans hs
  · cases hk.symm.trans hn

/-- In every run of ticks that succeed and toggles, and however deep it sits, a clock is polled once in
each tick, at the time that it reads then, and shows whether the number of its flips is odd. -/
theorem Field.run_clock (hr : rs.Exact) (he : f.grid.Exact) (hb : f.build rs clockPeriod = .ok b)
    (hm : b.circuit.located? i path = some (m, bus)) (hk : m.kind = .clock phase)
    (hrun : b.circuit.run actions = some c) :
    let times := Action.readings (b.circuit.hosts path ++ [m.firstCell]) actions
    ∃ n outer, c.located? i path = some (n, outer) ∧
      n.kind = .clock ((ClockPhase.fresh clockPeriod).pollAll times) ∧
      n.level = decide (((ClockPhase.fresh clockPeriod).flips times).length % 2 = 1) := by
  intro times
  have htight : b.circuit.Tight [] := buildWithin_tight hr he hb fun id hid => by cases hid
  obtain ⟨d, hd, hmd, rfl⟩ := Circuit.located?_eq_some hm
  obtain ⟨f', depth, b', he', hb', rfl⟩ := built_of_inside? hr he hb hd
  have hmem := List.mem_of_getElem? hmd
  obtain rfl := clock_of_build he' hb' hmem hk
  have hlow := Grid.level_of_mem_build ((buildWithin_eq rs clockPeriod depth f').symm.trans hb') m hmem
  obtain ⟨n, outer, hn, hkind, hlevel⟩ := htight.run_clock hm hk hlow hrun
  refine ⟨n, outer, hn, hkind, hlevel.trans ?_⟩
  rw [ClockPhase.high_pollAll]
  exact Bool.false_xor _

end Runs

end GridCircuit
