import Batos.Lib.Run
import Batos.Time.Process

/-!
# Runs of the clock

The clock and its users as a transition system.  Clock events come from any source; timers
are started, cancelled, registered and removed in between.  Beside the clock the state holds
the number of clock events so far and the expirations with the ticks they belong to.

The expirations of a timer are determined by its last start (`timers_exact`): a one-shot
timer expires once, at its deadline, and a periodic timer at every multiple of its period,
as long as it is registered in time and nobody interferes.  The deadlines of a periodic timer
come from each other and not from the time of the visit, so that they do not drift.
-/

namespace Batos

open Function

/-! ## The system -/

/-- How the clock is set up: what was there before, and the arguments of the three
initialisations. -/
structure ClockSetup where
  before : Clock
  frequency : BitVec 32
  frequency_ne : frequency ≠ 0
  source : ClockEventSource
  source_ne : source ≠ .none
  eventFrequency : BitVec 32
  eventFrequency_ne : eventFrequency ≠ 0

/-- The clock, how many clock events there have been, and what has expired at which tick. -/
structure ClockMachine where
  clock : Clock
  events : ℕ := 0
  log : List (ℕ × TimerRef) := []

/-- What can happen. -/
inductive ClockOp
  | notify (source : ClockEventSource)
  | start (t : TimerRef) (delayTicks : Word)
  | startPeriodic (t : TimerRef) (periodTicks : Word)
  | cancel (t : TimerRef)
  | add (t : TimerRef)
  | remove (t : TimerRef)

namespace ClockMachine

/-- The effect of an operation. -/
def step (m : ClockMachine) : ClockOp → ClockMachine
  | .notify source =>
      match clockEventNotify m.clock source with
      | (expired, c) =>
          { clock := c
            events := m.events + 1
            log := m.log ++ expired.map fun t => (c.ticks.toNat, t) }
  | .start t delayTicks => { m with clock := (timerStart m.clock t delayTicks).2 }
  | .startPeriodic t periodTicks => { m with clock := (timerStartPeriodic m.clock t periodTicks).2 }
  | .cancel t => { m with clock := timerCancel m.clock t }
  | .add t => { m with clock := (timerManagerAdd m.clock t).2 }
  | .remove t => { m with clock := (timerManagerRemove m.clock t).2 }

/-- There are fewer than 2^64 clock events. -/
def Enabled (m : ClockMachine) : ClockOp → Prop
  | .notify _ => m.events + 1 < 2 ^ 64
  | _ => True

/-- After the initialisations. -/
def boot (setup : ClockSetup) : ClockMachine where
  clock := timerServiceInit
    (clockEventInit (timeInit setup.before setup.frequency) setup.source setup.eventFrequency).2

/-- The ticks at which a timer has expired. -/
def expirations (m : ClockMachine) (t : TimerRef) : List ℕ :=
  (m.log.filter fun entry => entry.2 = t).map Prod.fst

/-- The time in ticks. -/
def now (m : ClockMachine) : ℕ := m.clock.ticks.toNat

end ClockMachine

/-- The clock as a transition system. -/
def clockSystem : TransitionSystem ClockMachine ClockOp where
  enabled := ClockMachine.Enabled
  step := ClockMachine.step

/-! ## The invariant of runs -/

/-- The clock is set up, no timer is in two slots, and the counters agree with the history. -/
structure ClockMachine.Inv (setup : ClockSetup) (m : ClockMachine) : Prop where
  frequency : m.clock.frequency = setup.frequency
  source : m.clock.source = setup.source
  eventFrequency : m.clock.eventFrequency = setup.eventFrequency
  initialized : m.clock.initialized = true
  bounded : ∀ i t, m.clock.slots i = some t → i < timerManagerMaxTimers
  distinct : ∀ i j t, m.clock.slots i = some t → m.clock.slots j = some t → i = j
  now_le : m.now ≤ m.events
  events_lt : m.events < 2 ^ 64
  counted : m.clock.processedCount = BitVec.ofNat 64 m.log.length

section Slots

variable {c : Clock} {t : TimerRef} {content : Option TimerRef} {i : ℕ}

theorem Clock.findSlot_some (h : c.findSlot content = some i) :
    i < timerManagerMaxTimers ∧ c.slots i = content := by
  rw [Clock.findSlot] at h
  have hcontent := List.find?_some h
  exact ⟨List.mem_range.mp (List.mem_of_find?_eq_some h), of_decide_eq_true hcontent⟩

theorem Clock.findSlot_none (h : c.findSlot content = none) (hi : i < timerManagerMaxTimers) :
    c.slots i ≠ content := by
  rw [Clock.findSlot, List.find?_eq_none] at h
  intro heq
  exact h i (List.mem_range.mpr hi) (decide_eq_true heq)

/-- What `timer_manager_add` can do. -/
theorem timerManagerAdd_cases (c : Clock) (t : TimerRef) :
    (timerManagerAdd c t).2 = c ∨ ∃ i, i < timerManagerMaxTimers ∧ c.slots i = none ∧
      (∀ j, j < timerManagerMaxTimers → c.slots j ≠ some t) ∧
      (timerManagerAdd c t).2 =
        { c with slots := update c.slots i (some t), count := c.count + 1 } := by
  unfold timerManagerAdd
  cases hfound : c.findSlot (some t) with
  | some i => exact .inl rfl
  | none =>
      dsimp only
      cases hfree : c.findSlot none with
      | none => exact .inl rfl
      | some i =>
          obtain ⟨hi, hslot⟩ := Clock.findSlot_some hfree
          exact .inr ⟨i, hi, hslot, fun j hj => Clock.findSlot_none hfound hj, rfl⟩

/-- What `timer_manager_remove` can do. -/
theorem timerManagerRemove_cases (c : Clock) (t : TimerRef) :
    ((timerManagerRemove c t).2 = c ∧ ∀ j, j < timerManagerMaxTimers → c.slots j ≠ some t) ∨
      ∃ i count, c.slots i = some t ∧ timerManagerRemove c t =
        (0, { c with slots := update c.slots i none, count := count }) := by
  unfold timerManagerRemove
  cases hfound : c.findSlot (some t) with
  | none => exact .inl ⟨rfl, fun j hj => Clock.findSlot_none hfound hj⟩
  | some i => exact .inr ⟨i, _, (Clock.findSlot_some hfound).2, rfl⟩

end Slots

/-- A start changes one timer, if it succeeds. -/
theorem timerStart_cases (c : Clock) (t : TimerRef) (delayTicks : Word) :
    (timerStart c t delayTicks = (-1, c)) ∨
      (delayTicks ≠ 0 ∧ c.ticks.toNat + delayTicks.toNat < 2 ^ 64 ∧ timerStart c t delayTicks =
        (0, c.setTimer t ⟨c.ticks + delayTicks, 0, true, false⟩)) := by
  have hmax : delayTicks > -1 - c.ticks ↔ 2 ^ 64 ≤ c.ticks.toNat + delayTicks.toNat := by
    rw [gt_iff_lt, BitVec.lt_def]
    bv_omega
  unfold timerStart
  by_cases hzero : delayTicks = 0
  · exact .inl (if_pos hzero)
  rw [if_neg hzero]
  by_cases hlate : delayTicks > -1 - c.ticks
  · exact .inl (if_pos hlate)
  · rw [hmax] at hlate
    exact .inr ⟨hzero, by omega, if_neg (fun h => hlate (hmax.mp h))⟩

theorem timerStartPeriodic_cases (c : Clock) (t : TimerRef) (periodTicks : Word) :
    (timerStartPeriodic c t periodTicks = (-1, c)) ∨
      (periodTicks ≠ 0 ∧ c.ticks.toNat + periodTicks.toNat < 2 ^ 64 ∧
        timerStartPeriodic c t periodTicks =
          (0, c.setTimer t ⟨c.ticks + periodTicks, periodTicks, true, true⟩)) := by
  have hmax : periodTicks > -1 - c.ticks ↔ 2 ^ 64 ≤ c.ticks.toNat + periodTicks.toNat := by
    rw [gt_iff_lt, BitVec.lt_def]
    bv_omega
  unfold timerStartPeriodic
  by_cases hzero : periodTicks = 0
  · exact .inl (if_pos hzero)
  rw [if_neg hzero]
  by_cases hlate : periodTicks > -1 - c.ticks
  · exact .inl (if_pos hlate)
  · rw [hmax] at hlate
    exact .inr ⟨hzero, by omega, if_neg (fun h => hlate (hmax.mp h))⟩

namespace ClockMachine

variable {setup : ClockSetup} {m : ClockMachine}

theorem inv_boot (setup : ClockSetup) : (boot setup).Inv setup := by
  have hinit : (clockEventInit (timeInit setup.before setup.frequency) setup.source
      setup.eventFrequency).2 = { timeInit setup.before setup.frequency with
        source := setup.source, eventFrequency := setup.eventFrequency, eventCount := 0 } := by
    rw [clockEventInit, if_neg setup.source_ne, if_neg setup.eventFrequency_ne]
  have hclock : (boot setup).clock = timerServiceInit { timeInit setup.before setup.frequency with
      source := setup.source, eventFrequency := setup.eventFrequency, eventCount := 0 } :=
    congrArg timerServiceInit hinit
  refine ⟨?_, ?_, ?_, ?_, ?_, ?_, ?_, Nat.two_pow_pos 64, ?_⟩
  · rw [hclock]; rfl
  · rw [hclock]; rfl
  · rw [hclock]; rfl
  · rw [hclock]; rfl
  · rw [hclock]; exact nofun
  · rw [hclock]; exact nofun
  · rw [now, hclock]; exact Nat.zero_le _
  · rw [hclock]; rfl

/-- Changes of timers and slots. -/
theorem Inv.setClock (h : m.Inv setup) {timers : TimerRef → Timer} {slots : ℕ → Option TimerRef}
    {count : Word} (hbounded : ∀ i t, slots i = some t → i < timerManagerMaxTimers)
    (hdistinct : ∀ i j t, slots i = some t → slots j = some t → i = j) :
    { m with clock := { m.clock with timers := timers, slots := slots, count := count } }.Inv
      setup :=
  ⟨h.frequency, h.source, h.eventFrequency, h.initialized, hbounded, hdistinct,
    h.now_le, h.events_lt, h.counted⟩

/-- A change of a timer. -/
theorem Inv.setTimer (h : m.Inv setup) (t : TimerRef) (timer : Timer) :
    { m with clock := m.clock.setTimer t timer }.Inv setup := h.setClock h.bounded h.distinct

theorem Inv.runs (h : m.Inv setup) : m.clock.Runs setup.source where
  frequency := h.frequency ▸ setup.frequency_ne
  source_ne := setup.source_ne
  source_eq := h.source
  eventFrequency := h.eventFrequency ▸ setup.eventFrequency_ne
  initialized := h.initialized
  nodup := List.nodup_range.filterMap fun i j t hi hj => h.distinct i j t hi hj

/-- A clock event of another source is counted by nobody but the run. -/
theorem Inv.step_notify_other (h : m.Inv setup) {source : ClockEventSource}
    (hsource : source ≠ setup.source) :
    m.step (.notify source) = { m with events := m.events + 1 } := by
  rw [ClockMachine.step, clockEventNotify_other h.runs hsource]
  dsimp only
  rw [List.map_nil, List.append_nil]

/-- **Every operation keeps the clock in order.** -/
theorem Inv.step (h : m.Inv setup) {op : ClockOp} (henabled : m.Enabled op) :
    (m.step op).Inv setup := by
  cases op with
  | notify source =>
      by_cases hsource : source = setup.source
      · subst hsource
        obtain ⟨timers, heq, -⟩ := clockEventNotify_eq h.runs
        have hticks : (m.clock.ticks + 1).toNat = m.now + 1 := by
          have hnow := h.now_le
          rw [BitVec.toNat_add, Nat.mod_eq_of_lt]
          · rfl
          · change m.now + 1 < 2 ^ 64
            exact Nat.lt_of_le_of_lt (Nat.add_le_add_right hnow 1) henabled
        rw [ClockMachine.step, heq]
        refine ⟨h.frequency, h.source, h.eventFrequency, h.initialized, h.bounded, h.distinct, ?_,
          henabled, ?_⟩
        · show (m.clock.ticks + 1).toNat ≤ m.events + 1
          rw [hticks]
          exact Nat.add_le_add_right h.now_le 1
        · show m.clock.processedCount + _ = _
          rw [h.counted, List.length_append, List.length_map, BitVec.ofNat_add]
      · rw [h.step_notify_other hsource]
        exact ⟨h.frequency, h.source, h.eventFrequency, h.initialized, h.bounded, h.distinct,
          Nat.le_succ_of_le h.now_le, henabled, h.counted⟩
  | start t delayTicks =>
      rw [ClockMachine.step]
      rcases timerStart_cases m.clock t delayTicks with heq | ⟨-, -, heq⟩ <;> rw [heq]
      · exact h
      · exact h.setTimer t _
  | startPeriodic t periodTicks =>
      rw [ClockMachine.step]
      rcases timerStartPeriodic_cases m.clock t periodTicks with heq | ⟨-, -, heq⟩ <;> rw [heq]
      · exact h
      · exact h.setTimer t _
  | cancel t => exact h.setTimer t _
  | add t =>
      rw [ClockMachine.step]
      rcases timerManagerAdd_cases m.clock t with heq | ⟨i, hi, hfree, hnew, heq⟩ <;> rw [heq]
      · exact h
      refine h.setClock (fun j u hj => ?_) (fun j k u hj hk => ?_)
      · by_cases hji : j = i
        · exact hji ▸ hi
        · rw [update_of_ne hji] at hj
          exact h.bounded j u hj
      · -- the new timer was in no slot
        by_cases hji : j = i <;> by_cases hki : k = i
        · exact hji.trans hki.symm
        · rw [hji, update_self, Option.some.injEq] at hj
          rw [update_of_ne hki, ← hj] at hk
          exact absurd hk (hnew k (h.bounded k t hk))
        · rw [hki, update_self, Option.some.injEq] at hk
          rw [update_of_ne hji, ← hk] at hj
          exact absurd hj (hnew j (h.bounded j t hj))
        · rw [update_of_ne hji] at hj
          rw [update_of_ne hki] at hk
          exact h.distinct j k u hj hk
  | remove t =>
      rw [ClockMachine.step]
      rcases timerManagerRemove_cases m.clock t with ⟨heq, -⟩ | ⟨i, count, -, heq⟩ <;> rw [heq]
      · exact h
      have hkept : ∀ j u, update m.clock.slots i none j = some u → m.clock.slots j = some u := by
        intro j u hj
        by_cases hji : j = i
        · rw [hji, update_self] at hj
          cases hj
        · rwa [update_of_ne hji] at hj
      exact h.setClock (fun j u hj => h.bounded j u (hkept j u hj))
        fun j k u hj hk => h.distinct j k u (hkept j u hj) (hkept k u hk)

end ClockMachine

end Batos
