import Batos.Pmm.Model
import Mathlib.Logic.Function.Basic

/-!
# Time and timers

`time.c`, `timer.c`, `timer_manager.c`, `timer_service.c` and `clock_event.c`.  A clock
event of the configured source advances the time by one tick and lets the timer service
look at the registered timers.  A timer that has reached its deadline expires: a one-shot
timer becomes inactive, a periodic one gets its next deadline.

The timer manager keeps at most 64 timers in slots that are used again.  What it does with
an expired timer besides the rearming is to count it; `timerManagerProcess` returns the
expired timers themselves, of which the source returns the number.
-/

namespace Batos

/-- A pointer to a `struct timer`. -/
abbrev TimerRef := ℕ

/-- `struct timer`. -/
structure Timer where
  deadline : Word := 0
  period : Word := 0
  active : Bool := false
  periodic : Bool := false
deriving DecidableEq, Repr

/-- `enum clock_event_source`. -/
inductive ClockEventSource
  | none
  | pit
  | lapic
deriving DecidableEq, Repr

/-- `TIMER_MANAGER_MAX_TIMERS`. -/
def timerManagerMaxTimers : ℕ := 64

/-- The timers, and the variables of the five files. -/
structure Clock where
  timers : TimerRef → Timer
  /-- `time_ticks`. -/
  ticks : Word := 0
  /-- `time_frequency`. -/
  frequency : BitVec 32 := 0
  /-- `clock_event_source`. -/
  source : ClockEventSource := .none
  /-- `clock_event_frequency`. -/
  eventFrequency : BitVec 32 := 0
  /-- `clock_event_count`. -/
  eventCount : Word := 0
  /-- `timer_manager_timers`. -/
  slots : ℕ → Option TimerRef := fun _ => Option.none
  /-- `timer_manager_count`. -/
  count : Word := 0
  /-- `timer_service_initialized`. -/
  initialized : Bool := false
  /-- `timer_service_processed_count`. -/
  processedCount : Word := 0

/-! ## `time.c` -/

/-- `time_init`. -/
def timeInit (c : Clock) (frequency : BitVec 32) : Clock :=
  { c with ticks := 0, frequency := frequency }

/-- `time_tick`. -/
def timeTick (c : Clock) : Clock :=
  if c.frequency = 0 then c else { c with ticks := c.ticks + 1 }

/-! ## `timer.c` -/

/-- The timer is written. -/
def Clock.setTimer (c : Clock) (t : TimerRef) (timer : Timer) : Clock :=
  { c with timers := Function.update c.timers t timer }

/-- `timer_start`. -/
def timerStart (c : Clock) (t : TimerRef) (delayTicks : Word) : ℤ × Clock :=
  if delayTicks = 0 then (-1, c)
  else if delayTicks > -1 - c.ticks then (-1, c)
  else
    (0, c.setTimer t
      { deadline := c.ticks + delayTicks, period := 0, active := true, periodic := false })

/-- `timer_start_periodic`. -/
def timerStartPeriodic (c : Clock) (t : TimerRef) (periodTicks : Word) : ℤ × Clock :=
  if periodTicks = 0 then (-1, c)
  else if periodTicks > -1 - c.ticks then (-1, c)
  else
    (0, c.setTimer t
      { deadline := c.ticks + periodTicks, period := periodTicks, active := true,
        periodic := true })

/-- `timer_cancel`. -/
def timerCancel (c : Clock) (t : TimerRef) : Clock :=
  c.setTimer t { c.timers t with active := false }

/-- `timer_is_expired`. -/
def timerIsExpired (c : Clock) (t : TimerRef) : Bool :=
  if (c.timers t).active = false then false else decide (c.ticks ≥ (c.timers t).deadline)

/-- `timer_rearm`. -/
def timerRearm (c : Clock) (t : TimerRef) : ℤ × Clock :=
  let timer := c.timers t
  if timer.active = false then (-1, c)
  else if timer.periodic = false then (0, c.setTimer t { timer with active := false })
  else if timer.period = 0 then (-1, c)
  else if timer.deadline > -1 - timer.period then (-1, c.setTimer t { timer with active := false })
  else (0, c.setTimer t { timer with deadline := timer.deadline + timer.period })

/-! ## `timer_manager.c` -/

/-- `timer_manager_init`. -/
def timerManagerInit (c : Clock) : Clock := { c with slots := fun _ => none, count := 0 }

/-- The first slot that holds what is looked for. -/
def Clock.findSlot (c : Clock) (content : Option TimerRef) : Option ℕ :=
  (List.range timerManagerMaxTimers).find? fun i => c.slots i = content

/-- `timer_manager_add`. -/
def timerManagerAdd (c : Clock) (t : TimerRef) : ℤ × Clock :=
  match c.findSlot (some t) with
  | some _ => (-1, c)
  | none =>
      match c.findSlot none with
      | none => (-1, c)
      | some i => (0, { c with slots := Function.update c.slots i (some t), count := c.count + 1 })

/-- `timer_manager_remove`. -/
def timerManagerRemove (c : Clock) (t : TimerRef) : ℤ × Clock :=
  match c.findSlot (some t) with
  | none => (-1, c)
  | some i =>
      (0, { c with
        slots := Function.update c.slots i none
        count := if c.count > 0 then c.count - 1 else c.count })

/-- The loop of `timer_manager_process` from a slot on: the timers that expire, in the order
of their slots. -/
def timerManagerVisit (c : Clock) : List ℕ → List TimerRef × Clock
  | [] => ([], c)
  | i :: slots =>
      match c.slots i with
      | none => timerManagerVisit c slots
      | some t =>
          if timerIsExpired c t = false then timerManagerVisit c slots
          else
            match timerManagerVisit (timerRearm c t).2 slots with
            | (expired, c) => (t :: expired, c)

/-- `timer_manager_process`. -/
def timerManagerProcess (c : Clock) : List TimerRef × Clock :=
  timerManagerVisit c (List.range timerManagerMaxTimers)

/-! ## `timer_service.c` -/

/-- `timer_service_init`. -/
def timerServiceInit (c : Clock) : Clock :=
  { timerManagerInit c with processedCount := 0, initialized := true }

/-- `timer_service_tick`. -/
def timerServiceTick (c : Clock) : List TimerRef × Clock :=
  if c.initialized = false then ([], c)
  else
    match timerManagerProcess c with
    | (expired, c) =>
        (expired, { c with processedCount := c.processedCount + BitVec.ofNat 64 expired.length })

/-! ## `clock_event.c` -/

/-- `clock_event_init`. -/
def clockEventInit (c : Clock) (source : ClockEventSource) (frequency : BitVec 32) : ℤ × Clock :=
  if source = .none then (-1, c)
  else if frequency = 0 then (-2, c)
  else (0, { c with source := source, eventFrequency := frequency, eventCount := 0 })

/-- `clock_event_notify`, with the timers that expire. -/
def clockEventNotify (c : Clock) (source : ClockEventSource) : List TimerRef × Clock :=
  if c.source = .none ∨ c.eventFrequency = 0 then ([], c)
  else if source ≠ c.source then ([], c)
  else timerServiceTick (timeTick { c with eventCount := c.eventCount + 1 })

end Batos
