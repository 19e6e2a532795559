import Batos.Time.Model
import Mathlib.Data.List.Nodup

/-!
# One tick

What a clock event of the configured source does.  The timer service visits the slots one
after the other.  No timer is in two slots, so what it finds at a slot does not depend on
what it has done before: the timers that expire are those that are registered and have
reached their deadlines when the tick begins (`expiring`), and all others are left alone
(`timerManagerProcess_eq`).
-/

namespace Batos

/-- What `timer_rearm` makes of an active timer. -/
def Timer.rearmed (timer : Timer) : Timer :=
  if timer.periodic = false then { timer with active := false }
  else if timer.period = 0 then timer
  else if timer.deadline > -1 - timer.period then { timer with active := false }
  else { timer with deadline := timer.deadline + timer.period }

/-- The registered timers, in the order of their slots. -/
def Clock.registered (c : Clock) : List TimerRef :=
  (List.range timerManagerMaxTimers).filterMap c.slots

/-- The registered timers that have reached their deadlines. -/
def Clock.expiring (c : Clock) : List TimerRef := c.registered.filter (timerIsExpired c)

section Visit

variable {c : Clock} {t : TimerRef}

theorem timerRearm_eq (hactive : (c.timers t).active = true) :
    (timerRearm c t).2 = c.setTimer t (c.timers t).rearmed := by
  have hself : c.setTimer t (c.timers t) = c := by
    rw [Clock.setTimer, Function.update_eq_self]
  unfold timerRearm Timer.rearmed
  dsimp only
  rw [if_neg (by simp [hactive])]
  split_ifs
  · rfl
  · exact hself.symm
  · rfl
  · rfl

theorem active_of_expired (h : timerIsExpired c t = true) : (c.timers t).active = true := by
  unfold timerIsExpired at h
  split_ifs at h with hactive
  simpa using hactive

/-- Other timers do not matter. -/
theorem timerIsExpired_congr {c' : Clock} (htimer : c'.timers t = c.timers t)
    (hticks : c'.ticks = c.ticks) : timerIsExpired c' t = timerIsExpired c t := by
  rw [timerIsExpired, timerIsExpired, htimer, hticks]

/-- **The loop of `timer_manager_process`** when no timer is in two of the slots. -/
theorem timerManagerVisit_eq (slots : List ℕ) (hnodup : (slots.filterMap c.slots).Nodup) :
    ∃ timers, timerManagerVisit c slots =
        ((slots.filterMap c.slots).filter (timerIsExpired c), { c with timers := timers }) ∧
      ∀ u, timers u = if u ∈ (slots.filterMap c.slots).filter (timerIsExpired c)
        then (c.timers u).rearmed else c.timers u := by
  induction slots generalizing c with
  | nil => exact ⟨c.timers, rfl, fun u => rfl⟩
  | cons i slots ih =>
      rw [timerManagerVisit]
      cases hslot : c.slots i with
      | none =>
          rw [List.filterMap_cons_none hslot] at hnodup ⊢
          exact ih hnodup
      | some t =>
          rw [List.filterMap_cons_some hslot] at hnodup ⊢
          obtain ⟨hfresh, hnodup⟩ := List.nodup_cons.mp hnodup
          dsimp only
          cases hexpired : timerIsExpired c t with
          | false =>
              rw [if_pos rfl, List.filter_cons_of_neg (by simp [hexpired])]
              exact ih hnodup
          | true =>
              rw [if_neg (by simp), timerRearm_eq (active_of_expired hexpired),
                List.filter_cons_of_pos hexpired]
              obtain ⟨timers, heq, htimers⟩ := ih (c := c.setTimer t (c.timers t).rearmed) hnodup
              -- the timers behind this slot are other timers
              have hother : ∀ u, u ≠ t →
                  (c.setTimer t (c.timers t).rearmed).timers u = c.timers u :=
                fun u hu => Function.update_of_ne hu _ _
              have hfilter : (slots.filterMap c.slots).filter
                  (timerIsExpired (c.setTimer t (c.timers t).rearmed)) =
                    (slots.filterMap c.slots).filter (timerIsExpired c) := by
                apply List.filter_congr
                intro u hu
                apply timerIsExpired_congr (hother u ?_) rfl
                rintro rfl
                exact hfresh hu
              refine ⟨timers, ?_, fun u => ?_⟩
              · rw [heq]
                exact Prod.ext (congrArg (List.cons t) hfilter) rfl
              · rw [htimers u]
                change (if u ∈ (slots.filterMap c.slots).filter _ then _ else _) = _
                rw [hfilter]
                by_cases hu : u = t
                · subst hu
                  have hnot : u ∉ (slots.filterMap c.slots).filter (timerIsExpired c) :=
                    fun hmem => hfresh (List.mem_of_mem_filter hmem)
                  rw [if_neg hnot, if_pos List.mem_cons_self]
                  exact Function.update_self _ _ _
                · rw [hother u hu]
                  simp only [List.mem_cons, hu, false_or]

/-- **`timer_manager_process`** rearms the timers that expire, and nothing else. -/
theorem timerManagerProcess_eq (hnodup : c.registered.Nodup) :
    ∃ timers, timerManagerProcess c = (c.expiring, { c with timers := timers }) ∧
      ∀ u, timers u = if u ∈ c.expiring then (c.timers u).rearmed else c.timers u :=
  timerManagerVisit_eq _ hnodup

theorem mem_expiring : t ∈ c.expiring ↔ t ∈ c.registered ∧ timerIsExpired c t = true :=
  List.mem_filter

theorem mem_registered :
    t ∈ c.registered ↔ ∃ i, i < timerManagerMaxTimers ∧ c.slots i = some t := by
  simp [Clock.registered]

end Visit

/-! ## Clock events -/

/-- The clock is set up. -/
structure Clock.Runs (c : Clock) (source : ClockEventSource) : Prop where
  frequency : c.frequency ≠ 0
  source_ne : source ≠ .none
  source_eq : c.source = source
  eventFrequency : c.eventFrequency ≠ 0
  initialized : c.initialized = true
  nodup : c.registered.Nodup

/-- The clock when a tick begins: time has advanced, and the timers have not been visited. -/
def Clock.advanced (c : Clock) : Clock :=
  { c with eventCount := c.eventCount + 1, ticks := c.ticks + 1 }

section Notify

variable {c : Clock} {source : ClockEventSource} (h : c.Runs source)

include h

/-- **A clock event of the configured source.** -/
theorem clockEventNotify_eq :
    ∃ timers, clockEventNotify c source = (c.advanced.expiring,
        { c.advanced with
          timers := timers
          processedCount := c.processedCount + BitVec.ofNat 64 c.advanced.expiring.length }) ∧
      ∀ u, timers u = if u ∈ c.advanced.expiring then (c.timers u).rearmed else c.timers u := by
  have htick : timeTick { c with eventCount := c.eventCount + 1 } = c.advanced := if_neg h.frequency
  have hruns : ¬ (c.source = .none ∨ c.eventFrequency = 0) := by
    rw [h.source_eq]
    exact fun hor => hor.elim h.source_ne h.eventFrequency
  obtain ⟨timers, heq, htimers⟩ := timerManagerProcess_eq (c := c.advanced) h.nodup
  refine ⟨timers, ?_, htimers⟩
  rw [clockEventNotify, if_neg hruns, if_neg (by rw [h.source_eq]; exact not_not.mpr rfl), htick,
    timerServiceTick, if_neg (by rw [show c.advanced.initialized = true from h.initialized]; simp),
    heq]
  rfl

/-- **A clock event of another source.** -/
theorem clockEventNotify_other {other : ClockEventSource} (hother : other ≠ source) :
    clockEventNotify c other = ([], c) := by
  unfold clockEventNotify
  split_ifs with hoff hsource
  · rfl
  · rfl
  · exact absurd ((not_not.mp hsource).trans h.source_eq) hother

end Notify

end Batos
