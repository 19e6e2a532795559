import Batos.Time.Run

/-!
# Exact expirations

When timers expire.  What happens to a timer between its start and its expiration is
followed through runs in which nobody interferes: a started one-shot timer waits for its
deadline (`OneShot`), and a started periodic timer has expired at the multiples of its period
so far and waits for the next (`Periodic`).

The number of expirations is kept in a 64-bit counter: it grows by the number of timers that
expire in the arithmetic of its type.
-/

namespace Batos

open Function List BitVec

variable {op : ClockOp} {m' : ClockMachine}

namespace ClockMachine

variable {setup : ClockSetup} {m : ClockMachine}

/-! ## What an operation does to a timer -/

/-- The operation starts the timer anew. -/
def Restarts (m : ClockMachine) (t : TimerRef) : ClockOp → Prop
  | .start u delayTicks => u = t ∧ (timerStart m.clock t delayTicks).1 = 0
  | .startPeriodic u periodTicks => u = t ∧ (timerStartPeriodic m.clock t periodTicks).1 = 0
  | _ => False

/-- The operation cancels or removes the timer. -/
def Stops (m : ClockMachine) (t : TimerRef) : ClockOp → Prop
  | .cancel u => u = t
  | .remove u => u = t ∧ (timerManagerRemove m.clock t).1 = 0
  | _ => False

/-- The timer expires at the next tick. -/
def Due (m : ClockMachine) (t : TimerRef) : Prop :=
  t ∈ m.clock.registered ∧ (m.clock.timers t).active = true ∧
    (m.clock.timers t).deadline.toNat ≤ m.now + 1

instance (m : ClockMachine) (t : TimerRef) : Decidable (m.Due t) :=
  inferInstanceAs (Decidable (_ ∧ _ ∧ _))

theorem Inv.toNat_ticks (h : m.Inv setup) (hevents : m.events + 1 < 2 ^ 64) :
    (m.clock.ticks + 1).toNat = m.now + 1 := by
  have hnow := h.now_le
  rw [toNat_add, Nat.mod_eq_of_lt]
  · rfl
  · change m.now + 1 < 2 ^ 64
    omega

theorem Inv.mem_expiring_iff (h : m.Inv setup) (hevents : m.events + 1 < 2 ^ 64) (t : TimerRef) :
    t ∈ m.clock.advanced.expiring ↔ m.Due t := by
  have hticks : m.clock.advanced.ticks.toNat = m.now + 1 := h.toNat_ticks hevents
  rw [mem_expiring, Due]
  refine and_congr Iff.rfl ?_
  have hdeadline : m.clock.advanced.ticks ≥ (m.clock.timers t).deadline ↔
      (m.clock.timers t).deadline.toNat ≤ m.now + 1 := by
    rw [ge_iff_le, le_def, hticks]
  unfold timerIsExpired
  change (if (m.clock.timers t).active = false then false
    else decide (m.clock.advanced.ticks ≥ (m.clock.timers t).deadline)) = true ↔ _
  cases (m.clock.timers t).active with
  | false => simp
  | true => simp only [Bool.true_eq_false, if_false, decide_eq_true_eq, hdeadline, true_and]

/-- **A tick** rearms the timers that are due, which expire, and leaves the others alone. -/
theorem Inv.tick (h : m.Inv setup) (hevents : m.events + 1 < 2 ^ 64) (t : TimerRef) :
    (m.step (.notify setup.source)).now = m.now + 1 ∧
      (m.step (.notify setup.source)).clock.registered = m.clock.registered ∧
      (m.step (.notify setup.source)).expirations t =
        m.expirations t ++ (if m.Due t then [m.now + 1] else []) ∧
      (m.step (.notify setup.source)).clock.timers t =
        if m.Due t then (m.clock.timers t).rearmed else m.clock.timers t := by
  obtain ⟨timers, heq, htimers⟩ := clockEventNotify_eq h.runs
  have hticks := h.toNat_ticks hevents
  have hnodup : m.clock.advanced.expiring.Nodup := h.runs.nodup.filter _
  rw [ClockMachine.step, heq]
  refine ⟨hticks, rfl, ?_, ?_⟩
  · show ((m.log ++ m.clock.advanced.expiring.map fun u => ((m.clock.ticks + 1).toNat, u)).filter
      fun entry => entry.2 = t).map Prod.fst = _
    rw [filter_append, map_append, hticks, filter_map, map_map]
    change m.expirations t ++ (m.clock.advanced.expiring.filter fun u => u = t).map
      (fun _ => m.now + 1) = _
    have hfilter : (m.clock.advanced.expiring.filter fun u => u = t) =
        if t ∈ m.clock.advanced.expiring then [t] else [] := by
      rw [filter_eq, hnodup.count]
      split_ifs <;> rfl
    rw [hfilter]
    simp only [h.mem_expiring_iff hevents]
    split_ifs <;> rfl
  · show timers t = _
    rw [htimers t]
    simp only [h.mem_expiring_iff hevents]

/-- **Other operations** take no time, and nothing expires. -/
theorem Inv.step_other (h : m.Inv setup) (hop : op ≠ .notify setup.source) :
    (m.step op).now = m.now ∧ (m.step op).log = m.log ∧
      (∀ t, ¬ m.Restarts t op → op ≠ .cancel t → (m.step op).clock.timers t = m.clock.timers t) ∧
      (∀ t, ¬ m.Stops t op → t ∈ m.clock.registered → t ∈ (m.step op).clock.registered) ∧
      ∀ t, op ≠ .add t → t ∈ (m.step op).clock.registered → t ∈ m.clock.registered := by
  have hidle : ∀ {m' : ClockMachine}, m'.clock = m.clock → m'.log = m.log →
      m'.now = m.now ∧ m'.log = m.log ∧
        (∀ t, ¬ m.Restarts t op → op ≠ .cancel t → m'.clock.timers t = m.clock.timers t) ∧
        (∀ t, ¬ m.Stops t op → t ∈ m.clock.registered → t ∈ m'.clock.registered) ∧
        ∀ t, op ≠ .add t → t ∈ m'.clock.registered → t ∈ m.clock.registered := by
    intro m' hclock hlog
    rw [now, now, hclock]
    exact ⟨rfl, hlog, fun _ _ _ => rfl, fun _ _ ht => ht, fun _ _ ht => ht⟩
  cases op with
  | notify source =>
      have hsource : source ≠ setup.source := fun heq => hop (congrArg ClockOp.notify heq)
      rw [h.step_notify_other hsource] at *
      exact hidle rfl rfl
  | start u delayTicks =>
      rcases timerStart_cases m.clock u delayTicks with heq | ⟨-, -, heq⟩
      · exact hidle (congrArg Prod.snd heq) rfl
      · rw [ClockMachine.step, heq]
        refine ⟨rfl, rfl, fun t hquiet _ => update_of_ne ?_ _ _, fun _ _ ht => ht, fun _ _ ht => ht⟩
        rintro rfl
        exact hquiet ⟨rfl, congrArg Prod.fst heq⟩
  | startPeriodic u periodTicks =>
      rcases timerStartPeriodic_cases m.clock u periodTicks with heq | ⟨-, -, heq⟩
      · exact hidle (congrArg Prod.snd heq) rfl
      · rw [ClockMachine.step, heq]
        refine ⟨rfl, rfl, fun t hquiet _ => update_of_ne ?_ _ _, fun _ _ ht => ht, fun _ _ ht => ht⟩
        rintro rfl
        exact hquiet ⟨rfl, congrArg Prod.fst heq⟩
  | cancel u =>
      refine ⟨rfl, rfl, fun t _ hne => update_of_ne ?_ _ _, fun _ _ ht => ht, fun _ _ ht => ht⟩
      rintro rfl
      exact hne rfl
  | add u =>
      rcases timerManagerAdd_cases m.clock u with heq | ⟨i, hi, hfree, -, heq⟩
      · exact hidle heq rfl
      · rw [ClockMachine.step, heq]
        refine ⟨rfl, rfl, fun _ _ _ => rfl, fun t _ ht => ?_, fun t hne ht => ?_⟩
        · obtain ⟨j, hj, hslot⟩ := mem_registered.mp ht
          refine mem_registered.mpr ⟨j, hj, ?_⟩
          have hji : j ≠ i := by
            rintro rfl
            rw [hfree] at hslot
            cases hslot
          exact (update_of_ne hji _ _).trans hslot
        · obtain ⟨j, hj, hslot⟩ := mem_registered.mp ht
          refine mem_registered.mpr ⟨j, hj, ?_⟩
          change update m.clock.slots i (some u) j = some t at hslot
          by_cases hji : j = i
          · rw [hji, update_self, Option.some.injEq] at hslot
            exact absurd (congrArg ClockOp.add hslot) hne
          · rwa [update_of_ne hji] at hslot
  | remove u =>
      rcases timerManagerRemove_cases m.clock u with ⟨heq, -⟩ | ⟨i, count, hheld, heq⟩
      · exact hidle heq rfl
      · rw [ClockMachine.step, heq]
        refine ⟨rfl, rfl, fun _ _ _ => rfl, fun t hne ht => ?_, fun t _ ht => ?_⟩
        · obtain ⟨j, hj, hslot⟩ := mem_registered.mp ht
          refine mem_registered.mpr ⟨j, hj, ?_⟩
          have hji : j ≠ i := by
            rintro rfl
            obtain rfl := Option.some.inj (hheld.symm.trans hslot)
            exact hne ⟨rfl, congrArg Prod.fst heq⟩
          exact (update_of_ne hji _ _).trans hslot
        · obtain ⟨j, hj, hslot⟩ := mem_registered.mp ht
          refine mem_registered.mpr ⟨j, hj, ?_⟩
          change update m.clock.slots i none j = some t at hslot
          by_cases hji : j = i
          · rw [hji, update_self] at hslot
            cases hslot
          · rwa [update_of_ne hji] at hslot

theorem inv_of_reachable (h : clockSystem.Reachable (boot setup) m) : m.Inv setup :=
  h.induction (ClockMachine.Inv setup) (fun _ _ hinv henabled => hinv.step henabled)
  (inv_boot setup)

/-- One tick, or no time at all. -/
theorem Inv.now_step (h : m.Inv setup) (henabled : m.Enabled op) :
    (op = .notify setup.source ∧ (m.step op).now = m.now + 1) ∨
      (op ≠ .notify setup.source ∧ (m.step op).now = m.now) := by
  by_cases hop : op = .notify setup.source
  · subst hop
    exact .inl ⟨rfl, (h.tick henabled 0).1⟩
  · exact .inr ⟨hop, (h.step_other hop).1⟩

theorem expirations_congr (hlog : m'.log = m.log) (t : TimerRef) :
    m'.expirations t = m.expirations t := by
  rw [expirations, expirations, hlog]

/-! ## Timers that do not expire -/

section Quiet

variable {op : ClockOp} {t : TimerRef}

/-- A timer that is not due survives an operation that neither starts nor cancels it. -/
theorem Inv.step_not_due (h : m.Inv setup) (henabled : m.Enabled op) (hrestart : ¬ m.Restarts t op)
    (hcancel : op ≠ .cancel t) (hdue : op = .notify setup.source → ¬ m.Due t) :
    (m.step op).expirations t = m.expirations t ∧ (m.step op).clock.timers t =
      m.clock.timers t := by
  by_cases hop : op = .notify setup.source
  · subst hop
    obtain ⟨-, -, hexpired, htimer⟩ := h.tick henabled t
    rw [if_neg (hdue rfl)] at hexpired htimer
    rw [append_nil] at hexpired
    exact ⟨hexpired, htimer⟩
  · obtain ⟨-, hlog, htimers, -⟩ := h.step_other hop
    exact ⟨expirations_congr hlog t, htimers t hrestart hcancel⟩

/-- An inactive timer stays inactive until it is started. -/
theorem Inv.step_inactive (h : m.Inv setup) (henabled : m.Enabled op) (hrestart : ¬ m.Restarts t op)
    (hinactive : (m.clock.timers t).active = false) :
    (m.step op).expirations t = m.expirations t ∧ ((m.step op).clock.timers t).active = false := by
  by_cases hcancel : op = .cancel t
  · subst hcancel
    refine ⟨expirations_congr rfl t, ?_⟩
    show (update m.clock.timers t _ t).active = false
    rw [update_self]
  · have hdue : ¬ m.Due t := fun hdue => Bool.false_ne_true (hinactive.symm.trans hdue.2.1)
    obtain ⟨hexpired, htimer⟩ := h.step_not_due henabled hrestart hcancel fun _ => hdue
    exact ⟨hexpired, htimer ▸ hinactive⟩

/-- A timer that is not registered stays so until it is added. -/
theorem Inv.step_unregistered (h : m.Inv setup) (henabled : m.Enabled op) (hadd : op ≠ .add t)
    (hunregistered : t ∉ m.clock.registered) :
    (m.step op).expirations t = m.expirations t ∧ t ∉ (m.step op).clock.registered := by
  by_cases hop : op = .notify setup.source
  · subst hop
    obtain ⟨-, hregistered, hexpired, -⟩ := h.tick henabled t
    rw [if_neg fun hdue => hunregistered hdue.1, append_nil] at hexpired
    exact ⟨hexpired, hregistered ▸ hunregistered⟩
  · obtain ⟨-, hlog, -, -, hregistered⟩ := h.step_other hop
    exact ⟨expirations_congr hlog t, fun ht => hunregistered (hregistered t hadd ht)⟩

/-- `timer_manager_remove` leaves the timer in no slot. -/
theorem Inv.not_mem_remove (h : m.Inv setup) (t : TimerRef) :
    t ∉ (m.step (.remove t)).clock.registered := by
  intro hmem
  obtain ⟨j, hj, hslot⟩ := mem_registered.mp hmem
  rw [ClockMachine.step] at hslot
  rcases timerManagerRemove_cases m.clock t with ⟨heq, hnone⟩ | ⟨i, count, hheld, heq⟩
  · rw [heq] at hslot
    exact hnone j hj hslot
  · rw [heq] at hslot
    change update m.clock.slots i none j = some t at hslot
    by_cases hji : j = i
    · rw [hji, update_self] at hslot
      cases hslot
    · rw [update_of_ne hji] at hslot
      exact hji (h.distinct j i t hslot hheld)

end Quiet

/-! ## One-shot timers -/

/-- Until its deadline the timer is neither restarted nor cancelled nor removed, and it is
registered when the tick of its deadline comes.  Afterwards it is not restarted. -/
def LetsExpire (setup : ClockSetup) (t : TimerRef) (deadline : ℕ) (m : ClockMachine)
    (op : ClockOp) : Prop :=
  ¬ m.Restarts t op ∧ (m.now < deadline → ¬ m.Stops t op) ∧
    (m.now + 1 = deadline → op = .notify setup.source → t ∈ m.clock.registered)

/-- The timer waits for its deadline, or has expired there and is inactive. -/
structure OneShot (setup : ClockSetup) (t : TimerRef) (deadline : ℕ) (before : List ℕ)
    (m : ClockMachine) : Prop where
  inv : m.Inv setup
  waits : m.now < deadline →
    m.clock.timers t = ⟨BitVec.ofNat 64 deadline, 0, true, false⟩ ∧ m.expirations t = before
  expired : deadline ≤ m.now →
    (m.clock.timers t).active = false ∧ m.expirations t = before ++ [deadline]

section OneShot

variable {t : TimerRef} {deadline : ℕ} {before : List ℕ}

/-- One operation. -/
theorem OneShot.step (h : OneShot setup t deadline before m) (hbound : deadline < 2 ^ 64)
    (henabled : m.Enabled op) (hlets : LetsExpire setup t deadline m op) :
    OneShot setup t deadline before (m.step op) := by
  obtain ⟨hrestart, hstop, hregistered⟩ := hlets
  have hinv : (m.step op).Inv setup := h.inv.step henabled
  have hnow := h.inv.now_step henabled
  rcases Nat.lt_or_ge m.now deadline with hwaits | hexpired
  · obtain ⟨htimer, hexpirations⟩ := h.waits hwaits
    have hcancel : op ≠ .cancel t := by
      rintro rfl
      exact hstop hwaits rfl
    have hdeadline : (m.clock.timers t).deadline.toNat = deadline := by
      rw [htimer]
      exact Nat.mod_eq_of_lt hbound
    by_cases hlast : op = .notify setup.source ∧ m.now + 1 = deadline
    · -- the tick of the deadline
      obtain ⟨rfl, hlast⟩ := hlast
      have hdue : m.Due t := ⟨hregistered hlast rfl, by rw [htimer], by rw [hdeadline, hlast]⟩
      obtain ⟨htick, -, hexpires, hrearmed⟩ := h.inv.tick henabled t
      rw [if_pos hdue] at hexpires hrearmed
      refine ⟨hinv, fun hlt => by omega, fun _ => ⟨?_, ?_⟩⟩
      · rw [hrearmed, htimer]
        rfl
      · rw [hexpires, hexpirations, hlast]
    · have hdue : op = .notify setup.source → ¬ m.Due t := by
        intro hop hdue
        have := hdue.2.2
        rw [hdeadline] at this
        exact hlast ⟨hop, by omega⟩
      obtain ⟨hsame, hkept⟩ := h.inv.step_not_due henabled hrestart hcancel hdue
      refine ⟨hinv, fun _ => ⟨hkept.trans htimer, hsame.trans hexpirations⟩, fun hle => ?_⟩
      rcases hnow with ⟨hop, htick⟩ | ⟨-, hidle⟩
      · exact absurd ⟨hop, by omega⟩ hlast
      · omega
  · obtain ⟨hinactive, hexpirations⟩ := h.expired hexpired
    obtain ⟨hsame, hkept⟩ := h.inv.step_inactive henabled hrestart hinactive
    refine ⟨hinv, fun hlt => ?_, fun _ => ⟨hkept, hsame.trans hexpirations⟩⟩
    rcases hnow with ⟨-, htick⟩ | ⟨-, hidle⟩ <;> omega

/-- **A one-shot timer** expires once, at its deadline. -/
theorem OneShot.of_start (h : m.Inv setup) {delayTicks : Word}
    (hstart : (timerStart m.clock t delayTicks).1 = 0)
    (hreach : (clockSystem.restrict (LetsExpire setup t (m.now + delayTicks.toNat))).Reachable
      (m.step (.start t delayTicks)) m') :
    OneShot setup t (m.now + delayTicks.toNat) (m.expirations t) m' := by
  rcases timerStart_cases m.clock t delayTicks with heq | ⟨hne, hbound, heq⟩
  · rw [heq] at hstart
    exact absurd (show (-1 : ℤ) = 0 from hstart) (by decide)
  have hpos : 0 < delayTicks.toNat := by
    rw [Nat.pos_iff_ne_zero]
    exact fun hzero => hne (eq_of_toNat_eq hzero)
  refine hreach.induction (OneShot setup t (m.now + delayTicks.toNat) (m.expirations t))
    (fun s op hs henabled => ?_) ?_
  · exact hs.step hbound henabled.1 henabled.2
  have hinv : (m.step (.start t delayTicks)).Inv setup := h.step trivial
  rw [ClockMachine.step, heq] at hinv ⊢
  refine ⟨hinv, fun _ => ⟨?_, rfl⟩, fun hle => ?_⟩
  · show update m.clock.timers t _ t = _
    rw [update_self, ofNat_add, now, ofNat_toNat, ofNat_toNat,
      setWidth_eq, setWidth_eq]
  · change m.now + delayTicks.toNat ≤ m.now at hle
    omega

end OneShot

/-! ## Periodic timers -/

/-- The timer is neither restarted nor cancelled nor removed, and it is registered when the
tick of its first deadline comes. -/
def LetsRepeat (setup : ClockSetup) (t : TimerRef) (first : ℕ) (m : ClockMachine)
    (op : ClockOp) : Prop :=
  ¬ m.Restarts t op ∧ ¬ m.Stops t op ∧
    (m.now + 1 = first → op = .notify setup.source → t ∈ m.clock.registered)

/-- The multiples of the period that have passed. -/
def multiples (start period now : ℕ) : List ℕ :=
  (List.range ((now - start) / period)).map fun j => start + (j + 1) * period

/-- The multiple of the period that comes next. -/
def nextMultiple (start period now : ℕ) : ℕ := start + ((now - start) / period + 1) * period

section Multiples

variable {start period now : ℕ}

theorem lt_nextMultiple (hperiod : 0 < period) (hstart : start ≤ now) :
    now < nextMultiple start period now := by
  have := Nat.lt_mul_div_succ (now - start) hperiod
  rw [Nat.mul_comm] at this
  rw [nextMultiple]
  omega

/-- At a multiple of the period the count goes up. -/
theorem div_of_eq_nextMultiple (hperiod : 0 < period) (hstart : start ≤ now)
    (h : now + 1 = nextMultiple start period now) :
    (now + 1 - start) / period = (now - start) / period + 1 := by
  have hsub : now + 1 - start = ((now - start) / period + 1) * period := by
    rw [nextMultiple] at h
    omega
  rw [hsub, Nat.mul_div_cancel _ hperiod]

/-- Between the multiples it does not. -/
theorem div_of_lt_nextMultiple (hperiod : 0 < period) (hstart : start ≤ now)
    (h : now + 1 < nextMultiple start period now) :
    (now + 1 - start) / period = (now - start) / period := by
  rw [Nat.div_eq_iff hperiod]
  have hle : (now - start) / period * period ≤ now - start := Nat.div_mul_le_self _ _
  rw [nextMultiple, Nat.add_mul, Nat.one_mul] at h
  omega

theorem multiples_of_eq_nextMultiple (hperiod : 0 < period) (hstart : start ≤ now)
    (h : now + 1 = nextMultiple start period now) :
    multiples start period (now + 1) = multiples start period now ++ [now + 1] := by
  rw [multiples, div_of_eq_nextMultiple hperiod hstart h, range_succ, map_append, h]
  rfl

end Multiples

/-- The timer has expired at the multiples of its period so far, and its deadline is the next
one.  If that is out of range the timer is inactive. -/
structure Periodic (setup : ClockSetup) (t : TimerRef) (start period : ℕ) (before : List ℕ)
    (m : ClockMachine) : Prop where
  inv : m.Inv setup
  since : start ≤ m.now
  expired : m.expirations t = before ++ multiples start period m.now
  armed : nextMultiple start period m.now < 2 ^ 64 → m.clock.timers t =
    ⟨BitVec.ofNat 64 (nextMultiple start period m.now), BitVec.ofNat 64 period, true, true⟩
  exhausted : 2 ^ 64 ≤ nextMultiple start period m.now → (m.clock.timers t).active = false
  registered : start + period ≤ m.now → t ∈ m.clock.registered

section Periodic

variable {t : TimerRef} {start period : ℕ} {before : List ℕ}

/-- Rearming adds the period to the deadline, unless the sum is out of range. -/
theorem rearmed_periodic {deadline : ℕ} (hdeadline : deadline < 2 ^ 64) (hperiod : 0 < period)
    (hbound : period < 2 ^ 64) :
    (deadline + period < 2 ^ 64 →
      (⟨BitVec.ofNat 64 deadline, BitVec.ofNat 64 period, true, true⟩ : Timer).rearmed =
        ⟨BitVec.ofNat 64 (deadline + period), BitVec.ofNat 64 period, true, true⟩) ∧
      (2 ^ 64 ≤ deadline + period →
        (⟨BitVec.ofNat 64 deadline, BitVec.ofNat 64 period, true, true⟩ : Timer).rearmed.active =
          false) := by
  have hne : BitVec.ofNat 64 period ≠ 0 := by
    intro hzero
    have := congrArg BitVec.toNat hzero
    rw [toNat_ofNat, Nat.mod_eq_of_lt hbound] at this
    exact hperiod.ne' this
  have hlate : BitVec.ofNat 64 deadline > -1 - BitVec.ofNat 64 period ↔
      2 ^ 64 ≤ deadline + period := by
    rw [gt_iff_lt, lt_def]
    bv_omega
  unfold Timer.rearmed
  rw [if_neg (show ¬ true = false by decide), if_neg hne]
  refine ⟨fun hlt => ?_, fun hle => ?_⟩
  · rw [if_neg fun h => absurd (hlate.mp h) (Nat.not_le.mpr hlt), ofNat_add]
  · rw [if_pos (hlate.mpr hle)]

/-- At the tick of its deadline the timer expires and gets its next deadline. -/
theorem Periodic.tick (h : Periodic setup t start period before m) (hperiod : 0 < period)
    (hbound : period < 2 ^ 64) (henabled : m.Enabled (.notify setup.source))
    (hregistered : m.now + 1 = start + period → t ∈ m.clock.registered)
    (hnext : m.now + 1 = nextMultiple start period m.now) :
    Periodic setup t start period before (m.step (.notify setup.source)) := by
  have hnow : m.now + 1 < 2 ^ 64 :=
    Nat.lt_of_le_of_lt (Nat.add_le_add_right h.inv.now_le 1) henabled
  have htimer := h.armed (hnext ▸ hnow)
  have hmem : t ∈ m.clock.registered := by
    rcases Nat.lt_or_ge m.now (start + period) with hfirst | hlater
    · refine hregistered ?_
      rw [nextMultiple, Nat.div_eq_of_lt (by have := h.since; omega)] at hnext
      omega
    · exact h.registered hlater
  have hdue : m.Due t := by
    refine ⟨hmem, by rw [htimer], ?_⟩
    rw [htimer, hnext, toNat_ofNat]
    exact Nat.mod_le _ _
  obtain ⟨htick, hslots, hexpires, hrearmed⟩ := h.inv.tick henabled t
  rw [if_pos hdue] at hexpires hrearmed
  have hafter : nextMultiple start period (m.now + 1) = m.now + 1 + period := by
    rw [nextMultiple, div_of_eq_nextMultiple hperiod h.since hnext, Nat.add_mul, Nat.one_mul,
      ← Nat.add_assoc, hnext]
    rfl
  rw [htimer, ← hnext] at hrearmed
  obtain ⟨hfits, hlate⟩ := rearmed_periodic hnow hperiod hbound
  refine ⟨h.inv.step henabled, by have := h.since; omega, ?_, ?_, ?_, fun _ => hslots ▸ hmem⟩
  · rw [hexpires, h.expired, htick, multiples_of_eq_nextMultiple hperiod h.since hnext,
      List.append_assoc]
  · rw [htick, hafter, hrearmed]
    exact hfits
  · rw [htick, hafter, hrearmed]
    exact hlate

/-- One operation. -/
theorem Periodic.step (h : Periodic setup t start period before m) (hperiod : 0 < period)
    (hbound : period < 2 ^ 64) (henabled : m.Enabled op)
    (hlets : LetsRepeat setup t (start + period) m op) :
    Periodic setup t start period before (m.step op) := by
  obtain ⟨hrestart, hstop, hregistered⟩ := hlets
  have hcancel : op ≠ .cancel t := by
    rintro rfl
    exact hstop rfl
  have hlt := lt_nextMultiple hperiod h.since
  by_cases hlast : op = .notify setup.source ∧ m.now + 1 = nextMultiple start period m.now
  · obtain ⟨rfl, hnext⟩ := hlast
    exact h.tick hperiod hbound henabled (fun hfirst => hregistered hfirst rfl) hnext
  -- otherwise the next multiple stays the same, and the timer is not due
  have hdue : op = .notify setup.source → ¬ m.Due t := by
    rintro hop ⟨-, hactive, hdeadline⟩
    rcases Nat.lt_or_ge (nextMultiple start period m.now) (2 ^ 64) with hfits | hlate
    · rw [h.armed hfits, toNat_ofNat, Nat.mod_eq_of_lt hfits] at hdeadline
      exact hlast ⟨hop, by omega⟩
    · exact Bool.false_ne_true ((h.exhausted hlate).symm.trans hactive)
  obtain ⟨hsame, hkept⟩ := h.inv.step_not_due henabled hrestart hcancel hdue
  have hdiv : ((m.step op).now - start) / period = (m.now - start) / period := by
    rcases h.inv.now_step henabled with ⟨hop, htick⟩ | ⟨-, hidle⟩
    · rw [htick]
      exact div_of_lt_nextMultiple hperiod h.since
        (Nat.lt_of_le_of_ne hlt fun hnext => hlast ⟨hop, hnext⟩)
    · rw [hidle]
  have hmultiples : multiples start period (m.step op).now = multiples start period m.now := by
    rw [multiples, hdiv, multiples]
  have hnext : nextMultiple start period (m.step op).now = nextMultiple start period m.now := by
    rw [nextMultiple, hdiv, nextMultiple]
  have hsince := h.since
  refine ⟨h.inv.step henabled, ?_, ?_, ?_, ?_, ?_⟩
  · rcases h.inv.now_step henabled with ⟨-, htick⟩ | ⟨-, hidle⟩ <;> omega
  · rw [hsame, h.expired, hmultiples]
  · rw [hnext, hkept]
    exact h.armed
  · rw [hnext, hkept]
    exact h.exhausted
  · intro hlater
    by_cases hop : op = .notify setup.source
    · subst hop
      obtain ⟨htick, hslots, -⟩ := h.inv.tick henabled t
      rw [hslots]
      rcases Nat.lt_or_ge m.now (start + period) with hfirst | hlater'
      · exact hregistered (by omega) rfl
      · exact h.registered hlater'
    · obtain ⟨hidle, -, -, hslots, -⟩ := h.inv.step_other hop
      exact hslots t hstop (h.registered (hidle ▸ hlater))

/-- **A periodic timer** expires at the multiples of its period. -/
theorem Periodic.of_start (h : m.Inv setup) {periodTicks : Word}
    (hstart : (timerStartPeriodic m.clock t periodTicks).1 = 0)
    (hreach : (clockSystem.restrict (LetsRepeat setup t (m.now + periodTicks.toNat))).Reachable
      (m.step (.startPeriodic t periodTicks)) m') :
    Periodic setup t m.now periodTicks.toNat (m.expirations t) m' := by
  rcases timerStartPeriodic_cases m.clock t periodTicks with heq | ⟨hne, hbound, heq⟩
  · rw [heq] at hstart
    exact absurd (show (-1 : ℤ) = 0 from hstart) (by decide)
  have hpos : 0 < periodTicks.toNat := by
    rw [Nat.pos_iff_ne_zero]
    exact fun hzero => hne (eq_of_toNat_eq hzero)
  refine hreach.induction (Periodic setup t m.now periodTicks.toNat (m.expirations t))
    (fun s op hs henabled => ?_) ?_
  · exact hs.step hpos periodTicks.isLt henabled.1 henabled.2
  have hinv : (m.step (.startPeriodic t periodTicks)).Inv setup := h.step trivial
  rw [ClockMachine.step, heq] at hinv ⊢
  have hzero : (m.now - m.now) / periodTicks.toNat = 0 := by rw [Nat.sub_self, Nat.zero_div]
  have hnext : nextMultiple m.now periodTicks.toNat m.now = m.now + periodTicks.toNat := by
    rw [nextMultiple, hzero, Nat.zero_add, Nat.one_mul]
  refine ⟨hinv, Nat.le_refl _, ?_, fun _ => ?_, fun hlate => ?_, fun hlater => ?_⟩
  · show m.expirations t = m.expirations t ++ multiples m.now periodTicks.toNat m.now
    rw [multiples, hzero, range_zero, map_nil, append_nil]
  · show update m.clock.timers t _ t =
      ⟨BitVec.ofNat 64 (nextMultiple m.now periodTicks.toNat m.now), _, true, true⟩
    rw [update_self, hnext, ofNat_add, now, ofNat_toNat, ofNat_toNat,
      setWidth_eq, setWidth_eq]
  · change 2 ^ 64 ≤ nextMultiple m.now periodTicks.toNat m.now at hlate
    rw [hnext] at hlate
    exact absurd hbound (Nat.not_lt.mpr hlate)
  · change m.now + periodTicks.toNat ≤ m.now at hlater
    omega

end Periodic

/-! ## All timers -/

/-- The counter of expirations grows by the number of timers that are due. -/
theorem Inv.processedCount_tick (h : m.Inv setup) (hevents : m.events + 1 < 2 ^ 64) :
    (m.step (.notify setup.source)).clock.processedCount = m.clock.processedCount +
      BitVec.ofNat 64 (m.clock.registered.filter fun t => m.Due t).length := by
  obtain ⟨timers, heq, -⟩ := clockEventNotify_eq h.runs
  have hdue : m.clock.advanced.expiring = m.clock.registered.filter fun t => m.Due t := by
    refine filter_congr fun t ht => ?_
    rw [Bool.eq_iff_iff, decide_eq_true_eq, ← h.mem_expiring_iff hevents]
    exact ⟨fun hexpired => mem_expiring.mpr ⟨ht, hexpired⟩, fun hmem => (mem_expiring.mp hmem).2⟩
  rw [ClockMachine.step, heq, hdue]

/-- **Timer expirations are exact.**  In every reachable state of the clock:

* a one-shot timer that is started now with a delay expires once, at the tick that many ticks
  from now, if it is registered by then and nobody restarts, cancels or removes it before;
* a periodic timer that is started now expires at every multiple of its period from now on, if
  it is registered by the first and as long as nobody restarts, cancels or removes it;
* a cancelled timer does not expire until it is restarted, nor a removed one until it is added;
* clock events of other sources change nothing;
* at a tick the timers that are due expire, and they are what the counter grows by. -/
theorem timers_exact (setup : ClockSetup) (m : ClockMachine)
    (hm : clockSystem.Reachable (boot setup) m) (t : TimerRef) :
    (∀ delayTicks : Word, (timerStart m.clock t delayTicks).1 = 0 → ∀ m',
      (clockSystem.restrict (LetsExpire setup t (m.now + delayTicks.toNat))).Reachable
          (m.step (.start t delayTicks)) m' →
        m'.expirations t = m.expirations t ++
          if m.now + delayTicks.toNat ≤ m'.now then [m.now + delayTicks.toNat] else []) ∧
      (∀ periodTicks : Word, (timerStartPeriodic m.clock t periodTicks).1 = 0 → ∀ m',
        (clockSystem.restrict (LetsRepeat setup t (m.now + periodTicks.toNat))).Reachable
            (m.step (.startPeriodic t periodTicks)) m' →
          m'.expirations t = m.expirations t ++ multiples m.now periodTicks.toNat m'.now) ∧
      (∀ m', (clockSystem.restrict fun s op => ¬ s.Restarts t op).Reachable
        (m.step (.cancel t)) m' →
        m'.expirations t = m.expirations t) ∧
      (∀ m', (clockSystem.restrict fun _ op => op ≠ .add t).Reachable (m.step (.remove t)) m' →
        m'.expirations t = m.expirations t) ∧
      (∀ source, source ≠ setup.source → (m.step (.notify source)).clock = m.clock ∧
        (m.step (.notify source)).log = m.log) ∧
      (m.Enabled (.notify setup.source) →
        (m.step (.notify setup.source)).now = m.now + 1 ∧
        (m.step (.notify setup.source)).expirations t =
          m.expirations t ++ (if m.Due t then [m.now + 1] else []) ∧
        (m.step (.notify setup.source)).clock.processedCount = m.clock.processedCount +
          BitVec.ofNat 64 (m.clock.registered.filter fun u => m.Due u).length) := by
  have h := inv_of_reachable hm
  have hcancelled : (m.step (.cancel t)).Inv setup := h.step trivial
  have hremoved : (m.step (.remove t)).Inv setup := h.step trivial
  refine ⟨fun delayTicks hstart m' hreach => ?_, fun periodTicks hstart m' hreach => ?_,
    fun m' hreach => ?_, fun m' hreach => ?_, fun source hsource => ?_, fun henabled => ?_⟩
  · have hshot := OneShot.of_start h hstart hreach
    split_ifs with hlate
    · exact (hshot.expired hlate).2
    · rw [append_nil]
      exact (hshot.waits (Nat.lt_of_not_le hlate)).2
  · exact (Periodic.of_start h hstart hreach).expired
  · refine (hreach.induction
      (fun s => s.Inv setup ∧ s.expirations t = m.expirations t ∧ (s.clock.timers t).active = false)
      (fun s op hs henabled => ?_) ⟨hcancelled, rfl, ?_⟩).2.1
    · obtain ⟨hinv, hexpired, hinactive⟩ := hs
      obtain ⟨hsame, hkept⟩ := hinv.step_inactive henabled.1 henabled.2 hinactive
      exact ⟨hinv.step henabled.1, hsame.trans hexpired, hkept⟩
    · show (update m.clock.timers t _ t).active = false
      rw [update_self]
  · refine (hreach.induction
      (fun s => s.Inv setup ∧ s.expirations t = m.expirations t ∧ t ∉ s.clock.registered)
      (fun s op hs henabled => ?_) ⟨hremoved, rfl, h.not_mem_remove t⟩).2.1
    obtain ⟨hinv, hexpired, hunregistered⟩ := hs
    obtain ⟨hsame, hkept⟩ := hinv.step_unregistered henabled.1 henabled.2 hunregistered
    exact ⟨hinv.step henabled.1, hsame.trans hexpired, hkept⟩
  · rw [h.step_notify_other hsource]
    exact ⟨rfl, rfl⟩
  · obtain ⟨htick, -, hexpires, -⟩ := h.tick henabled t
    exact ⟨htick, hexpires, h.processedCount_tick henabled⟩

instance (m : ClockMachine) : ∀ op, Decidable (clockSystem.enabled m op)
  | .notify _ => inferInstanceAs (Decidable (m.events + 1 < 2 ^ 64))
  | .start _ _ | .startPeriodic _ _ | .cancel _ | .add _ | .remove _ => isTrue trivial

/-- A clock driven by the PIT. -/
def demoSetup : ClockSetup where
  before := { timers := fun _ => {} }
  frequency := 100
  frequency_ne := by decide
  source := .pit
  source_ne := by decide
  eventFrequency := 100
  eventFrequency_ne := by decide

/-- A timer started with a delay of two ticks and registered after the first. -/
def demoRun : List ClockOp := [.notify .pit, .notify .lapic, .add 0, .notify .pit, .notify .pit]

theorem timers_exact_demo :
    (timerStart (boot demoSetup).clock 0 2).1 = 0 ∧
      (clockSystem.run ((boot demoSetup).step (.start 0 2)) demoRun).expirations 0 = [2] := by
  have hstart : (timerStart (boot demoSetup).clock 0 2).1 = 0 := by decide
  have hadmissible : (clockSystem.restrict (LetsExpire demoSetup 0 2)).Admissible
      ((boot demoSetup).step (.start 0 2)) demoRun := by
    refine ⟨⟨by decide, nofun, nofun, fun h => absurd h (by decide)⟩,
      ⟨by decide, nofun, nofun, nofun⟩, ⟨trivial, nofun, nofun, nofun⟩,
      ⟨by decide, nofun, nofun, fun _ _ => by decide⟩,
      ⟨by decide, nofun, nofun, fun h => absurd h (by decide)⟩, trivial⟩
  have hreach : (clockSystem.restrict (LetsExpire demoSetup 0
      ((boot demoSetup).now + (2 : Word).toNat))).Reachable ((boot demoSetup).step (.start 0 2))
        (clockSystem.run ((boot demoSetup).step (.start 0 2)) demoRun) :=
        ⟨demoRun, hadmissible, rfl⟩
  have hlate : (boot demoSetup).now + (2 : Word).toNat ≤
      (clockSystem.run ((boot demoSetup).step (.start 0 2)) demoRun).now := by decide
  refine ⟨hstart, ?_⟩
  have h := (timers_exact demoSetup (boot demoSetup) (.refl _ _) 0).1 2 hstart _ hreach
  rw [if_pos hlate] at h
  exact h

end ClockMachine

end Batos
