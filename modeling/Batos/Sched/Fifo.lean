import Batos.Sched.Run

/-!
# First come, first served

The runqueue is served in order.  Tasks enter it at the end in four places (they are
added, woken, yield, or lose the CPU to a timer event) and leave it at the front in five,
each of which gives them the CPU.

All of this is one equation between lists.  In every run, what was queued at the start
followed by all that has been enqueued since is what has been dispatched followed by what
is still queued (`Machine.fifo_run`).  That nobody overtakes is read off: as long as there
are queued tasks from the start, the dispatches are these, in order.

Runs start in any state that the scheduler reaches, `runqueue_remove` included; from there
on nothing is removed out of turn.
-/

namespace Batos

open List

variable {m : Machine} {op : SchedOp} {n : TaskRef} {owner owner' : Option TaskRef}
  {enqueued rest : List TaskRef} {layout : TaskLayout} {ops : List SchedOp}

/-! ## Dispatches -/

namespace Machine

/-- The task an operation makes current, if it makes another one current. -/
def dispatchedBy (m : Machine) (op : SchedOp) : List TaskRef :=
  if (m.step op).sched.current = m.sched.current then [] else (m.step op).sched.current.toList

/-- The tasks a run makes current, in order. -/
def dispatches : Machine → List SchedOp → List TaskRef
  | _, [] => []
  | m, op :: ops => m.dispatchedBy op ++ dispatches (m.step op) ops

theorem dispatchedBy_of_same (h : (m.step op).sched.current = m.sched.current) :
    m.dispatchedBy op = [] := if_pos h

theorem dispatchedBy_of_ne (hn : (m.step op).sched.current = some n)
    (h : m.sched.current ≠ some n) :
    m.dispatchedBy op = [n] := by
  rw [dispatchedBy, hn, if_neg fun heq => h heq.symm]
  rfl

/-! ## One operation -/

/-- What was queued, followed by what has been enqueued, is what has been dispatched,
followed by what is still queued. -/
def Fifo (before dispatched after : List TaskRef) : Prop :=
  ∃ enqueued, before ++ enqueued = dispatched ++ after

theorem Fifo.trans {before between after dispatched dispatched' : List TaskRef}
    (h₁ : Fifo before dispatched between) (h₂ : Fifo between dispatched' after) :
    Fifo before (dispatched ++ dispatched') after := by
  obtain ⟨enqueued, heq⟩ := h₁
  obtain ⟨enqueued', heq'⟩ := h₂
  refine ⟨enqueued ++ enqueued', ?_⟩
  rw [← append_assoc, heq, append_assoc, heq', append_assoc]

variable {m : Machine} {ready ready' : List TaskRef}
  {waiting waiting' : WaitQueueRef → List TaskRef}

/-- An operation that leaves the CPU with its owner and at most appends to the runqueue. -/
theorem fifo_of_same (h : m.sched.Inv owner ready waiting)
    (h' : (m.step op).sched.Inv owner' ready' waiting')
    (hcurrent : (m.step op).sched.current = m.sched.current) (hready : ready' = ready ++ enqueued) :
    Fifo m.sched.runqueue.items (m.dispatchedBy op) (m.step op).sched.runqueue.items := by
  rw [dispatchedBy_of_same hcurrent, h.runqueue.items_eq, h'.runqueue.items_eq, hready]
  exact ⟨enqueued, rfl⟩

/-- An operation that gives the CPU to the first task of the runqueue. -/
theorem fifo_of_dispatch (h : m.sched.Inv owner (n :: rest) waiting)
    (h' : (m.step op).sched.Inv owner' (rest ++ enqueued) waiting')
    (hcurrent : (m.step op).sched.current = some n) (hne : m.sched.current ≠ some n) :
    Fifo m.sched.runqueue.items (m.dispatchedBy op) (m.step op).sched.runqueue.items := by
  rw [dispatchedBy_of_ne hcurrent hne, h.runqueue.items_eq, h'.runqueue.items_eq]
  exact ⟨enqueued, rfl⟩

/-- A handoff. -/
theorem fifo_of_handoff {c : TaskRef} {left : Task} {k : Continuation} {s' : Sched}
    (h : m.sched.Inv owner (n :: rest) waiting) (hcurrent : m.sched.current = some c)
    (hhandoff : Handoff m.sched c n left k s') (hs' : (m.step op).sched = s')
    (h' : s'.Inv owner' (rest ++ enqueued) waiting') :
    Fifo m.sched.runqueue.items (m.dispatchedBy op) (m.step op).sched.runqueue.items := by
  refine fifo_of_dispatch h (hs' ▸ h') (hs' ▸ hhandoff.current) ?_
  rw [hcurrent]
  exact fun heq => hhandoff.distinct (Option.some.inj heq).symm

/-- **Every operation serves the runqueue in order.** -/
theorem fifo_step (h : m.Inv) (henabled : m.Enabled layout op) :
    Fifo m.sched.runqueue.items (m.dispatchedBy op) (m.step op).sched.runqueue.items := by
  obtain ⟨hrun, hguard⟩ := henabled
  obtain ⟨ready, waiting, hinv, -⟩ := h.owned
  rw [owner, hrun] at hinv
  change m.sched.Inv m.sched.current ready waiting at hinv
  -- an operation that leaves the scheduler as it is
  have hstay : ∀ {op : SchedOp}, (m.step op).sched = m.sched →
      Fifo m.sched.runqueue.items (m.dispatchedBy op) (m.step op).sched.runqueue.items := by
    intro op heq
    refine fifo_of_same hinv (heq ▸ hinv) (congrArg Sched.current heq) (append_nil ready).symm
  cases op with
  | create t task =>
      obtain ⟨hfree, hcreates⟩ := hguard
      obtain ⟨id, addressSpace, entry, argument, frames, rfl⟩ := hcreates.fresh
      exact fifo_of_same hinv (hinv.create hfree rfl rfl (Option.some_ne_none _)) rfl
        (append_nil ready).symm
  | add t =>
      rcases hinv.add t with ⟨code, -, heq, -⟩ | ⟨-, -, -, heq, hadded⟩
      · exact hstay (congrArg Prod.snd heq)
      · have hs : (m.step (.add t)).sched = { m.sched with runqueue := m.sched.runqueue.push t } :=
          congrArg Prod.snd heq
        exact fifo_of_same hinv (hs ▸ hadded) (by rw [hs]) rfl
  | start =>
      rcases hinv.start with ⟨code, -, heq⟩ | ⟨n, rest, s', hnone, rfl, heq, hnext, -, hstarted⟩
      · exact hstay (congrArg Prod.snd heq)
      · have hs : (m.step .start).sched = s' := congrArg Prod.snd heq
        refine fifo_of_dispatch hinv (hs ▸ (append_nil rest).symm ▸ hstarted) (hs ▸ hnext) ?_
        rw [hnone]
        intro hsome
        cases hsome
  | yield registers =>
      rcases hinv.yield registers with ⟨code, -, heq⟩ | ⟨c, n, rest, k, s', howner, rfl, heq,
        hhandoff, hinv'⟩
      · exact hstay (by rw [Machine.step, heq]; rfl)
      · exact fifo_of_handoff hinv howner hhandoff (by rw [Machine.step, heq]; rfl) hinv'
  | timer frame =>
      rcases hinv.timer frame with ⟨s', heq, hnoted⟩ |
        ⟨c, n, rest, k, s', howner, rfl, hframe, heq, hhandoff, hinv'⟩
      · obtain ⟨hsame, hinv'⟩ := hinv.noted hnoted
        have hs : (m.step (.timer frame)).sched = s' := by
          rw [Machine.step, heq]
          dsimp only
          rw [if_pos hsame]
        exact fifo_of_same hinv (hs ▸ hinv') (hs ▸ hsame) (append_nil ready).symm
      · refine fifo_of_handoff hinv howner hhandoff ?_ hinv'
        rw [Machine.step, heq]
        dsimp only
        rw [if_neg]
        · rfl
        · rw [hhandoff.current, howner]
          exact fun hsame => hhandoff.distinct (Option.some.inj hsame)
  | preemption | interrupts =>
      exact fifo_of_same hinv (hinv.of_eq rfl rfl rfl) rfl (append_nil ready).symm
  | initQueue q => exact fifo_of_same hinv (hinv.initQueue hguard) rfl (append_nil ready).symm
  | block t q registers =>
      rcases hinv.block t q registers with ⟨code, -, heq⟩ |
        ⟨n, rest, k, s', howner, rfl, heq, hhandoff, hinv'⟩
      · exact hstay (by rw [Machine.step, heq]; rfl)
      · exact fifo_of_handoff hinv howner hhandoff (by rw [Machine.step, heq]; rfl)
          ((append_nil rest).symm ▸ hinv')
  | wake t =>
      rcases hinv.wake t with ⟨code, -, heq⟩ | ⟨q, s', -, heq, hcurrent, -, hinv'⟩
      · exact hstay (congrArg Prod.snd heq)
      · have hs : (m.step (.wake t)).sched = s' := congrArg Prod.snd heq
        exact fifo_of_same hinv (hs ▸ hinv') (hs ▸ hcurrent) rfl
  | exit registers =>
      obtain ⟨c, howner⟩ := Option.isSome_iff_exists.mp hguard
      rcases hinv.bootstrapExit howner registers with ⟨s', rfl, heq, howner', -, hinv'⟩ |
        ⟨n, rest, k, s', rfl, heq, hhandoff, hinv'⟩
      · -- nobody is left to run: the CPU is halted
        have hs : (m.step (.exit registers)).sched = s' := by
          rw [Machine.step, howner]
          dsimp only
          rw [heq]
          rfl
        exact fifo_of_same hinv (hs ▸ hinv') (by rw [hs, howner', howner]) rfl
      · refine fifo_of_handoff hinv howner hhandoff ?_ ((append_nil rest).symm ▸ hinv')
        rw [Machine.step, howner]
        dsimp only
        rw [heq]
        rfl

/-- **The runqueue over a whole run.** -/
theorem fifo_run (h : m.Inv) (hops : (schedSystem layout).Admissible m ops) :
    Fifo m.sched.runqueue.items (m.dispatches ops)
      ((schedSystem layout).run m ops).sched.runqueue.items := by
  induction ops generalizing m with
  | nil => exact ⟨[], append_nil _⟩
  | cons op ops ih => exact (fifo_step h hops.1).trans (ih (h.step hops.1) hops.2)

/-! ## Runs -/

/-- `runqueue_remove`. -/
def remove (m : Machine) (t : TaskRef) : Machine := { m with sched := (runqueueRemove m.sched t).2 }

theorem Inv.remove (h : m.Inv) (hrun : m.halted = false) (t : TaskRef) : (m.remove t).Inv := by
  obtain ⟨ready, waiting, hinv, -⟩ := h.owned
  rw [owner, hrun] at hinv
  change m.sched.Inv m.sched.current ready waiting at hinv
  obtain ⟨s, halted, log⟩ := m
  cases hrun
  by_cases ht : t ∈ ready
  · obtain ⟨queue, heq, hremoved⟩ := hinv.remove ht
    have hs : Machine.remove { sched := s, log := log } t =
        { sched := { s with runqueue := queue }, log := log } :=
      congrArg (fun s' => ({ sched := s', log := log } : Machine)) (congrArg Prod.snd heq)
    rw [hs]
    exact .of_sched hremoved h.current h.faithful
  · have hs : Machine.remove { sched := s, log := log } t = { sched := s, log := log } := by
      have hnone : s.runqueue.remove t = none := hinv.runqueue.remove_of_not_mem ht
      rw [Machine.remove, runqueueRemove, hnone]
    rw [hs]
    exact h

end Machine

/-- The scheduler as a transition system in which tasks may also be taken out of the
runqueue. -/
def removalSystem (layout : TaskLayout) : TransitionSystem Machine (SchedOp ⊕ TaskRef) where
  enabled := fun m op => op.elim (m.Enabled layout) fun _ => m.halted = false
  step := fun m op => op.elim m.step m.remove

theorem Machine.inv_removal (h : (removalSystem layout).Reachable Machine.boot m) : m.Inv := by
  refine h.induction Machine.Inv (fun m op hinv hop => ?_) Machine.inv_boot
  cases op with
  | inl op => exact hinv.step hop
  | inr t => exact hinv.remove hop t

/-- **Nobody overtakes.**  From every reachable state, and for every continuation of the run
without `runqueue_remove`, the tasks that get the CPU are first those of the runqueue, in
its order: the `k`-th dispatch is the `k`-th task of the runqueue, for all `k` up to its
length. -/
theorem dispatches_in_order (layout : TaskLayout) {m : Machine}
    (hm : (removalSystem layout).Reachable Machine.boot m) {ops : List SchedOp}
    (hops : (schedSystem layout).Admissible m ops) (k : ℕ) (hk : k < m.sched.runqueue.items.length)
    {t : TaskRef} (ht : (m.dispatches ops)[k]? = some t) : m.sched.runqueue.items[k]? = some t := by
  obtain ⟨enqueued, heq⟩ := Machine.fifo_run (Machine.inv_removal hm) hops
  have hdispatched : k < (m.dispatches ops).length := (List.getElem?_eq_some_iff.mp ht).1
  have hahead : (m.sched.runqueue.items ++ enqueued)[k]? = m.sched.runqueue.items[k]? :=
    List.getElem?_append_left hk
  rw [← hahead, heq, List.getElem?_append_left hdispatched]
  exact ht

theorem removalSystem_reachable (hops : (schedSystem layout).Admissible m ops) :
    (removalSystem layout).Reachable m ((schedSystem layout).run m ops) := by
  induction ops generalizing m with
  | nil => exact .refl _ m
  | cons op ops ih =>
      have hstep : (removalSystem layout).Reachable m (m.step op) :=
        (TransitionSystem.Reachable.refl _ m).tail (Sum.inl op) hops.1
      exact hstep.trans (ih hops.2)

/-- In `demoOps` both tasks are queued before the first of them starts.  The second dispatch
is that of the task which was queued second. -/
theorem dispatches_in_order_demo :
    (((schedSystem demoLayout).run Machine.boot (demoOps.take 4)).dispatches (demoOps.drop 4))[1]? =
        some 2 ∧
      ((schedSystem demoLayout).run Machine.boot (demoOps.take 4)).sched.runqueue.items[1]? =
        some 2 := by
  have hops : (schedSystem demoLayout).Admissible Machine.boot (demoOps.take 4) ∧
      (schedSystem demoLayout).Admissible
        ((schedSystem demoLayout).run Machine.boot (demoOps.take 4)) (demoOps.drop 4) := by
    rw [← TransitionSystem.admissible_append, take_append_drop]
    exact demoOps_admissible
  have hdispatched :
      (((schedSystem demoLayout).run Machine.boot (demoOps.take 4)).dispatches
        (demoOps.drop 4))[1]? = some 2 := by
    decide +kernel
  have hqueued :
      1 < ((schedSystem demoLayout).run Machine.boot
        (demoOps.take 4)).sched.runqueue.items.length := by
    decide +kernel
  exact ⟨hdispatched,
    dispatches_in_order demoLayout (removalSystem_reachable hops.1) hops.2 1 hqueued hdispatched⟩

end Batos
