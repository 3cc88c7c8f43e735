import ArithDispatch.Proofs.Scheduler.Balance

/-! The counters of a scheduler agree with its state and with the answers that it gave. -/
namespace ArithDispatch

namespace Totals

/-- No number is too large for its counter. -/
structure Fits (totals : Totals) : Prop where
  submitted : totals.submitted < UInt64.size
  completed : totals.completed < UInt64.size
  invalidated : totals.invalidated < UInt64.size
  created : totals.created < UInt64.size
  dispatched : totals.dispatched < UInt64.size
  redispatched : totals.redispatched < UInt64.size
  taken : totals.taken < UInt64.size
  cancelled : totals.cancelled < UInt64.size
  freed : totals.freed < UInt64.size
  rejected : totals.rejected < UInt64.size

theorem Fits.outstanding {totals : Totals} (h : totals.Fits) {live : Nat}
    (hlive : totals.created = live + totals.cancelled + totals.freed) :
    totals.metrics.outstanding = live := by
  have hcreated := h.created
  rw [Metrics.outstanding, metrics, ← UInt64.ofNat_add, UInt64.toNat_ofNat_of_lt' hcreated,
    UInt64.toNat_ofNat_of_lt' (by omega)]
  omega

end Totals

namespace Scheduler

namespace Balanced
variable {events : List Event} {answers : List Answer} {totals : Totals} {s : Scheduler}

/-- Only tasks whose results were taken are freed. -/
theorem freed_le_taken (h : Balanced events answers totals s) : totals.freed ≤ totals.taken := by
  obtain ⟨gone, hcard, hgone⟩ := h.freed
  rw [← hcard, h.taken]
  exact Finset.card_le_card fun id hm => mem_takenIds.mpr (hgone id hm).1

/-- Tasks that were handed out and are not completed are out, or have gone. -/
theorem taken_add_inProgress_le (h : Balanced events answers totals s) (hr : Recorded events s) :
    totals.taken + s.table.inProgress ≤ totals.dispatched := by
  -- a task whose result was taken is live only as a completed one
  have hdisjoint : Disjoint (takenIds events) (s.table.arena.ids Task.isInProgress) := by
    refine Finset.disjoint_left.mpr fun id ht hp => ?_
    obtain ⟨task, hg, hp⟩ := Arena.mem_ids.mp hp
    refine (hr.live id task hg).not_taken ?_ (mem_takenIds.mp ht)
    rw [Task.isInProgress_iff] at hp
    rw [Task.isDone, hp]
    rfl
  rw [h.taken, h.dispatched, ← TaskTable.card_inProgress, ← Finset.card_union_of_disjoint hdisjoint]
  refine Finset.card_le_card fun id hm => mem_sentIds.mpr ?_
  rcases Finset.mem_union.mp hm with ht | hp
  · exact hr.sent id (mem_takenIds.mp ht)
  · obtain ⟨task, hg, hp⟩ := Arena.mem_ids.mp hp
    refine (hr.live id task hg).handedOut_mem ?_
    rw [Task.isInProgress_iff] at hp
    simp [hp]

theorem dispatched_le_created (h : Balanced events answers totals s) (hr : Recorded events s) :
    totals.dispatched ≤ totals.created := by
  have hsub : sentIds events ⊆ Finset.Ico 1 s.table.nextId := by
    intro id hm
    have hsent := mem_sentIds.mp hm
    exact Finset.mem_Ico.mpr ⟨h.positive id hsent, hr.issued id hsent⟩
  have hcard := Finset.card_le_card hsub
  rw [← h.dispatched, Nat.card_Ico, ← h.created] at hcard
  omega

end Balanced

/-- No counter has wrapped. The numbers of completed and of invalid expressions stay below the number of all
expressions, those of dispatched, completed, cancelled and freed tasks below the number of all tasks. -/
structure Unwrapped (s : Scheduler) (actions : List Action) : Prop where
  expressions : (s.run actions).registry.size < UInt64.size
  tasks : (s.run actions).table.nextId ≤ UInt64.size
  repeats : (s.answers actions).countP Answer.isHandOut - (sentIds (s.history actions)).card < UInt64.size
  refusals : (s.answers actions).countP Answer.isRefused < UInt64.size

/-- Only the repeated hand-outs and the refusals can outgrow what is there: every other number is one of
expressions or of tasks. -/
theorem Balanced.fits {actions : List Action} {totals : Totals} {s : Scheduler}
    (h : Balanced (s.history actions) (s.answers actions) totals (s.run actions))
    (hr : Recorded (s.history actions) (s.run actions)) (hw : s.Unwrapped actions) : totals.Fits := by
  have hexpressions := hw.expressions
  have htasks := hw.tasks
  have hrepeats := hw.repeats
  have hsubmitted := h.submitted
  have hcompleted := h.completed
  have hinvalidated := h.invalidated
  have htotal := (s.run actions).registry.total_counts
  have hcreated := h.created
  have hlive := h.live
  have hdispatched := h.dispatched
  have hhandOuts := h.handOuts
  have htaken := h.taken_add_inProgress_le hr
  have hsent := h.dispatched_le_created hr
  simp only [Registry.counts, ExpressionCounts.total] at htotal
  constructor
  case rejected => exact h.rejected ▸ hw.refusals
  all_goals omega

end Scheduler

end ArithDispatch
