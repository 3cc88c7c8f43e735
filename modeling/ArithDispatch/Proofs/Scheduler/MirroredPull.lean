import ArithDispatch.Proofs.Scheduler.Mirror
import ArithDispatch.Proofs.Scheduler.Rescan

/-! A pull of a scheduler against one of its mirror, which has a single expression: the other expressions
do not decide what the scan does with the tasks of this one. -/
namespace ArithDispatch.Scheduler

/-- Whether a pull hands out a task of the expression or makes it invalid. -/
def Window.touches (w : Window) (s : Scheduler) (result : Outcome (Option TaskPayload) × Scheduler) : Bool :=
  result.1.payload?.any (w.contains ·.id) ||
    (s.registry.status? w.owner != some .invalid && result.2.registry.status? w.owner == some .invalid)

/-- The same hand-out when the ids start at 1; a task of another expression is left out. -/
def Window.lowerPayload (w : Window) (payload : Option TaskPayload) : Option TaskPayload :=
  (payload.filter (w.contains ·.id)).map (·.lower w.offset)

theorem search_of_empty {s : Scheduler} (h : ∀ id, s.table.get? id = none) (now : Nat) :
    s.search now = (.ok none, s) := by
  rw [search_eq, TaskTable.nextAttention_of_none]
  intro id task hg
  rw [h] at hg
  cases hg

namespace Mirrors
variable {w : Window} {s r : Scheduler} {task : Task} {now : Nat}
  {result mirrored : Outcome (Option TaskPayload) × Scheduler}

theorem withMark (h : Mirrors w s r) (mark mark' : Nat) :
    Mirrors w (s.withMark mark) (r.withMark mark') :=
  ⟨h.durations, h.lease, h.lock, h.record, h.tasks, h.inside, h.unborn⟩

theorem withMark_left (h : Mirrors w s r) (mark : Nat) : Mirrors w (s.withMark mark) r :=
  ⟨h.durations, h.lease, h.lock, h.record, h.tasks, h.inside, h.unborn⟩

/-- What `s` comes to first, if it is the expression's, is what `r` comes to first. -/
theorem nextAttention (h : Mirrors w s r) (hs : Coherent s) {found : Attention}
    (ha : s.table.nextAttention s.registry now 0 = some (task, found)) (ho : task.owner = w.owner) :
    r.table.nextAttention r.registry now 0 = some (task.lower w.offset, found) := by
  obtain ⟨hg, _, ha, hl⟩ := TaskTable.nextAttention_eq_some ha
  refine TaskTable.nextAttention_of_least (h.get?_lower hg ho) (Nat.zero_le _) ?_ ?_
  · rw [h.attention hs hg ho, ha]
  · intro id other hother _ hlt
    obtain ⟨before, hbefore, howner, rfl⟩ := h.exists_lower hother
    have hid : id + w.offset < task.id := by
      have := h.offset_lt hg ho
      simp only [Task.lower] at hlt
      omega
    rw [h.attention hs hbefore howner]
    exact hl _ before hbefore (Nat.zero_le _) hid

/-- What a scan that begins in `s` and succeeds ends with, against what it ends with in `r`. -/
def Agrees (w : Window) (s r : Scheduler) (result mirrored : Outcome (Option TaskPayload) × Scheduler) :
    Prop :=
  ∀ payload, result.1 = .ok payload →
    (w.touches s result = true →
      mirrored.1 = .ok (w.lowerPayload payload) ∧ Mirrors w result.2 mirrored.2) ∧
    (w.touches s result = false → Mirrors w result.2 r)

theorem agrees_none (h : Mirrors w s r) : Agrees w s r (.ok none, s) mirrored := by
  refine fun _ _ => ⟨fun ht => ?_, fun _ => h⟩
  simp [Window.touches, Outcome.payload?] at ht

/-- Once the expression is invalid, the rest of the scan does not touch it. -/
theorem agrees_invalidate (h : Mirrors w s r) (hs : Coherent s) (hr : Coherent r)
    (hg : s.table.get? task.id = some task) (ho : task.owner = w.owner) (obstacle : Obstacle)
    (ih : Agrees w (s.invalidate task obstacle) (r.invalidate (task.lower w.offset) obstacle) result
      ((r.invalidate (task.lower w.offset) obstacle).search now)) :
    Agrees w s r result ((r.invalidate (task.lower w.offset) obstacle).search now) := by
  have hlow := h.get?_lower_self hg ho
  have hempty : ∀ id, (r.invalidate (task.lower w.offset) obstacle).table.get? id = none := by
    intro id
    rw [get?_invalidate hr hlow]
    cases hother : r.table.get? id with
    | none => rfl
    | some other =>
      have hsame : other.owner = (task.lower w.offset).owner := (h.owner_eq hother).trans ho.symm
      exact Option.filter_some_neg (by simpa using hsame)
  rw [search_of_empty hempty] at ih ⊢
  obtain ⟨root, hopen, _⟩ := hs.owned task.id task hg
  have hdead : (s.invalidate task obstacle).registry.status? w.owner = some .invalid :=
    ho ▸ Registry.status?_invalidate hopen _
  have hopen' : s.registry.status? w.owner ≠ some .invalid :=
    ho ▸ Registry.status?_ne_of_open hopen rfl
  intro payload hp
  obtain ⟨hyes, hno⟩ := ih payload hp
  have hhanded : result.1.payload? = payload := by rw [hp, Outcome.payload?]
  have hany : payload.any (w.contains ·.id) = false := by
    by_contra hany
    rw [Bool.not_eq_false] at hany
    have hn := Outcome.ok.inj (hyes (by simp [Window.touches, hhanded, hany])).1
    rw [eq_comm, Window.lowerPayload, Option.map_eq_none_iff, Option.filter_eq_none_iff] at hn
    obtain ⟨found, hf, hc⟩ := (Option.any_eq_true ..).mp hany
    exact hn found hf hc
  have hm := hno (by simp [Window.touches, hhanded, hany, hdead])
  refine ⟨fun _ => ⟨congrArg Outcome.ok ?_, hm⟩, fun ht => ?_⟩
  · rw [eq_comm, Window.lowerPayload, Option.map_eq_none_iff, Option.filter_eq_none_iff]
    intro found hf hc
    simp [(Option.any_eq_false ..).mp hany found hf] at hc
  · have hstatus : result.2.registry.status? w.owner = some .invalid := by
      rw [← hm.status?, (h.invalidate hs hr hg ho obstacle).status?, hdead]
    simp [Window.touches, hopen', hstatus] at ht

theorem agrees_dispatch (h : Mirrors w s r) (hs : Coherent s) (hr : Coherent r)
    (hg : s.table.get? task.id = some task) (ho : task.owner = w.owner) {left right : Binary64}
    (hleft : s.table.readiness task.left = .ready left)
    (hright : s.table.readiness task.right = .ready right) (now : Nat) (redispatch : Bool) :
    Agrees w s r (.ok (some (s.dispatch now task left right redispatch).1),
      (s.dispatch now task left right redispatch).2)
      (.ok (some (r.dispatch now (task.lower w.offset) left right redispatch).1),
        (r.dispatch now (task.lower w.offset) left right redispatch).2) := by
  have hc : w.contains (s.dispatch now task left right redispatch).1.id = true := (h.inside _ task hg).mp ho
  rintro _ ⟨⟩
  refine ⟨fun _ => ⟨?_, h.dispatch hs hr hg ho hleft hright now redispatch⟩, fun ht => ?_⟩
  · have hf : Option.filter (fun payload : TaskPayload => w.contains payload.id)
        (some (s.dispatch now task left right redispatch).1) =
          some (s.dispatch now task left right redispatch).1 := Option.filter_some_pos hc
    rw [Window.lowerPayload, hf]
    rfl
  · simp [Window.touches, Outcome.payload?, hc] at ht

theorem agrees_dispatch_other (h : Mirrors w s r) (hs : Coherent s)
    (hg : s.table.get? task.id = some task) (ho : task.owner ≠ w.owner) {left right : Binary64}
    (hleft : s.table.readiness task.left = .ready left)
    (hright : s.table.readiness task.right = .ready right) (now : Nat) (redispatch : Bool) :
    Agrees w s r (.ok (some (s.dispatch now task left right redispatch).1),
      (s.dispatch now task left right redispatch).2) mirrored := by
  have f := Frame.dispatch hs hg hleft hright ho now redispatch
  have hc : w.contains (s.dispatch now task left right redispatch).1.id = false :=
    Bool.eq_false_iff.mpr fun hc => ho ((h.inside _ task hg).mpr hc)
  refine fun _ _ => ⟨fun ht => ?_, fun _ => h.frame f⟩
  simp [Window.touches, Outcome.payload?, f.status?, hc] at ht

theorem search (h : Mirrors w s r) (hs : Coherent s) (hr : Coherent r) (now : Nat) :
    Agrees w s r (s.search now) (r.search now) := by
  -- along the search of `s`; that of `r` takes a step only where this one meets the expression
  fun_induction Scheduler.search s now generalizing r with
  | case1 s found => exact h.agrees_none
  | case2 s task found ih => exact absurd found hs.nextAttention_ne_sweep
  | case3 s task obstacle found ih =>
    obtain ⟨hg, _, _, _, _, _, ⟨_, _, hf⟩ | ⟨_, hf⟩⟩ := hs.nextAttention_cases found <;> cases hf
    by_cases ho : task.owner = w.owner
    · have hlow := h.get?_lower_self hg ho
      rw [search_eq r, h.nextAttention hs found ho]
      exact h.agrees_invalidate hs hr hg ho _
        (ih (h.invalidate hs hr hg ho _) (hs.invalidate hg) (hr.invalidate hlow))
    · have f := Frame.invalidate hs hg ho .divisionByZero
      have hagree := ih (h.frame f) (hs.invalidate hg) hr
      rwa [Agrees, Window.touches, f.status?] at hagree
  | case4 s task left right redispatch found =>
    obtain ⟨hg, _, _, _, hleft, hright, ⟨_, _, hf⟩ | ⟨_, hf⟩⟩ := hs.nextAttention_cases found <;> cases hf
    rw [handOver_of_found found]
    split
    · next hfits =>
      by_cases ho : task.owner = w.owner
      · have found' := h.nextAttention hs found ho
        rw [search_eq r, found']
        simp only
        rw [handOver_of_found found', leaseFits_congr h.lease, if_pos hfits]
        exact h.agrees_dispatch hs hr hg ho hleft hright now _
      · exact h.agrees_dispatch_other hs hg ho hleft hright now _
    · exact fun payload hp => by cases hp

/-- A pull that succeeds and touches the expression hands out the same task of it, or none, from both. -/
theorem pull (h : Mirrors w s r) (hs : Coherent s) (hr : Coherent r) (now : Nat) :
    Agrees w s r (s.pull now) (r.pull now) := by
  intro payload hp
  have hlock : ¬ s.poisoned = true := by
    intro hlock
    rw [pull_of_poisoned hlock] at hp
    cases hp
  have hlock' : ¬ r.poisoned = true := h.lock ▸ hlock
  rw [hs.pull_eq_rescan, Scheduler.rescan, if_neg hlock] at hp ⊢
  rw [hr.pull_eq_rescan, Scheduler.rescan, if_neg hlock']
  obtain ⟨hyes, hno⟩ := h.search hs hr now payload hp
  refine ⟨fun ht => ?_, fun ht => (hno ht).withMark_left _⟩
  obtain ⟨hsame, hm⟩ := hyes ht
  exact ⟨hsame, hm.withMark _ _⟩

end Mirrors

end ArithDispatch.Scheduler
