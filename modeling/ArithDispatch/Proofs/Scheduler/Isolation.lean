import ArithDispatch.Proofs.Scheduler.MirroredPull

/-! Expressions do not affect each other as long as no pull panics: what a run does for one of them is what a
run does that has nothing else to do. -/
namespace ArithDispatch.Scheduler

/-- What the caller of an action gets back. -/
inductive Answer where
  | accepted (outcome : Except Failure Unit)
  | pulled (outcome : Outcome (Option TaskPayload))
  | reported (outcome : Except Failure Unit)
  deriving DecidableEq

def answer (s : Scheduler) : Action → Answer
  | .accept owner source compiled => .accepted (s.accept owner source compiled).1
  | .pull now => .pulled (s.pull now).1
  | .report id value => .reported (s.report id value).1

/-- An action with its answer, and what the expression of interest looks like after it. -/
structure Step where
  action : Action
  answer : Answer
  summary : Option ExpressionSummary
  deriving DecidableEq

def transcript (s : Scheduler) (owner : String) : List Action → List Step
  | [] => []
  | action :: rest =>
    ⟨action, s.answer action, (s.perform action).registry.summary? owner⟩ ::
      (s.perform action).transcript owner rest

namespace Window

/-- The actions on the expression: to accept it, pulls that hand out one of its tasks or make it invalid,
and reports for its ids. -/
def keeps (w : Window) (s : Scheduler) : Action → Bool
  | .accept owner _ _ => owner == w.owner
  | .pull now => w.touches s (s.pull now)
  | .report id _ => w.contains id

/-- The same action when the ids of the expression start at 1. -/
def lowerAction (w : Window) : Action → Action
  | .report id value => .report (id - w.offset) value
  | .accept owner source compiled => .accept owner source compiled
  | .pull now => .pull now

/-- The same answer when the ids start at 1; a task of another expression is left out. -/
def lowerAnswer (w : Window) : Answer → Answer
  | .accepted outcome => .accepted outcome
  | .pulled (.ok payload) => .pulled (.ok (w.lowerPayload payload))
  | .pulled outcome => .pulled outcome
  | .reported outcome => .reported (outcome.mapError (Failure.lower w.offset))

/-- What is left of a run when all but the actions on the expression is erased. -/
def kept (w : Window) (s : Scheduler) : List Action → List Step
  | [] => []
  | action :: rest =>
    if w.keeps s action then
      ⟨w.lowerAction action, w.lowerAnswer (s.answer action),
        (s.perform action).registry.summary? w.owner⟩ :: w.kept (s.perform action) rest
    else w.kept (s.perform action) rest

/-- The actions that are left. -/
def remaining (w : Window) (s : Scheduler) (actions : List Action) : List Action :=
  (w.kept s actions).map Step.action

/-- The action does not accept the expression, nor does it give the ids away that are meant for it, and it
does not panic. -/
structure Spares (w : Window) (s : Scheduler) (action : Action) : Prop where
  accepted : ∀ source compiled, action = .accept w.owner source compiled →
    s.registry.contains w.owner = true
  ids : w.offset + w.size < s.table.nextId ∨ (s.perform action).table.nextId ≤ w.offset + 1
  calm : ∀ now, action = .pull now → (s.pull now).1 ≠ .panic

end Window

/-- To repeat in `r` what is left of a run of `s` gives what was kept of it. -/
structure Replays (w : Window) (s r : Scheduler) (actions : List Action) : Prop where
  transcript : r.transcript w.owner (w.remaining s actions) = w.kept s actions
  mirrors : Mirrors w (s.run actions) (r.run (w.remaining s actions))
  coherent : Coherent (r.run (w.remaining s actions))

variable {w : Window} {s r : Scheduler} {action : Action} {actions : List Action}

theorem transcript_append (s : Scheduler) (owner : String) (first second : List Action) :
    s.transcript owner (first ++ second) =
      s.transcript owner first ++ (s.run first).transcript owner second := by
  induction first generalizing s with
  | nil => rfl
  | cons action rest ih =>
    rw [List.cons_append, transcript, transcript, ih]
    rfl

theorem Window.kept_append (w : Window) (s : Scheduler) (first second : List Action) :
    w.kept s (first ++ second) = w.kept s first ++ w.kept (s.run first) second := by
  induction first generalizing s with
  | nil => rfl
  | cons action rest ih =>
    rw [List.cons_append, kept, kept, ih]
    split <;> rfl

theorem Window.remaining_append (w : Window) (s : Scheduler) (first second : List Action) :
    w.remaining s (first ++ second) = w.remaining s first ++ w.remaining (s.run first) second := by
  rw [remaining, kept_append, List.map_append]
  rfl

namespace Replays

theorem append {first second : List Action} (h : Replays w s r first)
    (h' : Replays w (s.run first) (r.run (w.remaining s first)) second) :
    Replays w s r (first ++ second) := by
  refine ⟨?_, ?_, ?_⟩
  · rw [w.remaining_append, transcript_append, w.kept_append, h.transcript, h'.transcript]
  · rw [w.remaining_append, run_append, run_append]
    exact h'.mirrors
  · rw [w.remaining_append, run_append]
    exact h'.coherent

theorem kept (hk : w.keeps s action = true)
    (hsame : r.answer (w.lowerAction action) = w.lowerAnswer (s.answer action))
    (hm : Mirrors w (s.perform action) (r.perform (w.lowerAction action)))
    (hr : Coherent (r.perform (w.lowerAction action))) : Replays w s r [action] := by
  have hone : w.remaining s [action] = [w.lowerAction action] := by
    simp only [Window.remaining, Window.kept, hk, if_true, List.map_cons, List.map_nil]
  refine ⟨?_, hone ▸ hm, hone ▸ hr⟩
  rw [hone]
  simp only [Scheduler.transcript, Window.kept, hk, if_true, hsame, hm.summary?]

theorem erased (hk : w.keeps s action = false) (hm : Mirrors w (s.perform action) r) (hr : Coherent r) :
    Replays w s r [action] := by
  have hkept : w.kept s [action] = [] := by
    simp only [Window.kept, hk, Bool.false_eq_true, if_false]
  have hnone : w.remaining s [action] = [] := by
    rw [Window.remaining, hkept, List.map_nil]
  constructor <;> rw [hnone]
  · exact hkept.symm
  · exact hm
  · exact hr

end Replays

theorem Extends.contains {owner : String} (h : Extends s r) (hc : s.registry.contains owner = true) :
    r.registry.contains owner = true := by
  by_contra hn
  rw [Registry.contains, h.records owner (find?_eq_none_of_not_contains hn)] at hc
  cases hc

theorem contains_accept (h : s.poisoned = false) (owner source : String) (compiled : Formula.Compiled) :
    (s.accept owner source compiled).2.registry.contains owner = true := by
  have hb := bars_of_sound h compiled
  by_cases htaken : s.registry.contains owner = true
  · rw [accept_taken hb htaken]
    exact htaken
  · have hok : (s.accept owner source compiled).1 = .ok () := accept_free hb htaken
    obtain ⟨record, _, hf⟩ := find?_accept hok
    rw [Registry.contains, hf, if_pos rfl]
    rfl

namespace Mirrors

theorem fresh (w : Window) (durations : OperationDurations) (lease : Option Duration) :
    Mirrors w { durations, lease } { durations, lease } where
  durations := rfl
  lease := rfl
  lock := rfl
  record := rfl
  tasks id := rfl
  inside id task hg := by cases hg
  unborn _ := rfl

theorem bars (h : Mirrors w s r) (compiled : Formula.Compiled) : r.bars compiled = s.bars compiled := by
  cases compiled with
  | literal value => rfl
  | graph graph => exact h.lock

theorem perform (h : Mirrors w s r) (hs : Coherent s) (hr : Coherent r) (hspares : w.Spares s action) :
    (w.keeps s action = true → r.answer (w.lowerAction action) = w.lowerAnswer (s.answer action) ∧
      Mirrors w (s.perform action) (r.perform (w.lowerAction action))) ∧
    (w.keeps s action = false → Mirrors w (s.perform action) r) := by
  cases action with
  | accept owner source compiled =>
    refine ⟨fun hk => ?_, fun hk => ?_⟩
    · obtain rfl : owner = w.owner := by simpa [Window.keeps] using hk
      have hc := hspares.accepted source compiled rfl
      have hc' : r.registry.contains w.owner = true := by
        rw [Registry.contains, h.record, Option.isSome_map]
        exact hc
      by_cases hb : s.bars compiled = true
      · have hb' : r.bars compiled = true := by rw [← hb]; exact h.bars compiled
        simp only [Window.lowerAction, Window.lowerAnswer, Scheduler.answer, Scheduler.perform,
          accept_barred hb, accept_barred hb']
        exact ⟨trivial, h⟩
      · rw [Bool.not_eq_true] at hb
        have hb' : r.bars compiled = false := by rw [← hb]; exact h.bars compiled
        simp only [Window.lowerAction, Window.lowerAnswer, Scheduler.answer, Scheduler.perform,
          accept_taken hb hc, accept_taken hb' hc']
        exact ⟨trivial, h⟩
    · exact h.accept_other hs (by simpa [Window.keeps] using hk) compiled hspares.ids
  | pull now =>
    cases hp : (s.pull now).1 with
    | ok payload =>
      obtain ⟨hyes, hno⟩ := h.pull hs hr now payload hp
      refine ⟨fun hk => ?_, hno⟩
      obtain ⟨hsame, hm⟩ := hyes hk
      simp only [Window.lowerAction, Scheduler.answer, hp, Window.lowerAnswer, hsame]
      exact ⟨trivial, hm⟩
    | error failure =>
      -- only the lock makes a pull fail, and then neither scheduler does anything
      have he : s.pull now = (.error failure, s) := by
        have he : s.pull now = (.error failure, (s.pull now).2) := Prod.ext hp rfl
        generalize (s.pull now).2 = t at he
        cases fruitless_of_pull he rfl with
        | locked => exact he
      have hk : w.keeps s (.pull now) = false := by
        simp [Window.keeps, Window.touches, he, Outcome.payload?]
      refine ⟨fun hk' => ?_, fun _ => ?_⟩
      · rw [hk] at hk'
        cases hk'
      · rw [Scheduler.perform, he]
        exact h
    | panic => exact absurd hp (hspares.calm now rfl)
  | report id value =>
    refine ⟨fun hk => ?_, fun hk => ?_⟩
    · obtain ⟨hsame, hm⟩ := h.report hs hr hk value
      exact ⟨congrArg Answer.reported hsame, hm⟩
    · refine h.frame (.report hs (fun task hg ho => ?_) value)
      have hc := (h.inside id task hg).mp ho
      rw [show w.contains id = false from hk] at hc
      cases hc

theorem replay (h : Mirrors w s r) (hs : Coherent s) (hr : Coherent r)
    (ha : ∀ action ∈ actions, action.Admissible)
    (hspares : ∀ before action after, actions = before ++ action :: after →
      w.Spares (s.run before) action) : Replays w s r actions := by
  induction actions generalizing s r with
  | nil => exact ⟨rfl, h, hr⟩
  | cons action rest ih =>
    obtain ⟨hfirst, hrest⟩ := List.forall_mem_cons.mp ha
    obtain ⟨hyes, hno⟩ := h.perform hs hr (hspares [] action rest rfl)
    have hlow : (w.lowerAction action).Admissible := by
      cases action with
      | accept => exact hfirst
      | pull => trivial
      | report => trivial
    have hone : Replays w s r [action] := by
      cases hk : w.keeps s action with
      | true => exact .kept hk (hyes hk).1 (hyes hk).2 (hr.perform hlow)
      | false => exact .erased hk (hno hk) hr
    refine hone.append (ih hone.mirrors (hs.perform hfirst) hone.coherent hrest ?_)
    exact fun before next after he => hspares (action :: before) next after (he ▸ rfl)

end Mirrors

namespace Window

theorem calm_of_run (hsound : (s.run actions).poisoned = false) {before after : List Action}
    (he : actions = before ++ action :: after) (now : Nat) (hp : action = .pull now) :
    ((s.run before).pull now).1 ≠ .panic := by
  subst he hp
  intro hpanic
  exact absurd (poisoned_run_iff.mpr (.inr ⟨before, now, after, rfl, hpanic⟩)) (Bool.eq_false_iff.mp hsound)

/-- A run that ends before the expression is accepted, where its ids begin. -/
theorem spares_before (hs : Coherent s) (ha : ∀ action ∈ actions, action.Admissible)
    (hsound : (s.run actions).poisoned = false) (hnew : (s.run actions).registry.contains w.owner = false)
    (hids : (s.run actions).table.nextId ≤ w.offset + 1) {before after : List Action}
    (he : actions = before ++ action :: after) : w.Spares (s.run before) action := by
  have hcalm := calm_of_run hsound he
  subst he
  obtain ⟨hbefore, hrest⟩ := List.forall_mem_append.mp ha
  obtain ⟨hfirst, hafter⟩ := List.forall_mem_cons.mp hrest
  have hc := (hs.run hbefore).perform hfirst
  have hext : Extends ((s.run before).perform action) (s.run (before ++ action :: after)) := by
    rw [run_append]
    exact Extends.run hc hafter
  refine ⟨fun source compiled he => ?_, .inr (Nat.le_trans hext.next hids), hcalm⟩
  subst he
  rw [hext.contains (contains_accept (sound_of_run hsound) ..)] at hnew
  cases hnew

/-- A run that begins once the expression is accepted. -/
theorem spares_after (hs : Coherent s) (ha : ∀ action ∈ actions, action.Admissible)
    (hsound : (s.run actions).poisoned = false) (hc : s.registry.contains w.owner = true)
    (hids : w.offset + w.size < s.table.nextId) {before after : List Action}
    (he : actions = before ++ action :: after) : w.Spares (s.run before) action := by
  have hcalm := calm_of_run hsound he
  subst he
  have hext := Extends.run hs (List.forall_mem_append.mp ha).1
  exact ⟨fun _ _ _ => hext.contains hc, .inl (Nat.lt_of_lt_of_le hids hext.next), hcalm⟩

end Window

/-- Expressions are isolated as long as no pull has panicked. Erase from such a run all that is not about one
expression, and repeat what is left on a fresh scheduler, with the ids of this expression counted from 1:
every answer is the same, up to the numbering and without the tasks of others, and after every action so
are the status, the result and the error of the expression. -/
theorem replay_of_expression_alone (durations : OperationDurations) (lease : Option Duration)
    {early late : List Action} {owner source : String} {graph : Formula.Graph}
    (ha : ∀ action ∈ early ++ .accept owner source (.graph graph) :: late, action.Admissible)
    (hnew : (({ durations, lease } : Scheduler).run early).registry.contains owner = false)
    (hsound : (({ durations, lease } : Scheduler).run
      (early ++ .accept owner source (.graph graph) :: late)).poisoned = false) :
    let start : Scheduler := { durations, lease }
    let actions := early ++ .accept owner source (.graph graph) :: late
    let w : Window := ⟨owner, (start.run early).table.nextId - 1, graph.size⟩
    start.transcript owner (w.remaining start actions) = w.kept start actions ∧
      (start.run (w.remaining start actions)).registry.summary? owner =
        (start.run actions).registry.summary? owner := by
  intro start actions w
  obtain ⟨hearly, hrest⟩ := List.forall_mem_append.mp ha
  obtain ⟨hgraph, hlate⟩ := List.forall_mem_cons.mp hrest
  have hstart : Coherent start := .fresh durations lease
  have hs : Coherent (start.run early) := hstart.run hearly
  have hcalm : (start.run early).poisoned = false := sound_of_run hsound
  have hoffset : (start.run early).table.nextId = w.offset + 1 :=
    (Nat.sub_add_cancel (Extends.run hstart hearly).next).symm
  have before : Replays w start start early :=
    (Mirrors.fresh w durations lease).replay hstart hstart hearly fun _ _ _ he =>
      w.spares_before hstart hearly hcalm hnew (Nat.le_of_eq hoffset) he
  have hfind : (start.run early).registry.find? w.owner = none :=
    find?_eq_none_of_not_contains (Bool.eq_false_iff.mp hnew)
  obtain ⟨hok, hok', hm, hids⟩ :=
    before.mirrors.accept_self hs before.coherent hcalm hfind hoffset rfl source
  have own : Replays w (start.run early) (start.run (w.remaining start early))
      [.accept owner source (.graph graph)] := by
    refine .kept (beq_self_eq_true owner) ?_ hm (before.coherent.perform hgraph)
    exact congrArg Answer.accepted (hok'.trans hok.symm)
  have hlast : (((start.run early).perform (.accept owner source (.graph graph))).run late).poisoned = false := by
    rw [← hsound, run_append]
    rfl
  have after := own.mirrors.replay (hs.perform hgraph) own.coherent hlate fun _ _ _ he =>
    w.spares_after (hs.perform hgraph) hlate hlast (contains_accept hcalm ..) hids he
  have whole : Replays w start start actions := before.append (own.append after)
  exact ⟨whole.transcript, whole.mirrors.summary?⟩

/-- Two expressions take turns. Of the run only the actions on the second one are left, whose first task is
then 1 and not 3. -/
theorem replay_of_second_product :
    let early : List Action := [.accept "a" "(1+2)*3" (.graph Formula.productGraph)]
    let late : List Action := [.pull 0, .pull 0, .report 1 .three, .report 3 .three, .report 3 .zero]
    let start : Scheduler := {}
    let actions := early ++ .accept "b" "(1+2)*3" (.graph Formula.productGraph) :: late
    let w : Window := ⟨"b", 2, 2⟩
    w.remaining start actions =
        [.accept "b" "(1+2)*3" (.graph Formula.productGraph), .pull 0, .report 1 .three, .report 1 .zero] ∧
      start.transcript "b" (w.remaining start actions) = w.kept start actions := by
  intro early late start actions w
  have ha : ∀ action ∈ actions, action.Admissible :=
    List.forall_mem_cons.mpr ⟨admissible_product .., List.forall_mem_cons.mpr ⟨admissible_product .., by
      simp [late, Action.Admissible]⟩⟩
  have hw : (⟨"b", (start.run early).table.nextId - 1, Formula.productGraph.size⟩ : Window) = w := by
    decide +kernel
  have hreplay := (replay_of_expression_alone {} none ha (by decide +kernel) (by decide +kernel)).1
  exact ⟨by decide +kernel, hw ▸ hreplay⟩

/-- Under the longest lease the pull panics, which shows in the run alone: a report for the task fails on the
lock there, and in the replay because nobody has the task. -/
theorem replay_differs_under_longest_lease :
    let start : Scheduler := { lease := some .longest }
    let before : List Action := [.accept "a" "1+2" (.graph Formula.sumGraph), .pull 0]
    let actions := before ++ [.report 1 .three]
    let w : Window := ⟨"a", 0, 1⟩
    w.remaining start actions = [.accept "a" "1+2" (.graph Formula.sumGraph), .report 1 .three] ∧
      ((start.run before).report 1 .three).1 = .error .tableLockPoisoned ∧
      ((start.run (w.remaining start before)).report 1 .three).1 =
        .error (.taskNotAwaitingResult 1 "not dispatched") ∧
      start.transcript "a" (w.remaining start actions) ≠ w.kept start actions := by
  intro start before actions w
  exact ⟨by decide +kernel, by decide +kernel, by decide +kernel, by decide +kernel⟩

end ArithDispatch.Scheduler
