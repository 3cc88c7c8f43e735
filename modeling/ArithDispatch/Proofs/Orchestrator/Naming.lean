import ArithDispatch.Proofs.Formula.Spacing
import ArithDispatch.Proofs.Orchestrator.Interleaving

/-! The ids that clients choose and those that are made up for them. Both kinds are registered in one place, and
an id is made up without a look at it, so a client may find that the id made up for it was chosen before. -/
namespace ArithDispatch

/-- Decimal numerals of different numbers are different. -/
private theorem eq_of_repr_eq {i j : Nat} (h : i.repr = j.repr) : i = j := by
  have hdigits : Nat.toDigits 10 i = Nat.toDigits 10 j := by
    rw [← Nat.toList_repr, h, Nat.toList_repr]
  calc i = Nat.ofDigitChars 10 (Nat.toDigits 10 i) 0 := Nat.ofDigitChars_ten_toDigits.symm
    _ = Nat.ofDigitChars 10 (Nat.toDigits 10 j) 0 := by rw [hdigits]
    _ = j := Nat.ofDigitChars_ten_toDigits

namespace SequentialIds

/-- The id made up in the `k`-th place. -/
def nth (stem : String) (k : Nat) : String := s!"{stem}-{UInt64.ofNat k}"

theorem nth_eq_iff {stem : String} {j k : Nat} : nth stem j = nth stem k ↔ j % UInt64.size = k % UInt64.size := by
  constructor
  · intro h
    simp only [nth, toString, String.append_right_inj] at h
    exact eq_of_repr_eq h
  · intro h
    have he : UInt64.ofNat j = UInt64.ofNat k := UInt64.toNat_inj.mp h
    rw [nth, nth, he]

theorem next_ofNat (stem : String) (k : Nat) :
    IdGenerator.next (⟨stem, .ofNat k⟩ : SequentialIds) = (nth stem (k + 1), ⟨stem, .ofNat (k + 1)⟩) := by
  rw [nth, UInt64.ofNat_add]
  rfl

end SequentialIds

theorem Formula.not_isBlank_of_compile {text : String} {compiled : Compiled}
    (h : compile text = .ok compiled) : Text.isBlank text = false := by
  cases hb : Text.isBlank text with
  | false => rfl
  | true =>
    have hread : Reading true [] [] := .done
    have hs := (hread.gap (List.all_eq_true.mp hb)).scan 0
    rw [List.append_nil] at hs
    simp [compile, reversePolish, Token.ofText, hs, Bind.bind, Except.bind] at h

namespace Orchestrator
open Scheduler (Coherent)
open SequentialIds (nth)

/-- The client gave no id, or a blank one. -/
def Unnamed (given : Option String) : Prop := ∀ name, given = some name → Text.isBlank name = true

/-- The client gave this id, perhaps with white space around it. -/
def NamedAs (given : Option String) (id : String) : Prop :=
  ∃ name, given = some name ∧ Text.isBlank name = false ∧ Text.trim name = id

/-- A submission with the answer to it. -/
structure Submitted where
  given : Option String
  text : String
  answer : Except Failure String

/-- The runs of a fresh orchestrator, with the submissions that were made in the course of it. -/
inductive Logged (stem : String) : List Submitted → Orchestrator SequentialIds → Prop
  | create (config : Config) : Logged stem [] (create config ⟨stem, 0⟩)
  | submit {log : List Submitted} {o : Orchestrator SequentialIds} (given : Option String) (text : String) :
      Logged stem log o →
      Logged stem (log ++ [⟨given, text, (o.submit given text).1⟩]) (o.submit given text).2
  | pull {log : List Submitted} {o : Orchestrator SequentialIds} (now : Nat) :
      Logged stem log o → Logged stem log (o.pull now).2
  | report {log : List Submitted} {o : Orchestrator SequentialIds} (id : Nat) (value : Binary64) :
      Logged stem log o → Logged stem log (o.report id value).2

variable {stem : String} {log : List Submitted} {o : Orchestrator SequentialIds} {given : Option String} {text id : String}
  {n : Nat}

/-- A submission asks for the id that its client gave, or uses up one from the supply. -/
theorem chooseId_cases {σ : Type} [IdGenerator σ] (o : Orchestrator σ) (given : Option String) :
    (∃ id, NamedAs given id ∧ o.effectiveId given = id ∧ o.chooseId given = (id, o)) ∨
    (Unnamed given ∧ o.effectiveId given = (IdGenerator.next o.ids).1 ∧
      o.chooseId given = ((IdGenerator.next o.ids).1, { o with ids := (IdGenerator.next o.ids).2 })) := by
  cases given with
  | none => exact .inr ⟨by simp [Unnamed], rfl, rfl⟩
  | some name =>
    cases hb : Text.isBlank name with
    | true =>
      have hunnamed : Unnamed (some name) := by simp [Unnamed, hb]
      exact .inr ⟨hunnamed, if_pos hb, o.chooseId_of_blank hunnamed⟩
    | false => exact .inl ⟨Text.trim name, ⟨name, rfl, hb, rfl⟩, by simp [effectiveId, hb], o.chooseId_of_named hb⟩

theorem effectiveId_of_unnamed (h : Unnamed given) : o.effectiveId given = (IdGenerator.next o.ids).1 := by
  rcases o.chooseId_cases given with ⟨_, ⟨name, hg, hb, _⟩, _⟩ | ⟨_, he, _⟩
  · cases hb.symm.trans (h name hg)
  · exact he

theorem ids_submit {σ : Type} [IdGenerator σ] (o : Orchestrator σ) (given : Option String) (text : String) :
    (o.submit given text).2.ids = if Text.isBlank text then o.ids else (o.chooseId given).2.ids := by
  unfold submit
  split
  · rfl
  · dsimp only
    split
    · rfl
    · cases Formula.compile text <;> rfl

theorem contains_submit {σ : Type} [IdGenerator σ] (o : Orchestrator σ) (given : Option String) (text id : String) :
    (o.submit given text).2.scheduler.registry.contains id = true ↔
      o.scheduler.registry.contains id = true ∨ (o.submit given text).1 = .ok id := by
  rcases o.submit_cases given text with
    ⟨_, he⟩ | ⟨_, t, ht, ⟨_, he⟩ | ⟨_, ⟨_, _, he⟩ | ⟨compiled, _, ⟨_, he⟩ | ⟨_, s, hs, he⟩⟩⟩⟩
  · simp [he]
  · simp [he, ht.scheduler]
  · simp [he, ht.scheduler]
  · simp [he, ht.scheduler]
  · obtain ⟨record, _, hf⟩ := Scheduler.find?_accept (congrArg Prod.fst hs)
    rw [hs] at hf
    rw [he, Registry.contains_insert hf, or_comm]
    exact or_congr_right ⟨fun h => h ▸ rfl, fun h => (Except.ok.inj h).symm⟩

/-- What is known when `n` ids have been made up: which ids are taken, and how each was come by. -/
structure Issued (stem : String) (log : List Submitted) (n : Nat) (o : Orchestrator SequentialIds) : Prop where
  coherent : Coherent o.scheduler
  count : n ≤ log.length
  supply : o.ids = ⟨stem, .ofNat n⟩
  taken : ∀ id, o.scheduler.registry.contains id = true ↔ ∃ entry ∈ log, entry.answer = .ok id
  origin : ∀ entry ∈ log, ∀ id, entry.answer = .ok id →
    NamedAs entry.given id ∨ ∃ k, 0 < k ∧ k ≤ n ∧ id = nth stem k

namespace Issued

theorem create (config : Config) : Issued stem [] 0 (create config ⟨stem, 0⟩) where
  coherent := .fresh ..
  count := Nat.le_refl 0
  supply := rfl
  taken id := ⟨fun hc => absurd hc Bool.false_ne_true, fun ⟨_, hm, _⟩ => by cases hm⟩
  origin entry hm := by cases hm

/-- What registers nothing and makes up no id. -/
theorem frame {t : Orchestrator SequentialIds} (h : Issued stem log n o) (hc : Coherent t.scheduler) (hids : t.ids = o.ids)
    (hkept : ∀ id, t.scheduler.registry.contains id = o.scheduler.registry.contains id) :
    Issued stem log n t :=
  ⟨hc, h.count, hids.trans h.supply, fun id => by rw [hkept, h.taken], h.origin⟩

/-- A submission that has used up `m - n` ids. -/
theorem submitted (h : Issued stem log n o) {m : Nat} (hle : n ≤ m) (hm : m ≤ n + 1)
    (hids : (o.submit given text).2.ids = ⟨stem, .ofNat m⟩)
    (hid : ∀ id, (o.submit given text).1 = .ok id →
      NamedAs given id ∨ ∃ k, 0 < k ∧ k ≤ m ∧ id = nth stem k) :
    Issued stem (log ++ [⟨given, text, (o.submit given text).1⟩]) m (o.submit given text).2 where
  coherent := coherent_submit h.coherent given text
  count := by
    have := h.count
    rw [List.length_append, List.length_singleton]
    omega
  supply := hids
  taken id := by
    rw [contains_submit, h.taken]
    simp only [List.mem_append, List.mem_singleton, or_and_right, exists_or, exists_eq_left]
  origin entry he id ha := by
    rcases List.mem_append.mp he with he | he
    · refine (h.origin entry he id ha).imp_right ?_
      rintro ⟨k, hpos, hk, rfl⟩
      exact ⟨k, hpos, Nat.le_trans hk hle, rfl⟩
    · obtain rfl := List.mem_singleton.mp he
      exact hid id ha

theorem submit (h : Issued stem log n o) (given : Option String) (text : String) :
    ∃ m, Issued stem (log ++ [⟨given, text, (o.submit given text).1⟩]) m (o.submit given text).2 := by
  have hids := o.ids_submit given text
  have hasked : ∀ {id}, (o.submit given text).1 = .ok id → id = o.effectiveId given := fun ha =>
    (submit_ok_iff.mp ha).1
  rcases o.chooseId_cases given with ⟨id, hnamed, heffective, hchoose⟩ | ⟨_, heffective, hchoose⟩
  · rw [hchoose, ite_self, h.supply] at hids
    refine ⟨n, h.submitted (Nat.le_refl n) (Nat.le_succ n) hids fun other ha => .inl ?_⟩
    rwa [hasked ha, heffective]
  · rw [hchoose, h.supply, SequentialIds.next_ofNat] at hids
    rw [h.supply, SequentialIds.next_ofNat] at heffective
    cases hb : Text.isBlank text with
    | true =>
      rw [hb, if_pos rfl] at hids
      refine ⟨n, h.submitted (Nat.le_refl n) (Nat.le_succ n) hids fun other ha => ?_⟩
      exact absurd hb (submit_ok_iff.mp ha).2.1
    | false =>
      rw [hb, if_neg Bool.false_ne_true] at hids
      refine ⟨n + 1, h.submitted (Nat.le_succ n) (Nat.le_refl _) hids fun other ha => .inr ?_⟩
      exact ⟨n + 1, Nat.succ_pos n, Nat.le_refl _, (hasked ha).trans heffective⟩

/-- The id that is made up next was not made up before, as long as the count has not come round. -/
theorem taken_next (h : Issued stem log n o) (hfew : log.length < UInt64.size) :
    o.scheduler.registry.contains (IdGenerator.next o.ids).1 = true ↔
      ∃ entry ∈ log, NamedAs entry.given (IdGenerator.next o.ids).1 ∧ entry.answer = .ok (IdGenerator.next o.ids).1 := by
  rw [h.taken]
  refine exists_congr fun entry => and_congr_right fun hm => ⟨fun ha => ⟨?_, ha⟩, And.right⟩
  refine (h.origin entry hm _ ha).resolve_right ?_
  rintro ⟨k, hpos, hk, he⟩
  rw [h.supply, SequentialIds.next_ofNat, SequentialIds.nth_eq_iff] at he
  have hcount := h.count
  simp only [UInt64.size] at he hfew
  omega

end Issued

theorem Logged.issued (h : Logged stem log o) : ∃ n, Issued stem log n o := by
  induction h with
  | create config => exact ⟨0, .create config⟩
  | submit given text _ ih =>
    obtain ⟨n, hi⟩ := ih
    exact hi.submit given text
  | pull now _ ih =>
    obtain ⟨n, hi⟩ := ih
    exact ⟨n, hi.frame (hi.coherent.pull now) rfl (hi.coherent.contains_pull now)⟩
  | report id value _ ih =>
    obtain ⟨n, hi⟩ := ih
    exact ⟨n, hi.frame (hi.coherent.report id value) rfl (hi.coherent.contains_report id value)⟩

/-- A client that names no id and sends a text that compiles is refused over the id exactly when another client
has chosen, for an expression that was accepted, the very id that is made up next. Otherwise it gets that id,
which was not registered before, unless its text has become a graph and the lock is poisoned. So ids that are
made up never get in each other's way, as long as there are fewer than 2 ^ 64 submissions. -/
theorem unnamed_refused_iff_name_taken (h : Logged stem log o) (hfew : log.length < UInt64.size)
    (hunnamed : Unnamed given) {compiled : Formula.Compiled} (hcompile : Formula.compile text = .ok compiled) :
    let id := (IdGenerator.next o.ids).1
    let answer := (o.submit given text).1
    let taken := ∃ entry ∈ log, NamedAs entry.given id ∧ entry.answer = .ok id
    (answer = .error (.duplicateId id) ↔ taken) ∧
      (answer = .error .tableLockPoisoned ↔ ¬ taken ∧ o.scheduler.bars compiled = true) ∧
      (answer = .ok id ↔ ¬ taken ∧ o.scheduler.bars compiled = false) ∧
      ∀ other, answer = .ok other → other = id ∧ o.scheduler.registry.contains other = false := by
  intro id answer taken
  obtain ⟨n, hi⟩ := h.issued
  have hid : o.effectiveId given = id := effectiveId_of_unnamed hunnamed
  have hblank : ¬ Text.isBlank text = true := by simp [Formula.not_isBlank_of_compile hcompile]
  have htaken : o.scheduler.registry.contains id = true ↔ taken := hi.taken_next hfew
  have hrefused : answer = .error (.duplicateId id) ↔ taken := by
    rw [submit_duplicateId_iff, hid, htaken]
    simp [hblank]
  have hbarred : answer = .error .tableLockPoisoned ↔ ¬ taken ∧ o.scheduler.bars compiled = true := by
    rw [submit_tableLockPoisoned_iff, hid, htaken]
    simp [hblank, hcompile]
  have haccepted : ∀ other, answer = .ok other ↔
      other = id ∧ ¬ taken ∧ o.scheduler.bars compiled = false := by
    intro other
    rw [submit_ok_iff, hid, htaken]
    simp [hblank, hcompile]
  refine ⟨hrefused, hbarred, (haccepted id).trans (and_iff_right rfl), fun other ha => ?_⟩
  obtain ⟨rfl, hfree, _⟩ := (haccepted other).mp ha
  exact ⟨rfl, Bool.eq_false_iff.mpr fun hc => hfree (htaken.mp hc)⟩

/-- A client has called its sum `expr-2`. The first unnamed submission gets `expr-1`, the second one is refused. -/
theorem second_unnamed_refused :
    let first := (create {} (⟨"expr", 0⟩ : SequentialIds)).submit (some " expr-2") "1+1"
    let second := first.2.submit none "2"
    second.1 = .ok "expr-1" ∧ (second.2.submit (some " ") "3").1 = .error (.duplicateId "expr-2") := by
  intro first second
  have hfirst : first.1 = .ok "expr-2" := by decide +kernel
  have hsecond : second.1 = .ok "expr-1" := by decide +kernel
  have hlogged : Logged "expr" [⟨some " expr-2", "1+1", first.1⟩, ⟨none, "2", second.1⟩] second.2 :=
    .submit none "2" (.submit (some " expr-2") "1+1" (.create {}))
  have hunnamed : Unnamed (some " ") := by
    rintro name hn
    cases hn
    decide
  have hcompile : Formula.compile "3" = .ok (.literal .three) := by decide +kernel
  have hnext : (IdGenerator.next second.2.ids).1 = "expr-2" := by decide +kernel
  obtain ⟨hrefused, _⟩ := unnamed_refused_iff_name_taken hlogged (by decide) hunnamed hcompile
  rw [hnext] at hrefused
  refine ⟨hsecond, hrefused.mpr ⟨_, List.mem_cons_self, ⟨" expr-2", rfl, by decide, by decide⟩, hfirst⟩⟩

/-- A client that names no id is refused for the id that was made up for it. -/
theorem first_unnamed_refused :
    let first := (create {} (⟨"expr", 0⟩ : SequentialIds)).submit (some "expr-1") "1+1"
    Logged "expr" [⟨some "expr-1", "1+1", first.1⟩] first.2 ∧ Unnamed none ∧
      Formula.compile "2" = .ok (.literal .two) ∧
      (first.2.submit none "2").1 = .error (.duplicateId "expr-1") := by
  intro first
  exact ⟨.submit (some "expr-1") "1+1" (.create {}), by simp [Unnamed], by decide +kernel, by decide +kernel⟩

end Orchestrator

end ArithDispatch
