import ArithDispatch.Proofs.Orchestrator.Submission
import ArithDispatch.Proofs.Scheduler.Faithful

/-! What a client sees does not depend on the schedule: when all workers compute the same function, a
finished expression shows the value of its formula, and an invalid one divides by zero. -/
namespace ArithDispatch.Orchestrator
open Scheduler (Work Honest Coherent Faithful)

/-- The runs of a fresh orchestrator in which workers compute `work`, with the payloads that were handed
out. A report may be late or repeated, and may name any id. -/
inductive HonestRun {σ : Type} [IdGenerator σ] (work : Work) : List TaskPayload → Orchestrator σ → Prop
  | create (config : Config) (ids : σ) : HonestRun work [] (create config ids)
  | submit {handed : List TaskPayload} {o : Orchestrator σ} (given : Option String) (text : String) :
      HonestRun work handed o → HonestRun work handed (o.submit given text).2
  | pull {handed : List TaskPayload} {o : Orchestrator σ} (now : Nat) :
      HonestRun work handed o → HonestRun work (handed ++ (o.pull now).1.payload?.toList) (o.pull now).2
  | report {handed : List TaskPayload} {o : Orchestrator σ} {id : Nat} {value : Binary64} :
      HonestRun work handed o → Honest work handed id value →
      HonestRun work handed (o.report id value).2

variable {σ : Type} [IdGenerator σ] {work : Work} {handed : List TaskPayload} {o : Orchestrator σ} {id : String}
  {summary : ExpressionSummary}

theorem HonestRun.invariant (h : HonestRun work handed o) :
    Coherent o.scheduler ∧ Faithful work handed o.scheduler := by
  induction h with
  | create config ids => exact ⟨.fresh _ _, .fresh work _ _⟩
  | @submit handed o given text _ ih =>
    obtain ⟨hc, hf⟩ := ih
    refine ⟨coherent_submit hc given text, ?_⟩
    rcases o.scheduler_submit given text with he | ⟨id, compiled, hcompile, he⟩
    · rw [he]
      exact hf
    · rw [he]
      exact hf.accept hc id hcompile
  | pull now _ ih => exact ⟨ih.1.pull now, ih.2.pull ih.1 now⟩
  | report _ hv ih => exact ⟨ih.1.report _ _, ih.2.report ih.1 hv⟩

/-- What a summary shows agrees with the value of the formula that it shows. -/
theorem HonestRun.explained (h : HonestRun work handed o) (hs : o.expression id = .ok summary) :
    ∃ compiled stage, Formula.compile summary.expression = .ok compiled ∧
      compiled.Explains work stage ∧ summary.status = stage.status ∧ summary.result = stage.result? ∧
      summary.error = stage.error? ∧
      ∀ reason, stage = .invalid reason → reason = Obstacle.divisionByZero.reason := by
  obtain ⟨hc, hf⟩ := h.invariant
  obtain ⟨record, hfind, rfl⟩ := Scheduler.find?_of_expression hs
  obtain ⟨compiled, hcompile, hexplains⟩ := hf.explained id record hfind
  exact ⟨compiled, record.stage, hcompile, hexplains, rfl, rfl, rfl,
    fun reason => hc.regular.cause id record reason hfind⟩

/-- A finished expression shows the value of its formula, in which nothing is divided by zero; an
invalid one divides by zero somewhere. -/
structure Decides (work : Work) (compiled : Formula.Compiled) (summary : ExpressionSummary) : Prop where
  of_done : summary.status = .done → ∃ value, compiled.value? work = some value ∧
    summary.result = some value ∧
    ∀ graph, compiled = .graph graph → ∀ node ∈ graph.nodes, node.operator = .div →
      ∃ right, graph.value? work node.right = some right ∧ right.isZero = false
  of_invalid : summary.status = .invalid → summary.error = some "division by zero" ∧
    ∃ graph, compiled = .graph graph ∧ graph.DividesByZero work

theorem HonestRun.decides (h : HonestRun work handed o) (hs : o.expression id = .ok summary) :
    ∃ compiled, Formula.compile summary.expression = .ok compiled ∧ Decides work compiled summary := by
  obtain ⟨compiled, stage, hcompile, hexplains, hstatus, hresult, herror, hcause⟩ := h.explained hs
  refine ⟨compiled, hcompile, ?_, ?_⟩
  · intro hdone
    obtain ⟨value, rfl⟩ := Stage.exists_done (hstatus.symm.trans hdone)
    refine ⟨value, hexplains, hresult, ?_⟩
    rintro graph rfl node hm hop
    have htree := Formula.isTree_of_compile hcompile
    obtain ⟨_, right, _, hr, hz⟩ := htree.operands_of_root hexplains hm
    exact ⟨right, hr, Bool.eq_false_iff.mpr fun hzero => hz ⟨hop, hzero⟩⟩
  · intro hinvalid
    obtain ⟨reason, rfl⟩ := Stage.exists_invalid (hstatus.symm.trans hinvalid)
    rw [hcause reason rfl] at herror
    exact ⟨herror, hexplains⟩

/-- Two last stages that agree with the value of one formula are the same. -/
theorem stage_unique {text : String} {compiled : Formula.Compiled} {stage other : Stage}
    (hcompile : Formula.compile text = .ok compiled)
    (hs : compiled.Explains work stage) (ho : compiled.Explains work other)
    (hcs : ∀ reason, stage = .invalid reason → reason = Obstacle.divisionByZero.reason)
    (hco : ∀ reason, other = .invalid reason → reason = Obstacle.divisionByZero.reason)
    (hts : stage.status.isTerminal = true) (hto : other.status.isTerminal = true) : other = stage := by
  have apart : ∀ value, compiled.value? work = some value →
      ¬ ∃ graph, compiled = .graph graph ∧ graph.DividesByZero work := by
    rintro value hv ⟨graph, rfl, hz⟩
    exact (Formula.isTree_of_compile hcompile).not_dividesByZero hv hz
  rcases Stage.terminal_cases hts with ⟨value, rfl⟩ | ⟨reason, rfl⟩ <;>
    rcases Stage.terminal_cases hto with ⟨found, rfl⟩ | ⟨cause, rfl⟩
  · rw [Option.some.inj (hs.symm.trans ho)]
  · exact absurd ho (apart value hs)
  · exact absurd hs (apart found ho)
  · rw [hcs reason rfl, hco cause rfl]

/-- At every point of a run with honest workers, what is shown of a closed expression is decided by its
formula and by what workers compute; so no two runs close one text in two ways. -/
theorem outcome_of_honest_run (h : HonestRun work handed o) (hs : o.expression id = .ok summary) :
    (∃ compiled, Formula.compile summary.expression = .ok compiled ∧ Decides work compiled summary) ∧
    ∀ {τ : Type} [IdGenerator τ] (others : List TaskPayload) (o' : Orchestrator τ) (id' : String)
      (summary' : ExpressionSummary), HonestRun work others o' → o'.expression id' = .ok summary' →
      summary'.expression = summary.expression →
      summary.status.isTerminal = true → summary'.status.isTerminal = true →
      summary'.status = summary.status ∧ summary'.result = summary.result ∧
        summary'.error = summary.error := by
  refine ⟨h.decides hs, ?_⟩
  intro _ _ others o' id' summary' h' hs' hsame hclosed hclosed'
  obtain ⟨compiled, stage, hcompile, hexplains, hstatus, hresult, herror, hcause⟩ := h.explained hs
  obtain ⟨compiled', stage', hcompile', hexplains', hstatus', hresult', herror', hcause'⟩ :=
    h'.explained hs'
  rw [hsame] at hcompile'
  cases hcompile.symm.trans hcompile'
  rw [hstatus] at hclosed
  rw [hstatus'] at hclosed'
  obtain rfl := stage_unique hcompile hexplains hexplains' hcause hcause' hclosed hclosed'
  exact ⟨hstatus'.trans hstatus.symm, hresult'.trans hresult.symm, herror'.trans herror.symm⟩

/-- Workers that answer with the right operand finish `1+2` with 2. -/
theorem outcome_of_right_operands :
    let work : Work := fun _ _ right => right
    let o := ((create {} (⟨"expr", 0⟩ : SequentialIds)).submit (some "a") "1+2").2
    let done := ((o.pull 0).2.report 1 .two).2
    let summary : ExpressionSummary := ⟨"a", "1+2", .done, some .two, none⟩
    done.expression "a" = .ok summary ∧
      ∃ compiled, Formula.compile "1+2" = .ok compiled ∧ Decides work compiled summary := by
  intro work o done summary
  have hp : (o.pull 0).1.payload? = some ⟨1, .one, .two, .add, o.config.durations.addition⟩ := by
    decide +kernel
  have hrun : HonestRun work ([] ++ (o.pull 0).1.payload?.toList) done := by
    refine .report (.pull 0 (.submit (some "a") "1+2" (.create {} (⟨"expr", 0⟩ : SequentialIds)))) fun _ => ?_
    rw [hp]
    exact ⟨_, List.mem_singleton_self _, rfl, rfl⟩
  have hs : done.expression "a" = .ok summary := by decide +kernel
  exact ⟨hs, (outcome_of_honest_run hrun hs).1⟩

end ArithDispatch.Orchestrator
