import ArithDispatch.Proofs.Expression.Origin
import ArithDispatch.Proofs.Scheduler.Run

/-! Tasks stand for the nodes that they were made from: as long as workers report what one given
function makes of their operands, every operand that is known and every result is the value of its
place in the graph. -/
namespace ArithDispatch
open Scheduler (Work)

/-- What a task has in one of its slots: the slot as it was written, or its value. -/
def Operand.StandsFor (work : Work) (graph : Formula.Graph) (base : Nat) (slot actual : Operand) : Prop :=
  actual = slot.shift base ∨ ∃ value, actual = .literal value ∧ graph.value? work slot = some value

/-- The task is node `i` of a graph whose first node became task `base`. -/
structure Task.Computes (task : Task) (work : Work) (graph : Formula.Graph) (base i : Nat)
    (node : Formula.Node) : Prop where
  listed : graph.nodes[i]? = some node
  id : task.id = base + i
  operator : task.operator = node.operator
  left : node.left.StandsFor work graph base task.left
  right : node.right.StandsFor work graph base task.right
  result : task.isDone = true → graph.value? work (.reference i) = some task.result

/-- What a worker received is what the task holds. -/
structure TaskPayload.Describes (payload : TaskPayload) (task : Task) : Prop where
  sent : task.status ≠ .pending
  operator : task.operator = payload.operator
  left : task.left = .literal payload.left
  right : task.right = .literal payload.right

namespace Scheduler

/-- A report for a task that was handed out is what `work` makes of a payload of that task. -/
def Honest (work : Work) (handed : List TaskPayload) (id : Nat) (value : Binary64) : Prop :=
  (∃ payload ∈ handed, payload.id = id) →
    ∃ payload ∈ handed, payload.id = id ∧ value = work payload.operator payload.left payload.right

/-- The invariant of a run in which workers report what `work` makes of the payloads that were handed
out. -/
structure Faithful (work : Work) (handed : List TaskPayload) (s : Scheduler) : Prop where
  explained : s.registry.Explained work
  computes : ∀ id task, s.table.get? id = some task →
    ∃ graph base i node, s.registry.Placed task.owner graph base ∧ task.Computes work graph base i node
  sent : ∀ id task, s.table.get? id = some task → task.status ≠ .pending →
    ∃ payload ∈ handed, payload.id = id
  issued : ∀ payload ∈ handed, payload.id < s.table.nextId
  described : ∀ payload ∈ handed, ∀ task, s.table.get? payload.id = some task → payload.Describes task
  divisible : ∀ payload ∈ handed, ¬ (payload.operator = .div ∧ payload.right.isZero = true)

namespace Faithful
variable {work : Work} {handed : List TaskPayload} {s t : Scheduler} {task : Task}
  {graph : Formula.Graph} {base i now : Nat} {node : Formula.Node}

theorem fresh (work : Work) (durations : OperationDurations) (lease : Option Duration) :
    Faithful work [] { durations, lease } where
  explained owner record hf := by cases hf
  computes id task hg := by cases hg
  sent id task hg := by cases hg
  issued payload hm := by cases hm
  described payload hm := by cases hm
  divisible payload hm := by cases hm

/-- Tasks may go, and records may come and move on. -/
theorem mono (h : Faithful work handed s)
    (hg : ∀ id task, t.table.get? id = some task → s.table.get? id = some task)
    (hp : ∀ {owner graph base}, s.registry.Placed owner graph base → t.registry.Placed owner graph base)
    (he : t.registry.Explained work) (hn : t.table.nextId = s.table.nextId) :
    Faithful work handed t where
  explained := he
  computes id task hgt := by
    obtain ⟨graph, base, i, node, hplaced, hcomp⟩ := h.computes id task (hg id task hgt)
    exact ⟨graph, base, i, node, hp hplaced, hcomp⟩
  sent id task hgt := h.sent id task (hg id task hgt)
  issued payload hm := hn ▸ h.issued payload hm
  described payload hm task hgt := h.described payload hm task (hg _ task hgt)
  divisible := h.divisible

/-- One task moves on and others may go, while the payloads that were handed out keep describing it. -/
theorem replace (h : Faithful work handed s) {more : List TaskPayload} (next : Task)
    (hget : ∀ id other, t.table.get? id = some other →
      (id = task.id ∧ other = next) ∨ (id ≠ task.id ∧ s.table.get? id = some other))
    (hnext : ∃ graph base i node, s.registry.Placed next.owner graph base ∧
      next.Computes work graph base i node)
    (hhanded : ∀ payload ∈ handed ++ more, payload.id = task.id → payload.Describes next)
    (hmore : ∀ payload ∈ more, payload.id = task.id ∧
      ¬ (payload.operator = .div ∧ payload.right.isZero = true))
    (hsent : ∃ payload ∈ handed ++ more, payload.id = task.id)
    (hp : ∀ {owner graph base}, s.registry.Placed owner graph base → t.registry.Placed owner graph base)
    (he : t.registry.Explained work) (hlt : task.id < s.table.nextId)
    (hn : t.table.nextId = s.table.nextId) : Faithful work (handed ++ more) t where
  explained := he
  computes id other hgt := by
    rcases hget id other hgt with ⟨rfl, rfl⟩ | ⟨_, hgs⟩
    · obtain ⟨graph, base, i, node, hplaced, hcomp⟩ := hnext
      exact ⟨graph, base, i, node, hp hplaced, hcomp⟩
    · obtain ⟨graph, base, i, node, hplaced, hcomp⟩ := h.computes id other hgs
      exact ⟨graph, base, i, node, hp hplaced, hcomp⟩
  sent id other hgt hs := by
    rcases hget id other hgt with ⟨rfl, rfl⟩ | ⟨_, hgs⟩
    · exact hsent
    · obtain ⟨payload, hm, hid⟩ := h.sent id other hgs hs
      exact ⟨payload, List.mem_append_left _ hm, hid⟩
  issued payload hm := by
    rw [hn]
    rcases List.mem_append.mp hm with hm | hm
    · exact h.issued payload hm
    · rw [(hmore payload hm).1]
      exact hlt
  described payload hm other hgt := by
    rcases hget payload.id other hgt with ⟨hid, rfl⟩ | ⟨hid, hgs⟩
    · exact hhanded payload hm hid
    · rcases List.mem_append.mp hm with hm | hm
      · exact h.described payload hm other hgs
      · exact absurd (hmore payload hm).1 hid
  divisible payload hm := by
    rcases List.mem_append.mp hm with hm | hm
    · exact h.divisible payload hm
    · exact (hmore payload hm).2

/-- What a task reads from a slot that is ready is the value of the slot. -/
theorem value?_of_ready (h : Faithful work handed s) (hc : Coherent s)
    (hg : s.table.get? task.id = some task) (hplaced : s.registry.Placed task.owner graph base)
    {slot actual : Operand} (hm : task.left = actual ∨ task.right = actual)
    (hslot : slot.StandsFor work graph base actual) {value : Binary64}
    (hready : s.table.readiness actual = .ready value) : graph.value? work slot = some value := by
  cases actual with
  | literal known =>
    obtain rfl : known = value := Readiness.ready.inj hready
    rcases hslot with hshift | ⟨other, ho, hv⟩
    · cases slot with
      | literal written => cases hshift; rfl
      | reference j => cases hshift
    · cases ho
      exact hv
  | reference dep =>
    rcases hslot with hshift | ⟨other, ho, _⟩
    · cases slot with
      | literal written => cases hshift
      | reference j =>
        cases hshift
        have hdep : base + j ∈ task.dependencies := Task.mem_dependencies.mpr hm
        obtain ⟨_, below, hbelow, howner⟩ := hc.reads task.id task _ hg hdep
        obtain ⟨found, hfound, hdone, rfl⟩ := TaskTable.readiness_reference_ready hready
        obtain rfl : below = found := Option.some.inj (hbelow.symm.trans hfound)
        obtain ⟨graph', base', k, node, hplaced', hcomp⟩ := h.computes _ below hbelow
        obtain ⟨rfl, rfl⟩ := (howner ▸ hplaced').unique hplaced
        have hid : below.id = base' + j := Arena.id_of_get? hbelow
        obtain rfl : k = j := Nat.add_left_cancel (hcomp.id.symm.trans hid)
        exact hcomp.result hdone
    · cases ho

theorem advance (h : Faithful work handed s) :
    Faithful work handed { s with table := s.table.advance } := by
  refine h.mono ?_ id h.explained s.table.nextId_advance
  intro id task hg
  rwa [TaskTable.get?_advance] at hg

theorem refuse (h : Faithful work handed s) : Faithful work handed s.refuse :=
  h.mono (fun _ _ hg => hg) id h.explained rfl

theorem poison (h : Faithful work handed s) : Faithful work handed s.poison :=
  h.mono (fun _ _ hg => hg) id h.explained rfl

/-- A task that is invalidated for a zero divides by zero in the graph. -/
theorem invalidate (h : Faithful work handed s) (hc : Coherent s)
    (hg : s.table.get? task.id = some task) {left right : Binary64}
    (hl : s.table.readiness task.left = .ready left) (hr : s.table.readiness task.right = .ready right)
    (hop : task.operator = .div) (hz : right.isZero = true) :
    Faithful work handed (s.invalidate task .divisionByZero) := by
  obtain ⟨graph, base, i, node, hplaced, hcomp⟩ := h.computes task.id task hg
  have hzero : graph.DividesByZero work := by
    refine ⟨node, List.mem_of_getElem? hcomp.listed, hcomp.operator ▸ hop, left, right, ?_, ?_, hz⟩
    · exact h.value?_of_ready hc hg hplaced (.inl rfl) hcomp.left hl
    · exact h.value?_of_ready hc hg hplaced (.inr rfl) hcomp.right hr
  apply h.mono
  · intro id other hgt
    rw [get?_invalidate hc hg, Option.filter_eq_some_iff] at hgt
    exact hgt.1
  · intro owner graph base hp
    exact hp.moveTo _ _
  · apply h.explained.moveTo
    intro record compiled hf hcompile
    obtain ⟨found, hfound, hgraph, _⟩ := hplaced
    cases hf.symm.trans hfound
    cases hcompile.symm.trans hgraph
    exact ⟨graph, rfl, hzero⟩
  · simp only [Scheduler.invalidate]
    split <;> rfl

theorem dispatch (h : Faithful work handed s) (hc : Coherent s)
    (hg : s.table.get? task.id = some task) {left right : Binary64}
    (hl : s.table.readiness task.left = .ready left) (hr : s.table.readiness task.right = .ready right)
    (hz : ¬ (task.operator = .div ∧ right.isZero = true)) (now : Nat) (redispatch : Bool) :
    Faithful work (handed ++ [(s.dispatch now task left right redispatch).1])
      (s.dispatch now task left right redispatch).2 := by
  obtain ⟨graph, base, i, node, hplaced, hcomp⟩ := h.computes task.id task hg
  have hvl := h.value?_of_ready hc hg hplaced (.inl rfl) hcomp.left hl
  have hvr := h.value?_of_ready hc hg hplaced (.inr rfl) hcomp.right hr
  apply h.replace (s.handedOut now task left right) ?_ ?_ ?_ ?_ ?_
    (fun hp => hp.markCalculating _) (h.explained.markCalculating _) (hc.bounded _ task hg)
    (nextId_freeAll ..)
  · intro id other hgt
    rw [get?_dispatch hg (fun dep hm => (hc.reads task.id task dep hg hm).1) (hc.leaf_of_ready hl hr)] at hgt
    split at hgt
    · next hid => exact .inl ⟨hid, (Option.some.inj hgt).symm⟩
    · next hid =>
      split at hgt
      · cases hgt
      · exact .inr ⟨hid, hgt⟩
  · refine ⟨graph, base, i, node, hplaced, hcomp.listed, hcomp.id, hcomp.operator, ?_, ?_, ?_⟩
    · exact .inr ⟨left, rfl, hvl⟩
    · exact .inr ⟨right, rfl, hvr⟩
    · intro hd
      cases hd
  · intro payload hm hid
    rcases List.mem_append.mp hm with hm | hm
    · -- an earlier payload of the task came with the same operands
      have hd := h.described payload hm task (hid ▸ hg)
      rw [hd.left] at hl
      rw [hd.right] at hr
      cases hl
      cases hr
      exact ⟨by simp [handedOut], hd.operator, rfl, rfl⟩
    · obtain rfl := List.mem_singleton.mp hm
      exact ⟨by simp [handedOut], rfl, rfl, rfl⟩
  · intro payload hm
    obtain rfl := List.mem_singleton.mp hm
    exact ⟨rfl, hz⟩
  · exact ⟨_, List.mem_append_right _ (List.mem_singleton_self _), rfl⟩

/-- An honest report for a task that is out is the value of its node. -/
theorem value?_of_honest (h : Faithful work handed s) (hc : Coherent s)
    (hg : s.table.get? task.id = some task) (hs : task.status ≠ .pending)
    (hplaced : s.registry.Placed task.owner graph base) (hcomp : task.Computes work graph base i node)
    {value : Binary64} (hv : Honest work handed task.id value) :
    graph.value? work (.reference i) = some value := by
  obtain ⟨payload, hm, hid, rfl⟩ := hv (h.sent task.id task hg hs)
  have hd := h.described payload hm task (hid ▸ hg)
  rw [hplaced.isTree.value?_reference hcomp.listed, Formula.Node.value?_eq_some]
  have hop : node.operator = payload.operator := hcomp.operator.symm.trans hd.operator
  refine ⟨payload.left, payload.right, ?_, ?_, ?_, ?_⟩
  · exact h.value?_of_ready hc hg hplaced (.inl rfl) hcomp.left (by rw [hd.left]; rfl)
  · exact h.value?_of_ready hc hg hplaced (.inr rfl) hcomp.right (by rw [hd.right]; rfl)
  · rw [hop]
    exact h.divisible payload hm
  · rw [hop]

theorem report (h : Faithful work handed s) (hc : Coherent s) {id : Nat} {value : Binary64}
    (hv : Honest work handed id value) : Faithful work handed (s.report id value).2 := by
  rcases hc.report_cases id value with
    ⟨failure, t, hf, he⟩ | ⟨task, rfl, hg, hp, hcases⟩
  · rw [he]
    exact hf.elim h h.refuse
  · have hs : task.status ≠ .pending := by simp [hp]
    obtain ⟨graph, base, i, node, hplaced, hcomp⟩ := h.computes task.id task hg
    have hvalue := h.value?_of_honest hc hg hs hplaced hcomp hv
    rcases hcases with ⟨_, he⟩ | ⟨t, ho, he, hreg, hget, hn, _⟩
    · rw [he, ← List.append_nil handed]
      apply @h.replace _ _ _ (s.record task.id value) task [] (withResult task value)
      · intro id other hgt
        rw [get?_record hg] at hgt
        split at hgt
        · next hid => exact .inl ⟨hid, (Option.some.inj hgt).symm⟩
        · next hid => exact .inr ⟨hid, hgt⟩
      · exact ⟨graph, base, i, node, hplaced, hcomp.listed, hcomp.id, hcomp.operator, hcomp.left,
          hcomp.right, fun _ => hvalue⟩
      · intro payload hm hid
        rw [List.append_nil] at hm
        have hd := h.described payload hm task (hid ▸ hg)
        exact ⟨by simp [withResult], hd.operator, hd.left, hd.right⟩
      · simp
      · rw [List.append_nil]
        exact h.sent task.id task hg hs
      · exact id
      · exact h.explained
      · exact hc.bounded _ task hg
      · rfl
    · rw [he]
      apply h.mono
      · intro id other hgt
        rw [hget, Option.filter_eq_some_iff] at hgt
        exact hgt.1
      · intro owner graph base hp
        rw [hreg]
        exact hp.moveTo task.owner (.done value)
      · rw [hreg]
        apply h.explained.moveTo
        intro record compiled hf hcompile
        obtain ⟨found, hfound, hgraph, hroot⟩ := hplaced
        cases hf.symm.trans hfound
        cases hcompile.symm.trans hgraph
        have htop := Registry.rootTask?_of_openRoot? ho
        rw [Registry.rootTask?, hf, Option.bind_some, hroot] at htop
        obtain rfl : graph.root = i := by
          have := Option.some.inj htop
          have := hcomp.id
          omega
        exact hvalue
      · exact hn

theorem commit (h : Faithful work handed s) (hc : Coherent s) {owner source : String}
    (hcompile : Formula.compile source = .ok (.graph graph)) (hnew : s.registry.find? owner = none)
    (ht : t.table = (s.table.commit graph owner s.durations).2)
    (hf : ∀ other, t.registry.find? other =
      if other = owner then some (.pending source (s.table.nextId + graph.root))
      else s.registry.find? other) : Faithful work handed t where
  explained := h.explained.insert hf hcompile trivial
  computes id task hg := by
    rcases TaskTable.get?_commit_cases hc.bounded (ht ▸ hg) with ⟨_, hgs⟩ | ⟨i, node, rfl, hn, rfl⟩
    · obtain ⟨graph, base, i, node, hplaced, hcomp⟩ := h.computes id task hgs
      exact ⟨graph, base, i, node, hplaced.insert hnew hf, hcomp⟩
    · refine ⟨graph, s.table.nextId, i, node, ⟨_, (hf owner).trans (if_pos rfl), hcompile, rfl⟩, hn, rfl,
        rfl, .inl rfl, .inl rfl, ?_⟩
      intro hd
      cases hd
  sent id task hg hs := by
    rcases TaskTable.get?_commit_cases hc.bounded (ht ▸ hg) with ⟨_, hgs⟩ | ⟨i, node, rfl, hn, rfl⟩
    · exact h.sent id task hgs hs
    · exact absurd rfl hs
  issued payload hm := by
    rw [ht]
    exact Nat.lt_add_right _ (h.issued payload hm)
  described payload hm task hg := by
    have hlt := h.issued payload hm
    rcases TaskTable.get?_commit_cases hc.bounded (ht ▸ hg) with ⟨_, hgs⟩ | ⟨i, node, hid, _⟩
    · exact h.described payload hm task hgs
    · omega
  divisible := h.divisible

theorem accept (h : Faithful work handed s) (hc : Coherent s) (owner : String) {source : String}
    {compiled : Formula.Compiled} (hcompile : Formula.compile source = .ok compiled) :
    Faithful work handed (s.accept owner source compiled).2 := by
  rcases s.accept_cases owner source compiled with
    ⟨failure, he⟩ | ⟨htaken, ⟨value, t, rfl, he, ht, hf⟩ | ⟨graph, t, rfl, he, ht, hf⟩⟩
  · rw [he]
    exact h
  · have hnew := find?_eq_none_of_not_contains htaken
    rw [he]
    refine h.mono (fun id task hg => ht ▸ hg) (fun hp => hp.insert hnew hf) ?_ (by rw [ht])
    exact h.explained.insert hf hcompile rfl
  · rw [he]
    exact h.commit hc hcompile (find?_eq_none_of_not_contains htaken) ht hf

theorem scanning (h : Faithful work handed s) (hc : Coherent s) {cursor : Nat}
    (hs : Scanning now s t cursor) : Faithful work handed t := by
  induction hs with
  | start => exact h.advance
  | sweep hs ha => exact absurd ha (hc.scanning hs).nextAttention_ne_sweep
  | invalidate hs ha ih =>
    have ht := hc.scanning hs
    obtain ⟨hg, _, _, _, hl, hr, ⟨hop, hz, hf⟩ | ⟨_, hf⟩⟩ := ht.nextAttention_cases ha <;> cases hf
    exact ih.invalidate ht hg hl hr hop hz

theorem pull (h : Faithful work handed s) (hc : Coherent s) (now : Nat) :
    Faithful work (handed ++ (s.pull now).1.payload?.toList) (s.pull now).2 := by
  rcases hc.pull_cases now with
    ⟨outcome, t, hf, he⟩ | ⟨t, cursor, task, left, right, hs, hg, _, hl, hr, hz, he⟩
  · rw [he, hf.payload?_eq_none, Option.toList_none, List.append_nil]
    exact hf.elim h (fun hs => h.scanning hc hs) fun h => h.poison
  · rw [he]
    exact (h.scanning hc hs).dispatch (hc.scanning hs) hg hl hr hz now _

end Faithful

end Scheduler

end ArithDispatch
