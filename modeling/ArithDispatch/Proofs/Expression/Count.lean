import ArithDispatch.Proofs.Expression.Status

/-! How many expressions have a status. A move takes one expression from one status to another. -/
namespace ArithDispatch.Registry
variable {registry : Registry} {id : String} {record : ExpressionRecord} {stage : Stage}
  {status : ExpressionStatus}

/-- Every expression has exactly one of the statuses. -/
theorem total_counts (registry : Registry) : registry.counts.total = registry.size := by
  simp only [counts, ExpressionCounts.total, countOf, size]
  induction registry.entries with
  | nil => rfl
  | cons entry rest ih =>
    simp only [List.countP_cons, List.length_cons]
    cases entry.2.stage.status <;> simp <;> omega

theorem countOf_append {after : Registry}
    (h : after.entries = registry.entries ++ [(id, record)]) (status : ExpressionStatus) :
    after.countOf status = registry.countOf status + if record.stage.status = status then 1 else 0 := by
  rw [countOf, h, List.countP_append, List.countP_singleton, countOf]
  simp

theorem size_append {after : Registry} (h : after.entries = registry.entries ++ [(id, record)]) :
    after.size = registry.size + 1 := by
  rw [size, h, List.length_append, List.length_singleton, size]

@[simp] theorem size_moveTo (registry : Registry) (id : String) (stage : Stage) :
    (registry.moveTo id stage).2.size = registry.size := by
  unfold moveTo
  split
  · rfl
  · split
    · exact List.length_map ..
    · rfl

private theorem countP_change {entries : List (String × ExpressionRecord)}
    (hnodup : (entries.map Prod.fst).Nodup) (hf : entries.lookup id = some record)
    (change : ExpressionRecord → ExpressionRecord) (p : ExpressionRecord → Bool) :
    (entries.map fun entry => if entry.1 = id then (entry.1, change entry.2) else entry).countP (p ·.2) +
        (if p record then 1 else 0) =
      entries.countP (p ·.2) + if p (change record) then 1 else 0 := by
  induction entries with
  | nil => cases hf
  | cons entry rest ih =>
    obtain ⟨key, first⟩ := entry
    obtain ⟨hkey, hrest⟩ := List.nodup_cons.mp hnodup
    rw [List.map_cons, List.countP_cons, List.countP_cons]
    by_cases he : key = id
    · subst he
      obtain rfl : first = record := by simpa using hf
      have hsame : (rest.map fun entry => if entry.1 = key then (entry.1, change entry.2) else entry) =
          rest := by
        refine (List.map_congr_left fun entry hm => ?_).trans rest.map_id
        exact if_neg fun hk : entry.1 = key => hkey (List.mem_map.mpr ⟨entry, hm, hk⟩)
      rw [hsame]
      simp only [if_true]
      omega
    · have hapart : (id == key) = false := beq_eq_false_iff_ne.mpr (Ne.symm he)
      rw [List.lookup_cons, hapart] at hf
      have := ih hrest hf
      simp only [he, if_false]
      omega

/-- A move that takes place brings one more expression to the new status. It comes from no last one. -/
theorem countOf_moveTo (hf : registry.find? id = some record)
    (hc : record.stage.status.canBecome stage.status = true) (ht : status.isTerminal = true) :
    (registry.moveTo id stage).2.countOf status =
      registry.countOf status + if stage.status = status then 1 else 0 := by
  have hne : record.stage.status ≠ status := by
    rintro rfl
    rw [ExpressionStatus.isTerminal_eq_false_of_canBecome hc] at ht
    cases ht
  have hchange := countP_change registry.distinct hf ({ · with stage }) (·.stage.status == status)
  have hmove : (registry.moveTo id stage).2 = registry.modify id ({ · with stage }) := by
    simp only [moveTo, hf, if_pos hc]
  rw [hmove, countOf, modify, countOf]
  simpa [hne] using hchange

theorem countOf_markCalculating (registry : Registry) (id : String) (ht : status.isTerminal = true) :
    (registry.markCalculating id).2.countOf status = registry.countOf status := by
  have hne : Stage.calculating.status ≠ status := by
    rintro rfl
    cases ht
  rw [markCalculating_eq_moveTo]
  cases hf : registry.find? id with
  | none => simp only [moveTo, hf]
  | some record =>
    by_cases hc : record.stage.status.canBecome Stage.calculating.status = true
    · rw [countOf_moveTo hf hc ht, if_neg hne, Nat.add_zero]
    · simp only [moveTo, hf, if_neg hc]

theorem size_markCalculating (registry : Registry) (id : String) :
    (registry.markCalculating id).2.size = registry.size := by
  rw [markCalculating_eq_moveTo, size_moveTo]

end ArithDispatch.Registry
