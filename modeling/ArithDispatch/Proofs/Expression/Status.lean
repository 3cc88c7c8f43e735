import ArithDispatch.Proofs.Expression.Registry

/-! The status of one expression while others move: a move shows on its own expression only, and an
invalid expression stays invalid. -/
namespace ArithDispatch.Registry
variable {registry after : Registry} {id other reason : String} {stage : Stage} {root : Nat}
  {record : ExpressionRecord}

theorem find?_moveTo_of_ne (registry : Registry) (h : other ≠ id) (stage : Stage) :
    (registry.moveTo id stage).2.find? other = registry.find? other := by
  rw [find?_moveTo, if_neg fun hm => h hm.2]

theorem find?_moveTo_self (registry : Registry) (id : String) (stage : Stage) :
    (registry.moveTo id stage).2.find? id = (registry.find? id).map fun record =>
      if record.stage.status.canBecome stage.status then { record with stage } else record := by
  rw [find?_moveTo]
  unfold moveTo
  cases registry.find? id with
  | none => rfl
  | some record => by_cases hc : record.stage.status.canBecome stage.status = true <;> simp [hc]

theorem find?_eq_none_of_moveTo (h : (registry.moveTo id stage).2.find? other = none) :
    registry.find? other = none := by
  rw [find?_moveTo] at h
  split at h
  · exact Option.map_eq_none_iff.mp h
  · exact h

theorem modify_comm (h : id ≠ other) (registry : Registry) (f g : ExpressionRecord → ExpressionRecord) :
    (registry.modify id f).modify other g = (registry.modify other g).modify id f := by
  simp only [modify, mk.injEq, List.map_map]
  refine List.map_congr_left fun entry _ => ?_
  simp only [Function.comp_apply]
  by_cases he : entry.1 = id
  · simp [he, h]
  · by_cases ho : entry.1 = other
    · simp [ho, h.symm]
    · simp [he, ho]

theorem moveTo_eq_modify (registry : Registry) (id : String) (stage : Stage) :
    (registry.moveTo id stage).2 =
      if (registry.find? id).any (·.stage.status.canBecome stage.status) then
        registry.modify id ({ · with stage })
      else registry := by
  unfold moveTo
  cases registry.find? id with
  | none => rfl
  | some record => by_cases hc : record.stage.status.canBecome stage.status = true <;> simp [hc]

/-- Moves of two expressions may be made in either order. -/
theorem moveTo_comm (h : id ≠ other) (registry : Registry) (stage next : Stage) :
    ((registry.moveTo id stage).2.moveTo other next).2 =
      ((registry.moveTo other next).2.moveTo id stage).2 := by
  rw [moveTo_eq_modify (registry.moveTo id stage).2, moveTo_eq_modify (registry.moveTo other next).2,
    find?_moveTo_of_ne _ h.symm, find?_moveTo_of_ne _ h, moveTo_eq_modify, moveTo_eq_modify]
  split
  · split
    · exact modify_comm h registry _ _
    · rfl
  · rfl

/-- That work has begun is recorded by a move, which has no effect when it is recorded already. -/
theorem markCalculating_eq_moveTo (registry : Registry) (id : String) :
    (registry.markCalculating id).2 = (registry.moveTo id .calculating).2 := by
  unfold markCalculating
  split
  · next hs =>
    obtain ⟨record, hf, hs⟩ := Option.map_eq_some_iff.mp hs
    unfold moveTo
    simp only [hf, hs]
    rfl
  · rfl

theorem status?_moveTo (registry : Registry) (id other : String) (stage : Stage) :
    (registry.moveTo id stage).2.status? other =
      if (registry.moveTo id stage).1 = true ∧ other = id then some stage.status
      else registry.status? other := by
  rw [status?, find?_moveTo]
  split
  · next hm =>
    obtain ⟨hm, rfl⟩ := hm
    obtain ⟨record, hf, _⟩ := moveTo_eq_true hm
    rw [hf]
    rfl
  · rfl

theorem status?_invalidate (h : registry.openRoot? id = some root) (reason : String) :
    (registry.invalidate id reason).2.status? id = some .invalid := by
  rw [invalidate, status?_moveTo, if_pos ⟨moveTo_of_open h rfl, rfl⟩]
  rfl

theorem status?_of_open (h : registry.openRoot? id = some root) :
    registry.status? id = some .pending ∨ registry.status? id = some .calculating :=
  isOpen_of_openRoot? h

theorem status?_ne_of_open (h : registry.openRoot? id = some root) {status : ExpressionStatus}
    (hs : status.isTerminal = true) : registry.status? id ≠ some status := by
  intro he
  rcases status?_of_open h with hopen | hopen <;> cases he.symm.trans hopen <;> cases hs

/-- No move leads away from a last stage. -/
theorem moveTo_of_invalid (h : registry.status? id = some .invalid) :
    (registry.moveTo id stage).1 = false := by
  apply Bool.eq_false_iff.mpr
  intro hm
  obtain ⟨record, hf, hc⟩ := moveTo_eq_true hm
  simp only [status?, hf, Option.map_some, Option.some.injEq] at h
  rw [h] at hc
  cases hs : stage.status <;> rw [hs] at hc <;> cases hc

theorem status?_moveTo_of_invalid (h : registry.status? other = some .invalid) :
    (registry.moveTo id stage).2.status? other = some .invalid := by
  rw [status?_moveTo, if_neg, h]
  rintro ⟨hm, rfl⟩
  rw [moveTo_of_invalid h] at hm
  cases hm

theorem status?_markCalculating_of_invalid (h : registry.status? other = some .invalid) :
    (registry.markCalculating id).2.status? other = some .invalid := by
  unfold markCalculating
  split
  · exact h
  · exact status?_moveTo_of_invalid h

theorem status?_ne_invalid_of_moveTo (h : (registry.moveTo id stage).2.status? other ≠ some .invalid) :
    registry.status? other ≠ some .invalid :=
  fun hs => h (status?_moveTo_of_invalid hs)

/-- An expression becomes invalid by no other move. -/
theorem status?_moveTo_ne_invalid (h : registry.status? other ≠ some .invalid)
    (hs : stage.status ≠ .invalid) : (registry.moveTo id stage).2.status? other ≠ some .invalid := by
  rw [status?_moveTo]
  split
  · simpa using hs
  · exact h

theorem status?_moveTo_eq_invalid (hs : stage.status ≠ .invalid) :
    (registry.moveTo id stage).2.status? other = some .invalid ↔ registry.status? other = some .invalid :=
  ⟨fun h => Decidable.byContradiction fun hn => status?_moveTo_ne_invalid hn hs h, status?_moveTo_of_invalid⟩

theorem status?_markCalculating_of_calculating (h : registry.status? other = some .calculating) :
    (registry.markCalculating id).2.status? other = some .calculating := by
  unfold markCalculating
  split
  · exact h
  · rw [status?_moveTo]
    split
    · rfl
    · exact h

theorem status?_markCalculating_of_open (h : registry.openRoot? id = some root) :
    (registry.markCalculating id).2.status? id = some .calculating := by
  unfold markCalculating
  split
  · assumption
  · next hc =>
    obtain ⟨record, hf, hs⟩ := Option.map_eq_some_iff.mp ((status?_of_open h).resolve_right hc)
    have hm : (registry.moveTo id .calculating).1 = true := by
      unfold moveTo
      simp only [hf, hs]
      rfl
    rw [status?_moveTo, if_pos ⟨hm, rfl⟩]
    rfl

/-- An open expression is being computed once work on it has begun, be it now or before. -/
theorem find?_markCalculating_of_open (hf : registry.find? id = some record)
    (ho : record.stage.status.isTerminal = false) :
    (registry.markCalculating id).2.find? id = some { record with stage := .calculating } := by
  rw [markCalculating_eq_moveTo, find?_moveTo_self, hf, Option.map_some]
  obtain ⟨source, root, stage⟩ := record
  cases stage with
  | pending => rfl
  | calculating => rfl
  | done value => cases ho
  | invalid reason => cases ho

theorem status?_insert
    (hf : ∀ other, after.find? other = if other = id then some record else registry.find? other)
    (hne : other ≠ id) : after.status? other = registry.status? other := by
  rw [status?, hf, if_neg hne, status?]

theorem status?_ne_invalid_of_insert (hnew : registry.find? id = none)
    (hf : ∀ other, after.find? other = if other = id then some record else registry.find? other)
    (hs : after.status? other ≠ some .invalid) : registry.status? other ≠ some .invalid := by
  by_cases he : other = id
  · rw [status?, he, hnew]
    simp
  · rwa [status?_insert hf he] at hs

end ArithDispatch.Registry
