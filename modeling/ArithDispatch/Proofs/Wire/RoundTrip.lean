import ArithDispatch.Proofs.Json.RoundTrip
import ArithDispatch.Proofs.Time.Timestamp
import ArithDispatch.Wire.Config
import ArithDispatch.Wire.Scheduler

/-! The records that go over the wire read back as they were written. Each field has a form that does, and the
fields of a record have different names. -/
namespace ArithDispatch.Wire
open Json
open Codec (roundTrips_natBelow roundTrips_uint64 roundTrips_binary64 roundTrips_bool roundTrips_text
  roundTrips_oneOf)

theorem roundTrips_operator : operator.RoundTrips (· ∈ Operator.all) := roundTrips_oneOf (by decide)

theorem roundTrips_taskStatus : taskStatus.RoundTrips (· ∈ TaskStatus.all) := roundTrips_oneOf (by decide)

theorem roundTrips_expressionStatus : expressionStatus.RoundTrips (· ∈ ExpressionStatus.all) :=
  roundTrips_oneOf (by decide)

theorem roundTrips_count : count.RoundTrips fun n => n < UInt64.size := roundTrips_natBelow (Nat.le_refl _)

theorem roundTrips_port : port.RoundTrips fun n => n.toNat < UInt16.size :=
  (roundTrips_natBelow (by decide)).map (fun _ hn => UInt16.toNat_ofNat_of_lt' hn) fun _ => UInt16.ofNat_toNat

/-- What is read has less than a billion nanoseconds past its seconds, whatever was written. -/
theorem roundTrips_duration : duration.RoundTrips fun d => d.seconds < UInt64.size := by
  refine ((roundTrips_required (roundTrips_natBelow (Nat.le_refl _)) "secs").both
    (roundTrips_required (roundTrips_natBelow (by decide)) "nanos") (by decide)).codec false |>.refine ?_ ?_
  · rintro ⟨seconds, subsecond⟩ d - hd
    simp only [durationOfParts?, Option.ite_none_right_eq_some, Option.some.injEq] at hd
    obtain ⟨hlt, rfl⟩ := hd
    exact hlt
  · intro d hd
    have hsubsecond : d.subsecond < UInt32.size :=
      Nat.lt_trans (Nat.mod_lt d.nanoseconds (by decide)) (by decide)
    refine ⟨⟨hd, hsubsecond⟩, ?_⟩
    simp only [durationOfParts?, Duration.ofParts_seconds_subsecond, if_pos hd]

theorem roundTrips_timestamp : timestamp.RoundTrips Timestamp.Valid :=
  roundTrips_text.refine (fun _ _ _ h => Timestamp.valid_of_ofText? h)
    fun _ h => ⟨trivial, Timestamp.ofText?_text h⟩

/-- A codec whose values read back, whatever they are. -/
def Stable {α : Type} (codec : Codec α) : Prop := ∃ p, codec.RoundTrips p

theorem stable_taskPayload : Stable taskPayload := by
  have hmembers := (roundTrips_required roundTrips_count "id").both
    ((roundTrips_required roundTrips_binary64 "arg1").both
    ((roundTrips_required roundTrips_binary64 "arg2").both
    ((roundTrips_required roundTrips_operator "operation").both
    (roundTrips_required roundTrips_uint64 "operation_time") (by decide)) (by decide)) (by decide)) (by decide)
  exact ⟨_, (hmembers.codec true).map (fun _ _ => rfl) fun _ => rfl⟩

theorem stable_operationDurations : Stable operationDurations := by
  have hmembers := (roundTrips_required roundTrips_uint64 "addition").both
    ((roundTrips_required roundTrips_uint64 "subtraction").both
    ((roundTrips_required roundTrips_uint64 "multiplication").both
    (roundTrips_required roundTrips_uint64 "division") (by decide)) (by decide)) (by decide)
  exact ⟨_, (hmembers.codec true).map (fun _ _ => rfl) fun _ => rfl⟩

theorem stable_config : Stable config := by
  obtain ⟨p, hdurations⟩ := stable_operationDurations
  have hmembers := (roundTrips_required roundTrips_text "host").both
    ((roundTrips_required roundTrips_port "port").both
    ((roundTrips_required hdurations "durations").both
    ((roundTrips_optional roundTrips_duration nofun "task_lease").both
    (roundTrips_required roundTrips_bool "debug") (by decide)) (by decide)) (by decide)) (by decide)
  exact ⟨_, (hmembers.codec true).map (fun _ _ => rfl) fun _ => rfl⟩

theorem stable_datedSummary : Stable datedSummary := by
  have hmembers := (roundTrips_required roundTrips_text "id").both
    ((roundTrips_required roundTrips_text "expression").both
    ((roundTrips_required roundTrips_expressionStatus "status").both
    ((roundTrips_optional roundTrips_binary64 nofun "result").both
    ((roundTrips_optional roundTrips_text nofun "error").both
    ((roundTrips_required roundTrips_timestamp "created_at").both
    (roundTrips_required roundTrips_timestamp "updated_at") (by decide)) (by decide)) (by decide)) (by decide))
    (by decide)) (by decide)
  exact ⟨_, (hmembers.codec true).map (fun _ _ => rfl) fun _ => rfl⟩

theorem stable_expressionCounts : Stable expressionCounts := by
  have hmembers := (roundTrips_required roundTrips_count "pending").both
    ((roundTrips_required roundTrips_count "calculating").both
    ((roundTrips_required roundTrips_count "done").both
    (roundTrips_required roundTrips_count "invalid") (by decide)) (by decide)) (by decide)
  exact ⟨_, (hmembers.codec true).map (fun _ _ => rfl) fun _ => rfl⟩

theorem stable_metrics : Stable metrics := by
  have hmembers := (roundTrips_required roundTrips_uint64 "expressions_submitted").both
    ((roundTrips_required roundTrips_uint64 "expressions_completed").both
    ((roundTrips_required roundTrips_uint64 "expressions_invalidated").both
    ((roundTrips_required roundTrips_uint64 "tasks_created").both
    ((roundTrips_required roundTrips_uint64 "tasks_dispatched").both
    ((roundTrips_required roundTrips_uint64 "tasks_redispatched").both
    ((roundTrips_required roundTrips_uint64 "tasks_completed").both
    ((roundTrips_required roundTrips_uint64 "tasks_cancelled").both
    ((roundTrips_required roundTrips_uint64 "tasks_freed").both
    (roundTrips_required roundTrips_uint64 "results_rejected") (by decide)) (by decide)) (by decide)) (by decide))
    (by decide)) (by decide)) (by decide)) (by decide)) (by decide)
  exact ⟨_, (hmembers.codec true).map (fun _ _ => rfl) fun _ => rfl⟩

theorem stable_schedulerStats : Stable schedulerStats := by
  obtain ⟨p, hexpressions⟩ := stable_expressionCounts
  obtain ⟨q, hmetrics⟩ := stable_metrics
  have hmembers := (roundTrips_required roundTrips_count "live_tasks").both
    ((roundTrips_required roundTrips_count "in_progress_tasks").both
    ((roundTrips_required roundTrips_count "low_water_mark").both
    ((roundTrips_required roundTrips_count "next_task_id").both
    ((roundTrips_required hexpressions "expressions").both
    (roundTrips_required hmetrics "metrics") (by decide)) (by decide)) (by decide)) (by decide)) (by decide)
  exact ⟨_, (hmembers.codec true).map (fun _ _ => rfl) fun _ => rfl⟩

theorem stable_resultReport : Stable resultReport := by
  have hmembers := (roundTrips_required roundTrips_count "id").both
    (roundTrips_required roundTrips_binary64 "result") (by decide)
  exact ⟨_, (hmembers.codec true).map (fun _ _ => rfl) fun _ => rfl⟩

/-- The forms of the records that are sent and received, and of the named constants in them. -/
inductive Format : {α : Type} → Codec α → Prop
  | operator : Format operator
  | taskStatus : Format taskStatus
  | expressionStatus : Format expressionStatus
  | taskPayload : Format taskPayload
  | operationDurations : Format operationDurations
  | config : Format config
  | summary : Format datedSummary
  | expressionCounts : Format expressionCounts
  | metrics : Format metrics
  | schedulerStats : Format schedulerStats
  | resultReport : Format resultReport

theorem Format.stable {α : Type} {codec : Codec α} (h : Format codec) : Stable codec := by
  cases h with
  | operator => exact ⟨_, roundTrips_operator⟩
  | taskStatus => exact ⟨_, roundTrips_taskStatus⟩
  | expressionStatus => exact ⟨_, roundTrips_expressionStatus⟩
  | taskPayload => exact stable_taskPayload
  | operationDurations => exact stable_operationDurations
  | config => exact stable_config
  | summary => exact stable_datedSummary
  | expressionCounts => exact stable_expressionCounts
  | metrics => exact stable_metrics
  | schedulerStats => exact stable_schedulerStats
  | resultReport => exact stable_resultReport

/-- Whatever was read from a text, in any spelling that is admitted, reads back as it is once it is printed, if
the numbers in it that are binary64s are printed exactly. -/
theorem printed_reads_back {α : Type} {codec : Codec α} (hf : Format codec) {text : String} {value : α}
    (hr : codec.read text = .ok value) {decimal : Binary64 → List Char}
    (hp : PrintsAll decimal (codec.encode value).lexemes) :
    codec.read ((codec.encode value).print decimal) = .ok value := by
  obtain ⟨_, hround⟩ := hf.stable
  exact hround.read_print hr hp

/-- The largest identifier, and the arguments 3 and 0.5. -/
def largestPayload : TaskPayload where
  id := 18446744073709551615
  left := ⟨0x4008000000000000⟩
  right := ⟨0x3FE0000000000000⟩
  operator := .add
  duration := 7

/-- How the arguments of `largestPayload` are printed. -/
def argumentDecimal (x : Binary64) : List Char := if x = largestPayload.left then ['3', '.', '0'] else ['0', '.', '5']

/-- Read from an array, with a whole number for an argument and an object for the operator. -/
theorem largest_payload_reads_back :
    taskPayload.read "[18446744073709551615, 3, 5e-1, \x7b\"+\": null\x7d, 7]" = .ok largestPayload ∧
    taskPayload.read ((taskPayload.encode largestPayload).print argumentDecimal) = .ok largestPayload := by
  have hr : taskPayload.read "[18446744073709551615, 3, 5e-1, \x7b\"+\": null\x7d, 7]" = .ok largestPayload := by
    decide +kernel
  have hlexemes : (taskPayload.encode largestPayload).lexemes =
      [.openObject, .text (some "id"), .colon, .number (some (.natural 18446744073709551615)), .comma,
        .text (some "arg1"), .colon, .number (some (.real largestPayload.left)), .comma,
        .text (some "arg2"), .colon, .number (some (.real largestPayload.right)), .comma,
        .text (some "operation"), .colon, .text (some "+"), .comma,
        .text (some "operation_time"), .colon, .number (some (.natural 7)), .closeObject] := by
    decide +kernel
  refine ⟨hr, printed_reads_back .taskPayload hr ?_⟩
  intro x hx
  rw [hlexemes] at hx
  have hx : x = largestPayload.left ∨ x = largestPayload.right := by simpa using hx
  rcases hx with rfl | rfl
  · exact ⟨⟨false, ['3'], some ['0'], none⟩, by decide +kernel, by decide +kernel⟩
  · exact ⟨⟨false, ['0'], some ['5'], none⟩, by decide +kernel, by decide +kernel⟩

end ArithDispatch.Wire
