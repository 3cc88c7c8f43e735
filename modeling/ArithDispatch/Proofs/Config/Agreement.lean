import ArithDispatch.Proofs.Config.Lookup

/-! A configuration that is read is the one that the builder makes from the same values, and a usable one can be
written to the variables and read back, if its host has no outer white space and its lease is a whole number of
milliseconds. -/
namespace ArithDispatch.Config
open Numeric (Denotes denotes_toString)
open Text (Trimmed)

namespace Variable

def all : List Variable := [host, port, addition, subtraction, multiplication, division, lease, debug]

/-- The setting that gives the variable's part of a configuration. -/
def setting (config : Config) : Variable → Setting
  | host => .host config.host
  | port => .port config.port
  | addition => .duration .add config.durations.addition
  | subtraction => .duration .sub config.durations.subtraction
  | multiplication => .duration .mul config.durations.multiplication
  | division => .duration .div config.durations.division
  | lease => .taskLease config.taskLease
  | debug => .debug config.debug

/-- The text for the variable's part of a configuration. -/
def text? (config : Config) : Variable → Option String
  | host => some config.host
  | port => some (toString config.port.toNat)
  | addition => some (toString config.durations.addition.toNat)
  | subtraction => some (toString config.durations.subtraction.toNat)
  | multiplication => some (toString config.durations.multiplication.toNat)
  | division => some (toString config.durations.division.toNat)
  | lease => config.taskLease.map fun lease => toString (lease.nanoseconds / 1000000)
  | debug => some (if config.debug then "true" else "false")

end Variable

/-- The variables with a configuration written to them. -/
def environment (config : Config) (name : String) : Option String :=
  (Variable.all.find? (·.name = name)).bind (·.text? config)

variable {lookup : String → Option String} {key : Variable} {config : Config}

namespace Variable

theorem setting_set (config base : Config) (key other : Variable) :
    other.setting (base.set (key.setting config)) =
      if other = key then other.setting config else other.setting base := by
  cases key <;> cases other <;> rfl

theorem eq_of_setting {config other : Config} (h : ∀ key : Variable, key.setting config = key.setting other) :
    config = other := by
  obtain ⟨host, port, ⟨addition, subtraction, multiplication, division⟩, lease, debug⟩ := config
  obtain ⟨host', port', ⟨addition', subtraction', multiplication', division'⟩, lease', debug'⟩ := other
  obtain rfl := Setting.host.inj (h .host)
  obtain rfl := Setting.port.inj (h .port)
  obtain rfl := (Setting.duration.inj (h .addition)).2
  obtain rfl := (Setting.duration.inj (h .subtraction)).2
  obtain rfl := (Setting.duration.inj (h .multiplication)).2
  obtain rfl := (Setting.duration.inj (h .division)).2
  obtain rfl := Setting.taskLease.inj (h .lease)
  obtain rfl := Setting.debug.inj (h .debug)
  rfl

end Variable

/-- Settings for some variables, in any order, turn a configuration that agrees on the others into one that
agrees on all. -/
theorem foldl_settings (keys : List Variable) {base : Config}
    (h : ∀ key, key ∉ keys → key.setting base = key.setting config) :
    (keys.map (·.setting config)).foldl set base = config := by
  induction keys generalizing base with
  | nil => exact Variable.eq_of_setting fun key => h key List.not_mem_nil
  | cons first rest ih =>
    apply ih
    intro key hkey
    rw [Variable.setting_set]
    split
    · rfl
    · exact h key (by simp [hkey, ‹¬ key = first›])

/-- What has no value keeps its default. -/
theorem SpelledBy.setting_eq_default (h : SpelledBy lookup config) (hv : valueOf lookup key = none) :
    key.setting config = key.setting {} := by
  have number {absent : Nat} {n : UInt64} (hc : Carries lookup key absent n.toNat) : n = .ofNat absent := by
    rw [Carries, hv] at hc
    rw [← hc, UInt64.ofNat_toNat]
  cases key with
  | host => exact congrArg Setting.host (by rw [h.host, hv]; rfl)
  | port =>
    have hport := h.port
    rw [Carries, hv] at hport
    exact congrArg Setting.port (UInt16.toNat_inj.mp hport)
  | addition => exact congrArg (Setting.duration .add) (number h.addition)
  | subtraction => exact congrArg (Setting.duration .sub) (number h.subtraction)
  | multiplication => exact congrArg (Setting.duration .mul) (number h.multiplication)
  | division => exact congrArg (Setting.duration .div) (number h.division)
  | lease =>
    obtain ⟨n, _, hn, hlease⟩ := h.lease
    rw [Carries, hv] at hn
    exact congrArg Setting.taskLease (by rw [hlease, if_pos hn])
  | debug =>
    have hdebug := h.debug
    rw [DebugIs, hv] at hdebug
    exact congrArg Setting.debug hdebug

/-- The builder makes the same configuration from the values that are there, in whatever order it gets them. -/
theorem SpelledBy.build (h : SpelledBy lookup config) {keys : List Variable}
    (hkeys : ∀ key, key ∈ keys ↔ (valueOf lookup key).isSome = true) :
    Config.build (keys.map (·.setting config)) = .ok config := by
  have hset : (keys.map (·.setting config)).foldl set {} = config := by
    refine foldl_settings keys fun key hkey => ?_
    rw [hkeys, Option.not_isSome_iff_eq_none] at hkey
    exact (h.setting_eq_default hkey).symm
  rw [Config.build, hset]
  exact h.validate

theorem environment_name (config : Config) (key : Variable) :
    environment config key.name = key.text? config := by
  cases key <;> rfl

/-- The text that is written for a variable is its value, if it needs no trimming. -/
theorem valueOf_environment (htrim : ∀ text, key.text? config = some text → text ≠ "" ∧ Trimmed text text) :
    valueOf (environment config) key = key.text? config := by
  ext raw
  rw [valueOf_eq_some_iff, environment_name]
  constructor
  · rintro ⟨_, text, htext, hraw⟩
    rw [htext, (htrim text htext).2.unique hraw]
  · intro hraw
    exact ⟨(htrim raw hraw).1, raw, hraw, (htrim raw hraw).2⟩

theorem trimmed_toString (n : Nat) : toString n ≠ "" ∧ Trimmed (toString n) (toString n) := by
  have hlist : (toString n).toList = Nat.toDigits 10 n := Nat.toList_repr
  constructor
  · intro he
    rw [he] at hlist
    exact Nat.toDigits_ne_nil hlist.symm
  · apply Trimmed.of_no_space
    intro c hc
    rw [hlist] at hc
    exact Text.isWhiteSpace_of_isDigit (Nat.isDigit_of_mem_toDigits (by decide) (by decide) hc)

/-- A host without outer white space, and a lease of whole milliseconds that fit into 64 bits, or none. -/
structure Writable (config : Config) : Prop where
  host : Trimmed config.host config.host
  lease : ∀ lease, config.taskLease = some lease → ∃ n < UInt64.size, lease = .ofMilliseconds n

theorem Writable.trimmed {other : Config} (h : config.Writable) (hv : other.validate = .ok config) {text : String}
    (ht : key.text? config = some text) : text ≠ "" ∧ Trimmed text text := by
  obtain ⟨rfl, _, hblank, _⟩ := validate_eq_ok.mp hv
  cases key with
  | host =>
    obtain rfl := Option.some.inj ht
    refine ⟨?_, h.host⟩
    intro he
    rw [he] at hblank
    exact absurd hblank (by decide)
  | lease =>
    obtain ⟨lease, _, rfl⟩ := Option.map_eq_some_iff.mp ht
    exact trimmed_toString _
  | debug =>
    obtain rfl := Option.some.inj ht
    cases other.debug
    · exact ⟨by decide, Text.trim_eq_iff.mp (by decide +kernel)⟩
    · exact ⟨by decide, Text.trim_eq_iff.mp (by decide +kernel)⟩
  | _ => exact Option.some.inj ht ▸ trimmed_toString _

/-- Variables with the texts for a usable configuration spell it. -/
theorem Writable.spelled {other : Config} (h : config.Writable) (hv : other.validate = .ok config)
    (value : ∀ key, valueOf lookup key = key.text? config) : SpelledBy lookup config := by
  have number (key : Variable) (absent n : Nat) (ht : key.text? config = some (toString n)) :
      Carries lookup key absent n := by
    rw [Carries, value, ht]
    exact denotes_toString n
  obtain ⟨rfl, hport, _, hlease⟩ := validate_eq_ok.mp hv
  constructor
  · rw [value]
    rfl
  · exact number .port _ _ rfl
  · exact hport
  · exact number .addition _ _ rfl
  · exact number .subtraction _ _ rfl
  · exact number .multiplication _ _ rfl
  · exact number .division _ _ rfl
  · cases hl : other.taskLease with
    | none =>
      refine ⟨0, by decide, ?_, rfl⟩
      rw [Carries, value, Variable.text?, hl]
      rfl
    | some lease =>
      obtain ⟨n, hlt, rfl⟩ := h.lease lease hl
      have hne : n ≠ 0 := by
        rintro rfl
        exact hlease hl
      refine ⟨n, hlt, number .lease _ _ ?_, (if_neg hne).symm⟩
      rw [Variable.text?, hl, Option.map_some, Duration.ofMilliseconds, Nat.mul_div_cancel n (by decide)]
  · rw [DebugIs, value, Variable.text?]
    cases other.debug with
    | false => exact (by decide +kernel : Means "false" false)
    | true => exact (by decide +kernel : Means "true" true)

/-- Reading configurations from variables is exact, agrees with the builder and undoes writing them. -/
theorem reading_exact (lookup : String → Option String) :
    (∀ config, ofLookup lookup = .ok config ↔ SpelledBy lookup config) ∧
    ((∃ config, ofLookup lookup = .ok config) ↔
      (∀ key, Sound lookup key) ∧ ∀ raw, valueOf lookup .port = some raw → ¬ Denotes raw 0) ∧
    (∀ config, ofLookup lookup = .ok config → config.validate = .ok config ∧
      ∀ keys : List Variable, (∀ key, key ∈ keys ↔ (valueOf lookup key).isSome = true) →
        build (keys.map (·.setting config)) = .ok config) ∧
    (∀ failure, (ofLookup lookup).mapError Fault.failure = .error failure ↔ Blamed lookup failure) ∧
    ofLookup lookup ≠ .error .blankHost ∧ ofLookup lookup ≠ .error .zeroLease ∧
    ∀ settings config, build settings = .ok config → config.Writable →
      ofLookup (environment config) = .ok config := by
  refine ⟨fun config => ofLookup_eq_ok_iff, readable_iff, ?_, fun failure => ofLookup_fails_iff, ?_, ?_, ?_⟩
  · intro config h
    have hs := ofLookup_eq_ok_iff.mp h
    exact ⟨hs.validate, fun keys hkeys => hs.build hkeys⟩
  · intro h
    exact (ofLookup_fails_iff.mp (congrArg (·.mapError Fault.failure) h)).ne.1 rfl
  · intro h
    exact (ofLookup_fails_iff.mp (congrArg (·.mapError Fault.failure) h)).ne.2 rfl
  · intro settings config hb hw
    exact ofLookup_eq_ok_iff.mpr (hw.spelled hb fun key => valueOf_environment fun text ht => hw.trimmed hb ht)

/-- A lease of a quarter of a second, written to the variables and read back. -/
theorem quarter_second_lease_read_back :
    let config : Config := { host := "::1", port := 1, taskLease := some (.ofMilliseconds 250), debug := true }
    config.Writable ∧ ofLookup (environment config) = .ok config := by
  intro config
  have hb : build [.host "::1", .port 1, .taskLease (some (.ofMilliseconds 250)), .debug true] = .ok config := by
    decide
  have hw : config.Writable := by
    refine ⟨Text.trim_eq_iff.mp (by decide +kernel), ?_⟩
    rintro lease ⟨⟩
    exact ⟨250, by decide, rfl⟩
  obtain ⟨_, _, _, _, _, _, hback⟩ := reading_exact (environment config)
  exact ⟨hw, hback _ config hb hw⟩

end ArithDispatch.Config
