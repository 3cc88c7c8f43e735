import ArithDispatch.Config.Lookup
import ArithDispatch.Proofs.Numeric.Unsigned
import ArithDispatch.Proofs.Text.Trim

/-! A configuration is read from its variables exactly: which texts are values, which configuration they spell,
and which variable is blamed when one is not a value. -/
namespace ArithDispatch.Config
open Numeric (Denotes readUnsigned readUnsigned_eq_some_iff readUnsigned_eq_none_iff)
open Text (Trimmed trim_eq_iff)

/-- The words for a truth value. -/
def flagWords : Bool → List String
  | true => ["1", "true", "yes", "on"]
  | false => ["0", "false", "no", "off"]

/-- A word for the truth value, in letters of either case. -/
def Means (raw : String) (enabled : Bool) : Prop := raw.map Char.toLower ∈ flagWords enabled

instance (raw : String) (enabled : Bool) : Decidable (Means raw enabled) :=
  inferInstanceAs (Decidable (_ ∈ _))

namespace Variable

/-- The place of a variable in the order in which the values are looked at. -/
def rank : Variable → Nat
  | host => 0
  | port => 1
  | addition => 2
  | subtraction => 3
  | multiplication => 4
  | division => 5
  | lease => 6
  | debug => 7

/-- A value of the variable: any host, an unsigned number of 16 bits or 64 bits, or a word for a truth value. -/
def Accepts (raw : String) : Variable → Prop
  | host => True
  | port => ∃ n < UInt16.size, Denotes raw n
  | addition | subtraction | multiplication | division | lease => ∃ n < UInt64.size, Denotes raw n
  | debug => ∃ enabled, Means raw enabled

/-- What is said about a text that is no value of the variable. -/
def complaint (raw : String) : Variable → String
  | debug => s!"invalid boolean '{raw}'"
  | _ => s!"invalid value '{raw}'"

end Variable

/-- The variable has no value that it does not accept. -/
def Sound (lookup : String → Option String) (key : Variable) : Prop :=
  ∀ raw, valueOf lookup key = some raw → key.Accepts raw

/-- The number that the variable denotes, or `absent` when it has no value. -/
def Carries (lookup : String → Option String) (key : Variable) (absent n : Nat) : Prop :=
  match valueOf lookup key with
  | none => n = absent
  | some raw => Denotes raw n

/-- The truth value that the variable for debugging has a word for, or false when it has no value. -/
def DebugIs (lookup : String → Option String) (enabled : Bool) : Prop :=
  match valueOf lookup .debug with
  | none => enabled = false
  | some raw => Means raw enabled

/-- The variables spell the configuration. -/
structure SpelledBy (lookup : String → Option String) (config : Config) : Prop where
  host : config.host = (valueOf lookup .host).getD "localhost"
  port : Carries lookup .port 8080 config.port.toNat
  usable : config.port ≠ 0
  addition : Carries lookup .addition 1000 config.durations.addition.toNat
  subtraction : Carries lookup .subtraction 1000 config.durations.subtraction.toNat
  multiplication : Carries lookup .multiplication 1000 config.durations.multiplication.toNat
  division : Carries lookup .division 1000 config.durations.division.toNat
  lease : ∃ n < UInt64.size, Carries lookup .lease 0 n ∧
    config.taskLease = if n = 0 then none else some (.ofMilliseconds n)
  debug : DebugIs lookup config.debug

/-- The failure blames the first variable with a text that is no value, or the port when it is only zero. -/
inductive Blamed (lookup : String → Option String) : Failure → Prop
  | text {key : Variable} {raw : String} : (∀ other : Variable, other.rank < key.rank → Sound lookup other) →
      valueOf lookup key = some raw → ¬ key.Accepts raw →
      Blamed lookup (.configuration (key.complaint raw) (some key.name))
  | zeroPort {raw : String} : (∀ key, Sound lookup key) → valueOf lookup .port = some raw → Denotes raw 0 →
      Blamed lookup (.configuration "port must be greater than 0" (some "port"))

variable {lookup : String → Option String} {key : Variable} {raw : String} {config : Config} {fault : Fault}
  {bound absent n : Nat}

theorem not_means_both (ht : Means raw true) : ¬ Means raw false := by
  intro hf
  simp only [Means, flagWords, List.mem_cons, List.not_mem_nil, or_false] at ht hf
  rcases ht with ht | ht | ht | ht <;> rw [ht] at hf <;> revert hf <;> decide

theorem flagOf?_eq_some_iff {enabled : Bool} : flagOf? raw = some enabled ↔ Means raw enabled := by
  have hword : ∀ b, (flagWords b).contains (raw.map Char.toLower) = true ↔ Means raw b :=
    fun b => List.contains_iff_mem
  change (if (flagWords true).contains (raw.map Char.toLower) then some true
    else if (flagWords false).contains (raw.map Char.toLower) then some false else none) = some enabled ↔ _
  by_cases ht : Means raw true
  · have hf := not_means_both ht
    rw [if_pos ((hword true).mpr ht)]
    cases enabled <;> simp [ht, hf]
  · rw [if_neg (mt (hword true).mp ht)]
    by_cases hf : Means raw false
    · rw [if_pos ((hword false).mpr hf)]
      cases enabled <;> simp [ht, hf]
    · rw [if_neg (mt (hword false).mp hf)]
      cases enabled <;> simp [ht, hf]

theorem valueOf_eq_some_iff : valueOf lookup key = some raw ↔
    raw ≠ "" ∧ ∃ text, lookup key.name = some text ∧ Trimmed text raw := by
  simp only [valueOf, Option.filter_eq_some_iff, Option.map_eq_some_iff, Bool.not_eq_true',
    String.isEmpty_eq_false_iff, trim_eq_iff]
  exact And.comm

theorem numberOf_eq_ok (h : absent < bound) :
    numberOf lookup key bound absent = .ok n ↔ n < bound ∧ Carries lookup key absent n := by
  unfold numberOf Carries
  cases hv : valueOf lookup key with
  | none =>
    simp only [Except.ok.injEq]
    exact ⟨fun he => he ▸ ⟨h, rfl⟩, fun he => he.2.symm⟩
  | some raw =>
    simp only [← readUnsigned_eq_some_iff]
    cases readUnsigned bound raw <;> simp

theorem numberOf_eq_error : numberOf lookup key bound absent = .error fault ↔
    ∃ raw, valueOf lookup key = some raw ∧ (¬ ∃ n < bound, Denotes raw n) ∧ fault = .badNumber key.name raw := by
  unfold numberOf
  cases hv : valueOf lookup key with
  | none => simp
  | some raw =>
    simp only [Option.some.injEq, exists_eq_left', ← readUnsigned_eq_none_iff]
    cases readUnsigned bound raw <;> simp [eq_comm]

theorem debugOf_eq_ok {enabled : Bool} : debugOf lookup false = .ok enabled ↔
    DebugIs lookup enabled := by
  unfold debugOf DebugIs
  cases hv : valueOf lookup .debug with
  | none => simp [eq_comm]
  | some raw =>
    simp only [← flagOf?_eq_some_iff]
    cases flagOf? raw <;> simp

theorem debugOf_eq_error {absent : Bool} : debugOf lookup absent = .error fault ↔
    ∃ raw, valueOf lookup .debug = some raw ∧ (¬ ∃ enabled, Means raw enabled) ∧
      fault = .badFlag Variable.debug.name raw := by
  unfold debugOf
  cases hv : valueOf lookup .debug with
  | none => simp
  | some raw =>
    simp only [Option.some.injEq, exists_eq_left', ← flagOf?_eq_some_iff]
    cases flagOf? raw <;> simp [eq_comm]

theorem Variable.eq_of_rank_eq {other : Variable} (h : key.rank = other.rank) : key = other := by
  cases key <;> cases other <;> first | rfl | exact absurd h (by decide)

/-- All variables that are looked at before a place in the order are sound. -/
def SoundBefore (lookup : String → Option String) (place : Nat) : Prop :=
  ∀ key : Variable, key.rank < place → Sound lookup key

theorem soundBefore_one (lookup : String → Option String) : SoundBefore lookup 1 := by
  intro key hr raw _
  cases key with
  | host => trivial
  | _ => exact absurd hr (by decide)

theorem SoundBefore.step (h : SoundBefore lookup key.rank) (hk : Sound lookup key) :
    SoundBefore lookup (key.rank + 1) := by
  intro other hr
  rcases Nat.lt_succ_iff_lt_or_eq.mp hr with hr | hr
  · exact h other hr
  · exact Variable.eq_of_rank_eq hr ▸ hk

/-- The outcome is the configuration that the variables spell, or it blames the right one of them. -/
def Settled (lookup : String → Option String) : Except Fault Config → Prop
  | .ok config => SpelledBy lookup config
  | .error fault => Blamed lookup fault.failure

/-- A number is read and the rest settles the outcome, or its variable is the first one to blame. -/
theorem Settled.number {next : Nat → Except Fault Config} (key : Variable) (hb : SoundBefore lookup key.rank)
    (h : absent < bound) (ha : ∀ raw, key.Accepts raw ↔ ∃ n < bound, Denotes raw n)
    (hc : ∀ raw, key.complaint raw = s!"invalid value '{raw}'")
    (hnext : ∀ n < bound, Carries lookup key absent n → SoundBefore lookup (key.rank + 1) →
      Settled lookup (next n)) : Settled lookup (numberOf lookup key bound absent >>= next) := by
  cases hn : numberOf lookup key bound absent with
  | error fault =>
    obtain ⟨raw, hv, hno, rfl⟩ := numberOf_eq_error.mp hn
    have hblamed := Blamed.text hb hv (mt (ha raw).mp hno)
    rwa [hc] at hblamed
  | ok n =>
    obtain ⟨hlt, hcarries⟩ := (numberOf_eq_ok h).mp hn
    refine hnext n hlt hcarries (hb.step fun raw hv => (ha raw).mpr ⟨n, hlt, ?_⟩)
    rwa [Carries, hv] at hcarries

theorem Settled.flag {next : Bool → Except Fault Config} (hb : SoundBefore lookup Variable.debug.rank)
    (hnext : ∀ enabled, DebugIs lookup enabled → SoundBefore lookup (Variable.debug.rank + 1) →
      Settled lookup (next enabled)) : Settled lookup (debugOf lookup false >>= next) := by
  cases hd : debugOf lookup false with
  | error fault =>
    obtain ⟨raw, hv, hno, rfl⟩ := debugOf_eq_error.mp hd
    exact Blamed.text hb hv hno
  | ok enabled =>
    have hflag := debugOf_eq_ok.mp hd
    refine hnext enabled hflag (hb.step fun raw hv => ⟨enabled, ?_⟩)
    rwa [DebugIs, hv] at hflag

theorem SoundBefore.all (h : SoundBefore lookup 8) (key : Variable) : Sound lookup key :=
  h key (by cases key <;> decide)

theorem isBlank_host (lookup : String → Option String) :
    Text.isBlank ((valueOf lookup .host).getD "localhost") = false := by
  cases hv : valueOf lookup .host with
  | none => decide
  | some raw =>
    obtain ⟨hne, _, _, ht⟩ := valueOf_eq_some_iff.mp hv
    exact ht.isBlank_eq_false hne

theorem leaseOfMilliseconds_ne (n : Nat) : leaseOfMilliseconds n ≠ some ⟨0⟩ := by
  unfold leaseOfMilliseconds
  split
  · simp
  · simp [Duration.ofMilliseconds, ‹¬ n = 0›]

/-- Only the port can make a configuration unusable that has a host and no lease of zero. -/
theorem validate_eq (hhost : Text.isBlank config.host = false) (hlease : config.taskLease ≠ some ⟨0⟩) :
    config.validate = if config.port = 0 then .error .zeroPort else .ok config := by
  rw [validate, hhost, if_neg hlease]
  rfl

/-- Reading settles the outcome, one variable after the other. -/
theorem settled_ofLookup (lookup : String → Option String) : Settled lookup (ofLookup lookup) := by
  unfold ofLookup
  refine .number .port (soundBefore_one lookup) (by decide) (fun _ => .rfl) (fun _ => rfl) fun port hport h₁ hb => ?_
  refine .number .addition hb (by decide) (fun _ => .rfl) (fun _ => rfl) fun addition hadd h₂ hb => ?_
  refine .number .subtraction hb (by decide) (fun _ => .rfl) (fun _ => rfl) fun subtraction hsub h₃ hb => ?_
  refine .number .multiplication hb (by decide) (fun _ => .rfl) (fun _ => rfl) fun multiplication hmul h₄ hb => ?_
  refine .number .division hb (by decide) (fun _ => .rfl) (fun _ => rfl) fun division hdiv h₅ hb => ?_
  refine .number .lease hb (by decide) (fun _ => .rfl) (fun _ => rfl) fun lease hlease h₆ hb => ?_
  refine .flag hb fun debug h₇ hb => ?_
  rw [validate_eq (isBlank_host lookup) (leaseOfMilliseconds_ne lease)]
  have hto : (UInt16.ofNat port).toNat = port := UInt16.toNat_ofNat_of_lt' hport
  split
  · next hzero =>
    obtain rfl : port = 0 := hto.symm.trans (congrArg UInt16.toNat hzero)
    cases hv : valueOf lookup .port with
    | none =>
      rw [Carries, hv] at h₁
      exact absurd h₁ (by decide)
    | some raw =>
      rw [Carries, hv] at h₁
      exact .zeroPort hb.all hv h₁
  · next hport =>
    exact {
      host := rfl
      port := hto.symm ▸ h₁
      usable := hport
      addition := (UInt64.toNat_ofNat_of_lt' hadd).symm ▸ h₂
      subtraction := (UInt64.toNat_ofNat_of_lt' hsub).symm ▸ h₃
      multiplication := (UInt64.toNat_ofNat_of_lt' hmul).symm ▸ h₄
      division := (UInt64.toNat_ofNat_of_lt' hdiv).symm ▸ h₅
      lease := ⟨lease, hlease, h₆, rfl⟩
      debug := h₇ }

theorem Carries.unique {m : Nat} (hm : Carries lookup key absent m) (hn : Carries lookup key absent n) :
    m = n := by
  cases hv : valueOf lookup key <;> simp only [Carries, hv] at hm hn
  · exact hm.trans hn.symm
  · exact hm.unique hn

theorem DebugIs.unique {a b : Bool} (ha : DebugIs lookup a) (hb : DebugIs lookup b) : a = b :=
  Except.ok.inj ((debugOf_eq_ok.mpr ha).symm.trans (debugOf_eq_ok.mpr hb))

theorem SpelledBy.unique {other : Config} (h : SpelledBy lookup config) (ho : SpelledBy lookup other) :
    config = other := by
  obtain ⟨host, port, ⟨addition, subtraction, multiplication, division⟩, lease, debug⟩ := config
  obtain ⟨host', port', ⟨addition', subtraction', multiplication', division'⟩, lease', debug'⟩ := other
  obtain ⟨n, _, hn, rfl⟩ := h.lease
  obtain ⟨m, _, hm, rfl⟩ := ho.lease
  obtain rfl := hn.unique hm
  obtain rfl := h.host.trans ho.host.symm
  obtain rfl := UInt16.toNat_inj.mp (h.port.unique ho.port)
  obtain rfl := UInt64.toNat_inj.mp (h.addition.unique ho.addition)
  obtain rfl := UInt64.toNat_inj.mp (h.subtraction.unique ho.subtraction)
  obtain rfl := UInt64.toNat_inj.mp (h.multiplication.unique ho.multiplication)
  obtain rfl := UInt64.toNat_inj.mp (h.division.unique ho.division)
  obtain rfl := h.debug.unique ho.debug
  rfl

theorem Carries.denotes (h : Carries lookup key absent n) (hv : valueOf lookup key = some raw) :
    Denotes raw n := by
  rwa [Carries, hv] at h

theorem DebugIs.means {enabled : Bool} (h : DebugIs lookup enabled) (hv : valueOf lookup .debug = some raw) :
    Means raw enabled := by
  rwa [DebugIs, hv] at h

theorem SpelledBy.sound (h : SpelledBy lookup config) (key : Variable) : Sound lookup key := by
  intro raw hv
  cases key with
  | host => trivial
  | port => exact ⟨_, config.port.toNat_lt, h.port.denotes hv⟩
  | addition => exact ⟨_, config.durations.addition.toNat_lt, h.addition.denotes hv⟩
  | subtraction => exact ⟨_, config.durations.subtraction.toNat_lt, h.subtraction.denotes hv⟩
  | multiplication => exact ⟨_, config.durations.multiplication.toNat_lt, h.multiplication.denotes hv⟩
  | division => exact ⟨_, config.durations.division.toNat_lt, h.division.denotes hv⟩
  | lease =>
    obtain ⟨n, hlt, hn, _⟩ := h.lease
    exact ⟨n, hlt, hn.denotes hv⟩
  | debug => exact ⟨config.debug, h.debug.means hv⟩

theorem SpelledBy.port_ne_zero (h : SpelledBy lookup config) (hv : valueOf lookup .port = some raw) :
    ¬ Denotes raw 0 := by
  intro hz
  exact h.usable (UInt16.toNat_inj.mp ((h.port.denotes hv).unique hz))

theorem not_blamed {failure : Failure} (hsound : ∀ key, Sound lookup key)
    (hport : ∀ raw, valueOf lookup .port = some raw → ¬ Denotes raw 0) : ¬ Blamed lookup failure := by
  rintro (⟨_, hv, hno⟩ | ⟨_, hv, hz⟩)
  · exact hno (hsound _ _ hv)
  · exact hport _ hv hz

theorem SpelledBy.not_blamed {failure : Failure} (h : SpelledBy lookup config) : ¬ Blamed lookup failure :=
  Config.not_blamed h.sound fun _ hv => h.port_ne_zero hv

theorem Blamed.unique {first second : Failure} (hf : Blamed lookup first) (hs : Blamed lookup second) :
    first = second := by
  rcases hf with ⟨hbefore, hv, hno⟩ | ⟨hsound, _, _⟩ <;> rcases hs with ⟨hbefore', hv', hno'⟩ | ⟨hsound', _, _⟩
  · rename_i key raw key' raw'
    rcases Nat.lt_trichotomy key.rank key'.rank with hr | hr | hr
    · exact absurd (hbefore' key hr raw hv) hno
    · obtain rfl := Variable.eq_of_rank_eq hr
      obtain rfl := Option.some.inj (hv.symm.trans hv')
      rfl
    · exact absurd (hbefore key' hr raw' hv') hno'
  · exact absurd (hsound' _ _ hv) hno
  · exact absurd (hsound _ _ hv') hno'
  · rfl

theorem ofLookup_eq_ok_iff : ofLookup lookup = .ok config ↔ SpelledBy lookup config := by
  have hsettled := settled_ofLookup lookup
  constructor
  · intro h
    rwa [h] at hsettled
  · intro h
    cases he : ofLookup lookup with
    | error fault =>
      rw [he] at hsettled
      exact absurd hsettled h.not_blamed
    | ok other =>
      rw [he] at hsettled
      rw [h.unique hsettled]

theorem ofLookup_fails_iff {failure : Failure} :
    (ofLookup lookup).mapError Fault.failure = .error failure ↔ Blamed lookup failure := by
  have hsettled := settled_ofLookup lookup
  cases he : ofLookup lookup with
  | error fault =>
    rw [he] at hsettled
    simp only [Except.mapError, Except.error.injEq]
    exact ⟨fun h => h ▸ hsettled, fun h => hsettled.unique h⟩
  | ok config =>
    rw [he] at hsettled
    simp [Except.mapError, hsettled.not_blamed]

/-- The variables can be read exactly when every value is accepted and the port is not zero. -/
theorem readable_iff : (∃ config, ofLookup lookup = .ok config) ↔
    (∀ key, Sound lookup key) ∧ ∀ raw, valueOf lookup .port = some raw → ¬ Denotes raw 0 := by
  constructor
  · rintro ⟨config, h⟩
    have hs := ofLookup_eq_ok_iff.mp h
    exact ⟨hs.sound, fun raw hv => hs.port_ne_zero hv⟩
  · rintro ⟨hsound, hport⟩
    have hsettled := settled_ofLookup lookup
    cases he : ofLookup lookup with
    | ok config => exact ⟨config, rfl⟩
    | error fault =>
      rw [he] at hsettled
      exact absurd hsettled (not_blamed hsound hport)

/-- A blank host and a lease of zero are never blamed. -/
theorem Blamed.ne {failure : Failure} (h : Blamed lookup failure) :
    failure ≠ Fault.blankHost.failure ∧ failure ≠ Fault.zeroLease.failure := by
  obtain ⟨_, _, _⟩ | ⟨_, _, _⟩ := h
  · rename_i key raw _ _ _
    simp only [Fault.failure, ne_eq, Failure.configuration.injEq, Option.some.injEq, not_and]
    exact ⟨fun _ => by cases key <;> decide, fun _ => by cases key <;> decide⟩
  · exact ⟨by decide, by decide⟩

theorem validate_eq_ok {other : Config} : config.validate = .ok other ↔
    config = other ∧ config.port ≠ 0 ∧ Text.isBlank config.host = false ∧ config.taskLease ≠ some ⟨0⟩ := by
  unfold validate
  split
  · simp [*]
  split
  · simp [*]
  split
  · simp [*]
  · simp [*]

theorem SpelledBy.validate (h : SpelledBy lookup config) : config.validate = .ok config := by
  refine validate_eq_ok.mpr ⟨rfl, h.usable, h.host ▸ isBlank_host lookup, ?_⟩
  obtain ⟨n, _, _, hlease⟩ := h.lease
  rw [hlease]
  exact leaseOfMilliseconds_ne n

end ArithDispatch.Config
