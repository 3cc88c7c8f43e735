import ArithDispatch.Http.Service

/-! What a request means, said without a program: where each resource lies, which methods reach it, what a body
has to be like, and for what a request is turned away. Every request makes one call or is turned away with
one reply, and never both. -/
namespace ArithDispatch.Http
open Json

theorem afterBeginning?_eq_some_iff {beginning path rest : List Char} :
    afterBeginning? beginning path = some rest ↔ path = beginning ++ rest := by
  induction beginning generalizing path with
  | nil => simp [afterBeginning?]
  | cons c beginning ih =>
    cases path with
    | nil => simp [afterBeginning?]
    | cons d path =>
      rw [afterBeginning?, List.cons_append, List.cons.injEq]
      split
      · next he => simp [ih, he]
      · next he => simp [Ne.symm he]

namespace Resource
variable {resource other : Resource} {path : List Char}

/-- Where the resources are. -/
inductive LiesAt : Resource → List Char → Prop
  | calculation : LiesAt .calculation "/api/v1/calculate".toList
  | expressions : LiesAt .expressions "/api/v1/expressions".toList
  | task : LiesAt .task "/internal/task".toList
  | stats : LiesAt .stats "/internal/stats".toList
  | expression {segment : List Char} : segment ≠ [] → '/' ∉ segment →
      LiesAt (.expression segment) ("/api/v1/expressions/".toList ++ segment)

/-- The methods of requests that a resource answers. -/
def methods : Resource → List String
  | calculation => ["POST"]
  | task => ["GET", "HEAD", "POST"]
  | expressions | expression _ | stats => ["GET", "HEAD"]

theorem liesAt_of_ofPath? (h : ofPath? path = some resource) : resource.LiesAt path := by
  unfold ofPath? at h
  split at h
  · next he => cases h; exact he ▸ .calculation
  · split at h
    · next he => cases h; exact he ▸ .expressions
    · split at h
      · next he => cases h; exact he ▸ .task
      · split at h
        · next he => cases h; exact he ▸ .stats
        · split at h
          · next segment hs =>
            obtain rfl := afterBeginning?_eq_some_iff.mp hs
            split at h
            · cases h
            · next hsegment =>
              cases h
              simp only [Bool.or_eq_true, List.isEmpty_iff, List.contains_iff_mem, not_or] at hsegment
              exact .expression hsegment.1 hsegment.2
          · cases h

theorem LiesAt.ofPath? (h : resource.LiesAt path) : ofPath? path = some resource := by
  cases h with
  | calculation => rfl
  | expressions => rfl
  | task => rfl
  | stats => rfl
  | @expression segment hne hslash =>
    have apart : ∀ {fixed : List Char}, ¬ "/api/v1/expressions/".toList <+: fixed →
        "/api/v1/expressions/".toList ++ segment ≠ fixed := fun hn he => hn ⟨segment, he⟩
    have hs := afterBeginning?_eq_some_iff.mpr (rfl : _ = "/api/v1/expressions/".toList ++ segment)
    have hfine : ¬ (segment.isEmpty || segment.contains '/') = true := by simp [hne, hslash]
    rw [Resource.ofPath?, if_neg (apart (by decide)), if_neg (apart (by decide)),
      if_neg (apart (by decide)), if_neg (apart (by decide)), hs]
    exact if_neg hfine

theorem ofPath?_eq_some_iff : ofPath? path = some resource ↔ resource.LiesAt path :=
  ⟨liesAt_of_ofPath?, LiesAt.ofPath?⟩

theorem ofPath?_eq_none_iff : ofPath? path = none ↔ ∀ resource : Resource, ¬ resource.LiesAt path := by
  simp only [Option.eq_none_iff_forall_ne_some, ne_eq, ofPath?_eq_some_iff]

end Resource

section Body
variable {α : Type} {request : Request} {codec : Codec α} {a : α} {response : Response}

/-- The body is JSON by its media type, not too long, and holds the value. -/
structure Carries (request : Request) (codec : Codec α) (a : α) : Prop where
  json : request.contentType.any isJson = true
  fits : request.body.size ≤ bodyLimit
  value : codec.readBytes request.body = .ok a

/-- What is wrong with a body, and the reply to it. What comes first here is looked at first. -/
inductive Spoilt (request : Request) (codec : Codec α) : Response → Prop
  | mediaType : request.contentType.any isJson = false → Spoilt request codec (.note 415)
  | tooLong : request.contentType.any isJson = true → bodyLimit < request.body.size →
      Spoilt request codec (.note 413)
  | malformed : request.contentType.any isJson = true → request.body.size ≤ bodyLimit →
      codec.readBytes request.body = .error .malformed → Spoilt request codec (.note 400)
  | misshapen : request.contentType.any isJson = true → request.body.size ≤ bodyLimit →
      codec.readBytes request.body = .error .misshapen → Spoilt request codec (.note 422)

theorem readBody_eq_ok_iff : readBody request codec = .ok a ↔ Carries request codec a := by
  constructor
  · intro h
    unfold readBody at h
    split at h
    · cases h
    · next hjson =>
      split at h
      · cases h
      · next hfits =>
        split at h <;> cases h
        exact ⟨by simpa using hjson, Nat.le_of_not_lt hfits, ‹_›⟩
  · rintro ⟨hjson, hfits, hvalue⟩
    simp [readBody, hjson, Nat.not_lt.mpr hfits, hvalue]

theorem readBody_eq_error_iff : readBody request codec = .error response ↔ Spoilt request codec response := by
  constructor
  · intro h
    unfold readBody at h
    split at h
    · next hjson =>
      cases h
      exact .mediaType (by simpa using hjson)
    · next hjson =>
      have hjson : request.contentType.any isJson = true := by simpa using hjson
      split at h
      · next hlong =>
        cases h
        exact .tooLong hjson hlong
      · next hfits =>
        have hfits := Nat.le_of_not_lt hfits
        split at h <;> cases h
        · exact .malformed hjson hfits ‹_›
        · exact .misshapen hjson hfits ‹_›
  · rintro (hjson | ⟨hjson, hlong⟩ | ⟨hjson, hfits, hvalue⟩ | ⟨hjson, hfits, hvalue⟩)
    · simp [readBody, hjson]
    · simp [readBody, hjson, hlong]
    · simp [readBody, hjson, Nat.not_lt.mpr hfits, hvalue]
    · simp [readBody, hjson, Nat.not_lt.mpr hfits, hvalue]

theorem carries_or_spoilt (request : Request) (codec : Codec α) :
    (∃ a, Carries request codec a) ∨ ∃ response, Spoilt request codec response := by
  cases h : readBody request codec with
  | ok a => exact .inl ⟨a, readBody_eq_ok_iff.mp h⟩
  | error response => exact .inr ⟨response, readBody_eq_error_iff.mp h⟩

/-- A string that is no UTF-8 is passed over where nothing is read, and not read where a text is. -/
example :
    let damaged (name : String) : ByteArray :=
      s!"\x7b\"{name}\": \"".toUTF8 ++ ⟨#[0xFF]⟩ ++ "\"\x7d".toUTF8
    (Wire.submission.readBytes (damaged "note")).toOption = some ⟨none, ""⟩ ∧
      (Wire.submission.readBytes (damaged "expression")).toOption = none := by
  decide +kernel

end Body

section Request
variable {request : Request} {call other : Call} {response : Response} {resource : Resource}

/-- The request is for this resource, with a method that the resource answers. -/
structure Reaches (request : Request) (resource : Resource) : Prop where
  path : resource.LiesAt (pathOf request.target)
  method : request.method ∈ resource.methods

/-- The one call that a request makes. -/
inductive Asks (request : Request) : Call → Prop
  | submit {submission : Wire.Submission} : Reaches request .calculation →
      Carries request Wire.submission submission → Asks request (.submit submission)
  | list : Reaches request .expressions → Asks request .list
  | get {segment : List Char} {id : String} : Reaches request (.expression segment) →
      decodeSegment? segment = some id → Asks request (.get id)
  | pull : Reaches request .task → request.method ≠ "POST" → Asks request .pull
  | report {report : Wire.ResultReport} : Reaches request .task → request.method = "POST" →
      Carries request Wire.resultReport report → Asks request (.report report)
  | stats : Reaches request .stats → Asks request .stats

/-- Why a request makes no call, and the reply to it. -/
inductive Rejects (request : Request) : Response → Prop
  | unknownPath : (∀ resource : Resource, ¬ resource.LiesAt (pathOf request.target)) →
      Rejects request (.empty 404)
  | wrongMethod {resource : Resource} : resource.LiesAt (pathOf request.target) →
      request.method ∉ resource.methods → Rejects request (.empty 405)
  | undecodable {segment : List Char} : Reaches request (.expression segment) →
      decodeSegment? segment = none → Rejects request (.note 400)
  | submission {response : Response} : Reaches request .calculation →
      Spoilt request Wire.submission response → Rejects request response
  | report {response : Response} : Reaches request .task → request.method = "POST" →
      Spoilt request Wire.resultReport response → Rejects request response

theorem Reaches.ofPath? (h : Reaches request resource) :
    Resource.ofPath? (pathOf request.target) = some resource :=
  Resource.ofPath?_eq_some_iff.mpr h.path

theorem reads_of_mem (h : request.method ∈ ["GET", "HEAD"]) :
    (request.method == "GET" || request.method == "HEAD") = true := by
  simpa using h

theorem Asks.interpret (h : Asks request call) : interpret request = .ok call := by
  unfold Http.interpret
  cases h with
  | submit hr hc =>
    have hpost : request.method = "POST" := by simpa [Resource.methods] using hr.method
    simp [hr.ofPath?, hpost, readBody_eq_ok_iff.mpr hc, Except.map]
  | list hr => simp only [hr.ofPath?, reads_of_mem hr.method, if_true]
  | get hr hid => simp only [hr.ofPath?, reads_of_mem hr.method, if_true, hid]
  | pull hr hpost =>
    have hread : request.method ∈ ["GET", "HEAD"] := by simpa [Resource.methods, hpost] using hr.method
    simp only [hr.ofPath?, reads_of_mem hread, if_true]
  | report hr hpost hc => simp [hr.ofPath?, hpost, readBody_eq_ok_iff.mpr hc, Except.map]
  | stats hr => simp only [hr.ofPath?, reads_of_mem hr.method, if_true]

theorem Rejects.interpret (h : Rejects request response) : interpret request = .error response := by
  unfold Http.interpret
  cases h with
  | unknownPath hnone => rw [Resource.ofPath?_eq_none_iff.mpr hnone]
  | @wrongMethod resource hpath hmethod =>
    rw [hpath.ofPath?]
    cases resource <;> simp_all [Resource.methods]
  | undecodable hr hid => simp only [hr.ofPath?, reads_of_mem hr.method, if_true, hid]
  | submission hr hs =>
    have hpost : request.method = "POST" := by simpa [Resource.methods] using hr.method
    simp [hr.ofPath?, hpost, readBody_eq_error_iff.mpr hs, Except.map]
  | report hr hpost hs => simp [hr.ofPath?, hpost, readBody_eq_error_iff.mpr hs, Except.map]

theorem asks_or_rejects (request : Request) :
    (∃ call, Asks request call) ∨ ∃ response, Rejects request response := by
  by_cases hpath : ∃ resource : Resource, resource.LiesAt (pathOf request.target)
  · obtain ⟨resource, hpath⟩ := hpath
    by_cases hm : request.method ∈ resource.methods
    · have hr : Reaches request resource := ⟨hpath, hm⟩
      cases resource with
      | calculation =>
        rcases carries_or_spoilt request Wire.submission with ⟨_, hc⟩ | ⟨_, hs⟩
        · exact .inl ⟨_, .submit hr hc⟩
        · exact .inr ⟨_, .submission hr hs⟩
      | expressions => exact .inl ⟨_, .list hr⟩
      | expression segment =>
        cases hid : decodeSegment? segment with
        | some id => exact .inl ⟨_, .get hr hid⟩
        | none => exact .inr ⟨_, .undecodable hr hid⟩
      | task =>
        by_cases hpost : request.method = "POST"
        · rcases carries_or_spoilt request Wire.resultReport with ⟨_, hc⟩ | ⟨_, hs⟩
          · exact .inl ⟨_, .report hr hpost hc⟩
          · exact .inr ⟨_, .report hr hpost hs⟩
        · exact .inl ⟨_, .pull hr hpost⟩
      | stats => exact .inl ⟨_, .stats hr⟩
    · exact .inr ⟨_, .wrongMethod hpath hm⟩
  · exact .inr ⟨_, .unknownPath (not_exists.mp hpath)⟩

theorem interpret_eq_ok_iff : interpret request = .ok call ↔ Asks request call := by
  refine ⟨fun h => ?_, Asks.interpret⟩
  rcases asks_or_rejects request with ⟨_, ha⟩ | ⟨_, hr⟩
  · cases ha.interpret.symm.trans h
    exact ha
  · cases hr.interpret.symm.trans h

theorem interpret_eq_error_iff : interpret request = .error response ↔ Rejects request response := by
  refine ⟨fun h => ?_, Rejects.interpret⟩
  rcases asks_or_rejects request with ⟨_, ha⟩ | ⟨_, hr⟩
  · cases ha.interpret.symm.trans h
  · cases hr.interpret.symm.trans h
    exact hr

end Request

end ArithDispatch.Http
