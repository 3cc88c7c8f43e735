import ArithDispatch.Proofs.Json.Codec
import ArithDispatch.Proofs.Json.Printer

/-! Codecs whose values read back as they were written. A record does so when its fields do and their names are
different: then each member is taken by its own field, and by no other. -/
namespace ArithDispatch.Json
variable {α β : Type} {p : α → Prop} {q : β → Prop}

/-- Every value that is read has the property, and every value with the property reads back once it is written. -/
structure Codec.RoundTrips (codec : Codec α) (p : α → Prop) : Prop where
  ensures : codec.Ensures p
  reads : ∀ a, p a → codec.decode (codec.encode a).seen = .ok a

/-- What is written of a value that was read, and printed, reads back as the value. -/
theorem Codec.RoundTrips.read_print {codec : Codec α} {decimal : Binary64 → List Char} {text : String} {a : α}
    (h : codec.RoundTrips p) (hr : codec.read text = .ok a) (hp : PrintsAll decimal (codec.encode a).lexemes) :
    codec.read ((codec.encode a).print decimal) = .ok a := by
  have hreads := h.reads a (h.ensures.readScan hr)
  simp only [Codec.read, Codec.readScan, Scan.ofText_print hp, hreads]
  rfl

namespace Codec

theorem roundTrips_bool : bool.RoundTrips fun _ => True where
  ensures := ensures_true _
  reads _ _ := rfl

theorem roundTrips_text : text.RoundTrips fun _ => True where
  ensures := ensures_true _
  reads _ _ := rfl

theorem roundTrips_natBelow {bound : Nat} (hb : bound ≤ UInt64.size) :
    (natBelow bound).RoundTrips fun n => n < bound where
  ensures := by
    intro scan n hd
    simp only [natBelow] at hd
    split at hd
    · split at hd <;> cases hd
      assumption
    · cases hd
  reads n hn := by
    have hto : (UInt64.ofNat n).toNat = n := UInt64.toNat_ofNat_of_lt' (Nat.lt_of_lt_of_le hn hb)
    simp only [Value.ofNat, Value.seen, natBelow, hto, if_pos hn]

theorem roundTrips_binary64 : binary64.RoundTrips fun x => x.isFinite = true where
  ensures := binary64_ensures_isFinite
  reads x hx := by
    simp only [binary64, Value.ofBinary64, if_pos hx, Value.seen, Number.toBinary64?]

/-- A value is read from null only by way of the option. -/
theorem RoundTrips.option {codec : Codec α} (h : codec.RoundTrips p)
    (hnull : ∀ a, codec.decode .null ≠ .ok a) :
    codec.option.RoundTrips fun a => ∀ b, a = some b → p b where
  ensures := by
    intro scan a hd b hb
    simp only [Codec.option] at hd
    split at hd
    · cases hd
      cases hb
    · obtain ⟨c, hc, rfl⟩ := map_eq_ok.mp hd
      exact Option.some.inj hb ▸ h.ensures scan c hc
  reads a ha := by
    cases a with
    | none => rfl
    | some b =>
      have hb := h.reads b (ha b rfl)
      simp only [Codec.option, Value.ofOption]
      split
      · next hs =>
        rw [hs] at hb
        exact absurd hb (hnull b)
      · rw [hb]
        rfl

theorem RoundTrips.refine {codec : Codec α} (h : codec.RoundTrips p) {forth : α → Option β} {back : β → α}
    (hforth : ∀ a b, p a → forth a = some b → q b) (hback : ∀ b, q b → p (back b) ∧ forth (back b) = some b) :
    (codec.refine forth back).RoundTrips q where
  ensures := h.ensures.refine hforth back
  reads b hb := by
    obtain ⟨hp, hf⟩ := hback b hb
    simp only [Codec.refine, h.reads _ hp, hf]

/-- The same values in another shape. -/
theorem RoundTrips.map {codec : Codec α} (h : codec.RoundTrips p) {forth : α → β} {back : β → α}
    (hforth : ∀ a, p a → back (forth a) = a) (hback : ∀ b, forth (back b) = b) :
    (codec.map forth back).RoundTrips fun b => p (back b) := by
  refine h.refine ?_ fun b hb => ⟨hb, congrArg some (hback b)⟩
  rintro a b ha hf
  obtain rfl := Option.some.inj hf
  rwa [hforth a ha]

theorem roundTrips_uint64 : uint64.RoundTrips fun n => n.toNat < UInt64.size :=
  (roundTrips_natBelow (Nat.le_refl _)).map (fun _ hn => UInt64.toNat_ofNat_of_lt' hn) fun _ => UInt64.ofNat_toNat

/-- Different constants have different names. -/
theorem roundTrips_oneOf {all : List α} {name : α → String}
    (hname : ∀ a ∈ all, ∀ b ∈ all, name a = name b → a = b) : (oneOf all name).RoundTrips (· ∈ all) where
  ensures := by
    intro scan a hd
    simp only [oneOf] at hd
    split at hd
    · split at hd <;> cases hd
      exact List.mem_of_find?_eq_some ‹_›
    · split at hd
      · cases hd
      · split at hd <;> cases hd
        exact List.mem_of_find?_eq_some ‹_›
      · cases hd
    · cases hd
  reads a ha := by
    have hfind : all.find? (name · == name a) = some a := by
      cases hf : all.find? (name · == name a) with
      | none => exact absurd (List.find?_eq_none.mp hf a ha) (by simp)
      | some b =>
        have hsame : name b = name a := by simpa using List.find?_some hf
        rw [hname b (List.mem_of_find?_eq_some hf) a ha hsame]
    simp only [oneOf, Value.seen, hfind]

end Codec

namespace Members

/-- The members are taken one after the other by fields of the record. -/
inductive Takes (members : Members α) : members.State → List (String × Value) → members.State → Prop
  | nil {state : members.State} : Takes members state [] state
  | cons {state next final : members.State} {key : String} {value : Value} {rest : List (String × Value)}
      {read : Scan → Except Problem members.State} : members.take key state = some read →
      read value.seen = .ok next → Takes members next rest final → Takes members state ((key, value) :: rest) final

theorem Takes.append {members : Members α} {state next final : members.State}
    {first second : List (String × Value)} (hf : members.Takes state first next)
    (hs : members.Takes next second final) : members.Takes state (first ++ second) final := by
  induction hf with
  | nil => exact hs
  | cons ht hr _ ih => exact .cons ht hr (ih hs)

/-- The fields have these names, and what is written of a value of the record reads back. -/
structure RoundTrips (members : Members α) (names : List String) (p : α → Prop) : Prop where
  ensures : members.Ensures p
  foreign : ∀ key state, key ∉ names → members.take key state = none
  keys : ∀ a entry, entry ∈ members.encode a → entry.1 ∈ names
  reads : ∀ a, p a → ∃ state, members.Takes members.start (members.encode a) state ∧
    members.finish state = .ok a

theorem roundTrips_one {field : Field α} (h : field.codec.RoundTrips p)
    (hm : ∀ a, field.ifMissing = some a → p a) (hs : ∀ a, field.ifShort = some a → p a) :
    (one field).RoundTrips [field.name] p where
  ensures := one_ensures h.ensures hm hs
  foreign key state hk := by
    simp only [one, if_neg (by simpa using hk : ¬ key = field.name)]
  keys a entry he := by
    obtain rfl := List.mem_singleton.mp he
    exact List.mem_singleton_self _
  reads a ha := by
    refine ⟨some a, .cons (if_pos rfl) ?_ .nil, rfl⟩
    rw [h.reads a ha]
    rfl

/-- The members of the first record leave the second one as it is. -/
theorem Takes.left {first : Members α} {second : Members β} {state final : first.State}
    {entries : List (String × Value)} (h : first.Takes state entries final) (other : second.State) :
    (first.both second).Takes (state, other) entries (final, other) := by
  induction h with
  | nil => exact .nil
  | @cons state next final key value rest read ht hr _ ih =>
    have hboth : (first.both second).take key (state, other) =
        some fun scan => (read scan).map (·, other) := by simp only [both, ht]
    exact .cons hboth (map_eq_ok.mpr ⟨next, hr, rfl⟩) ih

/-- The members of the second record are foreign to the first one. -/
theorem Takes.right {first : Members α} {second : Members β} {state final : second.State}
    {entries : List (String × Value)} (h : second.Takes state entries final) (other : first.State)
    (hforeign : ∀ entry ∈ entries, first.take entry.1 other = none) :
    (first.both second).Takes (other, state) entries (other, final) := by
  induction h with
  | nil => exact .nil
  | @cons state next final key value rest read ht hr _ ih =>
    have hboth : (first.both second).take key (other, state) =
        some fun scan => (read scan).map (other, ·) := by
      have hkey := hforeign (key, value) List.mem_cons_self
      simp only at hkey
      simp only [both, hkey, ht, Option.map_some]
    exact .cons hboth (map_eq_ok.mpr ⟨next, hr, rfl⟩)
      (ih fun entry he => hforeign entry (List.mem_cons_of_mem _ he))

theorem RoundTrips.both {first : Members α} {second : Members β} {names others : List String}
    (hf : first.RoundTrips names p) (hs : second.RoundTrips others q) (hd : ∀ name ∈ names, name ∉ others) :
    (first.both second).RoundTrips (names ++ others) fun ab => p ab.1 ∧ q ab.2 where
  ensures := hf.ensures.both hs.ensures
  foreign key state hk := by
    rw [List.mem_append, not_or] at hk
    simp only [Members.both, hf.foreign key state.1 hk.1, hs.foreign key state.2 hk.2, Option.map_none]
  keys ab entry he := by
    rcases List.mem_append.mp he with he | he
    · exact List.mem_append_left _ (hf.keys ab.1 entry he)
    · exact List.mem_append_right _ (hs.keys ab.2 entry he)
  reads := by
    rintro ⟨a, b⟩ ⟨ha, hb⟩
    obtain ⟨left, hleft, hfinish⟩ := hf.reads a ha
    obtain ⟨right, hright, hfinish'⟩ := hs.reads b hb
    refine ⟨(left, right), (hleft.left _).append (hright.right left ?_), ?_⟩
    · intro entry he
      exact hf.foreign _ _ fun hm => hd _ hm (hs.keys b entry he)
    · exact bind_eq_ok.mpr ⟨a, hfinish, bind_eq_ok.mpr ⟨b, hfinish', rfl⟩⟩

/-- An object of these members is read to its end. -/
theorem Takes.readObject {members : Members α} {state final : members.State} {entries : List (String × Value)}
    (h : members.Takes state entries final) (admitsUnknown : Bool) :
    members.readObject admitsUnknown true state (Value.membersSeen entries) = members.finish final := by
  induction h with
  | nil => rfl
  | cons ht hr _ ih => simp only [Value.membersSeen, Members.readObject, ht, hr, ih]

theorem RoundTrips.codec {members : Members α} {names : List String} (h : members.RoundTrips names p)
    (admitsUnknown : Bool) : (members.codec admitsUnknown).RoundTrips p where
  ensures := h.ensures.codec admitsUnknown
  reads a ha := by
    obtain ⟨state, htakes, hfinish⟩ := h.reads a ha
    exact (htakes.readObject admitsUnknown).trans hfinish

end Members

theorem roundTrips_required {codec : Codec α} (h : codec.RoundTrips p) (name : String) :
    (required name codec).RoundTrips [name] p :=
  Members.roundTrips_one h nofun nofun

theorem roundTrips_optional {codec : Codec α} (h : codec.RoundTrips p)
    (hnull : ∀ a, codec.decode .null ≠ .ok a) (name : String) :
    (optional name codec).RoundTrips [name] fun a => ∀ b, a = some b → p b := by
  refine Members.roundTrips_one (h.option hnull) ?_ nofun
  intro a ha b hb
  cases ha
  cases hb

end ArithDispatch.Json
