import ArithDispatch.Json.Members

/-! What is written, and what a reader can rely on. A codec vouches for the values that it reads; a record
vouches for its fields, in whatever order the members of an object come and also when the record is written
as an array. -/
namespace ArithDispatch.Json

variable {α β : Type}

@[simp] theorem Codec.encode_natBelow (bound n : Nat) : (natBelow bound).encode n = .ofNat n := rfl

@[simp] theorem Codec.encode_uint64 (n : UInt64) : uint64.encode n = .ofNat n.toNat := rfl

@[simp] theorem Codec.encode_map (codec : Codec α) (forth : α → β) (back : β → α) (b : β) :
    (codec.map forth back).encode b = codec.encode (back b) := rfl

@[simp] theorem Members.encode_both (first : Members α) (second : Members β) (ab : α × β) :
    (first.both second).encode ab = first.encode ab.1 ++ second.encode ab.2 := rfl

@[simp] theorem Members.encode_codec (members : Members α) (admitsUnknown : Bool) (a : α) :
    (members.codec admitsUnknown).encode a = .object (members.encode a) := rfl

@[simp] theorem encode_required (name : String) (codec : Codec α) (a : α) :
    (required name codec).encode a = [(name, codec.encode a)] := rfl

/-- What two readers of one text read is what they agree on. -/
theorem Lexeme.zipWith_agreed (lexemes : List Lexeme) : List.zipWith agreed lexemes lexemes = lexemes := by
  induction lexemes with
  | nil => rfl
  | cons lexeme rest ih => rw [List.zipWith_cons_cons, agreed, if_pos rfl, ih]

/-- Bytes that are the UTF-8 of a text are read as the text is. -/
theorem Codec.readBytes_toUTF8 (codec : Codec α) (text : String) :
    codec.readBytes text.toUTF8 = codec.read text := by
  rw [readBytes, Scan.ofBytes, Lexeme.ofBytes, Text.decode_toUTF8, Text.decode_toUTF8, Lexeme.zipWith_agreed]
  rfl

variable {p : α → Prop} {q : β → Prop}

/-- Every value that is read has the property. -/
def Codec.Ensures (codec : Codec α) (p : α → Prop) : Prop :=
  ∀ scan a, codec.decode scan = .ok a → p a

/-- The invariant of what has been read of the fields so far, and what it comes to at the end. -/
structure Members.Keeps (members : Members α) (inv : members.State → Prop) (p : α → Prop) : Prop where
  start : inv members.start
  take : ∀ key state read scan next, inv state → members.take key state = some read →
    read scan = .ok next → inv next
  finish : ∀ state a, inv state → members.finish state = .ok a → p a
  takeItems : ∀ items closed a rest, members.takeItems items closed = .ok (a, rest) → p a

/-- Fields that are read together have the property. -/
def Members.Ensures (members : Members α) (p : α → Prop) : Prop := ∃ inv, members.Keeps inv p

theorem map_eq_ok {ε : Type} {x : Except ε α} {f : α → β} {b : β} :
    x.map f = .ok b ↔ ∃ a, x = .ok a ∧ f a = b := by
  cases x <;> simp [Except.map]

theorem bind_eq_ok {ε : Type} {x : Except ε α} {f : α → Except ε β} {b : β} :
    (x >>= f) = .ok b ↔ ∃ a, x = .ok a ∧ f a = .ok b := by
  cases x <;> simp [Bind.bind, Except.bind]

namespace Codec

theorem Ensures.readScan {codec : Codec α} (h : codec.Ensures p) {scanned : Scan × Bool} {a : α}
    (hr : codec.readScan scanned = .ok a) : p a := by
  simp only [Codec.readScan] at hr
  split at hr
  · cases hr
  · next hd =>
    split at hr <;> cases hr
    exact h _ _ hd

theorem ensures_true (codec : Codec α) : codec.Ensures fun _ => True := fun _ _ _ => trivial

theorem Ensures.refine {codec : Codec α} (h : codec.Ensures p) {forth : α → Option β}
    (hq : ∀ a b, p a → forth a = some b → q b) (back : β → α) : (codec.refine forth back).Ensures q := by
  intro scan b hd
  simp only [Codec.refine] at hd
  split at hd
  · cases hd
  · next a ha =>
    split at hd <;> cases hd
    exact hq a b (h scan a ha) ‹_›

theorem Ensures.map {codec : Codec α} (h : codec.Ensures p) {forth : α → β} (hq : ∀ a, p a → q (forth a))
    (back : β → α) : (codec.map forth back).Ensures q :=
  h.refine (fun a _ ha he => Option.some.inj he ▸ hq a ha) back

/-- A number that has no finite value is not read, whatever its form. -/
theorem binary64_ensures_isFinite : binary64.Ensures fun x => x.isFinite = true := by
  intro scan x hd
  simp only [binary64] at hd
  split at hd
  · next n =>
    cases hn : n.toBinary64? with
    | none => simp [hn] at hd
    | some y =>
      obtain rfl : y = x := by simpa [hn] using hd
      simp only [Number.toBinary64?, Option.ite_none_right_eq_some, Option.some.injEq] at hn
      obtain ⟨hfinite, rfl⟩ := hn
      exact hfinite
  · cases hd

end Codec

namespace Members

theorem one_ensures {field : Field α} (h : field.codec.Ensures p)
    (hm : ∀ a, field.ifMissing = some a → p a) (hs : ∀ a, field.ifShort = some a → p a) :
    (one field).Ensures p := by
  refine ⟨fun state => ∀ a, state = some a → p a, nofun, ?_, ?_, ?_⟩
  · intro key state read scan next _ ht hr a hn
    simp only [one] at ht
    split at ht
    · split at ht <;> cases ht
      · cases hr
      · obtain ⟨b, hb, rfl⟩ := map_eq_ok.mp hr
        exact Option.some.inj hn ▸ h scan b hb
    · cases ht
  · intro state a hstate hf
    simp only [one] at hf
    split at hf
    · cases hf
      exact hstate a rfl
    · split at hf <;> cases hf
      exact hm a ‹_›
  · intro items closed a rest hi
    simp only [one] at hi
    split at hi
    · obtain ⟨b, hb, he⟩ := map_eq_ok.mp hi
      cases he
      exact h _ _ hb
    · split at hi
      · split at hi <;> cases hi
        exact hs a ‹_›
      · cases hi

theorem Ensures.both {first : Members α} {second : Members β} (hf : first.Ensures p)
    (hs : second.Ensures q) : (first.both second).Ensures fun ab => p ab.1 ∧ q ab.2 := by
  obtain ⟨inv, hp⟩ := hf
  obtain ⟨inv', hq⟩ := hs
  refine ⟨fun state => inv state.1 ∧ inv' state.2, ⟨hp.start, hq.start⟩, ?_, ?_, ?_⟩
  · rintro key ⟨left, right⟩ read scan next ⟨hl, hr⟩ ht hn
    simp only [Members.both] at ht
    split at ht
    · next take htake =>
      cases ht
      obtain ⟨left', hd, rfl⟩ := map_eq_ok.mp hn
      exact ⟨hp.take key left take scan left' hl htake hd, hr⟩
    · obtain ⟨take, htake, rfl⟩ := Option.map_eq_some_iff.mp ht
      obtain ⟨right', hd, rfl⟩ := map_eq_ok.mp hn
      exact ⟨hl, hq.take key right take scan right' hr htake hd⟩
  · rintro ⟨left, right⟩ ab ⟨hl, hr⟩ he
    obtain ⟨a, ha, he⟩ := bind_eq_ok.mp he
    obtain ⟨b, hb, he⟩ := bind_eq_ok.mp he
    cases he
    exact ⟨hp.finish left a hl ha, hq.finish right b hr hb⟩
  · intro items closed ab rest he
    obtain ⟨⟨a, behind⟩, ha, he⟩ := bind_eq_ok.mp he
    obtain ⟨⟨b, behind'⟩, hb, he⟩ := bind_eq_ok.mp he
    cases he
    exact ⟨hp.takeItems items closed a behind ha, hq.takeItems behind closed b rest hb⟩

/-- Members in any order keep the invariant, and unknown ones do not touch it. -/
theorem Keeps.readObject {members : Members α} {inv : members.State → Prop} (h : members.Keeps inv p)
    {admitsUnknown closed : Bool} {state : members.State} (hs : inv state)
    {entries : List (Option String × Scan)} {a : α}
    (hr : members.readObject admitsUnknown closed state entries = .ok a) : p a := by
  induction entries generalizing state with
  | nil =>
    simp only [Members.readObject] at hr
    split at hr
    · exact h.finish state a hs hr
    · cases hr
  | cons entry rest ih =>
    obtain ⟨_ | key, value⟩ := entry
    · cases hr
    · simp only [Members.readObject] at hr
      split at hr
      · next read ht =>
        split at hr
        · cases hr
        · next next hn => exact ih (h.take key state read value next hs ht hn) hr
      · split at hr
        · cases hr
        · split at hr
          · exact ih hs hr
          · cases hr

theorem Ensures.codec {members : Members α} (h : members.Ensures p) (admitsUnknown : Bool) :
    (members.codec admitsUnknown).Ensures p := by
  obtain ⟨inv, hk⟩ := h
  intro scan a hd
  simp only [Members.codec] at hd
  split at hd
  · exact hk.readObject hk.start hd
  · obtain ⟨⟨b, rest⟩, hb, he⟩ := bind_eq_ok.mp hd
    dsimp only at he
    split at he <;> cases he
    exact hk.takeItems _ _ a rest hb
  · cases hd

end Members

theorem required_ensures {codec : Codec α} (h : codec.Ensures p) (name : String) :
    (required name codec).Ensures p :=
  Members.one_ensures h nofun nofun

end ArithDispatch.Json
