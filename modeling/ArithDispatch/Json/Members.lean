import ArithDispatch.Json.Codec

/-! Records as JSON objects. The members come in any order, each at most once, and unknown ones are
passed over; a record may also be written as the array of its members in order. -/
namespace ArithDispatch.Json

structure Field (α : Type) where
  name : String
  codec : Codec α
  /-- The value when an object has no such member. -/
  ifMissing : Option α := none
  /-- The value when an array ends before this place. -/
  ifShort : Option α := none

/-- Fields of a record, read together. -/
structure Members (α : Type) where
  /-- What has been read of the fields so far. -/
  State : Type
  start : State
  /-- How to read the value behind a key, if a field has that name. -/
  take : String → State → Option (Scan → Except Problem State)
  /-- The fields once the object is at its end. -/
  finish : State → Except Problem α
  /-- The fields from the front of an array, which may break off, and the items behind them. -/
  takeItems : List Scan → Bool → Except Problem (α × List Scan)
  encode : α → List (String × Value)

namespace Members

/-- A field met a second time is refused before its value is looked at. -/
def one {α : Type} (field : Field α) : Members α where
  State := Option α
  start := none
  take key state :=
    if key = field.name then
      match state with
      | some _ => some fun _ => .error .misshapen
      | none => some fun scan => (field.codec.decode scan).map some
    else none
  finish
    | some a => .ok a
    | none =>
      match field.ifMissing with
      | some a => .ok a
      | none => .error .misshapen
  takeItems items closed :=
    match items with
    | item :: rest => (field.codec.decode item).map (·, rest)
    | [] =>
      if closed then
        match field.ifShort with
        | some a => .ok (a, [])
        | none => .error .misshapen
      else .error .malformed
  encode a := [(field.name, field.codec.encode a)]

/-- The fields of two records with different field names, the first one's in front. -/
def both {α β : Type} (first : Members α) (second : Members β) : Members (α × β) where
  State := first.State × second.State
  start := (first.start, second.start)
  take key state :=
    match first.take key state.1 with
    | some read => some fun scan => (read scan).map (·, state.2)
    | none => (second.take key state.2).map fun read scan => (read scan).map (state.1, ·)
  finish state := do
    let a ← first.finish state.1
    let b ← second.finish state.2
    pure (a, b)
  takeItems items closed := do
    let (a, items) ← first.takeItems items closed
    let (b, items) ← second.takeItems items closed
    pure ((a, b), items)
  encode ab := first.encode ab.1 ++ second.encode ab.2

/-- Reads members up to the end of an object. Only a record that admits unknown members passes over
them. -/
def readObject {α : Type} (members : Members α) (admitsUnknown : Bool) (closed : Bool) :
    members.State → List (Option String × Scan) → Except Problem α
  | state, [] => if closed then members.finish state else .error .malformed
  | _, (none, _) :: _ => .error .malformed
  | state, (some key, value) :: rest =>
    match members.take key state with
    | some read =>
      match read value with
      | .error problem => .error problem
      | .ok state => readObject members admitsUnknown closed state rest
    | none =>
      if !admitsUnknown then .error .misshapen
      else if value.isIntact then readObject members admitsUnknown closed state rest
      else .error .malformed

/-- An array must hold the members and nothing else. -/
def readArray {α : Type} (members : Members α) (items : List Scan) (closed : Bool) :
    Except Problem α := do
  let (a, rest) ← members.takeItems items closed
  if rest.isEmpty && closed then pure a else .error .malformed

def codec {α : Type} (members : Members α) (admitsUnknown : Bool) : Codec α where
  encode a := .object (members.encode a)
  decode
    | .object entries closed => members.readObject admitsUnknown closed members.start entries
    | .array items closed => members.readArray items closed
    | scan => .error scan.mismatch

end Members

/-- A member that must be there. -/
def required {α : Type} (name : String) (codec : Codec α) : Members α := .one { name, codec }

/-- A member that may be null, or absent from an object. -/
def optional {α : Type} (name : String) (codec : Codec α) : Members (Option α) :=
  .one { name, codec := codec.option, ifMissing := some none }

/-- A member with a value of its own when it is absent from an object or an array. -/
def defaulted {α : Type} (name : String) (codec : Codec α) (absent : α) : Members α :=
  .one { name, codec, ifMissing := some absent, ifShort := some absent }

end ArithDispatch.Json
