import ArithDispatch.Json.Scan

/-! Types with a JSON form. Reading stops at the first problem from left to right and tells damaged
text from well-formed text of the wrong shape. -/
namespace ArithDispatch.Json

/-- A value to be written. -/
inductive Value where
  | null
  | bool (b : Bool)
  | number (n : Number)
  | text (s : String)
  | array (items : List Value)
  | object (members : List (String × Value))
  deriving Repr, Inhabited

namespace Value

mutual

/-- The value as a reader meets it once it is written. -/
def seen : Value → Scan
  | null => .null
  | bool b => .bool b
  | number n => .number (some n)
  | text s => .text (some s)
  | array items => .array (itemsSeen items) true
  | object members => .object (membersSeen members) true

def itemsSeen : List Value → List Scan
  | [] => []
  | item :: rest => item.seen :: itemsSeen rest

def membersSeen : List (String × Value) → List (Option String × Scan)
  | [] => []
  | (key, value) :: rest => (some key, value.seen) :: membersSeen rest

end

def ofNat (n : Nat) : Value := number (.natural (.ofNat n))

def ofOption {α : Type} (write : α → Value) : Option α → Value
  | none => null
  | some a => write a

/-- A number that is not finite has no JSON form and is written as null. -/
def ofBinary64 (x : Binary64) : Value := if x.isFinite then number (.real x) else null

end Value

inductive Problem where
  /-- The text is no JSON, or holds a number that is out of range. -/
  | malformed
  /-- The text is JSON of another shape. -/
  | misshapen
  deriving DecidableEq, Repr

/-- What stops a reader who meets another kind of value than it wants. -/
def Scan.mismatch : Scan → Problem
  | .missing | .number none | .text none => .malformed
  | _ => .misshapen

/-- How a type is written and read back. -/
structure Codec (α : Type) where
  encode : α → Value
  decode : Scan → Except Problem α

namespace Codec

/-- Reads a value that nothing may follow. -/
def readScan {α : Type} (codec : Codec α) : Scan × Bool → Except Problem α
  | (scan, more) =>
    match codec.decode scan with
    | .error problem => .error problem
    | .ok a => if more then .error .malformed else .ok a

/-- Reads a whole text. -/
def read {α : Type} (codec : Codec α) (text : String) : Except Problem α :=
  codec.readScan (Scan.ofText text)

/-- Reads a whole text in bytes. -/
def readBytes {α : Type} (codec : Codec α) (bytes : ByteArray) : Except Problem α :=
  codec.readScan (Scan.ofBytes bytes)

def bool : Codec Bool where
  encode := .bool
  decode
    | .bool b => .ok b
    | scan => .error scan.mismatch

def text : Codec String where
  encode := .text
  decode
    | .text (some s) => .ok s
    | scan => .error scan.mismatch

/-- Natural numbers below `bound`, which is at most `2 ^ 64`. -/
def natBelow (bound : Nat) : Codec Nat where
  encode := .ofNat
  decode
    | .number (some (.natural n)) => if n.toNat < bound then .ok n.toNat else .error .misshapen
    | scan => .error scan.mismatch

def binary64 : Codec Binary64 where
  encode := .ofBinary64
  decode
    | .number (some n) =>
      match n.toBinary64? with
      | some x => .ok x
      | none => .error .misshapen
    | scan => .error scan.mismatch

/-- Null stands for an absent value. -/
def option {α : Type} (codec : Codec α) : Codec (Option α) where
  encode := .ofOption codec.encode
  decode
    | .null => .ok none
    | scan => (codec.decode scan).map some

/-- The same JSON form for another type, whose values may be fewer. -/
def refine {α β : Type} (codec : Codec α) (forth : α → Option β) (back : β → α) : Codec β where
  encode b := codec.encode (back b)
  decode scan :=
    match codec.decode scan with
    | .error problem => .error problem
    | .ok a =>
      match forth a with
      | some b => .ok b
      | none => .error .misshapen

def map {α β : Type} (codec : Codec α) (forth : α → β) (back : β → α) : Codec β :=
  codec.refine (some ∘ forth) back

def uint64 : Codec UInt64 := (natBelow UInt64.size).map .ofNat UInt64.toNat

/-- A type of named constants, written as the name, and also read from an object that has the name as
its only key, with null behind it. -/
def oneOf {α : Type} (all : List α) (name : α → String) : Codec α where
  encode a := .text (name a)
  decode
    | .text (some s) =>
      match all.find? (name · == s) with
      | some a => .ok a
      | none => .error .misshapen
    | .object ((some s, value) :: rest) closed =>
      match all.find? (name · == s), value with
      | none, _ => .error .misshapen
      | some a, .null => if rest.isEmpty && closed then .ok a else .error .malformed
      | some _, value => .error value.mismatch
    | _ => .error .malformed

end Codec

end ArithDispatch.Json
