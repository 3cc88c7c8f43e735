import ArithDispatch.Json.Lexeme

/-! A JSON text as a reader meets it from left to right: a tree that may break off. A container that
was never closed says so, and its parents with it, so that a reader who gives up early for a reason of
its own is not told of damage further on. -/
namespace ArithDispatch.Json

inductive Scan where
  | null
  | bool (b : Bool)
  /-- A number or a string without a value can be passed over but not read. -/
  | number (n : Option Number)
  | text (s : Option String)
  | array (items : List Scan) (closed : Bool)
  | object (members : List (Option String × Scan)) (closed : Bool)
  /-- No value stands here. -/
  | missing
  deriving Repr, Inhabited

namespace Scan

mutual

/-- Whether a reader can pass over the value. -/
def isIntact : Scan → Bool
  | array items closed => closed && areIntact items
  | object members closed => closed && membersIntact members
  | missing => false
  | _ => true

def areIntact : List Scan → Bool
  | [] => true
  | item :: rest => item.isIntact && areIntact rest

def membersIntact : List (Option String × Scan) → Bool
  | [] => true
  | (_, value) :: rest => value.isIntact && membersIntact rest

end

/-- A container that is still being read, with the latest part first. -/
inductive Frame where
  | array (items : List Scan)
  | object (members : List (Option String × Scan))
  /-- An object whose next member has its key already. -/
  | member (members : List (Option String × Scan)) (key : Option String)
  deriving Repr

namespace Frame

/-- Adds a value that has been read. -/
def add (value : Scan) : Frame → Frame
  | array items => array (value :: items)
  | object members => object members
  | member members key => object ((key, value) :: members)

/-- What there is of the container when reading stops. -/
def broken : Frame → Scan
  | array items => .array items.reverse false
  | object members => .object members.reverse false
  | member members key => .object ((key, .missing) :: members).reverse false

end Frame

/-- What may come next inside the innermost container. -/
inductive Due where
  | value
  | valueOrClose
  | key
  | keyOrClose
  | colon
  | commaOrClose
  deriving DecidableEq, Repr

/-- The value of a lexeme that is one by itself. -/
def scalar? : Lexeme → Option Scan
  | .null => some .null
  | .bool b => some (.bool b)
  | .number n => some (.number n)
  | .text s => some (.text s)
  | _ => none

/-- Where the reader is after a lexeme: a value is complete, or something else is due. -/
inductive Progress where
  | complete (value : Scan) (outer : List Frame)
  | going (due : Due) (stack : List Frame)

def beginValue (stack : List Frame) : Lexeme → Option Progress
  | .openArray => some (.going .valueOrClose (.array [] :: stack))
  | .openObject => some (.going .keyOrClose (.object [] :: stack))
  | lexeme => (scalar? lexeme).map (.complete · stack)

/-- One lexeme further, unless it may not stand there. -/
def step (stack : List Frame) (due : Due) (lexeme : Lexeme) : Option Progress :=
  match due, lexeme, stack with
  | .value, lexeme, _ => beginValue stack lexeme
  | .valueOrClose, .closeArray, .array items :: outer =>
    some (.complete (.array items.reverse true) outer)
  | .valueOrClose, lexeme, _ => beginValue stack lexeme
  | .keyOrClose, .closeObject, .object members :: outer =>
    some (.complete (.object members.reverse true) outer)
  | .keyOrClose, .text key, .object members :: outer
  | .key, .text key, .object members :: outer => some (.going .colon (.member members key :: outer))
  | .colon, .colon, _ => some (.going .value stack)
  | .commaOrClose, .comma, .array _ :: _ => some (.going .value stack)
  | .commaOrClose, .comma, .object _ :: _ => some (.going .key stack)
  | .commaOrClose, .closeArray, .array items :: outer =>
    some (.complete (.array items.reverse true) outer)
  | .commaOrClose, .closeObject, .object members :: outer =>
    some (.complete (.object members.reverse true) outer)
  | _, _, _ => none

/-- The tree when reading stops inside the given containers. -/
def abandon : List Frame → Scan
  | [] => .missing
  | frame :: outer => outer.foldl (fun value frame => (frame.add value).broken) frame.broken

/-- The first value of the lexemes, and whether anything follows it. -/
def assemble (stack : List Frame) (due : Due) : List Lexeme → Scan × Bool
  | [] => (abandon stack, false)
  | lexeme :: rest =>
    match step stack due lexeme with
    | none => (abandon stack, true)
    | some (.complete value []) => (value, !rest.isEmpty)
    | some (.complete value (frame :: outer)) =>
      assemble (frame.add value :: outer) .commaOrClose rest
    | some (.going due stack) => assemble stack due rest

/-- The value of a text, and whether more than white space follows it. -/
def ofText (text : String) : Scan × Bool := assemble [] .value (Lexeme.all text.toList)

/-- As `ofText`, for a text in bytes. -/
def ofBytes (bytes : ByteArray) : Scan × Bool := assemble [] .value (Lexeme.ofBytes bytes)

end Scan

end ArithDispatch.Json
