/-! Media types, as far as telling JSON from the rest. A type and a subtype are separated by a slash,
parameters follow behind semicolons, and a subtype may end in a suffix behind a plus sign. -/
namespace ArithDispatch.Http

/-- The characters that names in a media type consist of. -/
def isTokenChar (c : Char) : Bool := c.isAlphanum || "!#$%&'*+-.^_`|~".toList.contains c

/-- What may stand in a header: visible ASCII characters, blanks and tabs. -/
def isHeaderChar (c : Char) : Bool := (0x20 ≤ c.toNat && c.toNat < 0x7F) || c == '\t'

/-- Whether a text inside quotes may hold the character. -/
def isQuotable (c : Char) : Bool := 0x20 ≤ c.toNat && c.toNat != 0x7F

/-- What is being read of the parameters. -/
inductive ParameterPart where
  /-- In front of a name, where blanks are allowed. -/
  | start
  | name
  | valueStart
  | value
  | quotedStart
  | quoted
  | afterQuoted
  deriving DecidableEq, Repr

/-- The part that one more character leads to. A name and a quoted value have at least one
character, and a quotation mark that opens a quoted value may be followed by another as its first. -/
def ParameterPart.next (c : Char) : ParameterPart → Option ParameterPart
  | start => if c == ' ' then some start else if isTokenChar c then some name else none
  | name => if c == '=' then some valueStart else if isTokenChar c then some name else none
  | valueStart =>
    if c == '"' then some quotedStart else if isTokenChar c then some value else none
  | value => if c == ';' then some start else if isTokenChar c then some value else none
  | quotedStart => if isQuotable c then some quoted else none
  | quoted => if c == '"' then some afterQuoted else if isQuotable c then some quoted else none
  | afterQuoted => if c == ';' then some start else if c == ' ' then some afterQuoted else none

/-- Whether the parameters may end here. -/
def ParameterPart.mayEnd : ParameterPart → Bool
  | start | valueStart | value | afterQuoted => true
  | name | quotedStart | quoted => false

def areParameters (cs : List Char) : Bool :=
  match cs.foldlM (fun part c => part.next c) ParameterPart.start with
  | some part => part.mayEnd
  | none => false

/-- The subtype without its suffix, and the suffix. A plus sign in front of everything is part of the
subtype. -/
def splitSuffix (subtype : List Char) : List Char × Option (List Char) :=
  let suffix := (subtype.reverse.takeWhile (· != '+')).reverse
  let front := subtype.take (subtype.length - suffix.length - 1)
  if subtype.contains '+' && !front.isEmpty then (front, some suffix) else (subtype, none)

/-- Whether the content is JSON: `application/json`, or any `application` subtype with the suffix
`json`, in letters of either case. -/
def isJson (contentType : String) : Bool :=
  let cs := contentType.toList
  let topLevel := cs.takeWhile isTokenChar
  match cs.dropWhile isTokenChar with
  | '/' :: rest =>
    let subtype := rest.takeWhile isTokenChar
    let parametersFine := match rest.dropWhile isTokenChar with
      | [] => true
      | ';' :: parameters => areParameters parameters
      | _ => false
    let (name, suffix) := splitSuffix (subtype.map Char.toLower)
    cs.all isHeaderChar && !subtype.isEmpty && parametersFine &&
      topLevel.map Char.toLower == "application".toList &&
      (name == "json".toList || suffix == some "json".toList)
  | _ => false

end ArithDispatch.Http
