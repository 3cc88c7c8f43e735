/-! Request targets. The path of a target stands behind scheme and authority, where it has them, and
ends where a query or a fragment begins. In a path, a percent sign with two hexadecimal digits behind it
stands for a byte. -/
namespace ArithDispatch.Http

/-- Removes a fixed beginning. -/
def afterBeginning? : List Char → List Char → Option (List Char)
  | [], rest => some rest
  | c :: beginning, d :: rest => if c = d then afterBeginning? beginning rest else none
  | _ :: _, [] => none

def isSchemeChar (c : Char) : Bool := c.isAlphanum || "+-.~".toList.contains c

/-- Whether the character begins a query or a fragment, and so ends the path in front of it. -/
def endsPath (c : Char) : Bool := c == '?' || c == '#'

/-- Whether the character ends an authority: the path, the query or the fragment begins there. -/
def endsAuthority (c : Char) : Bool := c == '/' || endsPath c

/-- A target without its scheme and authority, which stand in front of the path or not at all. -/
def dropAuthority (target : List Char) : List Char :=
  match afterBeginning? "://".toList (target.dropWhile isSchemeChar) with
  | some rest => rest.dropWhile (!endsAuthority ·)
  | none => target

/-- The path of a target. A target that is an authority alone, or an asterisk, counts as a path of
that spelling, at which nothing is found. -/
def pathOf (target : String) : List Char :=
  (dropAuthority target.toList).takeWhile (!endsPath ·)

def hexDigit? (b : UInt8) : Option UInt8 :=
  if 0x30 ≤ b && b ≤ 0x39 then some (b - 0x30)
  else if 0x41 ≤ b && b ≤ 0x46 then some (b - 0x41 + 10)
  else if 0x61 ≤ b && b ≤ 0x66 then some (b - 0x61 + 10)
  else none

/-- Replaces escapes by their bytes. A percent sign that starts no escape stays. -/
def percentDecode : List UInt8 → List UInt8
  | 0x25 :: high :: low :: rest =>
    match hexDigit? high, hexDigit? low with
    | some h, some l => (h * 16 + l) :: percentDecode rest
    | _, _ => 0x25 :: percentDecode (high :: low :: rest)
  | b :: rest => b :: percentDecode rest
  | [] => []

/-- The text of a path segment, unless its bytes are no UTF-8. -/
def decodeSegment? (segment : List Char) : Option String :=
  String.fromUTF8? ⟨(percentDecode (String.ofList segment).toUTF8.toList).toArray⟩

end ArithDispatch.Http
