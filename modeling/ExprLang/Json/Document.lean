import ExprLang.Number.Literal
import ExprLang.Number.Style

/-!
# JSON documents and their text

Documents as they are written: two spaces for each level, one item or member a line, `[]` and an empty pair of braces for what is
empty. Floats have a point or an exponent, so that they are told from integers; a float that is not finite has no JSON text and is
written `null`.
-/

namespace ExprLang.Json

open Number

/-- A JSON document. -/
inductive Document where
  /-- The value `null`. -/
  | null
  /-- A truth value. -/
  | boolean (value : Bool)
  /-- An integer. -/
  | integer (value : Int)
  /-- A float of 32 bits. -/
  | float (value : Float32)
  /-- A string. -/
  | string (value : String)
  /-- An array. -/
  | array (items : List Document)
  /-- An object, its members in the order in which they are written. -/
  | object (members : List (String × Document))

namespace Document

/-- Written floats have the digits that are read back as the same float, without an exponent from `1e-6` up to `1e13`. -/
def floatStyle : FloatStyle where
  format := .binary32
  reads := readDecimal32
  positional top := -6 ≤ top && top < 13
  wholePoint := true
  plusSign := true
  tie := .even

/-- A float as it is written. -/
def floatChars (x : Float32) : List Char :=
  let (negative, bits) := bitsOfFloat32 x
  if bits < BinaryFormat.binary32.infinity then
    (if negative then ['-'] else []) ++ floatStyle.magnitudeText bits
  else ['n', 'u', 'l', 'l']

/-- A digit of a number to the base sixteen. -/
def hexDigit (n : Nat) : Char := Nat.digitChar (n % 16)

/-- One character of a string: quotes, backslashes and control characters are escaped. -/
def escapedChar (c : Char) : List Char :=
  if c = '"' then ['\\', '"']
  else if c = '\\' then ['\\', '\\']
  else if c = '\x08' then ['\\', 'b']
  else if c = '\t' then ['\\', 't']
  else if c = '\n' then ['\\', 'n']
  else if c = '\x0c' then ['\\', 'f']
  else if c = '\r' then ['\\', 'r']
  else if c.toNat < 0x20 then ['\\', 'u', '0', '0', hexDigit (c.toNat / 16), hexDigit c.toNat]
  else [c]

/-- A string in quotes. -/
def stringChars (s : String) : List Char := '"' :: s.toList.flatMap escapedChar ++ ['"']

/-- A new line at a level. -/
def newline (level : Nat) : List Char := '\n' :: List.replicate (2 * level) ' '

mutual

/-- The text of a document whose first line stands at a level. -/
def chars (level : Nat) : Document → List Char
  | .null => ['n', 'u', 'l', 'l']
  | .boolean true => ['t', 'r', 'u', 'e']
  | .boolean false => ['f', 'a', 'l', 's', 'e']
  | .integer n => (toString n).toList
  | .float x => floatChars x
  | .string s => stringChars s
  | .array [] => ['[', ']']
  | .array (item :: rest) => '[' :: newline (level + 1) ++ chars (level + 1) item ++ itemChars (level + 1) rest ++
      newline level ++ [']']
  | .object [] => ['{', '}']
  | .object ((name, item) :: rest) => '{' :: newline (level + 1) ++ stringChars name ++ [':', ' '] ++
      chars (level + 1) item ++ memberChars (level + 1) rest ++ newline level ++ ['}']
termination_by structural d => d

/-- The text of further items of an array. -/
def itemChars (level : Nat) : List Document → List Char
  | [] => []
  | item :: rest => ',' :: newline level ++ chars level item ++ itemChars level rest
termination_by structural items => items

/-- The text of further members of an object. -/
def memberChars (level : Nat) : List (String × Document) → List Char
  | [] => []
  | (name, item) :: rest => ',' :: newline level ++ stringChars name ++ [':', ' '] ++ chars level item ++
      memberChars level rest
termination_by structural members => members

end

/-- The text of a document. -/
def text (d : Document) : String := String.ofList (d.chars 0)

end Document

end ExprLang.Json
