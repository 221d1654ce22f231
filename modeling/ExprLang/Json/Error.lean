import ExprLang.Number.Literal
import ExprLang.Number.Style
import ExprLang.Text.Quoted

/-!
# Why a document is refused

A document is read in one pass and the first problem met decides. Either the text is no JSON from there on, or it ends too early, or
what was read so far is JSON but not what is expected; only in the last case is there something to say about the document.
-/

namespace ExprLang.Json

open Number Text

/-- What was found in the place of something else. -/
inductive Found where
  /-- The value `null`. -/
  | null
  /-- A truth value. -/
  | boolean (value : Bool)
  /-- An integer. -/
  | integer (value : Int)
  /-- A 64-bit float. -/
  | float (negative : Bool) (bits : Nat)
  /-- A string. -/
  | string (value : String)
  /-- An array. -/
  | array
  /-- An object. -/
  | object
  /-- A bare name where a name with content is expected. -/
  | bareName
deriving DecidableEq, Repr

/-- How a document differs from what is expected. -/
inductive Mismatch where
  /-- A value of another type. -/
  | wrongType (found : Found) (expected : String)
  /-- An integer that does not fit. -/
  | outOfRange (value : Int) (expected : String)
  /-- An array that ends after `count` items. -/
  | tooShort (count : Nat) (expected : String)
  /-- A name that is none of the known ones. -/
  | unknownName (name : String) (known : List String)
  /-- A part that is not there. -/
  | missingPart (name : String)
  /-- A part that is there twice. -/
  | duplicatePart (name : String)
deriving DecidableEq, Repr

/-- Why a document is refused. -/
inductive ReadError where
  /-- The text is no JSON document. -/
  | malformed
  /-- The text ends before the document does. -/
  | truncated
  /-- The document is not what is expected. -/
  | mismatch (reason : Mismatch)
deriving DecidableEq, Repr

namespace Found

/-- In messages, floats have the digits that read back exactly, without an exponent from `1e-5` up to `1e16`. -/
def floatStyle : FloatStyle where
  format := .binary64
  reads d := BinaryFormat.binary64.nearest d.toFraction
  positional top := -5 ≤ top && top < 16
  wholePoint := true
  plusSign := true
  tie := .even

/-- What was found, as messages name it. -/
def text : Found → String
  | null => "null"
  | boolean value => "boolean `" ++ (if value then "true" else "false") ++ "`"
  | integer value => "integer `" ++ toString value ++ "`"
  | float negative bits => "floating point `" ++ floatStyle.text negative bits ++ "`"
  | string value => "string " ++ quoted value
  | array => "sequence"
  | object => "map"
  | bareName => "unit variant"

end Found

namespace Mismatch

/-- The message of a mismatch. -/
def message : Mismatch → String
  | wrongType found expected => "invalid type: " ++ found.text ++ ", expected " ++ expected
  | outOfRange value expected => "invalid value: " ++ (Found.integer value).text ++ ", expected " ++ expected
  | tooShort count expected => "invalid length " ++ toString count ++ ", expected " ++ expected
  | unknownName name known =>
    "unknown variant `" ++ name ++ "`, expected one of " ++ ", ".intercalate (known.map fun n => "`" ++ n ++ "`")
  | missingPart name => "missing field `" ++ name ++ "`"
  | duplicatePart name => "duplicate field `" ++ name ++ "`"

end Mismatch

namespace ReadError

/-- The message of a refusal. -/
def message : ReadError → String
  | malformed => "malformed document"
  | truncated => "document ends early"
  | mismatch reason => reason.message

end ReadError

end ExprLang.Json
