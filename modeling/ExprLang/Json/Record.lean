import ExprLang.Json.Reader

/-!
# Records

A record has named parts, each of a known kind. It is written as an object, its members in any order and others between them, or as
an array of the parts in their order. Members that are no part are passed over; a part that is there twice is refused at once, one
that is missing when the object ends.

Kinds are values of a type `κ`, and `denotes` says which values a kind has, so a record that was read is a value of `Row`.
-/

namespace ExprLang.Json

variable {κ : Type}

/-- The values of the parts of a record. -/
def Row (denotes : κ → Type) : List (String × κ) → Type
  | [] => Unit
  | (_, kind) :: rest => denotes kind × Row denotes rest

/-- The values of the parts that have been read so far. -/
def Draft (denotes : κ → Type) : List (String × κ) → Type
  | [] => Unit
  | (_, kind) :: rest => Option (denotes kind) × Draft denotes rest

namespace Draft

variable {denotes : κ → Type}

/-- No part has been read. -/
def empty : (parts : List (String × κ)) → Draft denotes parts
  | [] => ()
  | _ :: rest => (none, empty rest)

/-- The finished record. A part that was not read has the value `absent` gives it, if it gives one. -/
def finish (absent : (kind : κ) → Option (denotes kind)) :
    (parts : List (String × κ)) → Draft denotes parts → Except Mismatch (Row denotes parts)
  | [], () => .ok ()
  | (name, kind) :: rest, (value, values) =>
    match value <|> absent kind with
    | none => .error (.missingPart name)
    | some value =>
      match finish absent rest values with
      | .ok row => .ok (value, row)
      | .error e => .error e

/-- How a member of this name is read into the draft, if it is a part. -/
def member? (read : (kind : κ) → Reader (denotes kind)) (key : String) :
    (parts : List (String × κ)) → Draft denotes parts → Option (Reader (Draft denotes parts))
  | [], () => none
  | (name, kind) :: rest, (value, values) =>
    if key = name then
      match value with
      | some _ => some (Reader.fail (.mismatch (.duplicatePart name)))
      | none => some do
        Reader.colon
        return (some (← read kind), values)
    else (member? read key rest values).map fun r => return (value, ← r)

end Draft

namespace Reader

variable {denotes : κ → Type}

/-- Passes over what stands before a member of an object, its opening quote included, and says whether there is one. -/
def beforeMember (first : Bool) : Reader Bool := do
  match ← next with
  | none => fail .truncated
  | some c =>
    if c = '}' then return false
    else if first then
      if c = '"' then advance; return true else fail .malformed
    else if c = ',' then
      advance
      match ← next with
      | none => fail .truncated
      | some '"' => advance; return true
      | some _ => fail .malformed
    else fail .malformed

/-- Reads the members of an object into a draft, in at most `turns` turns. -/
def members (read : (kind : κ) → Reader (denotes kind)) (parts : List (String × κ)) :
    (fuel turns : Nat) → (first : Bool) → Draft denotes parts → Reader (Draft denotes parts)
  | _, 0, _, _ => fail .malformed
  | fuel, turns + 1, first, draft => do
    if ← beforeMember first then
      let key ← ofScan (scanString .plain [])
      match draft.member? read key parts with
      | some r => members read parts fuel turns false (← r)
      | none =>
        colon
        skip fuel
        members read parts fuel turns false draft
    else return draft

/-- Reads the parts of a record from the items of an array, after `count` parts. -/
def row (read : (kind : κ) → Reader (denotes kind)) (expected : String) (count : Nat) :
    (parts : List (String × κ)) → Reader (Row denotes parts)
  | [] => return ()
  | (_, kind) :: rest => do
    if !(← beforeItem (count = 0)) then fail (.mismatch (.tooShort count expected))
    let value ← read kind
    return (value, ← row read expected (count + 1) rest)

/-- How many parts a record has, in words. -/
def countText (parts : List (String × κ)) : String :=
  if parts.length = 1 then "1 element" else toString parts.length ++ " elements"

/-- Reads a record, which messages call by `label`, in a text of fewer than `fuel` characters. -/
def record (fuel : Nat) (label : String) (read : (kind : κ) → Reader (denotes kind)) (absent : (kind : κ) → Option (denotes kind))
    (parts : List (String × κ)) : Reader (Row denotes parts) := do
  match ← next with
  | none => fail .truncated
  | some '[' => nested do
    advance
    let values ← row read (label ++ " with " ++ countText parts) 0 parts
    closing ']'
    return values
  | some '{' => nested do
    advance
    let draft ← members read parts fuel fuel true (Draft.empty parts)
    match draft.finish absent parts with
    | .error e => fail (.mismatch e)
    | .ok values =>
      closing '}'
      return values
  | some _ => wrongType label

end Reader

end ExprLang.Json
