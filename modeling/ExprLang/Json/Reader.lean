import ExprLang.Json.Scan

/-!
# Readers

A `Reader` reads a value of a known type off the front of a text and leaves what follows. It may open only so many brackets inside
one another; one more is refused like malformed text. The readers here are those of single values, lists and choices; records follow
in `ExprLang.Json.Record`.

A reader that loops is given `fuel`, more than the characters that are left. Each turn reads at least one of them, so the fuel does
not run out.
-/

namespace ExprLang.Json

open Number

/-- Reads an `α`, given how many brackets may still be opened inside one another. -/
def Reader (α : Type) : Type := (budget : Nat) → List Char → Except ReadError (α × List Char)

namespace Reader

variable {α β : Type}

instance : Monad Reader where
  pure a := fun _ s => .ok (a, s)
  bind r f := fun budget s =>
    match r budget s with
    | .ok (a, rest) => f a budget rest
    | .error e => .error e

/-- Refuses whatever follows. -/
def fail (e : ReadError) : Reader α := fun _ _ => .error e

/-- Reads with a scanner, which opens no bracket. -/
def ofScan (scan : List Char → Except ReadError (α × List Char)) : Reader α := fun _ s => scan s

/-- Refuses what follows as something else than what is expected. -/
def wrongType (expected : String) : Reader α := fun _ s => .error (unexpected expected s)

/-- Passes over blanks and gives the next character, which stays. -/
def next : Reader (Option Char) := fun _ s => .ok ((skipBlanks s).head?, skipBlanks s)

/-- Passes over one character. -/
def advance : Reader Unit := fun _ s => .ok ((), s.drop 1)

/-- Reads inside one more bracket. -/
def nested (r : Reader α) : Reader α := fun budget s =>
  match budget with
  | 0 => .error .malformed
  | budget + 1 => r budget s

/-- Passes over a value of any kind in a text of fewer than `fuel` characters. -/
def skip (fuel : Nat) : Reader Unit := ofScan (skipValue (2 * fuel + 2))

/-- Reads a string. -/
def text : Reader String := do
  match ← next with
  | none => fail .truncated
  | some '"' => advance; ofScan (scanString .plain [])
  | some _ => wrongType "a string"

/-- Reads a truth value. -/
def boolean : Reader Bool := do
  match ← next with
  | none => fail .truncated
  | some 't' => ofScan (scanWord ['t', 'r', 'u', 'e']); return true
  | some 'f' => ofScan (scanWord ['f', 'a', 'l', 's', 'e']); return false
  | some _ => wrongType "a boolean"

/-- Reads nothing, which is written `null`. -/
def unit : Reader Unit := do
  match ← next with
  | none => fail .truncated
  | some 'n' => ofScan (scanWord ['n', 'u', 'l', 'l'])
  | some _ => wrongType "unit"

/-- Reads a value, or nothing, which is written `null`. -/
def optional (r : Reader α) : Reader (Option α) := do
  match ← next with
  | some 'n' => ofScan (scanWord ['n', 'u', 'l', 'l']); return none
  | _ => return some (← r)

/-- Reads a number. -/
def numeral (expected : String) : Reader Numeral := do
  match ← next with
  | none => fail .truncated
  | some '-' => advance; ofScan (scanNumeral true)
  | some c => if c.isDigit then ofScan (scanNumeral false) else wrongType expected

/-- Reads an integer of 32 bits. -/
def int32 : Reader Int32 := do
  match ← numeral "i32" with
  | .integer n =>
    if Int32.minValue.toInt ≤ n ∧ n ≤ Int32.maxValue.toInt then return Int32.ofInt n
    else fail (.mismatch (.outOfRange n "i32"))
  | .float negative bits => fail (.mismatch (.wrongType (.float negative bits) "i32"))

/-- Reads a float of 32 bits. -/
def float32 : Reader Float32 := do
  return (← numeral "f32").toFloat32

/-- Passes over the colon between a name and its value. -/
def colon : Reader Unit := do
  match ← next with
  | none => fail .truncated
  | some ':' => advance
  | some _ => fail .malformed

/-- Passes over the bracket that ends what is being read. -/
def closing (bracket : Char) : Reader Unit := do
  match ← next with
  | none => fail .truncated
  | some c => if c = bracket then advance else fail .malformed

/-- Passes over what stands before an item of an array, and says whether there is one. -/
def beforeItem (first : Bool) : Reader Bool := do
  match ← next with
  | none => fail .truncated
  | some c =>
    if c = ']' then return false
    else if first then return true
    else if c = ',' then
      advance
      match ← next with
      | none => fail .truncated
      | some ']' => fail .malformed
      | some _ => return true
    else fail .malformed

/-- Reads items up to the end of an array. -/
def items (item : Reader α) : (fuel : Nat) → (first : Bool) → Reader (List α)
  | 0, _ => fail .malformed
  | fuel + 1, first => do
    if ← beforeItem first then
      let a ← item
      return a :: (← items item fuel false)
    else return []

/-- Reads an array of any length in a text of fewer than `fuel` characters. -/
def list (fuel : Nat) (item : Reader α) : Reader (List α) := do
  match ← next with
  | none => fail .truncated
  | some '[' => nested do
    advance
    let as ← items item fuel true
    closing ']'
    return as
  | some _ => wrongType "a sequence"

/-- Reads an array of two items. -/
def pair (first : Reader α) (second : Reader β) : Reader (α × β) := do
  let expected := "a tuple of size 2"
  match ← next with
  | none => fail .truncated
  | some '[' => nested do
    advance
    if !(← beforeItem true) then fail (.mismatch (.tooShort 0 expected))
    let a ← first
    if !(← beforeItem false) then fail (.mismatch (.tooShort 1 expected))
    let b ← second
    closing ']'
    return (a, b)
  | some _ => wrongType expected

/-- Reads a name that must be one of the known ones. -/
def name (known : List (String × α)) : Reader α := do
  match ← next with
  | none => fail .truncated
  | some '"' =>
    advance
    let s ← ofScan (scanString .plain [])
    match known.lookup s with
    | some a => return a
    | none => fail (.mismatch (.unknownName s (known.map Prod.fst)))
  | some _ => fail .malformed

/-- Reads a choice: a bare name, or an object of one member whose name says how its value is read. -/
def choice (known : List (String × α)) (bare : α → Except ReadError β) (content : α → Reader β) : Reader β := do
  match ← next with
  | none => fail .truncated
  | some '{' =>
    let b ← nested do
      advance
      let a ← name known
      colon
      content a
    closing '}'
    return b
  | some '"' =>
    match bare (← name known) with
    | .ok b => return b
    | .error e => fail e
  | some _ => fail .malformed

/-- Reads a whole text with brackets at most `depth` deep; only blanks may follow the value. -/
def run (r : Reader α) (depth : Nat) (s : String) : Except ReadError α :=
  match r depth s.toList with
  | .error e => .error e
  | .ok (a, rest) => if (skipBlanks rest).isEmpty then .ok a else .error .malformed

end Reader

end ExprLang.Json
