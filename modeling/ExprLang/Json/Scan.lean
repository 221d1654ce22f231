import ExprLang.Json.Error

/-!
# Scanning JSON text

The smallest pieces of a document, read off the front of a list of characters: blanks, words, strings and numbers, and whole values
that are passed over. Each scanner gives back what follows the piece.
-/

namespace ExprLang.Json

open Number

/-- What a scanner read and what follows it, or why it could not. -/
abbrev Scanned (α : Type) := Except ReadError (α × List Char)

/-- The characters that may stand between the pieces of a document. -/
def isBlank (c : Char) : Bool := c = ' ' || c = '\t' || c = '\n' || c = '\r'

/-- Passes over blanks. -/
def skipBlanks (s : List Char) : List Char := s.dropWhile isBlank

/-- Passes over the given characters. -/
def scanWord : List Char → List Char → Scanned Unit
  | [], s => .ok ((), s)
  | _ :: _, [] => .error .truncated
  | c :: word, d :: s => if c = d then scanWord word s else .error .malformed

/-- The value of a digit to the base sixteen. -/
def hexValue? (c : Char) : Option Nat :=
  if '0' ≤ c ∧ c ≤ '9' then some (c.toNat - '0'.toNat)
  else if 'a' ≤ c ∧ c ≤ 'f' then some (c.toNat - 'a'.toNat + 10)
  else if 'A' ≤ c ∧ c ≤ 'F' then some (c.toNat - 'A'.toNat + 10)
  else none

/-- The character that a one-letter escape stands for. -/
def escaped? (c : Char) : Option Char :=
  if c = '"' ∨ c = '\\' ∨ c = '/' then some c
  else if c = 'b' then some '\x08'
  else if c = 'f' then some '\x0c'
  else if c = 'n' then some '\n'
  else if c = 'r' then some '\r'
  else if c = 't' then some '\t'
  else none

/-- Whether a number is the first half of a surrogate pair. -/
def isHighSurrogate (n : Nat) : Bool := 0xD800 ≤ n && n ≤ 0xDBFF

/-- Whether a number is the second half of a surrogate pair. -/
def isLowSurrogate (n : Nat) : Bool := 0xDC00 ≤ n && n ≤ 0xDFFF

/-- The character that a surrogate pair stands for. -/
def ofSurrogates (high low : Nat) : Char := Char.ofNat (0x10000 + (high - 0xD800) * 0x400 + (low - 0xDC00))

/-- Whether at least four bytes of text are left, which is asked before four digits are looked at. -/
def hasFourBytes : List Char → Bool
  | _ :: _ :: _ :: _ :: _ => true
  | s => 4 ≤ (String.ofList s).utf8ByteSize

/-- Where a scanner stands inside a string. -/
inductive StringState where
  /-- Between characters. -/
  | plain
  /-- After a backslash. -/
  | escape
  /-- Before the `digits + 1` last digits of a code, whose digits so far make `value`; `high` is the first half of a pair. -/
  | code (digits value : Nat) (high : Option Nat)
  /-- After the first half of a pair. -/
  | pair (high : Nat)
  /-- After the first half of a pair and a backslash. -/
  | pairEscape (high : Nat)
deriving DecidableEq, Repr

/-- Reads a string from inside, one character at a time; `read` holds the characters so far, the last one first. -/
def scanString : StringState → (read : List Char) → List Char → Scanned String
  | _, _, [] => .error .truncated
  | .plain, read, c :: s =>
    if c = '"' then .ok (String.ofList read.reverse, s)
    else if c = '\\' then scanString .escape read s
    else if c.toNat < 0x20 then .error .malformed
    else scanString .plain (c :: read) s
  | .escape, read, c :: s =>
    match escaped? c with
    | some d => scanString .plain (d :: read) s
    | none =>
      if c ≠ 'u' then .error .malformed
      else if hasFourBytes s then scanString (.code 3 0 none) read s
      else .error .truncated
  | .code digits value high, read, c :: s =>
    match hexValue? c with
    | none => .error .malformed
    | some d =>
      let value := 16 * value + d
      match digits, high with
      | digits + 1, high => scanString (.code digits value high) read s
      | 0, none =>
        if isLowSurrogate value then .error .malformed
        else if isHighSurrogate value then scanString (.pair value) read s
        else scanString .plain (Char.ofNat value :: read) s
      | 0, some high =>
        if isLowSurrogate value then scanString .plain (ofSurrogates high value :: read) s
        else .error .malformed
  | .pair high, read, c :: s => if c = '\\' then scanString (.pairEscape high) read s else .error .malformed
  | .pairEscape high, read, c :: s =>
    if c ≠ 'u' then .error .malformed
    else if hasFourBytes s then scanString (.code 3 0 (some high)) read s
    else .error .truncated

/-- Where a scanner stands inside a string that is passed over. -/
inductive SkippedState where
  /-- Between characters. -/
  | plain
  /-- After a backslash. -/
  | escape
  /-- Before the `digits + 1` last digits of a code. -/
  | code (digits : Nat)
deriving DecidableEq, Repr

/-- Passes over a string from inside. Codes need not form pairs here. -/
def skipString : SkippedState → List Char → Scanned Unit
  | _, [] => .error .truncated
  | .plain, c :: s =>
    if c = '"' then .ok ((), s)
    else if c = '\\' then skipString .escape s
    else if c.toNat < 0x20 then .error .malformed
    else skipString .plain s
  | .escape, c :: s =>
    if (escaped? c).isSome then skipString .plain s
    else if c ≠ 'u' then .error .malformed
    else if hasFourBytes s then skipString (.code 3) s
    else .error .truncated
  | .code digits, c :: s =>
    if (hexValue? c).isNone then .error .malformed
    else
      match digits with
      | digits + 1 => skipString (.code digits) s
      | 0 => skipString .plain s

/-- The leading digits and what follows them. -/
def scanDigits (s : List Char) : List Nat × List Char :=
  ((s.takeWhile Char.isDigit).map fun c => c.toNat - '0'.toNat, s.dropWhile Char.isDigit)

/-- Reads digits of which there must be one. -/
def scanSomeDigits (s : List Char) : Scanned (List Nat) :=
  match scanDigits s with
  | ([], []) => .error .truncated
  | ([], _ :: _) => .error .malformed
  | result => .ok result

/-- The number that digits stand for. -/
def ofDigits (digits : List Nat) : Nat := digits.foldl (fun n d => 10 * n + d) 0

/-- Reads an exponent, if there is one. -/
def scanExponent : List Char → Scanned (Option Int)
  | c :: s =>
    if c = 'e' ∨ c = 'E' then
      match s with
      | '-' :: s => (scanSomeDigits s).map fun (ds, s) => (some (-(ofDigits ds : Int)), s)
      | '+' :: s => (scanSomeDigits s).map fun (ds, s) => (some (ofDigits ds : Int), s)
      | s => (scanSomeDigits s).map fun (ds, s) => (some (ofDigits ds : Int), s)
    else .ok (none, c :: s)
  | [] => .ok (none, [])

/-- Reads a fraction, if there is one. -/
def scanFraction : List Char → Scanned (Option (List Nat))
  | '.' :: s => (scanSomeDigits s).map fun (ds, s) => (some ds, s)
  | s => .ok (none, s)

/-- Reads the digits before the point; a zero stands alone. -/
def scanWhole : List Char → Scanned (List Nat)
  | '0' :: s =>
    match scanDigits s with
    | ([], s) => .ok ([0], s)
    | (_ :: _, _) => .error .malformed
  | s => scanSomeDigits s

/-- Reads a number after its sign. -/
def scanLiteral (negative : Bool) (s : List Char) : Except ReadError (Literal × List Char) := do
  let (whole, s) ← scanWhole s
  let (fraction, s) ← scanFraction s
  let (exponent, s) ← scanExponent s
  return (⟨negative, whole, fraction, exponent⟩, s)

/-- Reads what a number after its sign denotes. A number too large is as bad as no number. -/
def scanNumeral (negative : Bool) (s : List Char) : Except ReadError (Numeral × List Char) := do
  let (literal, s) ← scanLiteral negative s
  match literal.numeral? with
  | some n => return (n, s)
  | none => .error .malformed

/-- Passes over a number after its sign. A number that ends too early is no number. -/
def skipLiteral (s : List Char) : Scanned Unit :=
  match scanLiteral false s with
  | .ok (_, s) => .ok ((), s)
  | .error _ => .error .malformed

mutual

/-- Passes over a value in at most `fuel` steps. -/
def skipValue : (fuel : Nat) → List Char → Scanned Unit
  | 0, _ => .error .malformed
  | fuel + 1, s =>
    match skipBlanks s with
    | [] => .error .truncated
    | '"' :: s => skipString .plain s
    | '-' :: s => skipLiteral s
    | 'n' :: s => scanWord ['u', 'l', 'l'] s
    | 't' :: s => scanWord ['r', 'u', 'e'] s
    | 'f' :: s => scanWord ['a', 'l', 's', 'e'] s
    | '[' :: s =>
      match skipBlanks s with
      | [] => .error .truncated
      | ']' :: s => .ok ((), s)
      | s => skipItems fuel s
    | '{' :: s =>
      match skipBlanks s with
      | [] => .error .truncated
      | '}' :: s => .ok ((), s)
      | s => skipMembers fuel s
    | c :: s => if c.isDigit then skipLiteral (c :: s) else .error .malformed

/-- Passes over the items of an array and its end. -/
def skipItems : (fuel : Nat) → List Char → Scanned Unit
  | 0, _ => .error .malformed
  | fuel + 1, s =>
    match skipValue fuel s with
    | .error e => .error e
    | .ok (_, s) =>
      match skipBlanks s with
      | [] => .error .truncated
      | ',' :: s => skipItems fuel s
      | ']' :: s => .ok ((), s)
      | _ => .error .malformed

/-- Passes over the members of an object and its end. -/
def skipMembers : (fuel : Nat) → List Char → Scanned Unit
  | 0, _ => .error .malformed
  | fuel + 1, s =>
    match skipBlanks s with
    | [] => .error .truncated
    | '"' :: s =>
      match skipString .plain s with
      | .error e => .error e
      | .ok (_, s) =>
        match skipBlanks s with
        | [] => .error .truncated
        | ':' :: s =>
          match skipValue fuel s with
          | .error e => .error e
          | .ok (_, s) =>
            match skipBlanks s with
            | [] => .error .truncated
            | ',' :: s => skipMembers fuel s
            | '}' :: s => .ok ((), s)
            | _ => .error .malformed
        | _ => .error .malformed
    | _ => .error .malformed

end

/-- What stands at the front of the text, when it is not what is expected there. -/
def scanFound : List Char → Except ReadError Found
  | '"' :: s => (scanString .plain [] s).map fun (text, _) => .string text
  | 'n' :: s => (scanWord ['u', 'l', 'l'] s).map fun _ => .null
  | 't' :: s => (scanWord ['r', 'u', 'e'] s).map fun _ => .boolean true
  | 'f' :: s => (scanWord ['a', 'l', 's', 'e'] s).map fun _ => .boolean false
  | '[' :: _ => .ok .array
  | '{' :: _ => .ok .object
  | '-' :: s => (scanNumeral true s).map fun (n, _) => ofNumeral n
  | s => if (s.head?.map Char.isDigit).getD false then (scanNumeral false s).map fun (n, _) => ofNumeral n
    else .error .malformed
where
  /-- A number, as it was found. -/
  ofNumeral : Numeral → Found
    | .integer n => .integer n
    | .float negative bits => .float negative bits

/-- The error of finding at the front of the text something else than what is expected. -/
def unexpected (expected : String) (s : List Char) : ReadError :=
  match scanFound s with
  | .ok found => .mismatch (.wrongType found expected)
  | .error e => e

end ExprLang.Json
