import ExprLang.Proofs.Number.Denotation
import Mathlib.Computability.Language
import Mathlib.Data.List.TakeWhile

/-!
# The grammar of stored values

Which texts stand for a value, said as languages of characters and without a reader. No language here has blanks at its ends: a
language that puts pieces together says where blanks may stand between them.

A value that is read may have brackets only so many deep, so the language of a value is a family, by the number of brackets that may
still be opened; `inside` takes one off. A value that is passed over (`Skippable`) is any JSON value, however deep.
-/

namespace ExprLang.Json

open Number
open scoped Computability

/-- Any number of blanks. -/
def blanks : Language Char := {s | ∀ c ∈ s, isBlank c}

/-- One text. -/
def word (s : List Char) : Language Char := {s}

/-! ### Strings -/

/-- The letters that follow a backslash, and the characters that they stand for. -/
def escapes : List (Char × Char) :=
  [('"', '"'), ('\\', '\\'), ('/', '/'), ('b', '\x08'), ('f', '\x0c'), ('n', '\n'), ('r', '\r'), ('t', '\t')]

/-- The digits to the base sixteen, in their order. -/
def lowerDigits : List Char := ['0', '1', '2', '3', '4', '5', '6', '7', '8', '9', 'a', 'b', 'c', 'd', 'e', 'f']

/-- The same digits with capital letters. -/
def upperDigits : List Char := ['0', '1', '2', '3', '4', '5', '6', '7', '8', '9', 'A', 'B', 'C', 'D', 'E', 'F']

/-- The character is a digit to the base sixteen, with this value. -/
def IsHexDigit (c : Char) (value : Nat) : Prop := lowerDigits[value]? = some c ∨ upperDigits[value]? = some c

/-- Four digits to the base sixteen that make a number. -/
inductive FourDigits : Nat → List Char → Prop
  | mk {c₃ c₂ c₁ c₀ : Char} {d₃ d₂ d₁ d₀ : Nat} (h₃ : IsHexDigit c₃ d₃) (h₂ : IsHexDigit c₂ d₂) (h₁ : IsHexDigit c₁ d₁)
      (h₀ : IsHexDigit c₀ d₀) : FourDigits (16 * (16 * (16 * d₃ + d₂) + d₁) + d₀) [c₃, c₂, c₁, c₀]

/-- The digits of the code of a number. -/
def fourDigits (n : Nat) : Language Char := {s | FourDigits n s}

/-- The code of a number. -/
def code (n : Nat) : Language Char := word ['\\'] * (word ['u'] * fourDigits n)

/-- A character that stands for itself in a string. -/
def IsPlain (c : Char) : Prop := c ≠ '"' ∧ c ≠ '\\' ∧ 0x20 ≤ c.toNat

/-- The spellings of a character in a string. -/
inductive SpellsCharacter (c : Char) : List Char → Prop
  /-- The character itself. -/
  | plain (h : IsPlain c) : SpellsCharacter c [c]
  /-- A backslash and a letter. -/
  | escape {letter : Char} (h : (letter, c) ∈ escapes) : SpellsCharacter c ['\\', letter]
  /-- Its code. -/
  | code {s : List Char} (h : s ∈ code c.toNat) : SpellsCharacter c s
  /-- The codes of a surrogate pair, for a character beyond the codes of four digits. -/
  | pair {high low : Nat} {s : List Char} (hh : 0xD800 ≤ high ∧ high < 0xDC00) (hl : 0xDC00 ≤ low ∧ low < 0xE000)
      (hc : c.toNat = 0x10000 + (high - 0xD800) * 0x400 + (low - 0xDC00)) (h : s ∈ Json.code high * Json.code low) :
      SpellsCharacter c s

/-- The spellings of a character in a string. -/
def character (c : Char) : Language Char := {s | SpellsCharacter c s}

/-- The spellings of a string, from after its first quote on. -/
def unquoted (s : List Char) : Language Char := (s.map character).prod * word ['"']

/-- The spellings of a string. -/
def quoted (s : String) : Language Char := word ['"'] * unquoted s.toList

/-- The pieces of a string that is passed over; its codes need not stand for characters. -/
inductive SkippedPiece : List Char → Prop
  | plain {c : Char} (h : IsPlain c) : SkippedPiece [c]
  | escape {letter c : Char} (h : (letter, c) ∈ escapes) : SkippedPiece ['\\', letter]
  | code {n : Nat} {s : List Char} (h : s ∈ code n) : SkippedPiece s

/-- The pieces of a string that is passed over. -/
def skippedPiece : Language Char := {s | SkippedPiece s}

/-- A string that is passed over, from after its first quote on. -/
def skippedUnquoted : Language Char := skippedPiece∗ * word ['"']

/-- A string that is passed over. -/
def skippedString : Language Char := word ['"'] * skippedUnquoted

/-! ### Words and numbers -/

/-- Nothing. -/
def null : Language Char := word ['n', 'u', 'l', 'l']

/-- The spelling of a truth value. -/
def boolean : Bool → Language Char
  | true => word ['t', 'r', 'u', 'e']
  | false => word ['f', 'a', 'l', 's', 'e']

/-- The spellings of a value that may be nothing. -/
def orNull {α : Type} (spellings : α → Nat → Language Char) : Option α → Nat → Language Char
  | none, _ => null
  | some a, n => spellings a n

/-- Texts of one digit or more, read as these digits. -/
def digits (ds : List Nat) : Language Char :=
  {s | s ≠ [] ∧ (∀ c ∈ s, c.isDigit) ∧ s.map (fun c => c.toNat - '0'.toNat) = ds}

/-- Digits before a point: a zero stands alone. -/
def wholeDigits (ds : List Nat) : Language Char := {s | s ∈ digits ds ∧ (s.head? = some '0' → s = ['0'])}

/-- A point and digits, if there are any. -/
def fraction : Option (List Nat) → Language Char
  | none => 1
  | some ds => word ['.'] * digits ds

/-- The spellings of an exponent after its letter. A zero may have either sign. -/
def power (e : Int) : Language Char :=
  {s | ∃ ds, (e = ofDigits ds ∧ s ∈ (1 + word ['+']) * digits ds) ∨ (e = -ofDigits ds ∧ s ∈ word ['-'] * digits ds)}

/-- An exponent, if there is one. -/
def exponent : Option Int → Language Char
  | none => 1
  | some e => (word ['e'] + word ['E']) * power e

/-- The spellings of a number literal after its sign. -/
def unsigned (l : Literal) : Language Char := wholeDigits l.whole * (fraction l.fraction * exponent l.exponent)

/-- The sign of a number. -/
def sign (negative : Bool) : Language Char := if negative then word ['-'] else 1

/-- The spellings of a number literal. -/
def literal (l : Literal) : Language Char := sign l.negative * unsigned l

/-- The spellings of an integer of 32 bits: its digits after its sign. There is no negative zero. -/
def integer (v : Int32) : Language Char :=
  {s | ∃ negative ds, s ∈ literal ⟨negative, ds, none, none⟩ ∧
    v.toInt = (if negative then -(ofDigits ds : Int) else ofDigits ds) ∧ (negative → ofDigits ds ≠ 0)}

/-- The spellings of a float of 32 bits: every number literal that is read as a number to which the float is nearest. -/
def float (x : Float32) : Language Char := {s | ∃ l q, s ∈ literal l ∧ l.ReadAs q ∧ IsNearest l.negative q x}

/-! ### Arrays and objects -/

/-- Further pieces, each after a comma. -/
def further (pieces : List (Language Char)) : Language Char :=
  (pieces.map fun piece => blanks * (word [','] * (blanks * piece))).prod

/-- Pieces with commas between them. -/
def separated : List (Language Char) → Language Char
  | [] => 1
  | piece :: pieces => blanks * (piece * further pieces)

/-- Pieces between two brackets. -/
def enclosed (left right : Char) (pieces : List (Language Char)) : Language Char :=
  word [left] * (separated pieces * (blanks * word [right]))

/-- An array of items. -/
def array (items : List (Language Char)) : Language Char := enclosed '[' ']' items

/-- A member of an object. -/
def member (name value : Language Char) : Language Char := name * (blanks * (word [':'] * (blanks * value)))

/-- An object of members. -/
def object (members : List (Language Char)) : Language Char := enclosed '{' '}' members

/-- Values that may be passed over: any JSON value. -/
inductive Skippable : List Char → Prop
  | null : Skippable ['n', 'u', 'l', 'l']
  | true : Skippable ['t', 'r', 'u', 'e']
  | false : Skippable ['f', 'a', 'l', 's', 'e']
  | number {l : Literal} {s : List Char} (h : s ∈ literal l) : Skippable s
  | string {s : List Char} (h : s ∈ skippedString) : Skippable s
  | array {items : List (List Char)} {s : List Char} (hi : ∀ t ∈ items, Skippable t) (h : s ∈ array (items.map word)) : Skippable s
  | object {members : List (List Char × List Char)} {s : List Char} (hn : ∀ m ∈ members, m.1 ∈ skippedString)
      (hv : ∀ m ∈ members, Skippable m.2) (h : s ∈ object (members.map fun m => member (word m.1) (word m.2))) : Skippable s

/-- The values that may be passed over. -/
def skippable : Language Char := {s | Skippable s}

/-! ### Records and variants -/

/-- A language inside one more bracket. -/
def inside (l : Nat → Language Char) : Nat → Language Char
  | 0 => 0
  | n + 1 => l n

/-- A field of a record. -/
structure Field where
  /-- The name. -/
  name : String
  /-- Whether the member may be left out of an object. -/
  mayMiss : Prop
  /-- The spellings of the value. -/
  value : Language Char

namespace Field

/-- A field that has to be there. -/
def required (name : String) (value : Language Char) : Field := ⟨name, False, value⟩

/-- The field as a member of an object. -/
def text (f : Field) : Language Char := member (Json.quoted f.name) f.value

end Field

/-- A member that is none of the known ones. -/
def IsUnknown (known : List String) (m : Language Char) : Prop := ∃ key, key ∉ known ∧ m = member (quoted key) skippable

/-- Members among which each of the fields stands once, in any order; some may be missing, and unknown ones may stand between them. -/
def Arranges (known : List String) (fields : List Field) (members : List (Language Char)) : Prop :=
  ∃ present missing others, fields.Perm (present ++ missing) ∧ (∀ f ∈ missing, f.mayMiss) ∧
    (∀ m ∈ others, IsUnknown known m) ∧ members.Perm (present.map Field.text ++ others)

/-- The objects in which the fields stand. -/
def arranged (fields : List Field) : Language Char :=
  {s | ∃ members, Arranges (fields.map Field.name) fields members ∧ s ∈ object members}

/-- The spellings of a record: an array of the values of all fields in their order, or an object. -/
def record (fields : Nat → List Field) : Nat → Language Char :=
  inside fun n => array ((fields n).map Field.value) + arranged (fields n)

/-- An object of one member. -/
def variant (name : String) (content : Nat → Language Char) : Nat → Language Char :=
  inside fun n => object [member (quoted name) (content n)]

/-! ### Texts that start with a word of a language -/

/-- A word of the language stands at the front of the text, before `rest`. -/
def Starts (l : Language Char) (s rest : List Char) : Prop := ∃ t ∈ l, t ++ rest = s

variable {l m : Language Char} {s t mid rest : List Char} {c d : Char}

@[simp] theorem mem_word {w : List Char} : s ∈ word w ↔ s = w := Iff.rfl

@[simp] theorem starts_word {w : List Char} : Starts (word w) s rest ↔ s = w ++ rest :=
  ⟨fun ⟨_, rfl, h⟩ => h.symm, fun h => ⟨w, rfl, h.symm⟩⟩

@[simp] theorem starts_one : Starts 1 s rest ↔ s = rest :=
  ⟨fun ⟨_, ht, h⟩ => by rw [Language.mem_one] at ht; rw [← h, ht, List.nil_append], fun h => ⟨[], rfl, h.symm⟩⟩

@[simp] theorem starts_zero : ¬ Starts 0 s rest := fun ⟨_, ht, _⟩ => Language.notMem_zero _ ht

/-- A product stands at the front when its factors stand there one after the other. -/
theorem starts_mul : Starts (l * m) s rest ↔ ∃ mid, Starts l s mid ∧ Starts m mid rest := by
  constructor
  · rintro ⟨_, ⟨a, ha, b, hb, rfl⟩, rfl⟩
    exact ⟨b ++ rest, ⟨a, ha, (List.append_assoc ..).symm⟩, b, hb, rfl⟩
  · rintro ⟨_, ⟨a, ha, rfl⟩, b, hb, rfl⟩
    exact ⟨a ++ b, Language.append_mem_mul ha hb, List.append_assoc ..⟩

/-- A sum stands at the front when one of its parts does. -/
theorem starts_add : Starts (l + m) s rest ↔ Starts l s rest ∨ Starts m s rest := by
  constructor
  · rintro ⟨t, ht | ht, h⟩
    · exact .inl ⟨t, ht, h⟩
    · exact .inr ⟨t, ht, h⟩
  · rintro (⟨t, ht, h⟩ | ⟨t, ht, h⟩)
    · exact ⟨t, .inl ht, h⟩
    · exact ⟨t, .inr ht, h⟩

/-- A single character in front is read off the text. -/
theorem starts_cons_mul : Starts (word [c] * l) s rest ↔ ∃ s', s = c :: s' ∧ Starts l s' rest := by
  simp only [starts_mul, starts_word, List.cons_append, List.nil_append]

/-- A string is a quote and what follows it. -/
theorem starts_quoted {text : String} : Starts (quoted text) s rest ↔ ∃ s', s = '"' :: s' ∧ Starts (unquoted text.toList) s' rest :=
  starts_cons_mul

/-- Words may be repeated before others. -/
theorem starts_kstar_mul : Starts (l∗ * m) s rest ↔ Starts m s rest ∨ ∃ mid, Starts l s mid ∧ Starts (l∗ * m) mid rest := by
  have unfolded : l∗ * m = m + l * (l∗ * m) := by
    rw [← mul_assoc, ← one_add_mul, Language.one_add_self_mul_kstar_eq_kstar]
  conv_lhs => rw [unfolded, starts_add, starts_mul]

theorem further_nil : further [] = 1 := rfl

/-- The first of several further pieces stands in front of the others. -/
theorem further_cons (piece : Language Char) (pieces : List (Language Char)) :
    further (piece :: pieces) = blanks * (word [','] * (blanks * piece)) * further pieces := by
  rw [further, List.map_cons, List.prod_cons, further]

/-- A piece and what stands before it: blanks, and a comma unless it is the first. -/
def piece (first : Bool) (l : Language Char) : Language Char := if first then blanks * l else blanks * (word [','] * (blanks * l))

/-- Pieces from the first one on, or further ones. -/
def pieces (first : Bool) : List (Language Char) → Language Char
  | [] => 1
  | l :: ls => piece first l * further ls

/-- Pieces from the first one on are those with commas between them. -/
theorem pieces_true (ls : List (Language Char)) : pieces true ls = separated ls := by
  cases ls with
  | nil => rfl
  | cons l ls => rw [pieces, piece, if_pos rfl, separated, mul_assoc]

/-- Pieces after the first one are the further pieces. -/
theorem pieces_false (ls : List (Language Char)) : pieces false ls = further ls := by
  cases ls with
  | nil => rfl
  | cons l ls => rw [pieces, piece, if_neg Bool.false_ne_true, further_cons]

/-- A value inside a bracket may have one level less than the bracket. -/
theorem starts_inside {f : Nat → Language Char} {n : Nat} : Starts (inside f n) s rest ↔ ∃ k, n = k + 1 ∧ Starts (f k) s rest := by
  cases n <;> simp [inside]

/-- Words before a rest are no longer than the whole. -/
theorem Starts.length_le (h : Starts l s rest) : rest.length ≤ s.length := by
  obtain ⟨t, -, rfl⟩ := h
  simp

/-! ### Texts without blanks -/

/-- No blank at all is a text of blanks. -/
theorem nil_mem_blanks : [] ∈ blanks := fun _ hc => absurd hc List.not_mem_nil

/-- A single piece between two brackets. -/
theorem mem_enclosed_singleton {left right : Char} (h : s ∈ l) : left :: (s ++ [right]) ∈ enclosed left right [l] :=
  have hpiece : s ∈ separated [l] := ⟨[], nil_mem_blanks, s, ⟨s, h, [], rfl, List.append_nil s⟩, rfl⟩
  ⟨[left], rfl, _, ⟨s, hpiece, [right], ⟨[], nil_mem_blanks, [right], rfl, rfl⟩, rfl⟩, rfl⟩

/-- A member whose parts stand side by side. -/
theorem mem_member {name value : Language Char} (hname : s ∈ name) (hvalue : t ∈ value) : s ++ ':' :: t ∈ member name value :=
  ⟨s, hname, _, ⟨[], nil_mem_blanks, _, ⟨[':'], rfl, t, ⟨[], nil_mem_blanks, t, hvalue, rfl⟩, rfl⟩, rfl⟩, rfl⟩

/-- Characters that are all digits are read as their values. -/
theorem mem_digits {ds : List Nat} (hne : s ≠ []) (hall : s.all Char.isDigit = true) (hds : s.map (fun c => c.toNat - '0'.toNat) = ds) :
    s ∈ digits ds := by
  refine ⟨hne, ?_, hds⟩
  exact List.all_eq_true.1 hall

/-- A number literal without a sign. -/
theorem mem_literal_positive {whole : List Nat} {f : Option (List Nat)} {e : Option Int} {u : List Char} (hs : s ∈ wholeDigits whole)
    (ht : t ∈ fraction f) (hu : u ∈ exponent e) : s ++ (t ++ u) ∈ literal ⟨false, whole, f, e⟩ :=
  ⟨[], rfl, _, ⟨s, hs, _, ⟨t, ht, u, hu, rfl⟩, rfl⟩, rfl⟩

/-- An exponent without a sign. -/
theorem mem_exponent_positive {ds : List Nat} (hs : s ∈ digits ds) : 'e' :: s ∈ exponent (some (ofDigits ds)) :=
  ⟨['e'], .inl rfl, s, ⟨ds, .inl ⟨rfl, [], .inl rfl, s, hs, rfl⟩⟩, rfl⟩

/-! ### Words that do not start with a blank -/

/-- Every word of the language starts with a character of a kind. -/
def Opens (p : Char → Prop) (l : Language Char) : Prop := ∀ s ∈ l, ∃ c t, s = c :: t ∧ p c

variable {p q : Char → Prop}

/-- A text that starts with a word of the language has a character that can open it. -/
theorem Opens.starts (h : Opens p l) (hs : Starts l s rest) : ∃ c t, s = c :: t ∧ p c := by
  obtain ⟨t, ht, rfl⟩ := hs
  obtain ⟨c, t, rfl, hc⟩ := h t ht
  exact ⟨c, t ++ rest, rfl, hc⟩

/-- No word of a language that is opened stands at the end of a text. -/
theorem Opens.not_starts_nil (h : Opens p l) : ¬ Starts l [] rest := by
  intro hs
  obtain ⟨_, _, ⟨⟩, -⟩ := h.starts hs

/-- A character that cannot open the language has none of its words after it. -/
theorem Opens.not_starts_cons (h : Opens p l) (hc : ¬ p c) : ¬ Starts l (c :: s) rest := by
  intro hs
  obtain ⟨_, _, ⟨⟩, hp⟩ := h.starts hs
  exact hc hp

/-- Words that are not empty shorten the text. -/
theorem Opens.length_lt (h : Opens p l) (hs : Starts l s rest) : rest.length < s.length := by
  obtain ⟨t, ht, rfl⟩ := hs
  obtain ⟨c, t, rfl, -⟩ := h t ht
  simp only [List.length_append, List.length_cons]
  omega

/-- More characters may be allowed to open a language. -/
theorem Opens.mono (h : Opens p l) (hpq : ∀ c, p c → q c) : Opens q l := fun s hs =>
  let ⟨c, t, hct, hc⟩ := h s hs
  ⟨c, t, hct, hpq c hc⟩

/-- A word is opened by its first character. -/
theorem opens_word {w : List Char} (hc : p c) : Opens p (word (c :: w)) := fun _ hs => ⟨c, w, hs, hc⟩

/-- The first factor opens a product. -/
theorem Opens.mul (h : Opens p l) : Opens p (l * m) := by
  rintro _ ⟨a, ha, b, -, rfl⟩
  obtain ⟨c, t, rfl, hc⟩ := h a ha
  exact ⟨c, t ++ b, rfl, hc⟩

theorem Opens.add (hl : Opens p l) (hm : Opens p m) : Opens p (l + m)
  | s, .inl h => hl s h
  | s, .inr h => hm s h

theorem opens_zero : Opens p 0 := fun s hs => absurd hs (Language.notMem_zero s)

/-- A bracket around a language does not change what opens it. -/
theorem opens_inside {f : Nat → Language Char} (h : ∀ n, Opens p (f n)) : ∀ n, Opens p (inside f n)
  | 0 => opens_zero
  | n + 1 => h n

/-- Pieces between brackets are opened by the left bracket. -/
theorem opens_enclosed {left right : Char} {pieces : List (Language Char)} (h : p left) : Opens p (enclosed left right pieces) :=
  (opens_word h).mul

theorem opens_quoted (text : String) : Opens (fun c => c = '"') (quoted text) := fun _ ⟨_, rfl, t, _, h⟩ => ⟨'"', t, h.symm, rfl⟩

theorem opens_variant (name : String) (content : Nat → Language Char) (n : Nat) : Opens (fun c => c = '{') (variant name content n) :=
  opens_inside (p := fun c => c = '{') (fun _ => opens_enclosed rfl) n

/-- A record is opened by the bracket of its array or by that of its object. -/
theorem opens_record {fields : Nat → List Field} (hb : p '[') (hc : p '{') : ∀ n, Opens p (record fields n) := by
  refine opens_inside fun n => Opens.add (opens_enclosed hb) ?_
  rintro t ⟨ms, -, ht⟩
  exact opens_enclosed hc t ht

/-- The character is no blank. -/
abbrev IsSolid (c : Char) : Prop := isBlank c = false

/-- The character may start an item or a member. -/
structure StartsPiece (c : Char) : Prop where
  solid : IsSolid c
  ne_bracket : c ≠ ']'
  ne_brace : c ≠ '}'

/-- No language of pieces is opened by a blank. -/
theorem Opens.solid (h : Opens StartsPiece l) : Opens IsSolid l := h.mono fun _ => StartsPiece.solid

/-- Nothing is dropped before a character that is no blank. -/
theorem skipBlanks_cons_of_solid (h : IsSolid c) : skipBlanks (c :: s) = c :: s := by
  rw [skipBlanks, List.dropWhile_cons_of_neg (by rw [h]; exact Bool.false_ne_true)]

/-- Blanks before a word that does not start with one are passed over. -/
theorem starts_blanks_mul (h : Opens IsSolid l) : Starts (blanks * l) s rest ↔ Starts l (skipBlanks s) rest := by
  rw [starts_mul]
  constructor
  · rintro ⟨mid, ⟨b, hb, rfl⟩, hl⟩
    obtain ⟨c, t, rfl, hc⟩ := h.starts hl
    rwa [skipBlanks, List.dropWhile_append_of_pos hb, ← skipBlanks, skipBlanks_cons_of_solid hc]
  · intro hl
    exact ⟨skipBlanks s, ⟨s.takeWhile isBlank, fun c hc => List.mem_takeWhile_imp hc, List.takeWhile_append_dropWhile⟩, hl⟩

/-- After blanks were dropped the next character is none. -/
theorem isSolid_of_skipBlanks (h : skipBlanks s = c :: t) : IsSolid c := by
  have := List.head?_dropWhile_not isBlank s
  rw [show s.dropWhile isBlank = c :: t from h] at this
  simpa using this

@[simp] theorem skipBlanks_skipBlanks (s : List Char) : skipBlanks (skipBlanks s) = skipBlanks s := by
  cases h : skipBlanks s with
  | nil => rfl
  | cons c t => exact skipBlanks_cons_of_solid (isSolid_of_skipBlanks h)

/-- Dropping blanks makes no text longer. -/
theorem length_skipBlanks_le (s : List Char) : (skipBlanks s).length ≤ s.length := (List.dropWhile_suffix _).length_le

/-- Only blanks are left. -/
theorem skipBlanks_eq_nil_iff : skipBlanks s = [] ↔ s ∈ blanks := List.dropWhile_eq_nil_iff

/-- A mark, perhaps after blanks. -/
theorem starts_blanks_mark (hc : IsSolid c) : Starts (blanks * (word [c] * l)) s rest ↔
    ∃ s', skipBlanks s = c :: s' ∧ Starts l s' rest := by
  rw [starts_blanks_mul (opens_word hc).mul, starts_cons_mul]

theorem starts_arranged {fields : List Field} : Starts (arranged fields) s rest ↔
    ∃ members, Arranges (fields.map Field.name) fields members ∧ Starts (object members) s rest :=
  ⟨fun ⟨t, ⟨ms, hms, ht⟩, h⟩ => ⟨ms, hms, t, ht, h⟩, fun ⟨ms, hms, t, ht, h⟩ => ⟨t, ⟨ms, hms, ht⟩, h⟩⟩

/-- A member is a name, a colon and a value, with blanks on both sides of the colon. -/
theorem starts_member (h : Opens IsSolid m) : Starts (member l m) s rest ↔
    ∃ s₁ s₂, Starts l s s₁ ∧ skipBlanks s₁ = ':' :: s₂ ∧ Starts m (skipBlanks s₂) rest := by
  rw [member, starts_mul]
  simp only [starts_blanks_mark (show IsSolid ':' from rfl), starts_blanks_mul h, exists_and_left]

/-- Pieces start with the first of them; all that come after it are further pieces. -/
theorem starts_pieces_cons {first : Bool} {ls : List (Language Char)} : Starts (pieces first (l :: ls) * m) s rest ↔
    ∃ mid, Starts (piece first l) s mid ∧ Starts (pieces false ls * m) mid rest := by
  rw [pieces, mul_assoc, starts_mul, pieces_false]

/-- A last mark, perhaps after blanks. -/
theorem starts_blanks_last (hc : IsSolid c) : Starts (blanks * word [c]) s rest ↔ skipBlanks s = c :: rest := by
  rw [starts_blanks_mul (opens_word hc), starts_word, List.singleton_append]

end ExprLang.Json
