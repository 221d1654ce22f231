import ExprLang.CommandLine
import Mathlib.Data.List.Induction

/-!
# Flags may stand anywhere

A command line is a list of entries: arguments that mean themselves, flags, and files to write to, each announced, where flags may
stand even between the announcement and the file (`Entry`). Every list of arguments is the line of such entries, or such a line with an
announcement behind it that no file follows (`line_cases`). In the first case reading the arguments gives what the entries say, in the
second nothing is done.
-/

namespace ExprLang

namespace Arguments

/-- A flag that stands alone. -/
inductive Flag where
  /-- A log is asked for. -/
  | verbose
  /-- Numbers are to be signed. -/
  | signed
deriving DecidableEq

/-- How a flag is written. -/
def Flag.text : Flag → String
  | .verbose => verboseFlag
  | .signed => signedFlag

/-- The argument is a flag. -/
def IsFlag (argument : String) : Prop := ∃ flag : Flag, argument = flag.text

/-- A word that announces a file to write to. -/
inductive Announcement where
  /-- The short word. -/
  | short
  /-- The long word. -/
  | long
deriving DecidableEq

/-- How an announcement is written. -/
def Announcement.text : Announcement → String
  | .short => "-o"
  | .long => "--output"

/-- What a command line consists of. -/
inductive Entry where
  /-- An argument that is neither a flag nor an announcement. -/
  | plain (argument : String) (unflagged : ¬IsFlag argument) (unannounced : ∀ a : Announcement, argument ≠ a.text)
  /-- A flag. -/
  | flag (flag : Flag)
  /-- A file to write to, announced, perhaps with flags in between. It may have any name but that of a flag. -/
  | output (announcement : Announcement) (between : List Flag) (file : String) (unflagged : ¬IsFlag file)

namespace Entry

/-- The arguments of an entry. -/
def arguments : Entry → List String
  | plain argument _ _ => [argument]
  | flag f => [f.text]
  | output announcement between file _ => announcement.text :: (between.map Flag.text ++ [file])

/-- The argument that means itself. -/
def plain? : Entry → Option String
  | plain argument _ _ => some argument
  | _ => none

/-- The flags. -/
def flags : Entry → List Flag
  | plain _ _ _ => []
  | flag f => [f]
  | output _ between _ _ => between

/-- The file to write to. -/
def file? : Entry → Option String
  | output _ _ file _ => some file
  | _ => none

end Entry

/-- The arguments of entries. -/
def line (entries : List Entry) : List String := entries.flatMap Entry.arguments

/-- The arguments of entries with an announcement behind them that no file follows, though flags may. -/
def unnamedLine (entries : List Entry) (a : Announcement) (flags : List Flag) : List String :=
  line entries ++ a.text :: flags.map Flag.text

/-- What entries say: the last file counts. -/
def ofEntries (entries : List Entry) : Arguments where
  mode := if Flag.signed ∈ entries.flatMap Entry.flags then .signed else .unsigned
  output := (entries.filterMap Entry.file?).getLast?
  positional := entries.filterMap Entry.plain?

/-! ## Single arguments -/

/-- There are two flags. -/
theorem isFlag_iff {argument : String} : IsFlag argument ↔ argument = verboseFlag ∨ argument = signedFlag := by
  constructor
  · rintro ⟨_ | _, rfl⟩
    · exact .inl rfl
    · exact .inr rfl
  · rintro (rfl | rfl)
    · exact ⟨.verbose, rfl⟩
    · exact ⟨.signed, rfl⟩

/-- An argument announces a file if it is one of the two announcements. -/
theorem announcesOutput_iff {argument : String} : announcesOutput argument = true ↔ ∃ a : Announcement, argument = a.text := by
  rw [announcesOutput, Bool.or_eq_true, decide_eq_true_iff, decide_eq_true_iff]
  constructor
  · rintro (rfl | rfl)
    · exact ⟨.short, rfl⟩
    · exact ⟨.long, rfl⟩
  · rintro ⟨_ | _, rfl⟩
    · exact .inl rfl
    · exact .inr rfl

/-- No announcement is a flag. -/
theorem Announcement.not_isFlag (a : Announcement) : ¬IsFlag a.text := by
  rw [isFlag_iff]
  cases a <;> decide

theorem text_eq_signedFlag_iff {flag : Flag} : flag.text = signedFlag ↔ flag = .signed := by
  cases flag <;> decide

/-! ## Arguments that are no flags -/

/-- The arguments that are no flags. -/
def unflagged (arguments : List String) : List String := arguments.filter fun a => a ≠ verboseFlag ∧ a ≠ signedFlag

/-- The flag for signed numbers is looked for anywhere, and the other arguments are read without flags. -/
theorem ofList_eq (arguments : List String) : ofList arguments = (takeOutput none (unflagged arguments)).map fun taken =>
    ⟨if signedFlag ∈ arguments then .signed else .unsigned, taken.1, taken.2⟩ := rfl

@[simp] theorem unflagged_append (arguments others : List String) :
    unflagged (arguments ++ others) = unflagged arguments ++ unflagged others := List.filter_append ..

/-- A flag is left out. -/
theorem unflagged_cons_of_isFlag {argument : String} (h : IsFlag argument) (rest : List String) :
    unflagged (argument :: rest) = unflagged rest := by
  rcases isFlag_iff.1 h with rfl | rfl <;> simp [unflagged]

/-- What is no flag stays. -/
theorem unflagged_cons_of_not_isFlag {argument : String} (h : ¬IsFlag argument) (rest : List String) :
    unflagged (argument :: rest) = argument :: unflagged rest := by
  rw [isFlag_iff, not_or] at h
  exact List.filter_cons_of_pos (decide_eq_true h)

@[simp] theorem unflagged_map_text (flags : List Flag) : unflagged (flags.map Flag.text) = [] := by
  induction flags with
  | nil => rfl
  | cons f rest ih => rw [List.map_cons, unflagged_cons_of_isFlag ⟨f, rfl⟩, ih]

/-- The arguments of an entry that are no flags. -/
theorem unflagged_arguments (e : Entry) : unflagged e.arguments =
    match e with
    | .plain argument _ _ => [argument]
    | .flag _ => []
    | .output announcement _ file _ => [announcement.text, file] := by
  cases e with
  | plain argument unflagged _ => exact unflagged_cons_of_not_isFlag unflagged []
  | flag f => exact unflagged_cons_of_isFlag ⟨f, rfl⟩ []
  | output announcement between file unflagged =>
    rw [Entry.arguments, unflagged_cons_of_not_isFlag announcement.not_isFlag, unflagged_append, unflagged_map_text, List.nil_append,
      unflagged_cons_of_not_isFlag unflagged]
    rfl

/-! ## Announced files -/

/-- An argument that announces nothing is handed on. -/
theorem takeOutput_plain {argument : String} (h : ∀ a : Announcement, argument ≠ a.text) (output : Option String)
    (rest : List String) :
    takeOutput output (argument :: rest) = (takeOutput output rest).map fun taken => (taken.1, argument :: taken.2) := by
  have hnot : announcesOutput argument ≠ true := fun hannounced => (announcesOutput_iff.1 hannounced).elim h
  conv => lhs; unfold takeOutput
  exact if_neg hnot

/-- An announced file takes the place of any file announced before. -/
theorem takeOutput_announced (a : Announcement) (file : String) (output : Option String) (rest : List String) :
    takeOutput output (a.text :: file :: rest) = takeOutput (some file) rest := by
  conv => lhs; unfold takeOutput
  exact if_pos (announcesOutput_iff.2 ⟨a, rfl⟩)

/-- An announcement without a file ends the reading. -/
theorem takeOutput_unnamed (a : Announcement) (output : Option String) : takeOutput output [a.text] = none := by
  unfold takeOutput
  exact if_pos (announcesOutput_iff.2 ⟨a, rfl⟩)

/-- The announced files are taken out one after the other, and what stands behind the entries is read afterwards. -/
theorem takeOutput_line (entries : List Entry) (output : Option String) (rest : List String) :
    takeOutput output (unflagged (line entries) ++ rest) =
      (takeOutput ((entries.filterMap Entry.file?).getLast?.or output) rest).map fun taken =>
        (taken.1, entries.filterMap Entry.plain? ++ taken.2) := by
  induction entries generalizing output with
  | nil => simp [line, unflagged]
  | cons e entries ih =>
    rw [line, List.flatMap_cons, unflagged_append, unflagged_arguments, List.append_assoc]
    cases e with
    | plain argument _ unannounced =>
      rw [List.singleton_append, takeOutput_plain unannounced, ← line, ih, Option.map_map]
      rfl
    | flag f => exact ih output
    | output announcement between file unflagged =>
      rw [List.cons_append, List.singleton_append, takeOutput_announced, ← line, ih]
      -- the file counts if no later one is named
      have hlast : ((Entry.output announcement between file unflagged :: entries).filterMap Entry.file?).getLast?.or output =
          (entries.filterMap Entry.file?).getLast?.or (some file) := by
        rw [List.filterMap_cons_some (f := Entry.file?) rfl, List.getLast?_cons]
        cases (entries.filterMap Entry.file?).getLast? <;> rfl
      rw [hlast]
      rfl

/-! ## Whole lines -/

theorem signedFlag_mem_map_text_iff (flags : List Flag) : signedFlag ∈ flags.map Flag.text ↔ Flag.signed ∈ flags := by
  rw [List.mem_map]
  constructor
  · rintro ⟨flag, hflag, htext⟩
    rwa [← text_eq_signedFlag_iff.1 htext]
  · exact fun h => ⟨.signed, h, rfl⟩

/-- An argument that is no flag is not the one for signed numbers. -/
theorem signedFlag_ne_of_not_isFlag {argument : String} (h : ¬IsFlag argument) : signedFlag ≠ argument := by
  rintro rfl
  exact h ⟨.signed, rfl⟩

/-- The flag for signed numbers is an argument exactly if it is one of the flags. -/
theorem signedFlag_mem_line_iff (entries : List Entry) : signedFlag ∈ line entries ↔ Flag.signed ∈ entries.flatMap Entry.flags := by
  rw [line, List.mem_flatMap, List.mem_flatMap]
  refine exists_congr fun e => and_congr_right fun _ => ?_
  cases e with
  | plain argument unflagged _ => simp [Entry.arguments, Entry.flags, signedFlag_ne_of_not_isFlag unflagged]
  | flag f => exact signedFlag_mem_map_text_iff [f]
  | output announcement between file unflagged =>
    simp only [Entry.arguments, Entry.flags, List.mem_cons, List.mem_append, signedFlag_mem_map_text_iff, List.not_mem_nil, or_false,
      signedFlag_ne_of_not_isFlag unflagged, signedFlag_ne_of_not_isFlag announcement.not_isFlag, false_or]

/-- Reading a line gives what its entries say. -/
theorem ofList_line (entries : List Entry) : ofList (line entries) = some (ofEntries entries) := by
  have htake := takeOutput_line entries none []
  rw [List.append_nil, takeOutput, Option.map_some, List.append_nil, Option.or_none] at htake
  rw [ofList_eq, htake, Option.map_some]
  simp only [signedFlag_mem_line_iff]
  rfl

/-- A file that is announced at the end of a line has to be named. -/
theorem ofList_unnamedLine (entries : List Entry) (a : Announcement) (flags : List Flag) :
    ofList (unnamedLine entries a flags) = none := by
  rw [unnamedLine, ofList_eq, unflagged_append, unflagged_cons_of_not_isFlag a.not_isFlag, unflagged_map_text, takeOutput_line,
    takeOutput_unnamed]
  rfl

/-- One more entry stands behind the others. -/
theorem line_concat (entries : List Entry) (e : Entry) : line (entries ++ [e]) = line entries ++ e.arguments := by
  simp [line]

/-- Arguments are the line of some entries, or such a line with an announcement behind it. -/
theorem line_cases (arguments : List String) :
    (∃ entries, arguments = line entries) ∨ ∃ entries a flags, arguments = unnamedLine entries a flags := by
  induction arguments using List.reverseRecOn with
  | nil => exact .inl ⟨[], rfl⟩
  | append_singleton before argument ih =>
    -- an announcement waits for the next argument that is no flag
    rcases ih with ⟨entries, rfl⟩ | ⟨entries, a, flags, rfl⟩
    · by_cases hflag : IsFlag argument
      · obtain ⟨f, rfl⟩ := hflag
        have hline := line_concat entries (.flag f)
        exact .inl ⟨_, hline.symm⟩
      · by_cases hannounced : ∃ a : Announcement, argument = a.text
        · obtain ⟨a, rfl⟩ := hannounced
          exact .inr ⟨entries, a, [], rfl⟩
        · have hline := line_concat entries (.plain argument hflag (not_exists.1 hannounced))
          exact .inl ⟨_, hline.symm⟩
    · by_cases hflag : IsFlag argument
      · obtain ⟨f, rfl⟩ := hflag
        exact .inr ⟨entries, a, flags ++ [f], by simp [unnamedLine]⟩
      · refine .inl ⟨entries ++ [.output a flags argument hflag], ?_⟩
        rw [line_concat, Entry.arguments, unnamedLine, List.append_assoc, List.cons_append]

/-- Flags may stand anywhere. Arguments that are the line of some entries are read as these entries say: what is neither a flag nor an
announcement nor an announced file stays in its order, numbers are signed exactly if the flag for it is among the flags, wherever it
stands, and the file to write to is the last one that is announced. Arguments that end in an announcement without a file, perhaps with
flags behind it, are not read, and asked for them the program reads and writes nothing and runs nothing: it says how it is used.
There are no other arguments. -/
theorem flags_stand_anywhere :
    (∀ entries, ofList (line entries) = some (ofEntries entries)) ∧
    (∀ entries a flags, ofList (unnamedLine entries a flags) = none ∧
      ∀ {m : Type → Type} [Monad m] (access : FileAccess m) (steps : Nat),
        (Request.ofArguments (unnamedLine entries a flags)).perform access steps =
          pure ⟨0, "", "Usage: quill emit <program.json> -o <file.ll>\n"⟩) ∧
    ∀ arguments, (∃ entries, arguments = line entries) ∨ ∃ entries a flags, arguments = unnamedLine entries a flags := by
  refine ⟨ofList_line, fun entries a flags => ⟨ofList_unnamedLine entries a flags, ?_⟩, line_cases⟩
  intro m _ access steps
  rw [Request.ofArguments, ofList_unnamedLine]
  rfl

/-- A file may be called like an announcement, and the flag behind its announcement is still a flag. -/
example : ofList ["emit", "-o", "--signed", "-o", "p.json"] = some ⟨.signed, some "-o", ["emit", "p.json"]⟩ := by decide

end Arguments

end ExprLang
