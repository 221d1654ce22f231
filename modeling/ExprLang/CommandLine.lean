import ExprLang.Evaluation.Evaluate
import ExprLang.Expression.Display
import ExprLang.Expression.Document
import ExprLang.FileTree
import ExprLang.Lowering.Lower
import ExprLang.Program

/-!
# The command line

Arguments say what to do with a program file: run it, write its code, or show it. Flags may stand anywhere among the arguments.
`Request.ofArguments` reads the arguments, and `Request.perform` does what they ask for, with whatever gives access to files, and
reports what is to be printed.
-/

namespace ExprLang

/-- Arguments without flags, and what the flags said. -/
structure Arguments where
  /-- Whether numbers in code are signed. -/
  mode : Signedness
  /-- The file that code is written to, if one is named. -/
  output : Option String
  /-- The other arguments in their order. -/
  positional : List String
deriving DecidableEq, Repr

namespace Arguments

/-- The flag that asks for a log. -/
def verboseFlag : String := "--verbose"

/-- The flag that asks for signed numbers. -/
def signedFlag : String := "--signed"

/-- Whether an argument announces the file to write to. -/
def announcesOutput (argument : String) : Bool := argument = "-o" || argument = "--output"

/-- Takes out the announcements of a file to write to, each with the file after it; the last one counts. Nothing is left if a file
is announced and not named. -/
def takeOutput (output : Option String) : List String → Option (Option String × List String)
  | [] => some (output, [])
  | argument :: rest =>
    if announcesOutput argument then
      match rest with
      | [] => none
      | file :: rest => takeOutput (some file) rest
    else (takeOutput output rest).map fun (output, positional) => (output, argument :: positional)

/-- Reads the flags out of the arguments, or nothing if a file is announced and not named. -/
def ofList (arguments : List String) : Option Arguments :=
  let unflagged := arguments.filter fun a => a ≠ verboseFlag ∧ a ≠ signedFlag
  (takeOutput none unflagged).map fun (output, positional) =>
    ⟨if signedFlag ∈ arguments then .signed else .unsigned, output, positional⟩

end Arguments

/-- What is asked for. -/
inductive Request where
  /-- To be told how a command is used. -/
  | usage (text : String)
  /-- To be told about all commands. -/
  | help
  /-- To run a program. -/
  | run (path : String)
  /-- To write the code of a program to a file, or to print it. -/
  | emit (path : String) (mode : Signedness) (output : Option String)
  /-- To show a program. -/
  | dump (path : String)
  /-- A command that there is not. -/
  | unknown (command : String)
deriving DecidableEq, Repr

/-- What a command leaves: an exit code, and texts for the output and for messages. -/
structure Report where
  /-- The exit code. -/
  code : Nat
  /-- The text for the output. -/
  stdout : String
  /-- The text for messages. -/
  stderr : String
deriving DecidableEq, Repr

namespace Report

/-- Success with this output. -/
def success (stdout : String) : Report := ⟨0, stdout, ""⟩

/-- Failure with this message. -/
def failure (message : String) : Report := ⟨1, "", message ++ "\n"⟩

end Report

/-- Access to files in a monad `m`. -/
structure FileAccess (m : Type → Type) where
  /-- The bytes of a file, if it can be read. -/
  read : (path : String) → m (Option ByteArray)
  /-- Writes a file; if that fails, gives the reason. -/
  write : (path text : String) → m (Option String)

namespace FileAccess

/-- Access to the files of a tree in memory. -/
def inMemory : FileAccess (StateM FileTree) where
  read path := do return ((← get).read path).toOption
  write path text := do
    match (← get).write path text.toUTF8 with
    | .ok t => set t; return none
    | .error e => return some e.message

end FileAccess

namespace Request

/-- The text about all commands. -/
def helpText : String :=
  "Quill CLI\n\n" ++
  "Usage:\n" ++
  "  quill <program.json>\n" ++
  "  quill run <program.json>\n" ++
  "  quill emit <program.json> [-o <file.ll>]\n" ++
  "  quill dump <program.json>\n\n" ++
  "Flags:\n" ++
  "  --verbose          Log interpreter and code generator activity\n" ++
  "  --signed           Use ashr/sdiv instead of lshr/udiv in emitted code\n" ++
  "  -o <file>          Write the emitted module to a file instead of stdout\n" ++
  "  -h, --help         Show this help message\n\n" ++
  "Environment:\n" ++
  "  QUILL_LOG          Log filter (default: warn), e.g. QUILL_LOG=quill=trace\n\n"

/-- What arguments without flags ask for. -/
def ofPositional (arguments : Arguments) : Request :=
  match arguments.positional with
  | [] => help
  | command :: rest =>
    if command.endsWith ".json" then run command
    else
      match command, rest with
      | "-h", _ | "--help", _ | "help", _ => help
      | "run", [] => usage "Usage: quill run <program.json>"
      | "run", path :: _ => run path
      | "emit", [] => usage "Usage: quill emit <program.json> [-o <file.ll>] [--signed]"
      | "emit", path :: _ => emit path arguments.mode arguments.output
      | "dump", [] => usage "Usage: quill dump <program.json>"
      | "dump", path :: _ => dump path
      | command, _ => unknown command

/-- What arguments ask for. -/
def ofArguments (arguments : List String) : Request :=
  match Arguments.ofList arguments with
  | some arguments => ofPositional arguments
  | none => usage "Usage: quill emit <program.json> -o <file.ll>"

/-- The report of running a program for at most so many steps. -/
def runReport (steps : Nat) (program : Expression) : Report :=
  match ExprLang.run .onExit steps program (Interpreter.fresh #[] none) with
  | .ok value m => .success (m.output.text ++ value.text ++ "\n")
  | .error interrupt m => ⟨1, m.output.text, "Runtime error: " ++ reason interrupt ++ "\n"⟩
where
  /-- Why a run ended early. -/
  reason : Interrupt → String
    | .failed e => e.message
    | .returned _ => EvalError.returnOutsideFunction.message
    | .exhausted => "too many steps"

/-- The report of showing a program. -/
def dumpReport (program : Expression) : Report := .success (program.display ++ "\n" ++ program.stored ++ "\n")

/-- Does what is asked for; a program runs for at most so many steps. -/
def perform {m : Type → Type} [Monad m] (access : FileAccess m) (steps : Nat) : Request → m Report
  | usage text => return ⟨0, "", text ++ "\n"⟩
  | help => return .success helpText
  | unknown command => return ⟨2, helpText, "Error: unknown command `" ++ command ++ "`\n"⟩
  | run path => withProgram path fun program => return runReport steps program
  | dump path => withProgram path fun program => return dumpReport program
  | emit path mode output => withProgram path fun program => do
    match program.compile? mode, output with
    | .error e, _ => return .failure ("Codegen error: " ++ e.message)
    | .ok code, none => return .success code.text
    | .ok code, some file =>
      match ← access.write file code.text with
      | none => return .success ""
      | some reason => return .failure ("Error: failed to write " ++ file ++ ": " ++ reason)
where
  /-- Goes on with the program in a file, if there is one. -/
  withProgram (path : String) (go : Expression → m Report) : m Report := do
    match Expression.loadFile path (← access.read path) with
    | .ok program => go program
    | .error e => return .failure ("Error: " ++ e.message)

end Request

end ExprLang
