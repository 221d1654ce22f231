import ExprLang.CommandLine

/-!
# The program

Does what the arguments ask for with the files of the system.
-/

namespace ExprLang

/-- The reason for a failure as the system words it. -/
def systemReason : IO.Error → String
  | .noFileOrDirectory _ code reason | .invalidArgument _ code reason | .permissionDenied _ code reason
  | .resourceExhausted _ code reason | .inappropriateType _ code reason | .noSuchThing _ code reason
  | .otherError code reason => reason ++ " (os error " ++ toString code ++ ")"
  | e => toString e

/-- Access to the files of the system. -/
def FileAccess.ofSystem : FileAccess IO where
  read path := do
    try return some (← IO.FS.readBinFile path)
    catch _ => return none
  write path text := do
    try
      IO.FS.withFile path .write fun file => do
        file.putStr text
        file.flush
      return none
    catch e => return some (systemReason e)

/-- More steps than any run takes. -/
def unlimitedSteps : Nat := Nat.pow 10 18

end ExprLang

/-- Does what the arguments ask for and gives the exit code. -/
def main (arguments : List String) : IO UInt32 := do
  let request := ExprLang.Request.ofArguments arguments
  let report ← request.perform ExprLang.FileAccess.ofSystem ExprLang.unlimitedSteps
  IO.print report.stdout
  IO.eprint report.stderr
  return report.code.toUInt32
