import TypedFlow.CommandLine.Run

/-!
# The program

Reads the files that the command asks for and writes what it answers. The exit code is 1 for a
failure and 2 for arguments that make no sense.
-/
open TypedFlow CommandLine

/-- Why a file could not be read. -/
def readingFailure : IO.Error → String
  | .noFileOrDirectory _ code details | .permissionDenied _ code details =>
    details ++ " (os error " ++ toString code ++ ")"
  | e => toString e

def readAll : List String → IO (List (String × Except String String))
  | [] => return []
  | path :: paths => do
    let text ← try Except.ok <$> IO.FS.readFile path
      catch e => pure (Except.error (readingFailure e))
    return (path, text) :: (← readAll paths)

def main (args : List String) : IO UInt32 := do
  match Options.ofArguments? args with
  | none => return 2
  | some o =>
    let texts ← readAll ([o.kinds, o.pipeline] ++ o.definitions.toList ++ o.config.toList)
    let files (path : String) : Except String String :=
      (Entries.get? texts path).getD (.error "not read")
    match run files o with
    | .ok text =>
      IO.print text
      return 0
    | .error e =>
      IO.eprint e.notice
      return 1
