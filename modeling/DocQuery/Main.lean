import DocQuery.CommandLine.Session

/-!
# The program

A session in the real environment.
-/

namespace DocQuery

namespace CommandLine

/-- The system's words for a failure to read a file. -/
def failureText : IO.Error → String
  | .noFileOrDirectory .. => "No such file or directory (os error 2)"
  | .permissionDenied .. => "Permission denied (os error 13)"
  | .inappropriateType _ code details => details ++ " (os error " ++ toString code ++ ")"
  | .userError _ => "stream did not contain valid UTF-8"
  | e => toString e

/-- The environment of the running program. -/
def systemEnvironment : Environment IO where
  fileText path := do
    try
      return .ok (← IO.FS.readFile path)
    catch e => return .error (failureText e)
  fileExists path := do
    try
      let _ ← IO.FS.realPath path
      return true
    catch _ => return false
  readVariable name := IO.getEnv name
  standardInput := do (← IO.getStdin).readToEnd

end CommandLine

end DocQuery

def main (words : List String) : IO UInt32 := do
  let outcome ← DocQuery.CommandLine.session DocQuery.CommandLine.systemEnvironment words
  IO.print outcome.output
  IO.eprint outcome.errors
  return outcome.status.toUInt32
