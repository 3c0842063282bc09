import TxEnvelope.Inspect.Run

/-! The inspection command. -/

set_option autoImplicit false

namespace TxEnvelope.Inspect

def readFailure : IO.Error → String
  | .noFileOrDirectory _ _ _ => noSuchFile
  | .inappropriateType _ _ _ => "Is a directory (os error 21)"
  | .permissionDenied _ _ _ => "Permission denied (os error 13)"
  | other => toString other

def readPath (path : String) : IO (Except String Bytes) :=
  try
    let content ← IO.FS.readBinFile path
    return .ok content.toList
  catch e => return .error (readFailure e)

end TxEnvelope.Inspect

open TxEnvelope

/-- Reads the source that the arguments name, runs the command and reports by exit code. -/
def main (arguments : List String) : IO UInt32 := do
  let environment : Inspect.Environment :=
    { path := ← IO.getEnv "ENVELOPE_JSON_PATH", hex := ← IO.getEnv "ENVELOPE_RAW" }
  let absent : Except String Bytes := .error Inspect.noSuchFile
  let readStdin : IO Bytes := do return (← (← IO.getStdin).readBinToEnd).toList
  let (stdin, content) ← match Inspect.plan arguments environment with
    | some (_, .stdin) => do pure (← readStdin, absent)
    | some (_, .file path) =>
      if path = Inspect.stdinPath then do pure (← readStdin, absent)
      else do pure ([], ← Inspect.readPath path)
    | _ => pure ([], absent)
  match Inspect.run arguments { environment, stdin, file := fun _ => content } with
  | .shown text =>
    IO.print text
    return 0
  | .failed failure =>
    IO.eprintln failure.message
    return 1
  | .misused =>
    IO.eprintln "usage: txenvelope [-v] (json [PATH] | raw [HEX])"
    return 2
