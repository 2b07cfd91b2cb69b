import GridFit.Report

/-!
# The command

Prints the hinted outlines of the glyphs of a text.
-/

namespace GridFit

def readFailure (name : String) (e : IO.Error) : String :=
  match e with
  | .noFileOrDirectory .. => s!"open {name}: no such file or directory"
  | .permissionDenied .. => s!"open {name}: permission denied"
  | e => s!"open {name}: {e.toString}"

/-- The bytes of a file, or why it cannot be read. -/
def readFont (name : String) : IO (Except String Bytes) := do
  try
    return .ok (← IO.FS.readBinFile name).data
  catch e =>
    return .error (readFailure name e)

end GridFit

open GridFit in
def main (args : List String) : IO UInt32 := do
  match Settings.ofArgs args with
  | .error refusal => return refusal.exitCode
  | .ok settings =>
    let report := Report.ofSettings settings (← readFont settings.font)
    (← IO.getStdout).putStr report.output
    return report.exitCode
