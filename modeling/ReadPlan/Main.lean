import ReadPlan.CommandLine.Run

namespace ReadPlan.CommandLine

def machineFile (path : String) : IO FileContent := do
  try
    return .text (← IO.FS.readFile path)
  catch
    | .noFileOrDirectory _ _ reason => return .absent reason
    | e => return .unreadable (toString e)

def machine : Host IO where
  file := machineFile
  lookup := fun name => IO.getEnv name

end ReadPlan.CommandLine

def main (args : List String) : IO UInt32 := do
  let outcome ← ReadPlan.CommandLine.run ReadPlan.CommandLine.machine args
  (← IO.getStdout).putStr outcome.output
  (← IO.getStderr).putStr outcome.errors
  return outcome.code.toUInt32
