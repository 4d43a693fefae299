import LinkedViews.Command.Execute

/-! The program: reads the files that the command line asks for, and prints what comes of it. -/
namespace LinkedViews

def readFile (path : String) : IO (Except FileFault Bytes) := do
  try
    return .ok (← IO.FS.readBinFile path).toList
  catch
    | .noFileOrDirectory .. => return .error .missing
    | _ => return .error .directory

/-- The exit code. -/
def runProgram (args : List String) : IO UInt32 := do
  let entries ← (Execution.paths args).mapM fun path => do return (path, ← readFile path)
  let e := Execution.run (.ofList entries) args
  for line in e.output do
    IO.println line
  for line in e.complaints do
    IO.eprintln line
  return e.code

end LinkedViews

def main (args : List String) : IO UInt32 := LinkedViews.runProgram args
