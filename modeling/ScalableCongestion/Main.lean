import ScalableCongestion.CommandLine.Outcome

/-! The command line: reads the files that an invocation names, prints the lines
of its outcome, and reports a failure on the error stream. -/
namespace ScalableCongestion.CommandLine

def splitVariable? (text : List Char) : Option (String × String) :=
  match text.dropWhile (· != '=') with
  | _ :: value => some (String.ofList (text.takeWhile (· != '=')), String.ofList value)
  | [] => none

def environmentFile : String := "/proc/self/environ"

/-- The variables with the names of settings, for systems without such a file. -/
def settingVariables : IO (List (String × String)) :=
  Settings.fieldNames.filterMapM fun field => do
    let name := "PRAGUE_" ++ field.map Char.toUpper
    return (← IO.getEnv name).map (name, ·)

def readEnvironment : IO (List (String × String)) := do
  try
    let text ← IO.FS.readFile environmentFile
    return (text.toList.splitBy fun c _ => c != '\x00').filterMap fun part =>
      splitVariable? (part.filter (· != '\x00'))
  catch _ => settingVariables

def readFiles (paths : List String) : IO (List (String × String)) :=
  paths.filterMapM fun (path : String) => do
    try
      let text ← IO.FS.readFile path
      return some (path, text)
    catch _ => return none

def report (fault : CommandFault) : IO Unit := do
  let stderr ← IO.getStderr
  stderr.putStrLn fault.message
  for cause in fault.cause? do
    stderr.putStrLn cause

def manual : Manual → List String
  | .version => ["prague-replay 0.2.0"]
  | .program =>
    ["Usage: prague-replay [-l LEVEL] [-c SETTINGS] COMMAND", "Commands: encode, decode, replay"]
  | .command "encode" => ["Usage: prague-replay encode CE_BYTES"]
  | .command "decode" => ["Usage: prague-replay decode HEX"]
  | .command "replay" => ["Usage: prague-replay replay SCENARIO"]
  | .command _ => ["Usage: prague-replay help [COMMAND]"]

/-- The files that a request may need; settings are in JSON here. -/
def filesFor (request : Option Request) : IO Settings.Files := do
  let texts ← match request with
    | some (.run i) => readFiles (i.paths [Settings.json])
    | _ => pure []
  return ⟨(List.lookup · texts), []⟩

def runWith (args : List String) : IO UInt32 := do
  let files ← filesFor (Invocation.parse? args)
  let environment ← readEnvironment
  let outcome := Invocation.runArguments ⟨files, environment, manual⟩ args
  for line in outcome.lines do
    IO.println line
  for fault in outcome.fault do
    report fault
  return outcome.exitCode.toUInt32

end ScalableCongestion.CommandLine

def main (args : List String) : IO UInt32 := ScalableCongestion.CommandLine.runWith args
