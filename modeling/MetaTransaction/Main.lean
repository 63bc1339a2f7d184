import MetaTransaction.CommandLine.Run
import MetaTransaction.Json.Printer

/-!
# The program

Gathers the files and the variables that a command looks up, runs it, and shows what it leaves
behind. Requests to a node need a transport, which is not part of this library: nobody answers them
here.
-/

namespace MetaTransaction.CommandLine

/-- What stands at a path. -/
def readEntry (path : String) : IO FileEntry := do
  try
    return .file (← IO.FS.readBinFile path).toList
  catch
    | .noFileOrDirectory .. => return .missing
    | _ => return .directory

/-- The variables of these names that are set. -/
def readEnvironment (names : List String) : IO Environment := do
  let values ← names.mapM fun name => do return (← IO.getEnv name).map (name, ·)
  return { bindings := values.filterMap id }

/-- The line that shows an entry. -/
def LogEntry.line (json : Bool) (e : LogEntry) : String :=
  if json then
    (Json.record
      [("level", .string e.level.name), ("fields", .record [("message", .string e.message)]),
        ("target", .string e.source.name)]).compact
  else s!"{e.level.name} {e.source.name}: {e.message}"

/-- Shows what a run left behind. -/
def Report.show (r : Report) : IO Unit := do
  for entry in r.log do
    IO.eprintln (entry.line r.jsonLog)
  IO.print r.output
  for error in r.errors do
    IO.eprintln s!"Error: {error}"

/-- How the program is called. -/
def usage : String :=
  "Usage: metatx [-c FILE] [--log-level LEVEL] [--json-logs] COMMAND\n\n" ++
    "  id --bundle FILE\n" ++
    "  wait ID [--timeout-secs N]\n" ++
    "  nonce --wallet ADDRESS [--space N]\n" ++
    "  relay --signed FILE [--wait] [--timeout-secs N]\n" ++
    "  validate"

/-- Runs the invocation with what it looks up. -/
def Invocation.start (i : Invocation) (arguments : List String) : IO Report := do
  let entries ← i.paths.mapM fun path => do return (path, ← readEntry path)
  let files : FileSystem := fun path => (entries.lookup path).getD .missing
  let text := (files i.configuration).text?.getD ""
  let environment ← readEnvironment
    (Invocation.logLevelVariable :: Configuration.lookedUp Configuration.defaultPrefix text)
  return CommandLine.run { files, environment, node := Node.unreachable, state := () } arguments

end MetaTransaction.CommandLine

open MetaTransaction.CommandLine in
/-- Runs the program and leaves with its exit code. -/
def main (arguments : List String) : IO UInt32 := do
  match Invocation.read (← readEnvironment [Invocation.logLevelVariable]) arguments with
  | .error refusal =>
    IO.eprintln usage
    return refusal.report.exit.toUInt32
  | .ok invocation =>
    let report ← invocation.start arguments
    report.show
    return report.exit.toUInt32
