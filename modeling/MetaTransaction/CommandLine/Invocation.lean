import MetaTransaction.Address
import MetaTransaction.CommandLine.Arguments
import MetaTransaction.Decimal
import MetaTransaction.Environment
import MetaTransaction.Numeral

/-!
# Invocations

The commands of the program with their typed arguments, and the options that stand before them.
-/

namespace MetaTransaction.CommandLine

/-- A command. -/
inductive Command
  /-- prints the identifier of the bundle in a file -/
  | identify (bundle : String)
  /-- waits for an outcome, for so many seconds or as long as configured -/
  | wait (id : String) (timeout : Option UInt64)
  /-- prints the nonce of a wallet -/
  | nonce (wallet : Address) (space : BitVec 160)
  /-- relays the signed bundle in a file, and waits for its outcome if asked to -/
  | relay (signed : String) (awaits : Bool) (timeout : Option UInt64)
  /-- checks the configuration -/
  | validate
deriving DecidableEq

/-- A command with the options that stand before it. -/
structure Invocation where
  /-- the path of the configuration -/
  configuration : String := "config/metatx.toml"
  /-- what is logged, in place of the configured level -/
  logLevel : Option String := none
  jsonLogs : Bool := false
  command : Command
deriving DecidableEq

/-- An option whose value is a path. -/
def pathOption (name : String) (letter : Option Char := none) : OptionForm :=
  { name, letter, accepts := some fun value => !value.isEmpty }

/-- The number of seconds in the value of an option. -/
def seconds? (value : String) : Option UInt64 :=
  (Decimal.readUInt64 value).toOption

/-- The option for a timeout. -/
def timeoutOption : OptionForm :=
  { name := "timeout-secs", accepts := some fun value => (seconds? value).isSome }

namespace Command

/-- The arguments of the command of a name. -/
def form : String → Form
  | "id" => { options := [pathOption "bundle"] }
  | "wait" => { options := [timeoutOption], positionals := 1 }
  | "nonce" =>
    { options :=
        [{ name := "wallet", accepts := some fun value => (Address.read value).toOption.isSome },
          { name := "space", accepts := some fun value => (Numeral.read? 160 value).isSome }] }
  | "relay" => { options := [pathOption "signed", { name := "wait" }, timeoutOption] }
  | _ => {}

/-- The command of a name and arguments that fit it; none if one is missing. -/
def ofMatches? (name : String) (m : Matches) : Option Command :=
  let timeout := (m.value? "timeout-secs").bind seconds?
  match name with
  | "id" => (m.value? "bundle").map .identify
  | "wait" => m.positionals.head?.map (.wait · timeout)
  | "nonce" => do
    let wallet ← (Address.read (← m.value? "wallet")).toOption
    return .nonce wallet (← Numeral.read? 160 ((m.value? "space").getD "0"))
  | "relay" => (m.value? "signed").map (.relay · (m.has "wait") timeout)
  | "validate" => some .validate
  | _ => none

/-- The names of the commands. -/
def names : List String := ["id", "wait", "nonce", "relay", "validate", "help"]

/-- The command of a name and its arguments. The command for help tells about one other command. -/
def read (name : String) (arguments : List String) : Except Refusal Command :=
  if name = "help" then
    match arguments with
    | [] => .error .help
    | [other] => .error (if other ∈ names then .help else .usage)
    | _ => .error .usage
  else
    match (form name).scan arguments with
    | .error refusal => .error refusal
    | .ok m =>
      match ofMatches? name m with
      | none => .error .usage
      | some command => .ok command

end Command

namespace Invocation

/-- The options before the command, and the commands. -/
def form : Form where
  options :=
    [pathOption "config" (some 'c'), { name := "log-level", accepts := some fun _ => true },
      { name := "json-logs" }]
  commands := Command.names

/-- The variable that stands for the option of the log level. -/
def logLevelVariable : String := "METATX_LOG_LEVEL"

/-- The files that the invocation reads. -/
def paths (i : Invocation) : List String :=
  match i.command with
  | .identify bundle => [bundle]
  | .relay signed _ _ => [i.configuration, signed]
  | _ => [i.configuration]

/-- The invocation of arguments. -/
def read (e : Environment) (arguments : List String) : Except Refusal Invocation := do
  let m ← form.scan arguments
  match m.command with
  | none => throw .usage
  | some (name, arguments) =>
    return {
      configuration := (m.value? "config").getD "config/metatx.toml"
      logLevel := (m.value? "log-level").or (e.get? logLevelVariable)
      jsonLogs := m.has "json-logs"
      command := ← Command.read name arguments }

end Invocation

end MetaTransaction.CommandLine
