import MetaTransaction.Text.Split

/-!
# Arguments

The arguments of a command are options, which start with a hyphen, and positional ones. A command
may have further commands, whose arguments follow their name. The arguments are taken one after
another, and the first one that does not fit decides what becomes of them.
-/

namespace MetaTransaction.CommandLine

/-- Why a command is not run. -/
inductive Refusal
  /-- arguments that do not fit -/
  | usage
  /-- a request for help -/
  | help
deriving DecidableEq, Repr

/-- An option that a command knows. -/
structure OptionForm where
  name : String
  /-- its short form -/
  letter : Option Char := none
  /-- the values that fit; none for an option without a value -/
  accepts : Option (String → Bool) := none

/-- What arguments a command takes. -/
structure Form where
  options : List OptionForm := []
  /-- how many positional arguments there may be -/
  positionals : Nat := 0
  /-- the names of its commands -/
  commands : List String := []

/-- Arguments that fit. -/
structure Matches where
  /-- options with their values, empty for those without one -/
  options : List (String × String) := []
  /-- the positional arguments, in their order -/
  positionals : List String := []
  /-- the command with its own arguments -/
  command : Option (String × List String) := none
deriving DecidableEq, Repr

namespace Matches

/-- The value of an option. -/
def value? (m : Matches) (name : String) : Option String :=
  m.options.lookup name

/-- Whether an option is there. -/
def has (m : Matches) (name : String) : Bool :=
  (m.value? name).isSome

/-- Adds an option, which must not come twice. -/
def add (m : Matches) (name value : String) : Except Refusal Matches :=
  if m.has name then .error .usage else .ok { m with options := (name, value) :: m.options }

end Matches

namespace OptionForm

/-- Adds the option with a value that must fit. -/
def addValue (o : OptionForm) (m : Matches) (value : String) : Except Refusal Matches :=
  if o.accepts.any (· value) then m.add o.name value else .error .usage

end OptionForm

namespace Form

/-- What follows an argument: the arguments so far, and the option that awaits its value. -/
abbrev Progress := Matches × Option OptionForm

/-- Takes an option by its name, which a value may follow after an equals sign. -/
def takeLong (form : Form) (m : Matches) (text : List Char) : Except Refusal Progress :=
  let (name, rest) := Text.before (· = '=') text
  if name = "help".toList ∧ rest = [] then .error .help
  else
    match form.options.find? (·.name.toList = name) with
    | none => .error .usage
    | some o =>
      match o.accepts, rest with
      | none, [] => (m.add o.name "").map (·, none)
      | none, _ :: _ => .error .usage
      | some _, [] => .ok (m, some o)
      | some _, _ :: value => (o.addValue m (String.ofList value)).map (·, none)

/-- Takes options by their letters. What follows the letter of an option with a value is the value,
with or without an equals sign before it. -/
def takeShort (form : Form) (m : Matches) : List Char → Except Refusal Progress
  | [] => .ok (m, none)
  | letter :: rest =>
    if letter = 'h' then .error .help
    else
      match form.options.find? (·.letter = some letter) with
      | none => .error .usage
      | some o =>
        match o.accepts, rest with
        | none, rest => (m.add o.name "").bind (takeShort form · rest)
        | some _, [] => .ok (m, some o)
        | some _, '=' :: value => (o.addValue m (String.ofList value)).map (·, none)
        | some _, value => (o.addValue m (String.ofList value)).map (·, none)

/-- Takes a positional argument. -/
def takePositional (form : Form) (m : Matches) (argument : String) : Except Refusal Matches :=
  if m.positionals.length < form.positionals then
    .ok { m with positionals := m.positionals ++ [argument] }
  else .error .usage

/-- Whether an argument starts like an option. A single hyphen does not. -/
def isOption (argument : String) : Bool :=
  match argument.toList with
  | '-' :: _ :: _ => true
  | _ => false

/-- Takes an argument that starts like an option. -/
def takeOption (form : Form) (m : Matches) (argument : String) : Except Refusal Progress :=
  match argument.toList with
  | '-' :: '-' :: text => form.takeLong m text
  | text => form.takeShort m (text.drop 1)

/-- Takes the arguments after a double hyphen, none of which is an option. -/
def scanPositionals (form : Form) (m : Matches) : List String → Except Refusal Matches
  | [] => .ok m
  | argument :: rest => (form.takePositional m argument).bind (form.scanPositionals · rest)

/-- Takes arguments up to the name of a command. -/
def scanFrom (form : Form) (m : Matches) (pending : Option OptionForm) :
    List String → Except Refusal Matches
  | [] => if pending.isSome then .error .usage else .ok m
  | argument :: rest =>
    match pending with
    | some o =>
      if isOption argument then .error .usage
      else (o.addValue m argument).bind (form.scanFrom · none rest)
    | none =>
      if argument ∈ form.commands then .ok { m with command := some (argument, rest) }
      else if argument = "--" then form.scanPositionals m rest
      else if isOption argument then
        (form.takeOption m argument).bind fun (m, pending) => form.scanFrom m pending rest
      else (form.takePositional m argument).bind (form.scanFrom · none rest)

/-- Takes the arguments of a command. -/
def scan (form : Form) (arguments : List String) : Except Refusal Matches :=
  form.scanFrom {} none arguments

end Form

end MetaTransaction.CommandLine
