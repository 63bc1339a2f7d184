import MetaTransaction.Configuration.Reference
import MetaTransaction.Configuration.Validation
import MetaTransaction.FileSystem
import MetaTransaction.Toml.Parser

/-!
# Loading configurations

A configuration is loaded from a TOML text in four steps: references to variables are replaced, the
text is read, variables that are named after a setting override it, and the outcome is checked.
-/

namespace MetaTransaction.Configuration

/-- Why a configuration could not be loaded. -/
inductive LoadError
  | noPath
  | fileNotFound (path : String)
  /-- a file that cannot be read as text -/
  | unreadable
  /-- a reference to a variable that is unset -/
  | unset (name : String)
  /-- a text that is no TOML, or not of the form of a configuration -/
  | malformed
  | invalid (violation : Violation)
deriving DecidableEq, Repr

/-- The error as messages word it. -/
def LoadError.message : LoadError → String
  | .noPath => "File not found: No configuration file specified"
  | .fileNotFound path => "File not found: " ++ path
  | .unreadable => "IO error: the file holds no text"
  | .unset name => "Environment variable not found: " ++ name
  | .malformed => "Parse error: the text is no configuration"
  | .invalid violation => "Validation error: " ++ violation.detail

/-- The start of the names of overriding variables, unless another one is asked for. -/
def defaultPrefix : String := "METATX_"

/-- The chain that an override names, if there is one. -/
def overriddenChain (chain : ChainId) : Option String → Except Violation ChainId
  | none => .ok chain
  | some text => (ChainId.read text).mapError .chainOverride

/-- The configuration with the settings that variables override. A number that cannot be read fails
the loading, whereas texts are taken as they are and left to the checks. -/
def override (e : Environment) (start : String) (c : Configuration) :
    Except Violation Configuration := do
  let endpoint := (e.get? (start ++ "RPC_URL")).getD c.network.endpoint
  let chain ← overriddenChain c.network.chain (e.get? (start ++ "CHAIN_ID"))
  let level := (e.get? (start ++ "LOG_LEVEL")).getD c.logging.level
  let relayer := ((e.get? (start ++ "PRIVATE_KEY")).map Account.mk).or c.relayer
  return { c with network := { chain, endpoint }, logging := { c.logging with level }, relayer }

/-- The variables that loading a text looks up: those of the settings, and the names that the text
refers to. It is known before anything is loaded what has to be read from the environment. -/
def lookedUp (start text : String) : List String :=
  ["RPC_URL", "CHAIN_ID", "LOG_LEVEL", "PRIVATE_KEY"].map (start ++ ·) ++
    (names text.toList).map String.ofList

/-- The configuration that a text says. -/
def parse? (text : String) : Option Configuration :=
  (Toml.parse? text).bind ofJson?

/-- The text with its references to variables replaced. The text is not understood as a
configuration yet, so that references in comments count like any other. -/
def substituted (e : Environment) (text : String) : Except LoadError String :=
  match substitute e text.toList with
  | .error name => .error (.unset name)
  | .ok text => .ok (String.ofList text)

/-- Overrides and checks what a text says. The checks see the values of the variables and not those
that they replaced. -/
def complete (e : Environment) (start : String) (c : Configuration) :
    Except Violation Configuration := do
  let c ← c.override e start
  c.validate
  return c

/-- The configuration of a text, through the four steps in their order; the first one that fails
decides the error. -/
def ofText (e : Environment) (start text : String) : Except LoadError Configuration := do
  let text ← substituted e text
  match parse? text with
  | none => throw .malformed
  | some c => (c.complete e start).mapError .invalid

/-- The configuration of the file at a path. -/
def load (files : FileSystem) (e : Environment) (start : String) (path : Option String) :
    Except LoadError Configuration := do
  match path with
  | none => throw .noPath
  | some path =>
    match files path with
    | .missing => throw (.fileNotFound path)
    | entry =>
      match entry.text? with
      | none => throw .unreadable
      | some text => ofText e start text

end MetaTransaction.Configuration
