import MetaTransaction.BundleFile
import MetaTransaction.CommandLine.Invocation
import MetaTransaction.CommandLine.Log
import MetaTransaction.Configuration.Load
import MetaTransaction.Relay.Local
import MetaTransaction.Relay.Service
import MetaTransaction.Text.Quoted

/-!
# Runs

What a command prints, reports and fails with. Everything it needs is handed in: the files, the
environment and the node. All commands but the one for identifiers load the configuration first.
-/

namespace MetaTransaction.CommandLine

/-- What a command finds outside of the program: the files, the variables and the node, with its
state. -/
structure Host (ν : Type) where
  files : FileSystem
  environment : Environment
  node : Node ν
  /-- the node before the first request -/
  state : ν
  /-- what is logged, in place of every other level -/
  logFilter : Option String := none

/-- Why a command failed. -/
inductive Failure
  | configuration (error : Configuration.LoadError)
  /-- a configuration that was accepted without its settings -/
  | settings (violation : Configuration.Violation)
  | bundleFile (path : String)
  | bundleText
  | derivation (error : DerivationError)
  | signedFile (path : String)
  | signedText
  | identifier (error : DerivationError)
  | connection (error : NodeError)
  | wait (error : Confirmation.Error)
  | noRelayer
  | relayer (error : RelayError)
  | nonce (error : RelayError)
  | relay (error : RelayError)
  | confirmation (error : Confirmation.Error)

/-- What failed, and then why. -/
def Failure.messages : Failure → List String
  | .configuration error => ["Failed to load configuration", error.message]
  | .settings violation => [(Configuration.LoadError.invalid violation).message]
  | .bundleFile path =>
    ["Failed to read bundle file: " ++ Text.Quoted.path path, "the file holds no text"]
  | .bundleText => ["Failed to parse bundle JSON", "the text is no bundle"]
  | .derivation error => ["Failed to derive meta transaction id", error.message]
  | .signedFile path =>
    ["Failed to read signed bundle file: " ++ Text.Quoted.path path, "the file holds no text"]
  | .signedText => ["Failed to parse signed bundle JSON", "the text is no signed bundle"]
  | .identifier error => ["Invalid meta transaction id", error.message]
  | .connection error => ["Failed to connect to RPC endpoint", error.message]
  | .wait error => [error.message]
  | .noRelayer => ["A [relayer] section is required for this command"]
  | .relayer error => ["Failed to create local relayer", error.message]
  | .nonce error => ["Failed to read wallet nonce", error.message]
  | .relay error => ["Failed to relay bundle", error.message]
  | .confirmation error => ["Failed to confirm bundle", error.message]

/-- What a command has printed and reported. -/
structure Record where
  output : String := ""
  log : List LogEntry := []

/-- A command under way: it may fail, and what it has printed and reported remains, so that a report
can be given of a failure too. -/
abbrev CommandAction := ExceptT Failure (StateM Record)

namespace CommandAction

/-- Prints a text. -/
def print (text : String) : CommandAction Unit :=
  modify fun record => { record with output := record.output ++ text }

/-- Reports entries. -/
def log (entries : List LogEntry) : CommandAction Unit :=
  modify fun record => { record with log := record.log ++ entries }

/-- Reports something that is worth knowing about the program itself. -/
def inform (message : String) : CommandAction Unit :=
  log [⟨.info, .program, message⟩]

/-- Goes on with a value, or fails. -/
def ofExcept {ε α : Type} (failure : ε → Failure) : Except ε α → CommandAction α
  | .ok a => pure a
  | .error e => throw (failure e)

end CommandAction

open CommandAction

/-- Prints an outcome. -/
def printOutcome (id : Identifier) (outcome : Outcome) : CommandAction Unit :=
  print <|
    s!"meta_txn_id: {id.text}\nstatus:      {outcome.status.text}\n" ++
      s!"tx_hash:     {Hex.encodePrefixed outcome.receipt.transactionHash.bytes}\n" ++
      s!"block:       {outcome.receipt.blockNumber.toNat}\n"

variable {ν : Type}

/-- Prints the identifier of the bundle in a file. -/
def identify (files : FileSystem) (path : String) : CommandAction Unit := do
  match (files path).text? with
  | none => throw (.bundleFile path)
  | some text =>
    match BundleFile.parse? text with
    | none => throw .bundleText
    | some file =>
      let id ← ofExcept .derivation file.identifier
      print (id.text ++ "\n")

/-- Reports what the configuration says. The key is not read for this, and neither is the node
asked. -/
def describe (c : Configuration) : CommandAction Unit := do
  let settings ← ofExcept .settings c.confirmation.settings
  inform "Configuration is valid"
  inform s!"Chain: {c.network.chain.display}"
  inform s!"RPC URL: {c.network.endpoint}"
  inform <|
    s!"Confirmation: timeout {settings.defaultTimeout.seconds}s, lookback " ++
      s!"{settings.lookback.toNat} blocks, overlap {settings.overlap.toNat} blocks, poll every " ++
      s!"{settings.pollInterval.milliseconds}ms"
  match settings.wallet with
  | none => pure ()
  | some wallet => inform s!"Wallet filter: {wallet.display}"
  inform ("Local relayer: " ++ if c.relayer.isSome then "configured" else "not configured")

/-- The timeout of an argument. -/
def timeout? (seconds : Option UInt64) : Option Duration :=
  seconds.map fun n => .ofSeconds n.toNat

/-- Waits for an outcome and prints it. The wait ends early when the host cancels it, and then the
command has failed like any other that has no outcome. -/
def awaitOutcome (host : Host ν) (c : Configuration) (id : String) (timeout : Option UInt64) :
    CommandAction Unit := do
  let id ← ofExcept .identifier (Identifier.read id)
  if !Endpoint.isValid c.network.endpoint then
    throw (.connection ⟨.connect c.network.endpoint, .unreachable⟩)
  let settings ← ofExcept .settings c.confirmation.settings
  let waiter ← ofExcept .wait (Confirmation.Waiter.new settings)
  let ending := waiter.wait host.node.chain id (timeout? timeout) {} 0 host.state
  log (waitEntries ending "Interrupted, cancelling wait")
  let outcome ← ofExcept .wait ending.result
  printOutcome id outcome

/-- The local relayer of a configuration. -/
def localRelayer (c : Configuration) : CommandAction LocalRelayer := do
  match c.relayer with
  | none => throw .noRelayer
  | some account =>
    let settings ← ofExcept .settings c.confirmation.settings
    ofExcept .relayer
      (LocalRelayer.create c.network.endpoint c.network.chain account.key settings)

/-- Prints the nonce of a wallet. -/
def printNonce (host : Host ν) (c : Configuration) (wallet : Address) (space : BitVec 160) :
    CommandAction Unit := do
  let relayer := (← localRelayer c).relayer host.node
  let (result, _) := (relayer.nonce wallet space none).run.run { node := host.state }
  let nonce ← ofExcept .nonce result
  inform "Read wallet nonce"
  print <|
    s!"space:   {nonce.space.toNat}\ncounter: {nonce.counter.toNat}\n" ++
      s!"encoded: {Hex.quantity nonce.encode.toNat}\n"

/-- What is reported before a bundle is handed to the relayer: nothing when it is refused. -/
def submissionEntries (chain : ChainId) (signed : SignedBundle) : List LogEntry :=
  if signed.chain = chain ∧ signed.identifier.toBool then
    [⟨.debug, .delivery, "Submitting bundle"⟩]
  else []

/-- The signed bundle in a file. -/
def readSigned (files : FileSystem) (path : String) : Except Failure SignedBundle :=
  match (files path).text? with
  | none => .error (.signedFile path)
  | some text =>
    match SignedBundle.parse? text with
    | none => .error .signedText
    | some signed => .ok signed

/-- Relays the signed bundle in a file. The file is read before the relayer is made. A wait for its
outcome that is cancelled is no failure. -/
def relayBundle (host : Host ν) (c : Configuration) (path : String) (awaits : Bool)
    (timeout : Option UInt64) : CommandAction Unit := do
  let signed ← ofExcept id (readSigned host.files path)
  let account ← localRelayer c
  log (submissionEntries account.chain signed)
  let (result, state) :=
    ((account.relayer host.node).submit signed).run.run { node := host.state }
  let submission ← ofExcept .relay result
  log
    [⟨.info, .delivery, "Submitted carrier transaction"⟩, ⟨.info, .delivery, "Bundle relayed"⟩]
  print <|
    s!"meta_txn_id: {submission.identifier.text}\n" ++
      s!"tx_hash:     {Hex.encodePrefixed submission.transactionHash.bytes}\n"
  if awaits then
    let ending := account.waiter.wait host.node.chain submission.identifier (timeout? timeout)
      {} state.now state.node
    log (waitEntries ending "Interrupted before confirmation")
    match ending.result with
    | .ok outcome => printOutcome submission.identifier outcome
    | .error (.cancelled _) => pure ()
    | .error e => throw (.confirmation e)

/-- Runs a command under its configuration. -/
def runCommand (host : Host ν) (c : Configuration) : Command → CommandAction Unit
  | .identify path => identify host.files path
  | .wait id timeout => awaitOutcome host c id timeout
  | .nonce wallet space => printNonce host c wallet space
  | .relay signed awaits timeout => relayBundle host c signed awaits timeout
  | .validate => describe c

/-! ## Reports -/

/-- What a run leaves behind. -/
structure Report where
  /-- the exit code -/
  exit : Nat
  /-- what stands on standard output -/
  output : String := ""
  /-- the entries that are shown -/
  log : List LogEntry := []
  /-- whether entries are shown as JSON -/
  jsonLog : Bool := false
  /-- what failed, and then why -/
  errors : List String := []

/-- The report on arguments that are not run. -/
def Refusal.report : Refusal → Report
  | .usage => { exit := 2 }
  | .help => { exit := 0 }

/-- The filter that is in force: the host's if it can be read, else the one of the level that was
asked for. -/
def filterFor (host : Host ν) (level : String) : Verbosity :=
  (host.logFilter.bind Verbosity.read?).getD (Verbosity.read level)

/-- The report on an action. -/
def report (filter : Verbosity) (jsonLog : Bool) (action : CommandAction Unit) : Report :=
  let (result, record) := action.run.run {}
  let errors := match result with
    | .ok () => []
    | .error failure => failure.messages
  { exit := if errors.isEmpty then 0 else 1
    output := record.output
    log := record.log.filter filter.shows
    jsonLog, errors }

/-- Runs an invocation. -/
def Invocation.run (host : Host ν) (i : Invocation) : Report :=
  match i.command with
  | .identify path =>
    report (filterFor host (i.logLevel.getD "info")) i.jsonLogs (identify host.files path)
  | command =>
    match
      Configuration.load host.files host.environment Configuration.defaultPrefix
        (some i.configuration)
    with
    | .error e => { exit := 1, errors := (Failure.configuration e).messages }
    | .ok c =>
      report (filterFor host (i.logLevel.getD c.logging.level)) (i.jsonLogs || c.logging.json)
        (runCommand host c command)

/-- Runs the program. -/
def run (host : Host ν) (arguments : List String) : Report :=
  match Invocation.read host.environment arguments with
  | .error refusal => refusal.report
  | .ok invocation => invocation.run host

end MetaTransaction.CommandLine
