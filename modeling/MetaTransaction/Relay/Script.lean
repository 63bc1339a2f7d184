import MetaTransaction.Confirmation.Script
import MetaTransaction.Relay.Basic

/-!
# Scripted relayers

A relayer whose answers are written down beforehand, one after another for each question, the last
one again and again. Instead of written outcomes it can wait with an engine over a scripted chain.
-/

namespace MetaTransaction

/-- What a relayer acknowledges a bundle with. -/
structure Acknowledgement where
  transactionHash : Hash
  /-- the reported identifier, the bundle's own when absent -/
  identifier : Option Identifier
deriving DecidableEq

/-- The answers of a relayer. -/
structure RelayerScript where
  name : String
  chain : ChainId
  relays : List (Except RelayError Acknowledgement)
  /-- counters for the space that is asked for -/
  nonces : List (Except RelayError Word)
  /-- gas limits for every call -/
  gas : List (Except RelayError Word)
  waits : List (Except RelayError Outcome)
  /-- what waits in place of written outcomes -/
  engine : Option (Confirmation.Waiter × Confirmation.Script) := none

namespace RelayerScript

/-- How far a script has got. -/
structure State where
  relays : Nat := 0
  nonces : Nat := 0
  gas : Nat := 0
  waits : Nat := 0
  /-- the clock of the engine -/
  now : Nat := 0
  /-- the chain of the engine -/
  chain : Confirmation.Script.State := {}
  /-- the calls of the engine, latest first -/
  calls : List (Confirmation.ChainCall Confirmation.Failure) := []

/-- The answer after `earlier` others. -/
def answer {α : Type} (answers : List (Except RelayError α)) (earlier : Nat) : Except RelayError α :=
  answers.getD (min earlier (answers.length - 1)) (.error (.configuration "no answer"))

/-- Waits with the engine, whose clock and chain go on from wait to wait, as they do for a relayer
that uses it. -/
def waitWithEngine (waiter : Confirmation.Waiter) (script : Confirmation.Script) (id : Identifier)
    (timeout : Option Duration) : RelayAction State Outcome :=
  fun state =>
    let ending := waiter.wait script.chain id timeout .never state.now state.chain
    (ending.result.mapError .confirmation,
      { state with
        now := ending.world.now
        chain := ending.world.chain
        calls := ending.world.calls ++ state.calls })

/-- The relayer that answers by the script. -/
def relayer (s : RelayerScript) : Relayer State where
  name := s.name
  chain := s.chain
  nonce _ space _ := do
    let state ← getThe State
    set { state with nonces := state.nonces + 1 }
    match answer s.nonces state.nonces with
    | .error e => throw e
    | .ok counter => RelayAction.ofDerivation (Nonce.ofCounter space counter)
  estimate _ calls := do
    let state ← getThe State
    set { state with gas := state.gas + 1 }
    match answer s.gas state.gas with
    | .error e => throw e
    | .ok gas => return calls.map (·.withGasLimit gas)
  relay signed := do
    let state ← getThe State
    set { state with relays := state.relays + 1 }
    match answer s.relays state.relays with
    | .error e => throw e
    | .ok acknowledgement =>
      let own ← RelayAction.ofDerivation signed.identifier
      return {
        identifier := acknowledgement.identifier.getD own
        transactionHash := acknowledgement.transactionHash }
  wait id timeout :=
    match s.engine with
    | some (waiter, script) => waitWithEngine waiter script id timeout
    | none => do
      let state ← getThe State
      set { state with waits := state.waits + 1 }
      match answer s.waits state.waits with
      | .error e => throw e
      | .ok outcome => return outcome

end RelayerScript

end MetaTransaction
