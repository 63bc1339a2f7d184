import MetaTransaction.Bundle
import MetaTransaction.Confirmation.Wait
import MetaTransaction.Node.Basic
import MetaTransaction.Outcome

/-!
# Relayers

A relayer broadcasts signed bundles for a wallet. It is not trusted: it is a state machine that may
answer anything to the four questions that can be asked of it.
-/

namespace MetaTransaction

/-- Why a relayer, or the service in front of it, could not do what it was asked for. -/
inductive RelayError
  /-- a bundle for another chain than the relayer's -/
  | wrongChain (bundle : ChainId) (relayer : String) (serves : ChainId)
  | node (error : NodeError)
  | identifierMismatch (expected reported : Identifier)
  | derivation (error : DerivationError)
  | confirmation (error : Confirmation.Error)
  /-- a key that no account has -/
  | badKey
  /-- a bundle that the relayer finds wrong, in its words -/
  | refusedBundle (detail : String)
  /-- a bundle that the relayer will not relay, in its words -/
  | rejected (detail : String)
  /-- a failure of the network, in the relayer's words -/
  | network (detail : String)
  /-- a failure of the relayer's configuration, in its words -/
  | configuration (detail : String)
deriving DecidableEq

/-- The error as messages word it. -/
def RelayError.message : RelayError → String
  | .wrongChain bundle relayer serves =>
    s!"Invalid bundle: bundle is for chain {bundle.display} but relayer {relayer} serves chain " ++
      serves.display
  | .node error => error.message
  | .identifierMismatch expected reported =>
    s!"Relayer reported meta txn id {reported.text}, expected {expected.text}"
  | .derivation error => error.message
  | .confirmation error => error.message
  | .badKey => "Configuration error: Invalid private key: not the number of an account"
  | .refusedBundle detail => "Invalid bundle: " ++ detail
  | .rejected detail => "Relayer rejected bundle: " ++ detail
  | .network detail => "Network error: " ++ detail
  | .configuration detail => "Configuration error: " ++ detail

/-- What a relayer with state `ρ` does: it may fail, and it may change its state all the same. A
failure does not take anything back. -/
abbrev RelayAction (ρ α : Type) := ExceptT RelayError (StateM ρ) α

/-- Lifts a derivation that needs no relayer. -/
def RelayAction.ofDerivation {ρ α : Type} : Except DerivationError α → RelayAction ρ α
  | .ok a => pure a
  | .error e => throw (.derivation e)

/-- A relayer with state `ρ`. Nothing relates its answers to one another or to a chain; a statement
that needs more of a relayer says so. -/
structure Relayer (ρ : Type) where
  name : String
  chain : ChainId
  /-- the nonce of a wallet in a space, at a block or now -/
  nonce : Address → BitVec 160 → Option BlockNumber → RelayAction ρ Nonce
  /-- fills in the gas limits that calls lack -/
  estimate : Address → List Call → RelayAction ρ (List Call)
  /-- takes a bundle over, without waiting for its outcome -/
  relay : SignedBundle → RelayAction ρ Submission
  /-- waits for the outcome of a bundle -/
  wait : Identifier → Option Duration → RelayAction ρ Outcome

/-- A question asked of a relayer. -/
inductive RelayCall
  | nonce (wallet : Address) (space : BitVec 160) (block : Option BlockNumber)
  | estimate (wallet : Address) (calls : List Call)
  | relay (signed : SignedBundle)
  | wait (id : Identifier) (timeout : Option Duration)
deriving DecidableEq

namespace Relayer

/-- Notes a question and asks it. -/
def note {ρ α : Type} (call : RelayCall) (action : RelayAction ρ α) :
    RelayAction (ρ × List RelayCall) α :=
  fun (state, calls) =>
    let (result, state) := action state
    (result, state, call :: calls)

/-- A relayer that also notes the questions, latest first, and otherwise does the same. -/
def noted {ρ : Type} (r : Relayer ρ) : Relayer (ρ × List RelayCall) where
  name := r.name
  chain := r.chain
  nonce wallet space block := note (.nonce wallet space block) (r.nonce wallet space block)
  estimate wallet calls := note (.estimate wallet calls) (r.estimate wallet calls)
  relay signed := note (.relay signed) (r.relay signed)
  wait id timeout := note (.wait id timeout) (r.wait id timeout)

end Relayer

end MetaTransaction
