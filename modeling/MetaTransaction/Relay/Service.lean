import MetaTransaction.Relay.Basic

/-!
# The service in front of a relayer

Bundles for another chain and bundles without calls never reach the relayer. The identifier of a
bundle is derived here, and a relayer that reports another one is not believed.
-/

namespace MetaTransaction.Relayer

variable {ρ : Type}

/-- Hands a signed bundle to the relayer, once. The chain is compared before the identifier is
derived, so that a bundle with both faults is refused for its chain. -/
def submit (r : Relayer ρ) (signed : SignedBundle) : RelayAction ρ Submission := do
  if signed.chain ≠ r.chain then throw (.wrongChain signed.chain r.name r.chain)
  let expected ← RelayAction.ofDerivation signed.identifier
  let submission ← r.relay signed
  if submission.identifier ≠ expected then
    throw (.identifierMismatch expected submission.identifier)
  return submission

/-- Hands a signed bundle to the relayer and waits for its outcome. What the relayer tells of the
outcome is passed on as it is. -/
def submitAndWait (r : Relayer ρ) (signed : SignedBundle) (timeout : Option Duration) :
    RelayAction ρ (Submission × Outcome) := do
  let submission ← r.submit signed
  let outcome ← r.wait submission.identifier timeout
  return (submission, outcome)

end MetaTransaction.Relayer
