import MetaTransaction.Json.Chain
import MetaTransaction.Bundle

/-!
# JSON forms of calls, nonces and bundles
-/

namespace MetaTransaction

namespace Call

def toJson (c : Call) : Json :=
  .record
    [("target", .ofFixedBytes c.target), ("data", .ofBytes c.data), ("value", .ofWord c.value),
      ("gasLimit", .ofWord c.gasLimit), ("delegateCall", .bool c.delegateCall),
      ("revertOnError", .bool c.revertOnError)]

/-- A call. All but the target may be left out. -/
def ofJson? (j : Json) : Option Call := do
  let [target, data, value, gasLimit, delegateCall, revertOnError] ← Json.fields?
    ["target", "data", "value", "gasLimit", "delegateCall", "revertOnError"] j | none
  return {
    target := ← Json.required? Json.address? target
    data := ← Json.optional? [] Json.bytes? data
    value := ← Json.optional? 0 (Json.word? 256) value
    gasLimit := ← Json.optional? 0 (Json.word? 256) gasLimit
    delegateCall := ← Json.optional? false Json.bool? delegateCall
    revertOnError := ← Json.optional? false Json.bool? revertOnError }

end Call

namespace Nonce

def toJson (n : Nonce) : Json :=
  .record [("space", .ofWord n.space), ("counter", .ofWord n.counter)]

/-- A nonce, whose counter must have its width. -/
def ofJson? (j : Json) : Option Nonce := do
  let [space, counter] ← Json.fields? ["space", "counter"] j | none
  let space ← Json.required? (Json.word? 160) space
  let counter ← Json.required? (Json.word? 256) counter
  (ofCounter space counter).toOption

end Nonce

namespace Bundle

def toJson (b : Bundle) : Json :=
  .record [("calls", .array (b.calls.map Call.toJson)), ("nonce", b.nonce.toJson)]

/-- A bundle. Without a nonce it has the first one. -/
def ofJson? (j : Json) : Option Bundle := do
  let [calls, nonce] ← Json.fields? ["calls", "nonce"] j | none
  return {
    calls := ← Json.required? (Json.array? Call.ofJson?) calls
    nonce := ← Json.optional? .zero Nonce.ofJson? nonce }

end Bundle

namespace SignedBundle

def toJson (s : SignedBundle) : Json :=
  .record
    [("chainId", s.chain.toJson), ("wallet", .ofFixedBytes s.wallet), ("bundle", s.bundle.toJson),
      ("signature", .ofBytes s.signature)]

def ofJson? (j : Json) : Option SignedBundle := do
  let [chain, wallet, bundle, signature] ← Json.fields?
    ["chainId", "wallet", "bundle", "signature"] j | none
  return {
    chain := ← Json.required? ChainId.ofJson? chain
    wallet := ← Json.required? Json.address? wallet
    bundle := ← Json.required? Bundle.ofJson? bundle
    signature := ← Json.required? Json.bytes? signature }

end SignedBundle

namespace Submission

def toJson (s : Submission) : Json :=
  .record
    [("metaTxnId", s.identifier.toJson), ("txHash", .ofFixedBytes s.transactionHash)]

def ofJson? (j : Json) : Option Submission := do
  let [identifier, transactionHash] ← Json.fields? ["metaTxnId", "txHash"] j | none
  return {
    identifier := ← Json.required? Identifier.ofJson? identifier
    transactionHash := ← Json.required? Json.hash? transactionHash }

end Submission

end MetaTransaction
