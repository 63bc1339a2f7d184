import MetaTransaction.Json.Bundle
import MetaTransaction.Json.Parser

/-!
# Bundle files

An unsigned bundle as people write it: the chain, the wallet, the calls, and a nonce of which either
part may be left out. The width of the counter is checked when the file becomes a bundle.
-/

namespace MetaTransaction

/-- An unsigned bundle on disk, with its counter as wide as it was written. What is not a number or
not an address is refused when the file is read, and a counter that is too wide only later. -/
structure BundleFile where
  chain : ChainId
  wallet : Address
  space : BitVec 160 := 0
  counter : Word := 0
  calls : List Call
deriving DecidableEq

namespace BundleFile

/-- The parts of the nonce in a file, zero for a part that is left out. -/
def nonceOfJson? (j : Json) : Option (BitVec 160 × Word) := do
  let [space, counter] ← Json.fields? ["space", "counter"] j | none
  return (← Json.optional? 0 (Json.word? 160) space, ← Json.optional? 0 (Json.word? 256) counter)

def ofJson? (j : Json) : Option BundleFile := do
  let [chain, wallet, nonce, calls] ← Json.fields? ["chain_id", "wallet", "nonce", "calls"] j
    | none
  let (space, counter) ← Json.optional? (0, 0) nonceOfJson? nonce
  return {
    chain := ← Json.required? ChainId.ofJson? chain
    wallet := ← Json.required? Json.address? wallet
    space, counter
    calls := ← Json.required? (Json.array? Call.ofJson?) calls }

/-- The file of a text. -/
def parse? (text : String) : Option BundleFile :=
  (Json.parse? text).bind ofJson?

/-- The bundle of a file. -/
def bundle (file : BundleFile) : Except DerivationError Bundle := do
  return { calls := file.calls, nonce := ← Nonce.ofCounter file.space file.counter }

/-- The identifier of the bundle on the chain of the file. -/
def identifier (file : BundleFile) : Except DerivationError Identifier := do
  (← file.bundle).identifier file.chain file.wallet

end BundleFile

/-- The signed bundle that a text writes. -/
def SignedBundle.parse? (text : String) : Option SignedBundle :=
  (Json.parse? text).bind SignedBundle.ofJson?

end MetaTransaction
