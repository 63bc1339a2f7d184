import MetaTransaction.Identifier
import MetaTransaction.Nonce
import MetaTransaction.Abi

/-!
# Bundles

A bundle is a list of calls that a wallet executes together under one nonce. Its digest commits to
the calls in their order and not to the nonce; its identifier commits to the chain and the wallet as
well. A signed bundle is what a relayer gets.
-/

namespace MetaTransaction

/-- A call that a wallet makes. -/
structure Call where
  target : Address
  data : Bytes := []
  value : Word := 0
  gasLimit : Word := 0
  delegateCall : Bool := false
  revertOnError : Bool := false
deriving DecidableEq

namespace Call

def withValue (c : Call) (value : Word) : Call := { c with value }
def withGasLimit (c : Call) (gasLimit : Word) : Call := { c with gasLimit }
def withDelegateCall (c : Call) (delegateCall : Bool) : Call := { c with delegateCall }
def withRevertOnError (c : Call) (revertOnError : Bool) : Call := { c with revertOnError }

/-- The tuple `(bool, bool, uint256, address, uint256, bytes)` of a call. -/
def encode (c : Call) : Bytes :=
  Abi.tuple
    [.word (Abi.bool c.delegateCall), .word (Abi.bool c.revertOnError),
      .word (Abi.number c.gasLimit.toNat), .word (Abi.address c.target),
      .word (Abi.number c.value.toNat), .body (Abi.bytes c.data)]

end Call

/-- The body of a list of calls as a wallet takes it. The digest hashes this body, and the calldata
carry it, so that a wallet can compute the digest from what it is given. -/
def encodeCalls (calls : List Call) : Bytes :=
  Abi.array (calls.map Call.encode)

/-- Calls to be executed together. -/
structure Bundle where
  calls : List Call
  nonce : Nonce := .zero
deriving DecidableEq

/-- The bytes that the identifier of a wallet's bundle is the hash of: two fixed bytes, the number
of the chain as a word, the bytes of the wallet and the digest. All of them have a fixed width, so
that nothing has to separate them. -/
def identifierPreimage (chain : ChainId) (wallet : Address) (digest : Hash) : Bytes :=
  [0x19, 0x01] ++ Abi.number chain.value.toNat ++ wallet.bytes ++ digest.bytes

/-- The scheme of the wallet contract. -/
def walletScheme : Identifier.Scheme :=
  fun chain wallet digest => (Keccak.hash (identifierPreimage chain wallet digest)).bytes

namespace Bundle

/-- The bytes that the digest is the hash of: the calls as the only parameter. The nonce is not
among them. -/
def digestPreimage (b : Bundle) : Bytes :=
  Abi.tuple [.body (encodeCalls b.calls)]

/-- The digest of the calls. A bundle without calls has none. -/
def digest (b : Bundle) : Except DerivationError Hash :=
  if b.calls = [] then .error .emptyBundle else .ok (Keccak.hash b.digestPreimage)

/-- The identifier that the wallet emits when it executes the bundle on the chain. -/
def identifier (b : Bundle) (chain : ChainId) (wallet : Address) :
    Except DerivationError Identifier := do
  Identifier.derive walletScheme chain wallet (← b.digest)

end Bundle

/-- A bundle with the signature of the wallet that is to execute it. The signature is not checked
here; it is part of what the wallet is given. -/
structure SignedBundle where
  chain : ChainId
  wallet : Address
  bundle : Bundle
  signature : Bytes
deriving DecidableEq

namespace SignedBundle

/-- The identifier of the bundle on its chain. -/
def identifier (s : SignedBundle) : Except DerivationError Identifier :=
  s.bundle.identifier s.chain s.wallet

/-- The call data that makes the wallet execute the bundle. -/
def executeCalldata (s : SignedBundle) : Bytes :=
  Abi.selector "execute((bool,bool,uint256,address,uint256,bytes)[],uint256,bytes)" ++
    Abi.tuple
      [.body (encodeCalls s.bundle.calls), .word (Abi.number s.bundle.nonce.encode.toNat),
        .body (Abi.bytes s.signature)]

end SignedBundle

/-- A relayer's word that it has broadcast a bundle. It need not be true, and it is not waited for
that the transaction is mined. -/
structure Submission where
  identifier : Identifier
  /-- the transaction that carries the bundle -/
  transactionHash : Hash
deriving DecidableEq

end MetaTransaction
