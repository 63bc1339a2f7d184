import MetaTransaction.Proofs.Abi.Decoding
import MetaTransaction.Proofs.Commitment
import MetaTransaction.Proofs.Nonce

/-!
# What calldata carry

A wallet that is called with the calldata of a signed bundle reads the calls, the nonce and the
signature by following the places in the head. `Execution.decode` reads as the wallet does. The body
of the calls is the same here and in what the digest is the hash of, so that the digest that the
wallet computes is the one that the client has derived.

* `Call.decode_recovers`, `decodeCalls_recovers` — calls are read back from their encoding;
* `Execution.decode_executeCalldata` — the calldata of a signed bundle are read back;
* `executeCalldata_carries` — the statement for all signed bundles.
-/

namespace MetaTransaction

/-! ## Calls -/

namespace Call

/-- The components of a call's tuple. -/
def parts (c : Call) : List Abi.Part :=
  [.word (Abi.bool c.delegateCall), .word (Abi.bool c.revertOnError),
    .word (Abi.number c.gasLimit.toNat), .word (Abi.address c.target),
    .word (Abi.number c.value.toNat), .body (Abi.bytes c.data)]

theorem sized_parts (c : Call) : ∀ part ∈ c.parts, part.Sized := by
  simp [parts, Abi.Part.Sized]

/-- The call whose tuple comes first. -/
def decode (body : Bytes) : Option Call := do
  let delegateCall ← Abi.boolAt body 0
  let revertOnError ← Abi.boolAt body 1
  let gasLimit ← Abi.wordAt body 2
  let target ← Abi.addressAt body 3
  let value ← Abi.wordAt body 4
  let data ← Abi.readAt Abi.bytes? body 5
  return { target, data, value, gasLimit, delegateCall, revertOnError }

/-- A call is read back, component by component. -/
theorem decode_recovers {c : Call} (fits : c.Fits) : Abi.Recovers decode c.encode c := by
  rw [Fits] at fits
  intro rest
  have small : (Abi.tuple c.parts).length < 2 ^ 256 := by
    change c.encode.length < 2 ^ 256
    rw [length_encode]
    omega
  change decode (Abi.tuple c.parts ++ rest) = some c
  have slot (i : Nat) (word : Bytes) (place : c.parts[i]? = some (.word word)) :=
    Abi.slotAt_tuple c.sized_parts place rest
  have delegateCall := Abi.boolAt_of_slotAt (slot 0 _ rfl)
  have revertOnError := Abi.boolAt_of_slotAt (slot 1 _ rfl)
  have gasLimit := Abi.wordAt_of_slotAt (slot 2 _ rfl)
  have target := Abi.addressAt_of_slotAt (slot 3 _ rfl)
  have value := Abi.wordAt_of_slotAt (slot 4 _ rfl)
  have recovers : Abi.Recovers Abi.bytes? (Abi.bytes c.data) c.data :=
    Abi.bytes?_recovers (by omega)
  have data := Abi.readAt_tuple c.sized_parts small (i := 5) rfl recovers rest
  simp only [decode, delegateCall, revertOnError, gasLimit, target, value, data,
    Option.bind_eq_bind, Option.bind_some]
  rfl

end Call

/-- The calls whose array comes first. -/
def decodeCalls : Bytes → Option (List Call) :=
  Abi.array? Call.decode

/-- Few calls with short data make a short body. -/
theorem length_encodeCalls_lt {calls : List Call} (few : calls.length < 2 ^ 64)
    (fits : ∀ c ∈ calls, c.Fits) : (encodeCalls calls).length < 2 ^ 130 := by
  have bodies : (calls.map Call.encode).flatten.length ≤ calls.length * (2 ^ 64 + 256) := by
    clear few
    induction calls with
    | nil => exact Nat.zero_le _
    | cons c calls ih =>
      rw [List.forall_mem_cons, Call.Fits] at fits
      have others := ih fits.2
      rw [List.map_cons, List.flatten_cons, List.length_append, Call.length_encode,
        List.length_cons, Nat.add_mul]
      omega
  have most : calls.length * (2 ^ 64 + 256) ≤ 2 ^ 64 * (2 ^ 64 + 256) :=
    Nat.mul_le_mul_right _ (Nat.le_of_lt few)
  rw [encodeCalls, Abi.length_array, List.length_map]
  omega

/-- The calls are read back from their body. -/
theorem decodeCalls_recovers {calls : List Call} (few : calls.length < 2 ^ 64)
    (fits : ∀ c ∈ calls, c.Fits) : Abi.Recovers decodeCalls (encodeCalls calls) calls := by
  refine Abi.array?_recovers (fun c mem => Call.decode_recovers (fits c mem)) ?_
  exact Nat.lt_trans (length_encodeCalls_lt few fits) (by decide)

/-! ## Executions -/

/-- What a wallet is told to execute. -/
structure Execution where
  calls : List Call
  nonce : Nonce
  signature : Bytes

/-- The selector of the wallet's function. -/
def executeSelector : Bytes :=
  Abi.selector "execute((bool,bool,uint256,address,uint256,bytes)[],uint256,bytes)"

/-- What a wallet reads from calldata. Those of another function say nothing to execute. -/
def Execution.decode (calldata : Bytes) : Option Execution :=
  if calldata.take 4 = executeSelector then do
    let arguments := calldata.drop 4
    let calls ← Abi.readAt decodeCalls arguments 0
    let nonce ← Abi.wordAt arguments 1
    let signature ← Abi.readAt Abi.bytes? arguments 2
    return { calls, nonce := .decode nonce, signature }
  else none

/-- The digest that a wallet computes: it hashes the calls that it has read, as the only
parameter. -/
def walletDigest (calldata : Bytes) : Option Hash :=
  (Execution.decode calldata).map fun e => Keccak.hash (Abi.tuple [.body (encodeCalls e.calls)])

theorem Abi.length_selector (signature : String) : (selector signature).length = 4 := by
  rw [selector, List.length_take, (Keccak.hash _).length_bytes]
  rfl

/-- The part of calldata that encodes the calls: what follows the three words of the head, up to the
place that the last of them tells. -/
def callsPart (calldata : Bytes) : Option Bytes :=
  (Abi.numberAt (calldata.drop 4) 2).map fun place => ((calldata.drop 4).take place).drop 96

namespace SignedBundle

/-- What a signed bundle tells a wallet to execute. -/
def execution (s : SignedBundle) : Execution :=
  { calls := s.bundle.calls, nonce := s.bundle.nonce, signature := s.signature }

/-- All lengths are short enough for their words. -/
structure Fits (s : SignedBundle) : Prop where
  few : s.bundle.calls.length < 2 ^ 64
  calls : ∀ c ∈ s.bundle.calls, c.Fits
  signature : s.signature.length < 2 ^ 64

/-- The parameters of the wallet's function. -/
def parts (s : SignedBundle) : List Abi.Part :=
  [.body (encodeCalls s.bundle.calls), .word (Abi.number s.bundle.nonce.encode.toNat),
    .body (Abi.bytes s.signature)]

theorem sized_parts (s : SignedBundle) : ∀ part ∈ s.parts, part.Sized := by
  simp [parts, Abi.Part.Sized]

theorem executeCalldata_eq_tuple (s : SignedBundle) :
    s.executeCalldata = executeSelector ++ Abi.tuple s.parts :=
  rfl

/-- The words of the head: the place of the calls, the nonce, and the place of the signature. -/
def head (s : SignedBundle) : Bytes :=
  Abi.number 96 ++ (Abi.number s.bundle.nonce.encode.toNat ++
    Abi.number (96 + (encodeCalls s.bundle.calls).length))

theorem length_head (s : SignedBundle) : s.head.length = 96 := by
  simp only [head, List.length_append, Abi.length_number]

/-- The calls follow the head, and the signature follows the calls. -/
theorem tuple_parts_eq (s : SignedBundle) :
    Abi.tuple s.parts = s.head ++ (encodeCalls s.bundle.calls ++ Abi.bytes s.signature) := by
  simp [parts, head, Abi.tuple, Abi.heads, Abi.tails]

theorem length_tuple_parts_lt {s : SignedBundle} (fits : s.Fits) :
    (Abi.tuple s.parts).length < 2 ^ 256 := by
  have calls := length_encodeCalls_lt fits.few fits.calls
  have signature := fits.signature
  rw [tuple_parts_eq]
  simp only [List.length_append, length_head, Abi.length_bytes]
  omega

end SignedBundle

/-- The calldata of a signed bundle are read back, so that a wallet executes what was signed and
nothing else. -/
theorem Execution.decode_executeCalldata {s : SignedBundle} (fits : s.Fits) :
    decode s.executeCalldata = some s.execution := by
  have small := SignedBundle.length_tuple_parts_lt fits
  have signature_fits := fits.signature
  have width : executeSelector.length = 4 := Abi.length_selector _
  have calls := Abi.readAt_tuple s.sized_parts small (i := 0) rfl
    (decodeCalls_recovers fits.few fits.calls) []
  have nonce := Abi.wordAt_of_slotAt (Abi.slotAt_tuple s.sized_parts (i := 1) rfl [])
  have recovers : Abi.Recovers Abi.bytes? (Abi.bytes s.signature) s.signature :=
    Abi.bytes?_recovers (by omega)
  have signature := Abi.readAt_tuple s.sized_parts small (i := 2) rfl recovers []
  rw [List.append_nil] at calls nonce signature
  rw [decode, s.executeCalldata_eq_tuple, List.take_left' width, if_pos rfl, List.drop_left' width]
  simp only [calls, nonce, signature, Option.bind_eq_bind, Option.bind_some, Nonce.decode_encode]
  rfl

/-- The calls stand in the calldata as in what the digest is the hash of, less the word of their
place. -/
theorem callsPart_executeCalldata {s : SignedBundle} (fits : s.Fits) :
    callsPart s.executeCalldata = some (s.bundle.digestPreimage.drop 32) := by
  have calls := length_encodeCalls_lt fits.few fits.calls
  have width : executeSelector.length = 4 := Abi.length_selector _
  have slot : Abi.slotAt (Abi.tuple s.parts) 2 =
      some (Abi.number (96 + (encodeCalls s.bundle.calls).length)) := by
    have before : (Abi.number 96 ++ Abi.number s.bundle.nonce.encode.toNat).length = 32 * 2 := by
      simp only [List.length_append, Abi.length_number]
    rw [s.tuple_parts_eq, SignedBundle.head, ← List.append_assoc (Abi.number 96), List.append_assoc]
    exact Abi.slotAt_append before (Abi.length_number _)
  have taken : (s.head ++ encodeCalls s.bundle.calls).length =
      96 + (encodeCalls s.bundle.calls).length := by
    rw [List.length_append, s.length_head]
  rw [callsPart, s.executeCalldata_eq_tuple, List.drop_left' width, Abi.numberAt_of_slotAt slot,
    Option.map_some, Nat.mod_eq_of_lt (by omega), s.tuple_parts_eq, ← List.append_assoc,
    List.take_left' taken, List.drop_left' s.length_head, Bundle.digestPreimage_eq,
    List.drop_left' (Abi.length_number _)]

/-- Calldata carry what the identifier commits to. They are the selector and the encoding of the
calls, the nonce and the signature; the calls in them are encoded as for the digest; and reading
them gives back what was encoded, so that equal calldata execute the same and the wallet computes
the digest that the client has derived. -/
theorem executeCalldata_carries (s s' : SignedBundle) (fits : s.Fits) (fits' : s'.Fits) :
    s.executeCalldata =
        executeSelector ++ (s.head ++ (encodeCalls s.bundle.calls ++ Abi.bytes s.signature)) ∧
      callsPart s.executeCalldata = some (s.bundle.digestPreimage.drop 32) ∧
      Execution.decode s.executeCalldata = some s.execution ∧
      (s.executeCalldata = s'.executeCalldata ↔ s.execution = s'.execution) ∧
      (s.bundle.calls ≠ [] →
        ∃ digest, s.bundle.digest = .ok digest ∧ walletDigest s.executeCalldata = some digest ∧
          s.identifier = .ok ⟨Keccak.hash (identifierPreimage s.chain s.wallet digest)⟩) := by
  have read := Execution.decode_executeCalldata fits
  refine ⟨?_, callsPart_executeCalldata fits, read, ⟨?_, ?_⟩, ?_⟩
  · rw [s.executeCalldata_eq_tuple, s.tuple_parts_eq]
  · intro same
    have read' := Execution.decode_executeCalldata fits'
    rw [← same, read] at read'
    exact Option.some.inj read'
  · intro same
    rw [SignedBundle.execution, SignedBundle.execution, Execution.mk.injEq] at same
    obtain ⟨calls, nonce, signature⟩ := same
    rw [SignedBundle.executeCalldata, SignedBundle.executeCalldata, calls, nonce, signature]
  · intro nonempty
    refine ⟨Keccak.hash s.bundle.digestPreimage, ?_, ?_, ?_⟩
    · rw [Bundle.digest, if_neg nonempty]
    · rw [walletDigest, read]
      rfl
    · exact Bundle.identifier_eq_ok nonempty s.chain s.wallet

namespace Sample

/-- Two calls that a wallet has signed. -/
def signed : SignedBundle where
  chain := .ethereum
  wallet := .ofNat 20 3
  bundle := { inOrder with nonce := ⟨1, 5⟩ }
  signature := [2, 2, 2]

/-- The same bundle for another chain. -/
def elsewhere : SignedBundle :=
  { signed with chain := .polygon }

theorem signed_fits : signed.Fits where
  few := by decide
  calls := by simp [signed, inOrder, Call.Fits]
  signature := by decide

end Sample

/-- The calldata of the sample are read back, and they are the same for another chain. -/
theorem sample_calldata_carry :
    Sample.signed.Fits ∧ Sample.elsewhere.Fits ∧
      Execution.decode Sample.signed.executeCalldata = some Sample.signed.execution ∧
      Sample.signed.executeCalldata = Sample.elsewhere.executeCalldata ∧
      ∃ digest, Sample.signed.bundle.digest = .ok digest ∧
        walletDigest Sample.signed.executeCalldata = some digest := by
  have fits := Sample.signed_fits
  have fits' : Sample.elsewhere.Fits := ⟨fits.few, fits.calls, fits.signature⟩
  obtain ⟨-, -, read, same, derived⟩ :=
    executeCalldata_carries Sample.signed Sample.elsewhere fits fits'
  obtain ⟨digest, client, wallet, -⟩ := derived (by decide)
  exact ⟨fits, fits', read, same.mpr rfl, digest, client, wallet⟩

end MetaTransaction
