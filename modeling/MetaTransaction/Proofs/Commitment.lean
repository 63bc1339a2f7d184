import MetaTransaction.Bundle
import MetaTransaction.Proofs.Abi
import MetaTransaction.Proofs.Identifier

/-!
# What an identifier commits to

The bytes that a digest is the hash of determine the calls, and those that an identifier is the hash
of determine the chain, the wallet and the digest. Hence bundles of different calls, chains or wallets
that share an identifier make the hash collide on bytes that the derivation itself has hashed. The
nonce does not take part.

* `Call.encode_append_inj` — the encoding of a call tells the call and its own end;
* `encodeCalls_inj` — the encoding of a list of calls tells the calls. Their count stands in a word
  and is only told up to multiples of `2 ^ 256`; the places of the bodies tell the rest
  (`length_le_of_encodeCalls_eq`);
* `identifier_commits` — the statement for all bundles.
-/

namespace MetaTransaction

/-! ## One call -/

namespace Call

/-- The data of a call are short enough for their length to fit its word. -/
def Fits (c : Call) : Prop :=
  c.data.length < 2 ^ 64

/-- The encoding of a call, word by word. -/
theorem encode_eq (c : Call) :
    c.encode =
      Abi.bool c.delegateCall ++ (Abi.bool c.revertOnError ++ (Abi.number c.gasLimit.toNat ++
        (Abi.address c.target ++ (Abi.number c.value.toNat ++
          (Abi.number 192 ++ Abi.bytes c.data))))) := by
  simp [encode, Abi.tuple, Abi.heads, Abi.tails]

/-- A call takes seven words and its data. -/
theorem length_encode (c : Call) :
    c.encode.length = 224 + c.data.length + (32 - c.data.length % 32) % 32 := by
  rw [encode_eq]
  simp only [List.length_append, Abi.length_bool, Abi.length_number, Abi.length_address,
    Abi.length_bytes]
  omega

/-- The encoding of a call tells the call and its own end. Its words are taken off one by one. -/
theorem encode_append_inj {c d : Call} {r s : Bytes} (hc : c.Fits) (hd : d.Fits)
    (h : c.encode ++ r = d.encode ++ s) : c = d ∧ r = s := by
  rw [Fits] at hc hd
  simp only [encode_eq, List.append_assoc] at h
  obtain ⟨delegateCall, h⟩ := Abi.bool_append_inj h
  obtain ⟨revertOnError, h⟩ := Abi.bool_append_inj h
  obtain ⟨gasLimit, h⟩ := Abi.word_append_inj h
  obtain ⟨target, h⟩ := Abi.address_append_inj h
  obtain ⟨value, h⟩ := Abi.word_append_inj h
  -- the place of the data is the same for all calls and tells nothing
  obtain ⟨-, h⟩ := Abi.number_append_inj h
  obtain ⟨data, rest⟩ := Abi.bytes_append_inj (by omega) (by omega) h
  refine ⟨?_, rest⟩
  cases c
  cases d
  congr

end Call

/-! ## Lists of calls -/

/-- Calls that are encoded one after another are told apart, when there are equally many. The
induction takes the first call off both. -/
theorem flatten_encode_inj {xs ys : List Call} (hx : ∀ c ∈ xs, c.Fits) (hy : ∀ c ∈ ys, c.Fits)
    (same : xs.length = ys.length) {r s : Bytes}
    (h : (xs.map Call.encode).flatten ++ r = (ys.map Call.encode).flatten ++ s) :
    xs = ys ∧ r = s := by
  induction xs generalizing ys with
  | nil =>
    obtain rfl := List.eq_nil_of_length_eq_zero same.symm
    exact ⟨rfl, h⟩
  | cons x xs ih =>
    cases ys with
    | nil => cases same
    | cons y ys =>
      rw [List.map_cons, List.map_cons, List.flatten_cons, List.flatten_cons, List.append_assoc,
        List.append_assoc] at h
      rw [List.forall_mem_cons] at hx hy
      obtain ⟨rfl, others⟩ := Call.encode_append_inj hx.1 hy.1 h
      obtain ⟨rfl, rest⟩ := ih hx.2 hy.2 (Nat.succ.inj same) others
      exact ⟨rfl, rest⟩

/-- Equal encodings do not hide further calls. The number of calls is written modulo `2 ^ 256`, so
that it does not settle this by itself; the first two words of a call do, which are truth values and
cannot be the places of further calls. -/
theorem length_le_of_encodeCalls_eq {xs ys : List Call} (hy : ∀ c ∈ ys, c.Fits)
    (nonempty : xs ≠ []) (h : encodeCalls xs = encodeCalls ys) : ys.length ≤ xs.length := by
  obtain ⟨x, xs, rfl⟩ := List.exists_cons_of_ne_nil nonempty
  rw [encodeCalls, encodeCalls] at h
  obtain ⟨rest, flags⟩ : ∃ rest, ((x :: xs).map Call.encode).flatten =
      Abi.bool x.delegateCall ++ (Abi.bool x.revertOnError ++ rest) := by
    rw [List.map_cons, List.flatten_cons, Call.encode_eq, List.append_assoc, List.append_assoc]
    exact ⟨_, rfl⟩
  have sizes : ∀ y ∈ ys.map Call.encode, 2 ≤ y.length ∧ y.length < 2 ^ 256 - 1 := by
    intro y mem
    obtain ⟨c, listed, rfl⟩ := List.mem_map.mp mem
    have fits : c.data.length < 2 ^ 64 := hy c listed
    rw [Call.length_encode]
    omega
  have counts := Abi.length_le_of_array_eq flags sizes h
  rwa [List.length_map, List.length_map] at counts

/-- The encoding of a list of calls tells the calls: their number by the lemma above in both
directions, and then each of them. -/
theorem encodeCalls_inj {xs ys : List Call} (hx : ∀ c ∈ xs, c.Fits) (hy : ∀ c ∈ ys, c.Fits)
    (nonempty : xs ≠ []) (nonempty' : ys ≠ []) (h : encodeCalls xs = encodeCalls ys) : xs = ys := by
  have same : xs.length = ys.length :=
    Nat.le_antisymm (length_le_of_encodeCalls_eq hx nonempty' h.symm)
      (length_le_of_encodeCalls_eq hy nonempty h)
  -- with equal counts the places take equally many bytes, and the bodies are left
  have bodies := Abi.array_append_inj (r := []) (s := [])
    (by rw [List.length_map, List.length_map, same]) (congrArg (· ++ []) h)
  exact (flatten_encode_inj hx hy same bodies).1

/-! ## Digests and identifiers -/

/-- Two different byte strings with one hash. -/
def Keccak.Collide (x y : Bytes) : Prop :=
  x ≠ y ∧ hash x = hash y

/-- Byte strings with one hash are equal or collide. Nothing else is assumed of the hash. -/
theorem Keccak.eq_or_collide {x y : Bytes} (h : hash x = hash y) : x = y ∨ Collide x y := by
  by_cases same : x = y
  · exact .inl same
  · exact .inr ⟨same, h⟩

/-- The bytes that are hashed for a digest are the place of the calls and the calls. -/
theorem Bundle.digestPreimage_eq (b : Bundle) :
    b.digestPreimage = Abi.number 32 ++ encodeCalls b.calls := by
  simp [digestPreimage, Abi.tuple, Abi.heads, Abi.tails]

/-- What a digest is the hash of determines the calls. -/
theorem Bundle.digestPreimage_inj {b b' : Bundle} (fits : ∀ c ∈ b.calls, c.Fits)
    (fits' : ∀ c ∈ b'.calls, c.Fits) (nonempty : b.calls ≠ []) (nonempty' : b'.calls ≠ [])
    (h : b.digestPreimage = b'.digestPreimage) : b.calls = b'.calls := by
  rw [digestPreimage_eq, digestPreimage_eq] at h
  exact encodeCalls_inj fits fits' nonempty nonempty' (List.append_cancel_left h)

/-- What an identifier is the hash of determines the chain, the wallet and the digest. -/
theorem identifierPreimage_inj {chain chain' : ChainId} {wallet wallet' : Address}
    {digest digest' : Hash}
    (h : identifierPreimage chain wallet digest = identifierPreimage chain' wallet' digest') :
    chain = chain' ∧ wallet = wallet' ∧ digest = digest' := by
  simp only [identifierPreimage, List.append_assoc] at h
  -- all parts have fixed widths
  have h := List.append_cancel_left h
  obtain ⟨number, h⟩ := Abi.number_append_inj h
  obtain ⟨address, hash⟩ := List.append_inj h (by rw [wallet.length_bytes, wallet'.length_bytes])
  refine ⟨?_, FixedBytes.ext address, FixedBytes.ext hash⟩
  have below := chain.value.toNat_lt
  have below' := chain'.value.toNat_lt
  rw [Nat.mod_eq_of_lt (by omega), Nat.mod_eq_of_lt (by omega)] at number
  cases chain
  cases chain'
  exact congrArg ChainId.mk (UInt64.toNat_inj.mp number)

/-- The identifier of a bundle is derived from its digest. -/
theorem Bundle.identifier_of_digest {b : Bundle} {digest : Hash} (h : b.digest = .ok digest)
    (chain : ChainId) (wallet : Address) :
    b.identifier chain wallet = Identifier.derive walletScheme chain wallet digest := by
  rw [identifier, h]
  simp only [bind, Except.bind]

/-- A bundle with calls has an identifier, which is a hash. -/
theorem Bundle.identifier_eq_ok {b : Bundle} (nonempty : b.calls ≠ []) (chain : ChainId)
    (wallet : Address) :
    b.identifier chain wallet =
      .ok ⟨Keccak.hash (identifierPreimage chain wallet (Keccak.hash b.digestPreimage))⟩ := by
  have digested : b.digest = .ok (Keccak.hash b.digestPreimage) := by
    rw [digest, if_neg nonempty]
  rw [identifier_of_digest digested]
  exact Identifier.derive_eq_ok rfl

/-- An identifier commits to the chain, the wallet and the calls in their order, and to nothing else:
the hashed bytes determine them, the nonce is not among them, and when two bundles share an
identifier, either they agree in all three or two of the hashed byte strings collide. Without calls
there is no identifier. -/
theorem identifier_commits (b b' : Bundle) (chain chain' : ChainId) (wallet wallet' : Address)
    (fits : ∀ c ∈ b.calls, c.Fits) (fits' : ∀ c ∈ b'.calls, c.Fits) (nonempty : b.calls ≠ [])
    (nonempty' : b'.calls ≠ []) :
    (b.digestPreimage = b'.digestPreimage ↔ b.calls = b'.calls) ∧
      (∀ digest digest',
        identifierPreimage chain wallet digest = identifierPreimage chain' wallet' digest' ↔
          (chain, wallet, digest) = (chain', wallet', digest')) ∧
      (∀ nonce, Bundle.identifier { b with nonce } chain wallet =
        .ok ⟨Keccak.hash (identifierPreimage chain wallet (Keccak.hash b.digestPreimage))⟩) ∧
      (b.identifier chain wallet = b'.identifier chain' wallet' →
        (chain, wallet, b.calls) ≠ (chain', wallet', b'.calls) →
          Keccak.Collide b.digestPreimage b'.digestPreimage ∨
            Keccak.Collide (identifierPreimage chain wallet (Keccak.hash b.digestPreimage))
              (identifierPreimage chain' wallet' (Keccak.hash b'.digestPreimage))) ∧
      ∀ nonce, Bundle.identifier ⟨[], nonce⟩ chain wallet = .error .emptyBundle ∧
        DerivationError.emptyBundle.isComputation = false := by
  refine ⟨⟨?_, ?_⟩, ?_, ?_, ?_, fun nonce => ⟨rfl, rfl⟩⟩
  · exact Bundle.digestPreimage_inj fits fits' nonempty nonempty'
  · intro same
    rw [Bundle.digestPreimage_eq, Bundle.digestPreimage_eq, same]
  · intro digest digest'
    constructor
    · intro h
      obtain ⟨rfl, rfl, rfl⟩ := identifierPreimage_inj h
      rfl
    · intro h
      cases h
      rfl
  · intro nonce
    exact Bundle.identifier_eq_ok nonempty chain wallet
  · intro same different
    rw [Bundle.identifier_eq_ok nonempty, Bundle.identifier_eq_ok nonempty'] at same
    rcases Keccak.eq_or_collide (congrArg Identifier.hash (Except.ok.inj same)) with inner | collide
    · -- the chains, wallets and digests agree, so that the digests collide
      obtain ⟨rfl, rfl, digests⟩ := identifierPreimage_inj inner
      rcases Keccak.eq_or_collide digests with calls | collide
      · refine absurd ?_ different
        rw [Bundle.digestPreimage_inj fits fits' nonempty nonempty' calls]
      · exact .inl collide
    · exact .inr collide

namespace Sample

/-- Two calls to be made in this order. -/
def inOrder : Bundle where
  calls := [{ target := .ofNat 20 1 }, { target := .ofNat 20 2, data := [1] }]

/-- The same calls in the other order. -/
def swapped : Bundle where
  calls := inOrder.calls.reverse

end Sample

/-- Swapped calls have another digest preimage, and another identifier unless the hash collides. -/
theorem swapped_calls_commit :
    (∀ c ∈ Sample.inOrder.calls, c.Fits) ∧ (∀ c ∈ Sample.swapped.calls, c.Fits) ∧
      Sample.inOrder.digestPreimage ≠ Sample.swapped.digestPreimage ∧
      (Sample.inOrder.identifier .ethereum default = Sample.swapped.identifier .ethereum default →
        Keccak.Collide Sample.inOrder.digestPreimage Sample.swapped.digestPreimage ∨
          Keccak.Collide
            (identifierPreimage .ethereum default (Keccak.hash Sample.inOrder.digestPreimage))
            (identifierPreimage .ethereum default
              (Keccak.hash Sample.swapped.digestPreimage))) := by
  have fits : ∀ c ∈ Sample.inOrder.calls, c.Fits := by
    simp [Sample.inOrder, Call.Fits]
  have fits' : ∀ c ∈ Sample.swapped.calls, c.Fits := by
    simpa [Sample.swapped] using fits
  have different : Sample.inOrder.calls ≠ Sample.swapped.calls := by
    decide
  obtain ⟨calls, -, -, shared, -⟩ := identifier_commits Sample.inOrder Sample.swapped .ethereum
    .ethereum default default fits fits' (by decide) (by decide)
  refine ⟨fits, fits', mt calls.mp different, fun same => shared same ?_⟩
  intro equal
  exact different (congrArg (fun triple => triple.2.2) equal)

end MetaTransaction
