import MetaTransaction.Proofs.Calldata
import MetaTransaction.Proofs.Relay.Exchange
import MetaTransaction.Proofs.Relay.Submission

/-!
# Nonces that are read from a wallet

The local relayer asks a wallet for its counter in a space with one call, and makes a nonce of the
answer. The space stands in two words, the argument of the call and the upper part of the nonce of an
execution; they agree, and the counter that the wallet answers is the lower part.

* `firstWord?_eq` — the word of an output, by its place;
* `SignedBundle.wordAt_nonce` — the nonce in the calldata of a bundle;
* `nonce_eq` — the one request, and what is made of the answer;
* `nonce_read_unaltered` — the rules of every reading;
* `question_on_latest_iff` — what the client decides where no block is given;
* `nonce_read_on_pending` — a reading that names no block is not made on the latest one.
-/

namespace MetaTransaction

variable {ν : Type}

/-- The word of a space tells the space, since a space is narrower than a word. -/
theorem Nonce.toNat_spaceWord (space : BitVec 160) : (spaceWord space).toNat = space.toNat := by
  rw [spaceWord, BitVec.toNat_setWidth]
  have := space.isLt
  omega

/-- The nonce of a bundle is the second word of its calldata, with the word of the space above the
counter. The selector and the place of the calls come before it. -/
theorem SignedBundle.wordAt_nonce (s : SignedBundle) :
    Abi.wordAt (s.executeCalldata.drop 4) 1 = some s.bundle.nonce.encode := by
  have width : executeSelector.length = 4 := Abi.length_selector _
  have slot := Abi.slotAt_tuple s.sized_parts (i := 1) rfl []
  rw [List.append_nil] at slot
  rw [s.executeCalldata_eq_tuple, List.drop_left' width]
  exact Abi.wordAt_of_slotAt slot

/-- The two parts of the word of a nonce. -/
theorem Nonce.encode_parts (n : Nonce) :
    n.encode.toNat / 2 ^ 96 = (spaceWord n.space).toNat ∧
      n.encode.toNat % 2 ^ 96 = n.counterWord.toNat := by
  have small := n.counterWord_lt
  rw [n.toNat_encode, toNat_spaceWord]
  omega

theorem RelayAction.ofDerivation_apply {ρ α : Type} (derived : Except DerivationError α)
    (state : ρ) : ofDerivation derived state = (derived.mapError .derivation, state) := by
  cases derived <;> rfl

namespace LocalRelayer

/-! ## The request and its answer -/

/-- The first word of an output is the word in its first place. -/
theorem firstWord?_eq (output : Bytes) : firstWord? output = Abi.wordAt output 0 := by
  rw [firstWord?, Abi.wordAt, Abi.numberAt, Abi.slotAt]
  split <;> rfl

/-- The argument of the call is the word of the space, behind the selector of the method. -/
theorem readNonceCalldata_argument (space : BitVec 160) :
    (readNonceCalldata space).take 4 = Abi.selector "readNonce(uint256)" ∧
      Abi.wordAt ((readNonceCalldata space).drop 4) 0 = some (Nonce.spaceWord space) := by
  have width := Abi.length_selector "readNonce(uint256)"
  have slot : Abi.slotAt (Abi.number (Nonce.spaceWord space).toNat ++ []) 0 = _ :=
    Abi.slotAt_first (Abi.length_number _)
  rw [List.append_nil] at slot
  rw [readNonceCalldata, List.take_left' width, List.drop_left' width]
  exact ⟨rfl, Abi.wordAt_of_slotAt slot⟩

/-- The call that asks a wallet for its counter. -/
def question (wallet : Address) (space : BitVec 160) (block : Option BlockNumber) : NodeRequest :=
  .call wallet (readNonceCalldata space) block

/-- Readings are made at the given block or the latest one just when the client puts the latest one
where no block is given. The relayer leaves this to the client, so that it is not the relayer that
decides whether the rule holds. -/
theorem question_on_latest_iff (wallet : Address) (space : BitVec 160) (tag : String) :
    (∀ block, ((question wallet space block).params tag)[1]? =
      some ((block.map NodeRequest.quantity).getD (.string "latest"))) ↔ tag = "latest" := by
  constructor
  · intro law
    exact Json.string.inj (Option.some.inj (law none))
  · rintro rfl block
    rfl

/-- What the relayer makes of the answer. -/
def counted (space : BitVec 160) (answer : Except NodeFailure Json) : Except RelayError Nonce :=
  match (Node.readAnswer .readNonce Json.bytes? answer).mapError RelayError.node with
  | .error e => .error e
  | .ok output =>
    match Abi.wordAt output 0 with
    | none => .error (.node ⟨.decodeNonce, .malformed⟩)
    | some counter => (Nonce.ofCounter space counter).mapError .derivation

section

variable {space : BitVec 160} {x : Exchange} {output : Bytes} {v : Word}

theorem counted_of_fails {failure : NodeFailure} (fails : x.Fails Json.bytes? failure) :
    counted space x.answer = .error (.node ⟨.readNonce, failure⟩) := by
  rw [counted, fails.readAnswer]
  rfl

theorem counted_of_no_word (found : x.read Json.bytes? = some output)
    (none : Abi.wordAt output 0 = none) :
    counted space x.answer = .error (.node ⟨.decodeNonce, .malformed⟩) := by
  rw [counted, x.readAnswer_of_read .readNonce found]
  simp only [Except.mapError_ok, none]

theorem counted_of_word (found : x.read Json.bytes? = some output)
    (word : Abi.wordAt output 0 = some v) :
    counted space x.answer = (Nonce.ofCounter space v).mapError .derivation := by
  rw [counted, x.readAnswer_of_read .readNonce found]
  simp only [Except.mapError_ok, word]

/-- Only an output whose first word fits makes a nonce. -/
theorem exists_word_of_counted {n : Nonce} (ok : counted space x.answer = .ok n) :
    ∃ output v, x.read Json.bytes? = some output ∧ Abi.wordAt output 0 = some v ∧
      Nonce.ofCounter space v = .ok n := by
  rcases x.reads Json.bytes? with ⟨output, found⟩ | ⟨failure, fails⟩
  · cases word : Abi.wordAt output 0 with
    | none =>
      rw [counted_of_no_word found word] at ok
      cases ok
    | some v =>
      rw [counted_of_word found word] at ok
      exact ⟨output, v, found, word, Except.mapError_eq_ok_iff.mp ok⟩
  · rw [counted_of_fails fails] at ok
    cases ok

/-- The relayer asks one question, and makes of the answer what `counted` says. -/
theorem nonce_eq {node : Node ν} {wallet : Address} {block : Option BlockNumber} {before : State ν}
    {told : ν} (request : x.request = question wallet space block)
    (asked : node.fetch x.request before.now before.node = (x.answer, told)) :
    nonce node wallet space block before =
      (counted space x.answer, { before with node := told }) := by
  rw [question] at request
  rcases x.reads Json.bytes? with ⟨output, found⟩ | ⟨failure, fails⟩
  · have fetched := fetch_of_read .readNonce asked found
    rw [request] at fetched
    apply (RelayAction.bind_of_ok fetched).trans
    rw [firstWord?_eq]
    cases word : Abi.wordAt output 0 with
    | none =>
      rw [counted_of_no_word found word]
      rfl
    | some v =>
      rw [counted_of_word found word]
      exact RelayAction.ofDerivation_apply _ _
  · have fetched := fetch_of_fails .readNonce asked fails
    rw [request] at fetched
    rw [counted_of_fails fails]
    exact RelayAction.bind_of_error fetched

end

/-! ## The rules -/

/-- A wallet that executes a bundle with the nonce reads the word of the space above the counter. So
the number that a wallet told is the number that it gets back. -/
def Carries (n : Nonce) (space : BitVec 160) (v : Word) : Prop :=
  ∀ signed : SignedBundle, signed.bundle.nonce = n →
    ∃ w, Abi.wordAt (signed.executeCalldata.drop 4) 1 = some w ∧
      w.toNat / 2 ^ 96 = (Nonce.spaceWord space).toNat ∧ w.toNat % 2 ^ 96 = v.toNat

/-- The rules of a reading. -/
structure ReadsNonce (wallet : Address) (space : BitVec 160) (block : Option BlockNumber)
    (x : Exchange) (result : Except RelayError Nonce) : Prop where
  /-- the wallet is asked for the word of the space -/
  asks : ∃ calldata, x.request = .call wallet calldata block ∧ calldata.length = 36 ∧
    calldata.take 4 = Abi.selector "readNonce(uint256)" ∧
    Abi.wordAt (calldata.drop 4) 0 = some (Nonce.spaceWord space)
  /-- at the block that is given, otherwise at the one that the client chooses -/
  block : ∀ tag, (x.request.params tag)[1]? =
    some ((block.map NodeRequest.quantity).getD (.string tag))
  /-- a counter that fits makes the nonce of the space with this counter -/
  tells : ∀ output v, x.read Json.bytes? = some output → Abi.wordAt output 0 = some v →
    v.toNat < 2 ^ 96 →
    ∃ n, result = .ok n ∧ n.space = space ∧ n.counterWord = v ∧ Carries n space v
  /-- one that does not fit is refused as an input -/
  refuses : ∀ output v, x.read Json.bytes? = some output → Abi.wordAt output 0 = some v →
    2 ^ 96 ≤ v.toNat → ∃ e : DerivationError, result = .error (.derivation e) ∧
      e = .counterTooWide v.toNat ∧ e.message = "Invalid input: " ++ e.detail
  /-- an output without a word, and a failure at the node, are errors of the network -/
  short : ∀ output, x.read Json.bytes? = some output → output.length < 32 →
    result = .error (.node ⟨.decodeNonce, .malformed⟩)
  fails : ∀ failure, x.Fails Json.bytes? failure → result = .error (.node ⟨.readNonce, failure⟩)
  network : ∀ task failure, (RelayError.node ⟨task, failure⟩).message =
    "Network error: " ++ task.failed ++ ": " ++ failure.message
  /-- there is no other way to a nonce -/
  unaltered : ∀ n, result = .ok n → ∃ output, x.read Json.bytes? = some output ∧
    Abi.wordAt output 0 = some n.counterWord ∧ n.space = space

theorem carries_self (n : Nonce) : Carries n n.space n.counterWord := by
  rintro signed rfl
  exact ⟨_, signed.wordAt_nonce, Nonce.encode_parts _⟩

/-- What is made of the answer follows the rules, whatever the answer is. -/
theorem counted_readsNonce {wallet : Address} {space : BitVec 160} {block : Option BlockNumber}
    {x : Exchange} (request : x.request = question wallet space block) :
    ReadsNonce wallet space block x (counted space x.answer) where
  asks := by
    obtain ⟨function, argument⟩ := readNonceCalldata_argument space
    refine ⟨_, request, ?_, function, argument⟩
    rw [readNonceCalldata, List.length_append, Abi.length_selector, Abi.length_number]
  block tag := by
    rw [request]
    rfl
  tells output v found word fits := by
    obtain ⟨n, made, rfl, rfl⟩ := @Nonce.ofCounter_eq_ok space v fits
    refine ⟨n, ?_, rfl, rfl, carries_self n⟩
    rw [counted_of_word found word, made]
    rfl
  refuses output v found word wide := by
    refine ⟨.counterTooWide v.toNat, ?_, rfl, rfl⟩
    rw [counted_of_word found word, Nonce.ofCounter_eq_error wide]
    rfl
  short output found short := by
    apply counted_of_no_word found
    rw [← firstWord?_eq, firstWord?, if_neg (Nat.not_le.mpr short)]
  fails failure fails := counted_of_fails fails
  network _ _ := rfl
  unaltered n ok := by
    obtain ⟨output, v, found, word, made⟩ := exists_word_of_counted ok
    by_cases fits : v.toNat < 2 ^ 96
    · obtain ⟨m, made', rfl, rfl⟩ := @Nonce.ofCounter_eq_ok space v fits
      obtain rfl := Except.ok.inj (made'.symm.trans made)
      exact ⟨output, found, word, rfl⟩
    · rw [Nonce.ofCounter_eq_error (Nat.not_lt.mp fits)] at made
      cases made

/-- Every reading asks the node one question, and follows the rules with its answer. A counter
reaches the caller as the wallet told it, or it does not reach the caller at all. -/
theorem nonce_read_unaltered (node : Node ν) (wallet : Address) (space : BitVec 160)
    (block : Option BlockNumber) (before : State ν) :
    ∃ x result after, node.Talks before.now before.node [x] after ∧
      nonce node wallet space block before = (result, { before with node := after }) ∧
      (∀ noted, nonce node.noted wallet space block ⟨(before.node, noted), before.now⟩ =
        (result, ⟨(after, x.request :: noted), before.now⟩)) ∧
      ReadsNonce wallet space block x result := by
  obtain ⟨x, told, request, asked, asked'⟩ :=
    node.exists_exchange (question wallet space block) before.now before.node
  exact ⟨x, counted space x.answer, told, .cons asked .nil, nonce_eq request asked,
    fun noted => nonce_eq request (asked' noted), counted_readsNonce request⟩

end LocalRelayer

namespace Sample

/-- A node that tells every caller the number five. -/
def telling : Node Unit where
  ask _ _ _ := ({ answer := .ok (.ofBytes (Abi.number 5)) }, ())

end Sample

/-- The nonce has the space that was asked for and the counter that the wallet told. -/
example : (LocalRelayer.nonce Sample.telling (.ofNat 20 3) 1 none ⟨(), 0⟩).1 = .ok ⟨1, 5⟩ := by
  rfl

/-- A reading that names no block is made on the pending one, so that readings are not all made at
the given block or on the latest one. That the client puts the pending block is what it documents
(`NodeRequest.clientTag`); the rule would hold of no other client than one that puts the latest
(`LocalRelayer.question_on_latest_iff`). -/
theorem nonce_read_on_pending :
    ¬ ∀ (space : BitVec 160) (block : Option BlockNumber), ∀ request ∈
      (LocalRelayer.nonce Sample.telling.noted (.ofNat 20 3) space block ⟨((), []), 0⟩).2.node.2,
      (request.params NodeRequest.clientTag)[1]? =
        some ((block.map NodeRequest.quantity).getD (.string "latest")) := by
  intro law
  have latest : NodeRequest.clientTag = "latest" :=
    (LocalRelayer.question_on_latest_iff (.ofNat 20 3) 1 _).mp fun block =>
      law 1 block (LocalRelayer.question (.ofNat 20 3) 1 block) (List.mem_singleton.mpr rfl)
  exact absurd latest (by decide)

end MetaTransaction
