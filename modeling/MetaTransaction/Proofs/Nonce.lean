import Mathlib.Algebra.Group.Nat.Defs
import MetaTransaction.BundleFile

/-!
# Packing of nonces

A nonce and its word tell each other, so that spaces never share a word, and the next nonce of a
space has the next word. A counter that is too wide for its part of the word is refused wherever a
nonce is read from something wider; it is never cut, and it never carries into the space.

* `Nonce.toNat_encode`, `Nonce.encode_eq_or` — the word as a number, and by its bits;
* `Nonce.decode_encode`, `Nonce.encode_decode` — nonces and words are in bijection;
* `Nonce.next_eq_ok`, `Nonce.next_last` — the next nonce;
* `Origin.counter?_eq`, `Origin.nonce?_eq_none` — each way to a nonce keeps the counter that is
  asked for, or refuses it;
* `nonce_packing` — all of it.
-/

namespace MetaTransaction

namespace Nonce

/-! ## Words -/

/-- The word of a nonce tells the nonce: space and counter have the width of their parts. -/
theorem decode_encode (n : Nonce) : decode n.encode = n := by
  rw [decode, encode, BitVec.extractLsb'_append_eq_left, BitVec.extractLsb'_append_eq_right]

/-- A word is the word of the nonce that it tells. -/
theorem encode_decode (w : Word) : (decode w).encode = w := by
  rw [encode, decode, BitVec.extractLsb'_append_extractLsb'_eq_extractLsb' (Nat.zero_add 96).symm]
  exact BitVec.extractLsb'_eq_self

/-- The counter is as wide as its part of the word. -/
theorem toNat_counterWord (n : Nonce) : n.counterWord.toNat = n.counter.toNat := by
  rw [counterWord, BitVec.toNat_setWidth]
  have := n.counter.isLt
  omega

/-- The counter of a nonce fits. This is so by its type; what is shown below is that no way to come
by a nonce cuts a counter off. -/
theorem counterWord_lt (n : Nonce) : n.counterWord.toNat < 2 ^ 96 := by
  rw [toNat_counterWord]
  exact n.counter.isLt

/-- The space stands above the counter, without a gap and without overlap. -/
theorem toNat_encode (n : Nonce) :
    n.encode.toNat = n.space.toNat * 2 ^ 96 + n.counterWord.toNat := by
  rw [encode, BitVec.toNat_append, toNat_counterWord, Nat.shiftLeft_eq, Nat.mul_comm,
    Nat.two_pow_add_eq_or_of_lt n.counter.isLt]

/-- The space moved up and the counter share no bits and make up the word. -/
theorem encode_eq_or (n : Nonce) : n.encode = spaceWord n.space <<< 96 ||| n.counterWord := by
  rw [encode, BitVec.append_def, BitVec.shiftLeftZeroExtend_eq, spaceWord, counterWord,
    BitVec.setWidth'_eq]

/-- The space of a word is what is left when the word is moved down. -/
theorem spaceWord_decode (w : Word) : spaceWord (decode w).space = w >>> 96 := by
  apply BitVec.eq_of_toNat_eq
  rw [spaceWord, decode, BitVec.toNat_setWidth, BitVec.extractLsb'_toNat, BitVec.toNat_ushiftRight,
    Nat.shiftRight_eq_div_pow]
  have := w.isLt
  omega

/-- The counter of a word is what its low bits say. -/
theorem counterWord_decode (w : Word) :
    (decode w).counterWord = w &&& BitVec.ofNat 256 (2 ^ 96 - 1) := by
  apply BitVec.eq_of_toNat_eq
  rw [toNat_counterWord, decode, BitVec.extractLsb'_toNat, BitVec.toNat_and, BitVec.toNat_ofNat,
    Nat.mod_eq_of_lt (show 2 ^ 96 - 1 < 2 ^ 256 by decide), Nat.and_two_pow_sub_one_eq_mod]
  rfl

/-! ## Counters that are given as words -/

/-- A counter that fits makes a nonce, with the space and the counter as they are given. -/
theorem ofCounter_eq_ok {space : BitVec 160} {counter : Word} (fits : counter.toNat < 2 ^ 96) :
    ∃ n, ofCounter space counter = .ok n ∧ n.space = space ∧ n.counterWord = counter := by
  refine ⟨⟨space, counter.setWidth 96⟩, if_pos fits, rfl, ?_⟩
  apply BitVec.eq_of_toNat_eq
  rw [toNat_counterWord, BitVec.toNat_setWidth, Nat.mod_eq_of_lt fits]

/-- A nonce is what its own space and counter make. -/
theorem ofCounter_counterWord (n : Nonce) : ofCounter n.space n.counterWord = .ok n := by
  refine (if_pos n.counterWord_lt).trans ?_
  rw [counterWord, BitVec.setWidth_setWidth_of_le _ (by decide), BitVec.setWidth_eq]

/-- A counter that does not fit makes none. -/
theorem ofCounter_eq_error {space : BitVec 160} {counter : Word}
    (wide : 2 ^ 96 ≤ counter.toNat) :
    ofCounter space counter = .error (.counterTooWide counter.toNat) :=
  if_neg (Nat.not_lt.mpr wide)

/-- What a counter makes has this counter. -/
theorem counterWord_of_toOption {space : BitVec 160} {counter : Word} {n : Nonce}
    (made : (ofCounter space counter).toOption = some n) : n.counterWord = counter := by
  by_cases fits : counter.toNat < 2 ^ 96
  · obtain ⟨m, ok, -, same⟩ := @ofCounter_eq_ok space counter fits
    rw [ok] at made
    obtain rfl := Option.some.inj made
    exact same
  · rw [ofCounter_eq_error (Nat.not_lt.mp fits)] at made
    cases made

/-- The successor of a counter does not overflow a word, so that a counter which is too wide is
noticed. -/
theorem toNat_counterWord_add_one (n : Nonce) :
    (n.counterWord + 1).toNat = n.counterWord.toNat + 1 := by
  have := n.counterWord_lt
  have one : (1 : Word).toNat = 1 := rfl
  rw [BitVec.toNat_add, one]
  exact Nat.mod_eq_of_lt (by omega)

/-- Before the last counter of a space comes a next nonce, and its word is the next one. -/
theorem next_eq_ok {n : Nonce} (more : n.counterWord.toNat < 2 ^ 96 - 1) :
    ∃ m, n.next = .ok m ∧ m.space = n.space ∧ m.encode.toNat = n.encode.toNat + 1 := by
  have fits : (n.counterWord + 1).toNat < 2 ^ 96 := by
    rw [toNat_counterWord_add_one]
    omega
  obtain ⟨m, ok, space, counter⟩ := @ofCounter_eq_ok n.space _ fits
  refine ⟨m, ok, space, ?_⟩
  rw [toNat_encode, toNat_encode, space, counter, toNat_counterWord_add_one, Nat.add_assoc]

/-- The last counter of a space has no next one. -/
theorem next_last {n : Nonce} (last : ¬ n.counterWord.toNat < 2 ^ 96 - 1) :
    n.next = .error (.counterTooWide (2 ^ 96)) := by
  have all := n.counterWord_lt
  have wide : (n.counterWord + 1).toNat = 2 ^ 96 := by
    rw [toNat_counterWord_add_one]
    omega
  rw [next, ofCounter_eq_error (Nat.le_of_eq wide.symm), wide]

/-! ## Counters in JSON -/

/-- The counter that the JSON form of a nonce gives. -/
def counterOfJson? (j : Json) : Option Word := do
  let [_, counter] ← Json.fields? ["space", "counter"] j | none
  Json.required? (Json.word? 256) counter

end Nonce

/-- The counter that the JSON form of a bundle gives. -/
def Bundle.counterOfJson? (j : Json) : Option Word := do
  let [_, nonce] ← Json.fields? ["calls", "nonce"] j | none
  Json.optional? 0 Nonce.counterOfJson? nonce

/-- The counter that the JSON form of a signed bundle gives. -/
def SignedBundle.counterOfJson? (j : Json) : Option Word := do
  let [_, _, bundle, _] ← Json.fields? ["chainId", "wallet", "bundle", "signature"] j | none
  Json.required? Bundle.counterOfJson? bundle

/-- A nonce that is read has the counter that is given. -/
theorem Nonce.counterOfJson?_eq {j : Json} {n : Nonce} (read : ofJson? j = some n) :
    counterOfJson? j = some n.counterWord := by
  rw [ofJson?, Option.bind_eq_bind, Option.bind_eq_some_iff] at read
  obtain ⟨fields, shape, read⟩ := read
  rw [counterOfJson?, shape]
  split at read
  · obtain ⟨space, -, read⟩ := Option.bind_eq_some_iff.mp read
    obtain ⟨counter, given, made⟩ := Option.bind_eq_some_iff.mp read
    rw [counterWord_of_toOption made]
    exact given
  · cases read

/-- A bundle that is read has a nonce with the counter that is given. -/
theorem Bundle.counterOfJson?_eq {j : Json} {b : Bundle} (read : ofJson? j = some b) :
    counterOfJson? j = some b.nonce.counterWord := by
  rw [ofJson?, Option.bind_eq_bind, Option.bind_eq_some_iff] at read
  obtain ⟨fields, shape, read⟩ := read
  rw [counterOfJson?, shape]
  split at read
  · rename_i calls nonce
    obtain ⟨read_calls, -, read⟩ := Option.bind_eq_some_iff.mp read
    obtain ⟨n, given, read⟩ := Option.bind_eq_some_iff.mp read
    obtain rfl := Option.some.inj read
    change Json.optional? 0 Nonce.counterOfJson? nonce = some n.counterWord
    cases nonce with
    | none =>
      obtain rfl := Option.some.inj given
      rfl
    | some j => exact Nonce.counterOfJson?_eq given
  · cases read

/-- A signed bundle that is read has a nonce with the counter that is given. -/
theorem SignedBundle.counterOfJson?_eq {j : Json} {s : SignedBundle} (read : ofJson? j = some s) :
    counterOfJson? j = some s.bundle.nonce.counterWord := by
  rw [ofJson?, Option.bind_eq_bind, Option.bind_eq_some_iff] at read
  obtain ⟨fields, shape, read⟩ := read
  rw [counterOfJson?, shape]
  split at read
  · rename_i chain wallet bundle signature
    obtain ⟨read_chain, -, read⟩ := Option.bind_eq_some_iff.mp read
    obtain ⟨read_wallet, -, read⟩ := Option.bind_eq_some_iff.mp read
    obtain ⟨b, given, read⟩ := Option.bind_eq_some_iff.mp read
    obtain ⟨read_signature, -, read⟩ := Option.bind_eq_some_iff.mp read
    obtain rfl := Option.some.inj read
    obtain ⟨j, rfl, given⟩ := Option.bind_eq_some_iff.mp given
    exact Bundle.counterOfJson?_eq given
  · cases read

/-- The bundle of a file has a nonce with the counter that is given. -/
theorem BundleFile.counterWord_of_bundle {f : BundleFile} {b : Bundle}
    (made : f.bundle.toOption = some b) : b.nonce.counterWord = f.counter := by
  rw [bundle] at made
  cases result : Nonce.ofCounter f.space f.counter with
  | error e =>
    rw [result] at made
    cases made
  | ok n =>
    rw [result] at made
    obtain rfl := Option.some.inj made
    exact Nonce.counterWord_of_toOption (congrArg Except.toOption result)

/-! ## Ways to a nonce -/

/-- A way to come by a nonce: what it is made from, and how often the next one is taken. It has a
constructor for each function of the library that gives a nonce. -/
inductive Origin
  | first
  | pair (space : BitVec 160) (counter : Word)
  | word (w : Word)
  /-- the text of a nonce -/
  | json (text : String)
  /-- the text of a bundle -/
  | bundle (text : String)
  /-- the text of a signed bundle -/
  | signedBundle (text : String)
  /-- the text of a bundle file -/
  | file (text : String)
  /-- the next one of the nonce that another way leads to -/
  | successor (o : Origin)

namespace Origin

/-- The nonce, unless it is refused. -/
def nonce? : Origin → Option Nonce
  | first => some .zero
  | pair space counter => (Nonce.ofCounter space counter).toOption
  | word w => some (.decode w)
  | json text => (Json.parse? text).bind Nonce.ofJson?
  | bundle text => ((Json.parse? text).bind Bundle.ofJson?).map (·.nonce)
  | signedBundle text => (SignedBundle.parse? text).map (·.bundle.nonce)
  | file text => ((BundleFile.parse? text).bind (·.bundle.toOption)).map (·.nonce)
  | successor o => o.nonce?.bind (·.next.toOption)

/-- The counter that is asked for, however large it is. -/
def counter? : Origin → Option ℕ
  | first => some 0
  | pair _ counter => some counter.toNat
  | word w => some (w.toNat % 2 ^ 96)
  | json text => ((Json.parse? text).bind Nonce.counterOfJson?).map BitVec.toNat
  | bundle text => ((Json.parse? text).bind Bundle.counterOfJson?).map BitVec.toNat
  | signedBundle text => ((Json.parse? text).bind SignedBundle.counterOfJson?).map BitVec.toNat
  | file text => (BundleFile.parse? text).map (·.counter.toNat)
  | successor o => o.counter?.map (· + 1)

/-- A nonce has the counter that was asked for. The induction is over the way to come by it. -/
theorem counter?_eq {o : Origin} {n : Nonce} (made : o.nonce? = some n) :
    o.counter? = some n.counterWord.toNat := by
  induction o generalizing n with
  | first =>
    obtain rfl := Option.some.inj made
    rfl
  | pair space counter => rw [Nonce.counterWord_of_toOption made, counter?]
  | word w =>
    obtain rfl := Option.some.inj made
    rw [counter?, Nonce.toNat_counterWord, Nonce.decode, BitVec.extractLsb'_toNat]
    rfl
  | json text =>
    obtain ⟨j, parsed, read⟩ := Option.bind_eq_some_iff.mp made
    rw [counter?, parsed, Option.bind_some, Nonce.counterOfJson?_eq read, Option.map_some]
  | bundle text =>
    obtain ⟨b, read, rfl⟩ := Option.map_eq_some_iff.mp made
    obtain ⟨j, parsed, read⟩ := Option.bind_eq_some_iff.mp read
    rw [counter?, parsed, Option.bind_some, Bundle.counterOfJson?_eq read, Option.map_some]
  | signedBundle text =>
    obtain ⟨s, read, rfl⟩ := Option.map_eq_some_iff.mp made
    obtain ⟨j, parsed, read⟩ := Option.bind_eq_some_iff.mp read
    rw [counter?, parsed, Option.bind_some, SignedBundle.counterOfJson?_eq read, Option.map_some]
  | file text =>
    obtain ⟨b, read, rfl⟩ := Option.map_eq_some_iff.mp made
    obtain ⟨f, parsed, bundled⟩ := Option.bind_eq_some_iff.mp read
    rw [counter?, parsed, Option.map_some, BundleFile.counterWord_of_bundle bundled]
  | successor o ih =>
    obtain ⟨m, before, next⟩ := Option.bind_eq_some_iff.mp made
    rw [counter?, ih before, Nonce.counterWord_of_toOption next,
      Nonce.toNat_counterWord_add_one, Option.map_some]

/-- A counter that does not fit is refused, and not cut off. -/
theorem nonce?_eq_none {o : Origin} {c : ℕ} (asked : o.counter? = some c) (wide : 2 ^ 96 ≤ c) :
    o.nonce? = none := by
  rw [Option.eq_none_iff_forall_ne_some]
  intro n made
  rw [counter?_eq made] at asked
  obtain rfl := Option.some.inj asked
  have fits := n.counterWord_lt
  omega

end Origin

/-- Nonces and words are in bijection, and widths are kept: whatever a nonce is made from, it has
the counter that was asked for, which fits; and a counter that does not fit is refused. Different
spaces have disjoint words, and the next nonce of a space never carries into the space. -/
theorem nonce_packing :
    (∀ (o : Origin) n, o.nonce? = some n →
        o.counter? = some n.counterWord.toNat ∧ n.counterWord.toNat < 2 ^ 96) ∧
      (∀ (o : Origin) c, o.counter? = some c → 2 ^ 96 ≤ c → o.nonce? = none) ∧
      (∀ (space : BitVec 160) (counter : Word),
        (counter.toNat < 2 ^ 96 → ∃ n, Nonce.ofCounter space counter = .ok n ∧ n.space = space ∧
          n.counterWord = counter) ∧
        (2 ^ 96 ≤ counter.toNat →
          Nonce.ofCounter space counter = .error (.counterTooWide counter.toNat))) ∧
      (∀ n : Nonce, n.encode = Nonce.spaceWord n.space <<< 96 ||| n.counterWord ∧
        Nonce.decode n.encode = n) ∧
      (∀ w : Word, Nonce.spaceWord (Nonce.decode w).space = w >>> 96 ∧
        (Nonce.decode w).counterWord = w &&& BitVec.ofNat 256 (2 ^ 96 - 1) ∧
        (Nonce.decode w).encode = w) ∧
      (∀ m n : Nonce, m.space ≠ n.space → m.encode ≠ n.encode) ∧
      ∀ n : Nonce,
        (n.counterWord.toNat < 2 ^ 96 - 1 →
          ∃ m, n.next = .ok m ∧ m.space = n.space ∧ m.encode.toNat = n.encode.toNat + 1) ∧
        (¬ n.counterWord.toNat < 2 ^ 96 - 1 →
          ∃ e, n.next = .error e ∧ e.isComputation = false) := by
  refine ⟨fun o n made => ⟨Origin.counter?_eq made, n.counterWord_lt⟩,
    fun _ _ => Origin.nonce?_eq_none,
    fun _ _ => ⟨Nonce.ofCounter_eq_ok, Nonce.ofCounter_eq_error⟩,
    fun n => ⟨n.encode_eq_or, n.decode_encode⟩,
    fun w => ⟨Nonce.spaceWord_decode w, Nonce.counterWord_decode w, Nonce.encode_decode w⟩, ?_,
    fun n => ⟨Nonce.next_eq_ok, fun last => ⟨_, Nonce.next_last last, rfl⟩⟩⟩
  intro m n apart same
  apply apart
  rw [← m.decode_encode, same, n.decode_encode]

end MetaTransaction
