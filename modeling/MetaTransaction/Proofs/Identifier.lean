import MetaTransaction.Identifier
import MetaTransaction.Proofs.Hex

/-!
# Texts of identifiers

The text of an identifier reads back as the identifier, so that going through it loses nothing. All
other texts are refused, for their length or for the first byte that is no digit.

* `read_text`, `read_text_after_mark` — reading back;
* `read_eq_ok_iff` — the texts that are read as an identifier;
* `derive_eq_ok` — a scheme that gives thirty-two bytes derives the identifier with these bytes;
* `text_of_identifier_exact` — what is read from every text, and what is derived from all bytes.
-/

namespace MetaTransaction

/-- The text of a byte string has two digits for each byte. -/
theorem Hex.length_encode (bytes : Bytes) : (encode bytes).length = 2 * bytes.length := by
  rw [encode, String.length_ofList]
  induction bytes with
  | nil => rfl
  | cons b bytes ih =>
    rw [chars, List.flatMap_cons, List.length_append, ← chars, ih, List.length_cons]
    change 2 + _ = _
    omega

/-- Digits do not start with `0x`. -/
theorem Hex.stripLower_encode (bytes : Bytes) :
    stripLower (Bytes.ofString (encode bytes)) = Bytes.ofString (encode bytes) := by
  cases bytes with
  | nil => rfl
  | cons b bytes =>
    have second := (value?_digit _ (high_low b).2.1).1
    rw [ofString_encode_cons]
    rw [stripLower.eq_def]
    split
    · -- the letter `x` is no digit
      rename_i starts
      obtain ⟨-, letter⟩ := List.cons.inj starts
      rw [(List.cons.inj letter).1] at second
      cases second
    · rfl

namespace Identifier

/-- The text of an identifier reads back. -/
theorem read_text (id : Identifier) : read id.text = .ok id := by
  have width : (Bytes.ofString id.text).length = textLength := by
    rw [text, Hex.length_ofString_encode, id.hash.length_bytes]
    rfl
  simp only [read]
  rw [text, Hex.stripLower_encode, ← text, if_neg (not_not_intro width), text, Hex.decode_encode]
  simp only
  rw [dif_pos id.hash.length_bytes]

/-- The text may stand after `0x`. -/
theorem read_text_after_mark (id : Identifier) : read ("0x" ++ id.text) = .ok id := by
  have stripped : Hex.stripLower (Bytes.ofString ("0x" ++ id.text)) =
      Hex.stripLower (Bytes.ofString id.text) := by
    rw [text, Hex.stripLower_encode, Bytes.ofString, String.toList_append]
    rfl
  have same : read ("0x" ++ id.text) = read id.text := by
    simp only [read, stripped]
  rw [same, read_text]

/-! ## Reading -/

/-- The bytes of a text after one mark. -/
def digits (s : String) : Bytes :=
  Hex.ofChars (Hex.unmarked s.toList)

/-- What is read from a text. The four conditions on the outcome leave nothing open: each text is
read or refused, and it is known for which reason. -/
structure ReadsAs (s : String) : Prop where
  /-- sixty-four digits of either case after an optional `0x` are read, and nothing else is -/
  accepted : (∃ id, read s = .ok id) ↔ Hex.IsText 64 s
  /-- the identifier's text has the same digits, in lower case -/
  shown : ∀ id, read s = .ok id →
    id.text = String.ofList ((Hex.unmarked s.toList).map Char.toLower)
  /-- otherwise the input is to blame -/
  refused : ∀ e, read s = .error e → e.isComputation = false
  /-- for its length, just when it has not sixty-four bytes -/
  length : ∀ n, read s = .error (.identifierLength n) ↔ (digits s).length = n ∧ n ≠ 64
  /-- and else for the first byte that is no digit -/
  digit : ∀ d, read s = .error (.identifierDigit d) ↔
    (digits s).length = 64 ∧ Hex.FirstBad (digits s) d

/-- A text is read as an identifier just when it writes the bytes of its hash. -/
theorem read_eq_ok_iff {s : String} {id : Identifier} :
    read s = .ok id ↔ Hex.Writes s id.hash.bytes := by
  rw [← Hex.decode_stripLower_iff, read]
  split
  · rename_i length
    refine iff_of_false (by simp) ?_
    intro decoded
    have := Hex.length_of_decode decoded
    rw [id.hash.length_bytes] at this
    exact length this
  · rename_i length
    split <;> rename_i decoded <;> rw [decoded]
    · simp
    · simp
    · rename_i bytes
      have : bytes.length = 32 := by
        have := Hex.length_of_decode decoded
        have : (Hex.stripLower (Bytes.ofString s)).length = 64 := not_not.mp length
        omega
      obtain ⟨⟨other, long⟩⟩ := id
      simp [this]

section

variable {s : String}

/-- A text of another length is refused for it. -/
theorem read_of_length (other : (digits s).length ≠ 64) :
    read s = .error (.identifierLength (digits s).length) := by
  rw [read, Hex.stripLower_ofString_eq]
  exact if_pos other

/-- A text of sixty-four bytes is refused for its first bad byte, even if more bytes are bad. -/
theorem read_of_firstBad {d : Hex.BadDigit} (length : (digits s).length = 64)
    (bad : Hex.FirstBad (digits s) d) : read s = .error (.identifierDigit d) := by
  have decoded := (Hex.decode_eq_badDigit_iff (by rw [length])).mpr bad
  rw [digits] at length decoded
  simp only [read, Hex.stripLower_ofString_eq, length, decoded]
  rfl

/-- Sixty-four bytes without a bad one are an identifier. -/
theorem read_of_no_bad (length : (digits s).length = 64)
    (good : ∀ d, ¬ Hex.FirstBad (digits s) d) : ∃ id, read s = .ok id := by
  have even : (digits s).length % 2 = 0 := by rw [length]
  cases decoded : Hex.decode (digits s) with
  | ok bytes =>
    have width := Hex.length_of_decode decoded
    rw [digits, ← Hex.stripLower_ofString_eq, Hex.decode_stripLower_iff] at decoded
    exact ⟨⟨bytes, by omega⟩, read_eq_ok_iff.mpr decoded⟩
  | error e =>
    cases e with
    | oddLength => exact absurd decoded (Hex.decode_ne_oddLength even)
    | badDigit d => exact absurd ((Hex.decode_eq_badDigit_iff even).mp decoded) (good d)

/-- Every text is refused for its length or for its first bad byte, or is read. -/
theorem read_cases (s : String) :
    ((digits s).length ≠ 64 ∧ read s = .error (.identifierLength (digits s).length)) ∨
      (∃ d, (digits s).length = 64 ∧ Hex.FirstBad (digits s) d ∧
        read s = .error (.identifierDigit d)) ∨
      ∃ id, read s = .ok id := by
  by_cases length : (digits s).length = 64
  · by_cases bad : ∃ d, Hex.FirstBad (digits s) d
    · obtain ⟨d, bad⟩ := bad
      exact .inr (.inl ⟨d, length, bad, read_of_firstBad length bad⟩)
    · exact .inr (.inr (read_of_no_bad length (not_exists.mp bad)))
  · exact .inl ⟨length, read_of_length length⟩

/-- Every text is read in this way. The outcomes exclude each other, and `read_cases` says that
there is no other. -/
theorem readsAs (s : String) : ReadsAs s where
  accepted := by
    rw [show 64 = 2 * 32 from rfl, Hex.isText_iff]
    constructor
    · rintro ⟨id, ok⟩
      exact ⟨_, id.hash.length_bytes, read_eq_ok_iff.mp ok⟩
    · rintro ⟨bytes, length, writes⟩
      exact ⟨⟨⟨bytes, length⟩⟩, read_eq_ok_iff.mpr writes⟩
  shown := by
    intro id ok
    rw [read_eq_ok_iff, ← Hex.decode_stripLower_iff, Hex.stripLower_ofString_eq,
      Hex.decode_ofChars_iff] at ok
    rw [ok]
    rfl
  refused := by
    intro e failed
    rcases read_cases s with ⟨-, same⟩ | ⟨d, -, -, same⟩ | ⟨id, same⟩ <;> rw [same] at failed
    · cases failed
      rfl
    · cases failed
      rfl
    · cases failed
  length := by
    intro n
    constructor
    · intro failed
      rcases read_cases s with ⟨other, same⟩ | ⟨d, -, -, same⟩ | ⟨id, same⟩ <;> rw [same] at failed
      · cases failed
        exact ⟨rfl, other⟩
      · cases failed
      · cases failed
    · rintro ⟨rfl, other⟩
      exact read_of_length other
  digit := by
    intro d
    constructor
    · intro failed
      rcases read_cases s with ⟨-, same⟩ | ⟨d, length, bad, same⟩ | ⟨id, same⟩ <;>
        rw [same] at failed
      · cases failed
      · cases failed
        exact ⟨length, bad⟩
      · cases failed
    · rintro ⟨length, bad⟩
      exact read_of_firstBad length bad

end

/-! ## Deriving -/

/-- A scheme that gives thirty-two bytes derives the identifier with these bytes. -/
theorem derive_eq_ok {scheme : Scheme} {chain : ChainId} {wallet : Address} {digest : Hash}
    {id : Identifier} (h : scheme chain wallet digest = id.hash.bytes) :
    derive scheme chain wallet digest = .ok id := by
  have width : (Hex.encode id.hash.bytes).length = textLength := by
    rw [Hex.length_encode, id.hash.length_bytes]
    rfl
  simp only [derive]
  rw [h, if_neg (not_not_intro width)]
  exact read_text id

/-- What a scheme derives. -/
structure DerivesAs (scheme : Scheme) (chain : ChainId) (wallet : Address) (digest : Hash) :
    Prop where
  /-- the identifier with the bytes that the scheme gives -/
  exact : ∀ id, derive scheme chain wallet digest = .ok id ↔
    id.hash.bytes = scheme chain wallet digest
  /-- there is none only for another number of bytes, and then the computation is to blame -/
  refused : ∀ e, derive scheme chain wallet digest = .error e →
    (scheme chain wallet digest).length ≠ 32 ∧ e.isComputation

/-- Every scheme derives in this way, since the bytes that it gives go through their text
unchanged. -/
theorem derivesAs (scheme : Scheme) (chain : ChainId) (wallet : Address) (digest : Hash) :
    DerivesAs scheme chain wallet digest := by
  by_cases length : (scheme chain wallet digest).length = 32
  · have derived : derive scheme chain wallet digest = .ok ⟨⟨_, length⟩⟩ := derive_eq_ok rfl
    constructor
    · intro id
      rw [derived]
      constructor
      · intro same
        cases same
        rfl
      · intro same
        obtain ⟨⟨bytes, _⟩⟩ := id
        subst same
        rfl
    · intro e failed
      rw [derived] at failed
      cases failed
  · have width : (Hex.encode (scheme chain wallet digest)).length ≠ textLength := by
      rw [Hex.length_encode, textLength]
      omega
    have failed : derive scheme chain wallet digest = .error (.identifierWidth _) := if_pos width
    constructor
    · intro id
      rw [failed]
      refine iff_of_false nofun fun same => length ?_
      rw [← same, id.hash.length_bytes]
    · intro e failed'
      rw [failed] at failed'
      cases failed'
      exact ⟨length, rfl⟩

/-- Texts of identifiers are exact: what is read from a text has just its digits, what an identifier
is written as reads back, and a scheme gets its bytes through the text unchanged. Any other text is
refused, with the reason that comes first. -/
theorem text_of_identifier_exact :
    (∀ s, ReadsAs s) ∧
    (∀ id : Identifier, read id.text = .ok id ∧ read ("0x" ++ id.text) = .ok id) ∧
    ∀ scheme chain wallet digest, DerivesAs scheme chain wallet digest :=
  ⟨readsAs, fun id => ⟨read_text id, read_text_after_mark id⟩, derivesAs⟩

end Identifier

end MetaTransaction
