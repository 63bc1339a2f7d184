import Mathlib.Data.List.Basic
import MetaTransaction.Hex

/-!
# Texts of hexadecimal digits

What a text of digits writes, by its characters: their lower-case forms are the digits of the byte
string. `decode` works on the bytes of a text instead, where a character that is not ASCII has
several, and none of them is a digit.

* `decode_eq_ok_iff` — decoding by the numbers of the digits;
* `decode_ofChars_iff` — decoding by the characters;
* `decode_stripLower_iff` — decoding after an optional `0x`;
* `readFixed?_of_writes` — reading after an optional `0x` or `0X`;
* `isText_iff` — the texts that write a byte string of a given length;
* `decode_eq_badDigit_iff` — the byte that a text of even length is refused for.
-/

namespace MetaTransaction.Hex

/-! ## Digits -/

/-- A digit of either case. -/
def IsDigit (c : Char) : Prop :=
  '0' ≤ c ∧ c ≤ '9' ∨ 'a' ≤ c ∧ c ≤ 'f' ∨ 'A' ≤ c ∧ c ≤ 'F'

instance : DecidablePred IsDigit := fun _ => inferInstanceAs (Decidable (_ ∨ _))

/-- The numbers of the digits of a byte string. Lists of them stand between texts and byte strings
in the proofs below. -/
def nibbles (bytes : Bytes) : List UInt8 :=
  bytes.flatMap fun b => [b / 16, b % 16]

theorem nibbles_cons (b : UInt8) (bytes : Bytes) :
    nibbles (b :: bytes) = b / 16 :: b % 16 :: nibbles bytes :=
  rfl

theorem length_nibbles (bytes : Bytes) : (nibbles bytes).length = 2 * bytes.length := by
  induction bytes with
  | nil => rfl
  | cons b bytes ih => rw [nibbles_cons, List.length_cons, List.length_cons, ih]; simp; omega

theorem nibbles_lt {bytes : Bytes} : ∀ n ∈ nibbles bytes, n < 16 := by
  simp only [nibbles, List.mem_flatMap, List.mem_cons, List.not_mem_nil, or_false]
  rintro n ⟨b, -, rfl | rfl⟩
  · exact (high_low b).1
  · exact (high_low b).2.1

theorem chars_eq_map (bytes : Bytes) : chars bytes = (nibbles bytes).map digit := by
  induction bytes with
  | nil => rfl
  | cons b bytes ih => rw [nibbles_cons, List.map_cons, List.map_cons, ← ih]; rfl

/-- Two digits make one byte. -/
theorem byte_of_nibbles {high low : UInt8} (h : high < 16) (l : low < 16) :
    (high * 16 + low) / 16 = high ∧ (high * 16 + low) % 16 = low := by
  rw [UInt8.lt_iff_toNat_lt] at h l
  simp only [UInt8.reduceToNat] at h l
  constructor <;> rw [← UInt8.toNat_inj] <;>
    simp only [UInt8.toNat_div, UInt8.toNat_mod, UInt8.toNat_add, UInt8.toNat_mul,
      UInt8.reduceToNat] <;> omega

theorem value?_lt {c n : UInt8} (h : value? c = some n) : n < 16 := by
  have all : ∀ k < 256, ∀ n ∈ value? (UInt8.ofNat k), n < 16 := by decide +kernel
  exact all c.toNat c.toNat_lt n (by simpa using h)

/-! ## Bytes of a text -/

theorem decodeFrom_eq_ok_iff {read text bytes : Bytes} :
    decodeFrom read text = .ok bytes ↔
      ∃ more, bytes = read.reverse ++ more ∧ text.map value? = (nibbles more).map some := by
  fun_induction decodeFrom read text with
  | case1 read =>
    constructor
    · intro same
      exact ⟨[], by simpa using (Except.ok.inj same).symm, rfl⟩
    · rintro ⟨more, rfl, none⟩
      cases more with
      | nil => simp
      | cons => simp [nibbles_cons] at none
  | case2 read c =>
    refine iff_of_false (by simp) ?_
    rintro ⟨more, -, single⟩
    have := congrArg List.length single
    simp [length_nibbles] at this
    omega
  | case3 read a b rest none =>
    refine iff_of_false (by simp) ?_
    rintro ⟨more, -, same⟩
    cases more with
    | nil => cases same
    | cons => simp [nibbles_cons, none] at same
  | case4 read a b rest high _ none =>
    refine iff_of_false (by simp) ?_
    rintro ⟨more, -, same⟩
    cases more with
    | nil => cases same
    | cons => simp [nibbles_cons, none] at same
  | case5 read a b rest high hh low hl ih =>
    obtain ⟨upper, lower⟩ := byte_of_nibbles (value?_lt hh) (value?_lt hl)
    rw [ih]
    constructor
    · rintro ⟨more, rfl, same⟩
      refine ⟨(high * 16 + low) :: more, by simp, ?_⟩
      simp [nibbles_cons, upper, lower, hh, hl, same]
    · rintro ⟨more, rfl, same⟩
      cases more with
      | nil => cases same
      | cons c more =>
        obtain ⟨rfl, rfl, same⟩ : high = c / 16 ∧ low = c % 16 ∧ _ := by
          simpa [nibbles_cons, hh, hl] using same
        refine ⟨more, by simp [(high_low c).2.2], same⟩

/-- Decoding gives the byte string whose digits have the numbers of the bytes of the text. So what a
text is decoded to is determined byte by byte, without regard to the order of decoding. -/
theorem decode_eq_ok_iff {text bytes : Bytes} :
    decode text = .ok bytes ↔ text.map value? = (nibbles bytes).map some := by
  have all := @decodeFrom_eq_ok_iff [] text bytes
  rw [decode]
  split
  · refine iff_of_false (by simp) ?_
    intro same
    have := congrArg List.length same
    simp [length_nibbles] at this
    omega
  · simpa using all

theorem length_of_decode {text bytes : Bytes} (h : decode text = .ok bytes) :
    text.length = 2 * bytes.length := by
  have := congrArg List.length (decode_eq_ok_iff.mp h)
  simpa [length_nibbles] using this

/-! ## Characters of a text -/

/-- The bytes of a text. -/
def ofChars (text : List Char) : Bytes :=
  text.flatMap String.utf8EncodeChar

theorem utf8EncodeChar_of_ascii {c : Char} (ascii : c.toNat < 128) :
    String.utf8EncodeChar c = [UInt8.ofNat c.toNat] := by
  have : c.val.toNat ≤ 127 := Nat.le_of_lt_succ ascii
  simp only [String.utf8EncodeChar, this, if_true]
  rfl

/-- A character that is not ASCII has only bytes above. So it contains no byte of a digit. -/
theorem utf8EncodeChar_of_not_ascii {c : Char} (other : ¬ c.toNat < 128) :
    ∃ b bytes, String.utf8EncodeChar c = b :: bytes ∧ 128 ≤ b.toNat := by
  have : ¬ c.val.toNat ≤ 127 := fun h => other (Nat.lt_succ_of_le h)
  simp only [String.utf8EncodeChar, this, if_false]
  split
  · exact ⟨_, _, rfl, by simp; omega⟩
  · split
    · exact ⟨_, _, rfl, by simp; omega⟩
    · exact ⟨_, _, rfl, by simp; omega⟩

theorem value?_of_large {b : UInt8} (large : 128 ≤ b.toNat) : value? b = none := by
  have all : ∀ k < 256, 128 ≤ k → value? (UInt8.ofNat k) = none := by decide +kernel
  simpa using all b.toNat b.toNat_lt large

/-- An ASCII character is the digit of a number just when it is this digit in lower case. -/
theorem value?_iff_toLower {c : Char} (ascii : c.toNat < 128) {n : UInt8} (small : n < 16) :
    value? (UInt8.ofNat c.toNat) = some n ↔ c.toLower = digit n := by
  have all : ∀ k < 128, ∀ m < 16, value? (UInt8.ofNat k) = some (UInt8.ofNat m) ↔
      (Char.ofNat k).toLower = digit (UInt8.ofNat m) := by decide +kernel
  have := all c.toNat ascii n.toNat (by simpa [UInt8.lt_iff_toNat_lt] using small)
  simpa using this

theorem toLower_of_not_ascii {c : Char} (other : ¬ c.toNat < 128) {n : UInt8} (small : n < 16) :
    c.toLower ≠ digit n := by
  have all : ∀ m < 16, (digit (UInt8.ofNat m)).toNat < 128 := by decide
  have ascii := all n.toNat (by simpa [UInt8.lt_iff_toNat_lt] using small)
  have unchanged : c.toLower = c := by
    apply dif_neg
    rintro ⟨-, upper⟩
    have : c.val.toNat ≤ 90 := upper
    exact other (Nat.lt_of_le_of_lt this (by decide))
  rintro same
  rw [unchanged] at same
  rw [UInt8.ofNat_toNat, ← same] at ascii
  exact other ascii

/-- The bytes of a text are the digits of some numbers just when its characters are, in lower case.
Decoding works on bytes, and texts are stated in characters; this is where they meet. -/
theorem map_value?_ofChars {text : List Char} {numbers : List UInt8}
    (small : ∀ n ∈ numbers, n < 16) :
    (ofChars text).map value? = numbers.map some ↔
      text.map Char.toLower = numbers.map digit := by
  induction text generalizing numbers with
  | nil => cases numbers <;> simp [ofChars]
  | cons c text ih =>
    have split : ofChars (c :: text) = String.utf8EncodeChar c ++ ofChars text := List.flatMap_cons
    cases numbers with
    | nil =>
      by_cases ascii : c.toNat < 128
      · simp [split, utf8EncodeChar_of_ascii ascii]
      · obtain ⟨b, bytes, encoded, -⟩ := utf8EncodeChar_of_not_ascii ascii
        simp [split, encoded]
    | cons n numbers =>
      obtain ⟨first, others⟩ := List.forall_mem_cons.mp small
      by_cases ascii : c.toNat < 128
      · simp [split, utf8EncodeChar_of_ascii ascii, value?_iff_toLower ascii first, ih others]
      · obtain ⟨b, bytes, encoded, large⟩ := utf8EncodeChar_of_not_ascii ascii
        simp [split, encoded, value?_of_large large, toLower_of_not_ascii ascii first]

/-- A text is decoded to the byte string whose digits are its characters in lower case. -/
theorem decode_ofChars_iff {text : List Char} {bytes : Bytes} :
    decode (ofChars text) = .ok bytes ↔ text.map Char.toLower = chars bytes := by
  rw [decode_eq_ok_iff, map_value?_ofChars nibbles_lt, chars_eq_map]

/-! ## Marks -/

/-- A text of some digits after an optional `0x`. -/
def Marked (text : String) (digits : List Char) : Prop :=
  text.toList = digits ∨ text.toList = '0' :: 'x' :: digits

/-- A text whose characters after an optional `0x` are, in lower case, the digits of a byte string.
What readers accept is stated with it, whatever their order of checks. -/
def Writes (text : String) (bytes : Bytes) : Prop :=
  ∃ digits, Marked text digits ∧ digits.map Char.toLower = chars bytes

/-- A text of `n` digits of either case after an optional `0x`. -/
def IsText (n : ℕ) (text : String) : Prop :=
  ∃ digits, Marked text digits ∧ digits.length = n ∧ ∀ c ∈ digits, IsDigit c

/-- An ASCII byte at the start of a text is its first character. -/
theorem ofChars_eq_cons {text : List Char} {b : UInt8} {bytes : Bytes} (ascii : b.toNat < 128)
    (same : ofChars text = b :: bytes) :
    ∃ rest, text = Char.ofNat b.toNat :: rest ∧ ofChars rest = bytes := by
  cases text with
  | nil => cases same
  | cons c text =>
    have split : ofChars (c :: text) = String.utf8EncodeChar c ++ ofChars text := List.flatMap_cons
    rw [split] at same
    by_cases low : c.toNat < 128
    · rw [utf8EncodeChar_of_ascii low] at same
      obtain ⟨rfl, rfl⟩ := List.cons.inj same
      have : c.toNat % 256 = c.toNat := Nat.mod_eq_of_lt (by omega)
      exact ⟨text, by simp [this], rfl⟩
    · obtain ⟨b', bytes', encoded, large⟩ := utf8EncodeChar_of_not_ascii low
      rw [encoded] at same
      obtain ⟨rfl, -⟩ := List.cons.inj same
      omega

/-- A mark is taken off a text by its characters. -/
theorem stripLower_ofString (text : String) :
    (∃ digits, text.toList = '0' :: 'x' :: digits ∧
        stripLower (Bytes.ofString text) = ofChars digits) ∨
      (∀ digits, text.toList ≠ '0' :: 'x' :: digits) ∧
        stripLower (Bytes.ofString text) = ofChars text.toList := by
  by_cases marked : ∃ digits, text.toList = '0' :: 'x' :: digits
  · obtain ⟨digits, marked⟩ := marked
    refine .inl ⟨digits, marked, ?_⟩
    rw [Bytes.ofString, marked]
    rfl
  · refine .inr ⟨fun digits same => marked ⟨digits, same⟩, ?_⟩
    change stripLower (ofChars text.toList) = ofChars text.toList
    rw [stripLower.eq_def]
    split
    · rename_i rest starts
      obtain ⟨more, first, starts⟩ := ofChars_eq_cons (by decide) starts
      obtain ⟨digits, second, -⟩ := ofChars_eq_cons (by decide) starts
      exact absurd ⟨digits, by rw [first, second]; rfl⟩ marked
    · rfl

/-- The characters of a text without one leading `0x`. -/
def unmarked : List Char → List Char
  | '0' :: 'x' :: rest => rest
  | text => text

theorem stripLower_ofString_eq (text : String) :
    stripLower (Bytes.ofString text) = ofChars (unmarked text.toList) := by
  rcases stripLower_ofString text with ⟨digits, marked, stripped⟩ | ⟨plain, stripped⟩
  · rw [stripped, marked]
    rfl
  · rw [stripped, unmarked.eq_def]
    split
    · rename_i digits marked
      exact absurd marked (plain digits)
    · rfl

/-- No digit is an `x`, so that digits cannot be taken for a mark. -/
theorem x_not_mem_chars (bytes : Bytes) : 'x' ∉ chars bytes := by
  rw [chars_eq_map, List.mem_map]
  rintro ⟨n, mem, same⟩
  have all : ∀ m < 16, digit (UInt8.ofNat m) ≠ 'x' := by decide
  exact all n.toNat (by simpa [UInt8.lt_iff_toNat_lt] using nibbles_lt n mem) (by simpa using same)

/-- A text is decoded to the byte string that it writes. -/
theorem decode_stripLower_iff {text : String} {bytes : Bytes} :
    decode (stripLower (Bytes.ofString text)) = .ok bytes ↔ Writes text bytes := by
  rcases stripLower_ofString text with ⟨digits, marked, stripped⟩ | ⟨unmarked, stripped⟩
  · rw [stripped, decode_ofChars_iff]
    constructor
    · intro same
      exact ⟨digits, .inr marked, same⟩
    · rintro ⟨others, plain | marked', same⟩
      · -- the mark itself is no digit
        exfalso
        apply x_not_mem_chars bytes
        rw [← same, ← plain, marked]
        exact List.mem_cons_of_mem _ List.mem_cons_self
      · rw [marked] at marked'
        cases marked'
        exact same
  · rw [stripped, decode_ofChars_iff]
    constructor
    · intro same
      exact ⟨_, .inl rfl, same⟩
    · rintro ⟨others, rfl | marked, same⟩
      · exact same
      · exact absurd marked (unmarked others)

/-- Readers that also take `0X` off decode what the others decode: an `X` that is left is no digit.
So there is no text that two of them decode differently. -/
theorem decode_strip_of_decode_stripLower {text bytes : Bytes}
    (decoded : decode (stripLower text) = .ok bytes) : decode (strip text) = .ok bytes := by
  rw [strip.eq_def]
  split
  · exact decoded
  · -- the mark was kept and decoded, but its `X` has no number
    rename_i rest
    exfalso
    have numbers : value? 48 :: value? 88 :: rest.map value? = (nibbles bytes).map some :=
      decode_eq_ok_iff.mp decoded
    have mem : none ∈ (nibbles bytes).map some := by
      rw [← numbers]
      exact List.mem_cons_of_mem _ List.mem_cons_self
    simp at mem
  · rename_i unmarked _
    rw [stripLower.eq_def] at decoded
    split at decoded
    · exact absurd rfl (unmarked _)
    · exact decoded

/-- A text is read as the byte string that it writes. -/
theorem readFixed?_of_writes {n : ℕ} {text : String} {b : FixedBytes n}
    (writes : Writes text b.bytes) : readFixed? n text = some b := by
  have decoded := decode_strip_of_decode_stripLower (decode_stripLower_iff.mpr writes)
  rw [readFixed?, read?, decoded]
  exact FixedBytes.ofBytes?_bytes b

/-! ## Texts by their length -/

/-- A digit is one of the sixteen in lower case. -/
theorem isDigit_iff {c : Char} : IsDigit c ↔ ∃ n < 16, c.toLower = digit n := by
  by_cases ascii : c.toNat < 128
  · have all : ∀ k < 128, IsDigit (Char.ofNat k) ↔
        ∃ m, m < 16 ∧ (Char.ofNat k).toLower = digit (UInt8.ofNat m) := by decide +kernel
    have of := all c.toNat ascii
    rw [Char.ofNat_toNat] at of
    rw [of]
    constructor
    · rintro ⟨m, small, same⟩
      refine ⟨UInt8.ofNat m, ?_, same⟩
      rw [UInt8.lt_iff_toNat_lt]
      simp
      omega
    · rintro ⟨n, small, same⟩
      exact ⟨n.toNat, by simpa [UInt8.lt_iff_toNat_lt] using small, by simpa using same⟩
  · refine iff_of_false ?_ ?_
    · rintro (⟨-, upper⟩ | ⟨-, upper⟩ | ⟨-, upper⟩) <;>
        exact ascii (Nat.lt_of_le_of_lt (show c.toNat ≤ _ from upper) (by decide))
    · rintro ⟨n, small, same⟩
      exact toLower_of_not_ascii ascii small same

/-- An even number of digits writes a byte string. The induction takes off two digits at a time. -/
theorem exists_chars {n : ℕ} {digits : List Char} (length : digits.length = 2 * n)
    (all : ∀ c ∈ digits, IsDigit c) :
    ∃ bytes : Bytes, bytes.length = n ∧ digits.map Char.toLower = chars bytes := by
  induction n generalizing digits with
  | zero =>
    obtain rfl := List.length_eq_zero_iff.mp length
    exact ⟨[], rfl, rfl⟩
  | succ n ih =>
    match digits, length with
    | a :: b :: digits, length =>
      simp only [List.forall_mem_cons] at all
      obtain ⟨first, second, all⟩ := all
      obtain ⟨high, hh, upper⟩ := isDigit_iff.mp first
      obtain ⟨low, hl, lower⟩ := isDigit_iff.mp second
      obtain ⟨bytes, rfl, same⟩ := ih (by simp at length; omega) all
      obtain ⟨quotient, remainder⟩ := byte_of_nibbles hh hl
      refine ⟨(high * 16 + low) :: bytes, rfl, ?_⟩
      rw [chars_eq_map, nibbles_cons, quotient, remainder, List.map_cons, List.map_cons,
        List.map_cons, List.map_cons, ← chars_eq_map, upper, lower, same]

/-- A text writes some byte string when it has two digits for each byte. -/
theorem isText_iff {n : ℕ} {text : String} :
    IsText (2 * n) text ↔ ∃ bytes, bytes.length = n ∧ Writes text bytes := by
  constructor
  · rintro ⟨digits, marked, length, all⟩
    obtain ⟨bytes, rfl, same⟩ := exists_chars length all
    exact ⟨bytes, rfl, digits, marked, same⟩
  · rintro ⟨bytes, rfl, digits, marked, same⟩
    rw [chars_eq_map] at same
    refine ⟨digits, marked, ?_, ?_⟩
    · simpa [length_nibbles] using congrArg List.length same
    · intro c mem
      have mem' : c.toLower ∈ (nibbles bytes).map digit := same ▸ List.mem_map_of_mem mem
      obtain ⟨n, small, same⟩ := List.mem_map.mp mem'
      exact isDigit_iff.mpr ⟨n, nibbles_lt n small, same.symm⟩

/-! ## Bad digits -/

/-- A byte that is the code of a digit of either case. -/
def IsDigitByte (b : UInt8) : Prop :=
  IsDigit (Char.ofNat b.toNat)

instance : DecidablePred IsDigitByte := fun _ => inferInstanceAs (Decidable (IsDigit _))

theorem value?_eq_none_iff {b : UInt8} : value? b = none ↔ ¬ IsDigitByte b := by
  have all : ∀ k < 256, value? (UInt8.ofNat k) = none ↔ ¬ IsDigitByte (UInt8.ofNat k) := by
    decide +kernel
  simpa using all b.toNat b.toNat_lt

theorem isDigitByte_of_value? {b n : UInt8} (value : value? b = some n) : IsDigitByte b := by
  by_contra bad
  rw [value?_eq_none_iff.mpr bad] at value
  cases value

/-- The first byte of a text that is no digit, with the number of bytes before it. -/
def FirstBad (text : Bytes) (d : BadDigit) : Prop :=
  ∃ before after, text = before ++ d.byte :: after ∧ before.length = d.position ∧
    (∀ b ∈ before, IsDigitByte b) ∧ ¬ IsDigitByte d.byte

theorem firstBad_nil {d : BadDigit} : ¬ FirstBad [] d := by
  rintro ⟨before, after, empty, -⟩
  simp at empty

/-- The first bad byte is the first byte, or one place further than in the rest. -/
theorem firstBad_cons_iff {c : UInt8} {text : Bytes} {d : BadDigit} :
    FirstBad (c :: text) d ↔ ¬ IsDigitByte c ∧ d = ⟨c, 0⟩ ∨
      IsDigitByte c ∧ ∃ e, FirstBad text e ∧ d = ⟨e.byte, e.position + 1⟩ := by
  constructor
  · obtain ⟨byte, position⟩ := d
    rintro ⟨before, after, split, rfl, digits, bad⟩
    cases before with
    | nil =>
      obtain ⟨rfl, -⟩ := List.cons.inj split
      exact .inl ⟨bad, rfl⟩
    | cons b before =>
      obtain ⟨rfl, rfl⟩ := List.cons.inj split
      obtain ⟨first, digits⟩ := List.forall_mem_cons.mp digits
      exact .inr ⟨first, ⟨byte, before.length⟩, ⟨before, after, rfl, rfl, digits, bad⟩, rfl⟩
  · rintro (⟨bad, rfl⟩ | ⟨first, e, ⟨before, after, rfl, place, digits, bad⟩, rfl⟩)
    · exact ⟨[], text, rfl, rfl, nofun, bad⟩
    · exact ⟨c :: before, after, rfl, by rw [← place]; rfl,
        List.forall_mem_cons.mpr ⟨first, digits⟩, bad⟩

/-- Decoding fails with the first byte that is no digit, in the high place of a byte or in the low
one, and counts what has been read before. -/
theorem decodeFrom_eq_badDigit_iff {read text : Bytes} {d : BadDigit}
    (even : text.length % 2 = 0) :
    decodeFrom read text = .error (.badDigit d) ↔
      ∃ e, FirstBad text e ∧ d = ⟨e.byte, 2 * read.length + e.position⟩ := by
  fun_induction decodeFrom read text with
  | case1 read => simp [firstBad_nil]
  | case2 read c => simp at even
  | case3 read a b rest none =>
    simp [firstBad_cons_iff, value?_eq_none_iff.mp none, eq_comm]
  | case4 read a b rest high value none =>
    simp [firstBad_cons_iff, isDigitByte_of_value? value, value?_eq_none_iff.mp none, eq_comm]
  | case5 read a b rest high hh low hl ih =>
    have place : ∀ n, 2 * (read.length + 1) + n = 2 * read.length + (n + 1 + 1) := by omega
    rw [ih (by simp at even; omega)]
    simp [firstBad_cons_iff, isDigitByte_of_value? hh, isDigitByte_of_value? hl, place]

/-- In an even number of digits none stands alone. -/
theorem decode_ne_oddLength {text : Bytes} (even : text.length % 2 = 0) :
    decode text ≠ .error .oddLength := by
  rw [decode, if_neg (by omega)]
  generalize ([] : Bytes) = read
  fun_induction decodeFrom read text with
  | case1 => simp
  | case2 => simp at even
  | case3 => simp
  | case4 => simp
  | case5 read a b rest high _ low _ ih => exact ih (by simp at even; omega)

/-- A text of even length is refused for the first byte that is no digit. -/
theorem decode_eq_badDigit_iff {text : Bytes} {d : BadDigit} (even : text.length % 2 = 0) :
    decode text = .error (.badDigit d) ↔ FirstBad text d := by
  rw [decode, if_neg (by omega), decodeFrom_eq_badDigit_iff even]
  constructor
  · rintro ⟨⟨byte, position⟩, bad, rfl⟩
    simpa using bad
  · intro bad
    exact ⟨d, bad, by simp⟩

end MetaTransaction.Hex
