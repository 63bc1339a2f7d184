import MetaTransaction.Json.Printer
import MetaTransaction.Json.Token

/-!
# Tokens of a written value

The compact text of a value is read as the tokens of the value. Numbers that are not natural keep
the literal that they were read from, so that only values without them are spoken of: they are
`Plain`, and so is everything that is built from words, byte strings and flags.

A number ends only where something else begins. `Reads` therefore speaks of a text before any rest
that starts with what may stand after a key or a value.

* `reads_natural`, `reads_quote` — numbers and strings read as their tokens;
* `reads_items`, `reads_members` — what stands in a container does, where its values do;
* `Plain.tokens?_compact` — the tokens of a text.
-/

namespace MetaTransaction

namespace Numeral

theorem digitValue?_digitChar {n : Nat} (h : n < 16) :
    digitValue? (Nat.digitChar n) = some n := by
  have small : ∀ k < 16, digitValue? (Nat.digitChar k) = some k := by decide
  exact small n h

theorem hexDigit?_digitChar {n : Nat} (h : n < 16) : hexDigit? (Nat.digitChar n) = some n := by
  simp [hexDigit?, digitValue?_digitChar h, h]

end Numeral

namespace Json

/-- A value without numbers that are not natural. All that is written by the forms of this library
is plain; other numbers are kept as they were read. -/
inductive Plain : Json → Prop
  | null : Plain .null
  | bool (b : Bool) : Plain (.bool b)
  | natural (n : Nat) : Plain (.natural n)
  | string (s : String) : Plain (.string s)
  | brokenString : Plain .brokenString
  | array {items : List Json} (h : ∀ item ∈ items, Plain item) : Plain (.array items)
  | object {members : List (Option String × Json)} (h : ∀ m ∈ members, Plain m.2) :
    Plain (.object members)

mutual

/-- The tokens of a value. -/
def tokens : Json → List Token
  | .null => [.null]
  | .bool b => [.bool b]
  | .natural n => [.natural n]
  | .number literal => [.number literal]
  | .string s => [.string (some s)]
  | .brokenString => [.string none]
  | .array items => .openArray :: itemsTokens items
  | .object members => .openObject :: membersTokens members

/-- The tokens of the items of an array and of its end. -/
def itemsTokens : List Json → List Token
  | [] => [.closeArray]
  | [item] => item.tokens ++ [.closeArray]
  | item :: items => item.tokens ++ .comma :: itemsTokens items

/-- The tokens of the members of an object and of its end. -/
def membersTokens : List (Option String × Json) → List Token
  | [] => [.closeObject]
  | [(key, value)] => .string key :: .colon :: value.tokens ++ [.closeObject]
  | (key, value) :: members =>
    .string key :: .colon :: value.tokens ++ .comma :: membersTokens members

end

theorem itemsTokens_cons_cons (item next : Json) (items : List Json) :
    itemsTokens (item :: next :: items) = item.tokens ++ .comma :: itemsTokens (next :: items) :=
  rfl

theorem membersTokens_cons_cons (m next : Option String × Json)
    (members : List (Option String × Json)) :
    membersTokens (m :: next :: members) =
      .string m.1 :: .colon :: m.2.tokens ++ .comma :: membersTokens (next :: members) :=
  rfl

/-! ## Texts and their tokens -/

/-- What may stand after a key or a value. -/
def followers : List Char :=
  [',', ':', ']', '\x7d']

/-- A text before which a key or a value may end. Where a number ends depends on what follows it,
and on nothing else in a compact text. -/
def Ends (rest : List Char) : Prop :=
  ∀ c ∈ rest.head?, c ∈ followers

theorem ends_nil : Ends [] := by
  simp [Ends]

theorem ends_cons {c : Char} (h : c ∈ followers) (rest : List Char) : Ends (c :: rest) := by
  simpa [Ends] using h

/-- A text reads as tokens wherever a value may end after it. The tokens before it are generalized,
so that texts can be put together. -/
def Reads (text : List Char) (ts : List Token) : Prop :=
  ∀ tokens rest, Ends rest →
    tokensFrom .between tokens (text ++ rest) = tokensFrom .between (ts.reverse ++ tokens) rest

namespace Reads

variable {text text' : List Char} {ts ts' : List Token}

theorem nil : Reads [] [] := by
  intro tokens rest _
  simp

/-- A text that ends a value may follow any text. -/
theorem append (h : Reads text ts) (ends : ∀ rest, Ends rest → Ends (text' ++ rest))
    (h' : Reads text' ts') : Reads (text ++ text') (ts ++ ts') := by
  intro tokens rest hr
  rw [List.append_assoc, h _ _ (ends rest hr), h' _ _ hr, List.reverse_append, List.append_assoc]

/-- A character that is a token of its own may stand before any text. -/
theorem cons {c : Char} {t : Token} (single : startAt c = some (.between, some t))
    (h : Reads text ts) : Reads (c :: text) (t :: ts) := by
  intro tokens rest hr
  rw [List.cons_append, tokensFrom]
  simp [Place.step, single, h _ _ hr]

end Reads

/-! ## Numbers -/

/-- No number goes on with what may stand after a value. -/
theorem next?_of_follows {c : Char} (h : c ∈ followers) (form : NumberForm) :
    form.next? c = none := by
  simp only [followers, List.mem_cons, List.not_mem_nil, or_false] at h
  obtain rfl | rfl | rfl | rfl := h <;> cases form <;> rfl

theorem startAt_of_follows {c : Char} (h : c ∈ followers) :
    ∃ t, startAt c = some (.between, some t) := by
  simp only [followers, List.mem_cons, List.not_mem_nil, or_false] at h
  obtain rfl | rfl | rfl | rfl := h <;> exact ⟨_, rfl⟩

/-- A number that may end does so before the end of a value. -/
theorem tokensFrom_inNumber {form : NumberForm} (complete : form.isComplete = true)
    (read : List Char) (tokens : List Token) {rest : List Char} (ends : Ends rest) :
    tokensFrom (.inNumber form read) tokens rest =
      tokensFrom .between (numberToken read.reverse :: tokens) rest := by
  cases rest with
  | nil => simp [tokensFrom, complete]
  | cons c rest =>
    have follows := ends c rfl
    obtain ⟨t, start⟩ := startAt_of_follows follows
    rw [tokensFrom, tokensFrom]
    simp [Place.step, next?_of_follows follows, complete, start]

/-- Digits go on a whole number. -/
theorem tokensFrom_whole {digits : List Char} (all : ∀ c ∈ digits, c.isDigit = true)
    (read : List Char) (tokens : List Token) (rest : List Char) :
    tokensFrom (.inNumber .whole read) tokens (digits ++ rest) =
      tokensFrom (.inNumber .whole (digits.reverse ++ read)) tokens rest := by
  induction digits generalizing read with
  | nil => rfl
  | cons c digits ih =>
    have digit := all c List.mem_cons_self
    rw [List.cons_append, tokensFrom]
    simp only [Place.step, NumberForm.next?, digit, if_true]
    rw [ih fun d hd => all d (List.mem_cons_of_mem _ hd)]
    simp

/-- A digit that is not zero starts a whole number. -/
theorem startAt_digit {c : Char} (digit : c.isDigit = true) (positive : c ≠ '0') :
    startAt c = some (.inNumber .whole [c], none) := by
  rw [startAt.eq_def]
  split <;> simp_all

/-- A positive number starts with a digit that is not zero. -/
theorem toDigits_head {n : Nat} (positive : n ≠ 0) :
    ∃ c digits, Nat.toDigits 10 n = c :: digits ∧ c ≠ '0' := by
  induction n using Nat.strongRecOn with
  | _ n ih =>
    by_cases small : n < 10
    · have head : ∀ k < 10, k ≠ 0 → Nat.digitChar k ≠ '0' := by decide
      exact ⟨_, _, Nat.toDigits_of_lt_base small, head n small positive⟩
    · obtain ⟨c, digits, eq, hc⟩ := ih (n / 10) (by omega) (by omega)
      rw [Nat.toDigits_of_base_le (by decide) (by omega), eq]
      exact ⟨c, _, rfl, hc⟩

/-- A natural number reads as its token. -/
theorem reads_natural (n : Nat) : Reads (Nat.toDigits 10 n) [.natural n] := by
  have token : numberToken (Nat.toDigits 10 n) = .natural n := by
    rw [numberToken, if_pos, naturalOfDigits, Nat.ofDigitChars_toDigits (by decide) (by decide)]
    exact List.all_eq_true.mpr fun c hc => Nat.isDigit_of_mem_toDigits (by decide) (by decide) hc
  intro tokens rest ends
  by_cases zero : n = 0
  · subst zero
    exact tokensFrom_inNumber rfl ['0'] tokens ends
  · obtain ⟨c, digits, eq, positive⟩ := toDigits_head zero
    have all : ∀ d ∈ c :: digits, d.isDigit = true := fun d hd =>
      Nat.isDigit_of_mem_toDigits (by decide) (by decide) (eq ▸ hd)
    rw [eq, List.cons_append, tokensFrom]
    simp only [Place.step, startAt_digit (all c List.mem_cons_self) positive, Option.map_some,
      Option.toList_none, List.nil_append]
    rw [tokensFrom_whole fun d hd => all d (List.mem_cons_of_mem _ hd),
      tokensFrom_inNumber rfl _ _ ends]
    simp [← eq, token]

/-! ## Strings -/

/-- The piece as which a character of a written string is read: a control character without a
letter of its own comes as a code unit. -/
def piece (c : Char) : Piece :=
  if 32 ≤ c.toNat ∨ c ∈ ['\x08', '\x0c', '\n', '\r', '\t'] then .char c else .unit c.toNat

/-- The piece of a character stands for the character, whatever comes after it. -/
theorem assemble_piece (c : Char) (text : List Char) (read : List Piece) :
    assemble text (piece c :: read) = assemble (c :: text) read := by
  unfold piece
  split
  · rfl
  · rename_i control
    have low : ¬ 0xdc00 ≤ c.toNat ∧ ¬ 0xd800 ≤ c.toNat := by omega
    -- the piece before it decides which equation of `assemble` is met
    rcases read with _ | ⟨_ | high, read⟩ <;> simp [assemble, low]

theorem assemble_pieces (text s : List Char) (read : List Piece) :
    assemble text ((s.map piece).reverse ++ read) = assemble (s ++ text) read := by
  induction s generalizing read with
  | nil => rfl
  | cons c s ih => simp [ih, assemble_piece]

/-- A digit of a code unit of which more digits are to come. -/
theorem tokensFrom_unitDigit {d : Char} {k : Nat} (hd : Numeral.hexDigit? d = some k)
    (read : List Piece) (left n : Nat) (tokens : List Token) (rest : List Char) :
    tokensFrom (.inUnit read (left + 2) n) tokens (d :: rest) =
      tokensFrom (.inUnit read (left + 1) (n * 16 + k)) tokens rest := by
  rw [tokensFrom]
  simp [Place.step, hd]

/-- A code unit below 256 is read from its four digits. -/
theorem tokensFrom_unit {high low : Char} {k l : Nat} (hk : Numeral.hexDigit? high = some k)
    (hl : Numeral.hexDigit? low = some l) (read : List Piece) (tokens : List Token)
    (rest : List Char) :
    tokensFrom (.inString read) tokens ('\\' :: 'u' :: '0' :: '0' :: high :: low :: rest) =
      tokensFrom (.inString (.unit (k * 16 + l) :: read)) tokens rest := by
  have zero : Numeral.hexDigit? '0' = some 0 := by decide
  calc tokensFrom (.inString read) tokens ('\\' :: 'u' :: '0' :: '0' :: high :: low :: rest)
      = tokensFrom (.inUnit read 4 0) tokens ('0' :: '0' :: high :: low :: rest) := rfl
    _ = tokensFrom (.inUnit read 1 k) tokens (low :: rest) := by
      rw [tokensFrom_unitDigit zero, tokensFrom_unitDigit zero, tokensFrom_unitDigit hk]
      simp
    _ = tokensFrom (.inString (.unit (k * 16 + l) :: read)) tokens rest := by
      rw [tokensFrom]
      simp [Place.step, hl]

/-- A written character is read as its piece. -/
theorem tokensFrom_escape (c : Char) (read : List Piece) (tokens : List Token) (rest : List Char) :
    tokensFrom (.inString read) tokens (escape c ++ rest) =
      tokensFrom (.inString (piece c :: read)) tokens rest := by
  rw [escape.eq_def]
  split
  -- a character with a letter of its own is read from the letter
  all_goals try rfl
  rename_i quote backslash back feed line carriage tab
  have mark : c ≠ '"' ∧ c ≠ '\\' := ⟨quote, backslash⟩
  have letter : c ∉ ['\x08', '\x0c', '\n', '\r', '\t'] := by
    simpa using ⟨back, feed, line, carriage, tab⟩
  by_cases control : c.toNat < 32
  · have unit : piece c = .unit c.toNat := if_neg (by simpa [letter] using control)
    rw [unit, if_pos control]
    split
    · rename_i low
      have zero : Numeral.hexDigit? '0' = some 0 := by decide
      simpa using tokensFrom_unit zero (Numeral.hexDigit?_digitChar low) read tokens rest
    · have one : Numeral.hexDigit? '1' = some 1 := by decide
      have digit := Numeral.hexDigit?_digitChar (n := c.toNat - 16) (by omega)
      have value : 1 * 16 + (c.toNat - 16) = c.toNat := by omega
      simpa [value] using tokensFrom_unit one digit read tokens rest
  · have char : piece c = .char c := if_pos (.inl (by omega))
    have low : ¬ c.toNat < 16 := by omega
    rw [if_neg low, if_neg control, char, List.singleton_append, tokensFrom]
    simp [Place.step, mark, control]

/-- A quoted text reads as its token. -/
theorem reads_quote (s : String) : Reads (quote s) [.string (some s)] := by
  have body (cs : List Char) (read : List Piece) (tokens : List Token) (rest : List Char) :
      tokensFrom (.inString read) tokens (cs.flatMap escape ++ rest) =
        tokensFrom (.inString ((cs.map piece).reverse ++ read)) tokens rest := by
    induction cs generalizing read with
    | nil => rfl
    | cons c cs ih => simp [tokensFrom_escape, ih]
  intro tokens rest _
  have text := assemble_pieces [] s.toList []
  simp only [List.append_nil, assemble] at text
  calc tokensFrom .between tokens (quote s ++ rest)
      = tokensFrom (.inString []) tokens (s.toList.flatMap escape ++ '"' :: rest) := by
        simp [quote, tokensFrom, Place.step, startAt]
    _ = tokensFrom (.inString (s.toList.map piece).reverse) tokens ('"' :: rest) := by
        rw [body, List.append_nil]
    _ = tokensFrom .between (.string (some s) :: tokens) rest := by
        rw [tokensFrom]
        simp [Place.step, text]

/-- A key reads as its token, a key that stands for no text as a string without one. -/
theorem reads_keyChars (key : Option String) : Reads (keyChars key) [.string key] := by
  cases key with
  | none => exact fun tokens rest _ => rfl
  | some key => exact reads_quote key

/-! ## Values -/

/-- The items of an array read as their tokens, where each of them does. -/
theorem reads_items {items : List Json} (h : ∀ item ∈ items, Reads item.chars item.tokens) :
    Reads (itemsChars items) (itemsTokens items) := by
  induction items with
  | nil => exact .cons rfl .nil
  | cons item items ih =>
    have head := h item List.mem_cons_self
    have tail := ih fun i hi => h i (List.mem_cons_of_mem _ hi)
    cases items with
    | nil => exact head.append (fun rest _ => ends_cons (by decide) rest) (.cons rfl .nil)
    | cons next items =>
      exact head.append (fun rest _ => ends_cons (by decide) _) (.cons rfl tail)

/-- The members of an object read as their tokens, where each of their values does. -/
theorem reads_members {members : List (Option String × Json)}
    (h : ∀ m ∈ members, Reads m.2.chars m.2.tokens) :
    Reads (membersChars members) (membersTokens members) := by
  induction members with
  | nil => exact .cons rfl .nil
  | cons m members ih =>
    obtain ⟨key, value⟩ := m
    have head :
        Reads (keyChars key ++ ':' :: value.chars) (.string key :: .colon :: value.tokens) :=
      (reads_keyChars key).append (fun rest _ => ends_cons (by decide) _)
        (.cons rfl (h (key, value) List.mem_cons_self))
    have tail := ih fun m hm => h m (List.mem_cons_of_mem _ hm)
    cases members with
    | nil => exact head.append (fun rest _ => ends_cons (by decide) rest) (.cons rfl .nil)
    | cons next members =>
      exact head.append (fun rest _ => ends_cons (by decide) _) (.cons rfl tail)

/-- A value reads as its tokens. The induction is over the value, with one lemma for each kind. -/
theorem Plain.reads_chars {j : Json} (plain : Plain j) : Reads j.chars j.tokens := by
  induction plain with
  | null => exact fun tokens rest _ => rfl
  | bool b => cases b <;> exact fun tokens rest _ => rfl
  | natural n => exact reads_natural n
  | string s => exact reads_quote s
  | brokenString => exact fun tokens rest _ => rfl
  | array _ ih => exact .cons rfl (reads_items ih)
  | object _ ih => exact .cons rfl (reads_members ih)

/-- The compact text of a value has its tokens. -/
theorem Plain.tokens?_compact {j : Json} (plain : Plain j) :
    tokens? j.compact.toList = some j.tokens := by
  have reads := plain.reads_chars [] [] ends_nil
  rw [List.append_nil, List.append_nil] at reads
  rw [tokens?, compact, String.toList_ofList, reads, tokensFrom, List.reverse_reverse]

end Json

end MetaTransaction
