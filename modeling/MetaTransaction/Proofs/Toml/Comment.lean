import MetaTransaction.Toml.Parser

/-!
# A comment after a document

A document may end wherever a line may end. A line with a comment that follows it adds one token,
the line break before the comment, and the reader takes that token where it may stop as well. So the
comment says nothing.

* `Place.step_newline` — where a text may end, a line break may follow;
* `tokens?_comment` — the tokens of a document with a comment after it;
* `parse?_comment` — the value of such a document.
-/

namespace MetaTransaction.Toml

variable {place : Place} {tokens read : List Token} {text comment : List Char}

/-! ## Tokens -/

/-- Where a text may end, a line break may follow, and the tokens before it are those of the
text. -/
theorem Place.step_newline (ends : place.finish tokens = some read) :
    place.step tokens '\n' = some (.between false, .newline :: read) := by
  cases place with
  | between | inComment | inWord | afterDate =>
    obtain rfl := Option.some.inj ends
    rfl
  | twoQuotes quote =>
    obtain rfl := Option.some.inj ends
    cases quote <;> rfl
  | closing quote letters count =>
    obtain ⟨complete, rfl⟩ : 3 ≤ count ∧ tripledString quote letters count :: tokens = read := by
      simpa [finish] using ends
    have other : '\n' ≠ quote.char := by cases quote <;> decide
    simp [step, other, complete, restartAt, startAt]
  | oneQuote | threeQuotes | inString | inEscape | inCodePoint | afterBackslash => cases ends

/-- Nowhere may a carriage return stand, unless a line feed follows it. -/
theorem Place.step_return : place.step tokens '\r' = none := by
  have other (quote : Quote) : '\r' ≠ quote.char := by cases quote <;> decide
  have inString (quote : Quote) (tripled : Bool) (letters : List Char) :
      inStringAt quote tripled letters tokens '\r' = none := by
    simp [inStringAt, other, isControl]
  have noDigit : Numeral.hexDigit? '\r' = none := by decide
  have inComment : isControl '\r' := by decide
  cases place <;>
    simp [step, inString, other, startAt, restartAt, isWordChar, codePointLength?, unescape?,
      noDigit, inComment]

theorem tokensFrom_return (text : List Char) :
    tokensFrom place tokens (text ++ ['\r']) = none := by
  induction text generalizing place tokens with
  | nil => simp only [List.nil_append, tokensFrom, Place.step_return]
  | cons c text ih =>
    rw [List.cons_append, tokensFrom]
    split
    · rfl
    · exact ih

/-- A comment without control characters is read to its end. -/
theorem tokensFrom_inComment (plain : ∀ c ∈ comment, ¬ isControl c) :
    tokensFrom .inComment tokens comment = some tokens.reverse := by
  induction comment with
  | nil => rfl
  | cons c comment ih =>
    rw [List.forall_mem_cons] at plain
    have sameLine : c ≠ '\n' := by
      rintro rfl
      exact plain.1 (by decide)
    have step : Place.inComment.step tokens c = some (.inComment, tokens) := by
      simp [Place.step, sameLine, plain.1]
    rw [tokensFrom, step]
    exact ih plain.2

/-- A comment after a text adds the line break before it, and no token of its own. -/
theorem tokensFrom_comment (ends : tokensFrom place tokens text = some read)
    (plain : ∀ c ∈ comment, ¬ isControl c) :
    tokensFrom place tokens (text ++ '\n' :: '#' :: comment) = some (read ++ [.newline]) := by
  induction text generalizing place tokens with
  | nil =>
    obtain ⟨last, finished, rfl⟩ := Option.map_eq_some_iff.mp ends
    rw [List.nil_append, tokensFrom, Place.step_newline finished]
    change tokensFrom .inComment (.newline :: last) comment = _
    rw [tokensFrom_inComment plain, List.reverse_cons]
  | cons c text ih =>
    rw [tokensFrom] at ends
    rw [List.cons_append, tokensFrom]
    cases step : place.step tokens c with
    | none => simp [step] at ends
    | some after =>
      simp only [step] at ends
      exact ih ends

/-! ## Line breaks -/

/-- A carriage return at the end of a text is not part of a line break. -/
theorem normalBreaks_concat_return (text : List Char) :
    normalBreaks (text ++ ['\r']) = normalBreaks text ++ ['\r'] := by
  fun_induction normalBreaks text with
  | case1 rest ih => simp only [List.cons_append, normalBreaks, ih]
  | case2 c rest apart ih =>
    rw [List.cons_append, normalBreaks, ih, List.cons_append]
    rintro rest' rfl split
    cases rest with
    | nil => cases split
    | cons d rest => exact apart rest rfl (by rw [(List.cons.inj split).1])
  | case3 => rfl

/-- A line feed after a text is a line break of its own, unless a carriage return stands before
it. -/
theorem normalBreaks_append (apart : ¬ ['\r'] <:+ text) (rest : List Char) :
    normalBreaks (text ++ '\n' :: rest) = normalBreaks text ++ '\n' :: normalBreaks rest := by
  fun_induction normalBreaks text with
  | case1 text ih =>
    have apart' : ¬ ['\r'] <:+ text := fun last =>
      apart (last.trans ((List.suffix_cons _ _).trans (List.suffix_cons _ _)))
    simp only [List.cons_append, normalBreaks, ih apart']
  | case2 c text first ih =>
    have apart' : ¬ ['\r'] <:+ text := fun last => apart (last.trans (List.suffix_cons _ _))
    rw [List.cons_append, normalBreaks, ih apart', List.cons_append]
    rintro after rfl split
    cases text with
    | nil => exact apart (List.suffix_refl _)
    | cons d text => exact first text rfl (by rw [(List.cons.inj split).1])
  | case3 => rfl

theorem normalBreaks_of_not_mem (absent : '\r' ∉ text) : normalBreaks text = text := by
  fun_induction normalBreaks text with
  | case1 => simp at absent
  | case2 c rest _ ih => rw [ih fun mem => absent (List.mem_cons_of_mem _ mem)]
  | case3 => rfl

/-- A mark of the byte order stands at the start of a text, so that a line after it does not
matter. -/
theorem withoutMark_append (text rest : List Char) :
    withoutMark (text ++ '\n' :: rest) = withoutMark text ++ '\n' :: rest := by
  cases text with
  | nil => rfl
  | cons c text =>
    by_cases mark : c = '\ufeff'
    · rw [mark]
      rfl
    · simp [withoutMark, mark]

theorem tokens?_comment (ends : tokens? text = some read) (plain : ∀ c ∈ comment, ¬ isControl c) :
    tokens? (text ++ '\n' :: '#' :: comment) = some (read ++ [.newline]) := by
  have apart : ¬ ['\r'] <:+ withoutMark text := by
    rintro ⟨front, split⟩
    rw [tokens?, ← split, normalBreaks_concat_return, tokensFrom_return] at ends
    cases ends
  have absent : '\r' ∉ '#' :: comment := by
    rw [List.mem_cons, not_or]
    exact ⟨by decide, fun mem => plain _ mem (by decide)⟩
  rw [tokens?, withoutMark_append, normalBreaks_append apart, normalBreaks_of_not_mem absent]
  exact tokensFrom_comment ends plain

/-! ## Statements -/

/-- Where the tokens may end, a line break may follow. -/
theorem Reader.step_newline {r : Reader} {statements : List Statement}
    (ends : r.statements? = some statements) :
    ∃ next, r.step .newline = some next ∧ next.statements? = some statements := by
  obtain ⟨expected, frames, done⟩ := r
  cases expected with
  | statement => exact ⟨_, rfl, ends⟩
  | lineEnd => exact ⟨_, rfl, ends⟩
  | _ => cases ends

theorem build_newline {json : Json} (ok : build tokens = some json) :
    build (tokens ++ [.newline]) = some json := by
  obtain ⟨reader, read, rest⟩ := Option.bind_eq_some_iff.mp ok
  obtain ⟨statements, ends, value⟩ := Option.bind_eq_some_iff.mp rest
  obtain ⟨next, step, ends'⟩ := Reader.step_newline ends
  have read' : (tokens ++ [Token.newline]).foldlM Reader.step {} = some next := by
    rw [List.foldlM_append, read]
    change Reader.step reader .newline >>= _ = _
    rw [step]
    rfl
  rw [build, read']
  change next.statements? >>= _ = _
  rw [ends']
  exact value

/-- A comment after a document says nothing. The text before it is arbitrary, so that this is shown
in layers: for the line breaks, for the tokens and for the statements that are built from them. -/
theorem parse?_comment {text comment : String} {json : Json} (ok : parse? text = some json)
    (plain : ∀ c ∈ comment.toList, ¬ isControl c) :
    parse? (text ++ "\n#" ++ comment) = some json := by
  obtain ⟨tokens, read, built⟩ := Option.bind_eq_some_iff.mp ok
  have letters : (text ++ "\n#" ++ comment).toList =
      text.toList ++ '\n' :: '#' :: comment.toList := by
    simp
  rw [parse?, letters, tokens?_comment read plain]
  exact build_newline built

end MetaTransaction.Toml
