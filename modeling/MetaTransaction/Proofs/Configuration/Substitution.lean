import Mathlib.Data.List.Infix
import MetaTransaction.Configuration.Load

/-!
# Substitution of references

A text splits in one way into references and the letters around them. `fill` puts values in the
places of the references, all at once, and looks at nothing that a value brings in. `substitute`
replaces one name after another in the whole text, so that it does the same only as long as no
reference to a name is left, or formed anew, where the name has been replaced.

* `exists_splits`, `Splits.unique` — the parts of a text;
* `Splits.names_eq` — the names of a text are those of its references, in their order;
* `replace_fill` — what replacing one name does;
* `substituteNames_fill`, `substituteNames_error` — what replacing one name after another does;
* `substitution_of_settled` — the law of substitution;
* `substitution_reaches_values` — a text whose values are looked at again.
-/

namespace MetaTransaction.Configuration

/-! ## Parts of a text -/

/-- Whether a text can stand in a reference: it has a letter, and no closing brace. -/
def IsName (name : List Char) : Prop :=
  name ≠ [] ∧ '\x7d' ∉ name

/-- A part of a text. -/
inductive Part
  /-- a character that belongs to no reference -/
  | letter (c : Char)
  /-- a reference to a name -/
  | reference (name : List Char)
deriving DecidableEq

/-- The name that a part refers to. -/
def Part.name? : Part → Option (List Char)
  | .letter _ => none
  | .reference name => some name

/-- The names that parts refer to, in their order. -/
def referred (parts : List Part) : List (List Char) :=
  parts.filterMap Part.name?

/-- A text is split into the references that are found from left to right without overlap, and the
letters around them. It is stated without the search of the program, so that it says what a reader
of the text takes for its references. -/
inductive Splits : List Char → List Part → Prop
  | nil : Splits [] []
  | reference {name rest parts} : IsName name → Splits rest parts →
      Splits (reference name ++ rest) (.reference name :: parts)
  /-- no reference starts with the letter -/
  | letter {c rest parts} : (∀ name, IsName name → ¬ reference name <+: c :: rest) →
      Splits rest parts → Splits (c :: rest) (.letter c :: parts)

theorem reference_ne_nil (name : List Char) : reference name ≠ [] := by
  simp [reference]

theorem takeWhile_name {name : List Char} (open' : '\x7d' ∉ name) (rest : List Char) :
    (name ++ '\x7d' :: rest).takeWhile (· ≠ '\x7d') = name := by
  rw [List.takeWhile_append_of_pos]
  · simp
  · intro c hc
    simpa using fun same : c = '\x7d' => open' (same ▸ hc)

/-- At most one reference starts a text, since a name has no closing brace. -/
theorem eq_of_reference_prefix {m n text : List Char} (hm : IsName m) (hn : IsName n)
    (pm : reference m <+: text) (pn : reference n <+: text) : m = n := by
  obtain ⟨rest, rfl⟩ := pm
  obtain ⟨rest', same⟩ := pn
  have inner : n ++ '\x7d' :: rest' = m ++ '\x7d' :: rest := by simpa [reference] using same
  rw [← takeWhile_name hm.2 rest, ← inner, takeWhile_name hn.2]

/-- Every text can be split. The induction is on the length of the text, because a reference takes
off more than one character. -/
theorem exists_splits (text : List Char) : ∃ parts, Splits text parts := by
  induction h : text.length using Nat.strongRecOn generalizing text with
  | _ length ih =>
    subst h
    cases text with
    | nil => exact ⟨[], .nil⟩
    | cons c rest =>
      by_cases starts : ∃ name, IsName name ∧ reference name <+: c :: rest
      · obtain ⟨name, isName, after, same⟩ := starts
        have shorter : after.length < (c :: rest).length := by
          have := List.length_pos_iff.mpr (reference_ne_nil name)
          rw [← same, List.length_append]
          omega
        obtain ⟨parts, splits⟩ := ih _ shorter after rfl
        rw [← same]
        exact ⟨_, .reference isName splits⟩
      · obtain ⟨parts, splits⟩ := ih _ (Nat.lt_succ_self _) rest rfl
        exact ⟨_, .letter (fun name isName starts' => starts ⟨name, isName, starts'⟩) splits⟩

/-- A text can be split in one way only. -/
theorem Splits.unique {text : List Char} {parts others : List Part} (splits : Splits text parts)
    (splits' : Splits text others) : parts = others := by
  induction splits generalizing others with
  | nil =>
    generalize empty : ([] : List Char) = text at splits'
    cases splits' with
    | nil => rfl
    | reference => simp [Configuration.reference] at empty
    | letter => cases empty
  | @reference name rest parts isName _ ih =>
    generalize same : Configuration.reference name ++ rest = text at splits'
    have starts : Configuration.reference name <+: text := ⟨rest, same⟩
    cases splits' with
    | nil => simp [Configuration.reference] at same
    | reference isName' splits' =>
      obtain rfl := eq_of_reference_prefix isName isName' starts (List.prefix_append _ _)
      obtain rfl := List.append_cancel_left same
      rw [ih splits']
    | letter none => exact absurd starts (none name isName)
  | @letter c rest parts none _ ih =>
    generalize same : c :: rest = text at splits'
    cases splits' with
    | nil => cases same
    | reference isName => exact absurd (same ▸ List.prefix_append _ _) (none _ isName)
    | letter _ splits' =>
      obtain ⟨rfl, rfl⟩ := List.cons.inj same
      rw [ih splits']

/-! ## Names -/

/-- A name that has been opened is read to its closing brace, and is none if it is empty. -/
theorem namesFrom_inName {read name : List Char} (open' : '\x7d' ∉ name) (rest : List Char) :
    namesFrom (.inName read) (name ++ '\x7d' :: rest) =
      (if (name.reverse ++ read).isEmpty then [] else [(name.reverse ++ read).reverse]) ++
        namesFrom .outside rest := by
  induction name generalizing read with
  | nil =>
    cases read with
    | nil => rfl
    | cons c read => simp [namesFrom, Search.step]
  | cons c name ih =>
    obtain ⟨other, open'⟩ : '\x7d' ≠ c ∧ '\x7d' ∉ name := by simpa using open'
    have step : namesFrom (.inName read) (c :: (name ++ '\x7d' :: rest)) =
        namesFrom (.inName (c :: read)) (name ++ '\x7d' :: rest) := by
      simp [namesFrom, Search.step, other.symm]
    rw [List.cons_append, step, ih open']
    simp

/-- Without a closing brace there is no name. -/
theorem namesFrom_of_open {text : List Char} (open' : '\x7d' ∉ text) (search : Search) :
    namesFrom search text = [] := by
  induction text generalizing search with
  | nil => rfl
  | cons c text ih =>
    obtain ⟨other, open'⟩ : '\x7d' ≠ c ∧ '\x7d' ∉ text := by simpa using open'
    rw [namesFrom]
    cases search <;> simp [Search.step, other.symm, ih open']

theorem names_reference {name : List Char} (isName : IsName name) (rest : List Char) :
    names (reference name ++ rest) = name :: names rest := by
  obtain ⟨nonempty, open'⟩ := isName
  have start : names (reference name ++ rest) =
      namesFrom (.inName []) (name ++ '\x7d' :: rest) := by
    simp [names, reference, namesFrom, Search.step]
  rw [start, namesFrom_inName open']
  simp [nonempty, names]

/-- A letter with which no reference starts adds no name. -/
theorem names_letter {c : Char} {rest : List Char}
    (none : ∀ name, IsName name → ¬ reference name <+: c :: rest) :
    names (c :: rest) = names rest := by
  by_cases dollar : c = '$'
  · subst dollar
    change namesFrom .dollar rest = namesFrom .outside rest
    cases rest with
    | nil => rfl
    | cons d rest =>
      by_cases brace : d = '\x7b'
      · subst brace
        change namesFrom (.inName []) rest = namesFrom .outside rest
        by_cases closed : '\x7d' ∈ rest
        · -- what stands between the braces is no name, so it is empty
          obtain ⟨name, after, rfl, open'⟩ := List.eq_append_cons_of_mem closed
          obtain rfl : name = [] := by
            by_contra nonempty
            exact none name ⟨nonempty, open'⟩ ⟨after, by simp [reference]⟩
          rfl
        · rw [namesFrom_of_open closed, namesFrom_of_open closed]
      · simp [namesFrom, Search.step, brace]
  · simp [names, namesFrom, Search.step, dollar]

/-- The names of a text are those of its references. So the search of the program finds what a
reader takes for the references. -/
theorem Splits.names_eq {text : List Char} {parts : List Part} (splits : Splits text parts) :
    names text = referred parts := by
  induction splits with
  | nil => rfl
  | reference isName _ ih => rw [names_reference isName, ih]; rfl
  | letter none _ ih => rw [names_letter none, ih]; rfl

theorem Splits.isName {text : List Char} {parts : List Part} (splits : Splits text parts)
    {name : List Char} (mem : name ∈ names text) : IsName name := by
  rw [splits.names_eq] at mem
  induction splits with
  | nil => cases mem
  | reference isName _ ih =>
    rcases List.mem_cons.mp mem with rfl | mem
    · exact isName
    · exact ih mem
  | letter _ _ ih => exact ih mem

/-! ## Filling in values -/

/-- A part with the value in the place of its reference. A reference without a value stays. -/
def Part.fill (value? : List Char → Option (List Char)) : Part → List Char
  | .letter c => [c]
  | .reference name => (value? name).getD (Configuration.reference name)

/-- The parts with the values in the places of their references. -/
def fill (value? : List Char → Option (List Char)) (parts : List Part) : List Char :=
  parts.flatMap (Part.fill value?)

theorem fill_cons (value? : List Char → Option (List Char)) (part : Part) (parts : List Part) :
    fill value? (part :: parts) = part.fill value? ++ fill value? parts :=
  List.flatMap_cons

/-- Without values the parts make up the text. -/
theorem Splits.fill_none {text : List Char} {parts : List Part} (splits : Splits text parts) :
    fill (fun _ => none) parts = text := by
  induction splits with
  | nil => rfl
  | reference _ _ ih => rw [fill_cons, ih]; rfl
  | letter _ _ ih => rw [fill_cons, ih]; rfl

/-- Values matter for the names of the parts only. -/
theorem fill_congr {value? other? : List Char → Option (List Char)} {parts : List Part}
    (same : ∀ name ∈ referred parts, value? name = other? name) :
    fill value? parts = fill other? parts := by
  induction parts with
  | nil => rfl
  | cons part parts ih =>
    cases part with
    | letter c => rw [fill_cons, fill_cons, ih same]; rfl
    | reference name =>
      obtain ⟨first, others⟩ : value? name = other? name ∧
          ∀ name ∈ referred parts, value? name = other? name := by
        simpa [referred, Part.name?] using same
      rw [fill_cons, fill_cons, ih others, Part.fill, Part.fill, first]

/-! ## Replacing one name -/

theorem replaceFrom_skip (old new skipped rest : List Char) :
    replaceFrom old new skipped.length (skipped ++ rest) = replaceFrom old new 0 rest := by
  induction skipped with
  | nil => rfl
  | cons c skipped ih => exact ih

/-- An occurrence is replaced, and the search goes on after it. -/
theorem replaceFrom_self {old : List Char} (nonempty : old ≠ []) (new rest : List Char) :
    replaceFrom old new 0 (old ++ rest) = new ++ replaceFrom old new 0 rest := by
  cases old with
  | nil => exact absurd rfl nonempty
  | cons c old =>
    have starts : (c :: old).isPrefixOf (c :: (old ++ rest)) := by
      rw [List.isPrefixOf_iff_prefix]
      exact List.prefix_append (c :: old) rest
    rw [List.cons_append, replaceFrom, if_pos starts]
    exact congrArg (new ++ ·) (replaceFrom_skip _ _ old rest)

/-- A piece in which no occurrence starts stays, also if one would start in it and end after it. -/
theorem replaceFrom_append {old new piece rest : List Char}
    (none : ∀ s, s ≠ [] → s <:+ piece → ¬ old <+: s ++ rest) :
    replaceFrom old new 0 (piece ++ rest) = piece ++ replaceFrom old new 0 rest := by
  induction piece with
  | nil => rfl
  | cons c piece ih =>
    have absent := none (c :: piece) (List.cons_ne_nil _ _) (List.suffix_refl _)
    rw [List.cons_append, ← List.isPrefixOf_iff_prefix] at absent
    rw [List.cons_append, replaceFrom, if_neg absent,
      ih fun s nonempty suffix => none s nonempty (suffix.trans (List.suffix_cons _ _))]
    rfl

/-- Where a reference starts before one to the same name, it has ended there. -/
theorem prefix_of_prefix_reference {name s rest : List Char} (isName : IsName name)
    (nonempty : s ≠ []) (starts : reference name <+: s ++ (reference name ++ rest)) :
    reference name <+: s := by
  obtain ⟨after, same⟩ := starts
  rcases List.append_eq_append_iff.mp same with ⟨t, rfl, -⟩ | ⟨t, whole, inner⟩
  · exact List.prefix_append _ _
  rcases List.eq_nil_or_concat t with rfl | ⟨front, last, rfl⟩
  · rw [whole, List.append_nil]
  -- otherwise the closing brace would stand where the second reference has its name
  exfalso
  have closing : last = '\x7d' := by
    rw [List.concat_eq_append, ← List.append_assoc] at whole
    exact (List.singleton_inj.mp (List.append_inj_right' whole rfl)).symm
  have shorter : (front.concat last).length ≤ (['$', '\x7b'] ++ name).length := by
    have := List.length_pos_iff.mpr nonempty
    have := congrArg List.length whole
    simp [reference] at this ⊢
    omega
  have opening : front.concat last <+: ['$', '\x7b'] ++ name := by
    refine List.prefix_of_prefix_length_le ⟨after, inner.symm⟩ ⟨'\x7d' :: rest, ?_⟩ shorter
    simp [reference]
  have mem : '\x7d' ∈ ['$', '\x7b'] ++ name := opening.subset (by simp [closing])
  exact isName.2 (by simpa using mem)

section

variable {name value : List Char} {value? : List Char → Option (List Char)}

/-- When one more name has a value, the same parts are filled in but for its references. The name
may have occurred before, with the same value. -/
theorem fill_update (before : value? name = none ∨ value? name = some value) (part : Part) :
    part.fill (Function.update value? name (some value)) = part.fill value? ∨
      part.fill value? = reference name ∧
        part.fill (Function.update value? name (some value)) = value := by
  cases part with
  | letter c => exact .inl rfl
  | reference other =>
    by_cases same : other = name
    · subst same
      rcases before with none | known
      · exact .inr (by simp [Part.fill, none])
      · exact .inl (by simp [Part.fill, known])
    · exact .inl (by simp [Part.fill, same])

/-- A reference that starts before some parts starts there as well when its name has a value in
them. So a reference that is there before a value is put in is not lost by it, unless it is
replaced. -/
theorem prefix_fill_update (isName : IsName name)
    (before : value? name = none ∨ value? name = some value) {parts : List Part} {s : List Char}
    (nonempty : s ≠ []) (starts : reference name <+: s ++ fill value? parts) :
    reference name <+: s ++ fill (Function.update value? name (some value)) parts := by
  induction parts generalizing s with
  | nil => exact starts
  | cons part parts ih =>
    rw [fill_cons] at starts ⊢
    rcases fill_update before part with same | ⟨whole, -⟩
    · rw [same, ← List.append_assoc]
      rw [← List.append_assoc] at starts
      exact ih (by simp [nonempty]) starts
    · rw [whole] at starts
      exact (prefix_of_prefix_reference isName nonempty starts).trans (List.prefix_append _ _)

/-- Replacing a name fills in its value, when no reference to it is left or formed by that.
Replacing works on the whole text and knows nothing of parts; this is the step at which both are
compared. -/
theorem replace_fill (isName : IsName name)
    (before : value? name = none ∨ value? name = some value) {parts : List Part}
    (settled : ¬ reference name <:+: fill (Function.update value? name (some value)) parts) :
    replace name value (fill value? parts) =
      fill (Function.update value? name (some value)) parts := by
  rw [replace]
  induction parts with
  | nil => rfl
  | cons part parts ih =>
    rw [fill_cons] at settled ⊢
    have others := ih fun inside => settled (inside.trans (List.suffix_append _ _).isInfix)
    rw [fill_cons]
    rcases fill_update before part with same | ⟨whole, filled⟩
    · -- a reference that starts in a part which stays would be there in the outcome
      rw [same] at settled
      rw [same, replaceFrom_append, others]
      rintro s nonempty ⟨front, split⟩ starts
      apply settled
      rw [← split, List.append_assoc]
      exact (prefix_fill_update isName before nonempty starts).isInfix.trans
        (List.suffix_append _ _).isInfix
    · rw [whole, filled, replaceFrom_self (reference_ne_nil name), others]

end

/-! ## Replacing one name after another -/

/-- The value of a variable. -/
def value? (e : Environment) (name : List Char) : Option (List Char) :=
  (e.get? (String.ofList name)).map String.toList

/-- The values of some variables. -/
def valuesOf (e : Environment) (names : List (List Char)) (name : List Char) :
    Option (List Char) :=
  if name ∈ names then value? e name else none

theorem valuesOf_append (e : Environment) (names : List (List Char)) (name : List Char) :
    valuesOf e (names ++ [name]) = Function.update (valuesOf e names) name (value? e name) := by
  funext other
  by_cases same : other = name <;> simp [valuesOf, same]

theorem valuesOf_cases (e : Environment) (names : List (List Char)) (name : List Char) :
    valuesOf e names name = none ∨ valuesOf e names name = value? e name := by
  rw [valuesOf]
  split
  · exact .inr rfl
  · exact .inl rfl

theorem substituteNames_cons {e : Environment} {name value : List Char}
    (set : value? e name = some value) (text : List Char) (names : List (List Char)) :
    substituteNames e text (name :: names) = substituteNames e (replace name value text) names := by
  obtain ⟨s, found, rfl⟩ := Option.map_eq_some_iff.mp set
  rw [substituteNames, found]

/-- The first name that is unset fails the substitution. -/
theorem substituteNames_unset {e : Environment} {earlier later : List (List Char)}
    {name : List Char} (set : ∀ m ∈ earlier, value? e m ≠ none) (unset : value? e name = none)
    (text : List Char) :
    substituteNames e text (earlier ++ name :: later) = .error (String.ofList name) := by
  induction earlier generalizing text with
  | nil =>
    rw [value?, Option.map_eq_none_iff] at unset
    rw [List.nil_append, substituteNames, unset]
  | cons m earlier ih =>
    rw [List.forall_mem_cons] at set
    obtain ⟨value, found⟩ := Option.ne_none_iff_exists'.mp set.1
    rw [List.cons_append, substituteNames_cons found, ih set.2]

/-- When all names are set, the substitution gives a text. -/
theorem substituteNames_set {e : Environment} {names : List (List Char)}
    (set : ∀ m ∈ names, value? e m ≠ none) (text : List Char) :
    ∃ result, substituteNames e text names = .ok result := by
  induction names generalizing text with
  | nil => exact ⟨text, rfl⟩
  | cons m names ih =>
    rw [List.forall_mem_cons] at set
    obtain ⟨value, found⟩ := Option.ne_none_iff_exists'.mp set.1
    rw [substituteNames_cons found]
    exact ih set.2 _

/-- Replacing further names fills in their values, as long as no reference to a name is left where
it is filled in. The induction is over the names that are left, with those that have been replaced
in `known`. -/
theorem substituteNames_fill {e : Environment} {parts : List Part} {names : List (List Char)}
    (known : List (List Char)) (isName : ∀ name ∈ names, IsName name)
    (set : ∀ name ∈ names, value? e name ≠ none)
    (settled : ∀ earlier name later, names = earlier ++ name :: later →
      ¬ reference name <:+: fill (valuesOf e (known ++ (earlier ++ [name]))) parts) :
    substituteNames e (fill (valuesOf e known) parts) names =
      .ok (fill (valuesOf e (known ++ names)) parts) := by
  induction names generalizing known with
  | nil => rw [List.append_nil]; rfl
  | cons name names ih =>
    rw [List.forall_mem_cons] at isName set
    obtain ⟨value, found⟩ := Option.ne_none_iff_exists'.mp set.1
    have first := settled [] name names rfl
    rw [List.nil_append, valuesOf_append, found] at first
    have before := found ▸ valuesOf_cases e known name
    have rest := ih (known ++ [name]) isName.2 set.2 <| by
      intro earlier other later split
      have := settled (name :: earlier) other later (by rw [split, List.cons_append])
      rwa [List.append_assoc, List.singleton_append, ← List.cons_append]
    rw [substituteNames_cons found, replace_fill isName.1 before first, ← found, ← valuesOf_append,
      rest, List.append_assoc, List.singleton_append]

/-! ## The law -/

/-- No reference to a name is left, or formed anew, where the name and those before it have their
values. This is the exact condition under which one replacement after another is the same as filling
all values in at once. -/
def Settled (e : Environment) (parts : List Part) : Prop :=
  ∀ earlier name later, referred parts = earlier ++ name :: later →
    ¬ reference name <:+: fill (valuesOf e (earlier ++ [name])) parts

/-- Dollar signs stand in no name, in no value and right before no reference. -/
structure Plain (e : Environment) (parts : List Part) : Prop where
  names : ∀ name ∈ referred parts, '$' ∉ name
  values : ∀ name ∈ referred parts, ∀ value, value? e name = some value → '$' ∉ value
  letters : ∀ name, ¬ [.letter '$', .reference name] <:+: parts

theorem Plain.tail {e : Environment} {part : Part} {parts : List Part}
    (plain : Plain e (part :: parts)) : Plain e parts := by
  have sub : ∀ name ∈ referred parts, name ∈ referred (part :: parts) := by
    intro name mem
    cases part with
    | letter => exact mem
    | reference => exact List.mem_cons_of_mem _ mem
  exact ⟨fun name mem => plain.names name (sub name mem),
    fun name mem => plain.values name (sub name mem),
    fun name inside => plain.letters name (inside.trans (List.suffix_cons _ _).isInfix)⟩

/-- What occurs in a text starts in its front or occurs in what follows. -/
theorem infix_append_cases {α : Type} {l front rest : List α} (inside : l <:+: front ++ rest) :
    (∃ s, s ≠ [] ∧ s <:+ front ∧ l <+: s ++ rest) ∨ l <:+: rest := by
  induction front with
  | nil => exact .inr inside
  | cons a front ih =>
    rcases List.infix_cons_iff.mp inside with starts | inside
    · exact .inl ⟨a :: front, List.cons_ne_nil _ _, List.suffix_refl _, starts⟩
    · rcases ih inside with ⟨s, nonempty, suffix, starts⟩ | inside
      · exact .inl ⟨s, nonempty, suffix.trans (List.suffix_cons _ _), starts⟩
      · exact .inr inside

/-- Without a closing brace a text has no references. -/
theorem Splits.fill_of_open {text : List Char} {parts : List Part} (splits : Splits text parts)
    (open' : '\x7d' ∉ text) (value? : List Char → Option (List Char)) :
    fill value? parts = text := by
  induction splits with
  | nil => rfl
  | reference => simp [Configuration.reference] at open'
  | letter _ _ ih =>
    rw [fill_cons, ih fun mem => open' (List.mem_cons_of_mem _ mem)]
    rfl

/-- A letter with which no reference starts, and which none follows if it is a dollar sign, starts
none either when values are filled in after it. -/
theorem not_reference_prefix_of_letter {name rest : List Char} {parts : List Part} {c : Char}
    (isName : IsName name) (none : ∀ name, IsName name → ¬ reference name <+: c :: rest)
    (splits : Splits rest parts)
    (apart : ∀ name, ¬ [.letter '$', .reference name] <:+: .letter c :: parts)
    (value? : List Char → Option (List Char)) : ¬ reference name <+: c :: fill value? parts := by
  intro starts
  obtain ⟨rfl, opens⟩ : '$' = c ∧ '\x7b' :: (name ++ ['\x7d']) <+: fill value? parts := by
    simpa [reference, List.cons_prefix_cons] using starts
  cases splits with
  | nil => simp [fill] at opens
  | @reference m _ parts => exact apart m (List.prefix_append [_, _] parts).isInfix
  | @letter d rest parts _ splits =>
    obtain ⟨rfl, names⟩ : '\x7b' = d ∧ name ++ ['\x7d'] <+: fill value? parts := by
      simpa [fill_cons, Part.fill, List.cons_prefix_cons] using opens
    by_cases closed : '\x7d' ∈ rest
    · -- the braces of the text have nothing between them, and so they have in the outcome
      obtain ⟨inner, after, rfl, open'⟩ := List.eq_append_cons_of_mem closed
      obtain rfl : inner = [] := by
        by_contra nonempty
        exact none inner ⟨nonempty, open'⟩ ⟨after, by simp [reference]⟩
      rw [List.nil_append] at splits
      generalize same : '\x7d' :: after = text at splits
      cases splits with
      | nil => cases same
      | reference => simp [reference] at same
      | letter =>
        obtain ⟨rfl, rfl⟩ := List.cons.inj same
        obtain ⟨first, more, rfl⟩ := List.exists_cons_of_ne_nil isName.1
        obtain ⟨rfl, -⟩ : first = '\x7d' ∧ _ := by
          simpa only [fill_cons, Part.fill, List.cons_append, List.nil_append,
            List.cons_prefix_cons] using names
        exact isName.2 List.mem_cons_self
    · rw [splits.fill_of_open closed] at names
      exact closed (names.subset (by simp))

/-- With plain texts nothing is left or formed of a reference to a name that has a value. A
reference would have to start with a dollar sign, and none of those that are left can start one. -/
theorem Plain.not_infix {e : Environment} {text : List Char} {parts : List Part}
    (plain : Plain e parts) (splits : Splits text parts) {name : List Char} (isName : IsName name)
    {names : List (List Char)} (known : valuesOf e names name ≠ none) :
    ¬ reference name <:+: fill (valuesOf e names) parts := by
  induction splits with
  | nil => simp [fill, reference]
  | @letter c rest parts none splits ih =>
    intro inside
    rw [fill_cons] at inside
    rcases infix_append_cases inside with ⟨s, nonempty, suffix, starts⟩ | inside
    · obtain rfl : s = [c] := by
        simpa [Part.fill, List.suffix_cons_iff, nonempty] using suffix
      exact not_reference_prefix_of_letter isName none splits plain.letters _ starts
    · exact ih plain.tail inside
  | @reference m rest parts isName' splits ih =>
    intro inside
    rw [fill_cons] at inside
    rcases infix_append_cases inside with ⟨s, nonempty, suffix, starts⟩ | inside
    · obtain ⟨first, more, rfl⟩ := List.exists_cons_of_ne_nil nonempty
      obtain ⟨rfl, -⟩ : '$' = first ∧ _ := by
        simpa only [reference, List.cons_append, List.cons_prefix_cons] using starts
      have mem : m ∈ referred (.reference m :: parts) := List.mem_cons_self
      cases value : valuesOf e names m with
      | some v =>
        -- the value would hold the dollar sign
        have found : value? e m = some v := by
          rcases valuesOf_cases e names m with none | same
          · rw [none] at value
            cases value
          · rw [← same, value]
        apply plain.values m mem v found
        rw [Part.fill, value] at suffix
        exact suffix.subset List.mem_cons_self
      | none =>
        -- the reference that is left is to another name, which would hold the dollar sign
        rw [Part.fill, value] at suffix
        rcases List.suffix_cons_iff.mp suffix with whole | inner
        · have starts' : reference m <+: '$' :: more ++ fill (valuesOf e names) parts := by
            rw [whole]
            exact List.prefix_append _ _
          obtain rfl := eq_of_reference_prefix isName isName' starts starts'
          exact known value
        · apply plain.names m mem
          simpa using inner.subset List.mem_cons_self
    · exact ih plain.tail inside

/-- Plain texts are settled. -/
theorem Plain.settled {e : Environment} {text : List Char} {parts : List Part}
    (plain : Plain e parts) (splits : Splits text parts)
    (set : ∀ name ∈ referred parts, value? e name ≠ none) : Settled e parts := by
  intro earlier name later split
  have mem : name ∈ referred parts := by simp [split]
  refine plain.not_infix splits (splits.isName (splits.names_eq ▸ mem)) ?_
  simpa [valuesOf] using set name mem

/-- A text is split in one way. Its substitution fails with the first name that is unset, and gives a
text if all names are set. This is the text with the values in the places of the references, as long
as no reference to a name is left or formed by them; and none is where dollar signs stand in no name,
in no value and right before no reference. -/
theorem substitution_of_settled (e : Environment) (text : String) :
    ∃ parts, (∀ others, Splits text.toList others ↔ others = parts) ∧
      (∀ earlier name later, referred parts = earlier ++ name :: later →
        (∀ m ∈ earlier, value? e m ≠ none) → value? e name = none →
        substituted e text = .error (.unset (String.ofList name))) ∧
      ((∀ name ∈ referred parts, value? e name ≠ none) →
        (∃ result, substituted e text = .ok result) ∧
        (Settled e parts →
          substituted e text = .ok (String.ofList (fill (value? e) parts))) ∧
        (Plain e parts → Settled e parts)) := by
  obtain ⟨parts, splits⟩ := exists_splits text.toList
  refine ⟨parts, ?_, ?_, ?_⟩
  · intro others
    exact ⟨fun splits' => splits'.unique splits, fun same => same ▸ splits⟩
  · intro earlier name later split set unset
    rw [substituted, substitute, splits.names_eq, split,
      substituteNames_unset set unset]
  · intro set
    refine ⟨?_, ?_, fun plain => plain.settled splits set⟩
    · obtain ⟨result, ok⟩ := substituteNames_set (splits.names_eq ▸ set) text.toList
      exact ⟨_, by rw [substituted, substitute, ok]⟩
    · intro settled
      have isName : ∀ name ∈ referred parts, IsName name := by
        intro name mem
        exact splits.isName (splits.names_eq ▸ mem)
      have filled := substituteNames_fill [] isName set settled
      have start : fill (valuesOf e []) parts = text.toList :=
        (fill_congr fun _ _ => rfl).trans splits.fill_none
      have finish : fill (valuesOf e (referred parts)) parts = fill (value? e) parts :=
        fill_congr fun name mem => if_pos mem
      rw [start, List.nil_append, finish] at filled
      rw [substituted, substitute, splits.names_eq, filled]

namespace Sample

def host : List Char := ['H', 'O', 'S', 'T']

def port : List Char := ['P', 'O', 'R', 'T']

/-- A text that refers to two variables. -/
def address : String := String.ofList (reference host ++ ':' :: (reference port ++ []))

def addressParts : List Part := [.reference host, .letter ':', .reference port]

theorem splits_address : Splits address.toList addressParts := by
  rw [address, String.toList_ofList]
  refine .reference (by simp [IsName, host]) (.letter ?_ (.reference (by simp [IsName, port]) .nil))
  simp [reference]

/-- Values without dollar signs. -/
def plain : Environment where
  bindings := [("HOST", "localhost"), ("PORT", "8545")]

theorem plain_address : Plain plain addressParts where
  names := by decide
  values := show ∀ name ∈ referred addressParts, ∀ value ∈ value? plain name, '$' ∉ value by decide
  letters := by simp [addressParts, List.infix_cons_iff]

/-- The first value is the reference to the second variable. -/
def nested : Environment where
  bindings := [("HOST", "$\x7bPORT\x7d"), ("PORT", "8545")]

end Sample

/-- Plain values are put in the places of the references. -/
theorem sample_references_filled :
    substituted Sample.plain Sample.address = .ok "localhost:8545" := by
  obtain ⟨parts, splits, -, law⟩ := substitution_of_settled Sample.plain Sample.address
  obtain rfl := (splits _).mp Sample.splits_address
  obtain ⟨-, filled, settled⟩ := law (by decide)
  exact filled (settled Sample.plain_address)

/-- A reference that a value brings in is replaced as well when its name comes later in the text:
values are not put in the places of the references at once. -/
theorem substitution_reaches_values :
    ¬ ∀ (e : Environment) (text : String) (parts : List Part), Splits text.toList parts →
      (∀ name ∈ referred parts, value? e name ≠ none) →
      substituted e text = .ok (String.ofList (fill (value? e) parts)) := by
  intro law
  have once := law Sample.nested Sample.address _ Sample.splits_address (by decide)
  have twice : substituted Sample.nested Sample.address = .ok "8545:8545" := by decide
  rw [twice] at once
  exact absurd once (by decide)

end MetaTransaction.Configuration
