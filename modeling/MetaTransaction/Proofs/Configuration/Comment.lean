import MetaTransaction.Proofs.Configuration.Override
import MetaTransaction.Proofs.Configuration.Substitution
import MetaTransaction.Proofs.Toml.Comment

/-!
# References in comments

A comment says nothing where a text is read. But its references have been replaced before that, like
all others, so that it can fail the loading, and so that their values can end it.

* `replace_comment`, `substituteNames_comment` — a text and the comment after it are replaced apart;
* `names_comment` — the names of the text come first, then those of the comment;
* `references_in_comments_count` — the law of comments after a text that is loaded;
* `commented_setting_fails_loading` — a comment that refers to an unset variable.
-/

namespace MetaTransaction.Configuration

/-! ## Replacing one name -/

/-- What starts a text starts its front, or goes on in the rest of it. -/
theorem prefix_append_cases {l front rest : List Char} (starts : l <+: front ++ rest) :
    l <+: front ∨ ∃ t, t ≠ [] ∧ l = front ++ t ∧ t <+: rest := by
  obtain ⟨after, same⟩ := starts
  rcases List.append_eq_append_iff.mp same with ⟨t, rfl, -⟩ | ⟨t, rfl, rfl⟩
  · exact .inl (List.prefix_append _ _)
  · rcases eq_or_ne t [] with rfl | nonempty
    · exact .inl (by rw [List.append_nil])
    · exact .inr ⟨t, nonempty, rfl, List.prefix_append _ _⟩

/-- The front of a text is replaced on its own, when no occurrence goes on after it. Both kinds of
text to be replaced here end in a way that keeps them apart from what follows. -/
theorem replaceFrom_front {old new rest : List Char}
    (apart : ∀ front t, t ≠ [] → old = front ++ t → ¬ t <+: rest) {skip : Nat}
    {front : List Char} (passed : skip ≤ front.length) :
    replaceFrom old new skip (front ++ rest) =
      replaceFrom old new skip front ++ replaceFrom old new 0 rest := by
  induction front generalizing skip with
  | nil =>
    obtain rfl : skip = 0 := Nat.le_zero.mp passed
    rfl
  | cons c front ih =>
    cases skip with
    | succ skip => exact ih (Nat.le_of_succ_le_succ passed)
    | zero =>
      rw [List.cons_append, replaceFrom, replaceFrom]
      simp only [List.isPrefixOf_iff_prefix]
      by_cases starts : old <+: c :: front
      · have starts' : old <+: c :: (front ++ rest) := starts.trans (List.prefix_append _ rest)
        have shorter : old.length - 1 ≤ front.length := Nat.sub_le_of_le_add starts.length_le
        rw [if_pos starts, if_pos starts', ih shorter, List.append_assoc]
      · have absent : ¬ old <+: c :: (front ++ rest) := by
          rw [← List.cons_append]
          intro starts'
          rcases prefix_append_cases starts' with inside | ⟨t, nonempty, split, after⟩
          · exact starts inside
          · exact apart _ t nonempty split after
        rw [if_neg starts, if_neg absent, ih (Nat.zero_le _), List.cons_append]

/-- A text without references to a name stays. -/
theorem replace_absent {name text : List Char} (absent : ¬ reference name <:+: text)
    (value : List Char) : replace name value text = text := by
  have none : ∀ s, s ≠ [] → s <:+ text → ¬ reference name <+: s ++ [] := by
    intro s _ suffix starts
    rw [List.append_nil] at starts
    exact absent (starts.isInfix.trans suffix.isInfix)
  have stays : replaceFrom (reference name) value 0 (text ++ []) = text ++ [] :=
    replaceFrom_append none
  rwa [List.append_nil] at stays

/-- Nothing is replaced in what follows a text, when it has no closing brace: a reference that
started before could not end in it either. -/
theorem replace_append_open {rest : List Char} (open' : '\x7d' ∉ rest)
    (name value text : List Char) :
    replace name value (text ++ rest) = replace name value text ++ rest := by
  have apart : ∀ front t, t ≠ [] → reference name = front ++ t → ¬ t <+: rest := by
    intro front t nonempty split after
    have last : ['\x7d'] <:+ t :=
      List.suffix_of_suffix_length_le ⟨['$', '\x7b'] ++ name, rfl⟩ ⟨front, split.symm⟩
        (List.length_pos_iff.mpr nonempty)
    exact open' (after.subset (last.subset List.mem_cons_self))
  have absent : ¬ reference name <:+: rest := fun inside =>
    open' (inside.subset (by simp [reference]))
  rw [replace, replaceFrom_front apart (Nat.zero_le _)]
  exact congrArg _ (replace_absent absent value)

/-- A name on one line is replaced in a text and in the comment after it apart, because a reference
to it cannot contain the line break between them. -/
theorem replace_comment {name : List Char} (oneLine : '\n' ∉ name)
    (value text comment : List Char) :
    replace name value (text ++ '\n' :: '#' :: comment) =
      replace name value text ++ '\n' :: '#' :: replace name value comment := by
  have apart : ∀ front t, t ≠ [] → reference name = front ++ t →
      ¬ t <+: '\n' :: '#' :: comment := by
    intro front t nonempty split after
    obtain ⟨first, more, rfl⟩ := List.exists_cons_of_ne_nil nonempty
    obtain ⟨rfl, -⟩ := List.cons_prefix_cons.mp after
    have break' : '\n' ∈ reference name := by simp [split]
    exact oneLine (by simpa [reference] using break')
  have mark : replaceFrom (reference name) value 0 (['\n', '#'] ++ comment) =
      ['\n', '#'] ++ replaceFrom (reference name) value 0 comment := by
    apply replaceFrom_append
    intro s nonempty suffix
    rcases List.suffix_cons_iff.mp suffix with rfl | suffix
    · simp [reference]
    · obtain rfl : s = ['#'] := by simpa [List.suffix_cons_iff, nonempty] using suffix
      simp [reference]
  rw [replace, replaceFrom_front apart (Nat.zero_le _)]
  exact congrArg _ mark

/-! ## Replacing one name after another -/

section

variable {e : Environment} {text comment read line : List Char} {names others : List (List Char)}

/-- Names can be replaced in two parts, unless the first one fails. -/
theorem substituteNames_append :
    substituteNames e text (names ++ others) =
      (substituteNames e text names).bind fun read => substituteNames e read others := by
  induction names generalizing text with
  | nil => rfl
  | cons name names ih =>
    rw [List.cons_append, substituteNames, substituteNames]
    cases e.get? (String.ofList name) with
    | none => rfl
    | some value => exact ih

/-- A substitution that gives a text has replaced its first name. -/
theorem exists_value_of_substituteNames {name : List Char}
    (ok : substituteNames e text (name :: names) = .ok read) :
    ∃ value, value? e name = some value ∧
      substituteNames e (replace name value text) names = .ok read := by
  cases found : value? e name with
  | none =>
    have failed : substituteNames e text ([] ++ name :: names) = .error (String.ofList name) :=
      substituteNames_unset (by simp) found text
    cases failed.symm.trans ok
  | some value =>
    rw [substituteNames_cons found] at ok
    exact ⟨value, rfl, ok⟩

/-- A substitution gives a text only if all names are set, whether or not they still occur in it. -/
theorem set_of_substituteNames (ok : substituteNames e text names = .ok read) :
    ∀ name ∈ names, value? e name ≠ none := by
  induction names generalizing text with
  | nil => simp
  | cons name names ih =>
    obtain ⟨value, found, ok⟩ := exists_value_of_substituteNames ok
    rw [List.forall_mem_cons]
    exact ⟨by simp [found], ih ok⟩

theorem substituteNames_absent (set : ∀ name ∈ names, value? e name ≠ none)
    (absent : ∀ name ∈ names, ¬ reference name <:+: text) :
    substituteNames e text names = .ok text := by
  induction names with
  | nil => rfl
  | cons name names ih =>
    rw [List.forall_mem_cons] at set absent
    obtain ⟨value, found⟩ := Option.ne_none_iff_exists'.mp set.1
    rw [substituteNames_cons found, replace_absent absent.1, ih set.2 absent.2]

theorem substituteNames_open {rest : List Char} (open' : '\x7d' ∉ rest)
    (ok : substituteNames e text names = .ok read) :
    substituteNames e (text ++ rest) names = .ok (read ++ rest) := by
  induction names generalizing text with
  | nil =>
    obtain rfl := Except.ok.inj ok
    rfl
  | cons name names ih =>
    obtain ⟨value, found, ok⟩ := exists_value_of_substituteNames ok
    rw [substituteNames_cons found, replace_append_open open', ih ok]

/-- A text and the comment after it are substituted apart, if all names stand on one line. -/
theorem substituteNames_comment (oneLine : ∀ name ∈ names, '\n' ∉ name)
    (ok : substituteNames e text names = .ok read)
    (ok' : substituteNames e comment names = .ok line) :
    substituteNames e (text ++ '\n' :: '#' :: comment) names =
      .ok (read ++ '\n' :: '#' :: line) := by
  induction names generalizing text comment with
  | nil =>
    obtain rfl := Except.ok.inj ok
    obtain rfl := Except.ok.inj ok'
    rfl
  | cons name names ih =>
    obtain ⟨value, found, ok⟩ := exists_value_of_substituteNames ok
    rw [List.forall_mem_cons] at oneLine
    rw [substituteNames_cons found] at ok' ⊢
    rw [replace_comment oneLine.1, ih oneLine.2 ok ok']

end

/-! ## Names -/

/-- Every reference that a text opens is closed on its line. Without this an opening in the text
could be closed in the comment, and the line break would be part of a name. -/
def OnLines (text : List Char) : Prop :=
  ∀ front back, text = front ++ ['$', '\x7b'] ++ back →
    ∃ name after, back = name ++ '\x7d' :: after ∧ '\x7d' ∉ name ∧ '\n' ∉ name

section

variable {text comment : List Char} {parts others : List Part}

theorem OnLines.of_suffix {rest : List Char} (lines : OnLines text) (suffix : rest <:+ text) :
    OnLines rest := by
  obtain ⟨before, rfl⟩ := suffix
  intro front back split
  exact lines (before ++ front) back (by simp [split])

theorem onLines_of_not_mem (absent : '$' ∉ text) : OnLines text := by
  rintro front back rfl
  simp at absent

theorem reference_infix_of_mem_names {name : List Char} (mem : name ∈ names text) :
    reference name <:+: text := by
  obtain ⟨parts, splits⟩ := exists_splits text
  rw [splits.names_eq] at mem
  induction splits with
  | nil => cases mem
  | reference _ _ ih =>
    rcases List.mem_cons.mp mem with rfl | mem
    · exact (List.prefix_append _ _).isInfix
    · exact (ih mem).trans (List.suffix_append _ _).isInfix
  | letter _ _ ih => exact (ih mem).trans (List.suffix_cons _ _).isInfix

theorem OnLines.names {name : List Char} (lines : OnLines text)
    (mem : name ∈ Configuration.names text) : '\n' ∉ name := by
  obtain ⟨parts, splits⟩ := exists_splits text
  obtain ⟨front, after, split⟩ := reference_infix_of_mem_names mem
  obtain ⟨name', after', same, closed, oneLine⟩ :=
    lines front (name ++ '\x7d' :: after) (by simp [← split, reference])
  have inner := congrArg (List.takeWhile (· ≠ '\x7d')) same
  rw [takeWhile_name (splits.isName mem).2, takeWhile_name closed] at inner
  rwa [inner]

/-- What follows a text whose references are closed is split on its own. -/
theorem Splits.append_comment (splits : Splits text parts) (lines : OnLines text)
    (splits' : Splits comment others) :
    Splits (text ++ '\n' :: '#' :: comment)
      (parts ++ .letter '\n' :: .letter '#' :: others) := by
  induction splits with
  | nil =>
    have mark : Splits ('#' :: comment) (.letter '#' :: others) :=
      .letter (by simp [Configuration.reference]) splits'
    exact .letter (by simp [Configuration.reference]) mark
  | @reference name rest parts isName _ ih =>
    rw [List.append_assoc]
    exact .reference isName (ih (lines.of_suffix (List.suffix_append _ _)))
  | @letter c rest parts none _ ih =>
    refine .letter ?_ (ih (lines.of_suffix (List.suffix_cons _ _)))
    intro name isName starts
    change Configuration.reference name <+: (c :: rest) ++ '\n' :: '#' :: comment at starts
    rcases prefix_append_cases starts with starts | ⟨t, nonempty, split, inRest⟩
    · exact none name isName starts
    · -- the text would open the reference and not close it
      obtain ⟨rfl, opened⟩ : '$' = c ∧ '\x7b' :: (name ++ ['\x7d']) = rest ++ t := by
        simpa [Configuration.reference] using split
      cases rest with
      | nil =>
        obtain rfl : t = '\x7b' :: (name ++ ['\x7d']) := opened.symm
        simp at inRest
      | cons d back =>
        obtain ⟨rfl, closed⟩ : '\x7b' = d ∧ name ++ ['\x7d'] = back ++ t := by
          simpa using opened
        obtain ⟨inner, after, rfl, -⟩ := lines [] back rfl
        have front := congrArg List.dropLast closed
        rw [List.dropLast_concat, List.dropLast_append_of_ne_nil nonempty] at front
        exact isName.2 (by simp [front])

/-- The names of a text with a comment after it are those of both, in this order. -/
theorem names_comment (lines : OnLines text) :
    names (text ++ '\n' :: '#' :: comment) = names text ++ names comment := by
  obtain ⟨parts, splits⟩ := exists_splits text
  obtain ⟨others, splits'⟩ := exists_splits comment
  rw [(splits.append_comment lines splits').names_eq, splits.names_eq, splits'.names_eq]
  exact List.filterMap_append

/-- What has no closing brace adds no name, even to a text that leaves a reference open. -/
theorem namesFrom_append_open {rest : List Char} (open' : '\x7d' ∉ rest) (search : Search)
    (text : List Char) : namesFrom search (text ++ rest) = namesFrom search text := by
  induction text generalizing search with
  | nil => exact namesFrom_of_open open' search
  | cons c text ih =>
    rw [List.cons_append, namesFrom, namesFrom]
    simp only [ih]

end

/-! ## Loading -/

/-- No control characters but tabs, which are the characters that may stand in a comment. -/
def Printable (text : List Char) : Prop :=
  ∀ c ∈ text, ¬ Toml.isControl c

instance (text : List Char) : Decidable (Printable text) :=
  List.decidableBAll (fun c => ¬ Toml.isControl c) text

/-- What stands in a text after replacing came from the value or stood in it before. -/
theorem mem_replaceFrom {old new text : List Char} {skip : Nat} {c : Char}
    (mem : c ∈ replaceFrom old new skip text) : c ∈ new ∨ c ∈ text := by
  induction text generalizing skip with
  | nil => cases mem
  | cons d text ih =>
    have later {skip : Nat} (mem : c ∈ replaceFrom old new skip text) : c ∈ new ∨ c ∈ d :: text :=
      (ih mem).imp_right (List.mem_cons_of_mem _)
    cases skip with
    | succ skip => exact later mem
    | zero =>
      rw [replaceFrom] at mem
      split at mem
      · rcases List.mem_append.mp mem with mem | mem
        · exact .inl mem
        · exact later mem
      · rcases List.mem_cons.mp mem with rfl | mem
        · exact .inr List.mem_cons_self
        · exact later mem

section

variable {e : Environment} {start : String} {c : Configuration}

/-- Values that may stand in a comment make one that may stand there. -/
theorem Printable.substituteNames {text read : List Char} {names : List (List Char)}
    (printable : Printable text)
    (values : ∀ name ∈ names, ∀ value, value? e name = some value → Printable value)
    (ok : Configuration.substituteNames e text names = .ok read) : Printable read := by
  induction names generalizing text with
  | nil =>
    obtain rfl := Except.ok.inj ok
    exact printable
  | cons name names ih =>
    obtain ⟨value, found, ok⟩ := exists_value_of_substituteNames ok
    rw [List.forall_mem_cons] at values
    have replaced : Printable (replace name value text) := by
      intro c mem
      rcases mem_replaceFrom mem with mem | mem
      · exact values.1 value found c mem
      · exact printable c mem
    exact ih replaced values.2 ok

/-- The names in a comment stand on its line. -/
theorem Printable.names {comment name : List Char} (printable : Printable comment)
    (mem : name ∈ Configuration.names comment) : '\n' ∉ name := by
  intro inside
  have inComment := (reference_infix_of_mem_names mem).subset
    (show '\n' ∈ reference name by simp [reference, inside])
  exact printable '\n' inComment (by decide)

theorem toList_comment (text comment : String) :
    (text ++ "\n#" ++ comment).toList = text.toList ++ '\n' :: '#' :: comment.toList := by
  simp

theorem substituted_eq_ok_iff {text read : String} :
    substituted e text = .ok read ↔
      substituteNames e text.toList (names text.toList) = .ok read.toList := by
  rw [substituted, substitute]
  cases substituteNames e text.toList (names text.toList) with
  | error name => simp
  | ok read => simp [← String.toList_inj]

/-- A text and the comment after it are substituted apart, each with the names of both. -/
theorem substituted_comment {text comment : String} {read line : List Char}
    (lines : OnLines text.toList) (printable : Printable comment.toList)
    (left : substituteNames e text.toList (names text.toList ++ names comment.toList) = .ok read)
    (right : substituteNames e comment.toList (names text.toList ++ names comment.toList) =
      .ok line) :
    substituted e (text ++ "\n#" ++ comment) =
      .ok (String.ofList read ++ "\n#" ++ String.ofList line) := by
  have oneLine : ∀ m ∈ names text.toList ++ names comment.toList, '\n' ∉ m := by
    rw [List.forall_mem_append]
    exact ⟨fun m => lines.names, fun m => printable.names⟩
  rw [substituted_eq_ok_iff, toList_comment, names_comment lines, toList_comment,
    String.toList_ofList, String.toList_ofList]
  exact substituteNames_comment oneLine left right

/-- A text is loaded as before, when its substitution has no more than a comment after it. The
comment is lost with the tokens, and nothing after that can see it. -/
theorem ofText_of_comment {text read other line : String} (loaded : ofText e start text = .ok c)
    (replaced : substituted e text = .ok read)
    (replaced' : substituted e other = .ok (read ++ "\n#" ++ line))
    (printable : Printable line.toList) : ofText e start other = .ok c := by
  obtain ⟨read', file, replaced'', parsed, overridden, usable⟩ := ofText_eq_ok_iff.mp loaded
  obtain rfl := Except.ok.inj (replaced.symm.trans replaced'')
  obtain ⟨json, value, ofJson⟩ := Option.bind_eq_some_iff.mp parsed
  have parsed' : parse? (read ++ "\n#" ++ line) = some file := by
    rw [parse?, Toml.parse?_comment value printable]
    exact ofJson
  exact ofText_eq_ok_iff.mpr ⟨_, file, replaced', parsed', overridden, usable⟩

end

/-- What a comment on a line of its own does after a text with which `c` is loaded. References
are looked up before comments are taken away, so that a comment with references is not without
effect. -/
structure CommentLaw (e : Environment) (start text comment : String) (c : Configuration) :
    Prop where
  /-- without a closing brace it does nothing -/
  braceless : '\x7d' ∉ comment.toList → ofText e start (text ++ "\n#" ++ comment) = .ok c
  /-- the first name of it that is unset fails the loading -/
  unset : OnLines text.toList →
    ∀ earlier name later, names comment.toList = earlier ++ name :: later →
      (∀ m ∈ earlier, value? e m ≠ none) → value? e name = none →
      ofText e start (text ++ "\n#" ++ comment) = .error (.unset (String.ofList name))
  /-- if all its names are set, text and comment are substituted apart, each with the names of both;
  so it does nothing as long as the text has no reference to its names left and the values bring no
  control characters into it -/
  set : OnLines text.toList → (∀ name ∈ names comment.toList, value? e name ≠ none) →
    ∃ read line,
      substituteNames e text.toList (names text.toList ++ names comment.toList) = .ok read ∧
      substituteNames e comment.toList (names text.toList ++ names comment.toList) = .ok line ∧
      substituted e (text ++ "\n#" ++ comment) =
        .ok (String.ofList read ++ "\n#" ++ String.ofList line) ∧
      ((∀ own, substituted e text = .ok own →
          ∀ name ∈ names comment.toList, ¬ reference name <:+: own.toList) →
        Printable line → ofText e start (text ++ "\n#" ++ comment) = .ok c) ∧
      ((∀ name ∈ names text.toList ++ names comment.toList, ∀ value, value? e name = some value →
        Printable value) → Printable line)

/-- A comment after a text that is loaded does nothing, unless there are references in it. These are
looked up like any other: one to a variable that is unset fails the loading, and one that is set is
replaced in the text as well. -/
theorem references_in_comments_count {e : Environment} {start text comment : String}
    {c : Configuration} (loaded : ofText e start text = .ok c)
    (printable : Printable comment.toList) : CommentLaw e start text comment c := by
  obtain ⟨own, file, replaced, -⟩ := ofText_eq_ok_iff.mp loaded
  have ok := substituted_eq_ok_iff.mp replaced
  refine ⟨?_, ?_, ?_⟩
  · intro open'
    have rest : '\x7d' ∉ '\n' :: '#' :: comment.toList := by simpa using open'
    apply ofText_of_comment loaded replaced _ printable
    rw [substituted_eq_ok_iff, toList_comment, names, namesFrom_append_open rest, ← names,
      substituteNames_open rest ok, toList_comment]
  · intro lines earlier name later split set unset
    have before : ∀ m ∈ names text.toList ++ earlier, value? e m ≠ none := by
      rw [List.forall_mem_append]
      exact ⟨set_of_substituteNames ok, set⟩
    have failed : substituted e (text ++ "\n#" ++ comment) =
        .error (.unset (String.ofList name)) := by
      rw [substituted, substitute, toList_comment, names_comment lines, split, ← List.append_assoc,
        substituteNames_unset before unset]
    rw [ofText, failed]
    rfl
  · intro lines set
    have all : ∀ m ∈ names text.toList ++ names comment.toList, value? e m ≠ none := by
      rw [List.forall_mem_append]
      exact ⟨set_of_substituteNames ok, set⟩
    obtain ⟨read, left⟩ := substituteNames_set all text.toList
    obtain ⟨line, right⟩ := substituteNames_set all comment.toList
    have replaced' := substituted_comment lines printable left right
    refine ⟨read, line, left, right, replaced', ?_, fun values => ?_⟩
    · intro absent plain
      have same : read = own.toList := by
        rw [substituteNames_append, ok] at left
        exact Except.ok.inj (left.symm.trans (substituteNames_absent set (absent own replaced)))
      rw [same, String.ofList_toList] at replaced'
      exact ofText_of_comment loaded replaced replaced' (by rwa [String.toList_ofList])
    · exact printable.substituteNames values right

namespace Sample

def polygonText : String :=
  "[network]\nchain_id = 137\nrpc_url = \"https://polygon-rpc.com\""

def polygon : Configuration where
  network := { chain := .polygon, endpoint := "https://polygon-rpc.com" }

/-- A setting that has been commented out. -/
def keyComment : String :=
  " private_key = \"$\x7bRELAYER_PRIVATE_KEY\x7d\""

theorem printable_keyComment : Printable keyComment.toList := by
  decide +kernel

def keyed : Environment where
  bindings := [("RELAYER_PRIVATE_KEY", key)]

end Sample

/-- A setting that is commented out does nothing as long as the variable which it names is set. -/
theorem commented_setting_does_nothing :
    ofText Sample.keyed "" Sample.polygonText = .ok Sample.polygon ∧
      ofText Sample.keyed "" (Sample.polygonText ++ "\n#" ++ Sample.keyComment) =
        .ok Sample.polygon := by
  have loaded : ofText Sample.keyed "" Sample.polygonText = .ok Sample.polygon := by decide +kernel
  have law := references_in_comments_count loaded Sample.printable_keyComment
  have noDollar : '$' ∉ Sample.polygonText.toList := by decide +kernel
  obtain ⟨read, line, -, -, -, nothing, plain⟩ :=
    law.set (onLines_of_not_mem noDollar) (by decide +kernel)
  refine ⟨loaded, nothing ?_ (plain ?_)⟩
  · intro own replaced name _ inside
    have own' : substituted Sample.keyed Sample.polygonText = .ok Sample.polygonText := by
      decide +kernel
    obtain rfl := Except.ok.inj (replaced.symm.trans own')
    exact noDollar (inside.subset (by simp [reference]))
  · exact show ∀ name ∈ names Sample.polygonText.toList ++ names Sample.keyComment.toList,
      ∀ value ∈ value? Sample.keyed name, Printable value by decide +kernel

/-- A setting that is commented out fails the loading when the variable which it names is unset:
so comments are not without effect. -/
theorem commented_setting_fails_loading :
    ¬ ∀ (e : Environment) (start text comment : String) (c : Configuration),
      Printable comment.toList → ofText e start text = .ok c →
      ofText e start (text ++ "\n#" ++ comment) = .ok c := by
  intro nothing
  have loaded : ofText {} "" Sample.polygonText = .ok Sample.polygon := by decide +kernel
  have failed : ofText {} "" (Sample.polygonText ++ "\n#" ++ Sample.keyComment) =
      .error (.unset "RELAYER_PRIVATE_KEY") := by decide +kernel
  cases failed.symm.trans (nothing _ _ _ _ _ Sample.printable_keyComment loaded)

/-- A value with a line break ends the comment, and what comes after that is a setting. -/
example :
    ofText { bindings := [("NOTE", "n\n[logging]\nlevel=\"debug\"")] } ""
      (Sample.polygonText ++ "\n#" ++ "$\x7bNOTE\x7d") =
        .ok { Sample.polygon with logging := { level := "debug" } } := by
  decide +kernel

end MetaTransaction.Configuration
