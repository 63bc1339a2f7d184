import MetaTransaction.Environment

/-!
# References to environment variables

A text may refer to a variable by its name between a dollar sign with an opening brace and a closing
brace. References are found in the text as it is written, comments and quotes included, and are
replaced in their order; each replacement is made everywhere in the text so far, so that it also
reaches what earlier values have brought in.
-/

namespace MetaTransaction.Configuration

/-- Where the search for references stands. -/
inductive Search
  | outside
  /-- after a dollar sign -/
  | dollar
  /-- inside the braces, with the letters of the name so far, last first -/
  | inName (read : List Char)
deriving DecidableEq, Repr

/-- The search after one more character, and the name that is complete with it. A name has at least
one letter. -/
def Search.step (search : Search) (c : Char) : Search × Option (List Char) :=
  match search with
  | .outside => (if c = '$' then .dollar else .outside, none)
  | .dollar =>
    (if c = '\x7b' then .inName [] else if c = '$' then .dollar else .outside, none)
  | .inName read =>
    if c = '\x7d' then (.outside, if read.isEmpty then none else some read.reverse)
    else (.inName (c :: read), none)

/-- The names that the rest of a text refers to, in their order. -/
def namesFrom (search : Search) : List Char → List (List Char)
  | [] => []
  | c :: rest =>
    let (search, name) := search.step c
    name.toList ++ namesFrom search rest

/-- The names that a text refers to, in their order. -/
def names (text : List Char) : List (List Char) :=
  namesFrom .outside text

/-- The reference to a name. -/
def reference (name : List Char) : List Char :=
  ['$', '\x7b'] ++ name ++ ['\x7d']

/-- Replaces the occurrences of a text that do not overlap, from left to right, after passing over
`skip` characters. These are the ones of an occurrence that has just been replaced, so that the
recursion goes on character by character. -/
def replaceFrom (old new : List Char) (skip : Nat) : List Char → List Char
  | [] => []
  | c :: rest =>
    match skip with
    | skip + 1 => replaceFrom old new skip rest
    | 0 =>
      if old.isPrefixOf (c :: rest) then new ++ replaceFrom old new (old.length - 1) rest
      else c :: replaceFrom old new 0 rest

/-- Replaces the reference to a name everywhere by a value. -/
def replace (name value text : List Char) : List Char :=
  replaceFrom (reference name) value 0 text

/-- The text in which the references to names are replaced one after another; fails with the first
name that is unset. The names were found in the text as it was written, but each replacement is made
in the text as the ones before have left it. -/
def substituteNames (e : Environment) (text : List Char) :
    List (List Char) → Except String (List Char)
  | [] => .ok text
  | name :: names =>
    match e.get? (String.ofList name) with
    | none => .error (String.ofList name)
    | some value => substituteNames e (replace name value.toList text) names

/-- The text with its references replaced; fails with the first name that is unset. -/
def substitute (e : Environment) (text : List Char) : Except String (List Char) :=
  substituteNames e text (names text)

end MetaTransaction.Configuration
