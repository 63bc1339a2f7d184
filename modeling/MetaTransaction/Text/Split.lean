/-!
# Splitting texts

A text between separators, and a text before and after its first separator.
-/

namespace MetaTransaction.Text

/-- The parts between the separators, of which there is one more than of separators. -/
def split (separator : Char) : List Char → List (List Char)
  | [] => [[]]
  | c :: rest =>
    if c = separator then [] :: split separator rest
    else
      match split separator rest with
      | [] => [[c]]
      | first :: others => (c :: first) :: others

/-- The text before the first character that passes, and the text from it on. -/
def before (stop : Char → Bool) (text : List Char) : List Char × List Char :=
  (text.takeWhile (fun c => !stop c), text.dropWhile (fun c => !stop c))

end MetaTransaction.Text
