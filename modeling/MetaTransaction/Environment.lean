/-!
# Environments

The variables that a process is started with.
-/

namespace MetaTransaction

/-- The variables of a process. -/
structure Environment where
  bindings : List (String × String) := []
deriving DecidableEq, Repr

namespace Environment

/-- Whether a text can name a variable at all. A name is not empty and has neither an equals sign
nor a zero character; any other text is looked up and is just not set. -/
def isName (name : String) : Bool :=
  !name.isEmpty && name.toList.all fun c => c ≠ '=' && c ≠ '\x00'

/-- The value of a variable, none when it is unset. -/
def get? (e : Environment) (name : String) : Option String :=
  if isName name then e.bindings.lookup name else none

end Environment

end MetaTransaction
