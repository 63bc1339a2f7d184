import MetaTransaction.Text.Split
import MetaTransaction.Toml.Scalar
import MetaTransaction.Toml.Table
import MetaTransaction.Toml.Token

/-!
# Reading TOML documents

Tokens become statements: headers and assignments, each on a line of its own. Arrays and inline
tables that are still open are kept on a stack. The statements, one after another, build the table of
the document.
-/

namespace MetaTransaction.Toml

/-- A piece of a key. -/
inductive KeyPart
  | dot
  | name (s : String)
deriving DecidableEq, Repr

/-- The pieces of a word that stands in a key: names between dots. -/
def keyParts (word : List Char) : List KeyPart :=
  match Text.split '.' word with
  | [] => []
  | first :: others => named first ++ others.flatMap fun part => .dot :: named part
where
  /-- The name of the letters, nothing when there are none. -/
  named (letters : List Char) : List KeyPart :=
    if letters.isEmpty then [] else [.name (String.ofList letters)]

/-- Whether a word may be a piece of a key: numbers with a sign and times may not. -/
def isKeyWord (word : List Char) : Bool :=
  word.all fun c => c.isAlphanum || c = '_' || c = '-' || c = '.'

/-- The path of the pieces of a key: names with one dot between each two. -/
def path? : List KeyPart → Option (List String)
  | [.name s] => some [s]
  | .name s :: .dot :: rest => (path? rest).map (s :: ·)
  | _ => none

/-- The pieces of a key with one more token; none when the token is no piece. -/
def extendKey? (key : List KeyPart) : Token → Option (List KeyPart)
  | .word letters => if isKeyWord letters then some (key ++ keyParts letters) else none
  | .string s false => some (key ++ [.name s])
  | _ => none

/-- A line of a document. -/
inductive Statement
  | header (path : List String)
  /-- a header that appends a table to an array of tables -/
  | appendHeader (path : List String)
  | assignment (path : List String) (value : Json)

/-- What awaits a value. What has been read of a container comes last first. -/
inductive Frame
  | assignment (path : List String)
  | items (read : List Json)
  /-- an inline table, and the key that awaits the value -/
  | entries (read : List (List String × Json)) (path : List String)

/-- What may come next. -/
inductive Expected
  /-- a statement, at the start of a line -/
  | statement
  /-- the rest of the key of an assignment -/
  | key (read : List KeyPart)
  /-- the rest of a header -/
  | header (appends : Bool) (read : List KeyPart)
  /-- the second closing bracket of a header -/
  | secondBracket (path : List String)
  /-- a value -/
  | value
  /-- the rest of the key of an entry of an inline table, where `entries` come last first -/
  | entryKey (entries : List (List String × Json)) (read : List KeyPart)
  /-- a comma or the end of the container -/
  | separator
  /-- the end of the line -/
  | lineEnd

/-- How deep arrays and inline tables may be nested. -/
def depthLimit : Nat := 80

/-- A reader of documents between two tokens. It knows the statements that are complete, and what
the present one still lacks. -/
structure Reader where
  expected : Expected := .statement
  frames : List Frame := []
  /-- the statements that are complete, last first -/
  statements : List Statement := []

namespace Reader

/-- A complete statement. -/
def finish (r : Reader) (statement : Statement) (expected : Expected) : Reader :=
  { expected, frames := [], statements := statement :: r.statements }

/-- Puts a complete value where it is awaited. -/
def place (r : Reader) (value : Json) : List Frame → Option Reader
  | [] => none
  | .assignment path :: _ => some (r.finish (.assignment path value) .lineEnd)
  | .items read :: frames =>
    some { r with expected := .separator, frames := .items (value :: read) :: frames }
  | .entries read path :: frames =>
    some { r with expected := .separator, frames := .entries ((path, value) :: read) [] :: frames }

/-- The reader after the opening of an array or an inline table. -/
def openAt (r : Reader) (expected : Expected) (frames : List Frame) : Option Reader :=
  if r.frames.length ≤ depthLimit then some { r with expected, frames } else none

/-- Closes an inline table. -/
def closeEntries (r : Reader) (read : List (List String × Json)) (frames : List Frame) :
    Option Reader :=
  (Table.ofAssignments? read.reverse).bind fun table => r.place table.toJson frames

/-- Takes the token of a value. -/
def stepValue (r : Reader) : Token → Option Reader
  | .string s _ => r.place (.string s) r.frames
  | .word letters => (scalarOfWord? letters).bind (r.place · r.frames)
  | .openBracket _ => r.openAt .value (.items [] :: r.frames)
  | .openBrace => r.openAt (.entryKey [] []) r.frames
  | .newline =>
    match r.frames with
    | .items _ :: _ => some r
    | _ => none
  | .closeBracket _ =>
    match r.frames with
    | .items read :: frames => r.place (.array read.reverse) frames
    | _ => none
  | _ => none

/-- Takes a token after a value in a container. -/
def stepSeparator (r : Reader) (token : Token) : Option Reader :=
  match r.frames, token with
  | .items _ :: _, .newline => some r
  | .items _ :: _, .comma => some { r with expected := .value }
  | .items read :: frames, .closeBracket _ => r.place (.array read.reverse) frames
  | .entries _ _ :: _, .newline => some r
  | .entries read _ :: frames, .comma => some { r with expected := .entryKey read [], frames }
  | .entries read _ :: frames, .closeBrace => r.closeEntries read frames
  | _, _ => none

/-- Takes one token. -/
def step (r : Reader) (token : Token) : Option Reader :=
  match r.expected, token with
  | .statement, .newline => some r
  | .statement, .openBracket _ => some { r with expected := .header false [] }
  | .statement, token => (extendKey? [] token).map fun read => { r with expected := .key read }
  | .key read, .equals =>
    (path? read).map fun path => { r with expected := .value, frames := [.assignment path] }
  | .key read, token => (extendKey? read token).map fun read => { r with expected := .key read }
  | .header false [], .openBracket true => some { r with expected := .header true [] }
  | .header false read, .closeBracket _ =>
    (path? read).map fun path => r.finish (.header path) .lineEnd
  | .header true read, .closeBracket _ =>
    (path? read).map fun path => { r with expected := .secondBracket path }
  | .header appends read, token =>
    (extendKey? read token).map fun read => { r with expected := .header appends read }
  | .secondBracket path, .closeBracket true => some (r.finish (.appendHeader path) .lineEnd)
  | .secondBracket _, _ => none
  | .value, token => r.stepValue token
  | .entryKey _ [], .newline => some r
  | .entryKey entries [], .closeBrace => r.closeEntries entries r.frames
  | .entryKey entries read, .equals =>
    (path? read).map fun path =>
      { r with expected := .value, frames := .entries entries path :: r.frames }
  | .entryKey entries read, token =>
    (extendKey? read token).map fun read => { r with expected := .entryKey entries read }
  | .separator, token => r.stepSeparator token
  | .lineEnd, .newline => some { r with expected := .statement }
  | .lineEnd, _ => none

/-- The statements that have been read, unless one has been begun. -/
def statements? (r : Reader) : Option (List Statement) :=
  match r.expected with
  | .statement | .lineEnd => some r.statements.reverse
  | _ => none

end Reader

/-- A document that is being built: its table, and the path of the header that is in force.
Assignments go below that header until the next one. -/
structure Document where
  table : Table := []
  header : List String := []

/-- Adds a statement to a document. -/
def Document.add (d : Document) : Statement → Option Document
  | .header path =>
    (d.table.alterAt? Table.opened path).map fun table => { table, header := path }
  | .appendHeader path =>
    (d.table.alterAt? Table.appended path).map fun table => { table, header := path }
  | .assignment path value =>
    (d.table.descend (Table.assign value path) d.header).map fun table => { d with table }

/-- The value of the document that tokens write. -/
def build (tokens : List Token) : Option Json := do
  let reader ← tokens.foldlM Reader.step {}
  let statements ← reader.statements?
  let document ← statements.foldlM Document.add {}
  return document.table.toJson

/-- The value of the document that a text writes. -/
def parse? (text : String) : Option Json :=
  (tokens? text.toList).bind build

end MetaTransaction.Toml
