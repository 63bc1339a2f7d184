import MetaTransaction.Json.Token

/-!
# Reading JSON values

A value is built from its tokens with the open containers on a stack, so that nesting of any depth
is read in constant recursion depth.
-/

namespace MetaTransaction.Json

/-- A container that is still open. What has been read of it comes last first. -/
inductive Frame
  | items (read : List Json)
  | members (read : List (Option String × Json))
  /-- an object that awaits the value of a key -/
  | member (read : List (Option String × Json)) (name : Option String)

/-- What may come next. -/
inductive Expected
  | value
  /-- the first item of an array, or its end -/
  | itemOrEnd
  | key
  /-- the first key of an object, or its end -/
  | keyOrEnd
  | colon
  /-- a comma or the end of the container -/
  | separator
  /-- nothing, as the value is complete -/
  | done (value : Json)

/-- Puts a complete value into the innermost open container. Without one it is the value of the
whole text, and nothing may follow. -/
def place (value : Json) : List Frame → Expected × List Frame
  | .items read :: frames => (.separator, .items (value :: read) :: frames)
  | .member read name :: frames => (.separator, .members ((name, value) :: read) :: frames)
  | frames => (.done value, frames)

/-- Takes the token of a value: a scalar is complete, a container is opened. -/
def startValue (frames : List Frame) : Token → Option (Expected × List Frame)
  | .null => some (place .null frames)
  | .bool b => some (place (.bool b) frames)
  | .natural n => some (place (.natural n) frames)
  | .number literal => some (place (.number literal) frames)
  | .string (some s) => some (place (.string s) frames)
  | .string none => some (place .brokenString frames)
  | .openArray => some (.itemOrEnd, .items [] :: frames)
  | .openObject => some (.keyOrEnd, .members [] :: frames)
  | _ => none

/-- Takes one token. -/
def Expected.step (expected : Expected) (frames : List Frame) (token : Token) :
    Option (Expected × List Frame) :=
  match expected, frames, token with
  | .value, frames, token => startValue frames token
  | .itemOrEnd, .items read :: frames, .closeArray => some (place (.array read.reverse) frames)
  | .itemOrEnd, frames, token => startValue frames token
  | .keyOrEnd, .members read :: frames, .closeObject => some (place (.object read.reverse) frames)
  | .keyOrEnd, .members read :: frames, .string name => some (.colon, .member read name :: frames)
  | .key, .members read :: frames, .string name => some (.colon, .member read name :: frames)
  | .colon, frames, .colon => some (.value, frames)
  | .separator, .items read :: frames, .comma => some (.value, .items read :: frames)
  | .separator, .items read :: frames, .closeArray => some (place (.array read.reverse) frames)
  | .separator, .members read :: frames, .comma => some (.key, .members read :: frames)
  | .separator, .members read :: frames, .closeObject =>
    some (place (.object read.reverse) frames)
  | _, _, _ => none

/-- The value of tokens, of which the open containers have been read before. -/
def build (expected : Expected) (frames : List Frame) : List Token → Option Json
  | [] =>
    match expected with
    | .done value => some value
    | _ => none
  | token :: tokens =>
    match expected.step frames token with
    | none => none
    | some (expected, frames) => build expected frames tokens

/-- The value that a text writes. Nothing but blanks may stand around it. -/
def parse? (text : String) : Option Json :=
  (tokens? text.toList).bind (build .value [])

end MetaTransaction.Json
