import MetaTransaction.Confirmation.Wait
import MetaTransaction.Decimal
import MetaTransaction.Text.Split

/-!
# Logs

What a run reports while it goes on, and the filter that decides what is shown of it. A filter is a
list of directives between commas; a directive is a level, the start of the name of a source, or both
with an equals sign between them. Of the directives that apply to an entry the one with the longest
name decides, and the last one of several for the same name.
-/

namespace MetaTransaction.CommandLine

/-- How serious an entry is. -/
inductive Level
  | error
  | warn
  | info
  | debug
  | trace
deriving DecidableEq, Repr

namespace Level

/-- The level as entries show it. -/
def name : Level → String
  | .error => "ERROR"
  | .warn => "WARN"
  | .info => "INFO"
  | .debug => "DEBUG"
  | .trace => "TRACE"

/-- How far a filter has to be open to show the level. -/
def rank : Level → Nat
  | .error => 1
  | .warn => 2
  | .info => 3
  | .debug => 4
  | .trace => 5

end Level

/-- A part of the program that reports. -/
inductive Source
  | program
  | confirmation
  | delivery
  | chain
deriving DecidableEq, Repr

/-- The name of a source. -/
def Source.name : Source → String
  | .program => "metatx"
  | .confirmation => "metatx_confirm"
  | .delivery => "metatx_delivery"
  | .chain => "metatx_chain"

/-- Something that is reported. -/
structure LogEntry where
  level : Level
  source : Source
  message : String
deriving DecidableEq, Repr

/-! ## Filters -/

/-- What a directive applies to. -/
inductive Scope
  | everything
  /-- sources whose names start so -/
  | source (name : List Char)
  /-- named spans of time, of which there are none -/
  | span
deriving DecidableEq, Repr

/-- A directive: entries in the scope are shown up to the rank. -/
structure Directive where
  scope : Scope
  rank : Nat
deriving DecidableEq, Repr

/-- How far the word for a level opens a filter: a name in either case, or a digit. Nothing at all
stands for errors. -/
def rankOfWord? (word : List Char) : Option Nat :=
  match Decimal.readBelow 6 word with
  | .ok n => some n
  | .error _ =>
    if word.isEmpty then some 1
    else
      [("off", 0), ("error", 1), ("warn", 2), ("info", 3), ("debug", 4), ("trace", 5)].lookup
        (String.ofList (word.map Char.toLower))

/-- Blanks that do not count at the ends of a directive. -/
def isBlank (c : Char) : Bool :=
  c.isWhitespace || c = '\x0b' || c = '\x0c'

/-- Whether a directive may start with the character. -/
def startsDirective (c : Char) : Bool :=
  c.isAlphanum || c = '-' || c = ':' || c = '_' || 128 ≤ c.toNat

/-- The directive of a text; none if it is no directive. -/
def Directive.read? (text : List Char) : Option Directive :=
  let trimmed := ((text.dropWhile isBlank).reverse.dropWhile isBlank).reverse
  match trimmed.head? with
  | none => none
  | some first =>
    if trimmed.contains '[' then some ⟨.span, 5⟩
    else if !startsDirective first then none
    else if trimmed.contains '=' then
      let length := (trimmed.takeWhile (· ≠ '=')).length
      let level := text.drop (length + 1)
      (if level.isEmpty then some 5 else rankOfWord? level).map (⟨.source (text.take length), ·⟩)
    else
      match rankOfWord? text with
      | some rank => some ⟨.everything, rank⟩
      | none => some ⟨.source text, 5⟩

/-- A filter of log entries. -/
abbrev Verbosity := List Directive

namespace Verbosity

/-- The texts of the directives of a filter. -/
def parts (text : String) : List (List Char) :=
  (Text.split ',' text.toList).filter fun part => !part.isEmpty

/-- A filter without directives shows errors. -/
def orErrors (directives : List Directive) : Verbosity :=
  if directives.isEmpty then [⟨.everything, 1⟩] else directives

/-- The filter of a text, of which only what is a directive counts. -/
def read (text : String) : Verbosity :=
  orErrors ((parts text).filterMap Directive.read?)

/-- The filter of a text that consists of directives. -/
def read? (text : String) : Option Verbosity :=
  ((parts text).mapM Directive.read?).map orErrors

/-- How much a directive has to say about a source; none when it does not apply. -/
def weight? (source : Source) (d : Directive) : Option Nat :=
  match d.scope with
  | .everything => some 0
  | .source name => if name.isPrefixOf source.name.toList then some (name.length + 1) else none
  | .span => none

/-- The weight and the rank of the directive that decides about a source. Without a directive that
applies nothing is shown. -/
def decisive (f : Verbosity) (source : Source) : Nat × Nat :=
  f.foldl
    (fun best d =>
      match weight? source d with
      | none => best
      | some weight => if best.1 ≤ weight then (weight, d.rank) else best)
    (0, 0)

/-- Whether an entry is shown. -/
def shows (f : Verbosity) (entry : LogEntry) : Bool :=
  entry.level.rank ≤ (f.decisive entry.source).2

end Verbosity

/-! ## Waits -/

open Confirmation (ChainCall Reply Ending)

/-- Whether a call that arrived at `time` was answered before a wait ended. Of a wait that resolved
all calls were; of an interrupted one the end may have come before the last answer. -/
def answered {ε σ α : Type} (ending : Ending ε σ) (time : Nat) (reply : Reply ε α) : Bool :=
  match reply.delay with
  | none => false
  | some delay => delay = 0 || ending.result.toBool || time + delay < ending.world.now

/-- What a wait reports about a call. -/
def callEntries {ε σ : Type} (ending : Ending ε σ) : ChainCall ε → List LogEntry
  | .head time reply =>
    if answered ending time reply then
      match reply.answer with
      | .error _ => [⟨.warn, .confirmation, "Failed to fetch head block, retrying"⟩]
      | .ok _ => []
    else []
  | .logs _ time reply =>
    if answered ending time reply then
      match reply.answer with
      | .error _ => [⟨.warn, .confirmation, "Failed to fetch logs, retrying"⟩]
      | .ok _ => [⟨.trace, .chain, "Fetched logs"⟩, ⟨.debug, .confirmation, "Scanned block range"⟩]
    else []
  | .receipt _ time reply =>
    if answered ending time reply then
      match reply.answer with
      | .error _ => [⟨.warn, .confirmation, "Failed to fetch receipt, retrying"⟩]
      | .ok none => [⟨.debug, .confirmation, "Receipt not found, skipping"⟩]
      | .ok (some _) => []
    else []

/-- What a wait reports; `interrupted` is what is reported of a cancellation. -/
def waitEntries {ε σ : Type} (ending : Ending ε σ) (interrupted : String) : List LogEntry :=
  [⟨.info, .confirmation, "Waiting for meta transaction"⟩] ++
    ending.world.calls.reverse.flatMap (callEntries ending) ++
    (match ending.result with
      | .ok _ => [⟨.info, .confirmation, "Meta transaction resolved"⟩]
      | .error (.cancelled _) => [⟨.warn, .program, interrupted⟩]
      | .error _ => [])

end MetaTransaction.CommandLine
