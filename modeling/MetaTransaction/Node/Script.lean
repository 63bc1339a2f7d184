import MetaTransaction.Node.Basic

/-!
# Scripted nodes

A node whose answers are written down beforehand for each method. Successive requests of a method
take successive answers, and the last answer stays. A method without answers is refused.
-/

namespace MetaTransaction

open Confirmation (Reply HandleAction)

/-- A scripted answer. -/
inductive ScriptedAnswer
  | result (value : Json)
  | refusal (code : Int) (message : String)
  /-- the node cancels the wait in place of answering -/
  | interrupt

/-- The reply that carries a scripted answer. -/
def ScriptedAnswer.reply : ScriptedAnswer → Reply NodeFailure Json
  | .result value => { answer := .ok value }
  | .refusal code message => { answer := .error (.refused code message) }
  | .interrupt => { answer := .error .unreachable, delay := none, action := some .cancel }

/-- The answers of a node by method. -/
abbrev NodeScript := List (String × List ScriptedAnswer)

namespace NodeScript

/-- The answer to the request of a method that comes after `earlier` others, the last one for all
requests that come after it. -/
def answer (s : NodeScript) (method : String) (earlier : Nat) : ScriptedAnswer :=
  match (s.lookup method).getD [] with
  | [] => .refusal (-32601) ("no answer for " ++ method)
  | first :: rest => (first :: rest).getD (min earlier rest.length) first

/-- The node that answers by the script. Its state is the methods asked for so far. -/
def node (s : NodeScript) : Node (List String) where
  ask request _ asked :=
    ((s.answer request.method (asked.count request.method)).reply, request.method :: asked)

end NodeScript

end MetaTransaction
