import MetaTransaction.Confirmation.Wait

/-!
# Scripted chains

A chain whose answers are written down beforehand. Its calls are numbered from zero. Logs and
receipts are visible to a span of calls; the heads are used up one for each answered query, the last
one again and again; faults make single calls late, fail or hang, or let the holder of the cancel
handle act.
-/

namespace MetaTransaction.Confirmation

/-- Something that is visible to the calls of a span. -/
structure Visible (α : Type) where
  item : α
  /-- the first call that sees it -/
  since : Nat := 0
  /-- the first call that does not see it any more -/
  till : Option Nat := none

/-- What a call with a number sees. -/
def Visible.at? {α : Type} (call : Nat) (v : Visible α) : Option α :=
  if v.since ≤ call ∧ (v.till.all fun till => call < till) then some v.item else none

/-- How a scripted call fails. -/
inductive Failure
  | network
  | invalidResponse
deriving DecidableEq, Repr

/-- What is unusual about a call. -/
structure Fault where
  /-- the number of the call -/
  call : Nat
  latency : Nat := 0
  failure : Option Failure := none
  hangs : Bool := false
  action : Option HandleAction := none
deriving DecidableEq, Repr

/-- The answers of a chain. -/
structure Script where
  heads : List BlockNumber
  logs : List (Visible Log)
  receipts : List (Visible Receipt)
  faults : List Fault := []
  /-- whether log queries ignore their filter -/
  unfiltered : Bool := false

namespace Script

/-- How far a script has got. -/
structure State where
  /-- the number of calls so far -/
  calls : Nat := 0
  /-- the number of heads that are used up -/
  heads : Nat := 0
deriving DecidableEq, Repr

/-- The fault of the next call, if there is one. -/
def fault (s : Script) (state : State) : Fault :=
  (s.faults.find? (·.call = state.calls)).getD { call := state.calls }

/-- The reply to a call that would be answered `answer`. -/
def Fault.reply {α : Type} (fault : Fault) (answer : α) : Reply Failure α :=
  { answer :=
      match fault.failure with
      | some failure => .error failure
      | none => .ok answer
    delay := if fault.hangs then none else some fault.latency
    action := fault.action }

/-- The head of the next answered query. -/
def head (s : Script) (state : State) : BlockNumber :=
  s.heads.getD (min state.heads (s.heads.length - 1)) 0

/-- The logs that a query sees. -/
def matchingLogs (s : Script) (filter : LogFilter) (state : State) : List Log :=
  (s.logs.filterMap (·.at? state.calls)).filter fun log => s.unfiltered || filter.accepts log

/-- The receipt of a transaction that a query sees. -/
def receipt (s : Script) (hash : Hash) (state : State) : Option Receipt :=
  (s.receipts.filterMap (·.at? state.calls)).find? (·.transactionHash = hash)

/-- The chain that answers by the script. A head counts as answered unless its call fails or
hangs. -/
def chain (s : Script) : Chain Failure State where
  head _ state :=
    let fault := s.fault state
    let used := if fault.failure.isSome || fault.hangs then 0 else 1
    (Fault.reply fault (s.head state), ⟨state.calls + 1, state.heads + used⟩)
  logs filter _ state :=
    (Fault.reply (s.fault state) (s.matchingLogs filter state), { state with calls := state.calls + 1 })
  receipt hash _ state :=
    (Fault.reply (s.fault state) (s.receipt hash state), { state with calls := state.calls + 1 })

end Script

end MetaTransaction.Confirmation
