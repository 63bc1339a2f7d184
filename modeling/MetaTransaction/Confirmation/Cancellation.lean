import MetaTransaction.Duration

/-!
# Cancellation

A handle cancels, and signals tell that it did. A signal receives what the handle it was made from
sends; copies of a signal receive the same. A handle that is dropped without having cancelled never
cancels any more. Waits see of all that only when the handle cancels (`Handle`).
-/

namespace MetaTransaction.Confirmation

/-- What its holder does with a handle. -/
inductive HandleAction
  | cancel
  | drop
deriving DecidableEq, Repr

/-- The side of a cancellation that cancels. -/
structure Handle where
  /-- when it cancels, if it does -/
  cancelledAt : Option Nat := none
  /-- whether somebody still holds it -/
  held : Bool := true
deriving DecidableEq, Repr

namespace Handle

/-- The handle of a wait that nobody can cancel. -/
def never : Handle := { held := false }

/-- A handle of which it is known when it cancels. -/
def scheduled (time : Nat) : Handle := { cancelledAt := some time, held := false }

/-- Cancels now, unless that has happened or nobody holds the handle. -/
def cancel (h : Handle) (now : Nat) : Handle :=
  if h.held && h.cancelledAt.isNone then { h with cancelledAt := some now } else h

/-- Gives the handle up. -/
def drop (h : Handle) : Handle := { h with held := false }

/-- The handle after what its holder does now. -/
def act (h : Handle) (now : Nat) : Option HandleAction → Handle
  | none => h
  | some .cancel => h.cancel now
  | some .drop => h.drop

/-- Whether the handle has cancelled by now. -/
def isCancelled (h : Handle) (now : Nat) : Bool :=
  match h.cancelledAt with
  | none => false
  | some time => time ≤ now

end Handle

/-! ## Signals -/

/-- What joins a handle with its signals: one value, which says whether the handle has cancelled. -/
structure Channel where
  cancelled : Bool := false
  /-- how often a value has been sent -/
  version : Nat := 0
  /-- whether somebody still holds the handle -/
  held : Bool := true
deriving DecidableEq, Repr

/-- A receiving end of a channel. -/
structure Receiver where
  /-- the version of the value that has been seen last -/
  seen : Nat
deriving DecidableEq, Repr

/-- Where a task stands that waits for a signal. -/
inductive Waiting
  | fired
  /-- until a value comes that has not been seen -/
  | asleep (receiver : Receiver)
  /-- no value will ever come -/
  | forever
deriving DecidableEq, Repr

namespace Channel

/-- Sends that the handle has cancelled. -/
def send (c : Channel) : Channel :=
  { c with cancelled := true, version := c.version + 1 }

/-- Gives the sending end up. -/
def close (c : Channel) : Channel := { c with held := false }

/-- A new receiving end, for which the present value has been seen. -/
def subscribe (c : Channel) : Receiver := ⟨c.version⟩

/-- Waits for a value that has not been seen, after everything sent so far has. -/
def sleep (c : Channel) (r : Receiver) : Waiting :=
  if c.held then .asleep r else .forever

/-- Looks at the value, and waits for the next one unless it is a cancellation. -/
def look (c : Channel) : Waiting :=
  if c.cancelled then .fired else c.sleep c.subscribe

/-- Wakes a task. It looks at the value only if that has not been seen. -/
def wake (c : Channel) : Waiting → Waiting
  | .asleep r => if c.version = r.seen then c.sleep r else c.look
  | waiting => waiting

end Channel

/-- A handle together with all signals that were made, in the order of their making. -/
structure Cancellation where
  channel : Channel := {}
  /-- for each signal its receiving end, none for a signal of no handle -/
  signals : List (Option Receiver) := [some ({} : Channel).subscribe]
deriving DecidableEq, Repr

namespace Cancellation

/-- The receiving end of a signal, if it has one. -/
def receiver? (c : Cancellation) (signal : Nat) : Option Receiver :=
  c.signals.getD signal none

/-- Whether a signal tells a cancellation. -/
def isCancelled (c : Cancellation) (signal : Nat) : Bool :=
  (c.receiver? signal).isSome && c.channel.cancelled

/-- What all signals tell. -/
def readings (c : Cancellation) : List Bool :=
  (List.range c.signals.length).map c.isCancelled

/-- What can be done with a handle and its signals at once. -/
inductive Operation
  /-- a new signal of the handle -/
  | signal
  /-- a copy of a signal -/
  | clone (signal : Nat)
  /-- a signal of no handle -/
  | never
  | cancel
  | drop
deriving DecidableEq, Repr

/-- With one more signal. -/
def addSignal (c : Cancellation) (receiver : Option Receiver) : Cancellation :=
  { c with signals := c.signals ++ [receiver] }

/-- Does an operation; none when it needs a handle that nobody holds any more. -/
def apply (c : Cancellation) : Operation → Option Cancellation
  | .signal => if c.channel.held then some (c.addSignal c.channel.subscribe) else none
  | .clone signal => some (c.addSignal (c.receiver? signal))
  | .never => some (c.addSignal none)
  | .cancel => if c.channel.held then some { c with channel := c.channel.send } else none
  | .drop => some { c with channel := c.channel.close }

/-- What is to happen while somebody waits for a signal. -/
structure Planned where
  /-- how long after what is planned before, or after the start of the waiting -/
  delay : Nat
  operation : Operation
deriving DecidableEq, Repr

/-- Where a task stands that starts to wait for a signal. -/
def start (c : Cancellation) (signal : Nat) : Waiting :=
  match c.receiver? signal with
  | none => .forever
  | some _ => c.channel.look

/-- When a waiting task goes on, after `elapsed` ticks and while the plan is carried out. It is
woken after each operation. -/
def firesFrom (c : Cancellation) (waiting : Waiting) (elapsed : Nat) : List Planned → Option Nat
  | [] => if waiting = .fired then some elapsed else none
  | planned :: plan =>
    if waiting = .fired then some elapsed
    else
      match c.apply planned.operation with
      | none => none
      | some c => c.firesFrom (c.channel.wake waiting) (elapsed + planned.delay) plan

/-- When a signal fires that is waited for from now on, in ticks from now. -/
def firesAfter (c : Cancellation) (signal : Nat) (plan : List Planned) : Option Nat :=
  c.firesFrom (c.start signal) 0 plan

/-- Waits for a signal for at most `limit` ticks and until what is planned has happened. The first
part of the result tells whether the signal fired, and how many ticks have passed. A signal that
fires at the limit is too late. -/
def await (c : Cancellation) (signal limit : Nat) (planned : Option Planned) :
    (Bool × Nat) × Cancellation :=
  let (fired, ends) :=
    match c.firesAfter signal planned.toList with
    | some after => if after = 0 ∨ after < limit then (true, after) else (false, limit)
    | none => (false, limit)
  let elapsed := max ends ((planned.map Planned.delay).getD 0)
  let later := (planned.bind fun planned => c.apply planned.operation).getD c
  ((fired, elapsed), later)

end Cancellation

end MetaTransaction.Confirmation
