import MetaTransaction.Confirmation.Cancellation
import MetaTransaction.Confirmation.Classification
import MetaTransaction.Confirmation.Window

/-!
# Waits

A wait asks a chain for its head, for the logs of a window and for the receipts of the candidates,
and pauses between rounds. It is a machine that makes one step for each call or pause. Before each
step it looks whether the deadline has come or the wait was cancelled, and an answer counts only
when it comes before either. Of events at one instant the deadline counts first, then the
cancellation, then the answer; an answer without any delay counts at once. Main statement: a step
moves on in time or to a later phase of the round (`step_decreases`), so that `run` ends.
-/

namespace MetaTransaction.Confirmation

/-- What a chain answers to a call that has arrived. -/
structure Reply (ε α : Type) where
  answer : Except ε α
  /-- after how many ticks the answer is there; none when it never is -/
  delay : Option Nat := some 0
  /-- what happens to the handle of the wait when the call arrives -/
  action : Option HandleAction := none

/-- A chain with state `σ` that may answer anything and may change between calls. -/
structure Chain (ε σ : Type) where
  head : Nat → σ → Reply ε BlockNumber × σ
  logs : LogFilter → Nat → σ → Reply ε (List Log) × σ
  receipt : Hash → Nat → σ → Reply ε (Option Receipt) × σ

/-- A call that has arrived at the chain, and the reply to it. -/
inductive ChainCall (ε : Type)
  | head (time : Nat) (reply : Reply ε BlockNumber)
  | logs (filter : LogFilter) (time : Nat) (reply : Reply ε (List Log))
  | receipt (hash : Hash) (time : Nat) (reply : Reply ε (Option Receipt))

/-- What a wait acts on. -/
structure World (ε σ : Type) where
  now : Nat
  handle : Handle
  chain : σ
  /-- the calls that have arrived, latest first -/
  calls : List (ChainCall ε) := []

/-- What a wait is after. -/
structure Plan where
  id : Identifier
  settings : Settings
  timeout : Duration
  deadline : Nat
  valid : settings.validate = .ok ()

/-- What a wait does next. -/
inductive Phase
  /-- ask for the head; without a base no head has been answered yet -/
  | head (base : Option BlockNumber)
  /-- ask for the logs of the window up to a head -/
  | logs (base head : BlockNumber)
  /-- ask for the receipts of the candidates that are left -/
  | receipts (base head : BlockNumber) (pending : List Hash)
  /-- pause before the next round -/
  | pause (base : Option BlockNumber)
deriving DecidableEq

/-- How far a round still is from its end. -/
def Phase.rank : Phase → Nat × Nat
  | .head _ => (3, 0)
  | .logs _ _ => (2, 0)
  | .receipts _ _ pending => (1, pending.length)
  | .pause _ => (0, 0)

/-- What ends a wait from outside. -/
inductive Interrupt
  | deadline
  | cancelled
deriving DecidableEq, Repr

/-- The result of a wait that is interrupted. -/
def Plan.error (plan : Plan) : Interrupt → Error
  | .deadline => .deadlineExceeded plan.id plan.timeout
  | .cancelled => .cancelled plan.id

/-- The instant from which on the wait is interrupted, and by what. -/
def limit (deadline : Nat) (handle : Handle) (now : Nat) : Nat × Interrupt :=
  match handle.cancelledAt with
  | none => (deadline, .deadline)
  | some time => if max time now < deadline then (max time now, .cancelled) else (deadline, .deadline)

/-- When a waiting that would take `delay` ticks is over, and what interrupted it. -/
def settle (deadline : Nat) (handle : Handle) (now : Nat) (delay : Option Nat) :
    Nat × Option Interrupt :=
  match delay with
  | some 0 => (now, none)
  | some ticks =>
    if now + ticks < (limit deadline handle now).1 then (now + ticks, none)
    else ((limit deadline handle now).1, some (limit deadline handle now).2)
  | none => ((limit deadline handle now).1, some (limit deadline handle now).2)

/-- What a step leads to. -/
inductive Next (ε σ : Type)
  | more (world : World ε σ) (phase : Phase)
  | done (world : World ε σ) (result : Except Error Outcome)

section

variable {ε σ : Type}

/-- Makes a call: the chain and the handle change when it arrives. -/
def World.ask {α : Type} (w : World ε σ) (query : Nat → σ → Reply ε α × σ)
    (record : Nat → Reply ε α → ChainCall ε) : Reply ε α × World ε σ :=
  let (reply, chain) := query w.now w.chain
  (reply,
    { w with
      chain
      handle := w.handle.act w.now reply.action
      calls := record w.now reply :: w.calls })

/-- Waits, and goes on unless the wait is interrupted. -/
def World.await (w : World ε σ) (plan : Plan) (delay : Option Nat)
    (next : World ε σ → Next ε σ) : Next ε σ :=
  match settle plan.deadline w.handle w.now delay with
  | (time, none) => next { w with now := time }
  | (time, some interrupt) => .done { w with now := time } (.error (plan.error interrupt))

/-- One step of a wait. -/
def step (plan : Plan) (chain : Chain ε σ) (w : World ε σ) (phase : Phase) : Next ε σ :=
  let limit := limit plan.deadline w.handle w.now
  if limit.1 ≤ w.now then .done w (.error (plan.error limit.2))
  else
    match phase with
    | .head base =>
      let (reply, w) := w.ask chain.head .head
      w.await plan reply.delay fun w =>
        match reply.answer with
        | .error _ => .more w (.pause base)
        | .ok head => .more w (.logs (base.getD (plan.settings.firstBase head)) head)
    | .logs base head =>
      let filter := plan.settings.window base head
      let (reply, w) := w.ask (chain.logs filter) (.logs filter)
      w.await plan reply.delay fun w =>
        match reply.answer with
        | .error _ => .more w (.pause (some base))
        | .ok logs => .more w (.receipts base head (candidates logs))
    | .receipts _ head [] => .more w (.pause (some head))
    | .receipts base head (hash :: pending) =>
      let (reply, w) := w.ask (chain.receipt hash) (.receipt hash)
      w.await plan reply.delay fun w =>
        match reply.answer with
        | .error _ => .more w (.pause (some base))
        | .ok none => .more w (.receipts base head pending)
        | .ok (some receipt) =>
          match classifyReceipt plan.id plan.settings.failedTopic plan.settings.wallet receipt with
          | some status => .done w (.ok ⟨status, receipt⟩)
          | none => .more w (.receipts base head pending)
    | .pause base =>
      w.await plan (some plan.settings.pollInterval.ticks) fun w => .more w (.head base)

/-! ## Termination -/

theorem limit_le (deadline : Nat) (handle : Handle) (now : Nat) :
    (limit deadline handle now).1 ≤ deadline := by
  unfold limit
  split
  · exact Nat.le_refl _
  · split
    · exact Nat.le_of_lt (by assumption)
    · exact Nat.le_refl _

/-- A waiting that is not interrupted is over at once, or before anything interrupts. The first
case is the one in which no time passes, so that a step needs some other reason to be nearer to
the end. -/
theorem settle_none {deadline now time : Nat} {handle : Handle} {delay : Option Nat}
    (h : settle deadline handle now delay = (time, none)) :
    (delay = some 0 ∧ time = now) ∨
      (∃ ticks, delay = some ticks ∧ 0 < ticks ∧ time = now + ticks ∧
        time < (limit deadline handle now).1) := by
  unfold settle at h
  split at h
  · cases h
    exact .inl ⟨rfl, rfl⟩
  · rename_i ticks nonzero
    split at h
    · cases h
      exact .inr ⟨ticks, rfl, Nat.pos_of_ne_zero (fun zero => nonzero (by rw [zero])), rfl,
        by assumption⟩
    · cases h
  · cases h

/-- The order in which a wait gets nearer to its end: the deadline comes nearer, or at the same
instant the round comes nearer to its pause. -/
def Nearer (plan : Plan) (a b : World ε σ × Phase) : Prop :=
  Prod.Lex (· < ·) (Prod.Lex (· < ·) (· < ·))
    (plan.deadline - a.1.now, a.2.rank) (plan.deadline - b.1.now, b.2.rank)

/-- A step that goes on after a waiting was not interrupted by it: it goes on at some instant
`time`, which is now or later but still before the deadline. -/
theorem await_more {plan : Plan} {w w' : World ε σ} {delay : Option Nat}
    {next : World ε σ → Next ε σ} {phase : Phase}
    (h : w.await plan delay next = .more w' phase) :
    ∃ time, next { w with now := time } = .more w' phase ∧
      ((delay = some 0 ∧ time = w.now) ∨
        (∃ ticks, delay = some ticks ∧ 0 < ticks ∧ time = w.now + ticks ∧
          time < plan.deadline)) := by
  unfold World.await at h
  split at h
  · rename_i time settled
    refine ⟨time, h, (settle_none settled).imp id ?_⟩
    rintro ⟨ticks, delayed, positive, late, early⟩
    exact ⟨ticks, delayed, positive, late, Nat.lt_of_lt_of_le early (limit_le ..)⟩
  · cases h

/-- What goes on after a waiting is nearer to the end, either because time has passed or because
no time was needed and the phase is a later one of the round. Each phase of a step is a case of
this. -/
theorem nearer_of_await {plan : Plan} {w u v : World ε σ} {phase before : Phase} {time : Nat}
    {delay : Option Nat} (from_now : u.now = w.now) (at_time : v.now = time)
    (h : (delay = some 0 ∧ time = u.now) ∨
      (∃ ticks, delay = some ticks ∧ 0 < ticks ∧ time = u.now + ticks ∧ time < plan.deadline))
    (later : Prod.Lex (· < ·) (· < ·) phase.rank before.rank ∨ delay ≠ some 0) :
    Nearer plan (v, phase) (w, before) := by
  unfold Nearer
  rcases h with ⟨zero, same⟩ | ⟨ticks, _, positive, late, early⟩
  · rcases later with later | nonzero
    · rw [at_time, same, from_now]
      exact Prod.Lex.right _ later
    · exact absurd zero nonzero
  · apply Prod.Lex.left
    change plan.deadline - v.now < plan.deadline - w.now
    omega

/-- A step that does not end the wait brings it nearer to its end. Only the pause returns to an
earlier phase, and it takes time because the settings are valid; this is what lets `run` go on
without a bound on the number of steps. -/
theorem step_decreases {plan : Plan} {chain : Chain ε σ} {w w' : World ε σ} {phase phase' : Phase}
    (h : step plan chain w phase = .more w' phase') : Nearer plan (w', phase') (w, phase) := by
  unfold step at h
  simp only at h
  split at h
  · cases h
  · split at h
    · obtain ⟨time, next, waited⟩ := await_more h
      split at next <;> cases next
      · exact nearer_of_await rfl rfl waited (.inl (.left _ _ (by decide)))
      · exact nearer_of_await rfl rfl waited (.inl (.left _ _ (by decide)))
    · obtain ⟨time, next, waited⟩ := await_more h
      split at next <;> cases next
      · exact nearer_of_await rfl rfl waited (.inl (.left _ _ (by decide)))
      · exact nearer_of_await rfl rfl waited (.inl (.left _ _ (by decide)))
    · cases h
      exact .right _ (.left _ _ (by decide))
    · obtain ⟨time, next, waited⟩ := await_more h
      split at next
      · cases next
        exact nearer_of_await rfl rfl waited (.inl (.left _ _ (by decide)))
      · cases next
        exact nearer_of_await rfl rfl waited (.inl (.right _ (Nat.lt_succ_self _)))
      · split at next <;> cases next
        exact nearer_of_await rfl rfl waited (.inl (.right _ (Nat.lt_succ_self _)))
    · obtain ⟨time, next, waited⟩ := await_more h
      cases next
      refine nearer_of_await rfl rfl waited (.inr ?_)
      have positive := plan.settings.pollInterval_pos plan.valid
      simp only [ne_eq, Option.some.injEq]
      omega

/-- How a wait ended. -/
structure Ending (ε σ : Type) where
  result : Except Error Outcome
  world : World ε σ

/-- Runs a wait to its end. -/
def run (plan : Plan) (chain : Chain ε σ) (w : World ε σ) (phase : Phase) : Ending ε σ :=
  match _taken : step plan chain w phase with
  | .done w result => ⟨result, w⟩
  | .more w phase => run plan chain w phase
termination_by (plan.deadline - w.now, phase.rank)
decreasing_by exact step_decreases _taken

end

/-- The longest time that a deadline lies ahead when the clock cannot tell a later one. -/
def farFuture : Nat := 30 * 365 * 86400 * 1000

/-- The instant at which a timeout that starts now is over. A timeout of `2 ^ 63` seconds or more is
beyond the clock. -/
def deadlineAfter (now : Nat) (timeout : Duration) : Nat :=
  now + if timeout.seconds < Nat.pow 2 63 then timeout.ticks else farFuture

/-- An engine whose settings are valid. -/
structure Waiter where
  settings : Settings
  valid : settings.validate = .ok ()

namespace Waiter

/-- The engine with the settings, when they are valid. -/
def new (settings : Settings) : Except Error Waiter :=
  match h : settings.validate with
  | .error e => .error (.invalidSettings e)
  | .ok () => .ok ⟨settings, h⟩

/-- The plan of a wait that starts now. -/
def plan (waiter : Waiter) (id : Identifier) (timeout : Option Duration) (now : Nat) : Plan :=
  let timeout := timeout.getD waiter.settings.defaultTimeout
  { id, timeout
    settings := waiter.settings
    deadline := deadlineAfter now timeout
    valid := waiter.valid }

/-- Waits for the outcome of a meta-transaction from `now` on. -/
def wait {ε σ : Type} (waiter : Waiter) (chain : Chain ε σ) (id : Identifier)
    (timeout : Option Duration) (handle : Handle) (now : Nat) (state : σ) : Ending ε σ :=
  run (waiter.plan id timeout now) chain { now, handle, chain := state } (.head none)

end Waiter

/-! ## Waits one after another -/

/-- Who can cancel a wait. -/
inductive CancelSource
  | nobody
  /-- the handle cancels this long after the start of the wait -/
  | after (ticks : Nat)
  /-- the handle is held at the chain -/
  | chain
deriving DecidableEq, Repr

/-- The handle of a wait that starts now. -/
def CancelSource.handle (now : Nat) : CancelSource → Handle
  | .nobody => .never
  | .after ticks => .scheduled (now + ticks)
  | .chain => {}

/-- A wait to be made. -/
structure Request where
  id : Identifier
  timeout : Option Duration := none
  cancel : CancelSource := .nobody

/-- A wait that was made. -/
structure Finished (ε : Type) where
  result : Except Error Outcome
  elapsed : Nat
  /-- the calls in the order of their arrival -/
  calls : List (ChainCall ε)

/-- Makes waits one after another, each from the instant at which the one before it ended. -/
def Waiter.waits {ε σ : Type} (waiter : Waiter) (chain : Chain ε σ) (now : Nat) (state : σ) :
    List Request → List (Finished ε)
  | [] => []
  | request :: requests =>
    let ending := waiter.wait chain request.id request.timeout (request.cancel.handle now) now state
    { result := ending.result
      elapsed := ending.world.now - now
      calls := ending.world.calls.reverse } ::
        waiter.waits chain ending.world.now ending.world.chain requests

end MetaTransaction.Confirmation
