import MetaTransaction.Proofs.Confirmation.Trace

/-!
# Waits over chains that answer alike

A wait does not look at the error that a call is answered with. Over two chains that answer alike,
apart from their errors, it makes the same calls at the same instants and ends with the same result.
The chains may keep different states; which of them belong together is a relation that may depend on
the calls so far.

* `Alike`, `Simulates` — chains that answer alike in states that belong together;
* `step_matches`, `run_matches` — a step, and a run, over such chains;
* `wait_matches` — the statement for every wait.
-/

namespace MetaTransaction.Confirmation

variable {ε δ σ τ α : Type}

/-! ## Answers without their errors -/

/-- An answer, without the error in it. -/
def plainAnswer (answer : Except ε α) : Except Unit α :=
  answer.mapError fun _ => ()

/-- A reply, without the error in it. -/
def Reply.plain (reply : Reply ε α) : Reply Unit α where
  answer := plainAnswer reply.answer
  delay := reply.delay
  action := reply.action

/-- A call, without the error that it is answered with. -/
def ChainCall.plain : ChainCall ε → ChainCall Unit
  | .head time reply => .head time reply.plain
  | .logs filter time reply => .logs filter time reply.plain
  | .receipt hash time reply => .receipt hash time reply.plain

/-- Replies that agree apart from their errors. This is all that a wait can make out of two replies,
as it goes on in the same way after whatever error. -/
theorem Reply.plain_cases {reply : Reply ε α} {reply' : Reply δ α}
    (same : reply.plain = reply'.plain) :
    (∃ e e', reply.answer = .error e ∧ reply'.answer = .error e') ∨
      ∃ a, reply.answer = .ok a ∧ reply'.answer = .ok a := by
  have answers : plainAnswer reply.answer = plainAnswer reply'.answer :=
    congrArg Reply.answer same
  cases answer : reply.answer with
  | error e =>
    cases answer' : reply'.answer with
    | error e' => exact .inl ⟨e, e', rfl, rfl⟩
    | ok a' =>
      rw [answer, answer'] at answers
      cases answers
  | ok a =>
    cases answer' : reply'.answer with
    | error e' =>
      rw [answer, answer'] at answers
      cases answers
    | ok a' =>
      rw [answer, answer'] at answers
      cases answers
      exact .inr ⟨a, rfl, rfl⟩

theorem Reply.delay_of_plain {reply : Reply ε α} {reply' : Reply δ α}
    (same : reply.plain = reply'.plain) : reply.delay = reply'.delay :=
  congrArg (fun plain : Reply Unit α => plain.delay) same

/-! ## Chains that answer alike -/

/-- Queries that are answered alike in states that belong together, and leave such states. The
relation between states may depend on the calls that were made, which is how a chain is compared
with one that is defined by its history. -/
def Alike (R : List (ChainCall Unit) → σ → τ → Prop)
    (record : Nat → Reply Unit α → ChainCall Unit) (query : Nat → σ → Reply ε α × σ)
    (query' : Nat → τ → Reply δ α × τ) : Prop :=
  ∀ calls now s t, R calls s t →
    (query now s).1.plain = (query' now t).1.plain ∧
      R (record now (query now s).1.plain :: calls) (query now s).2 (query' now t).2

/-- Chains that answer alike, each call of one like the same call of the other. -/
structure Simulates (R : List (ChainCall Unit) → σ → τ → Prop) (chain : Chain ε σ)
    (chain' : Chain δ τ) : Prop where
  head : Alike R .head chain.head chain'.head
  logs : ∀ filter, Alike R (.logs filter) (chain.logs filter) (chain'.logs filter)
  receipt : ∀ hash, Alike R (.receipt hash) (chain.receipt hash) (chain'.receipt hash)

/-- Worlds that differ in the states of their chains and in errors only. -/
structure World.Matches (R : List (ChainCall Unit) → σ → τ → Prop) (w : World ε σ)
    (v : World δ τ) : Prop where
  now : w.now = v.now
  handle : w.handle = v.handle
  calls : w.calls.map ChainCall.plain = v.calls.map ChainCall.plain
  chain : R (w.calls.map ChainCall.plain) w.chain v.chain

/-- Steps that lead to the same phase or result, in worlds that match. -/
inductive Next.Matches (R : List (ChainCall Unit) → σ → τ → Prop) :
    Next ε σ → Next δ τ → Prop
  | more {w v phase} : w.Matches R v → Next.Matches R (.more w phase) (.more v phase)
  | done {w v result} : w.Matches R v → Next.Matches R (.done w result) (.done v result)

section

variable {R : List (ChainCall Unit) → σ → τ → Prop} {chain : Chain ε σ} {chain' : Chain δ τ}
  {plan : Plan} {w : World ε σ} {v : World δ τ}

/-! ## Steps -/

/-- Worlds that match are open at the same time, since the clock and the handle are the same. -/
theorem World.Matches.open_iff (same : w.Matches R v) : plan.Open w ↔ plan.Open v := by
  rw [Plan.Open, Plan.Open, same.now, same.handle]

theorem World.Matches.at_time (same : w.Matches R v) (time : Nat) :
    World.Matches R { w with now := time } { v with now := time } :=
  ⟨rfl, same.handle, same.calls, same.chain⟩

/-- A call keeps worlds matching when it is answered alike. The two chains may record it in their
own types of errors; without the errors the records are one. -/
theorem World.Matches.ask {record : Nat → Reply Unit α → ChainCall Unit}
    {query : Nat → σ → Reply ε α × σ} {query' : Nat → τ → Reply δ α × τ}
    (same : w.Matches R v) (noted : Nat → Reply ε α → ChainCall ε)
    (noted' : Nat → Reply δ α → ChainCall δ) (alike : Alike R record query query')
    (plain : ∀ time reply, (noted time reply).plain = record time reply.plain)
    (plain' : ∀ time reply, (noted' time reply).plain = record time reply.plain) :
    (w.ask query noted).1.plain = (v.ask query' noted').1.plain ∧
      World.Matches R (w.ask query noted).2 (v.ask query' noted').2 := by
  obtain ⟨replies, states⟩ := alike _ w.now _ _ same.chain
  have actions := congrArg Reply.action replies
  rw [same.now] at replies states actions
  have called : (noted w.now (query w.now w.chain).1).plain =
      record v.now (query v.now w.chain).1.plain := by
    rw [plain, same.now]
  constructor
  · change (query w.now w.chain).1.plain = (query' v.now v.chain).1.plain
    rw [same.now, replies]
  · constructor
    · exact same.now
    · change w.handle.act w.now (query w.now w.chain).1.action =
        v.handle.act v.now (query' v.now v.chain).1.action
      rw [same.now, same.handle]
      exact congrArg (v.handle.act v.now) actions
    · change (noted w.now (query w.now w.chain).1).plain :: w.calls.map ChainCall.plain =
        (noted' v.now (query' v.now v.chain).1).plain :: v.calls.map ChainCall.plain
      rw [called, plain', replies, same.calls]
    · change R ((noted w.now (query w.now w.chain).1).plain :: w.calls.map ChainCall.plain)
        (query w.now w.chain).2 (query' v.now v.chain).2
      rw [called, same.now]
      exact states

/-- A waiting is over at the same instant in worlds that match, or is interrupted in both. -/
theorem World.Matches.await (same : w.Matches R v) (delay : Option Nat)
    {next : World ε σ → Next ε σ} {next' : World δ τ → Next δ τ}
    (continued : ∀ {w v}, World.Matches R w v → Next.Matches R (next w) (next' v)) :
    Next.Matches R (w.await plan delay next) (v.await plan delay next') := by
  have settled : settle plan.deadline w.handle w.now delay =
      settle plan.deadline v.handle v.now delay := by
    rw [same.now, same.handle]
  rw [World.await, World.await, settled]
  split
  · exact continued (same.at_time _)
  · exact .done (same.at_time _)

theorem afterHead_matches {reply : Reply ε BlockNumber} {reply' : Reply δ BlockNumber}
    (replies : reply.plain = reply'.plain) (base : Option BlockNumber) (same : w.Matches R v) :
    Next.Matches R (plan.afterHead base reply w) (plan.afterHead base reply' v) := by
  rw [Plan.afterHead, Plan.afterHead]
  obtain ⟨e, e', failed, failed'⟩ | ⟨head, found, found'⟩ := Reply.plain_cases replies
  · rw [failed, failed']
    exact .more same
  · rw [found, found']
    exact .more same

theorem afterLogs_matches {reply : Reply ε (List Log)} {reply' : Reply δ (List Log)}
    (replies : reply.plain = reply'.plain) (base head : BlockNumber) (same : w.Matches R v) :
    Next.Matches R (afterLogs base head reply w) (afterLogs base head reply' v) := by
  rw [afterLogs, afterLogs]
  obtain ⟨e, e', failed, failed'⟩ | ⟨logs, found, found'⟩ := Reply.plain_cases replies
  · rw [failed, failed']
    exact .more same
  · rw [found, found']
    exact .more same

/-- What receipts that agree apart from errors lead to: the same phase, or the same outcome. -/
theorem afterReceipt_matches {reply : Reply ε (Option Receipt)}
    {reply' : Reply δ (Option Receipt)} (replies : reply.plain = reply'.plain)
    (base head : BlockNumber) (pending : List Hash) (same : w.Matches R v) :
    Next.Matches R (plan.afterReceipt base head pending reply w)
      (plan.afterReceipt base head pending reply' v) := by
  rw [Plan.afterReceipt, Plan.afterReceipt]
  obtain ⟨e, e', failed, failed'⟩ | ⟨receipt, found, found'⟩ := Reply.plain_cases replies
  · rw [failed, failed']
    exact .more same
  · rw [found, found']
    cases receipt with
    | none => exact .more same
    | some receipt =>
      simp only
      cases plan.classify receipt with
      | some status => exact .done same
      | none => exact .more same

/-- A step over chains that answer alike. The cases are those of the phases; the chains themselves
are only looked at by `World.Matches.ask`. -/
theorem step_matches (plan : Plan) (alike : Simulates R chain chain') (same : w.Matches R v)
    (phase : Phase) :
    Next.Matches R (step plan chain w phase) (step plan chain' v phase) := by
  by_cases isOpen : plan.Open w
  · have isOpen' := same.open_iff.mp isOpen
    cases phase with
    | head base =>
      obtain ⟨replies, after⟩ := same.ask .head .head alike.head
        (fun _ _ => rfl) (fun _ _ => rfl)
      rw [step_head chain isOpen, step_head chain' isOpen']
      rw [Reply.delay_of_plain replies]
      exact after.await _ (afterHead_matches replies base)
    | logs base head =>
      obtain ⟨replies, after⟩ := same.ask (.logs (plan.settings.window base head))
        (.logs (plan.settings.window base head))
        (alike.logs (plan.settings.window base head)) (fun _ _ => rfl) (fun _ _ => rfl)
      rw [step_logs chain isOpen, step_logs chain' isOpen']
      rw [Reply.delay_of_plain replies]
      exact after.await _ (afterLogs_matches replies base head)
    | receipts base head pending =>
      cases pending with
      | nil =>
        rw [step_scanned chain isOpen, step_scanned chain' isOpen']
        exact .more same
      | cons hash pending =>
        obtain ⟨replies, after⟩ := same.ask (.receipt hash) (.receipt hash)
          (alike.receipt hash) (fun _ _ => rfl) (fun _ _ => rfl)
        rw [step_receipt chain isOpen, step_receipt chain' isOpen']
        rw [Reply.delay_of_plain replies]
        exact after.await _ (afterReceipt_matches replies base head pending)
    | pause base =>
      rw [step_resumed chain isOpen, step_resumed chain' isOpen']
      exact same.await _ fun same => .more same
  · rw [step_of_not_open chain phase isOpen,
      step_of_not_open chain' phase (fun open' => isOpen (same.open_iff.mpr open')), same.now,
      same.handle]
    exact .done same

/-! ## Runs -/

/-- A run over chains that answer alike: the same result, and worlds that match. The relation `R` is
the invariant of the induction, and it may say whatever is needed of the two states. -/
theorem run_matches (alike : Simulates R chain chain') (phase : Phase) (same : w.Matches R v) :
    (run plan chain w phase).result = (run plan chain' v phase).result ∧
      World.Matches R (run plan chain w phase).world (run plan chain' v phase).world := by
  induction w, phase using run.induct plan chain generalizing v with
  | case1 w phase w' result taken =>
    have stepped := step_matches plan alike same phase
    rw [taken] at stepped
    cases taken' : step plan chain' v phase with
    | more v' phase' =>
      rw [taken'] at stepped
      cases stepped
    | done v' result' =>
      rw [taken'] at stepped
      rw [run, taken, run, taken']
      cases stepped with
      | done same' => exact ⟨rfl, same'⟩
  | case2 w phase w' phase' taken ih =>
    have stepped := step_matches plan alike same phase
    rw [taken] at stepped
    cases taken' : step plan chain' v phase with
    | done v' result' =>
      rw [taken'] at stepped
      cases stepped
    | more v' phase'' =>
      rw [taken'] at stepped
      rw [run, taken, run, taken']
      cases stepped with
      | more same' => exact ih same'

end

/-- A wait over chains that answer alike. -/
theorem wait_matches {R : List (ChainCall Unit) → σ → τ → Prop} {chain : Chain ε σ}
    {chain' : Chain δ τ} (alike : Simulates R chain chain') (waiter : Waiter) (id : Identifier)
    (timeout : Option Duration) (handle : Handle) (now : Nat) {state : σ} {state' : τ}
    (start : R [] state state') :
    (waiter.wait chain id timeout handle now state).result =
        (waiter.wait chain' id timeout handle now state').result ∧
      World.Matches R (waiter.wait chain id timeout handle now state).world
        (waiter.wait chain' id timeout handle now state').world :=
  run_matches alike (.head none) ⟨rfl, rfl, rfl, start⟩

end MetaTransaction.Confirmation
