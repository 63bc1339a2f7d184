import MetaTransaction.Proofs.Confirmation.Classification
import MetaTransaction.Proofs.Confirmation.Trace

/-!
# When a wait resolves

A wait resolves just when the chain proves an outcome: it ends with the first receipt answered to it
that reports its identifier, and with what this receipt reports first. It ends with an error only
when no receipt did. Nothing is assumed of the chain.

The answered calls are not taken on trust from the program: the instant at which a wait ended and the
replies to its calls determine them, as all calls but the last one if the end cut off its reply.

* `Trace.silent` — no receipt answered on the way to a phase reports the identifier;
* `Plan.Explains` — what a result says about the calls of the wait;
* `wait_resolves_iff_reported` — the statement for every wait.
-/

namespace MetaTransaction.Confirmation

variable {ε σ : Type}

/-- A receipt was answered in one of the calls. -/
def Received (calls : List (ChainCall ε)) (receipt : Receipt) : Prop :=
  ∃ hash time reply, .receipt hash time reply ∈ calls ∧ reply.answer = .ok (some receipt)

theorem Received.cons {calls : List (ChainCall ε)} {call : ChainCall ε} {receipt : Receipt}
    (h : Received (call :: calls) receipt) :
    Received calls receipt ∨
      ∃ hash time reply, call = .receipt hash time reply ∧ reply.answer = .ok (some receipt) := by
  obtain ⟨hash, time, reply, mem, answer⟩ := h
  rcases List.mem_cons.mp mem with rfl | mem
  · exact .inr ⟨hash, time, reply, rfl, answer⟩
  · exact .inl ⟨hash, time, reply, mem, answer⟩

/-- A receipt says nothing of the identifier that a plan waits for. -/
abbrev Plan.Ignores (plan : Plan) (receipt : Receipt) : Prop :=
  Silent plan.id plan.settings.failedTopic plan.settings.wallet receipt

/-- A log is the first of a receipt that reports the identifier that a plan waits for. -/
abbrev Plan.Notes (plan : Plan) (receipt : Receipt) (log : Log) : Prop :=
  FirstReport plan.id plan.settings.failedTopic plan.settings.wallet receipt log

theorem Plan.classify_eq_none_iff {plan : Plan} {receipt : Receipt} :
    plan.classify receipt = none ↔ plan.Ignores receipt :=
  classifyReceipt_eq_none_iff

/-- The receipts on the way to a phase say nothing of the identifier: a wait does not go on after a
receipt that does. The induction is over the trace, whose only case with a receipt is the one that
passed. -/
theorem Trace.silent {plan : Plan} {calls : List (ChainCall ε)} {phase : Phase}
    (trace : Trace plan calls phase) : ∀ receipt, Received calls receipt → plan.Ignores receipt := by
  induction trace with
  | start =>
    rintro receipt ⟨hash, time, reply, mem, -⟩
    cases mem
  | scanned _ ih => exact ih
  | resumed _ ih => exact ih
  | answered _ follows ih =>
    intro receipt received
    rcases received.cons with earlier | ⟨hash, time, reply, rfl, answer⟩
    · exact ih receipt earlier
    · -- the latest answer is a receipt, and the wait went on
      cases follows with
      | receiptFailed failed =>
        rw [failed] at answer
        cases answer
      | receiptPassed passes =>
        rw [answer, Plan.passes, Option.isNone_iff_eq_none] at passes
        exact Plan.classify_eq_none_iff.mp passes

/-- What classifies is the first report, and its shape tells the status. No log has both shapes, so
that the status is determined by the log in either direction. -/
theorem Plan.classify_eq_some {plan : Plan} {receipt : Receipt} {status : Status}
    (h : plan.classify receipt = some status) :
    (status = .executed ∨ status = .failed) ∧
      ∃ log, plan.Notes receipt log ∧
        (ReportsExecution plan.id log ↔ status = .executed) ∧
        (ReportsFailure plan.id plan.settings.failedTopic log ↔ status = .failed) := by
  obtain ⟨log, first, rfl⟩ := classifyReceipt_eq_some_iff.mp h
  have reports : classifyLog plan.id plan.settings.failedTopic log ≠ .unknown := by
    obtain ⟨-, -, -, -, reports, -⟩ := first
    rw [ne_eq, classifyLog_eq_unknown_iff, Classical.not_not]
    exact reports
  refine ⟨?_, log, first, classifyLog_eq_executed_iff.symm, classifyLog_eq_failed_iff.symm⟩
  cases status : classifyLog plan.id plan.settings.failedTopic log with
  | unknown => exact absurd status reports
  | executed => exact .inl rfl
  | failed => exact .inr rfl

/-- A receipt with a log that is noted does not say nothing. With this the two cases of a result
exclude each other. -/
theorem Plan.Notes.not_ignores {plan : Plan} {receipt : Receipt} {log : Log}
    (notes : plan.Notes receipt log) : ¬ plan.Ignores receipt := by
  obtain ⟨before, after, split, counts, reports, -⟩ := notes
  intro ignores
  refine ignores log ?_ counts reports
  rw [split]
  exact List.mem_append_right _ (List.mem_cons_self ..)

/-- What the result of a wait says about its calls: the answered ones, latest first, and all that had
arrived in the world in which the wait ended. That world tells which calls were answered. Where the
wait resolved, all were; where it was interrupted, all but the last if its reply was cut off by
then. -/
def Plan.Explains (plan : Plan) (answered : List (ChainCall ε)) (world : World ε σ) :
    Except Error Outcome → Prop
  | .ok outcome =>
    (outcome.status = .executed ∨ outcome.status = .failed) ∧
    (∃ log, plan.Notes outcome.receipt log ∧
      (ReportsExecution plan.id log ↔ outcome.status = .executed) ∧
      (ReportsFailure plan.id plan.settings.failedTopic log ↔ outcome.status = .failed)) ∧
    ∃ hash time reply earlier, world.calls = .receipt hash time reply :: earlier ∧
      reply.answer = .ok (some outcome.receipt) ∧
      answered = world.calls ∧
      ∀ receipt, Received earlier receipt → plan.Ignores receipt
  | .error e =>
    (e = .deadlineExceeded plan.id plan.timeout ∨ e = .cancelled plan.id) ∧
    answered = answeredBy world.now world.calls ∧
    (∃ unanswered, world.calls = unanswered ++ answered ∧ unanswered.length ≤ 1 ∧
      ∀ call ∈ unanswered, call.IsCutOff world.now) ∧
    ∀ receipt, Received answered receipt → plan.Ignores receipt

/-- The end of a trace explains its result. A receipt that decides comes after a trace without one,
and an interruption leaves a trace of the calls that were answered by then. -/
theorem Ended.explains {plan : Plan} {calls : List (ChainCall ε)} {ending : Ending ε σ}
    (ended : Ended plan calls ending) : plan.Explains calls ending.world ending.result := by
  cases ended with
  | resolved trace answer reported arrived =>
    obtain ⟨decided, noted⟩ := Plan.classify_eq_some reported
    exact ⟨decided, noted, _, _, _, _, arrived, answer, arrived.symm, trace.silent⟩
  | @interrupted calls phase interrupt world trace same =>
    refine ⟨?_, same, ?_, trace.silent⟩
    · cases interrupt with
      | deadline => exact .inl rfl
      | cancelled => exact .inr rfl
    · rw [same]
      exact exists_unanswered world.now world.calls

/-- A wait resolves just when a receipt answered to it reports its identifier. Then this receipt is
the last answer, and the status is what its first report says; otherwise the wait was interrupted.
Answered are the calls whose replies had come by the end, and the end alone tells which they are. -/
theorem wait_resolves_iff_reported (waiter : Waiter) (chain : Chain ε σ) (id : Identifier)
    (timeout : Option Duration) (handle : Handle) (now : Nat) (state : σ) :
    (waiter.plan id timeout now).Explains
        (waiter.answered chain id timeout handle now state)
        (waiter.wait chain id timeout handle now state).world
        (waiter.wait chain id timeout handle now state).result ∧
      (∀ call ∈ waiter.answered chain id timeout handle now state,
        call.HasCome (waiter.wait chain id timeout handle now state).world.now) ∧
      ((∃ outcome, (waiter.wait chain id timeout handle now state).result = .ok outcome) ↔
        ∃ receipt, Received (waiter.answered chain id timeout handle now state) receipt ∧
          ¬ (waiter.plan id timeout now).Ignores receipt) := by
  have explains := (wait_ended waiter chain id timeout handle now state).explains
  refine ⟨explains, wait_come waiter chain id timeout handle now state, ?_⟩
  cases result : (waiter.wait chain id timeout handle now state).result with
  | ok outcome =>
    rw [result] at explains
    obtain ⟨-, ⟨log, noted, -⟩, hash, time, reply, earlier, arrived, answer, same, -⟩ := explains
    refine iff_of_true ⟨outcome, rfl⟩ ⟨outcome.receipt, ⟨hash, time, reply, ?_, answer⟩, ?_⟩
    · rw [same, arrived]
      exact List.mem_cons_self ..
    · exact noted.not_ignores
  | error e =>
    -- an interrupted wait has processed no receipt that reports
    rw [result] at explains
    obtain ⟨-, -, -, silent⟩ := explains
    refine iff_of_false ?_ ?_
    · rintro ⟨outcome, resolved⟩
      cases resolved
    · rintro ⟨receipt, received, noted⟩
      exact noted (silent receipt received)

end MetaTransaction.Confirmation
