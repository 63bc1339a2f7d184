import MetaTransaction.Proofs.Confirmation.Resolution
import MetaTransaction.Proofs.Confirmation.Timeout

/-!
# Waits for other identifiers

What a wait asks for does not depend on its identifier: nothing but the classification of receipts
looks at it, and that only decides whether the wait stops. Two waits that start alike make the same
steps until a receipt decides one of them. No log reports two identifiers, so that no receipt is
taken for a report of an identifier that it does not carry.

* `Reports.identifier_eq` — a log reports at most one identifier;
* `step_about` — a step, and the same step for another identifier;
* `run_about` — the runs, by induction;
* `queries_independent_of_identifier` — the statement for every two waits.
-/

namespace MetaTransaction.Confirmation

variable {ε σ : Type}

/-! ## Logs -/

/-- A log that reports an identifier has data that start with it, whichever shape it has. -/
theorem Reports.carries {id : Identifier} {topic : Hash} {log : Log}
    (reports : Reports id topic log) : id.hash.bytes <+: log.data := by
  rcases reports with ⟨-, same⟩ | ⟨-, carried⟩
  · rw [same]
  · exact carried

/-- A log reports at most one identifier, whatever the topic of failures is. Its data start with
both, and identifiers are of one length. -/
theorem Reports.identifier_eq {a b : Identifier} {topic topic' : Hash} {log : Log}
    (first : Reports a topic log) (second : Reports b topic' log) : a = b := by
  obtain ⟨⟨bytes, length⟩⟩ := a
  obtain ⟨⟨bytes', length'⟩⟩ := b
  have same : bytes.length = bytes'.length := length.trans length'.symm
  have carried : bytes <+: bytes' :=
    List.prefix_of_prefix_length_le first.carries second.carries (Nat.le_of_eq same)
  obtain rfl := carried.eq_of_length same
  rfl

/-! ## Steps for another identifier -/

/-- The plan for another identifier. -/
def Plan.about (plan : Plan) (id : Identifier) : Plan :=
  { plan with id }

/-- What a step leads to under two plans: the same, an interruption by the same, or in one of them
an outcome in the world that the other one gets to. A wait for another identifier may stop earlier
or later, but it never does something else. -/
inductive Next.Twin (plan plan' : Plan) : Next ε σ → Next ε σ → Prop
  | onward (w phase) : Twin plan plan' (.more w phase) (.more w phase)
  | interrupted (w interrupt) :
      Twin plan plan' (.done w (.error (plan.error interrupt)))
        (.done w (.error (plan'.error interrupt)))
  | first (outcome next') : Twin plan plan' (.done (next' : Next ε σ).world (.ok outcome)) next'
  | second (next outcome) : Twin plan plan' next (.done (next : Next ε σ).world (.ok outcome))

section

variable {plan : Plan} {chain : Chain ε σ} {w : World ε σ} {phase : Phase} {id : Identifier}

theorem afterHead_about (base : Option BlockNumber) (reply : Reply ε BlockNumber) (w : World ε σ) :
    Next.Twin plan (plan.about id) (plan.afterHead base reply w)
      ((plan.about id).afterHead base reply w) := by
  rw [Plan.afterHead, Plan.afterHead]
  cases reply.answer with
  | error e => exact .onward ..
  | ok head => exact .onward ..

theorem afterLogs_about (base head : BlockNumber) (reply : Reply ε (List Log)) (w : World ε σ) :
    Next.Twin plan (plan.about id) (afterLogs base head reply w) (afterLogs base head reply w) := by
  rw [afterLogs]
  cases reply.answer with
  | error e => exact .onward ..
  | ok logs => exact .onward ..

/-- The receipt of a candidate is all that may make a difference. It may decide for one identifier
and be passed for the other, and both worlds are then the same. -/
theorem afterReceipt_about (base head : BlockNumber) (pending : List Hash)
    (reply : Reply ε (Option Receipt)) (w : World ε σ) :
    Next.Twin plan (plan.about id) (plan.afterReceipt base head pending reply w)
      ((plan.about id).afterReceipt base head pending reply w) := by
  rw [Plan.afterReceipt, Plan.afterReceipt]
  rcases reply.answer with e | _ | receipt
  · exact .onward ..
  · exact .onward ..
  · simp only
    cases plan.classify receipt with
    | some status =>
      cases (plan.about id).classify receipt with
      | some status' => exact .first _ (.done w _)
      | none => exact .first _ (.more w _)
    | none =>
      cases (plan.about id).classify receipt with
      | some status' => exact .second (.more w _) _
      | none => exact .onward ..

/-- A waiting ends at the same instant for either identifier, because their plans have one
deadline. -/
theorem World.await_about (w : World ε σ) (delay : Option ℕ) {next next' : World ε σ → Next ε σ}
    (twin : ∀ v, Next.Twin plan (plan.about id) (next v) (next' v)) :
    Next.Twin plan (plan.about id) (w.await plan delay next)
      (w.await (plan.about id) delay next') := by
  obtain ⟨time, settled, taken⟩ | ⟨time, interrupt, settled, taken⟩ := await_cases plan w delay next
  · have settled' : settle (plan.about id).deadline w.handle w.now delay = (time, none) := settled
    rw [taken, World.await, settled']
    exact twin _
  · have settled' : settle (plan.about id).deadline w.handle w.now delay = (time, some interrupt) :=
      settled
    rw [taken, World.await, settled']
    exact .interrupted ..

/-- A step, and the same step for another identifier: they are twins. -/
theorem step_about (plan : Plan) (chain : Chain ε σ) (w : World ε σ) (phase : Phase)
    (id : Identifier) :
    Next.Twin plan (plan.about id) (step plan chain w phase)
      (step (plan.about id) chain w phase) := by
  by_cases isOpen : plan.Open w
  · have isOpen' : (plan.about id).Open w := isOpen
    cases phase with
    | head base =>
      rw [step_head chain isOpen, step_head chain isOpen']
      exact World.await_about _ _ (afterHead_about base _)
    | logs base head =>
      rw [step_logs chain isOpen, step_logs chain isOpen']
      exact World.await_about _ _ (afterLogs_about base head _)
    | receipts base head pending =>
      cases pending with
      | nil =>
        rw [step_scanned chain isOpen, step_scanned chain isOpen']
        exact .onward ..
      | cons hash pending =>
        rw [step_receipt chain isOpen, step_receipt chain isOpen']
        exact World.await_about _ _ (afterReceipt_about base head pending _)
    | pause base =>
      rw [step_resumed chain isOpen, step_resumed chain isOpen']
      exact World.await_about _ _ fun _ => .onward ..
  · have closed : ¬ (plan.about id).Open w := isOpen
    rw [step_of_not_open chain phase isOpen, step_of_not_open chain phase closed]
    exact .interrupted ..

/-! ## Runs for another identifier -/

/-- Endings of two runs that made the same steps until one of them, or both, ended. The run that
resolved first is over, and the other one goes on from the world in which it ended. -/
inductive Ending.Twin (plan plan' : Plan) : Ending ε σ → Ending ε σ → Prop
  | interrupted (world interrupt) :
      Twin plan plan' ⟨.error (plan.error interrupt), world⟩ ⟨.error (plan'.error interrupt), world⟩
  | first {world e'} (outcome) :
      World.Precedes world e'.world → Twin plan plan' ⟨.ok outcome, world⟩ e'
  | second {world e} (outcome) :
      World.Precedes world e.world → Twin plan plan' e ⟨.ok outcome, world⟩

/-- The world after the first step of a run precedes the one at its end. -/
theorem precedes_of_step {next : Next ε σ} (taken : step plan chain w phase = next) :
    next.world.Precedes (run plan chain w phase).world := by
  cases next with
  | more v phase' =>
    rw [run_of_more taken]
    exact run_precedes plan chain v phase'
  | done v result =>
    rw [run_of_done taken]
    exact .refl v

/-- A run, and the same run for another identifier. As long as steps lead to the same phase the
induction goes on; at the first difference one of the runs has resolved, and the other one is
preceded by its end. -/
theorem run_about (plan : Plan) (chain : Chain ε σ) (w : World ε σ) (phase : Phase)
    (id : Identifier) :
    Ending.Twin plan (plan.about id) (run plan chain w phase)
      (run (plan.about id) chain w phase) := by
  induction w, phase using run.induct plan chain with
  | case1 w phase v result taken =>
    have twin := step_about plan chain w phase id
    rw [taken] at twin
    generalize taken' : step (plan.about id) chain w phase = next' at twin
    rw [run_of_done taken]
    cases twin with
    | interrupted v interrupt =>
      rw [run_of_done taken']
      exact .interrupted ..
    | first outcome next' => exact .first _ (precedes_of_step taken')
    | second next outcome =>
      rw [run_of_done taken']
      exact .second _ (.refl v)
  | case2 w phase v phase' taken ih =>
    have twin := step_about plan chain w phase id
    rw [taken] at twin
    generalize taken' : step (plan.about id) chain w phase = next' at twin
    cases twin with
    | onward v phase' =>
      rw [run_of_more taken, run_of_more taken']
      exact ih
    | second next outcome =>
      rw [run_of_done taken']
      exact .second _ (precedes_of_step taken)

end

/-! ## Waits for two identifiers -/

/-- Waits for the identifiers `a` and `b` that start alike under the settings, with the same
timeout. -/
structure Independent (s : Settings) (timeout : Duration) (a b : Identifier) (e e' : Ending ε σ) :
    Prop where
  /-- one of them made the first calls of the other; calls come latest first -/
  calls : e.world.calls <:+ e'.world.calls ∨ e'.world.calls <:+ e.world.calls
  /-- where neither resolves, they ask the same and are interrupted by the same at one instant -/
  unresolved : (∀ outcome, e.result ≠ .ok outcome) → (∀ outcome, e'.result ≠ .ok outcome) →
    e.world = e'.world ∧
      (e.result = .error (.deadlineExceeded a timeout) ∧
          e'.result = .error (.deadlineExceeded b timeout) ∨
        e.result = .error (.cancelled a) ∧ e'.result = .error (.cancelled b))
  /-- no log reports both -/
  exclusive : a ≠ b → ∀ log,
    classifyLog a s.failedTopic log = .unknown ∨ classifyLog b s.failedTopic log = .unknown
  /-- an outcome for `a` is what a log of its receipt reports that carries `a` -/
  carried : ∀ outcome, e.result = .ok outcome →
    ∃ log ∈ outcome.receipt.logs, isFrom s.wallet log = true ∧ a.hash.bytes <+: log.data ∧
      classifyLog a s.failedTopic log = outcome.status ∧ outcome.status ≠ .unknown

/-- No log reports two identifiers, so that waits for different ones do not take each other's
outcomes. -/
theorem classifyLog_exclusive {a b : Identifier} (different : a ≠ b) (topic : Hash) (log : Log) :
    classifyLog a topic log = .unknown ∨ classifyLog b topic log = .unknown := by
  rw [classifyLog_eq_unknown_iff, classifyLog_eq_unknown_iff, ← not_and_or]
  rintro ⟨reports, reports'⟩
  exact different (reports.identifier_eq reports')

/-- A receipt is only classified by one of its logs, and that log carries the identifier. -/
theorem Plan.exists_log_of_classify {plan : Plan} {receipt : Receipt} {status : Status}
    (decides : plan.classify receipt = some status) :
    ∃ log ∈ receipt.logs, isFrom plan.settings.wallet log = true ∧
      plan.id.hash.bytes <+: log.data ∧ classifyLog plan.id plan.settings.failedTopic log = status ∧
      status ≠ .unknown := by
  obtain ⟨log, ⟨before, after, split, counts, reports, -⟩, rfl⟩ :=
    classifyReceipt_eq_some_iff.mp decides
  refine ⟨log, ?_, counts, reports.carries, rfl, ?_⟩
  · rw [split]
    exact List.mem_append_right _ (List.mem_cons_self ..)
  · rw [ne_eq, classifyLog_eq_unknown_iff, Classical.not_not]
    exact reports

/-- An outcome is what a log of its receipt reports, and this log carries the identifier of the
wait. -/
theorem Ended.exists_log {plan : Plan} {calls : List (ChainCall ε)} {e : Ending ε σ}
    {outcome : Outcome} (ended : Ended plan calls e) (resolved : e.result = .ok outcome) :
    ∃ log ∈ outcome.receipt.logs, isFrom plan.settings.wallet log = true ∧
      plan.id.hash.bytes <+: log.data ∧
      classifyLog plan.id plan.settings.failedTopic log = outcome.status ∧
      outcome.status ≠ .unknown := by
  cases ended with
  | resolved trace answer decides =>
    obtain rfl := Except.ok.inj resolved
    exact Plan.exists_log_of_classify decides
  | interrupted => cases resolved

section

variable {plan plan' : Plan} {e e' : Ending ε σ}

theorem Ending.Twin.calls (twin : Ending.Twin plan plan' e e') :
    e.world.calls <:+ e'.world.calls ∨ e'.world.calls <:+ e.world.calls := by
  cases twin with
  | interrupted => exact .inl (List.suffix_refl _)
  | first outcome precedes => exact .inl precedes.suffix
  | second outcome precedes => exact .inr precedes.suffix

theorem Ending.Twin.unresolved (twin : Ending.Twin plan plan' e e')
    (unresolved : ∀ outcome, e.result ≠ .ok outcome)
    (unresolved' : ∀ outcome, e'.result ≠ .ok outcome) :
    e.world = e'.world ∧ ∃ interrupt,
      e.result = .error (plan.error interrupt) ∧ e'.result = .error (plan'.error interrupt) := by
  cases twin with
  | interrupted world interrupt => exact ⟨rfl, interrupt, rfl, rfl⟩
  | first outcome => exact absurd rfl (unresolved outcome)
  | second outcome => exact absurd rfl (unresolved' outcome)

end

/-- Which calls a wait makes depends on its identifier in nothing but where they stop. Two waits
that start alike go on alike until one of them resolves, and what a wait resolves with is told by a
log that carries its own identifier. -/
theorem queries_independent_of_identifier (waiter : Waiter) (chain : Chain ε σ) (a b : Identifier)
    (timeout : Option Duration) (handle : Handle) (now : ℕ) (state : σ) :
    Independent waiter.settings (timeout.getD waiter.settings.defaultTimeout) a b
      (waiter.wait chain a timeout handle now state)
      (waiter.wait chain b timeout handle now state) := by
  have twin : Ending.Twin (waiter.plan a timeout now) (waiter.plan b timeout now)
      (waiter.wait chain a timeout handle now state)
      (waiter.wait chain b timeout handle now state) :=
    run_about (waiter.plan a timeout now) chain _ _ b
  have ended := wait_ended waiter chain a timeout handle now state
  refine ⟨twin.calls, ?_, fun different => classifyLog_exclusive different _,
    fun _ => ended.exists_log⟩
  intro unresolved unresolved'
  obtain ⟨same, interrupt, result, result'⟩ := twin.unresolved unresolved unresolved'
  refine ⟨same, ?_⟩
  cases interrupt with
  | deadline => exact .inl ⟨result, result'⟩
  | cancelled => exact .inr ⟨result, result'⟩

end MetaTransaction.Confirmation
