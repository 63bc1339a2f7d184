import MetaTransaction.Proofs.Confirmation.Simulation

/-!
# What a wait looks at

A wait looks at the candidates among the logs that it is told, and at what receipts report. A view
changes what a chain tells; to a plan it is clear if it leaves all that the plan looks at. A wait
over a chain that is seen through a clear view is the wait over the chain itself, seen through the
view, so that chains which look alike through it are alike to the wait.

* `View.Clear`, `step_seen`, `run_seen` — steps and runs over a chain that is seen through a view;
* `Chain.Agree` — chains that answer alike up to relations on logs and on receipts;
* `wait_agrees` — waits over chains that look alike through a clear view.
-/

namespace MetaTransaction.Confirmation

variable {ε δ σ τ α β : Type}

/-! ## Views -/

/-- What is done to the answers of a chain before a wait sees them. Heads are left alone: a view
hides what is irrelevant in listed logs and in receipts. -/
structure View where
  /-- what is seen of listed logs -/
  logs : List Log → List Log := id
  /-- what is seen of a receipt -/
  receipt : Receipt → Receipt := id

/-- The reply with a changed answer. -/
def Reply.map (f : α → β) (reply : Reply ε α) : Reply ε β where
  answer := reply.answer.map f
  delay := reply.delay
  action := reply.action

namespace View

variable (view : View)

/-- The chain as it is seen. -/
def chain (chain : Chain ε σ) : Chain ε σ where
  head := chain.head
  logs filter now state :=
    ((chain.logs filter now state).1.map view.logs, (chain.logs filter now state).2)
  receipt hash now state :=
    ((chain.receipt hash now state).1.map (Option.map view.receipt),
      (chain.receipt hash now state).2)

/-- A call as it is seen. -/
def call : ChainCall ε → ChainCall ε
  | .head time reply => .head time reply
  | .logs filter time reply => .logs filter time (reply.map view.logs)
  | .receipt hash time reply => .receipt hash time (reply.map (Option.map view.receipt))

/-- A world as it is seen. -/
def world (w : World ε σ) : World ε σ :=
  { w with calls := w.calls.map view.call }

/-- An outcome as it is seen. -/
def outcome (outcome : Outcome) : Outcome :=
  { outcome with receipt := view.receipt outcome.receipt }

/-- What a step leads to, as it is seen. -/
def next : Next ε σ → Next ε σ
  | .more w phase => .more (view.world w) phase
  | .done w result => .done (view.world w) (result.map view.outcome)

/-- The end of a wait as it is seen. -/
def ending (e : Ending ε σ) : Ending ε σ where
  result := e.result.map view.outcome
  world := view.world e.world

/-- A view leaves all that a plan looks at: the candidates among listed logs, and what a receipt
reports. -/
structure Clear (view : View) (plan : Plan) : Prop where
  listed : ∀ logs, candidates (view.logs logs) = candidates logs
  reported : ∀ receipt, plan.classify (view.receipt receipt) = plan.classify receipt

end View

/-! ## Steps and runs that are seen through a view -/

section

variable {view : View} {plan : Plan}

theorem afterHead_seen (view : View) (plan : Plan) (base : Option BlockNumber)
    (reply : Reply ε BlockNumber) (w : World ε σ) :
    plan.afterHead base reply (view.world w) = view.next (plan.afterHead base reply w) := by
  rw [Plan.afterHead, Plan.afterHead]
  cases reply.answer <;> rfl

/-- What answered logs lead to depends on their candidates alone, and a clear view leaves these. -/
theorem View.Clear.afterLogs (clear : view.Clear plan) (base head : BlockNumber)
    (reply : Reply ε (List Log)) (w : World ε σ) :
    afterLogs base head (reply.map view.logs) (view.world w) =
      view.next (afterLogs base head reply w) := by
  rw [Confirmation.afterLogs, Confirmation.afterLogs, Reply.map]
  cases reply.answer with
  | error e => rfl
  | ok logs =>
    -- what is seen of the logs goes into the next phase as candidates only
    change Next.more _ (.receipts base head (candidates (view.logs logs))) = _
    rw [clear.listed]
    rfl

/-- What an answered lookup leads to depends on what the receipt reports. A receipt that decides
becomes the outcome as it is seen, which is why `View.next` also acts on results. -/
theorem View.Clear.afterReceipt (clear : view.Clear plan) (base head : BlockNumber)
    (pending : List Hash) (reply : Reply ε (Option Receipt)) (w : World ε σ) :
    plan.afterReceipt base head pending (reply.map (Option.map view.receipt)) (view.world w) =
      view.next (plan.afterReceipt base head pending reply w) := by
  rw [Plan.afterReceipt, Plan.afterReceipt, Reply.map]
  rcases reply.answer with e | _ | receipt
  · rfl
  · rfl
  · simp only [Except.map, Option.map_some, clear.reported]
    cases plan.classify receipt <;> rfl

/-- A waiting does not look at the answer that is waited for, so that a view cannot change its
end. -/
theorem World.await_seen (view : View) (plan : Plan) (w : World ε σ) (delay : Option Nat)
    {next next' : World ε σ → Next ε σ} (seen : ∀ v, next' (view.world v) = view.next (next v)) :
    (view.world w).await plan delay next' = view.next (w.await plan delay next) := by
  have clock : settle plan.deadline (view.world w).handle (view.world w).now delay =
      settle plan.deadline w.handle w.now delay := rfl
  obtain ⟨time, settled, taken⟩ | ⟨time, interrupt, settled, taken⟩ := await_cases plan w delay next
  · rw [taken, World.await, clock, settled]
    exact seen { w with now := time }
  · rw [taken, World.await, clock, settled]
    rfl

/-- A step over a chain that is seen through a clear view. The view can be put before the step or
after it: what the wait does is the same. -/
theorem step_seen (clear : view.Clear plan) (chain : Chain ε σ) (w : World ε σ) (phase : Phase) :
    step plan (view.chain chain) (view.world w) phase = view.next (step plan chain w phase) := by
  by_cases isOpen : plan.Open w
  · have isOpen' : plan.Open (view.world w) := isOpen
    cases phase with
    | head base =>
      rw [step_head chain isOpen, step_head _ isOpen']
      exact World.await_seen view plan (w.ask chain.head .head).2 _
        (afterHead_seen view plan base (w.ask chain.head .head).1)
    | logs base head =>
      rw [step_logs chain isOpen, step_logs _ isOpen']
      exact World.await_seen view plan (w.ask (chain.logs (plan.settings.window base head))
        (.logs (plan.settings.window base head))).2 _ (clear.afterLogs base head _)
    | receipts base head pending =>
      cases pending with
      | nil =>
        rw [step_scanned chain isOpen, step_scanned _ isOpen']
        rfl
      | cons hash pending =>
        rw [step_receipt chain isOpen, step_receipt _ isOpen']
        exact World.await_seen view plan (w.ask (chain.receipt hash) (.receipt hash)).2 _
          (clear.afterReceipt base head pending _)
    | pause base =>
      rw [step_resumed chain isOpen, step_resumed _ isOpen']
      exact World.await_seen view plan _ _ fun _ => rfl
  · have closed : ¬ plan.Open (view.world w) := isOpen
    rw [step_of_not_open chain phase isOpen, step_of_not_open _ phase closed]
    rfl

/-- A run over a chain that is seen through a clear view. Steps correspond one by one, so that the
induction is over the steps of either run. -/
theorem run_seen (clear : view.Clear plan) (chain : Chain ε σ) (w : World ε σ) (phase : Phase) :
    run plan (view.chain chain) (view.world w) phase = view.ending (run plan chain w phase) := by
  induction w, phase using run.induct plan chain with
  | case1 w phase v result taken =>
    have seen := step_seen clear chain w phase
    rw [taken] at seen
    rw [run, seen, run, taken]
    rfl
  | case2 w phase v phase' taken ih =>
    have seen := step_seen clear chain w phase
    rw [taken] at seen
    rw [run, seen, run, taken]
    exact ih

end

/-! ## Chains that look alike -/

/-- Replies that come at the same time and agree in their answers up to `S`, apart from errors. All
errors count as the same, because a wait treats them alike. -/
structure Reply.Agree (S : α → α → Prop) (reply : Reply ε α) (reply' : Reply δ α) : Prop where
  delay : reply.delay = reply'.delay
  action : reply.action = reply'.action
  answer : (∃ e e', reply.answer = .error e ∧ reply'.answer = .error e') ∨
    ∃ a a', reply.answer = .ok a ∧ reply'.answer = .ok a' ∧ S a a'

theorem Reply.Agree.plain {reply : Reply ε α} {reply' : Reply δ α} (agree : reply.Agree Eq reply') :
    reply.plain = reply'.plain := by
  have answers : plainAnswer reply.answer = plainAnswer reply'.answer := by
    obtain ⟨e, e', failed, failed'⟩ | ⟨a, a', found, found', rfl⟩ := agree.answer
    · rw [failed, failed']
      rfl
    · rw [found, found']
      rfl
  rw [Reply.plain, Reply.plain, answers, agree.delay, agree.action]

theorem Reply.Agree.map {S : α → α → Prop} {reply : Reply ε α} {reply' : Reply δ α} {f : α → β}
    (agree : reply.Agree S reply') (same : ∀ {a a'}, S a a' → f a = f a') :
    (reply.map f).Agree Eq (reply'.map f) where
  delay := agree.delay
  action := agree.action
  answer := by
    obtain ⟨e, e', failed, failed'⟩ | ⟨a, a', found, found', related⟩ := agree.answer
    · refine .inl ⟨e, e', ?_, ?_⟩
      · rw [Reply.map, failed]
        rfl
      · rw [Reply.map, failed']
        rfl
    · refine .inr ⟨f a, f a', ?_, ?_, same related⟩
      · rw [Reply.map, found]
        rfl
      · rw [Reply.map, found']
        rfl

/-- Chains that answer every call at the same time, with listed logs that agree up to `L` and
receipts that agree up to `Q`, as long as they are in states that belong together. -/
structure Chain.Agree (L : List Log → List Log → Prop) (Q : Receipt → Receipt → Prop)
    (R : σ → τ → Prop) (chain : Chain ε σ) (chain' : Chain δ τ) : Prop where
  head : ∀ now s t, R s t →
    (chain.head now s).1.Agree Eq (chain'.head now t).1 ∧
      R (chain.head now s).2 (chain'.head now t).2
  logs : ∀ filter now s t, R s t →
    (chain.logs filter now s).1.Agree L (chain'.logs filter now t).1 ∧
      R (chain.logs filter now s).2 (chain'.logs filter now t).2
  receipt : ∀ hash now s t, R s t →
    (chain.receipt hash now s).1.Agree (Option.Rel Q) (chain'.receipt hash now t).1 ∧
      R (chain.receipt hash now s).2 (chain'.receipt hash now t).2

/-- The replies to a scripted call agree where the answers would. -/
theorem Script.Fault.agree {S : α → α → Prop} (fault : Fault) {a a' : α} (related : S a a') :
    (Script.Fault.reply fault a).Agree S (Script.Fault.reply fault a') where
  delay := rfl
  action := rfl
  answer := by
    rw [Script.Fault.reply, Script.Fault.reply]
    cases fault.failure with
    | none => exact .inr ⟨a, a', rfl, rfl, related⟩
    | some failure => exact .inl ⟨failure, failure, rfl, rfl⟩

/-- Scripts with the same heads and faults agree if what they show does. Their states are equal
then, since a state counts calls and heads, and neither logs nor receipts enter it. -/
theorem Script.agree {L : List Log → List Log → Prop} {Q : Receipt → Receipt → Prop}
    {s s' : Script} (heads : s.heads = s'.heads) (faults : s.faults = s'.faults)
    (logs : ∀ filter state, L (s.matchingLogs filter state) (s'.matchingLogs filter state))
    (receipts : ∀ hash state, Option.Rel Q (s.receipt hash state) (s'.receipt hash state)) :
    s.chain.Agree L Q Eq s'.chain := by
  have fault : s.fault = s'.fault := by
    funext state
    rw [Script.fault, Script.fault, faults]
  have head : s.head = s'.head := by
    funext state
    rw [Script.head, Script.head, heads]
  constructor
  case head =>
    rintro now state _ rfl
    simp only [Script.chain, fault, head, and_true]
    exact Script.Fault.agree _ rfl
  case logs =>
    rintro filter now state _ rfl
    simp only [Script.chain, fault, and_true]
    exact Script.Fault.agree _ (logs filter state)
  case receipt =>
    rintro hash now state _ rfl
    simp only [Script.chain, fault, and_true]
    exact Script.Fault.agree _ (receipts hash state)

/-- Receipts that look the same. -/
def View.SameReceipt (view : View) (r r' : Receipt) : Prop :=
  view.receipt r = view.receipt r'

section

variable {L : List Log → List Log → Prop} {R : σ → τ → Prop} {chain : Chain ε σ}
  {chain' : Chain δ τ} {view : View}

/-- Chains that agree up to what a view does not show answer alike when they are seen through it.
This turns a relation between answers into an equation, for which `run_matches` was proved. -/
theorem Chain.Agree.simulates (agree : chain.Agree L view.SameReceipt R chain')
    (listed : ∀ {l l'}, L l l' → view.logs l = view.logs l') :
    Simulates (fun _ => R) (view.chain chain) (view.chain chain') where
  head _ now s t related := by
    obtain ⟨replies, after⟩ := agree.head now s t related
    exact ⟨replies.plain, after⟩
  logs filter _ now s t related := by
    obtain ⟨replies, after⟩ := agree.logs filter now s t related
    exact ⟨(replies.map listed).plain, after⟩
  receipt hash _ now s t related := by
    obtain ⟨replies, after⟩ := agree.receipt hash now s t related
    refine ⟨(replies.map ?_).plain, after⟩
    rintro _ _ (_ | same)
    · exact congrArg some ‹_›
    · rfl

/-! ## Waits over chains that look alike -/

/-- What is asked for in a call, and when. -/
inductive Question
  | head (time : Nat)
  | logs (filter : LogFilter) (time : Nat)
  | receipt (hash : Hash) (time : Nat)
deriving DecidableEq

/-- The question of a call. -/
def ChainCall.question : ChainCall ε → Question
  | .head time _ => .head time
  | .logs filter time _ => .logs filter time
  | .receipt hash time _ => .receipt hash time

theorem ChainCall.question_plain (call : ChainCall ε) : call.plain.question = call.question := by
  cases call <;> rfl

theorem View.question_call (view : View) (call : ChainCall ε) :
    (view.call call).question = call.question := by
  cases call <;> rfl

/-- Results that are the same error, or the same status with receipts that agree up to `Q`. -/
inductive SameResult (Q : Receipt → Receipt → Prop) :
    Except Error Outcome → Except Error Outcome → Prop
  | error (e) : SameResult Q (.error e) (.error e)
  | ok {r r'} (status) : Q r r' → SameResult Q (.ok ⟨status, r⟩) (.ok ⟨status, r'⟩)

/-- A result that is the same as an outcome. -/
theorem SameResult.of_ok {Q : Receipt → Receipt → Prop} {outcome : Outcome}
    {result : Except Error Outcome} (same : SameResult Q (.ok outcome) result) :
    ∃ r, Q outcome.receipt r ∧ result = .ok ⟨outcome.status, r⟩ := by
  cases same with
  | @ok _ r status related => exact ⟨r, related, rfl⟩

theorem SameResult.eq {result result' : Except Error Outcome}
    (same : SameResult Eq result result') : result = result' := by
  cases same with
  | error e => rfl
  | ok status receipts => rw [receipts]

/-- Waits that ask the same at the same instants, and end at the same instant with results that are
the same up to `Q`. -/
structure Ending.Agree (Q : Receipt → Receipt → Prop) (e : Ending ε σ) (e' : Ending δ τ) :
    Prop where
  questions : e.world.calls.map ChainCall.question = e'.world.calls.map ChainCall.question
  now : e.world.now = e'.world.now
  result : SameResult Q e.result e'.result

/-- Results that look the same are the same error, or one status with receipts that look the
same. -/
theorem View.sameResult {result result' : Except Error Outcome}
    (same : result.map view.outcome = result'.map view.outcome) :
    SameResult view.SameReceipt result result' := by
  cases result with
  | error e =>
    cases result' with
    | error e' =>
      cases same
      exact .error e
    | ok outcome' => cases same
  | ok outcome =>
    cases result' with
    | error e' => cases same
    | ok outcome' =>
      obtain ⟨status, receipt⟩ := outcome
      obtain ⟨status', receipt'⟩ := outcome'
      obtain ⟨rfl, receipts⟩ := Outcome.mk.inj (Except.ok.inj same)
      exact .ok status receipts

/-- Waits over chains that look alike through a clear view ask the same, and end in results that
look alike. Each side is a run that is seen through the view (`run_seen`), and the runs over the two
chains as they are seen match (`wait_matches`). A statement on what is irrelevant to a wait only has
to choose its view. -/
theorem wait_agrees (agree : chain.Agree L view.SameReceipt R chain')
    (listed : ∀ {l l'}, L l l' → view.logs l = view.logs l') (waiter : Waiter) (id : Identifier)
    (timeout : Option Duration) (handle : Handle) (now : Nat) {state : σ} {state' : τ}
    (clear : view.Clear (waiter.plan id timeout now)) (start : R state state') :
    Ending.Agree view.SameReceipt (waiter.wait chain id timeout handle now state)
      (waiter.wait chain' id timeout handle now state') := by
  obtain ⟨result, same⟩ :=
    wait_matches (agree.simulates listed) waiter id timeout handle now start
  -- the waits over the chains as they are seen match, and each is the wait itself, seen
  have seen : waiter.wait (view.chain chain) id timeout handle now state =
      view.ending (waiter.wait chain id timeout handle now state) :=
    run_seen clear chain { now, handle, chain := state } (.head none)
  have seen' : waiter.wait (view.chain chain') id timeout handle now state' =
      view.ending (waiter.wait chain' id timeout handle now state') :=
    run_seen clear chain' { now, handle, chain := state' } (.head none)
  rw [seen, seen'] at result same
  refine ⟨?_, same.now, view.sameResult result⟩
  have calls := congrArg (List.map ChainCall.question) same.calls
  simpa only [View.ending, View.world, List.map_map, Function.comp_def, ChainCall.question_plain,
    View.question_call] using calls

end

end MetaTransaction.Confirmation
