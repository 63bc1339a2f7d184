import MetaTransaction.Confirmation.Script

/-!
# Traces of waits

What a wait knows is the list of its answered calls, latest first. `Trace plan calls phase` says that
these calls lead to the phase; it mentions neither time nor the chain, so that what only depends on
the answers is proved by induction over it.

* `step_move` lists all that a step can do, with the instants at which it may do it;
* `Trace.move` — a step that goes on extends the trace of the calls before it;
* `Settled` — the replies to the calls of a world that goes on have come, each before anything could
  interrupt the wait, and each step keeps this;
* `wait_ended` — a wait ends at a trace: either the next candidate's receipt decides it, or it is
  interrupted, and the calls that were answered are those whose reply was not cut off by the end
  (`answeredBy`).
-/

namespace MetaTransaction.Confirmation

variable {ε σ : Type}

/-! ## Answers and the phases they lead to -/

/-- What a receipt reports about the identifier that a plan waits for. -/
def Plan.classify (plan : Plan) (receipt : Receipt) : Option Status :=
  classifyReceipt plan.id plan.settings.failedTopic plan.settings.wallet receipt

/-- Whether a wait goes on to the next candidate after the answer to a lookup. It does where there
is no receipt yet or the receipt reports nothing; an error ends the round instead. -/
def Plan.passes (plan : Plan) : Except ε (Option Receipt) → Bool
  | .error _ => false
  | .ok none => true
  | .ok (some receipt) => (plan.classify receipt).isNone

/-- The call that a phase makes. What a call asks is determined by the phase and the plan; only the
instant and the reply come from elsewhere. -/
inductive Asks (plan : Plan) : Phase → ChainCall ε → Prop
  | head {base time reply} : Asks plan (.head base) (.head time reply)
  | logs {base head time reply} :
      Asks plan (.logs base head) (.logs (plan.settings.window base head) time reply)
  | receipt {base head hash pending time reply} :
      Asks plan (.receipts base head (hash :: pending)) (.receipt hash time reply)

/-- The phase that an answered call leads to. There is no constructor for a receipt that decides,
since no phase comes after it; `Ended.resolved` is the place of that answer. -/
inductive Follows (plan : Plan) : Phase → ChainCall ε → Phase → Prop
  | headFailed {base time reply e} :
      reply.answer = .error e → Follows plan (.head base) (.head time reply) (.pause base)
  | headFound {base head time reply} :
      reply.answer = .ok head →
        Follows plan (.head base) (.head time reply)
          (.logs (base.getD (plan.settings.firstBase head)) head)
  | logsFailed {base head time reply e} :
      reply.answer = .error e →
        Follows plan (.logs base head) (.logs (plan.settings.window base head) time reply)
          (.pause (some base))
  | logsFound {base head time reply logs} :
      reply.answer = .ok logs →
        Follows plan (.logs base head) (.logs (plan.settings.window base head) time reply)
          (.receipts base head (candidates logs))
  | receiptFailed {base head hash pending time reply e} :
      reply.answer = .error e →
        Follows plan (.receipts base head (hash :: pending)) (.receipt hash time reply)
          (.pause (some base))
  | receiptPassed {base head hash pending time reply} :
      plan.passes reply.answer →
        Follows plan (.receipts base head (hash :: pending)) (.receipt hash time reply)
          (.receipts base head pending)

/-- The answered calls, latest first, lead to the phase. The two constructors without a call are the
end of a scan and the end of a pause: they change the phase, but a wait learns nothing by them. -/
inductive Trace (plan : Plan) : List (ChainCall ε) → Phase → Prop
  | start : Trace plan [] (.head none)
  | answered {calls phase call next} :
      Trace plan calls phase → Follows plan phase call next → Trace plan (call :: calls) next
  | scanned {calls base head} :
      Trace plan calls (.receipts base head []) → Trace plan calls (.pause (some head))
  | resumed {calls base} :
      Trace plan calls (.pause base) → Trace plan calls (.head base)

/-! ## What a step can do -/

/-- When a call arrived. -/
def ChainCall.time : ChainCall ε → Nat
  | .head time _ | .logs _ time _ | .receipt _ time _ => time

/-- How long its answer takes. -/
def ChainCall.delay : ChainCall ε → Option Nat
  | .head _ reply => reply.delay
  | .logs _ _ reply => reply.delay
  | .receipt _ _ reply => reply.delay

/-- What happens to the handle when it arrives. -/
def ChainCall.action : ChainCall ε → Option HandleAction
  | .head _ reply => reply.action
  | .logs _ _ reply => reply.action
  | .receipt _ _ reply => reply.action

/-- The reply to a call has come by an instant. -/
def ChainCall.HasCome (call : ChainCall ε) (instant : Nat) : Prop :=
  ∃ ticks, call.delay = some ticks ∧ call.time + ticks ≤ instant

/-- The reply to a call is cut off by the end of a wait: it takes time, and the wait ends no later
than it would come. A reply without any delay is there at once and is never cut off. -/
def ChainCall.IsCutOff (call : ChainCall ε) (ending : Nat) : Prop :=
  ∀ ticks ∈ call.delay, 0 < ticks ∧ ending ≤ call.time + ticks

instance (call : ChainCall ε) (ending : Nat) : Decidable (call.IsCutOff ending) :=
  inferInstanceAs (Decidable (∀ ticks ∈ call.delay, _))

/-- The calls that were answered when a wait was interrupted, among those that had arrived, latest
first. A wait makes one call after another, so that only the last one can be without an answer. -/
def answeredBy (ending : Nat) : List (ChainCall ε) → List (ChainCall ε)
  | [] => []
  | call :: earlier => if call.IsCutOff ending then earlier else call :: earlier

section

variable {call : ChainCall ε} {calls : List (ChainCall ε)} {ending ending' : Nat}

theorem ChainCall.HasCome.later (come : call.HasCome ending) (le : ending ≤ ending') :
    call.HasCome ending' := by
  obtain ⟨ticks, delay, before⟩ := come
  exact ⟨ticks, delay, Nat.le_trans before le⟩

/-- What a later end cuts off, an earlier one cuts off too. A wait that is interrupted before it
makes another call is compared in this way with the limit that it had when the last reply came. -/
theorem ChainCall.IsCutOff.earlier (cut : call.IsCutOff ending') (le : ending ≤ ending') :
    call.IsCutOff ending := by
  intro ticks delay
  obtain ⟨positive, late⟩ := cut ticks delay
  exact ⟨positive, Nat.le_trans le late⟩

/-- Where the end cuts off the reply to the last call, all calls but this one were answered. -/
theorem answeredBy_of_cutOff (cut : call.IsCutOff ending) :
    answeredBy ending (call :: calls) = calls :=
  if_pos cut

/-- Where the end does not cut off the reply to the last call, all calls were answered. -/
theorem answeredBy_of_inTime (inTime : ∀ call ∈ calls.head?, ¬ call.IsCutOff ending) :
    answeredBy ending calls = calls := by
  cases calls with
  | nil => rfl
  | cons call earlier => exact if_neg (inTime call rfl)

/-- At most one call was not answered, and its reply is cut off. So `answeredBy` drops nothing that
a wait could have seen. -/
theorem exists_unanswered (ending : Nat) (calls : List (ChainCall ε)) :
    ∃ unanswered, calls = unanswered ++ answeredBy ending calls ∧ unanswered.length ≤ 1 ∧
      ∀ call ∈ unanswered, call.IsCutOff ending := by
  cases calls with
  | nil => exact ⟨[], rfl, Nat.zero_le _, List.forall_mem_nil _⟩
  | cons call earlier =>
    by_cases cut : call.IsCutOff ending
    · rw [answeredBy_of_cutOff cut]
      exact ⟨[call], rfl, Nat.le_refl _, List.forall_mem_singleton.mpr cut⟩
    · rw [answeredBy, if_neg cut]
      exact ⟨[], rfl, Nat.zero_le _, List.forall_mem_nil _⟩

end

/-- The world `v` right after a call has arrived in the world `w`. No time has passed, but the
arrival may have been what the holder of the handle was waiting for. -/
structure Arrives (w : World ε σ) (call : ChainCall ε) (v : World ε σ) : Prop where
  time : call.time = w.now
  now : v.now = w.now
  handle : v.handle = w.handle.act w.now call.action
  calls : v.calls = call :: w.calls

/-- A wait is open while nothing interrupts it, that is, before its limit. Each step looks at this
first, and makes no call when the wait is not open any more. -/
def Plan.Open (plan : Plan) (w : World ε σ) : Prop :=
  w.now < (limit plan.deadline w.handle w.now).1

/-- Where nobody cancels, the deadline alone ends a wait. -/
theorem limit_of_uncancelled {handle : Handle} (uncancelled : handle.cancelledAt = none)
    (deadline now : Nat) : limit deadline handle now = (deadline, .deadline) := by
  rw [limit, uncancelled]

/-- As long as the handle stays as it is, time only moves the limit of a wait further off: the limit
of a wait that was cancelled is the present instant, and all other limits stay. -/
theorem limit_le_limit {now later : Nat} (le : now ≤ later) (deadline : Nat) (handle : Handle) :
    (limit deadline handle now).1 ≤ (limit deadline handle later).1 := by
  unfold limit
  split
  · exact Nat.le_refl _
  · split <;> split <;> simp only <;> omega

/-- Up to the deadline, the limit of a wait lies ahead. So no interruption is dated back. -/
theorem le_limit {deadline now : Nat} (handle : Handle) (inTime : now ≤ deadline) :
    now ≤ (limit deadline handle now).1 := by
  unfold limit
  split
  · exact inTime
  · split <;> simp only <;> omega

/-- A waiting that is interrupted ends at its limit, and would have taken at least until then. The
second part is what makes the call that is waited for one whose reply is cut off. -/
theorem settle_interrupted {deadline now time : Nat} {handle : Handle} {delay : Option Nat}
    {interrupt : Interrupt} (h : settle deadline handle now delay = (time, some interrupt)) :
    limit deadline handle now = (time, interrupt) ∧
      ∀ ticks ∈ delay, 0 < ticks ∧ time ≤ now + ticks := by
  unfold settle at h
  split at h
  · cases h
  · rename_i ticks nonzero
    split at h
    · cases h
    · rename_i late
      cases h
      refine ⟨rfl, ?_⟩
      rintro _ ⟨⟩
      exact ⟨Nat.pos_of_ne_zero fun zero => nonzero (by rw [zero]), Nat.le_of_not_lt late⟩
  · cases h
    exact ⟨rfl, nofun⟩

/-- All that a step can do. This is the inversion of `step`, guards and instants included: the
invariants of waits below and in the other modules look at moves, and not at the program. -/
inductive Move (plan : Plan) (w : World ε σ) : Phase → Next ε σ → Prop
  /-- a call is answered, and the wait goes on -/
  | answered {phase call v time next} :
      plan.Open w → Arrives w call v →
        settle plan.deadline v.handle v.now call.delay = (time, none) →
        Follows plan phase call next → Move plan w phase (.more { v with now := time } next)
  /-- a receipt decides -/
  | resolved {base head hash pending arrival reply v time status receipt} :
      plan.Open w → Arrives w (.receipt hash arrival reply) v →
        settle plan.deadline v.handle v.now reply.delay = (time, none) →
        reply.answer = .ok (some receipt) → plan.classify receipt = some status →
        Move plan w (.receipts base head (hash :: pending))
          (.done { v with now := time } (.ok ⟨status, receipt⟩))
  /-- no candidate is left -/
  | scanned {base head} :
      plan.Open w → Move plan w (.receipts base head []) (.more w (.pause (some head)))
  /-- a pause is over -/
  | resumed {base time} :
      plan.Open w →
        settle plan.deadline w.handle w.now (some plan.settings.pollInterval.ticks) = (time, none) →
        Move plan w (.pause base) (.more { w with now := time } (.head base))
  /-- the interruption came before the step -/
  | stopped {phase} :
      ¬ plan.Open w →
        Move plan w phase
          (.done w (.error (plan.error (limit plan.deadline w.handle w.now).2)))
  /-- the interruption came before an answer -/
  | unanswered {phase call v time interrupt} :
      plan.Open w → Arrives w call v →
        settle plan.deadline v.handle v.now call.delay = (time, some interrupt) →
        Asks plan phase call →
        Move plan w phase (.done { v with now := time } (.error (plan.error interrupt)))
  /-- the interruption came before the end of a pause -/
  | roused {base time interrupt} :
      plan.Open w →
        settle plan.deadline w.handle w.now (some plan.settings.pollInterval.ticks) =
          (time, some interrupt) →
        Move plan w (.pause base) (.done { w with now := time } (.error (plan.error interrupt)))

/-- What is waited for comes in time, or the wait is interrupted. Besides `step` this is the only
place at which a wait can end with an error. -/
theorem await_cases (plan : Plan) (w : World ε σ) (delay : Option Nat)
    (next : World ε σ → Next ε σ) :
    (∃ time, settle plan.deadline w.handle w.now delay = (time, none) ∧
      w.await plan delay next = next { w with now := time }) ∨
    (∃ time interrupt, settle plan.deadline w.handle w.now delay = (time, some interrupt) ∧
      w.await plan delay next =
        .done { w with now := time } (.error (plan.error interrupt))) := by
  rw [World.await]
  rcases settle plan.deadline w.handle w.now delay with ⟨time, _ | interrupt⟩
  · exact .inl ⟨time, rfl, rfl⟩
  · exact .inr ⟨time, interrupt, rfl, rfl⟩

/-- A call in an open wait: the answer leads on, or it comes too late. What the answer leads to is
left open here, so that the lemma serves all three kinds of calls. -/
theorem move_await {plan : Plan} {w v : World ε σ} {phase : Phase} {call : ChainCall ε}
    {next : World ε σ → Next ε σ} (isOpen : plan.Open w) (arrives : Arrives w call v)
    (asks : Asks plan phase call)
    (answered : ∀ time, settle plan.deadline v.handle v.now call.delay = (time, none) →
      Move plan w phase (next { v with now := time })) :
    Move plan w phase (v.await plan call.delay next) := by
  obtain ⟨time, settled, taken⟩ | ⟨time, interrupt, settled, taken⟩ :=
    await_cases plan v call.delay next
  · rw [taken]
    exact answered time settled
  · rw [taken]
    exact .unanswered isOpen arrives settled asks

/-- A call that a world makes arrives. The hypotheses say that the record of the call keeps its
instant and what happens to the handle. -/
theorem arrives_ask {α : Type} (w : World ε σ) (query : Nat → σ → Reply ε α × σ)
    (record : Nat → Reply ε α → ChainCall ε)
    (time : ∀ t reply, (record t reply).time = t)
    (action : ∀ t reply, (record t reply).action = reply.action) :
    Arrives w (record w.now (w.ask query record).1) (w.ask query record).2 where
  time := time _ _
  now := rfl
  handle := by
    rw [action]
    rfl
  calls := rfl

/-- A pause in an open wait: it is over, or it is interrupted. -/
theorem move_pause {plan : Plan} {w : World ε σ} {base : Option BlockNumber}
    (isOpen : plan.Open w) :
    Move plan w (.pause base)
      (w.await plan (some plan.settings.pollInterval.ticks) fun w => .more w (.head base)) := by
  obtain ⟨time, settled, taken⟩ | ⟨time, interrupt, settled, taken⟩ :=
    await_cases plan w (some plan.settings.pollInterval.ticks) fun w => .more w (.head base)
  · rw [taken]
    exact .resumed isOpen settled
  · rw [taken]
    exact .roused isOpen settled

/-! ## What each phase does in an open wait -/

/-- What an answered head leads to. -/
def Plan.afterHead (plan : Plan) (base : Option BlockNumber) (reply : Reply ε BlockNumber)
    (w : World ε σ) : Next ε σ :=
  match reply.answer with
  | .error _ => .more w (.pause base)
  | .ok head => .more w (.logs (base.getD (plan.settings.firstBase head)) head)

/-- What answered logs lead to. -/
def afterLogs (base head : BlockNumber) (reply : Reply ε (List Log)) (w : World ε σ) : Next ε σ :=
  match reply.answer with
  | .error _ => .more w (.pause (some base))
  | .ok logs => .more w (.receipts base head (candidates logs))

/-- What an answered lookup leads to. -/
def Plan.afterReceipt (plan : Plan) (base head : BlockNumber) (pending : List Hash)
    (reply : Reply ε (Option Receipt)) (w : World ε σ) : Next ε σ :=
  match reply.answer with
  | .error _ => .more w (.pause (some base))
  | .ok none => .more w (.receipts base head pending)
  | .ok (some receipt) =>
    match plan.classify receipt with
    | some status => .done w (.ok ⟨status, receipt⟩)
    | none => .more w (.receipts base head pending)

section

variable {plan : Plan} {w : World ε σ}

/-- A step at or after the limit does nothing but end the wait. No call is made, in whatever
phase. -/
theorem step_of_not_open (chain : Chain ε σ) (phase : Phase) (closed : ¬ plan.Open w) :
    step plan chain w phase =
      .done w (.error (plan.error (limit plan.deadline w.handle w.now).2)) := by
  rw [step.eq_def]
  simp only
  rw [if_pos (Nat.not_lt.mp closed)]

theorem step_head (chain : Chain ε σ) (isOpen : plan.Open w) (base : Option BlockNumber) :
    step plan chain w (.head base) =
      (w.ask chain.head .head).2.await plan (w.ask chain.head .head).1.delay
        (plan.afterHead base (w.ask chain.head .head).1) := by
  rw [step.eq_def]
  simp only
  rw [if_neg (Nat.not_le.mpr isOpen)]
  rfl

theorem step_logs (chain : Chain ε σ) (isOpen : plan.Open w) (base head : BlockNumber) :
    step plan chain w (.logs base head) =
      (w.ask (chain.logs (plan.settings.window base head))
          (.logs (plan.settings.window base head))).2.await plan
        (w.ask (chain.logs (plan.settings.window base head))
          (.logs (plan.settings.window base head))).1.delay
        (afterLogs base head (w.ask (chain.logs (plan.settings.window base head))
          (.logs (plan.settings.window base head))).1) := by
  rw [step.eq_def]
  simp only
  rw [if_neg (Nat.not_le.mpr isOpen)]
  rfl

theorem step_receipt (chain : Chain ε σ) (isOpen : plan.Open w) (base head : BlockNumber)
    (hash : Hash) (pending : List Hash) :
    step plan chain w (.receipts base head (hash :: pending)) =
      (w.ask (chain.receipt hash) (.receipt hash)).2.await plan
        (w.ask (chain.receipt hash) (.receipt hash)).1.delay
        (plan.afterReceipt base head pending (w.ask (chain.receipt hash) (.receipt hash)).1) := by
  rw [step.eq_def]
  simp only
  rw [if_neg (Nat.not_le.mpr isOpen)]
  rfl

/-- Where no candidate is left, the round is over and the head becomes the base of the next one. No
time passes. -/
theorem step_scanned (chain : Chain ε σ) (isOpen : plan.Open w) (base head : BlockNumber) :
    step plan chain w (.receipts base head []) = .more w (.pause (some head)) := by
  rw [step.eq_def]
  simp only
  rw [if_neg (Nat.not_le.mpr isOpen)]

/-- The step that pauses. The base stays, and the next round asks for the head again. -/
theorem step_resumed (chain : Chain ε σ) (isOpen : plan.Open w) (base : Option BlockNumber) :
    step plan chain w (.pause base) =
      w.await plan (some plan.settings.pollInterval.ticks) fun w => .more w (.head base) := by
  rw [step.eq_def]
  simp only
  rw [if_neg (Nat.not_le.mpr isOpen)]

end

/-- Each step is one of the moves. The proof opens `step` once for each phase, by the equations
above; nothing after it does. -/
theorem step_move (plan : Plan) (chain : Chain ε σ) (w : World ε σ) (phase : Phase) :
    Move plan w phase (step plan chain w phase) := by
  by_cases isOpen : plan.Open w
  · cases phase with
    | head base =>
      have arrives := arrives_ask w chain.head .head (fun _ _ => rfl) (fun _ _ => rfl)
      rw [step_head chain isOpen]
      refine move_await isOpen arrives .head fun time settled => ?_
      rw [Plan.afterHead]
      cases answer : (w.ask chain.head .head).1.answer with
      | error e => exact .answered isOpen arrives settled (.headFailed answer)
      | ok head => exact .answered isOpen arrives settled (.headFound answer)
    | logs base head =>
      have arrives := arrives_ask w (chain.logs (plan.settings.window base head))
        (.logs (plan.settings.window base head)) (fun _ _ => rfl) (fun _ _ => rfl)
      rw [step_logs chain isOpen]
      refine move_await isOpen arrives .logs fun time settled => ?_
      rw [afterLogs]
      cases answer : (w.ask (chain.logs (plan.settings.window base head))
          (.logs (plan.settings.window base head))).1.answer with
      | error e => exact .answered isOpen arrives settled (.logsFailed answer)
      | ok logs => exact .answered isOpen arrives settled (.logsFound answer)
    | receipts base head pending =>
      cases pending with
      | nil =>
        rw [step_scanned chain isOpen]
        exact .scanned isOpen
      | cons hash pending =>
        have arrives := arrives_ask w (chain.receipt hash) (.receipt hash) (fun _ _ => rfl)
          (fun _ _ => rfl)
        rw [step_receipt chain isOpen]
        refine move_await isOpen arrives .receipt fun time settled => ?_
        rw [Plan.afterReceipt]
        rcases answer : (w.ask (chain.receipt hash) (.receipt hash)).1.answer with e | _ | receipt
        · exact .answered isOpen arrives settled (.receiptFailed answer)
        · exact .answered isOpen arrives settled (.receiptPassed (by rw [answer]; rfl))
        · -- the receipt decides, or the next candidate is asked for
          simp only
          cases reported : plan.classify receipt with
          | some status => exact .resolved isOpen arrives settled answer reported
          | none =>
            refine .answered isOpen arrives settled (.receiptPassed ?_)
            rw [answer]
            simp [Plan.passes, reported]
    | pause base =>
      rw [step_resumed chain isOpen]
      exact move_pause isOpen
  · rw [step_of_not_open chain phase isOpen]
    exact .stopped isOpen

/-! ## Runs -/

/-- A move that goes on extends the trace of the calls before it. A call that is answered adds
itself to the trace, and the moves that make no call only change the phase. This is the step that
`run_ended` needs, and the only one at which traces and the clock meet. -/
theorem Trace.move {plan : Plan} {w w' : World ε σ} {phase phase' : Phase}
    (trace : Trace plan w.calls phase) (move : Move plan w phase (.more w' phase')) :
    Trace plan w'.calls phase' := by
  cases move with
  | answered isOpen arrives settled follows =>
    rw [arrives.calls]
    exact trace.answered follows
  | scanned => exact trace.scanned
  | resumed => exact trace.resumed

/-- The calls of a world whose wait goes on: their replies have come, and the last one before
anything could interrupt. The second part is about the last call alone because an interruption can
only cut off that one, and it is about the limit as it is now because the handle may have cancelled
when that call arrived. -/
structure Settled (plan : Plan) (w : World ε σ) : Prop where
  come : ∀ call ∈ w.calls, call.HasCome w.now
  inTime : ∀ call ∈ w.calls.head?, ¬ call.IsCutOff (limit plan.deadline w.handle w.now).1

theorem Settled.of_no_calls {plan : Plan} {w : World ε σ} (none : w.calls = []) :
    Settled plan w where
  come call mem := by
    rw [none] at mem
    cases mem
  inTime call last := by
    rw [none] at last
    cases last

/-- Time alone does not unsettle a world: the replies stay, and the limit moves further off. -/
theorem Settled.later {plan : Plan} {w : World ε σ} (settled : Settled plan w) {time : Nat}
    (le : w.now ≤ time) : Settled plan { w with now := time } where
  come call mem := (settled.come call mem).later le
  inTime call last cut :=
    settled.inTime call last (cut.earlier (limit_le_limit le plan.deadline w.handle))

/-- A reply that is waited for to its end has come by then, and before the limit unless it took no
time at all. -/
theorem Arrives.reply {plan : Plan} {w v : World ε σ} {call : ChainCall ε} {time : Nat}
    (arrives : Arrives w call v)
    (waited : settle plan.deadline v.handle v.now call.delay = (time, none)) :
    w.now ≤ time ∧ ∃ ticks, call.delay = some ticks ∧ time = call.time + ticks ∧
      (0 < ticks → time < (limit plan.deadline v.handle v.now).1) := by
  have arrived := arrives.time
  have now := arrives.now
  obtain ⟨delay, same⟩ | ⟨ticks, delay, -, late, soon⟩ := settle_none waited
  · exact ⟨by omega, 0, delay, by omega, fun positive => absurd positive (Nat.lt_irrefl 0)⟩
  · exact ⟨by omega, ticks, delay, by omega, fun _ => soon⟩

/-- A move that goes on has waited for the reply to its call, if it made one. So settled worlds lead
to settled worlds, and in the world in which a run ends only the last move can have left a call
open. -/
theorem Settled.move {plan : Plan} {w w' : World ε σ} {phase phase' : Phase}
    (settled : Settled plan w) (move : Move plan w phase (.more w' phase')) : Settled plan w' := by
  cases move with
  | @answered _ call v time _ isOpen arrives waited follows =>
    obtain ⟨le, ticks, delay, come, soon⟩ := arrives.reply waited
    constructor
    · change ∀ earlier ∈ v.calls, earlier.HasCome time
      rw [arrives.calls]
      exact List.forall_mem_cons.mpr ⟨⟨ticks, delay, Nat.le_of_eq come.symm⟩,
        fun earlier mem => (settled.come earlier mem).later le⟩
    · change ∀ last ∈ v.calls.head?, ¬ last.IsCutOff (limit plan.deadline v.handle time).1
      rw [arrives.calls]
      rintro _ ⟨⟩ cut
      obtain ⟨positive, late⟩ := cut ticks delay
      -- the limit has not come nearer while the reply was on its way
      have further := limit_le_limit (arrives.now ▸ le) plan.deadline v.handle
      have := soon positive
      omega
  | scanned => exact settled
  | @resumed base time isOpen waited =>
    refine settled.later ?_
    obtain ⟨-, same⟩ | ⟨ticks, -, -, late, -⟩ := settle_none waited <;> omega

/-- The answered calls of a run, latest first. Those before the last step all were; of the last
step's it is the one that decides. A step that ends in an interruption may have made a call, but the
wait has not seen the reply to it. -/
def answered (plan : Plan) (chain : Chain ε σ) (w : World ε σ) (phase : Phase) :
    List (ChainCall ε) :=
  match _taken : step plan chain w phase with
  | .done v (.ok _) => v.calls
  | .done _ (.error _) => w.calls
  | .more w phase => answered plan chain w phase
termination_by (plan.deadline - w.now, phase.rank)
decreasing_by exact step_decreases _taken

/-- How a wait ends, seen from its answered calls. -/
inductive Ended (plan : Plan) : List (ChainCall ε) → Ending ε σ → Prop
  /-- the receipt of the next candidate decides -/
  | resolved {calls base head hash pending arrival reply world receipt status} :
      Trace plan calls (.receipts base head (hash :: pending)) →
        reply.answer = .ok (some receipt) → plan.classify receipt = some status →
        world.calls = .receipt hash arrival reply :: calls →
        Ended plan (.receipt hash arrival reply :: calls) ⟨.ok ⟨status, receipt⟩, world⟩
  /-- an interruption; the end itself tells which calls were answered by then -/
  | interrupted {calls phase interrupt world} :
      Trace plan calls phase → calls = answeredBy world.now world.calls →
        Ended plan calls ⟨.error (plan.error interrupt), world⟩

/-- A move that ends a wait by an interruption does so at its limit, or after it: then all replies
had come in time, unless the last call is the one that the move itself made. In each of these cases
the instant of the end tells which calls were answered, so that an ending explains itself. -/
theorem Settled.interrupted {plan : Plan} {w v : World ε σ} {phase : Phase} {e : Error}
    (settled : Settled plan w) (move : Move plan w phase (.done v (.error e))) :
    ∃ interrupt, e = plan.error interrupt ∧ w.calls = answeredBy v.now v.calls := by
  cases move with
  | stopped closed =>
    refine ⟨_, rfl, (answeredBy_of_inTime fun call last cut => ?_).symm⟩
    exact settled.inTime call last (cut.earlier (Nat.le_of_not_lt closed))
  | @unanswered _ call u time interrupt isOpen arrives reply =>
    refine ⟨interrupt, rfl, ?_⟩
    change w.calls = answeredBy time u.calls
    rw [arrives.calls, answeredBy_of_cutOff]
    intro ticks delay
    rw [arrives.time, ← arrives.now]
    exact (settle_interrupted reply).2 ticks delay
  | @roused base time interrupt isOpen waited =>
    refine ⟨interrupt, rfl, (answeredBy_of_inTime fun call last cut => ?_).symm⟩
    have inTime := settled.inTime call last
    rw [(settle_interrupted waited).1] at inTime
    exact inTime cut

/-- The clock does not run backwards while a move ends a wait. So what had come before the move has
come by its end. -/
theorem Move.now_le {plan : Plan} {w v : World ε σ} {phase : Phase}
    {result : Except Error Outcome} (move : Move plan w phase (.done v result)) :
    w.now ≤ v.now := by
  cases move with
  | resolved isOpen arrives waited => exact (arrives.reply waited).1
  | stopped => exact Nat.le_refl _
  | @unanswered _ _ u time _ isOpen arrives reply =>
    change w.now ≤ time
    have inTime : u.now ≤ plan.deadline :=
      arrives.now ▸ Nat.le_of_lt (Nat.lt_of_lt_of_le isOpen (limit_le ..))
    have ahead := le_limit u.handle inTime
    rw [(settle_interrupted reply).1, arrives.now] at ahead
    exact ahead
  | @roused _ time _ isOpen waited =>
    change w.now ≤ time
    rw [Plan.Open, (settle_interrupted waited).1] at isOpen
    exact Nat.le_of_lt isOpen

/-- A run from a trace ends at a trace. The induction is over the steps of the run, with the trace
and the settled world as its invariant: a move that goes on keeps both (`Trace.move`,
`Settled.move`), and a move that ends the run is a receipt that decides or an interruption.
Statements about whole waits that depend on the answers alone come from here, by cases on `Ended`
and an induction over the trace. -/
theorem run_ended {plan : Plan} {chain : Chain ε σ} (w : World ε σ) (phase : Phase)
    (trace : Trace plan w.calls phase) (settled : Settled plan w) :
    Ended plan (answered plan chain w phase) (run plan chain w phase) := by
  induction w, phase using run.induct plan chain with
  | case1 w phase v result taken =>
    have move := step_move plan chain w phase
    rw [taken] at move
    rw [run, answered, taken]
    cases result with
    | error e =>
      obtain ⟨interrupt, rfl, same⟩ := settled.interrupted move
      exact .interrupted trace same
    | ok outcome =>
      cases move with
      | resolved isOpen arrives reply answer reported =>
        change Ended plan (World.calls _) _
        rw [arrives.calls]
        exact .resolved trace answer reported rfl
  | case2 w phase w' phase' taken ih =>
    have move := taken ▸ step_move plan chain w phase
    rw [run, answered, taken]
    exact ih (trace.move move) (settled.move move)

/-- By the end of a run the replies to its answered calls have come. The trace plays no part in
this, since it does not know of time. -/
theorem run_come {plan : Plan} {chain : Chain ε σ} (w : World ε σ) (phase : Phase)
    (settled : Settled plan w) :
    ∀ call ∈ answered plan chain w phase, call.HasCome (run plan chain w phase).world.now := by
  induction w, phase using run.induct plan chain with
  | case1 w phase v result taken =>
    have move := step_move plan chain w phase
    rw [taken] at move
    rw [run, answered, taken]
    have earlier : ∀ call ∈ w.calls, call.HasCome v.now :=
      fun call mem => (settled.come call mem).later move.now_le
    cases move with
    | @resolved _ _ _ _ _ _ u time _ _ isOpen arrives waited =>
      change ∀ call ∈ u.calls, call.HasCome time
      rw [arrives.calls]
      obtain ⟨-, ticks, delay, come, -⟩ := arrives.reply waited
      exact List.forall_mem_cons.mpr ⟨⟨ticks, delay, Nat.le_of_eq come.symm⟩, earlier⟩
    | stopped | unanswered | roused => exact earlier
  | case2 w phase w' phase' taken ih =>
    rw [run, answered, taken]
    exact ih (settled.move (taken ▸ step_move plan chain w phase))

/-- The run cut off after `n` steps, which shows its answered calls and its ending if it has ended.
It is structurally recursive, unlike `run`, so that runs on fixed chains can be evaluated. -/
def runFor (plan : Plan) (chain : Chain ε σ) :
    Nat → World ε σ → Phase → Option (List (ChainCall ε) × Ending ε σ)
  | 0, _, _ => none
  | n + 1, w, phase =>
    match step plan chain w phase with
    | .done v (.ok outcome) => some (v.calls, ⟨.ok outcome, v⟩)
    | .done v (.error e) => some (w.calls, ⟨.error e, v⟩)
    | .more w phase => runFor plan chain n w phase

/-- What a run shows that has ended after `n` steps is true of the whole run. A decidable statement
about the run of a fixed chain is evaluated in this way. -/
theorem of_runFor {plan : Plan} {chain : Chain ε σ} {w : World ε σ} {phase : Phase}
    {P : List (ChainCall ε) → Ending ε σ → Prop} [∀ calls ending, Decidable (P calls ending)]
    (n : Nat)
    (h : (runFor plan chain n w phase).any (fun shown => decide (P shown.1 shown.2)) = true) :
    P (answered plan chain w phase) (run plan chain w phase) := by
  induction n generalizing w phase with
  | zero => cases h
  | succ n ih =>
    rw [runFor] at h
    rw [answered, run]
    cases taken : step plan chain w phase with
    | more w' phase' =>
      rw [taken] at h
      exact ih h
    | done v result =>
      rw [taken] at h
      cases result with
      | ok outcome => exact of_decide_eq_true h
      | error e => exact of_decide_eq_true h

/-- The answered calls of a wait, latest first. -/
def Waiter.answered (waiter : Waiter) (chain : Chain ε σ) (id : Identifier)
    (timeout : Option Duration) (handle : Handle) (now : Nat) (state : σ) :
    List (ChainCall ε) :=
  Confirmation.answered (waiter.plan id timeout now) chain { now, handle, chain := state }
    (.head none)

/-- Every wait ends at a trace of its answered calls. A wait starts with no calls, so that its start
is a trace and settled for want of calls. -/
theorem wait_ended (waiter : Waiter) (chain : Chain ε σ) (id : Identifier)
    (timeout : Option Duration) (handle : Handle) (now : Nat) (state : σ) :
    Ended (waiter.plan id timeout now) (waiter.answered chain id timeout handle now state)
      (waiter.wait chain id timeout handle now state) :=
  run_ended _ _ .start (.of_no_calls rfl)

theorem wait_come (waiter : Waiter) (chain : Chain ε σ) (id : Identifier)
    (timeout : Option Duration) (handle : Handle) (now : Nat) (state : σ) :
    ∀ call ∈ waiter.answered chain id timeout handle now state,
      call.HasCome (waiter.wait chain id timeout handle now state).world.now :=
  run_come _ _ (.of_no_calls rfl)

/-! ## A small chain

One transaction that executes a meta-transaction in block 10, for the instances of the main
statements. -/

namespace Sample

def settings : Settings where
  defaultTimeout := .ofMilliseconds 30
  lookback := 4
  overlap := 2
  pollInterval := .ofMilliseconds 10
  nonceTopic := .ofNat 32 1
  failedTopic := .ofNat 32 2

def waiter : Waiter := ⟨settings, rfl⟩

def identifier : Identifier := ⟨.ofNat 32 7⟩

def nonceLog : Log where
  address := .ofNat 20 3
  topics := [settings.nonceTopic]
  data := []
  blockNumber := 10
  transactionHash := .ofNat 32 9
  logIndex := 0

def receipt : Receipt where
  transactionHash := nonceLog.transactionHash
  blockNumber := 10
  success := true
  gasUsed := 21000
  logs := [nonceLog, { nonceLog with topics := [], data := identifier.hash.bytes, logIndex := 1 }]

/-- A wait for the sample identifier that nobody cancels. -/
def ending (script : Script) : Ending Failure Script.State :=
  waiter.wait script.chain identifier none .never 0 {}

/-- Its answered calls. -/
def calls (script : Script) : List (ChainCall Failure) :=
  waiter.answered script.chain identifier none .never 0 {}

theorem of_runFor {script : Script}
    {P : List (ChainCall Failure) → Ending Failure Script.State → Prop}
    [∀ calls ending, Decidable (P calls ending)] (n : Nat)
    (h : (runFor (waiter.plan identifier none 0) script.chain n
      { now := 0, handle := .never, chain := {} } (.head none)).any
        (fun shown => decide (P shown.1 shown.2)) = true) :
    P (calls script) (ending script) :=
  Confirmation.of_runFor n h

end Sample

end MetaTransaction.Confirmation
