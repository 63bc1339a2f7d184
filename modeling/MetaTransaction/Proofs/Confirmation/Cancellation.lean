import MetaTransaction.Proofs.Confirmation.Deadline
import MetaTransaction.Proofs.Confirmation.Resolution

/-!
# Cancelled waits

A cancellation ends a wait at its own instant, in whatever the wait is doing then, and no call
arrives after it. Two things come before it: a deadline that is not later, and the receipt whose
lookup made the handle cancel, when it is answered at once and decides. A handle that does not
cancel changes nothing.

* `Attended.arrives`, `Attended.later` — what a wait knows of its handle, kept by each move;
* `Attended.done` — how the last move depends on the instant of the cancellation;
* `run_unsignalled` — a run whose handle does not cancel is the run without a handle;
* `cancellation_is_immediate` — the statement for every wait.
-/

namespace MetaTransaction.Confirmation

variable {ε σ : Type}

/-! ## Handles and calls -/

/-- The handle after calls, which come latest first. Apart from the clock, calls are all that can
make the handle of a wait do anything. -/
def Handle.after (handle : Handle) : List (ChainCall ε) → Handle
  | [] => handle
  | call :: calls => (handle.after calls).act call.time call.action

/-- A handle that has cancelled at `c` stays so. -/
theorem Handle.act_of_cancelled {handle : Handle} {c : ℕ} (cancelled : handle.cancelledAt = some c)
    (now : ℕ) (action : Option HandleAction) : (handle.act now action).cancelledAt = some c := by
  cases action with
  | none => exact cancelled
  | some action =>
    cases action with
    | cancel =>
      rw [act, cancel, cancelled, Option.isNone_some, Bool.and_false, if_neg Bool.false_ne_true]
      exact cancelled
    | drop => exact cancelled

/-- A handle cancels at the instant of the action that makes it cancel, unless it had cancelled
before. -/
theorem Handle.act_cancels {handle : Handle} {now c : ℕ} {action : Option HandleAction}
    (cancelled : (handle.act now action).cancelledAt = some c) :
    handle.cancelledAt = some c ∨
      handle.cancelledAt = none ∧ c = now ∧ action = some .cancel := by
  cases before : handle.cancelledAt with
  | some c' =>
    rw [act_of_cancelled before] at cancelled
    exact .inl cancelled
  | none =>
    refine .inr ⟨rfl, ?_⟩
    cases action with
    | none =>
      rw [act, before] at cancelled
      cases cancelled
    | some action =>
      cases action with
      | cancel =>
        rw [act, cancel] at cancelled
        split at cancelled
        · exact ⟨(Option.some.inj cancelled).symm, rfl⟩
        · rw [before] at cancelled
          cases cancelled
      | drop =>
        rw [act, drop, before] at cancelled
        cases cancelled

/-- A handle that was given up without having cancelled never cancels, whatever calls come after. -/
theorem Handle.after_of_dropped {handle : Handle} {earlier calls : List (ChainCall ε)}
    (suffix : earlier <:+ calls) (dropped : (handle.after earlier).held = false)
    (uncancelled : (handle.after earlier).cancelledAt = none) :
    (handle.after calls).cancelledAt = none := by
  obtain ⟨later, rfl⟩ := suffix
  have stays : (handle.after (later ++ earlier)).held = false ∧
      (handle.after (later ++ earlier)).cancelledAt = none := by
    induction later with
    | nil => exact ⟨dropped, uncancelled⟩
    | cons call later ih =>
      obtain ⟨dropped, uncancelled⟩ := ih
      rw [List.cons_append, after]
      cases call.action with
      | none => exact ⟨dropped, uncancelled⟩
      | some action =>
        cases action with
        | cancel =>
          rw [act, cancel, dropped, Bool.false_and, if_neg Bool.false_ne_true]
          exact ⟨dropped, uncancelled⟩
        | drop => exact ⟨rfl, uncancelled⟩
  exact stays.2

/-- A cancellation limits a wait: it is not open after it. -/
theorem limit_le_cancelled {handle : Handle} {c : ℕ} (cancelled : handle.cancelledAt = some c)
    (deadline now : ℕ) : (limit deadline handle now).1 ≤ max c now := by
  rcases limit_cases deadline handle now with ⟨reached, late⟩ | ⟨c', same, -, reached⟩
  · rw [reached]
    exact late c cancelled
  · rw [cancelled] at same
    obtain rfl := Option.some.inj same
    rw [reached]

/-- An open wait comes before the cancellation. -/
theorem Plan.Open.lt_cancelled {plan : Plan} {w : World ε σ} {c : ℕ} (isOpen : plan.Open w)
    (cancelled : w.handle.cancelledAt = some c) : w.now < c := by
  have before := Nat.lt_of_lt_of_le isOpen (limit_le_cancelled cancelled ..)
  omega

/-! ## What a wait knows of its handle -/

/-- A world in a wait that started at `start` with the handle: no call arrived after a cancellation,
and the clock has not passed one. It is the invariant of the handle, beside the pace that is the
invariant of the clock. -/
structure Attended (handle : Handle) (start : ℕ) (w : World ε σ) : Prop where
  current : w.handle = handle.after w.calls
  attentive : ∀ call earlier, call :: earlier <:+ w.calls →
    (handle.after earlier).isCancelled call.time = false
  calls : ∀ c, w.handle.cancelledAt = some c → ∀ call ∈ w.calls, call.time ≤ c
  now : ∀ c, w.handle.cancelledAt = some c → w.now ≤ max c start

section

variable {plan : Plan} {handle : Handle} {start : ℕ} {w v : World ε σ} {phase : Phase}
  {call : ChainCall ε}

/-- A call that arrives in an open wait comes before a cancellation, or makes it. Either way it does
not come after one. -/
theorem Attended.arrives (attended : Attended handle start w)
    (before : ∀ call ∈ w.calls, call.time ≤ w.now) (isOpen : plan.Open w)
    (arrives : Arrives w call v) : Attended handle start v where
  current := by
    rw [arrives.handle, arrives.calls, Handle.after, attended.current, arrives.time]
  attentive := by
    intro call' earlier suffix
    rw [arrives.calls, List.suffix_cons_iff] at suffix
    rcases suffix with same | suffix
    · obtain ⟨rfl, rfl⟩ := List.cons.inj same
      rw [← attended.current, arrives.time, Handle.isCancelled]
      cases cancelled : w.handle.cancelledAt with
      | none => rfl
      | some c => exact decide_eq_false (Nat.not_le.mpr (isOpen.lt_cancelled cancelled))
    · exact attended.attentive call' earlier suffix
  calls := by
    intro c cancelled call' mem
    rw [arrives.handle] at cancelled
    rw [arrives.calls] at mem
    have known := Handle.act_cancels cancelled
    rcases List.mem_cons.mp mem with rfl | mem
    · rw [arrives.time]
      rcases known with earlier | ⟨-, rfl, -⟩
      · exact Nat.le_of_lt (isOpen.lt_cancelled earlier)
      · exact Nat.le_refl _
    · rcases known with earlier | ⟨-, rfl, -⟩
      · exact attended.calls c earlier call' mem
      · exact before call' mem
  now := by
    intro c cancelled
    rw [arrives.handle] at cancelled
    rw [arrives.now]
    rcases Handle.act_cancels cancelled with earlier | ⟨-, rfl, -⟩
    · exact attended.now c earlier
    · exact Nat.le_max_left ..

/-- The clock goes on up to a cancellation, but not beyond it. -/
theorem Attended.later (attended : Attended handle start w) {time : ℕ}
    (early : ∀ c, w.handle.cancelledAt = some c → time ≤ max c w.now) :
    Attended handle start { w with now := time } where
  current := attended.current
  attentive := attended.attentive
  calls := attended.calls
  now := by
    intro c cancelled
    have known := attended.now c cancelled
    have before := early c cancelled
    change time ≤ _
    omega

/-- What is not interrupted is over before a cancellation, or takes no time. -/
theorem settle_before {deadline now time c : ℕ} {delay : Option ℕ}
    (h : settle deadline handle now delay = (time, none))
    (cancelled : handle.cancelledAt = some c) :
    delay = some 0 ∧ time = now ∨ now < time ∧ time < max c now := by
  rcases settle_none h with ⟨zero, same⟩ | ⟨ticks, -, positive, late, before⟩
  · exact .inl ⟨zero, same⟩
  · exact .inr ⟨by omega, Nat.lt_of_lt_of_le before (limit_le_cancelled cancelled ..)⟩

theorem Attended.settled (attended : Attended handle start w) {deadline time : ℕ}
    {delay : Option ℕ} (settled : settle deadline w.handle w.now delay = (time, none)) :
    Attended handle start { w with now := time } := by
  refine attended.later ?_
  intro c cancelled
  rcases settle_before settled cancelled with ⟨-, same⟩ | ⟨-, before⟩
  · omega
  · omega

/-- A waiting that is interrupted does not take the clock past a cancellation, since a cancellation
is what would interrupt it. -/
theorem Attended.limited (attended : Attended handle start w) {deadline time : ℕ}
    {interrupt : Interrupt} (limited : limit deadline w.handle w.now = (time, interrupt)) :
    Attended handle start { w with now := time } := by
  refine attended.later ?_
  intro c cancelled
  have before := limit_le_cancelled cancelled deadline w.now
  rwa [limited] at before

/-- A move that goes on keeps what a wait knows of its handle. -/
theorem Attended.move {w' : World ε σ} {phase' : Phase} (attended : Attended handle start w)
    (before : ∀ call ∈ w.calls, call.time ≤ w.now) (move : Move plan w phase (.more w' phase')) :
    Attended handle start w' := by
  cases move with
  | answered isOpen arrives settled =>
    exact (attended.arrives before isOpen arrives).settled settled
  | scanned => exact attended
  | resumed isOpen settled => exact attended.settled settled

end

/-! ## The last move -/

/-- The latest of the calls looked up a receipt and made the handle cancel, and the receipt was
answered at once and decides. It is the one case in which a wait resolves at the instant of its
cancellation: an answer without any delay is there before anything can interrupt. -/
def DecidedOnArrival (plan : Plan) (handle : Handle) (c : ℕ) (calls : List (ChainCall ε))
    (outcome : Outcome) : Prop :=
  ∃ hash reply earlier, calls = .receipt hash c reply :: earlier ∧
    (handle.after earlier).cancelledAt = none ∧ reply.action = some .cancel ∧
    reply.delay = some 0 ∧ reply.answer = .ok (some outcome.receipt) ∧
    plan.classify outcome.receipt = some outcome.status

/-- How a wait ends whose handle cancels at `c`, and which is still going on at `instant` unless it
ended before. The four cases exclude each other, and in none of them does it end later. -/
inductive Cut (plan : Plan) (handle : Handle) (c instant : ℕ) (e : Ending ε σ) : Prop
  | before :
      e.world.now < instant → e.result ≠ .error (.cancelled plan.id) → Cut plan handle c instant e
  | deadline :
      e.world.now = instant → plan.deadline ≤ instant →
        e.result = .error (.deadlineExceeded plan.id plan.timeout) → Cut plan handle c instant e
  | resolved (outcome : Outcome) :
      e.world.now = instant → instant < plan.deadline →
        DecidedOnArrival plan handle c e.world.calls outcome → e.result = .ok outcome →
        Cut plan handle c instant e
  | cancelled :
      e.world.now = instant → instant < plan.deadline →
        (∀ outcome, ¬ DecidedOnArrival plan handle c e.world.calls outcome) →
        e.result = .error (.cancelled plan.id) → Cut plan handle c instant e

section

variable {plan : Plan} {handle : Handle} {start : ℕ} {w v : World ε σ} {phase : Phase}
  {call : ChainCall ε}

/-- Calls after which a wait goes on do not decide it. -/
theorem Trace.not_decided {calls : List (ChainCall ε)} (trace : Trace plan calls phase) {c : ℕ}
    {outcome : Outcome} : ¬ DecidedOnArrival plan handle c calls outcome := by
  rintro ⟨hash, reply, earlier, rfl, -, -, -, answer, decides⟩
  have ignored := trace.silent outcome.receipt
    ⟨hash, c, reply, List.mem_cons_self .., answer⟩
  rw [Plan.classify_eq_none_iff.mpr ignored] at decides
  cases decides

/-- A call whose answer does not come at once does not decide, as the cancellation comes first. -/
theorem not_decided_of_delay {c : ℕ} {calls : List (ChainCall ε)} {outcome : Outcome}
    (delayed : call.delay ≠ some 0) :
    ¬ DecidedOnArrival plan handle c (call :: calls) outcome := by
  rintro ⟨hash, reply, earlier, same, -, -, atOnce, -, -⟩
  obtain ⟨rfl, -⟩ := List.cons.inj same
  exact delayed atOnce

/-- A wait that is interrupted ends at its cancellation, or at the deadline if that comes first. At
one instant the deadline has precedence. -/
theorem Attended.cut (attended : Attended handle start w) (started : start ≤ w.now) {c time : ℕ}
    {interrupt : Interrupt} (cancelled : w.handle.cancelledAt = some c)
    (limited : limit plan.deadline w.handle w.now = (time, interrupt))
    (undecided : ∀ outcome, ¬ DecidedOnArrival plan handle c w.calls outcome) :
    Cut plan handle c (max c start)
      ⟨.error (plan.error interrupt), ({ w with now := time } : World ε σ)⟩ := by
  have known := attended.now c cancelled
  rcases limit_cases plan.deadline w.handle w.now with ⟨reached, late⟩ | ⟨c', same, early, reached⟩
  · rw [reached] at limited
    obtain ⟨rfl, rfl⟩ := Prod.mk.inj limited
    have late := late c cancelled
    rcases Nat.lt_or_ge plan.deadline (max c start) with before | after
    · refine .before before ?_
      rintro ⟨⟩
    · have there : plan.deadline = max c start := by omega
      exact .deadline there (Nat.le_of_eq there) rfl
  · rw [reached] at limited
    obtain ⟨rfl, rfl⟩ := Prod.mk.inj limited
    rw [cancelled] at same
    obtain rfl := Option.some.inj same
    have there : max c w.now = max c start := by omega
    refine .cancelled there ?_ undecided rfl
    rw [← there]
    exact early

/-- The last move of a wait whose handle cancels at `c`. With the calls before it, each way to end
is one of the cases of `Cut`. -/
theorem Attended.done {w' : World ε σ} {result : Except Error Outcome}
    (attended : Attended handle start w) (paced : Paced plan start w phase)
    (trace : Trace plan w.calls phase) (move : Move plan w phase (.done w' result)) :
    Attended handle start w' ∧
      ∀ c, w'.handle.cancelledAt = some c → Cut plan handle c (max c start) ⟨result, w'⟩ := by
  have before : ∀ call ∈ w.calls, call.time ≤ w.now := fun call mem => (paced.calls call mem).2.1
  cases move with
  | @resolved base head hash pending arrival reply v time status receipt isOpen arrives settled
      answer reported =>
    have attended' := attended.arrives before isOpen arrives
    refine ⟨attended'.settled settled, ?_⟩
    intro c cancelled
    change v.handle.cancelledAt = some c at cancelled
    have known := cancelled
    rw [arrives.handle] at known
    have settled := settle_before settled cancelled
    rw [arrives.now] at settled
    rcases Handle.act_cancels known with earlier | ⟨uncancelled, rfl, action⟩
    · -- the cancellation is still to come
      refine .before ?_ ?_
      · have early := isOpen.lt_cancelled earlier
        change time < _
        omega
      · rintro ⟨⟩
    · -- the lookup made the handle cancel
      obtain ⟨atOnce, rfl⟩ : reply.delay = some 0 ∧ time = w.now := by
        rcases settled with now | ⟨late, early⟩
        · exact now
        · omega
      have instant : max w.now start = w.now := Nat.max_eq_left paced.started
      rw [instant]
      refine .resolved ⟨status, receipt⟩ rfl isOpen.lt_deadline ?_ rfl
      have time : arrival = w.now := arrives.time
      refine ⟨hash, reply, w.calls, ?_, ?_, action, atOnce, answer, reported⟩
      · rw [← time]
        exact arrives.calls
      · rw [← attended.current]
        exact uncancelled
  | stopped closed =>
    refine ⟨attended, ?_⟩
    intro c cancelled
    -- the limit is reached just now
    have reached : (limit plan.deadline w.handle w.now).1 = w.now := by
      refine Nat.le_antisymm (Nat.not_lt.mp closed) ?_
      rcases limit_cases plan.deadline w.handle w.now with ⟨eq, -⟩ | ⟨c, -, -, eq⟩
      · rw [eq]
        exact paced.inTime
      · rw [eq]
        exact Nat.le_max_right ..
    exact attended.cut paced.started cancelled (Prod.ext reached rfl) fun _ => trace.not_decided
  | @unanswered _ call v time interrupt isOpen arrives settled asks =>
    obtain ⟨limited, late⟩ := settle_interrupted settled
    have attended' := attended.arrives before isOpen arrives
    refine ⟨attended'.limited limited, ?_⟩
    intro c cancelled
    refine attended'.cut ?_ cancelled limited ?_
    · rw [arrives.now]
      exact paced.started
    · rw [arrives.calls]
      exact fun _ => not_decided_of_delay fun zero => Nat.lt_irrefl 0 (late 0 zero).1
  | roused isOpen settled =>
    obtain ⟨limited, -⟩ := settle_interrupted settled
    exact ⟨attended.limited limited, fun c cancelled =>
      attended.cut paced.started cancelled limited fun _ => trace.not_decided⟩

end

/-! ## Handles that do not cancel -/

/-- A world without its handle. -/
def World.unsignalled (w : World ε σ) : World ε σ :=
  { w with handle := .never }

namespace Next

/-- What a step leads to without the handle. -/
def unsignalled : Next ε σ → Next ε σ
  | .more w phase => .more w.unsignalled phase
  | .done w result => .done w.unsignalled result

/-- The world that a step leads to. -/
def world : Next ε σ → World ε σ
  | .more w _ | .done w _ => w

end Next

/-- Nobody makes a handle cancel that nobody holds. -/
theorem Handle.act_never (now : ℕ) (action : Option HandleAction) :
    Handle.never.act now action = .never := by
  cases action with
  | none => rfl
  | some action => cases action <;> rfl

/-- A handle that has not cancelled limits a wait as no handle does: by the deadline alone. -/
theorem limit_never {handle : Handle} (uncancelled : handle.cancelledAt = none)
    (deadline now : ℕ) : limit deadline .never now = limit deadline handle now := by
  rw [limit_of_uncancelled uncancelled, limit_of_uncancelled rfl]

/-- What goes on in the same way whatever the handle is, and leaves it alone. Answers are processed
like this; the handle only matters while something is waited for. -/
structure Deaf (next : World ε σ → Next ε σ) : Prop where
  commutes : ∀ w, next w.unsignalled = (next w).unsignalled
  keeps : ∀ w, (next w).world.handle = w.handle

section

variable {plan : Plan} {chain : Chain ε σ} {w : World ε σ} {phase : Phase}

/-- An answer does not change the world that it comes to. -/
theorem Plan.afterHead_world (base : Option BlockNumber) (reply : Reply ε BlockNumber)
    (w : World ε σ) : (plan.afterHead base reply w).world = w := by
  rw [afterHead]
  cases reply.answer <;> rfl

theorem afterLogs_world (base head : BlockNumber) (reply : Reply ε (List Log)) (w : World ε σ) :
    (afterLogs base head reply w).world = w := by
  rw [afterLogs]
  cases reply.answer <;> rfl

theorem Plan.afterReceipt_world (base head : BlockNumber) (pending : List Hash)
    (reply : Reply ε (Option Receipt)) (w : World ε σ) :
    (plan.afterReceipt base head pending reply w).world = w := by
  rw [afterReceipt]
  rcases reply.answer with e | _ | receipt
  · rfl
  · rfl
  · simp only
    cases plan.classify receipt <;> rfl

theorem Plan.afterHead_deaf (base : Option BlockNumber) (reply : Reply ε BlockNumber) :
    Deaf (plan.afterHead base reply : World ε σ → Next ε σ) where
  commutes w := by
    rw [afterHead, afterHead]
    cases reply.answer <;> rfl
  keeps w := by rw [afterHead_world]

theorem afterLogs_deaf (base head : BlockNumber) (reply : Reply ε (List Log)) :
    Deaf (afterLogs base head reply : World ε σ → Next ε σ) where
  commutes w := by
    rw [afterLogs, afterLogs]
    cases reply.answer <;> rfl
  keeps w := by rw [afterLogs_world]

theorem Plan.afterReceipt_deaf (base head : BlockNumber) (pending : List Hash)
    (reply : Reply ε (Option Receipt)) :
    Deaf (plan.afterReceipt base head pending reply : World ε σ → Next ε σ) where
  commutes w := by
    rw [afterReceipt, afterReceipt]
    rcases reply.answer with e | _ | receipt
    · rfl
    · rfl
    · simp only
      cases plan.classify receipt <;> rfl
  keeps w := by rw [afterReceipt_world]

/-- Waiting without the handle is waiting with one that has not cancelled. Where it ends, the handle
has still not cancelled, so that it did not end the waiting. -/
theorem Deaf.await {next : World ε σ → Next ε σ} (deaf : Deaf next) {delay : Option ℕ}
    (uncancelled : (w.await plan delay next).world.handle.cancelledAt = none) :
    w.unsignalled.await plan delay next = (w.await plan delay next).unsignalled := by
  have kept : (w.await plan delay next).world.handle = w.handle := by
    obtain ⟨time, -, taken⟩ | ⟨time, interrupt, -, taken⟩ := await_cases plan w delay next
    · rw [taken]
      exact deaf.keeps _
    · rw [taken]
      rfl
  rw [kept] at uncancelled
  have same : settle plan.deadline w.unsignalled.handle w.unsignalled.now delay =
      settle plan.deadline w.handle w.now delay := by
    change settle plan.deadline .never w.now delay = _
    rw [settle.eq_def, settle.eq_def, limit_never uncancelled]
  rw [World.await, World.await, same]
  rcases settle plan.deadline w.handle w.now delay with ⟨time, _ | interrupt⟩
  · exact deaf.commutes { w with now := time }
  · rfl

/-- The handle only matters to a call if it cancels. A call that drops it, or does nothing to it,
leads to the same as without a handle. -/
theorem ask_unsignalled {α : Type} {query : ℕ → σ → Reply ε α × σ}
    {record : ℕ → Reply ε α → ChainCall ε} {next : Reply ε α → World ε σ → Next ε σ}
    (deaf : ∀ reply, Deaf (next reply))
    (uncancelled : ((w.ask query record).2.await plan (w.ask query record).1.delay
      (next (w.ask query record).1)).world.handle.cancelledAt = none) :
    (w.unsignalled.ask query record).2.await plan (w.unsignalled.ask query record).1.delay
        (next (w.unsignalled.ask query record).1) =
      ((w.ask query record).2.await plan (w.ask query record).1.delay
        (next (w.ask query record).1)).unsignalled := by
  have asked : w.unsignalled.ask query record =
      ((w.ask query record).1, (w.ask query record).2.unsignalled) := by
    simp only [World.ask, World.unsignalled, Handle.act_never]
  rw [asked]
  exact (deaf _).await uncancelled

/-- A handle that has cancelled stays so through a move. -/
theorem Move.cancelled {next : Next ε σ} (move : Move plan w phase next) {c : ℕ}
    (cancelled : w.handle.cancelledAt = some c) : next.world.handle.cancelledAt = some c := by
  cases move with
  | answered isOpen arrives | resolved isOpen arrives | unanswered isOpen arrives =>
    exact (congrArg Handle.cancelledAt arrives.handle).trans (Handle.act_of_cancelled cancelled ..)
  | scanned | resumed | stopped | roused => exact cancelled

/-- A handle that has not cancelled after a move had not before. So if it has not at the end of a
run, it had not at any step. -/
theorem Move.uncancelled {next : Next ε σ} (move : Move plan w phase next)
    (uncancelled : next.world.handle.cancelledAt = none) : w.handle.cancelledAt = none := by
  rw [Option.eq_none_iff_forall_ne_some]
  intro c cancelled
  rw [move.cancelled cancelled] at uncancelled
  cases uncancelled

/-- A step without the handle is the step with one that does not cancel. Each phase is a case of
`ask_unsignalled` or of `Deaf.await`. -/
theorem step_unsignalled
    (uncancelled : (step plan chain w phase).world.handle.cancelledAt = none) :
    step plan chain w.unsignalled phase = (step plan chain w phase).unsignalled := by
  have limited : limit plan.deadline w.unsignalled.handle w.unsignalled.now =
      limit plan.deadline w.handle w.now :=
    limit_never ((step_move plan chain w phase).uncancelled uncancelled) ..
  have same : plan.Open w.unsignalled ↔ plan.Open w := by
    rw [Plan.Open, Plan.Open, limited]
    rfl
  by_cases isOpen : plan.Open w
  · have isOpen' := same.mpr isOpen
    cases phase with
    | head base =>
      rw [step_head chain isOpen] at uncancelled ⊢
      rw [step_head chain isOpen']
      exact ask_unsignalled (Plan.afterHead_deaf base) uncancelled
    | logs base head =>
      rw [step_logs chain isOpen] at uncancelled ⊢
      rw [step_logs chain isOpen']
      exact ask_unsignalled (afterLogs_deaf base head) uncancelled
    | receipts base head pending =>
      cases pending with
      | nil =>
        rw [step_scanned chain isOpen, step_scanned chain isOpen']
        rfl
      | cons hash pending =>
        rw [step_receipt chain isOpen] at uncancelled ⊢
        rw [step_receipt chain isOpen']
        exact ask_unsignalled (Plan.afterReceipt_deaf base head pending) uncancelled
    | pause base =>
      rw [step_resumed chain isOpen] at uncancelled ⊢
      rw [step_resumed chain isOpen']
      exact Deaf.await ⟨fun _ => rfl, fun _ => rfl⟩ uncancelled
  · rw [step_of_not_open chain phase isOpen, step_of_not_open chain phase (same.not.mpr isOpen),
      limited]
    rfl

/-- A handle that has cancelled stays so through a run. -/
theorem run_cancelled {c : ℕ} (cancelled : w.handle.cancelledAt = some c) :
    (run plan chain w phase).world.handle.cancelledAt = some c :=
  run_of_invariant (fun w _ => w.handle.cancelledAt = some c)
    (fun e => e.world.handle.cancelledAt = some c)
    (fun cancelled move => move.cancelled cancelled)
    (fun cancelled move => move.cancelled cancelled) w phase cancelled

/-- A run without the handle is the run with one that does not cancel. The condition is on the end
of the run, and `run_cancelled` takes it back to each step. -/
theorem run_unsignalled (uncancelled : (run plan chain w phase).world.handle.cancelledAt = none) :
    run plan chain w.unsignalled phase =
      ⟨(run plan chain w phase).result, (run plan chain w phase).world.unsignalled⟩ := by
  induction w, phase using run.induct plan chain with
  | case1 w phase w' result taken =>
    rw [run, taken] at uncancelled
    have stepped : step plan chain w.unsignalled phase = .done w'.unsignalled result := by
      rw [step_unsignalled (by rw [taken]; exact uncancelled), taken]
      rfl
    rw [run, stepped, run, taken]
  | case2 w phase w' phase' taken ih =>
    rw [run, taken] at uncancelled
    have before : w'.handle.cancelledAt = none := by
      rw [Option.eq_none_iff_forall_ne_some]
      intro c cancelled
      rw [run_cancelled cancelled] at uncancelled
      cases uncancelled
    have stepped : step plan chain w.unsignalled phase = .more w'.unsignalled phase' := by
      rw [step_unsignalled (by rw [taken]; exact before), taken]
      rfl
    rw [run, stepped, run, taken]
    exact ih uncancelled

end

/-! ## Waits -/

/-- A wait with a handle, against the same wait without one. -/
structure Heeds (plan : Plan) (handle : Handle) (start : ℕ) (e plain : Ending ε σ) : Prop where
  /-- nothing but the calls has changed the handle -/
  current : e.world.handle = handle.after e.world.calls
  /-- no call arrived when the handle had cancelled -/
  attentive : ∀ call earlier, call :: earlier <:+ e.world.calls →
    (handle.after earlier).isCancelled call.time = false
  calls : ∀ c, e.world.handle.cancelledAt = some c → ∀ call ∈ e.world.calls, call.time ≤ c
  cut : ∀ c, e.world.handle.cancelledAt = some c → Cut plan handle c (max c start) e
  /-- a handle that was given up without having cancelled does not cancel -/
  dropped : ∀ earlier, earlier <:+ e.world.calls → (handle.after earlier).held = false →
    (handle.after earlier).cancelledAt = none → e.world.handle.cancelledAt = none
  /-- a handle that does not cancel makes no difference, whether it is held, was given up at some
  moment or never existed -/
  uncancelled : e.world.handle.cancelledAt = none →
    e.result = plain.result ∧ e.world.now = plain.world.now ∧ e.world.calls = plain.world.calls

/-- What a wait knows of its handle when it ends, and how the end depends on a cancellation. The
invariant is that of the handle together with the pace and the trace of the calls. -/
theorem wait_attended (waiter : Waiter) (chain : Chain ε σ) (id : Identifier)
    (timeout : Option Duration) (handle : Handle) (now : ℕ) (state : σ) :
    Attended handle now (waiter.wait chain id timeout handle now state).world ∧
      ∀ c, (waiter.wait chain id timeout handle now state).world.handle.cancelledAt = some c →
        Cut (waiter.plan id timeout now) handle c (max c now)
          (waiter.wait chain id timeout handle now state) := by
  have opening : Attended handle now ({ now, handle, chain := state } : World ε σ) := by
    refine ⟨rfl, ?_, ?_, fun c _ => Nat.le_max_right ..⟩
    · intro call earlier suffix
      cases List.suffix_nil.mp suffix
    · rintro c - call ⟨⟩
  exact run_of_invariant
    (fun w phase => Attended handle now w ∧ Paced (waiter.plan id timeout now) now w phase ∧
      Trace (waiter.plan id timeout now) w.calls phase)
    (fun e => Attended handle now e.world ∧ ∀ c, e.world.handle.cancelledAt = some c →
      Cut (waiter.plan id timeout now) handle c (max c now) e)
    (fun ⟨attended, paced, trace⟩ move =>
      ⟨attended.move (fun call mem => (paced.calls call mem).2.1) move, paced.move move,
        trace.move move⟩)
    (fun ⟨attended, paced, trace⟩ move => attended.done paced trace move) _ _
    ⟨opening, waiter.paced id timeout handle now state, .start⟩

/-- Every wait heeds its handle: a cancellation ends it at once, and a handle that does not cancel
makes no difference. It does not matter where the wait stands when the cancellation comes, nor
whether it comes from outside or with a call of the wait's own. -/
theorem cancellation_is_immediate (waiter : Waiter) (chain : Chain ε σ) (id : Identifier)
    (timeout : Option Duration) (handle : Handle) (now : ℕ) (state : σ) :
    Heeds (waiter.plan id timeout now) handle now
      (waiter.wait chain id timeout handle now state)
      (waiter.wait chain id timeout .never now state) := by
  obtain ⟨attended, cut⟩ := wait_attended waiter chain id timeout handle now state
  refine ⟨attended.current, attended.attentive, attended.calls, cut, ?_, ?_⟩
  · intro earlier suffix dropped uncancelled
    rw [attended.current]
    exact Handle.after_of_dropped suffix dropped uncancelled
  · intro uncancelled
    have plain := run_unsignalled uncancelled
    exact ⟨(congrArg Ending.result plain).symm, (congrArg (·.world.now) plain).symm,
      (congrArg (·.world.calls) plain).symm⟩

namespace Sample

/-- The lookup of the sample receipt makes the handle cancel and takes some time. -/
def cancelling (latency : ℕ) : Script where
  heads := [10]
  logs := [{ item := nonceLog }]
  receipts := [{ item := receipt }]
  faults := [{ call := 2, latency, action := some .cancel }]

/-- The receipt decides if it is answered at once, and comes too late otherwise. -/
example :
    (waiter.wait (cancelling 0).chain identifier none {} 0 {}).result = .ok ⟨.executed, receipt⟩ ∧
      (waiter.wait (cancelling 1).chain identifier none {} 0 {}).result =
        .error (.cancelled identifier) :=
  ⟨Confirmation.of_runFor (P := fun _ e => e.result = .ok ⟨.executed, receipt⟩) 3
      (by decide +kernel),
    Confirmation.of_runFor (P := fun _ e => e.result = .error (.cancelled identifier)) 3
      (by decide +kernel)⟩

end Sample

end MetaTransaction.Confirmation
