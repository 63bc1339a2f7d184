import Mathlib.Algebra.Order.Floor.Div
import MetaTransaction.Proofs.Confirmation.Trace

/-!
# Deadlines

A wait ends by its deadline, whatever the chain answers and whenever the handle cancels. Nothing
counts its rounds: the clock does, since each round but the first comes after a pause that takes
time.

* `limit_cases` — what interrupts a wait, and when;
* `run_of_invariant` — what holds at the start of a run and is kept by each move holds at its end;
* `Timely.move` — a move keeps the calls before the deadline and the rounds one pause apart;
* `wait_ends_by_deadline` — the statement for every wait.
-/

namespace MetaTransaction

/-! ## Instants and durations -/

/-- An instant of the clock comes before the end of a duration just when the clock has not reached
the tick that ends it. -/
theorem Duration.lt_ticks_iff {n : ℕ} {d : Duration} :
    n < d.ticks ↔ n * 1000000 < d.nanoseconds := by
  rw [ticks]
  omega

namespace Confirmation

variable {ε σ : Type}

/-- The longest time that a wait may take: its timeout, or thirty years when the clock cannot tell
the timeout. -/
def allowance (timeout : Duration) : Duration :=
  if timeout.seconds < Nat.pow 2 63 then timeout else .ofSeconds (30 * 365 * 86400)

theorem deadlineAfter_eq (now : ℕ) (timeout : Duration) :
    deadlineAfter now timeout = now + (allowance timeout).ticks := by
  rw [deadlineAfter, allowance]
  split
  · rfl
  · rfl

/-! ## Interruptions -/

/-- What interrupts a wait is the deadline, or a cancellation that comes before it. Of both at one
instant it is the deadline. -/
theorem limit_cases (deadline : ℕ) (handle : Handle) (now : ℕ) :
    limit deadline handle now = (deadline, .deadline) ∧
        (∀ c, handle.cancelledAt = some c → deadline ≤ max c now) ∨
      ∃ c, handle.cancelledAt = some c ∧ max c now < deadline ∧
        limit deadline handle now = (max c now, .cancelled) := by
  cases cancelled : handle.cancelledAt with
  | none =>
    refine .inl ⟨limit_of_uncancelled cancelled .., ?_⟩
    rintro c ⟨⟩
  | some c =>
    rw [limit, cancelled]
    by_cases early : max c now < deadline
    · exact .inr ⟨c, rfl, early, if_pos early⟩
    · refine .inl ⟨if_neg early, ?_⟩
      intro c' same
      obtain rfl := Option.some.inj same
      exact Nat.le_of_not_lt early

/-- The deadline interrupts at its instant, and not before. -/
theorem eq_of_limit_deadline {deadline now time : ℕ} {handle : Handle}
    (h : limit deadline handle now = (time, .deadline)) : time = deadline := by
  rcases limit_cases deadline handle now with ⟨reached, -⟩ | ⟨c, -, -, reached⟩
  · rw [reached] at h
    exact (congrArg Prod.fst h).symm
  · rw [reached] at h
    cases h

/-- An open wait has not reached its deadline. -/
theorem Plan.Open.lt_deadline {plan : Plan} {w : World ε σ} (isOpen : plan.Open w) :
    w.now < plan.deadline :=
  Nat.lt_of_lt_of_le isOpen (limit_le ..)

/-! ## Runs -/

/-- What holds at the start of a run and is kept by each move that goes on, holds at its end in the
form that the last move gives it. This is the one induction over runs that statements about a single
wait need: such a statement only has to say what a move keeps and what the last one makes of it. -/
theorem run_of_invariant {plan : Plan} {chain : Chain ε σ} (Inv : World ε σ → Phase → Prop)
    (Post : Ending ε σ → Prop)
    (more : ∀ {w phase w' phase'}, Inv w phase → Move plan w phase (.more w' phase') →
      Inv w' phase')
    (done : ∀ {w phase w' result}, Inv w phase → Move plan w phase (.done w' result) →
      Post ⟨result, w'⟩)
    (w : World ε σ) (phase : Phase) (start : Inv w phase) : Post (run plan chain w phase) := by
  induction w, phase using run.induct plan chain with
  | case1 w phase w' result taken =>
    rw [run, taken]
    exact done start (taken ▸ step_move plan chain w phase)
  | case2 w phase w' phase' taken ih =>
    rw [run, taken]
    exact ih (more start (taken ▸ step_move plan chain w phase))

/-- A run ends after finitely many steps. The run itself is defined by well-founded recursion, and
this states the same of the steps that can be counted. -/
theorem exists_runFor (plan : Plan) (chain : Chain ε σ) (w : World ε σ) (phase : Phase) :
    ∃ n, runFor plan chain n w phase =
      some (answered plan chain w phase, run plan chain w phase) := by
  induction w, phase using run.induct plan chain with
  | case1 w phase w' result taken =>
    refine ⟨1, ?_⟩
    rw [runFor, run, answered, taken]
    cases result with
    | ok outcome => rfl
    | error e => rfl
  | case2 w phase w' phase' taken ih =>
    obtain ⟨n, ended⟩ := ih
    refine ⟨n + 1, ?_⟩
    rw [runFor, run, answered, taken]
    exact ended

/-! ## Rounds -/

/-- Whether a call asks for the head. -/
def ChainCall.isHead : ChainCall ε → Bool
  | .head _ _ => true
  | _ => false

/-- The number of rounds in which the head was asked for. -/
def rounds (calls : List (ChainCall ε)) : ℕ :=
  calls.countP ChainCall.isHead

/-- The number of pauses before a phase, when the head was asked for `n` times: the latest round has
not been paused for yet, unless its pause is over. -/
def Phase.pauses (n : ℕ) : Phase → ℕ
  | .head _ => n
  | _ => n - 1

/-- Asking for the head starts a round, and no other call does. In either case the pauses that were
made before the call are those of its phase. -/
theorem Asks.rounds_cons {plan : Plan} {phase : Phase} {call : ChainCall ε}
    (asks : Asks plan phase call) (calls : List (ChainCall ε)) :
    rounds (call :: calls) - 1 = phase.pauses (rounds calls) := by
  cases asks with
  | head =>
    rw [rounds, List.countP_cons_of_pos rfl, Nat.add_sub_cancel]
    rfl
  | logs => rfl
  | receipt => rfl

theorem Follows.asks {plan : Plan} {phase next : Phase} {call : ChainCall ε}
    (follows : Follows plan phase call next) : Asks plan phase call := by
  cases follows with
  | headFailed | headFound => exact .head
  | logsFailed | logsFound => exact .logs
  | receiptFailed | receiptPassed => exact .receipt

/-- No answer leads to the start of a round: between two of them there is a pause. -/
theorem Follows.pauses {plan : Plan} {phase next : Phase} {call : ChainCall ε}
    (follows : Follows plan phase call next) (n : ℕ) : next.pauses n = n - 1 := by
  cases follows <;> rfl

/-- A world in a wait that started at `start`: its calls came before the deadline, and its rounds
are at least one pause apart. This is the part of the invariant that also holds where a wait
ends. -/
structure Timely (plan : Plan) (start : ℕ) (w : World ε σ) : Prop where
  started : start ≤ w.now
  inTime : w.now ≤ plan.deadline
  calls : ∀ call ∈ w.calls, start ≤ call.time ∧ call.time ≤ w.now ∧ call.time < plan.deadline
  /-- the last round started before the deadline, after all pauses before it -/
  apart : rounds w.calls ≠ 0 →
    start + (rounds w.calls - 1) * plan.settings.pollInterval.ticks < plan.deadline

/-- A timely world whose clock has counted all pauses before the phase. While a wait goes on this
gives the bound on rounds that the next call to the head needs. -/
structure Paced (plan : Plan) (start : ℕ) (w : World ε σ) (phase : Phase) : Prop
    extends Timely plan start w where
  paced : start + phase.pauses (rounds w.calls) * plan.settings.pollInterval.ticks ≤ w.now

section

variable {plan : Plan} {start : ℕ} {w v : World ε σ} {phase : Phase} {call : ChainCall ε}

/-- A wait that goes on has not reached its deadline, even if it waited for a reply just before. -/
theorem settle_lt_deadline {now time : ℕ} {handle : Handle} {delay : Option ℕ}
    (early : now < plan.deadline) (h : settle plan.deadline handle now delay = (time, none)) :
    now ≤ time ∧ time < plan.deadline := by
  rcases settle_none h with ⟨-, rfl⟩ | ⟨ticks, -, -, late, before⟩
  · exact ⟨Nat.le_refl _, early⟩
  · exact ⟨by omega, Nat.lt_of_lt_of_le before (limit_le ..)⟩

/-- A call that arrives in an open wait keeps the world timely, at whatever instant up to the
deadline its answer comes. That covers the reply that comes too late as well as the one that leads
on. -/
theorem Paced.arrives (paced : Paced plan start w phase) (isOpen : plan.Open w)
    (arrives : Arrives w call v) (asks : Asks plan phase call) {time : ℕ} (late : w.now ≤ time)
    (inTime : time ≤ plan.deadline) : Timely plan start { v with now := time } where
  started := Nat.le_trans paced.started late
  inTime := inTime
  calls := by
    have early := isOpen.lt_deadline
    change ∀ earlier ∈ v.calls, start ≤ earlier.time ∧ earlier.time ≤ time ∧ _
    rw [arrives.calls]
    intro earlier mem
    rcases List.mem_cons.mp mem with rfl | mem
    · rw [arrives.time]
      exact ⟨paced.started, late, early⟩
    · obtain ⟨after, before, inTime⟩ := paced.calls earlier mem
      exact ⟨after, Nat.le_trans before late, inTime⟩
  apart := by
    -- the clock stands where all pauses are over, and the deadline is still to come
    intro _
    change start + (rounds v.calls - 1) * _ < _
    rw [arrives.calls, asks.rounds_cons]
    exact Nat.lt_of_le_of_lt paced.paced isOpen.lt_deadline

/-- A later instant up to the deadline keeps a world timely, since it makes no call. -/
theorem Timely.later (timely : Timely plan start w) {time : ℕ} (late : w.now ≤ time)
    (inTime : time ≤ plan.deadline) : Timely plan start { w with now := time } where
  started := Nat.le_trans timely.started late
  inTime := inTime
  calls := by
    intro call mem
    obtain ⟨after, before, early⟩ := timely.calls call mem
    exact ⟨after, Nat.le_trans before late, early⟩
  apart := timely.apart

/-- A limit that an open wait has before it lies at the deadline or before. -/
theorem limit_between {now time : ℕ} {handle : Handle} {interrupt : Interrupt}
    (early : now < plan.deadline)
    (h : limit plan.deadline handle now = (time, interrupt)) :
    now ≤ time ∧ time ≤ plan.deadline := by
  rcases limit_cases plan.deadline handle now with ⟨reached, -⟩ | ⟨c, -, before, reached⟩
  · rw [reached] at h
    cases h
    exact ⟨Nat.le_of_lt early, Nat.le_refl _⟩
  · rw [reached] at h
    cases h
    exact ⟨Nat.le_max_right .., Nat.le_of_lt before⟩

/-- A move that goes on keeps the pace. Only the pause changes what the clock must have counted, and
it takes the poll interval. -/
theorem Paced.move {w' : World ε σ} {phase' : Phase} (paced : Paced plan start w phase)
    (move : Move plan w phase (.more w' phase')) : Paced plan start w' phase' := by
  cases move with
  | @answered _ call v time _ isOpen arrives settled follows =>
    rw [arrives.now] at settled
    obtain ⟨late, early⟩ := settle_lt_deadline isOpen.lt_deadline settled
    refine ⟨paced.arrives isOpen arrives follows.asks late (Nat.le_of_lt early), ?_⟩
    change start + phase'.pauses (rounds v.calls) * _ ≤ time
    rw [follows.pauses, arrives.calls, follows.asks.rounds_cons]
    exact Nat.le_trans paced.paced late
  | scanned => exact ⟨paced.toTimely, paced.paced⟩
  | @resumed base time isOpen settled =>
    obtain ⟨late, early⟩ := settle_lt_deadline isOpen.lt_deadline settled
    refine ⟨paced.toTimely.later late (Nat.le_of_lt early), ?_⟩
    -- the pause makes up for the round that starts
    have positive := plan.settings.pollInterval_pos plan.valid
    have before : start + (rounds w.calls - 1) * plan.settings.pollInterval.ticks ≤ w.now :=
      paced.paced
    change start + rounds w.calls * plan.settings.pollInterval.ticks ≤ time
    obtain ⟨zero, -⟩ | ⟨ticks, delayed, -, waited, -⟩ := settle_none settled
    · have zero := Option.some.inj zero
      omega
    · obtain rfl := Option.some.inj delayed
      cases counted : rounds w.calls with
      | zero =>
        rw [counted] at before
        omega
      | succ n =>
        rw [counted, Nat.add_sub_cancel] at before
        rw [Nat.succ_mul]
        omega

/-- What a timely wait has come to when it ends. -/
structure Closed (plan : Plan) (start : ℕ) (e : Ending ε σ) : Prop
    extends Timely plan start e.world where
  /-- the deadline is blamed for nothing before it, and under the names of the plan -/
  blamed : ∀ id timeout, e.result = .error (.deadlineExceeded id timeout) →
    e.world.now = plan.deadline ∧ id = plan.id ∧ timeout = plan.timeout
  resolved : ∀ outcome, e.result = .ok outcome → e.world.now < plan.deadline

/-- An interruption before the deadline is not blamed on it: the error names the deadline only if
the clock stands there. -/
theorem Closed.of_interrupt {interrupt : Interrupt} (timely : Timely plan start w)
    (reached : interrupt = .deadline → w.now = plan.deadline) :
    Closed plan start ⟨.error (plan.error interrupt), w⟩ where
  toTimely := timely
  blamed := by
    intro id timeout blamed
    cases interrupt with
    | deadline =>
      cases blamed
      exact ⟨reached rfl, rfl, rfl⟩
    | cancelled => cases blamed
  resolved := by
    rintro outcome ⟨⟩

/-- A move that ends the wait ends it in time, whether a receipt decides or something interrupts. -/
theorem Paced.done {w' : World ε σ} {result : Except Error Outcome}
    (paced : Paced plan start w phase) (move : Move plan w phase (.done w' result)) :
    Closed plan start ⟨result, w'⟩ := by
  cases move with
  | @resolved base head hash pending arrival reply v time status receipt isOpen arrives settled =>
    rw [arrives.now] at settled
    obtain ⟨late, early⟩ := settle_lt_deadline isOpen.lt_deadline settled
    refine ⟨paced.arrives isOpen arrives ?_ late (Nat.le_of_lt early), ?_, fun _ _ => early⟩
    · exact .receipt
    · rintro id timeout ⟨⟩
  | stopped closed =>
    refine .of_interrupt paced.toTimely ?_
    intro blamed
    rw [Plan.Open, Nat.not_lt] at closed
    have reached := eq_of_limit_deadline (Prod.ext rfl blamed)
    exact Nat.le_antisymm paced.inTime (reached ▸ closed)
  | @unanswered _ call v time interrupt isOpen arrives settled asks =>
    obtain ⟨reached, -⟩ := settle_interrupted settled
    rw [arrives.now] at reached
    obtain ⟨late, early⟩ := limit_between isOpen.lt_deadline reached
    refine .of_interrupt (paced.arrives isOpen arrives asks late early) ?_
    rintro rfl
    exact eq_of_limit_deadline reached
  | @roused base time interrupt isOpen settled =>
    obtain ⟨reached, -⟩ := settle_interrupted settled
    obtain ⟨late, early⟩ := limit_between isOpen.lt_deadline reached
    refine .of_interrupt (paced.toTimely.later late early) ?_
    rintro rfl
    exact eq_of_limit_deadline reached

end

/-- A run that starts in pace is closed in time. It is `run_of_invariant` with the pace as the
invariant. -/
theorem run_closed (plan : Plan) (chain : Chain ε σ) {start : ℕ} (w : World ε σ) (phase : Phase)
    (paced : Paced plan start w phase) : Closed plan start (run plan chain w phase) :=
  run_of_invariant (Paced plan start) (Closed plan start) Paced.move Paced.done w phase paced

/-! ## Waits -/

/-- A wait starts in pace: no time has passed, and nothing has been asked. -/
theorem Waiter.paced (waiter : Waiter) (id : Identifier) (timeout : Option Duration)
    (handle : Handle) (now : ℕ) (state : σ) :
    Paced (waiter.plan id timeout now) now ({ now, handle, chain := state } : World ε σ)
      (.head none) := by
  refine ⟨⟨Nat.le_refl _, ?_, ?_, absurd rfl⟩, ?_⟩
  · exact Nat.le_add_right ..
  · rintro call ⟨⟩
  · exact Nat.le_of_eq (congrArg (now + ·) (Nat.zero_mul _))

/-- A wait that started at `start`, was allowed to take `limit` and polled once a `poll`, ended in
time. The clock ticks in milliseconds. -/
structure EndsInTime (start : ℕ) (limit poll : Duration) (e : Ending ε σ) : Prop where
  started : start ≤ e.world.now
  elapsed : e.world.now - start ≤ limit.ticks
  /-- each call arrived strictly before the limit -/
  calls : ∀ call ∈ e.world.calls,
    start ≤ call.time ∧ (call.time - start) * 1000000 < limit.nanoseconds
  silent : limit.nanoseconds = 0 → e.world.calls = []
  /-- only a limit that is reached is reported as exceeded -/
  exceeded : ∀ id timeout, e.result = .error (.deadlineExceeded id timeout) →
    limit.nanoseconds ≤ (e.world.now - start) * 1000000
  resolved : ∀ outcome, e.result = .ok outcome →
    (e.world.now - start) * 1000000 < limit.nanoseconds
  rounds : rounds e.world.calls ≤ limit.nanoseconds ⌈/⌉ poll.nanoseconds

/-- Rounds that are a poll interval apart are few before the end of a duration. Both lengths are
rounded up to ticks, but the bound is on the durations as they were given. -/
theorem le_ceilDiv_of_lt_ticks {n : ℕ} {limit poll : Duration} (positive : 0 < poll.nanoseconds)
    (h : n ≠ 0 → (n - 1) * poll.ticks < limit.ticks) :
    n ≤ limit.nanoseconds ⌈/⌉ poll.nanoseconds := by
  cases n with
  | zero => exact Nat.zero_le _
  | succ n =>
    have early := Duration.lt_ticks_iff.mp (h (Nat.succ_ne_zero n))
    rw [Nat.add_sub_cancel] at early
    have long : poll.nanoseconds ≤ poll.ticks * 1000000 := by
      rw [Duration.ticks]
      omega
    by_contra few
    have enough : limit.nanoseconds ⌈/⌉ poll.nanoseconds ≤ n := by omega
    rw [ceilDiv_le_iff_le_mul positive, Nat.mul_comm] at enough
    have product : n * poll.nanoseconds ≤ n * poll.ticks * 1000000 := by
      rw [Nat.mul_assoc]
      exact Nat.mul_le_mul_left n long
    omega

/-- What is closed before a deadline `limit` ahead ends in time. Here ticks of the clock turn into
durations. -/
theorem Closed.endsInTime {plan : Plan} {start : ℕ} {limit : Duration} {e : Ending ε σ}
    (closed : Closed plan start e) (deadline : plan.deadline = start + limit.ticks) :
    EndsInTime start limit plan.settings.pollInterval e where
  started := closed.started
  elapsed := by
    have := closed.inTime
    omega
  calls := by
    intro call mem
    obtain ⟨after, -, early⟩ := closed.calls call mem
    refine ⟨after, Duration.lt_ticks_iff.mp ?_⟩
    omega
  silent := by
    intro zero
    rw [List.eq_nil_iff_forall_not_mem]
    intro call mem
    obtain ⟨after, -, early⟩ := closed.calls call mem
    have none : limit.ticks = 0 := by
      rw [Duration.ticks, zero]
    omega
  exceeded := by
    intro id timeout result
    obtain ⟨reached, -, -⟩ := closed.blamed id timeout result
    rw [← Nat.not_lt, ← Duration.lt_ticks_iff]
    omega
  resolved := by
    intro outcome result
    have early := closed.resolved outcome result
    rw [← Duration.lt_ticks_iff]
    have := closed.started
    omega
  rounds := by
    refine le_ceilDiv_of_lt_ticks (Nat.pos_of_ne_zero (Settings.pollInterval_ne_zero plan.valid)) ?_
    intro some
    have early := closed.apart some
    omega

/-- Every wait ends after finitely many steps and by its deadline, which is its timeout or thirty
years ahead. Its calls come before the deadline, it blames nothing else on it, and it asks for the
head at most once a poll interval. Nothing is assumed of the chain: it may answer late or never, and
the handle may do what it likes. -/
theorem wait_ends_by_deadline (waiter : Waiter) (chain : Chain ε σ) (id : Identifier)
    (timeout : Option Duration) (handle : Handle) (now : ℕ) (state : σ) :
    (∃ n, runFor (waiter.plan id timeout now) chain n { now, handle, chain := state } (.head none) =
        some (waiter.answered chain id timeout handle now state,
          waiter.wait chain id timeout handle now state)) ∧
      EndsInTime now (allowance (timeout.getD waiter.settings.defaultTimeout))
        waiter.settings.pollInterval (waiter.wait chain id timeout handle now state) ∧
      ∀ blamed limit, (waiter.wait chain id timeout handle now state).result =
          .error (.deadlineExceeded blamed limit) →
        blamed = id ∧ limit = timeout.getD waiter.settings.defaultTimeout := by
  have closed := run_closed _ chain _ _ (waiter.paced id timeout handle now state)
  exact ⟨exists_runFor .., closed.endsInTime (deadlineAfter_eq ..), fun _ _ blamed =>
    (closed.blamed _ _ blamed).2⟩

end Confirmation

end MetaTransaction
