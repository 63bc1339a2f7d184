import MetaTransaction.Proofs.Confirmation.Cancellation
import MetaTransaction.Proofs.Confirmation.Undisturbed

/-!
# Waits with another timeout

A timeout does nothing but cut a wait off. Under another deadline a wait makes the same steps as
long as they are over before it, and ends at it in the middle of the first one that is not. Which
calls had arrived by then is seen from the longer wait, since a run only adds calls, in the order of
time.

* `run_precedes` — the calls that a run adds arrive from its start on;
* `step_endingAt` — a step under another deadline is the same step, cut off there;
* `run_endingAt` — a run that resolves, under another deadline;
* `longer_timeout_keeps_outcome` — the statement for every wait.
-/

namespace MetaTransaction.Confirmation

variable {ε σ : Type}

/-! ## What a run adds -/

/-- From the world `w` on, a wait may get to `v`: time goes on, and calls are added that arrive from
then on. Runs are compared by this, without looking at the steps between the two worlds. -/
structure World.Precedes (w v : World ε σ) : Prop where
  now : w.now ≤ v.now
  calls : ∃ later, v.calls = later ++ w.calls ∧ ∀ call ∈ later, w.now ≤ call.time

section

variable {plan : Plan} {chain : Chain ε σ} {u v w : World ε σ} {phase : Phase}

theorem World.Precedes.refl (w : World ε σ) : w.Precedes w :=
  ⟨Nat.le_refl _, [], rfl, fun _ mem => absurd mem List.not_mem_nil⟩

theorem World.Precedes.trans (first : u.Precedes v) (second : v.Precedes w) : u.Precedes w := by
  obtain ⟨earlier, added, arrived⟩ := first.calls
  obtain ⟨later, added', arrived'⟩ := second.calls
  refine ⟨first.now.trans second.now, later ++ earlier, ?_, ?_⟩
  · rw [added', added, List.append_assoc]
  · intro call mem
    rcases List.mem_append.mp mem with mem | mem
    · exact first.now.trans (arrived' call mem)
    · exact arrived call mem

theorem World.Precedes.suffix (precedes : w.Precedes v) : w.calls <:+ v.calls := by
  obtain ⟨later, added, -⟩ := precedes.calls
  exact ⟨later, added.symm⟩

/-- A call that arrives is added at the present instant. -/
theorem Arrives.precedes {call : ChainCall ε} (arrives : Arrives w call v) {time : ℕ}
    (late : w.now ≤ time) : w.Precedes { v with now := time } := by
  refine ⟨late, [call], arrives.calls, ?_⟩
  intro other mem
  rw [List.mem_singleton.mp mem, arrives.time]

/-- Each move leads on from the world that it starts in, whether it ends the wait or not. -/
theorem Move.precedes {next : Next ε σ} (move : Move plan w phase next) :
    w.Precedes next.world := by
  cases move with
  | answered isOpen arrives settled | resolved isOpen arrives settled =>
    rw [arrives.now] at settled
    exact arrives.precedes (settle_lt_deadline isOpen.lt_deadline settled).1
  | unanswered isOpen arrives settled =>
    rw [arrives.now] at settled
    have reached := (settle_interrupted settled).1
    exact arrives.precedes (limit_between isOpen.lt_deadline reached).1
  | resumed isOpen settled =>
    exact ⟨(settle_lt_deadline isOpen.lt_deadline settled).1, (World.Precedes.refl w).calls⟩
  | roused isOpen settled =>
    have reached := (settle_interrupted settled).1
    exact ⟨(limit_between isOpen.lt_deadline reached).1, (World.Precedes.refl w).calls⟩
  | scanned | stopped => exact .refl w

theorem run_precedes (plan : Plan) (chain : Chain ε σ) (w : World ε σ) (phase : Phase) :
    w.Precedes (run plan chain w phase).world :=
  run_of_invariant (fun v _ => w.Precedes v) (fun e => w.Precedes e.world)
    (fun precedes move => precedes.trans move.precedes)
    (fun precedes move => precedes.trans move.precedes) w phase (.refl w)

/-- The calls before an instant, seen from a world that comes after it: those that had been made in
a world at or after the instant, if none of them arrived later. -/
theorem World.Precedes.filter {instant : ℕ} (precedes : w.Precedes v) (late : instant ≤ w.now)
    (before : ∀ call ∈ w.calls, call.time < instant) :
    v.calls.filter (·.time < instant) = w.calls := by
  obtain ⟨later, added, arrived⟩ := precedes.calls
  have none : later.filter (·.time < instant) = [] := by
    rw [List.filter_eq_nil_iff]
    intro call mem
    have := arrived call mem
    rw [decide_eq_true_eq]
    omega
  have all : w.calls.filter (·.time < instant) = w.calls := by
    rw [List.filter_eq_self]
    exact fun call mem => decide_eq_true (before call mem)
  rw [added, List.filter_append, none, all, List.nil_append]

end

/-! ## Steps under another deadline -/

/-- The plan with another timeout, and the deadline that it gives. -/
def Plan.endingAt (plan : Plan) (timeout : Duration) (deadline : ℕ) : Plan :=
  { plan with timeout, deadline }

/-- A step as it is when the wait ends at the instant with the error. A step that is over in time
stays as it is, and otherwise the call that it made is kept, but its answer is not. -/
def Next.cutOff (next : Next ε σ) (instant : ℕ) (error : Error) : Next ε σ :=
  if next.world.now < instant then next
  else .done { next.world with now := instant } (.error error)

theorem Next.cutOff_of_lt {next : Next ε σ} {instant : ℕ} (inTime : next.world.now < instant)
    (error : Error) : next.cutOff instant error = next :=
  if_pos inTime

theorem Next.cutOff_of_le {next : Next ε σ} {instant : ℕ} (late : instant ≤ next.world.now)
    (error : Error) :
    next.cutOff instant error = .done { next.world with now := instant } (.error error) :=
  if_neg (Nat.not_lt.mpr late)

/-- What is over in time under one deadline is over at the same instant under another one, or that
deadline interrupts it. A cancellation cannot come first, since it would have under the first
deadline too. -/
theorem settle_of_settled {deadline deadline' now time : ℕ} {handle : Handle} {delay : Option ℕ}
    (settled : settle deadline handle now delay = (time, none)) (early : now < deadline') :
    settle deadline' handle now delay =
      if time < deadline' then (time, none) else (deadline', some .deadline) := by
  rcases settle_none settled with ⟨rfl, rfl⟩ | ⟨ticks, rfl, positive, rfl, before⟩
  · rw [if_pos early]
    rfl
  · rw [settle_of_pos positive]
    rcases limit_cases deadline' handle now with ⟨reached, -⟩ | ⟨c, cancelled, sooner, reached⟩
    · rw [reached]
    · -- the cancellation is still to come when the waiting is over
      have ahead := Nat.lt_of_lt_of_le before (limit_le_cancelled cancelled ..)
      rw [reached, if_pos ahead, if_pos (ahead.trans sooner)]

section

variable {plan : Plan} {chain : Chain ε σ} {w : World ε σ} {phase : Phase} {timeout : Duration}
  {deadline : ℕ}

theorem Plan.Open.endingAt (isOpen : plan.Open w) (early : w.now < deadline) :
    (plan.endingAt timeout deadline).Open w := by
  change w.now < (limit deadline w.handle w.now).1
  rcases limit_cases deadline w.handle w.now with ⟨reached, -⟩ | ⟨c, cancelled, -, reached⟩
  · rw [reached]
    exact early
  · rw [reached]
    exact Nat.lt_of_lt_of_le (isOpen.lt_cancelled cancelled) (Nat.le_max_left ..)

/-- A waiting that is not interrupted, under another deadline: it is over as before, or it is cut
off by that deadline. -/
theorem World.await_endingAt {delay : Option ℕ} {next : World ε σ → Next ε σ}
    (keeps : ∀ v, (next v).world = v)
    (uninterrupted : ∀ v e, w.await plan delay next ≠ .done v (.error e))
    (early : w.now < deadline) :
    w.await (plan.endingAt timeout deadline) delay next =
      (w.await plan delay next).cutOff deadline (.deadlineExceeded plan.id timeout) := by
  obtain ⟨time, settled, taken⟩ | ⟨time, interrupt, -, taken⟩ := await_cases plan w delay next
  · have settled' : settle (plan.endingAt timeout deadline).deadline w.handle w.now delay =
        if time < deadline then (time, none) else (deadline, some .deadline) :=
      settle_of_settled settled early
    rw [taken, World.await, settled', Next.cutOff, keeps]
    by_cases inTime : time < deadline
    · rw [if_pos inTime, if_pos inTime]
    · rw [if_neg inTime, if_neg inTime]
      rfl
  · exact absurd taken (uninterrupted _ _)

/-- A step that is not interrupted, under another deadline. The phases all wait in the same way, so
that each is a case of `World.await_endingAt`. -/
theorem step_endingAt (timeout : Duration)
    (uninterrupted : ∀ v e, step plan chain w phase ≠ .done v (.error e))
    (early : w.now < deadline) :
    step (plan.endingAt timeout deadline) chain w phase =
      (step plan chain w phase).cutOff deadline (.deadlineExceeded plan.id timeout) := by
  by_cases isOpen : plan.Open w
  · have isOpen' : (plan.endingAt timeout deadline).Open w := isOpen.endingAt early
    cases phase with
    | head base =>
      rw [step_head chain isOpen] at uninterrupted ⊢
      rw [step_head chain isOpen']
      exact World.await_endingAt (Plan.afterHead_world base _) uninterrupted early
    | logs base head =>
      rw [step_logs chain isOpen] at uninterrupted ⊢
      rw [step_logs chain isOpen']
      exact World.await_endingAt (afterLogs_world base head _) uninterrupted early
    | receipts base head pending =>
      cases pending with
      | nil =>
        rw [step_scanned chain isOpen, step_scanned chain isOpen', Next.cutOff]
        exact (if_pos early).symm
      | cons hash pending =>
        rw [step_receipt chain isOpen] at uninterrupted ⊢
        rw [step_receipt chain isOpen']
        exact World.await_endingAt (Plan.afterReceipt_world base head pending _) uninterrupted early
    | pause base =>
      rw [step_resumed chain isOpen] at uninterrupted ⊢
      rw [step_resumed chain isOpen']
      exact World.await_endingAt (fun _ => rfl) uninterrupted early
  · exact absurd (step_of_not_open chain phase isOpen) (uninterrupted _ _)

/-! ## Runs under another deadline -/

/-- At its deadline a wait ends, whatever it is about to do. No further call is made. -/
theorem run_at_deadline (chain : Chain ε σ) (phase : Phase) (reached : w.now = plan.deadline) :
    run plan chain w phase = ⟨.error (.deadlineExceeded plan.id plan.timeout), w⟩ := by
  have limited : limit plan.deadline w.handle w.now = (plan.deadline, .deadline) := by
    rcases limit_cases plan.deadline w.handle w.now with ⟨limited, -⟩ | ⟨c, -, sooner, -⟩
    · exact limited
    · have := Nat.le_max_right c w.now
      omega
  have closed : ¬ plan.Open w := by
    rw [Plan.Open, limited, reached]
    exact Nat.lt_irrefl _
  have stopped := step_of_not_open chain phase closed
  rw [limited] at stopped
  exact run_of_done stopped

/-- A wait that ended with the error at the instant, and had made just the calls of the whole wait
that arrived before it. -/
structure Ending.CutOff (whole : Ending ε σ) (instant : ℕ) (error : Error) (e : Ending ε σ) :
    Prop where
  result : e.result = .error error
  now : e.world.now = instant
  calls : e.world.calls = whole.world.calls.filter (·.time < instant)

/-- A run whose first step is cut off. All that the whole run does later comes at or after the
instant, so that the calls before it are those of the step. -/
theorem Ending.CutOff.of_step {next : Next ε σ} {error : Error} {whole : Ending ε σ}
    (taken : step plan chain w phase = next.cutOff deadline error)
    (late : deadline ≤ next.world.now) (precedes : next.world.Precedes whole.world)
    (before : ∀ call ∈ next.world.calls, call.time < deadline) :
    whole.CutOff deadline error (run plan chain w phase) := by
  rw [Next.cutOff_of_le late] at taken
  rw [run_of_done taken]
  exact ⟨rfl, rfl, (precedes.filter late before).symm⟩

/-- The calls after a step that started before an instant arrived before it, even if their replies
come later: a call arrives when the step starts. -/
theorem calls_lt_of_step {next : Next ε σ} (taken : step plan chain w phase = next)
    (early : w.now < deadline) (before : ∀ call ∈ w.calls, call.time < deadline) :
    ∀ call ∈ next.world.calls, call.time < deadline := by
  have move := step_move plan chain w phase
  rw [taken] at move
  cases move with
  | answered isOpen arrives | resolved isOpen arrives | unanswered isOpen arrives =>
    change ∀ call ∈ World.calls _, _
    rw [arrives.calls]
    intro call mem
    rcases List.mem_cons.mp mem with rfl | mem
    · rw [arrives.time]
      exact early
    · exact before call mem
  | scanned | resumed | stopped | roused => exact before

/-- A run that resolves, under a deadline that lies ahead: it does the same if it is over before,
and is cut off there otherwise. The induction is over the steps of the run that resolves; none of
them is interrupted, and the first one that is not over by the new deadline is where the runs
part. -/
theorem run_endingAt_of_lt (timeout : Duration) (w : World ε σ) (phase : Phase) {outcome : Outcome}
    (resolved : (run plan chain w phase).result = .ok outcome) (early : w.now < deadline)
    (before : ∀ call ∈ w.calls, call.time < deadline) :
    ((run plan chain w phase).world.now < deadline →
        run (plan.endingAt timeout deadline) chain w phase = run plan chain w phase) ∧
      (deadline ≤ (run plan chain w phase).world.now →
        (run plan chain w phase).CutOff deadline (.deadlineExceeded plan.id timeout)
          (run (plan.endingAt timeout deadline) chain w phase)) := by
  induction w, phase using run.induct plan chain with
  | case1 w phase v result taken =>
    rw [run_of_done taken] at resolved ⊢
    obtain rfl : result = .ok outcome := resolved
    have before' := calls_lt_of_step taken early before
    have taken' := step_endingAt timeout (by rw [taken]; rintro _ _ ⟨⟩) early
    rw [taken] at taken'
    constructor
    · intro inTime
      exact run_of_done (taken'.trans (Next.cutOff_of_lt inTime _))
    · intro late
      exact .of_step taken' late (.refl v) before'
  | case2 w phase v phase' taken ih =>
    rw [run_of_more taken] at resolved ⊢
    have before' := calls_lt_of_step taken early before
    have taken' := step_endingAt timeout (by rw [taken]; rintro _ _ ⟨⟩) early
    rw [taken] at taken'
    by_cases inTime : v.now < deadline
    · rw [run_of_more (taken'.trans (Next.cutOff_of_lt inTime _))]
      exact ih resolved inTime before'
    · -- the longer run goes on, but adds no call that arrives before the deadline
      have late := Nat.le_of_not_lt inTime
      have precedes := run_precedes plan chain v phase'
      refine ⟨fun sooner => ?_, fun _ => .of_step taken' late precedes before'⟩
      exact absurd (Nat.lt_of_le_of_lt precedes.now sooner) inTime

/-- A run that resolves, under a deadline that has not passed. Where the deadline is now, the run is
cut off before its first step. -/
theorem run_endingAt (timeout : Duration) (w : World ε σ) (phase : Phase) {outcome : Outcome}
    (resolved : (run plan chain w phase).result = .ok outcome) (early : w.now ≤ deadline)
    (before : ∀ call ∈ w.calls, call.time < deadline) :
    ((run plan chain w phase).world.now < deadline →
        run (plan.endingAt timeout deadline) chain w phase = run plan chain w phase) ∧
      (deadline ≤ (run plan chain w phase).world.now →
        (run plan chain w phase).CutOff deadline (.deadlineExceeded plan.id timeout)
          (run (plan.endingAt timeout deadline) chain w phase)) := by
  rcases Nat.lt_or_eq_of_le early with ahead | reached
  · exact run_endingAt_of_lt timeout w phase resolved ahead before
  · -- the deadline has just come
    have precedes := run_precedes plan chain w phase
    have stopped : run (plan.endingAt timeout deadline) chain w phase = _ :=
      run_at_deadline chain phase reached
    refine ⟨fun inTime => ?_, fun _ => ?_⟩
    · have := precedes.now
      omega
    · rw [stopped]
      exact ⟨rfl, reached, (precedes.filter (Nat.le_of_eq reached.symm) before).symm⟩

end

/-! ## Waits -/

/-- A timeout that the clock can tell gives the plan that ends with it. -/
theorem Waiter.plan_ofMilliseconds (waiter : Waiter) (id : Identifier) (timeout : Option Duration)
    (now : ℕ) {t : ℕ} (fits : (Duration.ofMilliseconds t).seconds < Nat.pow 2 63) :
    waiter.plan id (some (.ofMilliseconds t)) now =
      (waiter.plan id timeout now).endingAt (.ofMilliseconds t) (now + t) := by
  rw [plan, Option.getD_some, deadlineAfter_ofMilliseconds now fits]
  rfl

/-- A wait that resolves ends in the same way, with the same calls, under any timeout that is longer
than it took. Under any other one it exceeds its deadline at the end of that timeout, and has made
just the calls that had arrived before. So a timeout says how long to wait, and has no say in what
is found. -/
theorem longer_timeout_keeps_outcome (waiter : Waiter) (chain : Chain ε σ) (id : Identifier)
    (timeout : Option Duration) (handle : Handle) (now : ℕ) (state : σ) {outcome : Outcome}
    (resolved : (waiter.wait chain id timeout handle now state).result = .ok outcome) {t : ℕ}
    (fits : (Duration.ofMilliseconds t).seconds < Nat.pow 2 63) :
    ((waiter.wait chain id timeout handle now state).world.now - now < t →
        waiter.wait chain id (some (.ofMilliseconds t)) handle now state =
          waiter.wait chain id timeout handle now state) ∧
      (t ≤ (waiter.wait chain id timeout handle now state).world.now - now →
        (waiter.wait chain id timeout handle now state).CutOff (now + t)
          (.deadlineExceeded id (.ofMilliseconds t))
          (waiter.wait chain id (some (.ofMilliseconds t)) handle now state)) := by
  have started : now ≤ (waiter.wait chain id timeout handle now state).world.now :=
    (run_precedes (waiter.plan id timeout now) chain { now, handle, chain := state }
      (.head none)).now
  obtain ⟨same, cut⟩ := run_endingAt (.ofMilliseconds t) _ _ resolved (Nat.le_add_right now t)
    fun _ mem => absurd mem List.not_mem_nil
  rw [← waiter.plan_ofMilliseconds id timeout now fits] at same cut
  exact ⟨fun inTime => same ((Nat.sub_lt_iff_lt_add' started).mp inTime),
    fun late => cut ((Nat.le_sub_iff_add_le' started).mp late)⟩

namespace Sample

/-- The troubled wait loses three ticks to a late answer and ten to a pause. -/
theorem troubled_now : (ending troubled).world.now = 13 :=
  of_runFor (P := fun _ e => e.world.now = 13) 16 (by decide +kernel)

end Sample

/-- The troubled sample wait ends after thirteen ticks. A timeout of fourteen makes no difference,
and one of thirteen cuts it off right there. -/
theorem troubled_wait_under_other_timeouts :
    (Sample.ending Sample.troubled).result = .ok ⟨.executed, Sample.receipt⟩ ∧
      (Sample.ending Sample.troubled).world.now = 13 ∧
      Sample.waiter.wait Sample.troubled.chain Sample.identifier (some (.ofMilliseconds 14)) .never
          0 {} = Sample.ending Sample.troubled ∧
      (Sample.ending Sample.troubled).CutOff 13
        (.deadlineExceeded Sample.identifier (.ofMilliseconds 13))
        (Sample.waiter.wait Sample.troubled.chain Sample.identifier (some (.ofMilliseconds 13))
          .never 0 {}) := by
  have resolved := Sample.troubled_suits.result
  have elapsed : (Sample.ending Sample.troubled).world.now - 0 = 13 := Sample.troubled_now
  refine ⟨resolved, Sample.troubled_now, ?_, ?_⟩
  · refine (longer_timeout_keeps_outcome _ _ _ none _ 0 _ resolved (t := 14) (by decide)).1 ?_
    exact elapsed.trans_lt (by decide)
  · refine (longer_timeout_keeps_outcome _ _ _ none _ 0 _ resolved (t := 13) (by decide)).2 ?_
    exact elapsed.ge

end MetaTransaction.Confirmation
