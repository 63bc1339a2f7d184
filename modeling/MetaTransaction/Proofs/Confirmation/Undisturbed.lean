import Mathlib.Data.List.GetD
import Mathlib.Data.Nat.Find
import Mathlib.Order.Bounds.Defs
import MetaTransaction.Proofs.Confirmation.Reference

/-!
# Undisturbed waits

When a wait ends that nothing disturbs: the chain answers all calls at once, its logs and receipts
do not change, its head does not go back, and nobody cancels. The rounds of such a wait are one poll
interval apart. No log falls between two windows, so that the wait ends in the first round whose
head is not below the least eligible log, and with no other log.

* `run_head`, `run_logs`, `run_receipts`, `run_pause` — what each phase of a round leads to;
* `run_round` — the outcome of a round depends on the eligible logs up to its head alone;
* `run_resolves`, `run_expires` — the rounds that are still to come, by induction;
* `undisturbed_wait_ends_at_first_poll` — the statement for every wait.
-/

namespace MetaTransaction

/-- Milliseconds are ticks of the clock, so that nothing is rounded here. -/
theorem Duration.ticks_ofMilliseconds (n : ℕ) : (Duration.ofMilliseconds n).ticks = n := by
  simp only [ticks, ofMilliseconds]
  omega

namespace Confirmation

variable {ε σ : Type}

/-! ## Chains that nothing disturbs -/

/-- A reply that gives the answer at once and does not make the handle cancel. -/
structure Reply.Prompt {α : Type} (reply : Reply ε α) (answer : α) : Prop where
  answer : reply.answer = .ok answer
  delay : reply.delay = some 0
  action : reply.action ≠ some .cancel

/-- A chain that shows one set of logs and one receipt, or none, for each transaction, whose head
does not go back, and that answers all calls at once. `asked n state` says that `n` heads have been
asked for when the chain is in the state. That is all that the state may remember, so that heads are
a function of the number of polls. -/
structure Undisturbed (chain : Chain ε σ) (asked : ℕ → σ → Prop) (heads : ℕ → BlockNumber)
    (logs : List Log) (receipts : Hash → Option Receipt) : Prop where
  head : ∀ {n state}, asked n state → ∀ time,
    (chain.head time state).1.Prompt (heads n) ∧ asked (n + 1) (chain.head time state).2
  logs : ∀ {n state}, asked n state → ∀ filter time,
    (chain.logs filter time state).1.Prompt (logs.filter filter.accepts) ∧
      asked n (chain.logs filter time state).2
  receipt : ∀ {n state}, asked n state → ∀ hash time,
    (chain.receipt hash time state).1.Prompt (receipts hash) ∧
      asked n (chain.receipt hash time state).2
  rising : ∀ m n, m ≤ n → heads m ≤ heads n

/-- A world at the instant `t`, in which `n` heads have been asked for and nobody has cancelled. -/
structure World.Quiet (asked : ℕ → σ → Prop) (n t : ℕ) (w : World ε σ) : Prop where
  now : w.now = t
  handle : w.handle.cancelledAt = none
  chain : asked n w.chain

theorem Handle.cancelledAt_act {handle : Handle} {action : Option HandleAction}
    (quiet : handle.cancelledAt = none) (harmless : action ≠ some .cancel) (now : ℕ) :
    (handle.act now action).cancelledAt = none := by
  cases action with
  | none => exact quiet
  | some action =>
    cases action with
    | cancel => exact absurd rfl harmless
    | drop => exact quiet

/-- What takes time is over after it, or the wait is interrupted. -/
theorem settle_of_pos {ticks : ℕ} (positive : 0 < ticks) (deadline : ℕ) (handle : Handle)
    (now : ℕ) :
    settle deadline handle now (some ticks) =
      if now + ticks < (limit deadline handle now).1 then (now + ticks, none)
      else ((limit deadline handle now).1, some (limit deadline handle now).2) := by
  cases ticks with
  | zero => cases positive
  | succ ticks => rfl

theorem run_of_more {plan : Plan} {chain : Chain ε σ} {w w' : World ε σ} {phase phase' : Phase}
    (taken : step plan chain w phase = .more w' phase') :
    run plan chain w phase = run plan chain w' phase' := by
  rw [run, taken]

theorem run_of_done {plan : Plan} {chain : Chain ε σ} {w w' : World ε σ} {phase : Phase}
    {result : Except Error Outcome} (taken : step plan chain w phase = .done w' result) :
    run plan chain w phase = ⟨result, w'⟩ := by
  rw [run, taken]

section

variable {plan : Plan} {chain : Chain ε σ} {asked : ℕ → σ → Prop} {heads : ℕ → BlockNumber}
  {all : List Log} {receipts : Hash → Option Receipt} {w : World ε σ} {n t : ℕ}

/-- A prompt reply is there when the call arrives. So a call in a quiet world costs no time and
leads straight to what its answer leads to. -/
theorem World.Quiet.ask (plan : Plan) {α : Type} {query : ℕ → σ → Reply ε α × σ} {answer : α}
    {m : ℕ} (quiet : w.Quiet asked n t) (prompt : (query w.now w.chain).1.Prompt answer)
    (after : asked m (query w.now w.chain).2) (record : ℕ → Reply ε α → ChainCall ε) :
    (w.ask query record).2.Quiet asked m t ∧
      (w.ask query record).1.answer = .ok answer ∧
      ∀ next : World ε σ → Next ε σ,
        (w.ask query record).2.await plan (w.ask query record).1.delay next =
          next (w.ask query record).2 := by
  have held := Handle.cancelledAt_act quiet.handle prompt.action w.now
  refine ⟨⟨quiet.now, held, after⟩, prompt.answer, fun next => ?_⟩
  have delay : (w.ask query record).1.delay = some 0 := prompt.delay
  rw [delay]
  rfl

/-- Before the deadline a quiet world is open. -/
theorem World.Quiet.isOpen (quiet : w.Quiet asked n t) (early : t < plan.deadline) :
    plan.Open w := by
  rw [Plan.Open, limit_of_uncancelled quiet.handle, quiet.now]
  exact early

/-- A round starts with the head. The run goes on from a quiet world at the same instant, with one
more head asked for. -/
theorem run_head (u : Undisturbed chain asked heads all receipts) (quiet : w.Quiet asked n t)
    (early : t < plan.deadline) (base : Option BlockNumber) :
    ∃ v : World ε σ, v.Quiet asked (n + 1) t ∧
      run plan chain w (.head base) =
        run plan chain v (.logs (base.getD (plan.settings.firstBase (heads n))) (heads n)) := by
  obtain ⟨prompt, after⟩ := u.head quiet.chain w.now
  obtain ⟨quiet', answer, waited⟩ := quiet.ask plan prompt after .head
  refine ⟨_, quiet', run_of_more ?_⟩
  rw [step_head chain (quiet.isOpen early), waited, Plan.afterHead, answer]

/-- The candidates of a window are the transactions of all logs that match its query. -/
theorem run_logs (u : Undisturbed chain asked heads all receipts) (quiet : w.Quiet asked n t)
    (early : t < plan.deadline) (base head : BlockNumber) :
    ∃ v : World ε σ, v.Quiet asked n t ∧
      run plan chain w (.logs base head) =
        run plan chain v (.receipts base head
          (candidates (all.filter (plan.settings.window base head).accepts))) := by
  obtain ⟨prompt, after⟩ := u.logs quiet.chain (plan.settings.window base head) w.now
  obtain ⟨quiet', answer, waited⟩ := quiet.ask plan prompt after (.logs _)
  refine ⟨_, quiet', run_of_more ?_⟩
  rw [step_logs chain (quiet.isOpen early), waited, afterLogs, answer]

/-- A candidate that does not decide is passed, and one that does resolves the wait. No time passes
in either case. -/
theorem run_receipt (u : Undisturbed chain asked heads all receipts) (quiet : w.Quiet asked n t)
    (early : t < plan.deadline) (base head : BlockNumber) (hash : Hash) (pending : List Hash) :
    ∃ v : World ε σ, v.Quiet asked n t ∧
      run plan chain w (.receipts base head (hash :: pending)) =
        match plan.settings.outcomeOf plan.id receipts hash with
        | some outcome => ⟨.ok outcome, v⟩
        | none => run plan chain v (.receipts base head pending) := by
  obtain ⟨prompt, after⟩ := u.receipt quiet.chain hash w.now
  obtain ⟨quiet', answer, waited⟩ := quiet.ask plan prompt after (.receipt hash)
  have stepped : step plan chain w (.receipts base head (hash :: pending)) =
      match plan.settings.outcomeOf plan.id receipts hash with
      | some outcome => .done (w.ask (chain.receipt hash) (.receipt hash)).2 (.ok outcome)
      | none => .more (w.ask (chain.receipt hash) (.receipt hash)).2
          (.receipts base head pending) := by
    rw [step_receipt chain (quiet.isOpen early), waited, Plan.afterReceipt, answer,
      Settings.outcomeOf]
    cases receipts hash with
    | none => rfl
    | some receipt =>
      rw [Option.bind_some]
      simp only [Plan.classify]
      cases classifyReceipt plan.id plan.settings.failedTopic plan.settings.wallet receipt <;> rfl
  refine ⟨_, quiet', ?_⟩
  cases decided : plan.settings.outcomeOf plan.id receipts hash with
  | some outcome =>
    rw [decided] at stepped
    exact run_of_done stepped
  | none =>
    rw [decided] at stepped
    exact run_of_more stepped

/-- The first candidate that decides resolves the wait; without one it pauses. The induction is over
the candidates that are left. -/
theorem run_receipts (u : Undisturbed chain asked heads all receipts) (quiet : w.Quiet asked n t)
    (early : t < plan.deadline) (base head : BlockNumber) (pending : List Hash) :
    ∃ v : World ε σ, v.Quiet asked n t ∧
      run plan chain w (.receipts base head pending) =
        match (pending.find? (plan.deciding receipts)).bind
          (plan.settings.outcomeOf plan.id receipts) with
        | some outcome => ⟨.ok outcome, v⟩
        | none => run plan chain v (.pause (some head)) := by
  induction pending generalizing w with
  | nil =>
    exact ⟨w, quiet, run_of_more (step_scanned chain (quiet.isOpen early) base head)⟩
  | cons hash pending ih =>
    obtain ⟨v, quiet', passed⟩ := run_receipt u quiet early base head hash pending
    cases decided : plan.settings.outcomeOf plan.id receipts hash with
    | some outcome =>
      have decides : plan.deciding receipts hash = true := by
        rw [Plan.deciding, decided]
        rfl
      refine ⟨v, quiet', ?_⟩
      rw [passed, List.find?_cons_of_pos decides, Option.bind_some, decided]
    | none =>
      have passes : ¬ plan.deciding receipts hash = true := by
        rw [Plan.deciding, decided]
        decide
      obtain ⟨v', quiet'', rest⟩ := ih quiet'
      refine ⟨v', quiet'', ?_⟩
      rw [passed, decided, List.find?_cons_of_neg passes]
      exact rest

/-- A pause of `P` ticks leads to the next round, or to the deadline. -/
-- `P` is a variable here and below, since the kernel would unfold the ticks of a duration to decide
-- whether they are zero
theorem step_pause {P : ℕ} (poll : plan.settings.pollInterval.ticks = P)
    (quiet : w.Quiet asked n t) (early : t < plan.deadline) (base : Option BlockNumber) :
    step plan chain w (.pause base) =
      if t + P < plan.deadline then .more { w with now := t + P } (.head base)
      else .done { w with now := plan.deadline } (.error (plan.error .deadline)) := by
  have positive : 0 < P := poll ▸ plan.settings.pollInterval_pos plan.valid
  have settled := settle_of_pos positive plan.deadline w.handle t
  rw [limit_of_uncancelled quiet.handle] at settled
  have stepped : step plan chain w (.pause base) =
      w.await plan (some P) fun w => .more w (.head base) := by
    rw [step_resumed chain (quiet.isOpen early), poll]
  by_cases next : t + P < plan.deadline
  · rw [if_pos next] at settled ⊢
    rw [stepped, World.await, quiet.now, settled]
  · rw [if_neg next] at settled ⊢
    rw [stepped, World.await, quiet.now, settled]

/-- A pause that is over before the deadline leads to the next round, the poll interval later. -/
theorem run_pause {P : ℕ} (poll : plan.settings.pollInterval.ticks = P)
    (quiet : w.Quiet asked n t) (next : t + P < plan.deadline) (base : Option BlockNumber) :
    ∃ v : World ε σ, v.Quiet asked n (t + P) ∧
      run plan chain w (.pause base) = run plan chain v (.head base) := by
  refine ⟨{ w with now := t + P }, ⟨rfl, quiet.handle, quiet.chain⟩, run_of_more ?_⟩
  rw [step_pause poll quiet (by omega), if_pos next]

theorem run_pause_late {P : ℕ} (poll : plan.settings.pollInterval.ticks = P)
    (quiet : w.Quiet asked n t) (early : t < plan.deadline) (late : ¬ t + P < plan.deadline)
    (base : Option BlockNumber) :
    ∃ v : World ε σ, v.now = plan.deadline ∧
      run plan chain w (.pause base) = ⟨.error (plan.error .deadline), v⟩ := by
  refine ⟨{ w with now := plan.deadline }, rfl, run_of_done ?_⟩
  rw [step_pause poll quiet early, if_neg late]

end

/-! ## Rounds -/

/-- The log that a wait with the first head `first` is to find: the least eligible one. -/
def Settings.leastEligible (s : Settings) (id : Identifier) (logs : List Log)
    (receipts : Hash → Option Receipt) (first : BlockNumber) : Option Log :=
  (logs.filter (s.eligible id receipts first)).argmin Log.place

/-- The base of the round with the number `n`, when all rounds before it were completed. -/
def roundBase (heads : ℕ → BlockNumber) : ℕ → Option BlockNumber
  | 0 => none
  | n + 1 => some (heads n)

section

variable {plan : Plan} {chain : Chain ε σ} {asked : ℕ → σ → Prop} {heads : ℕ → BlockNumber}
  {all : List Log} {receipts : Hash → Option Receipt} {w : World ε σ} {n t : ℕ}

/-- None of the first `n` rounds reaches up to the log that is to be found. While this holds, each
round is completed and the next one starts where it ended. -/
def Unreached (plan : Plan) (heads : ℕ → BlockNumber) (all : List Log)
    (receipts : Hash → Option Receipt) (n : ℕ) : Prop :=
  ∀ log, plan.settings.leastEligible plan.id all receipts (heads 0) = some log →
    ∀ m < n, heads m < log.blockNumber

/-- Where the least eligible log is not reached, no eligible log is, as all of them come later. -/
theorem Unreached.eligible (unreached : Unreached plan heads all receipts n) {log : Log}
    (mem : log ∈ all) (eligible : plan.settings.eligible plan.id receipts (heads 0) log = true)
    {m : ℕ} (earlier : m < n) : (heads m).toNat < log.blockNumber.toNat := by
  have found := List.mem_filter.mpr ⟨mem, eligible⟩
  cases least : plan.settings.leastEligible plan.id all receipts (heads 0) with
  | none =>
    rw [List.argmin_eq_none.mp least] at found
    cases found
  | some first =>
    have above := UInt64.lt_iff_toNat_lt.mp (unreached first least m earlier)
    have below := Log.blockNumber_le_of_place_le (List.le_of_mem_argmin found least)
    omega

/-- The deciding logs that a round finds are the eligible ones up to its head, when the rounds
before it reach none. An eligible log below the window would have been reached by an earlier
round. -/
theorem round_filter (rising : ∀ m n, m ≤ n → heads m ≤ heads n)
    (unreached : Unreached plan heads all receipts n) :
    (all.filter (plan.settings.window
        ((roundBase heads n).getD (plan.settings.firstBase (heads n))) (heads n)).accepts).filter
          (fun log => plan.deciding receipts log.transactionHash) =
      (all.filter (plan.settings.eligible plan.id receipts (heads 0))).filter
        (fun log => log.blockNumber ≤ heads n) := by
  rw [List.filter_filter, List.filter_filter]
  refine List.filter_congr ?_
  intro log mem
  have first_le : ∀ n, (heads 0).toNat ≤ (heads n).toNat := fun n =>
    UInt64.le_iff_toNat_le.mp (rising 0 n (Nat.zero_le n))
  have bottom : (plan.settings.firstBase (heads 0)).toNat =
      (heads 0).toNat - plan.settings.lookback.toNat := BlockNumber.toNat_back ..
  rw [Bool.eq_iff_iff, Bool.and_eq_true, Bool.and_eq_true, decide_eq_true_eq,
    Settings.accepts_window]
  constructor
  · rintro ⟨decides, lower, upper, scanned⟩
    refine ⟨UInt64.le_iff_toNat_le.mpr upper, Settings.eligible_iff.mpr ⟨scanned, ?_, decides⟩⟩
    rw [UInt64.le_iff_toNat_le, BlockNumber.toNat_back]
    cases n with
    | zero =>
      rw [roundBase, Option.getD_none] at lower
      have above := first_le 0
      omega
    | succ n =>
      rw [roundBase, Option.getD_some] at lower
      have base_above := first_le n
      have head_above := first_le (n + 1)
      omega
  · rintro ⟨upper, eligible⟩
    obtain ⟨scanned, near, decides⟩ := Settings.eligible_iff.mp eligible
    rw [UInt64.le_iff_toNat_le, BlockNumber.toNat_back] at near
    refine ⟨decides, ?_, UInt64.le_iff_toNat_le.mp upper, scanned⟩
    cases n with
    | zero =>
      rw [roundBase, Option.getD_none]
      omega
    | succ n =>
      have above := unreached.eligible mem eligible (Nat.lt_succ_self n)
      rw [roundBase, Option.getD_some]
      omega

/-- A round resolves the wait with the least eligible log up to its head, or leads to a pause. The
three phases of a round are put together here; the rest of the proof counts rounds. -/
theorem run_round (u : Undisturbed chain asked heads all receipts) (quiet : w.Quiet asked n t)
    (early : t < plan.deadline) (unreached : Unreached plan heads all receipts n) :
    ∃ v : World ε σ, v.Quiet asked (n + 1) t ∧
      run plan chain w (.head (roundBase heads n)) =
        match (((all.filter (plan.settings.eligible plan.id receipts (heads 0))).filter
            (fun log => log.blockNumber ≤ heads n)).argmin Log.place).bind
              (fun log => plan.settings.outcomeOf plan.id receipts log.transactionHash) with
        | some outcome => ⟨.ok outcome, v⟩
        | none => run plan chain v (.pause (roundBase heads (n + 1))) := by
  obtain ⟨v₁, quiet₁, head⟩ := run_head u quiet early (roundBase heads n)
  obtain ⟨v₂, quiet₂, logs⟩ := run_logs u quiet₁ early
    ((roundBase heads n).getD (plan.settings.firstBase (heads n))) (heads n)
  obtain ⟨v₃, quiet₃, receipts⟩ := run_receipts u quiet₂ early
    ((roundBase heads n).getD (plan.settings.firstBase (heads n))) (heads n) _
  refine ⟨v₃, quiet₃, ?_⟩
  rw [head, logs, receipts, find?_candidates, round_filter u.rising unreached, Option.bind_map]
  rfl

/-- A round that reaches up to the least eligible log resolves the wait with it. -/
theorem run_round_reached (u : Undisturbed chain asked heads all receipts)
    (quiet : w.Quiet asked n t) (early : t < plan.deadline)
    (unreached : Unreached plan heads all receipts n) {log : Log}
    (least : plan.settings.leastEligible plan.id all receipts (heads 0) = some log)
    (reached : log.blockNumber ≤ heads n) :
    ∃ outcome, plan.settings.outcomeOf plan.id receipts log.transactionHash = some outcome ∧
      ∃ v : World ε σ, v.now = t ∧
        run plan chain w (.head (roundBase heads n)) = ⟨.ok outcome, v⟩ := by
  obtain ⟨v, quiet', ran⟩ := run_round u quiet early unreached
  obtain ⟨-, eligible⟩ := List.mem_filter.mp (List.argmin_mem least)
  obtain ⟨outcome, decides⟩ := Option.isSome_iff_exists.mp (Settings.eligible_iff.mp eligible).2.2
  refine ⟨outcome, decides, v, quiet'.now, ?_⟩
  rw [ran, argmin_filter least (decide_eq_true reached), Option.bind_some, decides]

/-- A round that does not reach up to the least eligible log leads to a pause. -/
theorem run_round_unreached (u : Undisturbed chain asked heads all receipts)
    (quiet : w.Quiet asked n t) (early : t < plan.deadline)
    (unreached : Unreached plan heads all receipts (n + 1)) :
    ∃ v : World ε σ, v.Quiet asked (n + 1) t ∧
      run plan chain w (.head (roundBase heads n)) =
        run plan chain v (.pause (roundBase heads (n + 1))) := by
  have before : Unreached plan heads all receipts n := fun log least m earlier =>
    unreached log least m (Nat.lt_succ_of_lt earlier)
  obtain ⟨v, quiet', ran⟩ := run_round u quiet early before
  refine ⟨v, quiet', ?_⟩
  have nothing : (all.filter (plan.settings.eligible plan.id receipts (heads 0))).filter
      (fun log => log.blockNumber ≤ heads n) = [] := by
    rw [List.filter_eq_nil_iff]
    intro log mem upper
    obtain ⟨mem, eligible⟩ := List.mem_filter.mp mem
    have above := unreached.eligible mem eligible (Nat.lt_succ_self n)
    rw [decide_eq_true_eq, UInt64.le_iff_toNat_le] at upper
    omega
  rw [ran, nothing]
  rfl

/-- The wait resolves in the first round that reaches up to the least eligible log. The induction is
on the number of rounds until then, each of which takes the poll interval. -/
theorem run_resolves (u : Undisturbed chain asked heads all receipts) {P : ℕ}
    (poll : plan.settings.pollInterval.ticks = P) {log : Log} {k : ℕ}
    (least : plan.settings.leastEligible plan.id all receipts (heads 0) = some log)
    (first : IsLeast {m | log.blockNumber ≤ heads m} k) (rounds : ℕ) {w : World ε σ} {n t : ℕ}
    (last : n + rounds = k) (quiet : w.Quiet asked n t)
    (early : t + rounds * P < plan.deadline) :
    ∃ outcome, plan.settings.outcomeOf plan.id receipts log.transactionHash = some outcome ∧
      ∃ v : World ε σ, v.now = t + rounds * P ∧
        run plan chain w (.head (roundBase heads n)) = ⟨.ok outcome, v⟩ := by
  have unreached : ∀ n ≤ k, Unreached plan heads all receipts n := by
    intro n upper log' least' m earlier
    rw [least] at least'
    obtain rfl := Option.some.inj least'
    rw [← UInt64.not_le]
    intro reached
    have least_le := first.2 reached
    omega
  induction rounds generalizing w n t with
  | zero =>
    obtain rfl : n = k := last
    rw [Nat.zero_mul, Nat.add_zero] at early ⊢
    exact run_round_reached u quiet early (unreached n le_rfl) least first.1
  | succ rounds ih =>
    rw [Nat.succ_mul] at early ⊢
    obtain ⟨v, quiet', round⟩ :=
      run_round_unreached u quiet (by omega) (unreached (n + 1) (by omega))
    obtain ⟨v', quiet'', resumed⟩ :=
      run_pause poll quiet' (by omega) (roundBase heads (n + 1))
    obtain ⟨outcome, decides, v'', now, ran⟩ := ih (by omega) quiet'' (by omega)
    refine ⟨outcome, decides, v'', by omega, ?_⟩
    rw [round, resumed, ran]

/-- The wait ends at the deadline when no round before it reaches up to the least eligible log. The
induction is on the time that is left, which each pause makes less. -/
theorem run_expires (u : Undisturbed chain asked heads all receipts) {P : ℕ}
    (poll : plan.settings.pollInterval.ticks = P) (quiet : w.Quiet asked n t)
    (early : t < plan.deadline)
    (unreached : ∀ rounds, t + rounds * P < plan.deadline →
      Unreached plan heads all receipts (n + rounds + 1)) :
    ∃ v : World ε σ, v.now = plan.deadline ∧
      run plan chain w (.head (roundBase heads n)) = ⟨.error (plan.error .deadline), v⟩ := by
  have positive : 0 < P := poll ▸ plan.settings.pollInterval_pos plan.valid
  induction left : plan.deadline - t using Nat.strong_induction_on generalizing w n t with
  | _ _ ih =>
    obtain ⟨v, quiet', round⟩ := run_round_unreached u quiet early (unreached 0 (by omega))
    rw [round]
    by_cases next : t + P < plan.deadline
    · obtain ⟨v', quiet'', resumed⟩ := run_pause poll quiet' next (roundBase heads (n + 1))
      rw [resumed]
      refine ih _ (by omega) quiet'' next ?_ rfl
      intro rounds early'
      have later := unreached (rounds + 1) (by rw [Nat.succ_mul]; omega)
      rwa [show n + 1 + rounds + 1 = n + (rounds + 1) + 1 by omega]
    · exact run_pause_late poll quiet' early next _

end

/-! ## Waits -/

/-- The deadline of a wait with a timeout of `n` milliseconds that the clock can tell. -/
theorem deadlineAfter_ofMilliseconds (now : ℕ) {n : ℕ}
    (fits : (Duration.ofMilliseconds n).seconds < Nat.pow 2 63) :
    deadlineAfter now (.ofMilliseconds n) = now + n := by
  rw [deadlineAfter, if_pos fits, Duration.ticks_ofMilliseconds]

/-- Where no round before the timeout can be the first to reach up to the least eligible log, none
reaches it. Among the rounds that reach it there would be a first one. -/
theorem unreached_of_late {plan : Plan} {heads : ℕ → BlockNumber} {all : List Log}
    {receipts : Hash → Option Receipt} {P T n : ℕ}
    (late : ∀ log k, plan.settings.leastEligible plan.id all receipts (heads 0) = some log →
      IsLeast {n | log.blockNumber ≤ heads n} k → T ≤ k * P)
    (early : n * P < T) : Unreached plan heads all receipts (n + 1) := by
  intro log least m upper
  rw [← UInt64.not_le]
  intro reached
  have some_round : ∃ k, log.blockNumber ≤ heads k := ⟨m, reached⟩
  have first : IsLeast {n | log.blockNumber ≤ heads n} (Nat.find some_round) :=
    ⟨Nat.find_spec some_round, fun _ => Nat.find_min' some_round⟩
  have before : Nat.find some_round * P ≤ n * P :=
    Nat.mul_le_mul_right P ((Nat.find_min' some_round reached).trans (Nat.le_of_lt_succ upper))
  have after := late log _ least first
  omega

/-- An undisturbed wait finds the outcome at the first poll that can: with `P` milliseconds between
polls it resolves with the least eligible log after `k * P` milliseconds, where `k` is the first
head that reaches up to the log. Where no such poll comes before the timeout of `T` milliseconds, it
ends with the timeout. -/
theorem undisturbed_wait_ends_at_first_poll (waiter : Waiter) (id : Identifier) (all : List Log)
    (receipts : Hash → Option Receipt) (heads : ℕ → BlockNumber) (chain : Chain ε σ)
    (asked : ℕ → σ → Prop) (timeout : Option Duration) (handle : Handle) (now : ℕ) (state : σ)
    (P T : ℕ) (undisturbed : Undisturbed chain asked heads all receipts) (start : asked 0 state)
    (quiet : handle.cancelledAt = none)
    (poll : waiter.settings.pollInterval = .ofMilliseconds P)
    (timed : timeout.getD waiter.settings.defaultTimeout = .ofMilliseconds T) (positive : 0 < T)
    (fits : (Duration.ofMilliseconds T).seconds < Nat.pow 2 63) :
    (∀ log k, waiter.settings.leastEligible id all receipts (heads 0) = some log →
      IsLeast {n | log.blockNumber ≤ heads n} k → k * P < T →
        ∃ receipt status, receipts log.transactionHash = some receipt ∧
          classifyReceipt id waiter.settings.failedTopic waiter.settings.wallet receipt =
            some status ∧
          (waiter.wait chain id timeout handle now state).result = .ok ⟨status, receipt⟩ ∧
          (waiter.wait chain id timeout handle now state).world.now = now + k * P) ∧
    ((∀ log k, waiter.settings.leastEligible id all receipts (heads 0) = some log →
      IsLeast {n | log.blockNumber ≤ heads n} k → T ≤ k * P) →
        (waiter.wait chain id timeout handle now state).result =
            .error (.deadlineExceeded id (.ofMilliseconds T)) ∧
          (waiter.wait chain id timeout handle now state).world.now = now + T) := by
  have deadline : (waiter.plan id timeout now).deadline = now + T := by
    rw [Waiter.plan, timed]
    exact deadlineAfter_ofMilliseconds now fits
  have ticks : (waiter.plan id timeout now).settings.pollInterval.ticks = P := by
    change waiter.settings.pollInterval.ticks = P
    rw [poll, Duration.ticks_ofMilliseconds]
  have opening : World.Quiet asked 0 now ({ now, handle, chain := state } : World ε σ) :=
    ⟨rfl, quiet, start⟩
  constructor
  · intro log k least first early
    obtain ⟨outcome, decides, v, ended, ran⟩ := run_resolves undisturbed ticks least first k
      (Nat.zero_add k) opening (by rw [deadline]; omega)
    change Option.bind _ _ = _ at decides
    obtain ⟨receipt, shown, classified⟩ := Option.bind_eq_some_iff.mp decides
    obtain ⟨status, reported, rfl⟩ := Option.map_eq_some_iff.mp classified
    refine ⟨receipt, status, shown, reported, congrArg Ending.result ran, ?_⟩
    rw [← ended]
    exact congrArg (fun ending => ending.world.now) ran
  · intro late
    obtain ⟨v, ended, ran⟩ := run_expires undisturbed ticks opening
      (by rw [deadline]; omega) (by
        intro rounds early
        rw [deadline] at early
        rw [Nat.zero_add]
        exact unreached_of_late late (by omega))
    refine ⟨?_, ?_⟩
    · rw [← timed]
      exact congrArg Ending.result ran
    · rw [← deadline, ← ended]
      exact congrArg (fun ending => ending.world.now) ran

/-! ## Scripts without disturbance -/

/-- Something that every call sees. -/
def Visible.Always {α : Type} (v : Visible α) : Prop :=
  v.since = 0 ∧ v.till = none

theorem filterMap_at? {α : Type} {vs : List (Visible α)} (always : ∀ v ∈ vs, v.Always)
    (call : ℕ) : vs.filterMap (·.at? call) = vs.map Visible.item := by
  rw [← List.filterMap_eq_map]
  refine List.filterMap_congr ?_
  intro v mem
  obtain ⟨since, till⟩ := always v mem
  rw [Visible.at?, since, till]
  exact if_pos ⟨Nat.zero_le _, rfl⟩

/-- The heads of a script do not go back when those written down do not. -/
theorem Script.head_le_head {s : Script} (rising : s.heads.Pairwise (· ≤ ·)) {m n : ℕ}
    (le : m ≤ n) : s.head { heads := m } ≤ s.head { heads := n } := by
  rw [Script.head, Script.head]
  by_cases empty : s.heads = []
  · rw [empty]
    exact UInt64.le_refl _
  · have nonempty := List.length_pos_iff.mpr empty
    have bound : ∀ n, min n (s.heads.length - 1) < s.heads.length := by omega
    rw [List.getD_eq_getElem _ _ (bound m), List.getD_eq_getElem _ _ (bound n)]
    rcases Nat.eq_or_lt_of_le (min_le_min_right (s.heads.length - 1) le) with same | earlier
    · simp only [same, UInt64.le_refl]
    · exact List.pairwise_iff_getElem.mp rising _ _ (bound m) (bound n) earlier

/-- A script in which nothing is unusual is a chain that nothing disturbs. So the hypothesis can be
met, and by chains of any content. -/
theorem Script.undisturbed {s : Script} (calm : s.faults = []) (honest : s.unfiltered = false)
    (logs : ∀ v ∈ s.logs, v.Always) (receipts : ∀ v ∈ s.receipts, v.Always)
    (rising : s.heads.Pairwise (· ≤ ·)) :
    Undisturbed s.chain (fun n state => state.heads = n) (fun n => s.head { heads := n })
      (s.logs.map Visible.item)
      (fun hash => (s.receipts.map Visible.item).find? (·.transactionHash = hash)) := by
  have fault : ∀ state, s.fault state = { call := state.calls } := by
    intro state
    rw [Script.fault, calm]
    rfl
  have prompt : ∀ {α : Type} (answer : α) (state : Script.State),
      (Fault.reply (s.fault state) answer).Prompt answer := by
    intro α answer state
    rw [fault]
    refine ⟨rfl, rfl, ?_⟩
    rintro ⟨⟩
  refine ⟨?_, ?_, ?_, fun m n le => Script.head_le_head rising le⟩
  · rintro n state rfl time
    refine ⟨prompt _ state, ?_⟩
    have used : (s.chain.head time state).2.heads =
        state.heads +
          if (s.fault state).failure.isSome || (s.fault state).hangs then 0 else 1 := rfl
    rw [used, fault]
    rfl
  · rintro n state rfl filter time
    refine ⟨?_, rfl⟩
    have matching : s.matchingLogs filter state =
        (s.logs.map Visible.item).filter filter.accepts := by
      rw [Script.matchingLogs, filterMap_at? logs, honest]
      rfl
    rw [← matching]
    exact prompt _ state
  · rintro n state rfl hash time
    refine ⟨?_, rfl⟩
    rw [← filterMap_at? receipts state.calls]
    exact prompt _ state

namespace Sample

theorem steady_undisturbed :
    Undisturbed steady.chain (fun n state => state.heads = n) (fun n => steady.head { heads := n })
      [nonceLog] (fun hash => [receipt].find? (·.transactionHash = hash)) :=
  steady.undisturbed rfl rfl (List.forall_mem_singleton.mpr ⟨rfl, rfl⟩)
    (List.forall_mem_singleton.mpr ⟨rfl, rfl⟩) (by decide)

/-- The second head is the first that reaches up to the sample log. -/
theorem steady_first :
    IsLeast {n | nonceLog.blockNumber ≤ steady.head { heads := n }} 1 := by
  have second : nonceLog.blockNumber ≤ steady.head { heads := 1 } := by decide
  have above : ¬ nonceLog.blockNumber ≤ steady.head { heads := 0 } := by decide
  refine ⟨second, ?_⟩
  intro n reached
  cases n with
  | zero => exact absurd reached above
  | succ n => omega

end Sample

/-- The sample wait polls at the heads 9 and 11 and finds the log of block 10 at the second. -/
theorem steady_wait_ends_at_second_poll :
    (Sample.ending Sample.steady).result = .ok ⟨.executed, Sample.receipt⟩ ∧
      (Sample.ending Sample.steady).world.now = 10 := by
  have least : Sample.settings.leastEligible Sample.identifier [Sample.nonceLog]
      (fun hash => [Sample.receipt].find? (·.transactionHash = hash)) 9 = some Sample.nonceLog := by
    decide +kernel
  obtain ⟨receipt, status, shown, reported, result, now⟩ :=
    (undisturbed_wait_ends_at_first_poll Sample.waiter Sample.identifier _ _ _ _ _ none .never 0 {}
      10 30 Sample.steady_undisturbed rfl rfl rfl rfl (by decide) (by decide)).1 _ 1 least
        Sample.steady_first (by decide)
  obtain rfl : Sample.receipt = receipt := Option.some.inj shown
  obtain rfl : Status.executed = status := Option.some.inj reported
  exact ⟨result, now⟩

end Confirmation

end MetaTransaction
