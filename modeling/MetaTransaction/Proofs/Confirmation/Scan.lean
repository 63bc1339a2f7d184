import MetaTransaction.Proofs.Confirmation.Candidates
import MetaTransaction.Proofs.Confirmation.Deadline
import MetaTransaction.Proofs.Confirmation.Undisturbed

/-!
# Scans of windows

A scan looks up the candidates of a window until an answer decides: an error interrupts it, and a
receipt that reports the identifier resolves the wait. Looking up the transaction of every log
instead, without a memory of what has been looked up, comes to the same verdict: where lookups are
answered by the transaction alone, another lookup of a transaction that was passed is passed again.

* `step_lookup`, `run_scan` — what a lookup leads to, and a run as its scan and what comes after it;
* `scan_ends` — what a scan leads to, by induction over the candidates;
* `scan_not_disturbed` — a scan that comes to its verdict in time;
* `Plan.plainScan_eq`, `Plan.scansOnce` — the scan that remembers nothing, and the same verdict and
  lookups without repetitions;
* `scan_eq_plainScan` — the statement for every window.
-/

namespace MetaTransaction.Confirmation

variable {ε σ : Type}

/-! ## Verdicts -/

/-- What the scan of a window comes to. -/
inductive Verdict
  | resolved (outcome : Outcome)
  /-- a lookup failed, and the window is to be scanned again -/
  | interrupted
  /-- no transaction decides -/
  | exhausted
deriving DecidableEq

/-- How a wait goes on after a scan: from the same base after a failure, from the head after a
completed window. -/
def Verdict.next (base head : BlockNumber) (w : World ε σ) : Verdict → Next ε σ
  | .resolved outcome => .done w (.ok outcome)
  | .interrupted => .more w (.pause (some base))
  | .exhausted => .more w (.pause (some head))

/-- What the answer to a lookup decides, if it decides. A failed lookup decides too, since it ends
the scan, though not the wait. -/
def Plan.decision (plan : Plan) : Except ε (Option Receipt) → Option Verdict
  | .error _ => some .interrupted
  | .ok none => none
  | .ok (some receipt) => (plan.classify receipt).map fun status => .resolved ⟨status, receipt⟩

/-- The verdict and the lookups of a scan that remembers nothing: it looks up the transaction of
every log, until an answer decides. A scan of a wait is compared with this one. -/
def Plan.plainScan (plan : Plan) (answers : Hash → Except ε (Option Receipt)) :
    List Log → Verdict × List Hash
  | [] => (.exhausted, [])
  | log :: logs =>
    match plan.decision (answers log.transactionHash) with
    | some verdict => (verdict, [log.transactionHash])
    | none =>
      ((plan.plainScan answers logs).1, log.transactionHash :: (plan.plainScan answers logs).2)

/-- The verdict of the first transaction that decides. -/
def Plan.verdict (plan : Plan) (answers : Hash → Except ε (Option Receipt)) (hashes : List Hash) :
    Verdict :=
  (hashes.findSome? fun hash => plan.decision (answers hash)).getD .exhausted

/-- The transactions up to the first that decides. -/
def Plan.lookups (plan : Plan) (answers : Hash → Except ε (Option Receipt)) (hashes : List Hash) :
    List Hash :=
  upTo (fun hash => (plan.decision (answers hash)).isSome) hashes

section

variable {plan : Plan} {answers : Hash → Except ε (Option Receipt)}

theorem Plan.verdict_cons (hash : Hash) (hashes : List Hash) :
    plan.verdict answers (hash :: hashes) =
      (plan.decision (answers hash)).getD (plan.verdict answers hashes) := by
  rw [verdict, List.findSome?_cons]
  cases plan.decision (answers hash) <;> rfl

theorem Plan.lookups_cons (hash : Hash) (hashes : List Hash) :
    plan.lookups answers (hash :: hashes) =
      if (plan.decision (answers hash)).isSome then [hash]
      else hash :: plan.lookups answers hashes :=
  upTo_cons ..

/-- The plain scan comes to the verdict of the transactions in order, and looks them up as far as
the first that decides. -/
theorem Plan.plainScan_eq (logs : List Log) :
    plan.plainScan answers logs =
      (plan.verdict answers (logs.map Log.transactionHash),
        plan.lookups answers (logs.map Log.transactionHash)) := by
  induction logs with
  | nil => rfl
  | cons log logs ih =>
    rw [plainScan, ih, List.map_cons, verdict_cons, lookups_cons]
    cases plan.decision (answers log.transactionHash) <;> rfl

/-- Asking again does not change the verdict, because the same transaction is answered in the same
way. -/
theorem Plan.verdict_eraseDups (hashes : List Hash) :
    plan.verdict answers hashes.eraseDups = plan.verdict answers hashes := by
  rw [verdict, verdict, ← unseen_nil, findSome?_unseen (List.forall_mem_nil _)]

theorem Plan.lookups_eraseDups (hashes : List Hash) :
    plan.lookups answers hashes.eraseDups = (plan.lookups answers hashes).eraseDups := by
  rw [lookups, lookups, ← unseen_nil, ← unseen_nil, upTo_unseen (List.forall_mem_nil _)]

end

/-! ## Lookups -/

/-- In states in which `inv` holds, a lookup is answered by its transaction alone, whenever it is
made. It may take any time, and the handle may do anything at it. Without this the plain scan could
be given another answer to the same question. -/
structure Chain.LooksUp (chain : Chain ε σ) (inv : σ → Prop)
    (answers : Hash → Except ε (Option Receipt)) : Prop where
  answer : ∀ {state}, inv state → ∀ hash now,
    (chain.receipt hash now state).1.answer = answers hash
  kept : ∀ {state}, inv state → ∀ hash now, inv (chain.receipt hash now state).2

/-- The transaction that a call looks up, with the answer. -/
def ChainCall.lookup? : ChainCall ε → Option (Hash × Except ε (Option Receipt))
  | .receipt hash _ reply => some (hash, reply.answer)
  | _ => none

/-- Between two worlds the transactions were looked up, in this order, and nothing else was asked
for. The calls of a world come latest first, the transactions in the order of their lookups. -/
def LookedUp (answers : Hash → Except ε (Option Receipt)) (hashes : List Hash) (w v : World ε σ) :
    Prop :=
  ∃ made, v.calls = made ++ w.calls ∧
    made.reverse.map ChainCall.lookup? = hashes.map fun hash => some (hash, answers hash)

/-- What interrupts has come. -/
def World.Reached (w : World ε σ) (plan : Plan) : Interrupt → Prop
  | .deadline => plan.deadline ≤ w.now
  | .cancelled => w.handle.isCancelled w.now = true

section

variable {plan : Plan} {chain : Chain ε σ} {inv : σ → Prop}
  {answers : Hash → Except ε (Option Receipt)} {w u v : World ε σ}

theorem LookedUp.nil (same : v.calls = w.calls) : LookedUp answers [] w v :=
  ⟨[], same, rfl⟩

theorem LookedUp.cons {hash : Hash} {hashes : List Hash} {time : ℕ}
    {reply : Reply ε (Option Receipt)} (first : u.calls = .receipt hash time reply :: w.calls)
    (answer : reply.answer = answers hash) (rest : LookedUp answers hashes u v) :
    LookedUp answers (hash :: hashes) w v := by
  obtain ⟨made, calls, lookups⟩ := rest
  refine ⟨made ++ [.receipt hash time reply], ?_, ?_⟩
  · rw [calls, first, List.append_assoc, List.singleton_append]
  · rw [List.reverse_append, List.map_append, lookups, List.map_cons, ← answer]
    rfl

/-- A wait that is not open has been interrupted, by the deadline or by a handle that has
cancelled. -/
theorem reached_of_limit {time : ℕ} {interrupt : Interrupt}
    (limited : limit plan.deadline w.handle w.now = (time, interrupt)) (come : time ≤ v.now)
    (handle : v.handle = w.handle) : v.Reached plan interrupt := by
  rcases limit_cases plan.deadline w.handle w.now with ⟨reached, -⟩ | ⟨c, cancelled, -, reached⟩
  · rw [reached] at limited
    obtain ⟨rfl, rfl⟩ := Prod.mk.inj limited
    exact come
  · rw [reached] at limited
    obtain ⟨rfl, rfl⟩ := Prod.mk.inj limited
    rw [World.Reached, Handle.isCancelled, handle, cancelled]
    exact decide_eq_true (by omega)

theorem Plan.afterReceipt_eq (base head : BlockNumber) (pending : List Hash)
    (reply : Reply ε (Option Receipt)) (w : World ε σ) :
    plan.afterReceipt base head pending reply w =
      match plan.decision reply.answer with
      | some verdict => verdict.next base head w
      | none => .more w (.receipts base head pending) := by
  rw [afterReceipt]
  rcases reply.answer with e | _ | receipt
  · rfl
  · rfl
  · simp only [decision]
    cases plan.classify receipt <;> rfl

/-- The deadline or a cancellation ends a lookup, or its answer decides, or it is passed. In the
first case the call may have been made, but its answer is not seen. -/
theorem step_lookup (plan : Plan) (chain : Chain ε σ) (w : World ε σ) (base head : BlockNumber)
    (hash : Hash) (pending : List Hash) :
    (∃ v interrupt, step plan chain w (.receipts base head (hash :: pending)) =
        .done v (.error (plan.error interrupt)) ∧ v.Reached plan interrupt ∧
        (v.calls = w.calls ∨
          v.calls = .receipt hash w.now (chain.receipt hash w.now w.chain).1 :: w.calls)) ∨
      ∃ v, v.calls = .receipt hash w.now (chain.receipt hash w.now w.chain).1 :: w.calls ∧
        v.chain = (chain.receipt hash w.now w.chain).2 ∧
        step plan chain w (.receipts base head (hash :: pending)) =
          match plan.decision (chain.receipt hash w.now w.chain).1.answer with
          | some verdict => verdict.next base head v
          | none => .more v (.receipts base head pending) := by
  by_cases isOpen : plan.Open w
  · rw [step_receipt chain isOpen]
    obtain ⟨time, -, taken⟩ | ⟨time, interrupt, settled, taken⟩ := await_cases plan
      (w.ask (chain.receipt hash) (.receipt hash)).2
      (w.ask (chain.receipt hash) (.receipt hash)).1.delay
      (plan.afterReceipt base head pending (w.ask (chain.receipt hash) (.receipt hash)).1)
    · refine .inr ⟨{ (w.ask (chain.receipt hash) (.receipt hash)).2 with now := time }, rfl, rfl, ?_⟩
      rw [taken, Plan.afterReceipt_eq]
      rfl
    · have reached := (settle_interrupted settled).1
      exact .inl ⟨_, interrupt, taken, reached_of_limit reached (Nat.le_refl _) rfl, .inr rfl⟩
  · rw [step_of_not_open chain _ isOpen]
    exact .inl ⟨w, _, rfl, reached_of_limit rfl (Nat.not_lt.mp isOpen) rfl, .inl rfl⟩

end

/-! ## Scans -/

/-- The ending that a step leads to. -/
def Next.ending (plan : Plan) (chain : Chain ε σ) : Next ε σ → Ending ε σ
  | .more w phase => run plan chain w phase
  | .done w result => ⟨result, w⟩

/-- Steps on while candidates are looked up. It stops at the first step that leads out of the
lookups, which is the verdict of the scan or an interruption of the wait. -/
def scan (plan : Plan) (chain : Chain ε σ) (base head : BlockNumber) :
    World ε σ → List Hash → Next ε σ
  | w, [] => .more w (.pause (some head))
  | w, hash :: pending =>
    match step plan chain w (.receipts base head (hash :: pending)) with
    | .more v (.receipts _ _ _) => scan plan chain base head v pending
    | next => next

/-- What a scan leads to whose verdict and lookups would be the given ones. Apart from the verdict
there is only the interruption of the whole wait, which may come at any of the lookups. -/
inductive ScanEnds (plan : Plan) (answers : Hash → Except ε (Option Receipt))
    (base head : BlockNumber) (w : World ε σ) (verdict : Verdict) (lookups : List Hash) :
    Next ε σ → Prop
  /-- it comes to its verdict, after its lookups -/
  | decided {v} : LookedUp answers lookups w v →
      ScanEnds plan answers base head w verdict lookups (verdict.next base head v)
  /-- the deadline or a cancellation comes first, after some of its lookups -/
  | disturbed {v asked interrupt} : v.Reached plan interrupt → asked <+: lookups →
      LookedUp answers asked w v →
      ScanEnds plan answers base head w verdict lookups (.done v (.error (plan.error interrupt)))

section

variable {plan : Plan} {chain : Chain ε σ} {inv : σ → Prop}
  {answers : Hash → Except ε (Option Receipt)} {w u : World ε σ} {base head : BlockNumber}

theorem scan_cons_of_decided {v : World ε σ} {hash : Hash} {pending : List Hash}
    {verdict : Verdict} (taken : step plan chain w (.receipts base head (hash :: pending)) =
      verdict.next base head v) :
    scan plan chain base head w (hash :: pending) = verdict.next base head v := by
  rw [scan, taken]
  cases verdict <;> rfl

theorem scan_cons_of_passed {v : World ε σ} {hash : Hash} {pending : List Hash}
    (taken : step plan chain w (.receipts base head (hash :: pending)) =
      .more v (.receipts base head pending)) :
    scan plan chain base head w (hash :: pending) = scan plan chain base head v pending := by
  rw [scan, taken]

theorem scan_cons_of_done {v : World ε σ} {hash : Hash} {pending : List Hash}
    {result : Except Error Outcome}
    (taken : step plan chain w (.receipts base head (hash :: pending)) = .done v result) :
    scan plan chain base head w (hash :: pending) = .done v result := by
  rw [scan, taken]

/-- A completed window is followed by a pause, also when the wait is interrupted. -/
theorem run_exhausted (plan : Plan) (chain : Chain ε σ) (w : World ε σ) (base head : BlockNumber) :
    run plan chain w (.receipts base head []) = run plan chain w (.pause (some head)) := by
  by_cases isOpen : plan.Open w
  · exact run_of_more (step_scanned chain isOpen base head)
  · rw [run_of_done (step_of_not_open chain _ isOpen),
      run_of_done (step_of_not_open chain _ isOpen)]

/-- A run goes through the scan. So what a scan leads to is what the wait goes on from. -/
theorem run_scan (plan : Plan) (chain : Chain ε σ) (base head : BlockNumber) (w : World ε σ)
    (pending : List Hash) :
    run plan chain w (.receipts base head pending) =
      (scan plan chain base head w pending).ending plan chain := by
  induction pending generalizing w with
  | nil => exact run_exhausted plan chain w base head
  | cons hash pending ih =>
    obtain ⟨v, interrupt, taken, -⟩ | ⟨v, -, -, taken⟩ :=
      step_lookup plan chain w base head hash pending
    · rw [run_of_done taken, scan_cons_of_done taken]
      rfl
    · cases decided : plan.decision (chain.receipt hash w.now w.chain).1.answer with
      | some verdict =>
        rw [decided] at taken
        rw [scan_cons_of_decided taken]
        cases verdict with
        | resolved outcome => exact run_of_done taken
        | interrupted => exact run_of_more taken
        | exhausted => exact run_of_more taken
      | none =>
        rw [decided] at taken
        rw [run_of_more taken, scan_cons_of_passed taken, ih]

/-- A lookup before a scan comes before its other lookups, and leaves its verdict as it is. -/
theorem ScanEnds.cons {hash : Hash} {time : ℕ} {reply : Reply ε (Option Receipt)}
    {verdict : Verdict} {lookups : List Hash} {next : Next ε σ}
    (first : u.calls = .receipt hash time reply :: w.calls) (answer : reply.answer = answers hash)
    (ends : ScanEnds plan answers base head u verdict lookups next) :
    ScanEnds plan answers base head w verdict (hash :: lookups) next := by
  cases ends with
  | decided looked => exact .decided (looked.cons first answer)
  | disturbed reached early looked =>
    exact .disturbed reached (List.cons_prefix_cons.mpr ⟨rfl, early⟩) (looked.cons first answer)

/-- Where lookups are answered by the transaction alone, a scan comes to the verdict of the first
candidate that decides, unless the deadline or a cancellation comes first. The induction is over the
candidates; `step_lookup` gives the cases of each. -/
theorem scan_ends (fixed : chain.LooksUp inv answers) (held : inv w.chain) (base head : BlockNumber)
    (pending : List Hash) :
    ScanEnds plan answers base head w (plan.verdict answers pending)
      (plan.lookups answers pending) (scan plan chain base head w pending) := by
  induction pending generalizing w with
  | nil => exact .decided (.nil rfl)
  | cons hash pending ih =>
    have answer := fixed.answer held hash w.now
    obtain ⟨v, interrupt, taken, reached, calls⟩ | ⟨v, calls, state, taken⟩ :=
      step_lookup plan chain w base head hash pending
    · rw [scan_cons_of_done taken]
      -- the disturbance came before this lookup was made, or while it was under way
      rcases calls with calls | calls
      · exact .disturbed reached List.nil_prefix (.nil calls)
      · refine .disturbed reached ?_ (LookedUp.cons calls answer (.nil rfl))
        rw [Plan.lookups_cons]
        split
        · exact List.prefix_refl _
        · exact List.cons_prefix_cons.mpr ⟨rfl, List.nil_prefix⟩
    · rw [answer] at taken
      rw [Plan.verdict_cons, Plan.lookups_cons]
      cases decided : plan.decision (answers hash) with
      | some verdict =>
        rw [decided] at taken
        rw [scan_cons_of_decided taken]
        exact .decided (LookedUp.cons calls answer (.nil rfl))
      | none =>
        rw [decided] at taken
        rw [scan_cons_of_passed taken]
        exact (ih (state ▸ fixed.kept held hash w.now)).cons calls answer

/-! ## Scans that nothing disturbs -/

/-- Lookups take at most `d` ticks, and the handle does not cancel at them. -/
structure Chain.Swift (chain : Chain ε σ) (inv : σ → Prop) (d : ℕ) : Prop where
  delay : ∀ {state}, inv state → ∀ hash now,
    ∃ ticks ≤ d, (chain.receipt hash now state).1.delay = some ticks
  action : ∀ {state}, inv state → ∀ hash now,
    (chain.receipt hash now state).1.action ≠ some .cancel

/-- What takes a while is over after it, where the deadline is later and nobody cancels. -/
theorem settle_of_early {deadline now ticks : ℕ} {handle : Handle}
    (uncancelled : handle.cancelledAt = none) (early : now + ticks < deadline) :
    settle deadline handle now (some ticks) = (now + ticks, none) := by
  cases ticks with
  | zero => rfl
  | succ ticks =>
    rw [settle_of_pos (Nat.succ_pos _), limit_of_uncancelled uncancelled, if_pos early]

theorem await_of_settled {delay : Option ℕ} {next : World ε σ → Next ε σ} {time : ℕ}
    (settled : settle plan.deadline w.handle w.now delay = (time, none)) :
    w.await plan delay next = next { w with now := time } := by
  rw [World.await, settled]

/-- No verdict is an error, so that an error tells that the scan was disturbed. -/
theorem Verdict.next_ne_error (verdict : Verdict) (base head : BlockNumber) (w v : World ε σ)
    (e : Error) : verdict.next base head w ≠ .done v (.error e) := by
  intro same
  cases verdict <;> cases same

/-- A lookup that is over before the deadline is passed, or its answer decides. The third
possibility of `step_lookup` is excluded here. -/
theorem step_swift_lookup {d : ℕ} (swift : chain.Swift inv d) (held : inv w.chain)
    (uncancelled : w.handle.cancelledAt = none) (early : w.now + d < plan.deadline)
    (base head : BlockNumber) (hash : Hash) (pending : List Hash) :
    ∃ v, v.chain = (chain.receipt hash w.now w.chain).2 ∧ v.handle.cancelledAt = none ∧
      v.now ≤ w.now + d ∧
      step plan chain w (.receipts base head (hash :: pending)) =
        match plan.decision (chain.receipt hash w.now w.chain).1.answer with
        | some verdict => verdict.next base head v
        | none => .more v (.receipts base head pending) := by
  obtain ⟨ticks, short, delay⟩ := swift.delay held hash w.now
  have isOpen : plan.Open w := by
    rw [Plan.Open, limit_of_uncancelled uncancelled]
    change w.now < plan.deadline
    omega
  have quiet := Handle.cancelledAt_act uncancelled (swift.action held hash w.now) w.now
  have settled := settle_of_early quiet (show w.now + ticks < plan.deadline by omega)
  rw [← delay] at settled
  refine ⟨{ (w.ask (chain.receipt hash) (.receipt hash)).2 with now := w.now + ticks }, rfl, quiet,
    Nat.add_le_add_left short _, ?_⟩
  rw [step_receipt chain isOpen, ← Plan.afterReceipt_eq]
  exact await_of_settled settled

/-- Lookups that take at most `d` ticks each cannot be disturbed when the deadline is further off
than all of them together and nobody cancels. -/
theorem scan_not_disturbed {d : ℕ} (fixed : chain.LooksUp inv answers) (swift : chain.Swift inv d)
    (held : inv w.chain) (uncancelled : w.handle.cancelledAt = none) (base head : BlockNumber)
    {pending : List Hash} (early : w.now + d * pending.length < plan.deadline) (v : World ε σ)
    (e : Error) : scan plan chain base head w pending ≠ .done v (.error e) := by
  induction pending generalizing w with
  | nil => exact Verdict.exhausted.next_ne_error base head w v e
  | cons hash pending ih =>
    rw [List.length_cons, Nat.mul_succ] at early
    obtain ⟨u, state, quiet, soon, taken⟩ := step_swift_lookup swift held uncancelled
      (show w.now + d < plan.deadline by omega) base head hash pending
    cases decided : plan.decision (chain.receipt hash w.now w.chain).1.answer with
    | some verdict =>
      rw [decided] at taken
      rw [scan_cons_of_decided taken]
      exact verdict.next_ne_error base head u v e
    | none =>
      rw [decided] at taken
      rw [scan_cons_of_passed taken]
      exact ih (state ▸ fixed.kept held hash w.now) quiet (by omega)

theorem ScanEnds.exists_verdict {verdict : Verdict} {lookups : List Hash} {next : Next ε σ}
    (ends : ScanEnds plan answers base head w verdict lookups next)
    (undisturbed : ∀ v e, next ≠ .done v (.error e)) :
    ∃ v, next = verdict.next base head v ∧ LookedUp answers lookups w v := by
  cases ends with
  | @decided v looked => exact ⟨v, rfl, looked⟩
  | disturbed => exact absurd rfl (undisturbed _ _)

/-! ## Scans against the scan that remembers nothing -/

/-- A verdict and lookups are those of a scan of logs in order that looks up each transaction
once. -/
structure Plan.ScansOnce (plan : Plan) (answers : Hash → Except ε (Option Receipt))
    (ordered : List Log) (verdict : Verdict) (lookups : List Hash) : Prop where
  /-- the verdict of the scan that looks up every log -/
  plain : verdict = (plan.plainScan answers ordered).1
  /-- its lookups, without repetitions -/
  once : lookups = (plan.plainScan answers ordered).2.eraseDups
  /-- the verdict of the first transaction that decides -/
  first : verdict = ((transactions ordered).findSome? fun hash =>
    plan.decision (answers hash)).getD .exhausted
  /-- the transactions up to that one -/
  upTo : lookups =
    upTo (fun hash => (plan.decision (answers hash)).isSome) (transactions ordered)
  nodup : lookups.Nodup

/-- Scanning the transactions of ordered logs, each once, has the verdict and the lookups of the
plain scan. -/
theorem Plan.scansOnce (plan : Plan) (answers : Hash → Except ε (Option Receipt))
    (ordered : List Log) :
    plan.ScansOnce answers ordered (plan.verdict answers (transactions ordered))
      (plan.lookups answers (transactions ordered)) where
  plain := by rw [plainScan_eq, transactions, verdict_eraseDups]
  once := by rw [plainScan_eq, transactions, lookups_eraseDups]
  first := rfl
  upTo := rfl
  nodup := by
    rw [transactions, lookups_eraseDups, ← unseen_nil]
    exact (nodup_unseen ..).1

/-- Where lookups are answered by the transaction alone, the scan of a window comes to the verdict
of the scan that looks up every log in the order of block and log, and makes the same lookups, each
once, up to the first that decides. Nothing but the deadline or a cancellation keeps it from its
verdict. -/
theorem scan_eq_plainScan (plan : Plan) (fixed : chain.LooksUp inv answers)
    {logs ordered : List Log} (inOrder : Log.InOrder logs ordered) (held : inv w.chain)
    (base head : BlockNumber) :
    run plan chain w (.receipts base head (candidates logs)) =
        (scan plan chain base head w (candidates logs)).ending plan chain ∧
      ∃ verdict lookups, plan.ScansOnce answers ordered verdict lookups ∧
        ScanEnds plan answers base head w verdict lookups
          (scan plan chain base head w (candidates logs)) := by
  refine ⟨run_scan .., _, _, plan.scansOnce answers ordered, ?_⟩
  rw [candidates_eq_transactions inOrder]
  exact scan_ends fixed held base head (transactions ordered)

end

namespace Sample

/-- What lookups of transactions answer: the one of the receipt has it, one fails, and no other is
mined. -/
def catalogue (hash : Hash) : Except Failure (Option Receipt) :=
  if hash = receipt.transactionHash then .ok (some receipt)
  else if hash = .ofNat 32 8 then .error .network
  else .ok none

/-- A chain that answers lookups from the catalogue after two ticks. -/
def archive : Chain Failure Unit where
  head _ state := ({ answer := .ok 12 }, state)
  logs _ _ state := ({ answer := .ok [] }, state)
  receipt hash _ state := ({ answer := catalogue hash, delay := some 2 }, state)

theorem archive_looksUp : archive.LooksUp (fun _ => True) catalogue where
  answer _ _ _ := rfl
  kept _ _ _ := trivial

theorem archive_swift : archive.Swift (fun _ => True) 2 where
  delay _ _ _ := ⟨2, le_refl 2, rfl⟩
  action _ _ _ := nofun

/-- A log of a transaction in a place. -/
def logAt (transaction : ℕ) (block index : UInt64) : Log :=
  { nonceLog with
    transactionHash := .ofNat 32 transaction
    blockNumber := block
    logIndex := index }

/-- Logs of three transactions, the last first. The transaction of the first log in the order of
block and log is not mined. -/
def scattered : List Log :=
  [logAt 8 12 0, logAt 5 11 1, logAt 9 11 2, logAt 9 11 1, logAt 5 10 0]

def gathered : List Log :=
  [logAt 5 10 0, logAt 5 11 1, logAt 9 11 1, logAt 9 11 2, logAt 8 12 0]

end Sample

/-- A failing lookup behind the one that decides is not made, nor is a lookup repeated. -/
theorem scattered_window_resolved :
    ∃ v, run (Sample.waiter.plan Sample.identifier none 0) Sample.archive
        { now := 0, handle := .never, chain := () }
        (.receipts 6 12 (candidates Sample.scattered)) =
          ⟨.ok ⟨.executed, Sample.receipt⟩, v⟩ ∧
      LookedUp Sample.catalogue [.ofNat 32 5, .ofNat 32 9]
        { now := 0, handle := .never, chain := () } v := by
  have inOrder : Log.InOrder Sample.scattered Sample.gathered := by decide +kernel
  obtain ⟨ran, verdict, lookups, scanned, ends⟩ :=
    scan_eq_plainScan (Sample.waiter.plan Sample.identifier none 0) Sample.archive_looksUp inOrder
      (w := { now := 0, handle := .never, chain := () }) trivial 6 12
  have plain : (Sample.waiter.plan Sample.identifier none 0).plainScan Sample.catalogue
      Sample.gathered =
        (.resolved ⟨.executed, Sample.receipt⟩, [.ofNat 32 5, .ofNat 32 5, .ofNat 32 9]) := by
    decide +kernel
  have lookups_eq : lookups = [.ofNat 32 5, .ofNat 32 9] := by
    rw [scanned.once, plain]
    decide +kernel
  rw [scanned.plain, plain, lookups_eq] at ends
  have few : (candidates Sample.scattered).length = 3 := by
    rw [candidates_eq_transactions inOrder]
    decide +kernel
  obtain ⟨v, resolved, looked⟩ := ends.exists_verdict
    (scan_not_disturbed Sample.archive_looksUp Sample.archive_swift trivial rfl 6 12 (by
      rw [few]
      decide +kernel))
  refine ⟨v, ?_, looked⟩
  rw [ran, resolved]
  rfl

end MetaTransaction.Confirmation
