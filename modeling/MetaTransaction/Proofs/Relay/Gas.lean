import Mathlib.Data.List.Basic
import MetaTransaction.Proofs.Relay.Exchange
import MetaTransaction.Proofs.Relay.Submission

/-!
# Estimated gas

The local relayer fills in gas limits by trying calls out at the node, one after another. What is
proved of it does not depend on the node: it holds for whatever is talked with it.

* `Estimation` — what an estimation makes of the answers, call by call;
* `estimate_runs` — every run talks with the node and makes such an estimation;
* `estimation_is_exact_or_fails` — the rules of every run.
-/

namespace MetaTransaction

variable {ν : Type}

/-- The amount of gas that a node answers. -/
def Exchange.gas? (x : Exchange) : Option (BitVec 64) :=
  x.read (Json.word? 64)

namespace LocalRelayer

/-- An amount of gas stays what it is when it becomes a word, so that only an amount of zero looks
like a call without a limit. -/
theorem setWidth_eq_zero {gas : BitVec 64} : gas.setWidth 256 = 0 ↔ gas = 0 := by
  simp [← BitVec.toNat_inj]
  omega

/-- The call has no gas limit, and can be tried out from outside the wallet. A delegate call runs as
the wallet's own code, which a trial would not. -/
def Lacks (call : Call) : Prop :=
  call.gasLimit = 0 ∧ call.delegateCall = false

instance : DecidablePred Lacks := fun _ => inferInstanceAs (Decidable (_ ∧ _))

/-- The request to try a call out as the wallet. -/
def trial (wallet : Address) (call : Call) : NodeRequest :=
  .estimateGas wallet call.target call.value call.data

theorem needsGas_iff {call : Call} : needsGas call ↔ Lacks call := by
  simp [needsGas, Lacks]

/-! ## One call after another -/

section

variable {node : Node ν} {wallet : Address} {call : Call} {calls : List Call}
  {before between after : State ν}

/-- A call that lacks nothing is left alone. -/
theorem estimateCall_of_kept (kept : ¬ Lacks call) (state : State ν) :
    estimateCall node wallet call state = (.ok call, state) := by
  rw [estimateCall, if_neg (mt needsGas_iff.mp kept)]
  rfl

/-- A call that lacks gas is tried out, and gets the amount that the node answers. -/
theorem estimateCall_of_amount {x : Exchange} {told : ν} {gas : BitVec 64} (lacks : Lacks call)
    (request : x.request = trial wallet call)
    (asked : node.fetch x.request before.now before.node = (x.answer, told))
    (amount : x.gas? = some gas) :
    estimateCall node wallet call before =
      (.ok { call with gasLimit := gas.setWidth 256 }, { before with node := told }) := by
  have fetched := fetch_of_read (.estimateGas call.target) asked amount
  rw [request] at fetched
  rw [estimateCall, if_pos (needsGas_iff.mpr lacks)]
  exact RelayAction.bind_of_ok fetched

/-- Otherwise the estimation of the call fails. -/
theorem estimateCall_of_fails {x : Exchange} {told : ν} {failure : NodeFailure} (lacks : Lacks call)
    (request : x.request = trial wallet call)
    (asked : node.fetch x.request before.now before.node = (x.answer, told))
    (fails : x.Fails (Json.word? 64) failure) :
    estimateCall node wallet call before =
      (.error (.node ⟨.estimateGas call.target, failure⟩), { before with node := told }) := by
  have fetched := fetch_of_fails (.estimateGas call.target) asked fails
  rw [request] at fetched
  rw [estimateCall, if_pos (needsGas_iff.mpr lacks)]
  exact RelayAction.bind_of_error fetched

theorem estimate_cons_of_ok {filled : Call} {result : Except RelayError (List Call)}
    (first : estimateCall node wallet call before = (.ok filled, between))
    (others : estimate node wallet calls between = (result, after)) :
    estimate node wallet (call :: calls) before = (result.map (filled :: ·), after) := by
  rw [estimate, List.mapM_cons, RelayAction.bind_of_ok first]
  cases result with
  | error e => exact RelayAction.bind_of_error others
  | ok estimated => exact RelayAction.bind_of_ok others

/-- Where the first call does not get its gas, the estimation is over, and the other calls are not
tried out. -/
theorem estimate_cons_of_error {e : RelayError}
    (first : estimateCall node wallet call before = (.error e, after)) :
    estimate node wallet (call :: calls) before = (.error e, after) := by
  rw [estimate, List.mapM_cons, RelayAction.bind_of_error first]

end

/-! ## What is made of the answers -/

/-- An estimation: calls that lack gas are tried out in their order, and each gets the amount that
is answered to its own trial, up to the first answer that is none. It relates the calls and the
answers to the result, without the node and its states; what is to be shown of estimations is proved
by induction over it, one rule at a time. -/
inductive Estimation (wallet : Address) :
    List Call → List Exchange → Except RelayError (List Call) → Prop
  | nil : Estimation wallet [] [] (.ok [])
  | kept {call calls talk result} : ¬ Lacks call → Estimation wallet calls talk result →
      Estimation wallet (call :: calls) talk (result.map (call :: ·))
  | filled {call calls x gas talk result} : Lacks call → x.request = trial wallet call →
      x.gas? = some gas → Estimation wallet calls talk result →
      Estimation wallet (call :: calls) (x :: talk)
        (result.map ({ call with gasLimit := gas.setWidth 256 } :: ·))
  | failed {call calls x failure} : Lacks call → x.request = trial wallet call →
      x.Fails (Json.word? 64) failure →
      Estimation wallet (call :: calls) [x] (.error (.node ⟨.estimateGas call.target, failure⟩))

namespace Estimation

variable {wallet : Address} {calls : List Call} {talk : List Exchange}
  {result : Except RelayError (List Call)}

/-- Only trials of the calls that lack gas are asked for, in their order. It is a prefix because an
answer may be the last. -/
theorem asks (estimation : Estimation wallet calls talk result) :
    talk.map Exchange.request <+: (calls.filter Lacks).map (trial wallet) := by
  induction estimation with
  | nil => exact List.nil_prefix
  | kept kept _ ih => simpa [kept] using ih
  | filled lacks asked _ _ ih => simpa [lacks, asked, List.cons_prefix_cons] using ih
  | failed lacks asked _ => simp [lacks, asked, List.cons_prefix_cons]

/-- Nothing is asked for after an answer that is no amount. -/
theorem stops (estimation : Estimation wallet calls talk result) :
    ∀ x ∈ talk.dropLast, ∃ gas, x.gas? = some gas := by
  induction estimation with
  | nil => simp
  | kept _ _ ih => exact ih
  | @filled _ _ x gas talk _ _ _ told _ ih =>
    cases talk with
    | nil => simp
    | cons y talk => simpa [told] using ih
  | failed => simp

/-- An estimation comes to its end when all answers are amounts. -/
theorem succeeds (estimation : Estimation wallet calls talk result) :
    (∃ estimated, result = .ok estimated) ↔ ∀ x ∈ talk, ∃ gas, x.gas? = some gas := by
  induction estimation with
  | nil => simp
  | @kept _ _ _ result _ _ ih => rw [← ih]; cases result <;> simp [Except.map]
  | @filled _ _ x gas _ result _ _ told _ ih =>
    rw [List.forall_mem_cons, ← ih]
    cases result <;> simp [Except.map, told]
  | failed _ _ fails => simp [Exchange.gas?, fails.read_eq_none]

/-- An estimation that has come to its end has tried out all calls that lack gas, and has as many calls
as before. -/
theorem completes {estimated : List Call} (estimation : Estimation wallet calls talk result)
    (ok : result = .ok estimated) :
    talk.map Exchange.request = (calls.filter Lacks).map (trial wallet) ∧
      estimated.length = calls.length := by
  induction estimation generalizing estimated with
  | nil =>
    obtain rfl := Except.ok.inj ok
    exact ⟨rfl, rfl⟩
  | kept kept _ ih =>
    obtain ⟨others, ended, rfl⟩ := Except.map_eq_ok_iff.mp ok
    obtain ⟨asked, length⟩ := ih ended
    exact ⟨by simpa [kept] using asked, by simpa using length⟩
  | filled lacks request _ _ ih =>
    obtain ⟨others, ended, rfl⟩ := Except.map_eq_ok_iff.mp ok
    obtain ⟨asked, length⟩ := ih ended
    exact ⟨by simpa [lacks, request] using asked, by simpa using length⟩
  | failed => cases ok

/-- Each call that lacks gas gets the amount that is answered to its own trial, and the others are
left alone. The trial of a call is found by counting the calls before it that lack gas. -/
theorem pairs {estimated : List Call} (estimation : Estimation wallet calls talk result)
    (ok : result = .ok estimated) {i : ℕ} {call : Call} (here : calls[i]? = some call) :
    (¬ Lacks call → estimated[i]? = some call) ∧
      (Lacks call → ∃ x gas, talk[(calls.take i).countP Lacks]? = some x ∧
        x.request = trial wallet call ∧ x.gas? = some gas ∧
        estimated[i]? = some { call with gasLimit := gas.setWidth 256 }) := by
  induction estimation generalizing estimated i with
  | nil => cases here
  | kept kept _ ih =>
    obtain ⟨others, ended, rfl⟩ := Except.map_eq_ok_iff.mp ok
    cases i with
    | zero =>
      obtain rfl := Option.some.inj here
      exact ⟨fun _ => rfl, fun lacks => absurd lacks kept⟩
    | succ i => simpa [kept] using ih ended here
  | @filled _ _ x gas _ _ lacks request told _ ih =>
    obtain ⟨others, ended, rfl⟩ := Except.map_eq_ok_iff.mp ok
    cases i with
    | zero =>
      obtain rfl := Option.some.inj here
      exact ⟨fun kept => absurd lacks kept, fun _ => ⟨x, gas, rfl, request, told, rfl⟩⟩
    | succ i => simpa [lacks] using ih ended here
  | failed => cases ok

/-- An estimation fails with the last answer, and names the call that was tried out. -/
theorem fails {e : RelayError} (estimation : Estimation wallet calls talk result)
    (error : result = .error e) :
    ∃ call ∈ calls, Lacks call ∧ ∃ x failure, talk.getLast? = some x ∧
      x.request = trial wallet call ∧ x.Fails (Json.word? 64) failure ∧
      e = .node ⟨.estimateGas call.target, failure⟩ := by
  induction estimation with
  | nil => cases error
  | kept _ _ ih =>
    obtain ⟨call, mem, found⟩ := ih (Except.map_eq_error_iff.mp error)
    exact ⟨call, List.mem_cons_of_mem _ mem, found⟩
  | @filled _ _ _ _ talk _ _ _ _ _ ih =>
    obtain ⟨call, mem, lacks, x, failure, last, found⟩ := ih (Except.map_eq_error_iff.mp error)
    refine ⟨call, List.mem_cons_of_mem _ mem, lacks, x, failure, ?_, found⟩
    rw [List.getLast?_cons, last]
    rfl
  | @failed call _ x failure lacks request fails =>
    exact ⟨call, List.mem_cons_self, lacks, x, failure, rfl, request, fails,
      (Except.error.inj error).symm⟩

/-- No call lacks gas afterwards, unless an answer was zero. So a second estimation has nothing to
do. -/
theorem settles {estimated : List Call} (estimation : Estimation wallet calls talk result)
    (ok : result = .ok estimated) (positive : ∀ x ∈ talk, x.gas? ≠ some 0) :
    ∀ call ∈ estimated, ¬ Lacks call := by
  induction estimation generalizing estimated with
  | nil =>
    obtain rfl := Except.ok.inj ok
    simp
  | kept kept _ ih =>
    obtain ⟨others, ended, rfl⟩ := Except.map_eq_ok_iff.mp ok
    exact List.forall_mem_cons.mpr ⟨kept, ih ended positive⟩
  | @filled _ _ _ gas _ _ _ _ told _ ih =>
    obtain ⟨others, ended, rfl⟩ := Except.map_eq_ok_iff.mp ok
    rw [List.forall_mem_cons] at positive
    refine List.forall_mem_cons.mpr ⟨?_, ih ended positive.2⟩
    rintro ⟨zero, -⟩
    apply positive.1
    rw [told, setWidth_eq_zero.mp zero]
  | failed => cases ok

end Estimation

/-! ## Runs -/

/-- A run talks with the node and makes an estimation of the answers. A node that notes the requests
is asked the same. The induction is over the calls; this is the only place where the program itself
is looked at. -/
theorem estimate_runs (node : Node ν) (wallet : Address) (calls : List Call) (before : State ν) :
    ∃ talk result after, node.Talks before.now before.node talk after ∧
      estimate node wallet calls before = (result, { before with node := after }) ∧
      (∀ noted, estimate node.noted wallet calls ⟨(before.node, noted), before.now⟩ =
        (result, ⟨(after, (talk.map Exchange.request).reverse ++ noted), before.now⟩)) ∧
      Estimation wallet calls talk result := by
  induction calls generalizing before with
  | nil => exact ⟨[], .ok [], before.node, .nil, rfl, fun _ => rfl, .nil⟩
  | cons call calls ih =>
    by_cases lacks : Lacks call
    · obtain ⟨x, told, request, asked, asked'⟩ :=
        node.exists_exchange (trial wallet call) before.now before.node
      rcases x.reads (Json.word? 64) with ⟨gas, amount⟩ | ⟨failure, fails⟩
      · obtain ⟨talk, result, after, talks, plain, noted, estimation⟩ :=
          ih { before with node := told }
        refine ⟨x :: talk, _, after, .cons asked talks, ?_, ?_,
          .filled lacks request amount estimation⟩
        · exact estimate_cons_of_ok (estimateCall_of_amount lacks request asked amount) plain
        · intro l
          rw [List.map_cons, List.reverse_cons, List.append_assoc, List.singleton_append]
          apply estimate_cons_of_ok _ (noted _)
          exact estimateCall_of_amount lacks request (asked' l) amount
      · refine ⟨[x], _, told, .cons asked .nil, ?_, ?_, .failed lacks request fails⟩
        · exact estimate_cons_of_error (estimateCall_of_fails lacks request asked fails)
        · intro l
          exact estimate_cons_of_error (estimateCall_of_fails lacks request (asked' l) fails)
    · obtain ⟨talk, result, after, talks, plain, noted, estimation⟩ := ih before
      exact ⟨talk, _, after, talks, estimate_cons_of_ok (estimateCall_of_kept lacks _) plain,
        fun l => estimate_cons_of_ok (estimateCall_of_kept lacks _) (noted l),
        .kept lacks estimation⟩

/-- Calls that lack no gas are left alone, and nothing is asked. -/
theorem estimate_of_kept (node : Node ν) (wallet : Address) {calls : List Call}
    (kept : ∀ call ∈ calls, ¬ Lacks call) (state : State ν) :
    estimate node wallet calls state = (.ok calls, state) := by
  induction calls with
  | nil => rfl
  | cons call calls ih =>
    rw [List.forall_mem_cons] at kept
    exact estimate_cons_of_ok (estimateCall_of_kept kept.1 _) (ih kept.2)

/-! ## The rules -/

/-- The rules of an estimation. -/
structure Estimates (wallet : Address) (calls : List Call) (talk : List Exchange)
    (result : Except RelayError (List Call)) : Prop where
  /-- calls without a limit that are no delegate calls are tried out, in their order, and nothing else
  is asked -/
  asks : talk.map Exchange.request <+: (calls.filter Lacks).map (trial wallet)
  /-- nothing is asked after an answer that is no amount -/
  stops : ∀ x ∈ talk.dropLast, ∃ gas, x.gas? = some gas
  succeeds : (∃ estimated, result = .ok estimated) ↔ ∀ x ∈ talk, ∃ gas, x.gas? = some gas
  completes : ∀ estimated, result = .ok estimated →
    talk.map Exchange.request = (calls.filter Lacks).map (trial wallet) ∧
      estimated.length = calls.length
  /-- the amount that is answered to the trial of a call is its gas limit, and nothing else changes -/
  pairs : ∀ estimated, result = .ok estimated → ∀ i call, calls[i]? = some call →
    (¬ Lacks call → estimated[i]? = some call) ∧
      (Lacks call → ∃ x gas, talk[(calls.take i).countP Lacks]? = some x ∧
        x.request = trial wallet call ∧ x.gas? = some gas ∧
        estimated[i]? = some { call with gasLimit := gas.setWidth 256 })
  /-- all that goes wrong is an error of the network -/
  fails : ∀ e, result = .error e → ∃ call ∈ calls, Lacks call ∧ ∃ x failure,
    talk.getLast? = some x ∧ x.request = trial wallet call ∧ x.Fails (Json.word? 64) failure ∧
    e = .node ⟨.estimateGas call.target, failure⟩ ∧
    e.message = "Network error: " ++ ("Failed to estimate gas for " ++ call.target.display) ++ ": " ++
      failure.message
  /-- a second estimation, for any wallet at any node, asks nothing and changes nothing -/
  settles : ∀ estimated, result = .ok estimated → (∀ x ∈ talk, x.gas? ≠ some 0) →
    ∀ {ν : Type} (node : Node ν) (wallet : Address) (state : State ν),
      estimate node wallet estimated state = (.ok estimated, state)

/-- Every estimation over a node asks requests one after another and follows the rules with the
answers, whatever these are. A second estimation of what a first one has given finds nothing to do,
unless a node has answered an amount of zero. -/
theorem estimation_is_exact_or_fails (node : Node ν) (wallet : Address) (calls : List Call)
    (before : State ν) :
    ∃ talk result after, node.Talks before.now before.node talk after ∧
      estimate node wallet calls before = (result, { before with node := after }) ∧
      (∀ noted, estimate node.noted wallet calls ⟨(before.node, noted), before.now⟩ =
        (result, ⟨(after, (talk.map Exchange.request).reverse ++ noted), before.now⟩)) ∧
      Estimates wallet calls talk result := by
  obtain ⟨talk, result, after, talks, plain, noted, estimation⟩ :=
    estimate_runs node wallet calls before
  refine ⟨talk, result, after, talks, plain, noted, estimation.asks, estimation.stops,
    estimation.succeeds, ?_, ?_, ?_, ?_⟩
  · intro estimated ok
    exact estimation.completes ok
  · intro estimated ok i call here
    exact estimation.pairs ok here
  · intro e error
    obtain ⟨call, mem, lacks, x, failure, last, request, fails, rfl⟩ := estimation.fails error
    exact ⟨call, mem, lacks, x, failure, last, request, fails, rfl, rfl⟩
  · intro estimated ok positive ν node wallet state
    exact estimate_of_kept node wallet (estimation.settles ok positive) state

end LocalRelayer

namespace Sample

/-- A node that answers the trials of calls with one amount after another. -/
def metering : Node ℕ where
  ask _ _ gas := ({ answer := .ok (.natural gas) }, gas + 1)

end Sample

/-- The amounts go to the calls that lack gas, past a delegate call and a call with a limit. -/
example :
    (LocalRelayer.estimate Sample.metering (.ofNat 20 3)
        [{ target := .ofNat 20 1 }, { target := .ofNat 20 1, delegateCall := true },
          { target := .ofNat 20 2, gasLimit := 7 }, { target := .ofNat 20 2 }] ⟨21000, 0⟩).1 =
      .ok
        [{ target := .ofNat 20 1, gasLimit := 21000 },
          { target := .ofNat 20 1, delegateCall := true },
          { target := .ofNat 20 2, gasLimit := 7 },
          { target := .ofNat 20 2, gasLimit := 21001 }] := by
  rfl

end MetaTransaction
