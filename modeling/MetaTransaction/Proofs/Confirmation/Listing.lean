import MetaTransaction.Proofs.Confirmation.Undisturbed
import MetaTransaction.Proofs.Confirmation.View

/-!
# The order of listed logs

A node may list the logs of an answer in any order. A wait sorts them by their place before it
looks at their transactions, so the order makes no difference, if logs of one place belong to one
transaction. The view that lists nothing but places and transactions, in order, is clear to each
plan, and through it two listings of the same logs are equal.

* `arranged_eq_of_relisted` — listings of the same logs look alike;
* `order_of_listing_is_irrelevant` — waits over chains that list logs in other orders;
* `Script.agree_relisted` — scripts to which it applies.
-/

namespace MetaTransaction

/-- The log with nothing but its place and its transaction. -/
def Log.located (log : Log) : Log :=
  { log with
    address := default
    topics := []
    data := [] }

/-- Logs with one place and one transaction are located alike. -/
theorem Log.located_eq {a b : Log} (block : a.blockNumber = b.blockNumber)
    (index : a.logIndex = b.logIndex) (hash : a.transactionHash = b.transactionHash) :
    a.located = b.located := by
  rw [located, located, block, index, hash]

/-- Logs neither of which comes after the other are in one place. -/
theorem Log.same_place {a b : Log} (first : a.notAfter b = true) (second : b.notAfter a = true) :
    a.blockNumber = b.blockNumber ∧ a.logIndex = b.logIndex := by
  rw [notAfter_iff] at first second
  have same := toLex.injective (le_antisymm first second)
  rw [Prod.mk.injEq, UInt64.toNat_inj, UInt64.toNat_inj] at same
  exact same

namespace Confirmation

variable {ε δ σ τ : Type}

/-- Two listings of the same logs, where logs of one place belong to one transaction. Without the
second condition the order of candidates could depend on the order of listing, because sorting keeps
the order of logs that share a place. -/
structure Relisted (logs logs' : List Log) : Prop where
  perm : logs.Perm logs'
  carrier : ∀ a ∈ logs, ∀ b ∈ logs, a.blockNumber = b.blockNumber → a.logIndex = b.logIndex →
    a.transactionHash = b.transactionHash

/-- The places and transactions of logs, in order. -/
def arranged (logs : List Log) : List Log :=
  (logs.map Log.located).mergeSort Log.notAfter

theorem pairwise_arranged (logs : List Log) :
    (arranged logs).Pairwise fun a b => a.notAfter b = true :=
  List.pairwise_mergeSort Log.notAfter_trans Log.notAfter_total _

theorem exists_of_mem_arranged {logs : List Log} {a : Log} (mem : a ∈ arranged logs) :
    ∃ log ∈ logs, log.located = a :=
  List.mem_map.mp ((List.mergeSort_perm _ _).mem_iff.mp mem)

/-- What is arranged has the candidates of the logs. Candidates are taken from places and
transactions, which is all that is left of a log that is arranged. -/
theorem candidates_arranged (logs : List Log) : candidates (arranged logs) = candidates logs := by
  have placed : ∀ a ∈ logs, ∀ b ∈ logs, a.notAfter b = a.located.notAfter b.located :=
    fun _ _ _ _ => rfl
  have sorted : arranged logs = (logs.mergeSort Log.notAfter).map Log.located :=
    (List.map_mergeSort placed).symm
  rw [candidates, candidates, List.mergeSort_of_pairwise (pairwise_arranged logs), sorted,
    List.map_map]
  rfl

/-- Listings of the same logs are arranged alike. Both are sorted permutations of the same places
and transactions, and where two places coincide the logs are equal because they belong to one
transaction. -/
theorem arranged_eq_of_relisted {logs logs' : List Log} (relisted : Relisted logs logs') :
    arranged logs = arranged logs' := by
  refine List.Perm.eq_of_pairwise ?_ (pairwise_arranged logs) (pairwise_arranged logs') ?_
  · -- what is left of logs in one place is the same, since their transaction is
    intro a b mem mem' first second
    obtain ⟨log, listed, rfl⟩ := exists_of_mem_arranged mem
    obtain ⟨log', listed', rfl⟩ := exists_of_mem_arranged mem'
    obtain ⟨block, index⟩ := Log.same_place first second
    exact Log.located_eq block index
      (relisted.carrier log listed log' (relisted.perm.mem_iff.mpr listed') block index)
  · exact (List.mergeSort_perm _ _).trans
      ((relisted.perm.map Log.located).trans (List.mergeSort_perm _ _).symm)

/-- The view that lists places and transactions, in order. Two chains that list the same logs look
the same through it. -/
def View.inOrder : View where
  logs := arranged

/-- The view hides nothing that a wait uses: of a listing it takes the candidates alone. -/
theorem View.clear_inOrder (plan : Plan) : inOrder.Clear plan where
  listed := candidates_arranged
  reported _ := rfl

/-- The order in which a chain lists the logs of an answer is irrelevant to a wait: over chains
whose answers differ at most in it, the same calls are made at the same instants, and the waits end
at the same instant with the same result. -/
theorem order_of_listing_is_irrelevant {R : σ → τ → Prop} {chain : Chain ε σ} {chain' : Chain δ τ}
    (agree : chain.Agree Relisted Eq R chain') (waiter : Waiter) (id : Identifier)
    (timeout : Option Duration) (handle : Handle) (now : ℕ) {state : σ} {state' : τ}
    (start : R state state') :
    (waiter.wait chain id timeout handle now state).world.calls.map ChainCall.question =
        (waiter.wait chain' id timeout handle now state').world.calls.map ChainCall.question ∧
      (waiter.wait chain id timeout handle now state).world.now =
        (waiter.wait chain' id timeout handle now state').world.now ∧
      (waiter.wait chain id timeout handle now state).result =
        (waiter.wait chain' id timeout handle now state').result := by
  have alike : chain.Agree Relisted View.inOrder.SameReceipt R chain' := agree
  have same := wait_agrees alike arranged_eq_of_relisted waiter id timeout handle now
    (View.clear_inOrder _) start
  exact ⟨same.questions, same.now, same.result.eq⟩

/-! ## Scripts that list logs in another order -/

theorem Visible.eq_item_of_at? {α : Type} {v : Visible α} {call : ℕ} {a : α}
    (seen : v.at? call = some a) : a = v.item := by
  rw [Visible.at?, Option.ite_none_right_eq_some] at seen
  exact (Option.some.inj seen.2).symm

/-- Scripts whose logs are permuted agree, if logs of one place belong to one transaction. -/
theorem Script.agree_relisted {s : Script} {logs : List (Visible Log)} (perm : s.logs.Perm logs)
    (carrier : ∀ u ∈ s.logs, ∀ v ∈ s.logs, u.item.blockNumber = v.item.blockNumber →
      u.item.logIndex = v.item.logIndex → u.item.transactionHash = v.item.transactionHash) :
    s.chain.Agree Relisted Eq Eq { s with logs }.chain := by
  refine Script.agree rfl rfl ?_ ?_
  · intro filter state
    have shown : ∀ log ∈ s.matchingLogs filter state, ∃ v ∈ s.logs, v.item = log := by
      intro log mem
      obtain ⟨v, listed, seen⟩ := List.mem_filterMap.mp (List.mem_of_mem_filter mem)
      exact ⟨v, listed, (Visible.eq_item_of_at? seen).symm⟩
    refine ⟨(perm.filterMap _).filter _, ?_⟩
    intro a mem b mem'
    obtain ⟨u, listed, rfl⟩ := shown a mem
    obtain ⟨v, listed', rfl⟩ := shown b mem'
    exact carrier u listed v listed'
  · intro hash state
    change Option.Rel Eq (s.receipt hash state) (s.receipt hash state)
    cases s.receipt hash state with
    | none => exact .none
    | some receipt => exact .some rfl

namespace Sample

/-- A log of another transaction, right after the sample log. -/
def nextLog : Log :=
  { nonceLog with
    logIndex := 1
    transactionHash := .ofNat 32 8 }

/-- The receipt of its transaction, which reports a failure. -/
def nextReceipt : Receipt :=
  { receipt with
    transactionHash := nextLog.transactionHash
    logs := [{ nextLog with topics := [settings.failedTopic], data := identifier.hash.bytes }] }

/-- The sample chain with both transactions, and their logs in a given order. -/
def crowded (logs : List Log) : Script :=
  { steady with
    logs := logs.map fun log => { item := log }
    receipts := [{ item := nextReceipt }, { item := receipt }] }

theorem crowded_undisturbed :
    Undisturbed (crowded [nonceLog, nextLog]).chain (fun n state => state.heads = n)
      (fun n => steady.head { heads := n }) [nonceLog, nextLog]
      (fun hash => [nextReceipt, receipt].find? (·.transactionHash = hash)) :=
  (crowded [nonceLog, nextLog]).undisturbed rfl rfl (by simp [crowded, Visible.Always])
    (by simp [crowded, Visible.Always]) (by decide)

theorem crowded_result :
    (ending (crowded [nonceLog, nextLog])).result = .ok ⟨.executed, receipt⟩ := by
  -- a sort of two logs does not compute in the kernel, but the least of them does
  have least : settings.leastEligible identifier [nonceLog, nextLog]
      (fun hash => [nextReceipt, receipt].find? (·.transactionHash = hash)) 9 = some nonceLog := by
    decide +kernel
  have poll : (waiter.plan identifier none 0).settings.pollInterval.ticks = 10 := by decide
  have opening : World.Quiet (fun n (state : Script.State) => state.heads = n) 0 0
      ({ now := 0, handle := .never, chain := {} } : World Failure Script.State) :=
    ⟨rfl, rfl, rfl⟩
  obtain ⟨outcome, decides, v, -, ran⟩ :=
    run_resolves crowded_undisturbed poll least steady_first 1 rfl opening (by decide)
  obtain rfl : (⟨.executed, receipt⟩ : Outcome) = outcome := Option.some.inj decides
  exact congrArg Ending.result ran

theorem crowded_agree :
    (crowded [nonceLog, nextLog]).chain.Agree Relisted Eq Eq
      (crowded [nextLog, nonceLog]).chain := by
  refine Script.agree_relisted (List.Perm.swap ..) ?_
  decide

end Sample

/-- The sample wait takes the first of two transactions in a block, whichever is listed first. -/
theorem first_in_block_is_taken :
    (Sample.crowded [Sample.nonceLog, Sample.nextLog]).chain.Agree Relisted Eq Eq
        (Sample.crowded [Sample.nextLog, Sample.nonceLog]).chain ∧
      (Sample.ending (Sample.crowded [Sample.nonceLog, Sample.nextLog])).result =
        .ok ⟨.executed, Sample.receipt⟩ ∧
      (Sample.ending (Sample.crowded [Sample.nextLog, Sample.nonceLog])).result =
        .ok ⟨.executed, Sample.receipt⟩ := by
  refine ⟨Sample.crowded_agree, Sample.crowded_result, ?_⟩
  have same := (order_of_listing_is_irrelevant Sample.crowded_agree Sample.waiter
    Sample.identifier none .never 0 (rfl : ({} : Script.State) = {})).2.2
  exact same.symm.trans Sample.crowded_result

end Confirmation

end MetaTransaction
