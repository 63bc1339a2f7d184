import MetaTransaction.Proofs.Confirmation.Reference
import MetaTransaction.Proofs.Confirmation.View

/-!
# Logs of other contracts

Where the settings name a wallet, only its logs count: what other contracts add to receipts, take
from them or change in them makes no difference to a wait, wherever it stands. The view that leaves
a receipt nothing but the logs of the wallet is clear to the plan.

* `foreign_logs_do_not_interfere` — waits over chains whose receipts differ in foreign logs;
* `Script.agree_tampered` — scripts to which it applies.
-/

namespace MetaTransaction

/-- Receipts that are the same to a wallet: they differ at most in logs of other contracts. These
may be more or fewer, and may stand anywhere between the wallet's own. -/
structure Receipt.SameFor (wallet : Address) (r r' : Receipt) : Prop where
  transactionHash : r.transactionHash = r'.transactionHash
  blockNumber : r.blockNumber = r'.blockNumber
  success : r.success = r'.success
  gasUsed : r.gasUsed = r'.gasUsed
  /-- the wallet's own logs, in their order -/
  logs : r.logs.filter (·.address = wallet) = r'.logs.filter (·.address = wallet)

namespace Confirmation

variable {ε δ σ τ : Type}

/-- The view that shows the logs of one wallet alone in receipts. Listed logs are left as they are,
since their query asks for the wallet already. -/
def View.ofWallet (wallet : Address) : View where
  receipt receipt := { receipt with logs := receipt.logs.filter (isFrom (some wallet)) }

/-- Receipts look the same to a wallet exactly if they are the same to it. -/
theorem View.sameReceipt_ofWallet (wallet : Address) :
    (ofWallet wallet).SameReceipt = Receipt.SameFor wallet := by
  funext r r'
  rw [SameReceipt, ofWallet, Receipt.mk.injEq]
  refine propext ⟨?_, ?_⟩
  · rintro ⟨transactionHash, blockNumber, success, gasUsed, logs⟩
    exact ⟨transactionHash, blockNumber, success, gasUsed, logs⟩
  · rintro ⟨transactionHash, blockNumber, success, gasUsed, logs⟩
    exact ⟨transactionHash, blockNumber, success, gasUsed, logs⟩

/-- A plan for one wallet looks at the logs of that wallet alone. Filtering twice is filtering
once. -/
theorem View.clear_ofWallet {plan : Plan} {wallet : Address}
    (named : plan.settings.wallet = some wallet) : (ofWallet wallet).Clear plan where
  listed _ := rfl
  reported receipt := by
    -- the classification takes the logs of the wallet once more
    rw [Plan.classify, Plan.classify, classifyReceipt, classifyReceipt, named, ofWallet,
      List.filter_filter]
    simp only [Bool.and_self]

/-- Where the settings name a wallet, other contracts do not interfere with a wait: over chains
whose answers differ at most in the logs of other contracts in receipts, the same calls are made at
the same instants, and the waits end with the same error, or with the same status and receipts of
the same transaction in the same block. -/
theorem foreign_logs_do_not_interfere {waiter : Waiter} {wallet : Address}
    (named : waiter.settings.wallet = some wallet) {R : σ → τ → Prop} {chain : Chain ε σ}
    {chain' : Chain δ τ} (agree : chain.Agree Eq (Receipt.SameFor wallet) R chain')
    (id : Identifier) (timeout : Option Duration) (handle : Handle) (now : ℕ) {state : σ}
    {state' : τ} (start : R state state') :
    Ending.Agree (Receipt.SameFor wallet) (waiter.wait chain id timeout handle now state)
      (waiter.wait chain' id timeout handle now state') := by
  rw [← View.sameReceipt_ofWallet] at agree ⊢
  exact wait_agrees agree (congrArg _) waiter id timeout handle now
    (View.clear_ofWallet named) start

/-! ## Scripts whose receipts are tampered with -/

/-- The same span of calls with something else to see. -/
def Visible.map {α β : Type} (f : α → β) (v : Visible α) : Visible β :=
  { v with item := f v.item }

theorem Visible.at?_map {α β : Type} (f : α → β) (v : Visible α) (call : ℕ) :
    (v.map f).at? call = (v.at? call).map f := by
  rw [Visible.at?, Visible.at?, apply_ite (Option.map f)]
  rfl

/-- The script with changed receipts. -/
def Script.tampered (change : Receipt → Receipt) (s : Script) : Script :=
  { s with receipts := s.receipts.map (Visible.map change) }

/-- The receipts of transactions are changed, if the changes keep the transactions. Otherwise a
lookup could find another receipt. -/
theorem Script.receipt_tampered {change : Receipt → Receipt}
    (keeps : ∀ r, (change r).transactionHash = r.transactionHash) (s : Script) (hash : Hash)
    (state : State) :
    (s.tampered change).receipt hash state = (s.receipt hash state).map change := by
  have hashes : ((fun r => decide (r.transactionHash = hash)) ∘ change) =
      fun r => decide (r.transactionHash = hash) := by
    funext r
    rw [Function.comp, keeps]
  have items : (fun v => v.at? state.calls) ∘ Visible.map change =
      fun v => (v.at? state.calls).map change := by
    funext v
    exact v.at?_map change state.calls
  rw [receipt, receipt, tampered, List.filterMap_map, items, ← List.map_filterMap,
    List.find?_map, hashes]

/-- Scripts whose receipts stay the same to a wallet agree. -/
theorem Script.agree_tampered {wallet : Address} {change : Receipt → Receipt}
    (same : ∀ r : Receipt, r.SameFor wallet (change r)) (s : Script) :
    s.chain.Agree Eq (Receipt.SameFor wallet) Eq (s.tampered change).chain := by
  refine Script.agree rfl rfl (fun _ _ => rfl) ?_
  intro hash state
  rw [s.receipt_tampered fun r => (same r).transactionHash.symm]
  cases s.receipt hash state with
  | none => exact .none
  | some receipt => exact .some (same receipt)

namespace Sample

/-- The sample waiter, for the contract that emits the sample log. -/
def guarded : Waiter := ⟨{ settings with wallet := some nonceLog.address }, rfl⟩

/-- A failure that another contract reports. -/
def forgery : Log :=
  { nonceLog with
    address := .ofNat 20 4
    topics := [settings.failedTopic]
    data := identifier.hash.bytes }

/-- The receipt with the forgery before all other logs. -/
def forge (receipt : Receipt) : Receipt :=
  { receipt with logs := forgery :: receipt.logs }

theorem sameFor_forge (receipt : Receipt) : receipt.SameFor nonceLog.address (forge receipt) where
  transactionHash := rfl
  blockNumber := rfl
  success := rfl
  gasUsed := rfl
  logs := (List.filter_cons_of_neg (by decide)).symm

/-- Without a wallet the sample wait believes the forgery. -/
theorem forged_result :
    (ending (steady.tampered forge)).result = .ok ⟨.failed, forge receipt⟩ :=
  of_runFor (P := fun _ e => e.result = .ok ⟨.failed, forge receipt⟩) 12 (by decide +kernel)

theorem guarded_result :
    (guarded.wait steady.chain identifier none .never 0 {}).result = .ok ⟨.executed, receipt⟩ :=
  Confirmation.of_runFor (P := fun _ e => e.result = .ok ⟨.executed, receipt⟩) 12
    (by decide +kernel)

end Sample

/-- A forged failure in front of all logs misleads the sample wait without a wallet, but not the one
with the wallet. -/
theorem forged_failure_is_ignored :
    (Sample.ending (Sample.steady.tampered Sample.forge)).result =
        .ok ⟨.failed, Sample.forge Sample.receipt⟩ ∧
      Sample.guarded.settings.wallet = some Sample.nonceLog.address ∧
      Sample.steady.chain.Agree Eq (Receipt.SameFor Sample.nonceLog.address) Eq
        (Sample.steady.tampered Sample.forge).chain ∧
      ∃ carrier, Sample.receipt.SameFor Sample.nonceLog.address carrier ∧
        (Sample.guarded.wait (Sample.steady.tampered Sample.forge).chain Sample.identifier none
          .never 0 {}).result = .ok ⟨.executed, carrier⟩ := by
  have agree := Sample.steady.agree_tampered Sample.sameFor_forge
  refine ⟨Sample.forged_result, rfl, agree, ?_⟩
  have named : Sample.guarded.settings.wallet = some Sample.nonceLog.address := rfl
  have same := (foreign_logs_do_not_interfere named agree Sample.identifier none .never 0
    (rfl : ({} : Script.State) = {})).result
  rw [Sample.guarded_result] at same
  exact same.of_ok

end Confirmation

end MetaTransaction
