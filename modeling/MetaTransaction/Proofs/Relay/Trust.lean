import MetaTransaction.Proofs.Confirmation.Resolution
import MetaTransaction.Proofs.Relay.Submission
import MetaTransaction.Relay.Local

/-!
# Whose word an outcome is

An outcome can be checked: its receipt carries it when the first log of the receipt that reports the
identifier says the same. The service does not check this. It asks the relayer to wait and passes
the outcome on, so that whoever uses the service believes the relayer.

* `submitAndWait_eq_ok` — an outcome of the service is the answer of the relayer to one wait;
* `law_rests_on_relayer` — outcomes are carried just when the relayer sees to it, and a relayer can
  make the service tell any outcome;
* `LocalRelayer.lawful` — a relayer that waits with the engine sees to it.
-/

namespace MetaTransaction

variable {ρ ν : Type}

/-- The law of confirmations: the receipt of an outcome reports it. -/
def Outcome.Carried (failedTopic : Hash) (wallet : Option Address) (id : Identifier)
    (outcome : Outcome) : Prop :=
  (outcome.status = .executed ∨ outcome.status = .failed) ∧
    Confirmation.classifyReceipt id failedTopic wallet outcome.receipt = some outcome.status

namespace Relayer

section

variable {r : Relayer ρ} {signed : SignedBundle} {timeout : Option Duration} {before after : ρ}
  {submission : Submission} {outcome : Outcome}

/-- A submission is accepted when the relayer has acknowledged it under the identifier of the
bundle. -/
theorem submit_eq_ok :
    r.submit signed before = (.ok submission, after) ↔
      signed.chain = r.chain ∧ signed.identifier = .ok submission.identifier ∧
        r.relay signed before = (.ok submission, after) := by
  by_cases same : signed.chain = r.chain
  · by_cases empty : signed.bundle.calls = []
    · rw [submit_of_empty same empty, signed.identifier_of_empty empty]
      refine iff_of_false ?_ ?_
      · intro h
        cases h
      · rintro ⟨-, derived, -⟩
        cases derived
    · obtain ⟨id, derived⟩ := signed.identifier_of_nonempty empty
      rw [submit_of_admitted same derived, derived, Prod.ext_iff, Prod.ext_iff]
      simp only [acknowledged_eq_ok, same, true_and, Except.ok.injEq, eq_comm (a := id)]
      constructor
      · rintro ⟨⟨acknowledged, own⟩, left⟩
        exact ⟨own, acknowledged, left⟩
      · rintro ⟨own, acknowledged, left⟩
        exact ⟨⟨acknowledged, own⟩, left⟩
  · rw [submit_of_otherChain same]
    refine iff_of_false ?_ ?_
    · intro h
      cases h
    · rintro ⟨same', -⟩
      exact same same'

/-- An outcome of the service is the answer of the relayer to one wait, which follows an accepted
submission. -/
theorem submitAndWait_eq_ok :
    r.submitAndWait signed timeout before = (.ok (submission, outcome), after) ↔
      ∃ between, r.submit signed before = (.ok submission, between) ∧
        r.wait submission.identifier timeout between = (.ok outcome, after) := by
  cases submitted : r.submit signed before with
  | mk answer between =>
    cases answer with
    | error e =>
      rw [submitAndWait_of_error submitted]
      refine iff_of_false ?_ ?_
      · intro h
        cases h
      · rintro ⟨between', h, -⟩
        cases h
    | ok accepted =>
      rw [submitAndWait_of_ok submitted]
      cases waited : r.wait accepted.identifier timeout between with
      | mk result final =>
        cases result with
        | error e =>
          constructor
          · intro h
            cases h
          · rintro ⟨between', h, waited'⟩
            cases h
            rw [waited] at waited'
            cases waited'
        | ok told =>
          constructor
          · intro h
            cases h
            exact ⟨between, rfl, waited⟩
          · rintro ⟨between', h, waited'⟩
            cases h
            rw [waited] at waited'
            cases waited'
            rfl

/-! ## The law -/

/-- The law holds of all that the service tells in front of the relayer. Besides the bundle and the
timeout it speaks of every state in which the relayer may be. -/
def Lawful (failedTopic : Hash) (wallet : Option Address) (r : Relayer ρ) : Prop :=
  ∀ signed timeout before submission outcome after,
    r.submitAndWait signed timeout before = (.ok (submission, outcome), after) →
      ∃ id, signed.identifier = .ok id ∧ outcome.Carried failedTopic wallet id

/-- The law holds of all that the relayer tells about bundles that it has acknowledged. -/
def Truthful (failedTopic : Hash) (wallet : Option Address) (r : Relayer ρ) : Prop :=
  ∀ signed before id transactionHash between, signed.chain = r.chain → signed.identifier = .ok id →
    r.relay signed before = (.ok ⟨id, transactionHash⟩, between) →
      ∀ timeout outcome after, r.wait id timeout between = (.ok outcome, after) →
        outcome.Carried failedTopic wallet id

/-- The service adds nothing to what the relayer tells, and takes nothing away: the law holds of its
outcomes just when it holds of the relayer's. -/
theorem lawful_iff_truthful {failedTopic : Hash} {wallet : Option Address} :
    r.Lawful failedTopic wallet ↔ r.Truthful failedTopic wallet := by
  constructor
  · intro lawful signed before id transactionHash between same derived relayed timeout outcome after
      waited
    have accepted : r.submit signed before = (.ok ⟨id, transactionHash⟩, between) :=
      submit_eq_ok.mpr ⟨same, derived, relayed⟩
    obtain ⟨id', derived', carried⟩ := lawful signed timeout before _ outcome after
      (submitAndWait_eq_ok.mpr ⟨between, accepted, waited⟩)
    rw [derived] at derived'
    obtain rfl := Except.ok.inj derived'
    exact carried
  · intro truthful signed timeout before submission outcome after told
    obtain ⟨between, accepted, waited⟩ := submitAndWait_eq_ok.mp told
    obtain ⟨same, derived, relayed⟩ := submit_eq_ok.mp accepted
    exact ⟨_, derived, truthful _ _ _ _ _ same derived relayed _ _ _ waited⟩

end

/-- The same relayer, but that it tells one outcome whenever it is to wait. -/
def telling (r : Relayer ρ) (outcome : Outcome) : Relayer ρ :=
  { r with wait := fun _ _ state => (.ok outcome, state) }

/-- The law rests on the relayer alone: it holds of the service just when the relayer is truthful,
and once a bundle is acknowledged there is no outcome that a relayer cannot make the service tell. -/
theorem law_rests_on_relayer (r : Relayer ρ) (failedTopic : Hash) (wallet : Option Address) :
    (r.Lawful failedTopic wallet ↔ r.Truthful failedTopic wallet) ∧
      ∀ signed before submission between, r.submit signed before = (.ok submission, between) →
        ∀ outcome timeout, (r.telling outcome).submitAndWait signed timeout before =
          (.ok (submission, outcome), between) := by
  refine ⟨lawful_iff_truthful, ?_⟩
  intro signed before submission between accepted outcome timeout
  exact submitAndWait_eq_ok.mpr ⟨between, accepted, rfl⟩

end Relayer

namespace Sample

/-- A bundle that a relayer has been given. -/
def entrusted : SignedBundle where
  chain := .ethereum
  wallet := ⟨List.replicate 20 0xaa, rfl⟩
  bundle := { calls := [{ target := ⟨List.replicate 20 0x11, rfl⟩, data := [0x12, 0x34] }] }
  signature := List.replicate 65 1

/-- The transaction that carries it. -/
def carrier : Hash :=
  ⟨List.replicate 32 0x11, rfl⟩

/-- What the wallet emits when the execution of the bundle fails. -/
def failureLog (id : Identifier) : Log where
  address := entrusted.wallet
  topics := [Confirmation.failureTopic]
  data := id.hash.bytes ++ (Abi.number 64 ++ Abi.number 0)
  blockNumber := 1
  transactionHash := carrier
  logIndex := 0

def failedReceipt (id : Identifier) : Receipt where
  transactionHash := carrier
  blockNumber := 1
  success := true
  gasUsed := 60000
  logs := [failureLog id]

/-- A relayer that acknowledges all bundles and tells that they were executed, with receipts that
report their failure. -/
def lying : Relayer Unit where
  name := "mock"
  chain := .ethereum
  nonce _ space _ := RelayAction.ofDerivation (Nonce.ofCounter space 7)
  estimate _ calls := pure calls
  relay signed := do
    let identifier ← RelayAction.ofDerivation signed.identifier
    return { identifier, transactionHash := carrier }
  wait id _ := pure ⟨.executed, failedReceipt id⟩

theorem failedReceipt_reports (id : Identifier) :
    Confirmation.classifyReceipt id Confirmation.failureTopic none (failedReceipt id) =
      some .failed := by
  have shape : Confirmation.ReportsFailure id Confirmation.failureTopic (failureLog id) :=
    ⟨rfl, List.prefix_append _ _⟩
  refine Confirmation.classifyReceipt_eq_some_iff.mpr
    ⟨failureLog id, ⟨[], [], rfl, rfl, .inr shape, ?_⟩,
      Confirmation.classifyLog_eq_failed_iff.mpr shape⟩
  intro l mem
  cases mem

end Sample

/-- The service tells that the bundle was executed, with a receipt that reports its failure. -/
theorem lying_relayer_is_believed :
    (∃ submission outcome, Sample.entrusted.identifier = .ok submission.identifier ∧
      Sample.lying.submitAndWait Sample.entrusted none () = (.ok (submission, outcome), ()) ∧
      outcome.status = .executed ∧
      Confirmation.classifyReceipt submission.identifier Confirmation.failureTopic none
        outcome.receipt = some .failed) ∧
    ¬ Sample.lying.Lawful Confirmation.failureTopic none := by
  obtain ⟨id, derived⟩ := Sample.entrusted.identifier_of_nonempty (by decide)
  have relayed : Sample.lying.relay Sample.entrusted () =
      (.ok { identifier := id, transactionHash := Sample.carrier }, ()) := by
    change (RelayAction.ofDerivation Sample.entrusted.identifier >>= _) () = _
    rw [derived]
    rfl
  have told : Sample.lying.submitAndWait Sample.entrusted none () =
      (.ok ({ identifier := id, transactionHash := Sample.carrier },
        ⟨.executed, Sample.failedReceipt id⟩), ()) :=
    Relayer.submitAndWait_eq_ok.mpr ⟨(), Relayer.submit_eq_ok.mpr ⟨rfl, derived, relayed⟩, rfl⟩
  have reported := Sample.failedReceipt_reports id
  refine ⟨⟨_, _, derived, told, rfl, reported⟩, ?_⟩
  intro lawful
  obtain ⟨id', derived', -, carried⟩ := lawful _ _ _ _ _ _ told
  rw [derived] at derived'
  obtain rfl := Except.ok.inj derived'
  rw [reported] at carried
  cases carried

/-! ## Relayers that wait with the engine -/

/-- The outcome of a wait is carried by its receipt. -/
theorem Confirmation.Ended.carried {ε σ : Type} {plan : Confirmation.Plan}
    {calls : List (Confirmation.ChainCall ε)} {ending : Confirmation.Ending ε σ}
    (ended : Confirmation.Ended plan calls ending) {outcome : Outcome}
    (ok : ending.result = .ok outcome) :
    outcome.Carried plan.settings.failedTopic plan.settings.wallet plan.id := by
  cases ended with
  | interrupted => cases ok
  | resolved trace answer reported =>
    obtain rfl := Except.ok.inj ok
    exact ⟨(Confirmation.Plan.classify_eq_some reported).1, reported⟩

/-- In front of a local relayer the law holds, with the wallet of its settings, whatever its node
answers. -/
theorem LocalRelayer.lawful (r : LocalRelayer) (node : Node ν) :
    (r.relayer node).Lawful r.waiter.settings.failedTopic r.waiter.settings.wallet := by
  refine Relayer.lawful_iff_truthful.mpr ?_
  intro signed before id transactionHash between _ _ _ timeout outcome after waited
  have ended :=
    Confirmation.wait_ended r.waiter node.chain id timeout .never between.now between.node
  have told : (r.waiter.wait node.chain id timeout .never between.now between.node).result.mapError
      RelayError.confirmation = .ok outcome := congrArg Prod.fst waited
  refine ended.carried ?_
  cases result : (r.waiter.wait node.chain id timeout .never between.now between.node).result with
  | error e =>
    rw [result] at told
    cases told
  | ok outcome' =>
    rw [result] at told
    obtain rfl := Except.ok.inj told
    rfl

end MetaTransaction
