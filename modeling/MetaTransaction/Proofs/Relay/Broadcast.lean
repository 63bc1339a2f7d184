import MetaTransaction.Proofs.Json.Faithful
import MetaTransaction.Proofs.Relay.Trust

/-!
# Carriers of the local relayer

A submission through the local relayer makes one request at most, which is to broadcast the execution
of the bundle. What is broadcast is therefore the carrier of this very bundle, and nothing is for a
bundle that the service refuses. The client in front of the node chooses gas, fees and account; of it
only this is assumed, that it broadcasts what it is asked to, and at most once.

* `relay_of_derived` — the one request of the relayer, and its answer;
* `submit_of_relayable` — a submission through the service;
* `submission_broadcasts_only_carrier` — the rules of every submission.
-/

namespace MetaTransaction

variable {ν : Type}

/-! ## What a node receives -/

/-- A transaction as it is asked to be broadcast. -/
structure Carrier where
  target : Address
  value : Word
  data : Bytes
  chain : ChainId
deriving DecidableEq

/-- The request to broadcast a transaction. -/
def Carrier.request (c : Carrier) : NodeRequest :=
  .send c.target c.value c.data c.chain

/-- The transaction that a request asks to broadcast. -/
def NodeRequest.carrier? : NodeRequest → Option Carrier
  | .send target value data chain => some ⟨target, value, data, chain⟩
  | _ => none

/-- The transactions that a node has received, as its state tells, latest first. A request to
broadcast delivers what it describes or nothing, and other requests deliver nothing. That is all
that is assumed of a node; it may answer anything, whether or not it delivers. -/
structure Node.Inbox (node : Node ν) where
  received : ν → List Carrier
  ask : ∀ request now state, received (node.ask request now state).2 = received state ∨
    ∃ c, request.carrier? = some c ∧ received (node.ask request now state).2 = c :: received state

/-- A node that notes the requests has received all that it was asked to broadcast. So every node is
one with an inbox, once it notes its requests. -/
def Node.notedInbox (node : Node ν) : node.noted.Inbox where
  received state := state.2.filterMap NodeRequest.carrier?
  ask request now state := by
    change (request :: state.2).filterMap NodeRequest.carrier? = _ ∨
      ∃ c, _ ∧ (request :: state.2).filterMap NodeRequest.carrier? = _
    cases asked : request.carrier? with
    | none => exact .inl (List.filterMap_cons_none asked)
    | some c => exact .inr ⟨c, rfl, List.filterMap_cons_some asked⟩

namespace LocalRelayer

/-! ## One request -/

/-- The transaction that carries a bundle. -/
def carrier (r : LocalRelayer) (signed : SignedBundle) : Carrier where
  target := signed.wallet
  value := 0
  data := signed.executeCalldata
  chain := r.chain

section

variable {r : LocalRelayer} {node : Node ν} {signed : SignedBundle} {id : Identifier}

/-- What the node answers to the broadcast of a bundle. -/
def answerTo (r : LocalRelayer) (node : Node ν) (signed : SignedBundle) (before : State ν) :
    Except NodeFailure Json :=
  (node.fetch (r.carrier signed).request before.now before.node).1

/-- The state after the broadcast of a bundle. -/
def afterBroadcast (r : LocalRelayer) (node : Node ν) (signed : SignedBundle) (before : State ν) :
    State ν :=
  { before with node := (node.fetch (r.carrier signed).request before.now before.node).2 }

/-- What the relayer makes of the answer, for a bundle with the identifier `id`. -/
def told (id : Identifier) (answer : Except NodeFailure Json) : Except RelayError Submission :=
  ((Node.readAnswer .send Json.hash? answer).mapError RelayError.node).map fun transactionHash =>
    { identifier := id, transactionHash }

/-- The relayer asks for one broadcast and passes the answer on, under the identifier that it
derives. -/
theorem relay_of_derived (derived : signed.identifier = .ok id) (before : State ν) :
    r.relay node signed before =
      (told id (r.answerTo node signed before), r.afterBroadcast node signed before) := by
  rw [relay, derived]
  change (fetch node .send (r.carrier signed).request Json.hash? >>= _) before = _
  have fetched : fetch node .send (r.carrier signed).request Json.hash? before =
      ((Node.readAnswer .send Json.hash? (r.answerTo node signed before)).mapError RelayError.node,
        r.afterBroadcast node signed before) := rfl
  rw [told]
  cases read : Node.readAnswer .send Json.hash? (r.answerTo node signed before) with
  | error e =>
    rw [read] at fetched
    exact RelayAction.bind_of_error fetched
  | ok hash =>
    rw [read] at fetched
    exact RelayAction.bind_of_ok fetched

/-- An answer makes a submission when it is the hash of a transaction. -/
theorem told_eq_ok {answer : Except NodeFailure Json} {submission : Submission} :
    told id answer = .ok submission ↔
      submission.identifier = id ∧
        ∃ j, answer = .ok j ∧ Json.hash? j = some submission.transactionHash := by
  obtain ⟨reported, hash⟩ := submission
  cases answer with
  | error failure =>
    refine iff_of_false ?_ ?_
    · intro told
      cases told
    · rintro ⟨-, j, ⟨⟩, -⟩
  | ok j =>
    rw [told, Node.readAnswer]
    cases read : Json.hash? j with
    | none =>
      refine iff_of_false ?_ ?_
      · intro told
        cases told
      · rintro ⟨-, j', same, found⟩
        obtain rfl := Except.ok.inj same
        rw [read] at found
        cases found
    | some hash' =>
      constructor
      · intro told
        cases told
        exact ⟨rfl, j, rfl, read⟩
      · rintro ⟨same, j', other, found⟩
        obtain rfl := Except.ok.inj other
        rw [read] at found
        obtain rfl := Option.some.inj found
        cases same
        rfl

/-- Any other answer fails the submission as a failure at the node. -/
theorem told_eq_error {answer : Except NodeFailure Json} {e : RelayError} :
    told id answer = .error e ↔
      ∃ failure, e = .node ⟨.send, failure⟩ ∧
        (answer = .error failure ∨
          failure = .malformed ∧ ∃ j, answer = .ok j ∧ Json.hash? j = none) := by
  cases answer with
  | error failure =>
    constructor
    · intro told
      exact ⟨failure, (Except.error.inj told).symm, .inl rfl⟩
    · rintro ⟨failure', rfl, same | ⟨-, j, ⟨⟩, -⟩⟩
      obtain rfl := Except.error.inj same
      rfl
  | ok j =>
    rw [told, Node.readAnswer]
    cases read : Json.hash? j with
    | none =>
      constructor
      · intro told
        exact ⟨.malformed, (Except.error.inj told).symm, .inr ⟨rfl, j, rfl, read⟩⟩
      · rintro ⟨failure, rfl, other | ⟨rfl, -⟩⟩
        · cases other
        · rfl
    | some hash =>
      refine iff_of_false ?_ ?_
      · intro told
        cases told
      · rintro ⟨failure, -, other | ⟨-, j', same, found⟩⟩
        · cases other
        · obtain rfl := Except.ok.inj same
          rw [read] at found
          cases found

/-- The service believes what the local relayer tells, since both derive the same identifier. This
is why a mismatch never occurs. -/
theorem submit_of_relayable (same : signed.chain = r.chain) (derived : signed.identifier = .ok id)
    (before : State ν) :
    (r.relayer node).submit signed before =
      (told id (r.answerTo node signed before), r.afterBroadcast node signed before) := by
  rw [Relayer.submit_of_admitted same derived]
  change (Relayer.acknowledged id (r.relay node signed before).1, (r.relay node signed before).2) = _
  rw [relay_of_derived derived]
  cases answer : told id (r.answerTo node signed before) with
  | error e => rfl
  | ok submission => rw [Relayer.acknowledged, if_pos (told_eq_ok.mp answer).1]

end

/-! ## Submissions -/

/-- The rules of a submission through the local relayer. -/
structure Broadcasts (r : LocalRelayer) (node : Node ν) (inbox : node.Inbox) (signed : SignedBundle)
    (before : State ν) (answer : Except RelayError Submission) (after : State ν) : Prop where
  /-- the node receives one transaction at most, and only the carrier of the bundle on its chain -/
  delivers : ∃ delivered, inbox.received after.node = delivered ++ inbox.received before.node ∧
    delivered.length ≤ 1 ∧ ∀ c ∈ delivered, c.target = signed.wallet ∧ c.value = 0 ∧
      c.data = signed.executeCalldata ∧ c.chain = r.chain ∧ r.chain = signed.chain
  /-- a bundle for another chain or without calls does not reach the node -/
  refuses : signed.chain ≠ r.chain ∨ signed.bundle.calls = [] → after = before
  /-- the relayer does not report an identifier of its own -/
  agrees : ∀ expected reported, answer ≠ .error (.identifierMismatch expected reported)
  /-- the broadcast is accepted when the node answers the hash of the transaction -/
  accepts : ∀ submission, answer = .ok submission ↔
    signed.chain = r.chain ∧ signed.identifier = .ok submission.identifier ∧
      ∃ j, r.answerTo node signed before = .ok j ∧ Json.hash? j = some submission.transactionHash
  /-- all that goes wrong at the node is an error of the network -/
  fails : signed.chain = r.chain → signed.bundle.calls ≠ [] → ∀ e, answer = .error e ↔
    ∃ failure, e = .node ⟨.send, failure⟩ ∧
      (r.answerTo node signed before = .error failure ∨
        failure = .malformed ∧
          ∃ j, r.answerTo node signed before = .ok j ∧ Json.hash? j = none)
  network : ∀ failure, (RelayError.node ⟨.send, failure⟩).message =
    "Network error: Failed to send transaction: " ++ failure.message

/-- A refused bundle changes nothing, and nothing is delivered. -/
theorem Broadcasts.of_refused {r : LocalRelayer} {node : Node ν} {inbox : node.Inbox}
    {signed : SignedBundle} {before : State ν} {e : RelayError}
    (refused : signed.chain ≠ r.chain ∨ signed.bundle.calls = [])
    (agrees : ∀ expected reported, e ≠ .identifierMismatch expected reported) :
    Broadcasts r node inbox signed before (.error e) before where
  delivers := by
    refine ⟨[], rfl, Nat.zero_le _, ?_⟩
    intro c hc
    cases hc
  refuses _ := rfl
  agrees expected reported same := agrees expected reported (Except.error.inj same)
  accepts submission := by
    refine iff_of_false ?_ ?_
    · intro h
      cases h
    · rintro ⟨same, derived, -⟩
      rcases refused with other | empty
      · exact other same
      · rw [signed.identifier_of_empty empty] at derived
        cases derived
  fails same nonempty := by
    rcases refused with other | empty
    · exact absurd same other
    · exact absurd empty nonempty
  network _ := rfl

/-- A submission through the local relayer broadcasts one transaction at most, which is the carrier
of the bundle, and succeeds just when the node has accepted it. The node is only assumed to deliver
nothing but what it was asked to broadcast. -/
theorem submission_broadcasts_only_carrier (r : LocalRelayer) (node : Node ν) (inbox : node.Inbox)
    (signed : SignedBundle) (before : State ν) :
    ∃ answer after, (r.relayer node).submit signed before = (answer, after) ∧
      Broadcasts r node inbox signed before answer after := by
  by_cases same : signed.chain = r.chain
  · by_cases empty : signed.bundle.calls = []
    · refine ⟨_, _, Relayer.submit_of_empty (r := r.relayer node) same empty before, ?_⟩
      refine .of_refused (.inr empty) ?_
      rintro expected reported ⟨⟩
    · obtain ⟨id, derived⟩ := signed.identifier_of_nonempty empty
      refine ⟨_, _, submit_of_relayable same derived before, ?_, ?_, ?_, ?_, ?_, ?_⟩
      · -- the only request is the one to broadcast the carrier
        rcases inbox.ask (r.carrier signed).request before.now before.node with
          nothing | ⟨c, asked, delivered⟩
        · refine ⟨[], nothing, Nat.zero_le _, ?_⟩
          intro c hc
          cases hc
        · obtain rfl : r.carrier signed = c := Option.some.inj asked
          refine ⟨[r.carrier signed], delivered, Nat.le_refl _, ?_⟩
          intro c hc
          rw [List.mem_singleton.mp hc]
          exact ⟨rfl, rfl, rfl, rfl, same.symm⟩
      · rintro (other | none)
        · exact absurd same other
        · exact absurd none empty
      · intro expected reported mismatch
        obtain ⟨failure, ⟨⟩, -⟩ := told_eq_error.mp mismatch
      · intro submission
        rw [told_eq_ok, derived]
        constructor
        · rintro ⟨rfl, accepted⟩
          exact ⟨same, rfl, accepted⟩
        · rintro ⟨-, own, accepted⟩
          exact ⟨(Except.ok.inj own).symm, accepted⟩
      · intro _ _ e
        exact told_eq_error
      · intro failure
        rfl
  · refine ⟨_, _, Relayer.submit_of_otherChain (r := r.relayer node) same before, ?_⟩
    refine .of_refused (.inl same) ?_
    rintro expected reported ⟨⟩

end LocalRelayer

namespace Sample

/-- A local relayer on the chain of the sample bundle. -/
def localRelayer : LocalRelayer where
  key := ⟨1, by decide, by decide⟩
  chain := .ethereum
  waiter := Confirmation.Sample.waiter

/-- A node that answers every request with one hash. -/
def accepting : Node Unit where
  ask _ _ _ := ({ answer := .ok (.ofFixedBytes carrier) }, ())

end Sample

/-- The node accepts the sample bundle and has received its carrier, and nothing else. -/
theorem sample_carrier_delivered :
    ∃ submission after, (Sample.localRelayer.relayer Sample.accepting.noted).submit Sample.entrusted
        ⟨((), []), 0⟩ = (.ok submission, after) ∧
      submission.transactionHash = Sample.carrier ∧
      Sample.accepting.notedInbox.received after.node =
        [Sample.localRelayer.carrier Sample.entrusted] := by
  obtain ⟨answer, after, submitted, rules⟩ :=
    LocalRelayer.submission_broadcasts_only_carrier Sample.localRelayer Sample.accepting.noted
      Sample.accepting.notedInbox Sample.entrusted ⟨((), []), 0⟩
  obtain ⟨id, derived⟩ := Sample.entrusted.identifier_of_nonempty (by decide)
  obtain rfl : answer = .ok ⟨id, Sample.carrier⟩ :=
    (rules.accepts ⟨id, Sample.carrier⟩).mpr ⟨rfl, derived, _, rfl, Json.faithful_hash.read _⟩
  rw [LocalRelayer.submit_of_relayable rfl derived] at submitted
  obtain rfl := congrArg Prod.snd submitted
  exact ⟨_, _, LocalRelayer.submit_of_relayable rfl derived _ |>.trans submitted, rfl, rfl⟩

end MetaTransaction
