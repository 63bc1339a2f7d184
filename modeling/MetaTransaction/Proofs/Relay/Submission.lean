import MetaTransaction.Proofs.Commitment
import MetaTransaction.Relay.Service

/-!
# Submission through the service

What the service in front of a relayer does with bundles, one after another, whatever the relayer
answers and however its state changes. A bundle is handed over once or not at all, an
acknowledgement counts only under the identifier that the service has derived, and all errors of the
relayer are passed on as they are.

* `submit_of_otherChain`, `submit_of_empty`, `submit_of_admitted` — a submission, case by case;
* `submit_submits`, `serve_serves` — the rules that one order follows, with the questions it makes;
* `session_follows_rules` — the statement for all orders of a session.
-/

namespace MetaTransaction

variable {ρ α β : Type}

/-! ## Actions step by step -/

namespace RelayAction

/-- An action that succeeds is followed by the next one, from the state that it left. -/
theorem bind_of_ok {action : RelayAction ρ α} {next : α → RelayAction ρ β} {before after : ρ}
    {a : α} (h : action before = (.ok a, after)) : (action >>= next) before = next a after := by
  change ExceptT.bindCont next (action before).1 (action before).2 = _
  rw [h]
  rfl

theorem bind_of_error {action : RelayAction ρ α} {next : α → RelayAction ρ β} {before after : ρ}
    {e : RelayError} (h : action before = (.error e, after)) :
    (action >>= next) before = (.error e, after) := by
  change ExceptT.bindCont next (action before).1 (action before).2 = _
  rw [h]
  rfl

end RelayAction

/-- A bundle without calls has no identifier. -/
theorem SignedBundle.identifier_of_empty (s : SignedBundle) (empty : s.bundle.calls = []) :
    s.identifier = .error .emptyBundle := by
  rw [identifier, Bundle.identifier, Bundle.digest, if_pos empty]
  rfl

/-- A bundle with calls has one. -/
theorem SignedBundle.identifier_of_nonempty (s : SignedBundle) (nonempty : s.bundle.calls ≠ []) :
    ∃ id, s.identifier = .ok id :=
  ⟨_, Bundle.identifier_eq_ok nonempty s.chain s.wallet⟩

/-- The bundle that a question hands over. -/
def RelayCall.handed? : RelayCall → Option SignedBundle
  | .relay signed => some signed
  | _ => none

namespace Relayer

/-! ## One submission -/

/-- What the service makes of an acknowledgement of a bundle with the identifier `expected`. -/
def acknowledged (expected : Identifier) :
    Except RelayError Submission → Except RelayError Submission
  | .error e => .error e
  | .ok submission =>
    if submission.identifier = expected then .ok submission
    else .error (.identifierMismatch expected submission.identifier)

theorem acknowledged_eq_ok {expected : Identifier} {answer : Except RelayError Submission}
    {submission : Submission} :
    acknowledged expected answer = .ok submission ↔
      answer = .ok submission ∧ submission.identifier = expected := by
  cases answer with
  | error e => simp [acknowledged]
  | ok s =>
    rw [acknowledged]
    split
    · rename_i same
      constructor
      · intro h
        obtain rfl := Except.ok.inj h
        exact ⟨rfl, same⟩
      · exact And.left
    · rename_i other
      constructor
      · intro h
        cases h
      · rintro ⟨h, same⟩
        obtain rfl := Except.ok.inj h
        exact absurd same other

/-- An acknowledgement is refused with a mismatch when it names another identifier than was
expected, and an error of the relayer is passed on. -/
theorem acknowledged_eq_error {expected : Identifier} {answer : Except RelayError Submission}
    {e : RelayError} :
    acknowledged expected answer = .error e ↔
      (∃ submission, answer = .ok submission ∧ submission.identifier ≠ expected ∧
        e = .identifierMismatch expected submission.identifier) ∨ answer = .error e := by
  cases answer with
  | error e' => simp [acknowledged]
  | ok s =>
    rw [acknowledged]
    split
    · rename_i same
      simp [same]
    · rename_i other
      constructor
      · intro h
        exact .inl ⟨s, rfl, other, (Except.error.inj h).symm⟩
      · rintro (⟨s', h, -, rfl⟩ | h)
        · obtain rfl := Except.ok.inj h
          rfl
        · cases h

section

variable {r : Relayer ρ} {signed : SignedBundle}

/-- A bundle for another chain is refused, whatever is in it. The relayer is not asked. -/
theorem submit_of_otherChain (other : signed.chain ≠ r.chain) (state : ρ) :
    r.submit signed state = (.error (.wrongChain signed.chain r.name r.chain), state) := by
  rw [submit, if_pos other]
  rfl

theorem submit_of_sameChain (same : signed.chain = r.chain) :
    r.submit signed = do
      let expected ← RelayAction.ofDerivation signed.identifier
      let submission ← r.relay signed
      if submission.identifier ≠ expected then
        throw (.identifierMismatch expected submission.identifier)
      return submission := by
  rw [submit, if_neg (fun other => other same)]

/-- A bundle without calls is refused before the relayer is asked. -/
theorem submit_of_empty (same : signed.chain = r.chain) (empty : signed.bundle.calls = [])
    (state : ρ) : r.submit signed state = (.error (.derivation .emptyBundle), state) := by
  rw [submit_of_sameChain same, signed.identifier_of_empty empty]
  rfl

/-- Any other bundle is handed to the relayer, and the identifier of the acknowledgement is checked.
These three lemmas are all that the other proofs know of the service. -/
theorem submit_of_admitted (same : signed.chain = r.chain) {id : Identifier}
    (derived : signed.identifier = .ok id) (state : ρ) :
    r.submit signed state =
      (acknowledged id (r.relay signed state).1, (r.relay signed state).2) := by
  rw [submit_of_sameChain same, derived]
  change (r.relay signed >>= _) state = _
  cases answered : r.relay signed state with
  | mk answer after =>
    cases answer with
    | error e => exact RelayAction.bind_of_error answered
    | ok submission =>
      rw [RelayAction.bind_of_ok answered, acknowledged]
      by_cases same : submission.identifier = id
      · rw [if_neg (fun other => other same), if_pos same]
        rfl
      · rw [if_pos same, if_neg same]
        rfl

/-- Without an accepted submission there is no waiting. -/
theorem submitAndWait_of_error {before after : ρ} {e : RelayError}
    (refused : r.submit signed before = (.error e, after)) (timeout : Option Duration) :
    r.submitAndWait signed timeout before = (.error e, after) := by
  rw [submitAndWait, RelayAction.bind_of_error refused]

/-- After an accepted submission the relayer waits, and its answer is passed on. -/
theorem submitAndWait_of_ok {before between : ρ} {submission : Submission}
    (accepted : r.submit signed before = (.ok submission, between)) (timeout : Option Duration) :
    r.submitAndWait signed timeout before =
      ((r.wait submission.identifier timeout between).1.map fun outcome => (submission, outcome),
        (r.wait submission.identifier timeout between).2) := by
  rw [submitAndWait, RelayAction.bind_of_ok accepted]
  cases answered : r.wait submission.identifier timeout between with
  | mk result after =>
    cases result with
    | error e => exact RelayAction.bind_of_error answered
    | ok outcome => exact RelayAction.bind_of_ok answered

end

/-! ## Rules -/

/-- The rules of a submission: which questions it makes, what it answers and what becomes of the
relayer. The conditions of the three rules exclude each other, in the order in which the service
checks them. -/
structure Submits (r : Relayer ρ) (signed : SignedBundle) (before : ρ) (asked : List RelayCall)
    (answer : Except RelayError Submission) (after : ρ) : Prop where
  /-- a bundle for another chain is refused, with calls or without -/
  otherChain : signed.chain ≠ r.chain →
    asked = [] ∧ after = before ∧ answer = .error (.wrongChain signed.chain r.name r.chain)
  /-- a bundle without calls is refused -/
  empty : signed.chain = r.chain → signed.bundle.calls = [] →
    asked = [] ∧ after = before ∧ answer = .error (.derivation .emptyBundle)
  /-- any other bundle is handed over once; an error of the relayer's own is passed on, even one that
  tells of a mismatch -/
  admitted : signed.chain = r.chain → signed.bundle.calls ≠ [] → ∃ id,
    signed.identifier = .ok id ∧ asked = [.relay signed] ∧ after = (r.relay signed before).2 ∧
      (∀ submission, answer = .ok submission ↔
        (r.relay signed before).1 = .ok submission ∧ submission.identifier = id) ∧
      ∀ e, answer = .error e ↔
        (∃ submission, (r.relay signed before).1 = .ok submission ∧
          submission.identifier ≠ id ∧ e = .identifierMismatch id submission.identifier) ∨
        (r.relay signed before).1 = .error e

/-- The service follows the rules of a submission, and a relayer that notes the questions is served
as without noting them. The second part makes the questions more than a way of speaking: they are
those that a relayer sees. -/
theorem submit_submits (r : Relayer ρ) (signed : SignedBundle) (state : ρ)
    (noted : List RelayCall) :
    ∃ asked answer after, r.submit signed state = (answer, after) ∧
      r.noted.submit signed (state, noted) = (answer, after, asked.reverse ++ noted) ∧
      Submits r signed state asked answer after := by
  by_cases same : signed.chain = r.chain
  · by_cases empty : signed.bundle.calls = []
    · refine ⟨[], _, _, submit_of_empty same empty state,
        submit_of_empty (r := r.noted) same empty _, ?_⟩
      exact ⟨fun other => absurd same other, fun _ _ => ⟨rfl, rfl, rfl⟩,
        fun _ nonempty => absurd empty nonempty⟩
    · obtain ⟨id, derived⟩ := signed.identifier_of_nonempty empty
      refine ⟨[.relay signed], _, _, submit_of_admitted same derived state,
        submit_of_admitted (r := r.noted) same derived _, ?_⟩
      exact ⟨fun other => absurd same other, fun _ none => absurd none empty,
        fun _ _ => ⟨id, derived, rfl, rfl, fun _ => acknowledged_eq_ok,
          fun _ => acknowledged_eq_error⟩⟩
  · refine ⟨[], _, _, submit_of_otherChain same state,
      submit_of_otherChain (r := r.noted) same _, ?_⟩
    exact ⟨fun _ => ⟨rfl, rfl, rfl⟩, fun same' => absurd same' same, fun same' => absurd same' same⟩

/-! ## Orders -/

/-- What is asked of the service. -/
inductive Order
  | submit (signed : SignedBundle)
  | submitAndWait (signed : SignedBundle) (timeout : Option Duration)

/-- The bundle of an order. -/
def Order.signed : Order → SignedBundle
  | .submit signed => signed
  | .submitAndWait signed _ => signed

/-- What the service answers to an order. -/
inductive OrderAnswer
  | submission (result : Except RelayError Submission)
  | outcome (result : Except RelayError (Submission × Outcome))

/-- Serves an order. -/
def serve (r : Relayer ρ) (state : ρ) : Order → OrderAnswer × ρ
  | .submit signed =>
    let (result, state) := r.submit signed state
    (.submission result, state)
  | .submitAndWait signed timeout =>
    let (result, state) := r.submitAndWait signed timeout state
    (.outcome result, state)

/-- Serves orders one after another; an error does not end the session. -/
def session (r : Relayer ρ) (state : ρ) : List Order → List OrderAnswer × ρ
  | [] => ([], state)
  | order :: orders =>
    let (answer, state) := r.serve state order
    let (answers, state) := r.session state orders
    (answer :: answers, state)

/-- The rules of an order. -/
inductive Serves (r : Relayer ρ) (before : ρ) :
    Order → List RelayCall → OrderAnswer → ρ → Prop
  | submitted {signed asked answer after} :
      Submits r signed before asked answer after →
        Serves r before (.submit signed) asked (.submission answer) after
  /-- without an accepted submission there is no waiting -/
  | refused {signed timeout asked e after} :
      Submits r signed before asked (.error e) after →
        Serves r before (.submitAndWait signed timeout) asked (.outcome (.error e)) after
  /-- after an accepted one the relayer waits under the identifier of the bundle -/
  | waited {signed timeout asked submission between id result after} :
      Submits r signed before asked (.ok submission) between → signed.identifier = .ok id →
        r.wait id timeout between = (result, after) →
          Serves r before (.submitAndWait signed timeout) (asked ++ [.wait id timeout])
            (.outcome (result.map fun outcome => (submission, outcome))) after

/-- The rules of a session: each order follows its own, from the state that the one before left. -/
inductive Follows (r : Relayer ρ) :
    ρ → List Order → List RelayCall → List OrderAnswer → ρ → Prop
  | nil {state} : Follows r state [] [] [] state
  | cons {before between after order orders asked later answer answers} :
      Serves r before order asked answer between → Follows r between orders later answers after →
        Follows r before (order :: orders) (asked ++ later) (answer :: answers) after

/-- A submission is accepted only under the identifier of the bundle. So it does not matter whether
a wait is given the one or the other. -/
theorem Submits.identifier {r : Relayer ρ} {signed : SignedBundle} {before after : ρ}
    {asked : List RelayCall} {submission : Submission}
    (submits : Submits r signed before asked (.ok submission) after) :
    signed.identifier = .ok submission.identifier := by
  by_cases same : signed.chain = r.chain
  · by_cases empty : signed.bundle.calls = []
    · obtain ⟨-, -, answer⟩ := submits.empty same empty
      cases answer
    · obtain ⟨id, derived, -, -, accepted, -⟩ := submits.admitted same empty
      rw [((accepted submission).mp rfl).2]
      exact derived
  · obtain ⟨-, -, answer⟩ := submits.otherChain same
    cases answer

/-- The service follows the rules of an order. A wait that comes after a submission is one more
question. -/
theorem serve_serves (r : Relayer ρ) (order : Order) (state : ρ) (noted : List RelayCall) :
    ∃ asked answer after, r.serve state order = (answer, after) ∧
      r.noted.serve (state, noted) order = (answer, after, asked.reverse ++ noted) ∧
      Serves r state order asked answer after := by
  cases order with
  | submit signed =>
    obtain ⟨asked, answer, after, plain, logged, submits⟩ := submit_submits r signed state noted
    refine ⟨asked, .submission answer, after, ?_, ?_, .submitted submits⟩
    · rw [serve, plain]
    · rw [serve, logged]
  | submitAndWait signed timeout =>
    obtain ⟨asked, answer, after, plain, logged, submits⟩ := submit_submits r signed state noted
    cases answer with
    | error e =>
      refine ⟨asked, .outcome (.error e), after, ?_, ?_, .refused submits⟩
      · rw [serve, submitAndWait_of_error plain]
      · rw [serve, submitAndWait_of_error logged]
    | ok submission =>
      refine ⟨_, _, _, ?_, ?_, .waited submits submits.identifier rfl⟩
      · rw [serve, submitAndWait_of_ok plain]
      · rw [serve, submitAndWait_of_ok logged, List.reverse_append]
        rfl

/-- A session serves its first order, and then the others from the state that is left. -/
theorem session_cons {r : Relayer ρ} {before between after : ρ} {order : Order}
    {orders : List Order} {answer : OrderAnswer} {answers : List OrderAnswer}
    (first : r.serve before order = (answer, between))
    (others : r.session between orders = (answers, after)) :
    r.session before (order :: orders) = (answer :: answers, after) := by
  rw [session, first]
  change ((answer :: (r.session between orders).1), (r.session between orders).2) = _
  rw [others]

/-! ## What reaches the relayer -/

/-- Whether a bundle may be handed to the relayer. -/
def admits (r : Relayer ρ) (signed : SignedBundle) : Bool :=
  signed.chain = r.chain && !signed.bundle.calls.isEmpty

theorem Submits.handed {r : Relayer ρ} {signed : SignedBundle} {before after : ρ}
    {asked : List RelayCall} {answer : Except RelayError Submission}
    (submits : Submits r signed before asked answer after) :
    asked.filterMap RelayCall.handed? = [signed].filter r.admits := by
  by_cases same : signed.chain = r.chain
  · by_cases empty : signed.bundle.calls = []
    · obtain ⟨rfl, -, -⟩ := submits.empty same empty
      simp [admits, empty]
    · obtain ⟨id, -, rfl, -⟩ := submits.admitted same empty
      simp [admits, same, empty, RelayCall.handed?]
  · obtain ⟨rfl, -, -⟩ := submits.otherChain same
    simp [admits, same]

theorem Serves.handed {r : Relayer ρ} {before after : ρ} {order : Order} {asked : List RelayCall}
    {answer : OrderAnswer} (serves : Serves r before order asked answer after) :
    asked.filterMap RelayCall.handed? = [order.signed].filter r.admits := by
  cases serves with
  | submitted submits => exact submits.handed
  | refused submits => exact submits.handed
  | waited submits =>
    rw [List.filterMap_append, submits.handed]
    exact List.append_nil _

/-- A session hands over the bundles that are admitted, each once and in their order. The induction
is over the session. -/
theorem Follows.handed {r : Relayer ρ} {before after : ρ} {orders : List Order}
    {asked : List RelayCall} {answers : List OrderAnswer}
    (follows : Follows r before orders asked answers after) :
    asked.filterMap RelayCall.handed? = (orders.map Order.signed).filter r.admits := by
  induction follows with
  | nil => rfl
  | @cons _ _ _ order orders asked later _ _ serves _ ih =>
    rw [List.filterMap_append, serves.handed, ih, ← List.filter_append]
    rfl

/-- In every session the service follows the rules, whatever the relayer does: it asks and answers
what they say, and the bundles that reach the relayer are those that it admits. The relayer may go
from state to state as it likes; each order starts in the state that the one before has left. -/
theorem session_follows_rules (r : Relayer ρ) (orders : List Order) (state : ρ)
    (noted : List RelayCall) :
    ∃ asked answers after, r.session state orders = (answers, after) ∧
      r.noted.session (state, noted) orders = (answers, after, asked.reverse ++ noted) ∧
      Follows r state orders asked answers after ∧
      asked.filterMap RelayCall.handed? = (orders.map Order.signed).filter r.admits := by
  suffices h : ∃ asked answers after, r.session state orders = (answers, after) ∧
      r.noted.session (state, noted) orders = (answers, after, asked.reverse ++ noted) ∧
      Follows r state orders asked answers after by
    obtain ⟨asked, answers, after, plain, logged, follows⟩ := h
    exact ⟨asked, answers, after, plain, logged, follows, follows.handed⟩
  induction orders generalizing state noted with
  | nil => exact ⟨[], [], state, rfl, rfl, .nil⟩
  | cons order orders ih =>
    obtain ⟨asked, answer, between, plain, logged, serves⟩ := serve_serves r order state noted
    obtain ⟨later, answers, after, plain', logged', follows⟩ := ih between (asked.reverse ++ noted)
    refine ⟨asked ++ later, answer :: answers, after, session_cons plain plain', ?_,
      .cons serves follows⟩
    rw [session_cons logged logged', List.reverse_append, List.append_assoc]

end Relayer

end MetaTransaction
