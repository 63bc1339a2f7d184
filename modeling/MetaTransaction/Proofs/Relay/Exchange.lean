import MetaTransaction.Proofs.Except
import MetaTransaction.Relay.Local

/-!
# Exchanges with a node

What the local relayer says to its node and what it hears, one request after another. An answer that
cannot be read fails the task that it was asked for.

* `Node.Talks` — requests to a node and its answers;
* `Exchange.reads` — an answer is read, or fails the task;
* `LocalRelayer.fetch_of_read`, `LocalRelayer.fetch_of_fails` — one request of the local relayer.
-/

namespace MetaTransaction

variable {ν α : Type}

/-- A request to a node with its answer. -/
structure Exchange where
  request : NodeRequest
  answer : Except NodeFailure Json

namespace Exchange

/-- What a reader makes of the answer. -/
def read (x : Exchange) (read? : Json → Option α) : Option α :=
  x.answer.toOption.bind read?

/-- The answer tells a reader nothing, for a reason: the node's own, or that the reader does not
understand it. Both become the same kind of error, which only the reason tells apart. -/
def Fails (x : Exchange) (read? : Json → Option α) (failure : NodeFailure) : Prop :=
  x.answer = .error failure ∨ failure = .malformed ∧ ∃ j, x.answer = .ok j ∧ read? j = none

section

variable {x : Exchange} {read? : Json → Option α}

/-- An answer that fails is not read, so that no answer is read and fails. -/
theorem Fails.read_eq_none {failure : NodeFailure} (fails : x.Fails read? failure) :
    x.read read? = none := by
  rcases fails with refused | ⟨-, j, told, none⟩
  · simp [read, refused, Except.toOption]
  · simp [read, told, none, Except.toOption]

theorem readAnswer_of_read (x : Exchange) {a : α} (task : NodeTask) (found : x.read read? = some a) :
    Node.readAnswer task read? x.answer = .ok a := by
  obtain ⟨request, _ | j⟩ := x
  · cases found
  · have found : read? j = some a := found
    rw [Node.readAnswer, found]

theorem Fails.readAnswer {failure : NodeFailure} (task : NodeTask) (fails : x.Fails read? failure) :
    Node.readAnswer task read? x.answer = .error ⟨task, failure⟩ := by
  rcases fails with refused | ⟨rfl, j, told, none⟩
  · rw [refused, Node.readAnswer]
  · rw [told, Node.readAnswer, none]

/-- An answer is read, or it fails. Every statement about an answer is proved for these two
cases. -/
theorem reads (x : Exchange) (read? : Json → Option α) :
    (∃ a, x.read read? = some a) ∨ ∃ failure, x.Fails read? failure := by
  obtain ⟨request, failure | j⟩ := x
  · exact .inr ⟨failure, .inl rfl⟩
  · cases found : read? j with
    | none => exact .inr ⟨.malformed, .inr ⟨rfl, j, rfl, found⟩⟩
    | some a => exact .inl ⟨a, found⟩

end

end Exchange

namespace Node

/-- A node is asked the requests one after another, and gives the answers. It states what passed
between a relayer and its node, from state to state, and leaves open how the relayer came to its
requests. -/
inductive Talks (node : Node ν) (now : Nat) : ν → List Exchange → ν → Prop
  | nil {state} : Talks node now state [] state
  | cons {before between after talk} {x : Exchange} :
      node.fetch x.request now before = (x.answer, between) → Talks node now between talk after →
      Talks node now before (x :: talk) after

/-- A node answers every request, and one that notes the requests answers the same. So noting them
is a way to count requests that changes nothing. -/
theorem exists_exchange (node : Node ν) (request : NodeRequest) (now : Nat) (state : ν) :
    ∃ (x : Exchange) (told : ν), x.request = request ∧
      node.fetch x.request now state = (x.answer, told) ∧
      ∀ noted, node.noted.fetch x.request now (state, noted) =
        (x.answer, (told, x.request :: noted)) :=
  ⟨⟨request, (node.fetch request now state).1⟩, (node.fetch request now state).2, rfl, rfl,
    fun _ => rfl⟩

end Node

namespace LocalRelayer

variable {node : Node ν} {x : Exchange} {before : State ν} {told : ν} {read? : Json → Option α}

/-- A request whose answer is read gives what was read, and leaves the node in its next state. -/
theorem fetch_of_read {a : α} (task : NodeTask)
    (asked : node.fetch x.request before.now before.node = (x.answer, told))
    (found : x.read read? = some a) :
    fetch node task x.request read? before = (.ok a, { before with node := told }) := by
  rw [fetch, asked]
  simp only [x.readAnswer_of_read task found, Except.mapError_ok]

/-- A request whose answer fails gives the error, and leaves the node in its next state all the
same. -/
theorem fetch_of_fails {failure : NodeFailure} (task : NodeTask)
    (asked : node.fetch x.request before.now before.node = (x.answer, told))
    (fails : x.Fails read? failure) :
    fetch node task x.request read? before =
      (.error (.node ⟨task, failure⟩), { before with node := told }) := by
  rw [fetch, asked]
  simp only [fails.readAnswer task, Except.mapError_error]

end LocalRelayer

end MetaTransaction
