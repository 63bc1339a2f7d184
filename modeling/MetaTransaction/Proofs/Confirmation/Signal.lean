import Mathlib.Data.List.Induction
import MetaTransaction.Confirmation.Cancellation
import MetaTransaction.Proofs.Confirmation.Cancellation

/-!
# Signals of a handle

A signal tells a cancellation just when it descends from the handle and the handle has cancelled
before it was dropped. A task that waits for a signal goes on at once or at the first cancellation
to come, and in no other case. No wake-up is lost: whenever a task is woken, it stands where a task
does that starts to wait then.

* `Descends` — signals by how they were made;
* `Reached` — what operations bring about, kept by each of them;
* `Channel.wake_look` — waking a task is as good as looking anew;
* `firesFrom_look` — when a task goes on while a plan is carried out;
* `signals_tell_cancellations` — the statement for every sequence of operations;
* `Handle.cancelledAt_carry` — the handle that waits are given cancels when its signals fire.
-/

namespace MetaTransaction.Confirmation

namespace Cancellation

/-! ## Operations and plans -/

/-- Whether an operation makes a signal. -/
def Operation.makes : Operation → Bool
  | .signal | .clone _ | .never => true
  | .cancel | .drop => false

/-- The number of signals after operations. One is made with the handle. -/
def made (operations : List Operation) : ℕ :=
  1 + operations.countP Operation.makes

/-- A signal, by its place in the order of making, descends from the handle: it was made with the
handle, or of the handle, or is a copy of one that descends from it. Copies of the signal of no
handle are the ones that do not. -/
inductive Descends : List Operation → ℕ → Prop
  | pair {operations} : Descends operations 0
  | signal {earlier later} : Descends (earlier ++ .signal :: later) (made earlier)
  | clone {earlier later i} : Descends earlier i →
      Descends (earlier ++ .clone i :: later) (made earlier)

/-- The handle has cancelled before it was dropped. -/
def Cancels (operations : List Operation) : Prop :=
  ∃ earlier later, operations = earlier ++ .cancel :: later ∧ .drop ∉ earlier

/-- The first cancellation of a plan comes after `t` ticks, and before the handle is dropped. -/
def CancelsAfter (plan : List Planned) (t : ℕ) : Prop :=
  ∃ earlier delay later, plan = earlier ++ ⟨delay, .cancel⟩ :: later ∧
    (∀ p ∈ earlier, p.operation ≠ .cancel ∧ p.operation ≠ .drop) ∧
    t = (earlier.map Planned.delay).sum + delay

/-- Does operations one after another; none when one of them needs a handle that nobody holds any
more. -/
def after? (c : Cancellation) (operations : List Operation) : Option Cancellation :=
  operations.foldlM apply c

theorem after?_append (c : Cancellation) (earlier later : List Operation) :
    c.after? (earlier ++ later) = (c.after? earlier).bind (after? · later) :=
  List.foldlM_append

theorem after?_cons (c : Cancellation) (operation : Operation) (later : List Operation) :
    c.after? (operation :: later) = (c.apply operation).bind (after? · later) :=
  List.foldlM_cons

theorem after?_append_singleton (c : Cancellation) (earlier : List Operation)
    (operation : Operation) :
    c.after? (earlier ++ [operation]) = (c.after? earlier).bind (apply · operation) := by
  rw [after?_append]
  congr 1
  funext d
  rw [after?_cons]
  cases d.apply operation <;> rfl

/-! ## Signals -/

theorem Descends.append {operations : List Operation} {i : ℕ} (descends : Descends operations i)
    (later : List Operation) : Descends (operations ++ later) i := by
  cases descends with
  | pair => exact .pair
  | signal =>
    rw [List.append_assoc, List.cons_append]
    exact .signal
  | clone descends =>
    rw [List.append_assoc, List.cons_append]
    exact .clone descends

/-- What stands in a list with one more element stood in the list, or is the last element. -/
theorem eq_or_of_append_cons {α : Type} {earlier later l : List α} {a b : α}
    (split : earlier ++ a :: later = l ++ [b]) :
    earlier = l ∧ a = b ∨ ∃ rest, l = earlier ++ a :: rest := by
  rcases List.eq_nil_or_concat later with rfl | ⟨rest, last, rfl⟩
  · obtain ⟨same, last⟩ := List.append_inj' split rfl
    exact .inl ⟨same, List.singleton_inj.mp last⟩
  · rw [List.concat_eq_append, ← List.cons_append, ← List.append_assoc] at split
    exact .inr ⟨rest, (List.append_inj' split rfl).1.symm⟩

/-- One more operation adds at most one signal. It descends from the handle when it was made of
the handle or copies a signal that descends from it. This is the step for the induction over
operations. -/
theorem descends_append_singleton {operations : List Operation} {operation : Operation} {i : ℕ} :
    Descends (operations ++ [operation]) i ↔ Descends operations i ∨
      i = made operations ∧
        (operation = .signal ∨ ∃ j, operation = .clone j ∧ Descends operations j) := by
  constructor
  · generalize whole : operations ++ [operation] = all
    intro descends
    cases descends with
    | pair => exact .inl .pair
    | signal =>
      rcases eq_or_of_append_cons whole.symm with ⟨rfl, same⟩ | ⟨rest, rfl⟩
      · exact .inr ⟨rfl, .inl same.symm⟩
      · exact .inl .signal
    | @clone _ _ j descends =>
      rcases eq_or_of_append_cons whole.symm with ⟨rfl, same⟩ | ⟨rest, rfl⟩
      · exact .inr ⟨rfl, .inr ⟨j, same.symm, descends⟩⟩
      · exact .inl (.clone descends)
  · rintro (descends | ⟨rfl, rfl | ⟨j, rfl, descends⟩⟩)
    · exact descends.append _
    · exact .signal
    · exact .clone descends

theorem receiver?_addSignal (c : Cancellation) (receiver : Option Receiver) (i : ℕ) :
    (c.addSignal receiver).receiver? i =
      if i = c.signals.length then receiver else c.receiver? i := by
  rw [receiver?, receiver?, addSignal]
  split
  · rename_i last
    subst last
    simp
  · rename_i other
    rcases Nat.lt_or_gt_of_ne other with before | beyond
    · simp [List.getElem?_append_left before]
    · have : i - c.signals.length ≠ 0 := by omega
      simp [List.getElem?_append_right (Nat.le_of_lt beyond), Nat.le_of_lt beyond, this]

/-- There is no signal beyond those that were made. -/
theorem receiver?_length (c : Cancellation) : c.receiver? c.signals.length = none := by
  simp [receiver?]

/-! ## What operations bring about -/

/-- A handle and its signals after operations. This is the invariant of all that can be done with
them: the channel knows whether the handle has cancelled and whether it was dropped, and the signals
that are linked to it are those that descend from it. -/
structure Reached (operations : List Operation) (c : Cancellation) : Prop where
  length : c.signals.length = made operations
  linked : ∀ i, (c.receiver? i).isSome ↔ Descends operations i
  cancelled : c.channel.cancelled ↔ .cancel ∈ operations
  held : c.channel.held ↔ .drop ∉ operations

theorem reached_nil : Reached [] {} where
  length := rfl
  linked := by
    intro i
    constructor
    · intro linked
      obtain rfl : i = 0 := by
        by_contra other
        obtain ⟨n, rfl⟩ := Nat.exists_eq_succ_of_ne_zero other
        simp [receiver?] at linked
      exact .pair
    · generalize none : ([] : List Operation) = operations
      intro descends
      cases descends with
      | pair => rfl
      | signal => simp at none
      | clone => simp at none
  cancelled := by simp
  held := by simp

section

variable {operations : List Operation} {operation : Operation} {c d : Cancellation}

theorem Reached.not_descends_made (reached : Reached operations c) :
    ¬ Descends operations (made operations) := by
  rw [← reached.linked, ← reached.length, receiver?_length]
  nofun

/-- One more signal, which changes nothing of the others and nothing of the channel. -/
theorem Reached.addSignal (reached : Reached operations c) (makes : operation.makes)
    {receiver : Option Receiver} (linked : receiver.isSome ↔
      operation = .signal ∨ ∃ j, operation = .clone j ∧ Descends operations j) :
    Reached (operations ++ [operation]) (c.addSignal receiver) where
  length := by
    rw [Cancellation.addSignal, List.length_append, reached.length, made, made,
      List.countP_append, List.countP_singleton, if_pos makes]
    rfl
  linked := by
    intro i
    rw [descends_append_singleton, receiver?_addSignal, reached.length]
    split
    · rename_i last
      subst last
      simp [linked, reached.not_descends_made]
    · rename_i other
      simp [other, reached.linked]
  cancelled := by
    have other : operation ≠ .cancel := by
      rintro rfl
      cases makes
    simp [Cancellation.addSignal, reached.cancelled, other.symm]
  held := by
    have other : operation ≠ .drop := by
      rintro rfl
      cases makes
    simp [Cancellation.addSignal, reached.held, other.symm]

/-- One more operation on the channel, which changes nothing of the signals. -/
theorem Reached.withChannel (reached : Reached operations c) (keeps : operation.makes = false)
    {channel : Channel} (cancelled : channel.cancelled ↔ .cancel ∈ operations ++ [operation])
    (held : channel.held ↔ .drop ∉ operations ++ [operation]) :
    Reached (operations ++ [operation]) { c with channel } where
  length := by
    rw [made, List.countP_append, List.countP_singleton, keeps]
    exact reached.length
  linked := by
    intro i
    rw [descends_append_singleton]
    have none : ¬ (operation = .signal ∨ ∃ j, operation = .clone j ∧ Descends operations j) := by
      rintro (rfl | ⟨j, rfl, -⟩) <;> cases keeps
    simp only [none, and_false, or_false]
    exact reached.linked i
  cancelled := cancelled
  held := held

/-- What an operation can do: make a signal, cancel, or drop the handle. Only a handle that somebody
holds can cancel. -/
theorem apply_cases (applied : c.apply operation = some d) :
    (operation.makes ∧ ∃ receiver, d = c.addSignal receiver ∧ (receiver.isSome ↔
        operation = .signal ∨ ∃ j, operation = .clone j ∧ (c.receiver? j).isSome)) ∨
      (operation = .cancel ∧ c.channel.held ∧ d = { c with channel := c.channel.send }) ∨
      (operation = .drop ∧ d = { c with channel := c.channel.close }) := by
  cases operation with
  | signal =>
    rw [apply] at applied
    split at applied
    · exact .inl ⟨rfl, _, (Option.some.inj applied).symm, by simp⟩
    · cases applied
  | clone j => exact .inl ⟨rfl, _, (Option.some.inj applied).symm, by simp⟩
  | never => exact .inl ⟨rfl, _, (Option.some.inj applied).symm, by simp⟩
  | cancel =>
    rw [apply] at applied
    split at applied
    · rename_i held
      exact .inr (.inl ⟨rfl, held, (Option.some.inj applied).symm⟩)
    · cases applied
  | drop => exact .inr (.inr ⟨rfl, (Option.some.inj applied).symm⟩)

/-- Each operation keeps what is known of the ones before. The cases are those of `apply_cases`. -/
theorem Reached.step (reached : Reached operations c) (applied : c.apply operation = some d) :
    Reached (operations ++ [operation]) d := by
  rcases apply_cases applied with ⟨makes, receiver, rfl, linked⟩ | ⟨rfl, -, rfl⟩ | ⟨rfl, rfl⟩
  · exact reached.addSignal makes (by simpa only [reached.linked] using linked)
  · exact reached.withChannel rfl (by simp [Channel.send]) (by simp [Channel.send, reached.held])
  · exact reached.withChannel rfl (by simp [Channel.close, reached.cancelled])
      (by simp [Channel.close])

/-- Whatever was done, in whatever order, leads to a handle and signals of which that is known. The
induction takes the last operation off. -/
theorem reached_of_after? (done : ({} : Cancellation).after? operations = some c) :
    Reached operations c := by
  induction operations using List.reverseRecOn generalizing c with
  | nil =>
    obtain rfl := Option.some.inj done
    exact reached_nil
  | append_singleton operations operation ih =>
    rw [after?_append_singleton, Option.bind_eq_some_iff] at done
    obtain ⟨b, before, applied⟩ := done
    exact (ih before).step applied

/-- Nobody cancels with a handle that was dropped. So a cancellation among the operations came
before. -/
theorem cancels_of_mem (done : ({} : Cancellation).after? operations = some c)
    (cancels : .cancel ∈ operations) : Cancels operations := by
  obtain ⟨earlier, later, rfl⟩ := List.append_of_mem cancels
  rw [after?_append, Option.bind_eq_some_iff] at done
  obtain ⟨b, before, rest⟩ := done
  refine ⟨earlier, later, rfl, (reached_of_after? before).held.mp ?_⟩
  by_contra dropped
  rw [after?_cons, apply, if_neg dropped] at rest
  cases rest

/-- A signal tells a cancellation just when it descends from the handle, and that has cancelled
before it was dropped. -/
theorem isCancelled_iff (done : ({} : Cancellation).after? operations = some c) (i : ℕ) :
    c.isCancelled i ↔ Descends operations i ∧ Cancels operations := by
  have reached := reached_of_after? done
  rw [isCancelled, Bool.and_eq_true, reached.linked, reached.cancelled]
  refine and_congr_right fun _ => ⟨cancels_of_mem done, ?_⟩
  rintro ⟨earlier, later, rfl, -⟩
  simp

end

end Cancellation

/-! ## Waiting -/

/-- What may have become of a channel: nothing was sent, or the handle has cancelled. -/
inductive Channel.Later (c d : Channel) : Prop
  | quiet : d.cancelled = c.cancelled → d.version = c.version → (d.held → c.held) → Later c d
  | sent : c.held → d.cancelled → c.version < d.version → Later c d

namespace Channel

variable {b c d : Channel}

theorem Later.refl (c : Channel) : c.Later c :=
  .quiet rfl rfl id

/-- What becomes of a channel in two steps may become of it in one: nothing takes a cancellation
back. -/
theorem Later.trans (first : b.Later c) (second : c.Later d) : b.Later d := by
  cases first with
  | quiet value version held =>
    cases second with
    | quiet value' version' held' =>
      exact .quiet (value'.trans value) (version'.trans version) (held ∘ held')
    | sent held' cancelled version' => exact .sent (held held') cancelled (version ▸ version')
  | sent held cancelled version =>
    cases second with
    | quiet value' version' _ => exact .sent held (value' ▸ cancelled) (version' ▸ version)
    | sent _ cancelled' version' => exact .sent held cancelled' (Nat.lt_trans version version')

theorem look_of_cancelled (cancelled : c.cancelled) : c.look = .fired :=
  if_pos cancelled

/-- A task that sees no cancellation waits for the next value, from the one that it has seen. -/
theorem look_of_uncancelled (uncancelled : c.cancelled = false) : c.look = c.sleep c.subscribe :=
  if_neg (Bool.eq_false_iff.mp uncancelled)

/-- Whenever a task that has looked at the value is woken, it stands where it would stand had it
looked only then. So nothing is missed between looking and waiting, however the operations and the
task alternate. All statements about schedules rest on this. -/
theorem wake_look (later : c.Later d) : d.wake c.look = d.look := by
  cases value : c.cancelled with
  | true =>
    have cancelled : d.cancelled := by
      cases later with
      | quiet same => rw [same, value]
      | sent _ cancelled => exact cancelled
    rw [look_of_cancelled value, look_of_cancelled cancelled]
    rfl
  | false =>
    rw [look_of_uncancelled value, sleep]
    cases later with
    | quiet same version held =>
      rw [look_of_uncancelled (same.trans value)]
      split
      · rw [wake, subscribe, if_pos version, subscribe, version]
      · rename_i dropped
        rw [sleep, if_neg fun held' => dropped (held held')]
        rfl
    | sent held _ version =>
      rw [if_pos held]
      exact if_neg (Nat.ne_of_gt version)

end Channel

namespace Cancellation

section

variable {operations : List Operation} {operation : Operation} {c d : Cancellation}

theorem later_of_apply (applied : c.apply operation = some d) : c.channel.Later d.channel := by
  rcases apply_cases applied with ⟨-, receiver, rfl, -⟩ | ⟨-, held, rfl⟩ | ⟨-, rfl⟩
  · exact .refl _
  · exact .sent held rfl (Nat.lt_succ_self _)
  · exact .quiet rfl rfl nofun

theorem later_of_after? (done : c.after? operations = some d) : c.channel.Later d.channel := by
  induction operations generalizing c with
  | nil =>
    obtain rfl := Option.some.inj done
    exact .refl _
  | cons operation operations ih =>
    rw [after?_cons, Option.bind_eq_some_iff] at done
    obtain ⟨b, applied, rest⟩ := done
    exact (later_of_apply applied).trans (ih rest)

/-! ## Plans -/

theorem cancelsAfter_nil {t : ℕ} : ¬ CancelsAfter [] t := by
  rintro ⟨earlier, delay, later, empty, -⟩
  simp at empty

/-- A plan cancels with its first operation, or after it, unless that drops the handle. -/
theorem cancelsAfter_cons_iff {p : Planned} {plan : List Planned} {t : ℕ} :
    CancelsAfter (p :: plan) t ↔ p.operation = .cancel ∧ t = p.delay ∨
      (p.operation ≠ .cancel ∧ p.operation ≠ .drop) ∧
        ∃ u, CancelsAfter plan u ∧ t = p.delay + u := by
  constructor
  · rintro ⟨earlier, delay, later, split, before, rfl⟩
    cases earlier with
    | nil =>
      obtain ⟨rfl, -⟩ := List.cons.inj split
      exact .inl ⟨rfl, by simp⟩
    | cons q earlier =>
      obtain ⟨rfl, rfl⟩ := List.cons.inj split
      obtain ⟨first, before⟩ := List.forall_mem_cons.mp before
      refine .inr ⟨first, _, ⟨earlier, delay, later, rfl, before, rfl⟩, ?_⟩
      rw [List.map_cons, List.sum_cons, Nat.add_assoc]
  · rintro (⟨cancels, rfl⟩ | ⟨first, u, ⟨earlier, delay, later, rfl, before, rfl⟩, rfl⟩)
    · exact ⟨[], p.delay, plan, by rw [← cancels]; rfl, nofun, by simp⟩
    · refine ⟨p :: earlier, delay, later, rfl, List.forall_mem_cons.mpr ⟨first, before⟩, ?_⟩
      rw [List.map_cons, List.sum_cons, Nat.add_assoc]

/-- What comes after a delay, counted from before it. -/
theorem exists_add_iff {q : ℕ → Prop} {elapsed delay t : ℕ} :
    (∃ u, q u ∧ t = elapsed + delay + u) ↔
      ∃ u, (∃ v, q v ∧ u = delay + v) ∧ t = elapsed + u := by
  constructor
  · rintro ⟨v, holds, rfl⟩
    exact ⟨_, ⟨v, holds, rfl⟩, Nat.add_assoc ..⟩
  · rintro ⟨_, ⟨v, holds, rfl⟩, rfl⟩
    exact ⟨v, holds, (Nat.add_assoc ..).symm⟩

theorem firesFrom_fired (c : Cancellation) (elapsed : ℕ) (plan : List Planned) :
    c.firesFrom .fired elapsed plan = some elapsed := by
  cases plan <;> simp [firesFrom]

theorem firesFrom_forever (c : Cancellation) (elapsed : ℕ) (plan : List Planned) :
    c.firesFrom .forever elapsed plan = none := by
  induction plan generalizing c elapsed with
  | nil => rfl
  | cons p plan ih =>
    rw [firesFrom, if_neg nofun]
    cases c.apply p.operation with
    | none => rfl
    | some d => exact ih d _

/-- A task whose handle was dropped without a cancellation never goes on, since nobody is left to
send one. -/
theorem firesFrom_look_of_dropped (uncancelled : c.channel.cancelled = false)
    (dropped : c.channel.held = false) (elapsed : ℕ) (plan : List Planned) :
    c.firesFrom c.channel.look elapsed plan = none := by
  rw [Channel.look_of_uncancelled uncancelled, Channel.sleep, if_neg (Bool.eq_false_iff.mp dropped),
    firesFrom_forever]

/-- A task that waits is woken by each operation, and looks anew. By `wake_look` it need not be
followed any further: it is as if it started to wait after the operation. -/
theorem firesFrom_look_cons (uncancelled : c.channel.cancelled = false) {p : Planned}
    (applied : c.apply p.operation = some d) (elapsed : ℕ) (plan : List Planned) :
    c.firesFrom c.channel.look elapsed (p :: plan) =
      d.firesFrom d.channel.look (elapsed + p.delay) plan := by
  have waits : c.channel.look ≠ .fired := by
    rw [Channel.look_of_uncancelled uncancelled, Channel.sleep]
    split <;> nofun
  rw [firesFrom, if_neg waits, applied]
  dsimp only
  rw [Channel.wake_look (later_of_apply applied)]

/-- A task goes on at the first cancellation of a plan. The induction is over the plan, with the
time that has elapsed generalized. -/
theorem firesFrom_look (uncancelled : c.channel.cancelled = false) (held : c.channel.held)
    (elapsed t : ℕ) (plan : List Planned) :
    c.firesFrom c.channel.look elapsed plan = some t ↔
      ∃ u, CancelsAfter plan u ∧ t = elapsed + u := by
  induction plan generalizing c elapsed with
  | nil =>
    rw [Channel.look_of_uncancelled uncancelled, Channel.sleep, if_pos held]
    simp [firesFrom, cancelsAfter_nil]
  | cons p plan ih =>
    simp only [cancelsAfter_cons_iff]
    have goesOn : ∀ receiver, c.apply p.operation = some (c.addSignal receiver) →
        (c.firesFrom c.channel.look elapsed (p :: plan) = some t ↔
          ∃ u, (∃ v, CancelsAfter plan v ∧ u = p.delay + v) ∧ t = elapsed + u) := by
      intro receiver applied
      rw [firesFrom_look_cons uncancelled applied, ih (c := c.addSignal receiver) uncancelled held,
        exists_add_iff]
    cases operation : p.operation with
    | signal => simpa using goesOn c.channel.subscribe (by rw [operation]; exact if_pos held)
    | clone j => simpa using goesOn (c.receiver? j) (by rw [operation]; rfl)
    | never => simpa using goesOn none (by rw [operation]; rfl)
    | cancel =>
      have applied : c.apply p.operation = some { c with channel := c.channel.send } := by
        rw [operation]
        exact if_pos held
      rw [firesFrom_look_cons uncancelled applied, Channel.look_of_cancelled rfl, firesFrom_fired]
      simp [eq_comm]
    | drop =>
      have applied : c.apply p.operation = some { c with channel := c.channel.close } := by
        rw [operation]
        rfl
      rw [firesFrom_look_cons uncancelled applied,
        firesFrom_look_of_dropped (c := { c with channel := c.channel.close }) uncancelled rfl]
      simp

/-! ## The law -/

/-- A task that starts to wait looks at the value, if its signal has a handle. -/
theorem start_eq (c : Cancellation) (i : ℕ) :
    c.start i = if (c.receiver? i).isSome then c.channel.look else .forever := by
  rw [start]
  cases c.receiver? i <;> rfl

/-- When a signal fires that is waited for: at once if its handle has cancelled, and otherwise at
the first cancellation to come, unless the handle is dropped before. -/
theorem firesAfter_eq_some_iff (done : ({} : Cancellation).after? operations = some c) (i : ℕ)
    (plan : List Planned) (t : ℕ) :
    c.firesAfter i plan = some t ↔ Descends operations i ∧
      (Cancels operations ∧ t = 0 ∨
        ¬ Cancels operations ∧ .drop ∉ operations ∧ CancelsAfter plan t) := by
  have reached := reached_of_after? done
  have cancels : c.channel.cancelled ↔ Cancels operations := by
    rw [reached.cancelled]
    refine ⟨cancels_of_mem done, ?_⟩
    rintro ⟨earlier, later, rfl, -⟩
    simp
  rw [firesAfter, start_eq, ← reached.linked, ← cancels, ← reached.held]
  split
  · rename_i linked
    cases cancelled : c.channel.cancelled with
    | true =>
      rw [Channel.look_of_cancelled cancelled, firesFrom_fired, Option.some_inj, eq_comm]
      simp [linked]
    | false =>
      cases held : c.channel.held with
      | true =>
        rw [firesFrom_look cancelled held]
        simp [linked]
      | false =>
        rw [firesFrom_look_of_dropped cancelled held]
        simp
  · rename_i unlinked
    rw [firesFrom_forever]
    simp [unlinked]

/-- What the signals of a handle tell after operations. -/
structure Tells (operations : List Operation) (c : Cancellation) : Prop where
  /-- a signal tells a cancellation if it descends from the handle, and the handle has cancelled
  before it was dropped -/
  isCancelled : ∀ i, c.isCancelled i ↔ Descends operations i ∧ Cancels operations
  /-- it never stops to -/
  stays : ∀ i later d, c.isCancelled i → c.after? later = some d → d.isCancelled i
  /-- a signal that is waited for fires at once or at the first cancellation to come -/
  fires : ∀ i plan t, c.firesAfter i plan = some t ↔ Descends operations i ∧
    (Cancels operations ∧ t = 0 ∨
      ¬ Cancels operations ∧ .drop ∉ operations ∧ CancelsAfter plan t)
  /-- whenever the waiting task is woken, it stands where it would if it started then -/
  woken : ∀ i later d, i < made operations → c.after? later = some d →
    d.channel.wake (c.start i) = d.start i

/-- A signal that was made keeps its link: whether it descends from the handle was settled when it
was made. -/
theorem Descends.of_append {operations later : List Operation} {i : ℕ}
    (descends : Descends (operations ++ later) i) (early : i < made operations) :
    Descends operations i := by
  induction later using List.reverseRecOn with
  | nil => rwa [List.append_nil] at descends
  | append_singleton later operation ih =>
    rw [← List.append_assoc, descends_append_singleton] at descends
    rcases descends with descends | ⟨rfl, -⟩
    · exact ih descends
    · exfalso
      rw [made, made, List.countP_append] at early
      omega

/-- Signals tell just the cancellations of the handle they descend from, whatever was done in
whatever order, and so do the tasks that wait for them. Neither the moment at which a signal was
made nor the number of copies it has gone through makes a difference. -/
theorem signals_tell_cancellations (operations : List Operation) (c : Cancellation)
    (done : ({} : Cancellation).after? operations = some c) : Tells operations c where
  isCancelled := isCancelled_iff done
  stays := by
    intro i later d cancelled done'
    have whole : ({} : Cancellation).after? (operations ++ later) = some d := by
      rw [after?_append, done]
      exact done'
    obtain ⟨descends, earlier, rest, rfl, held⟩ := (isCancelled_iff done i).mp cancelled
    refine (isCancelled_iff whole i).mpr ⟨descends.append later, earlier, rest ++ later, ?_, held⟩
    rw [List.append_assoc, List.cons_append]
  fires := firesAfter_eq_some_iff done
  woken := by
    intro i later d early done'
    have whole : ({} : Cancellation).after? (operations ++ later) = some d := by
      rw [after?_append, done]
      exact done'
    have same : (d.receiver? i).isSome ↔ (c.receiver? i).isSome := by
      rw [(reached_of_after? whole).linked, (reached_of_after? done).linked]
      exact ⟨fun descends => descends.of_append early, fun descends => descends.append later⟩
    rw [start_eq, start_eq]
    by_cases linked : (c.receiver? i).isSome
    · rw [if_pos linked, if_pos (same.mpr linked), Channel.wake_look (later_of_after? done')]
    · rw [if_neg linked, if_neg fun linked' => linked (same.mp linked')]
      rfl

end

/-- A copy of a copy that was made in time tells a cancellation after the handle was dropped, and a
signal of no handle does not. -/
theorem copied_signals_tell_cancellation :
    ∃ c, ({} : Cancellation).after? [.clone 0, .never, .clone 1, .cancel, .signal, .drop, .clone 3] =
        some c ∧
      Tells [.clone 0, .never, .clone 1, .cancel, .signal, .drop, .clone 3] c ∧
      c.readings = [true, true, false, true, true, true] :=
  ⟨_, rfl, signals_tell_cancellations _ _ rfl, rfl⟩

end Cancellation

/-! ## The handle of a wait -/

open Cancellation (Operation Planned CancelsAfter Descends)

/-- What an operation does to the handle. -/
def Cancellation.Operation.action? : Operation → Option HandleAction
  | .cancel => some .cancel
  | .drop => some .drop
  | .signal | .clone _ | .never => none

/-- The handle of a wait while a plan is carried out from `now` on. Waits are given a handle of
which it is known when it cancels; this is the one that stands for a plan. -/
def Handle.carry (h : Handle) (now : ℕ) : List Planned → Handle
  | [] => h
  | p :: plan => (h.act (now + p.delay) p.operation.action?).carry (now + p.delay) plan

theorem Handle.carry_of_cancelled {h : Handle} {t : ℕ} (cancelled : h.cancelledAt = some t)
    (now : ℕ) (plan : List Planned) : (h.carry now plan).cancelledAt = some t := by
  induction plan generalizing h now with
  | nil => exact cancelled
  | cons p plan ih => exact ih (act_of_cancelled cancelled _ _) _

/-- The handle of a wait cancels at the first cancellation of a plan, if somebody holds it. -/
theorem Handle.cancelledAt_carry {h : Handle} (uncancelled : h.cancelledAt = none) (now t : ℕ)
    (plan : List Planned) : (h.carry now plan).cancelledAt = some t ↔
      h.held ∧ ∃ u, CancelsAfter plan u ∧ t = now + u := by
  induction plan generalizing h now with
  | nil => simp [carry, uncancelled, Cancellation.cancelsAfter_nil]
  | cons p plan ih =>
    simp only [Cancellation.cancelsAfter_cons_iff, carry]
    cases operation : p.operation with
    | signal | clone | never =>
      rw [Operation.action?, act, ih uncancelled, Cancellation.exists_add_iff]
      simp
    | cancel =>
      rw [Operation.action?, act, cancel]
      split
      · rename_i first
        have held : h.held := (Bool.and_eq_true_iff.mp first).1
        rw [carry_of_cancelled rfl, Option.some_inj, eq_comm]
        simp [held]
      · rename_i given
        have dropped : h.held = false := by simpa [uncancelled] using given
        rw [ih uncancelled]
        simp [dropped]
    | drop =>
      rw [Operation.action?, act, ih (h := h.drop) uncancelled]
      simp [drop]

/-- A signal that is waited for fires when the handle cancels that a wait is given in its place. So
waits may be stated with handles, and what was proved of signals carries over. -/
theorem Cancellation.firesAfter_eq_carry {operations : List Operation} {c : Cancellation}
    (done : ({} : Cancellation).after? operations = some c) {i : ℕ}
    (descends : Descends operations i) {h : Handle} (uncancelled : c.isCancelled i = false)
    (fresh : h.cancelledAt = none) (held : h.held = c.channel.held) (plan : List Planned) :
    c.firesAfter i plan = (h.carry 0 plan).cancelledAt := by
  have quiet : ¬ Cancellation.Cancels operations := by
    intro cancels
    rw [(Cancellation.isCancelled_iff done i).mpr ⟨descends, cancels⟩] at uncancelled
    cases uncancelled
  ext t
  rw [Cancellation.firesAfter_eq_some_iff done, Handle.cancelledAt_carry fresh, held,
    (Cancellation.reached_of_after? done).held]
  simp [descends, quiet]

end MetaTransaction.Confirmation
