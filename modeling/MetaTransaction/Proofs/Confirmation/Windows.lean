import MetaTransaction.Proofs.Confirmation.Trace

/-!
# Windows of a trace

The answered calls of a wait fall into windows: a log query with the receipt lookups after it. A
window is completed when the query was answered and each of its candidates was looked up and passed.
The base of the next window is the upper block of the last completed one, and before there is one, it
lies below the first head.

* `Trace.agrees` — a phase holds the base that the calls determine, and the candidates of the last
  window that are still to be looked up;
* `Trace.lawful` — the window law: each query reaches from the base, less the overlap, up to the head
  answered just before it.
-/

namespace MetaTransaction.Confirmation

variable {ε σ : Type}

/-! ## Windows -/

/-- A log query and the lookups of its candidates. The calls before the query are kept with it, so
that the base of a window can be computed from what was answered before, without the state of the
wait. -/
structure Window (ε : Type) where
  /-- the calls before the query, latest first -/
  before : List (ChainCall ε)
  filter : LogFilter
  answer : Except ε (List Log)
  /-- the transactions that were looked up, and the answers -/
  lookups : List (Hash × Except ε (Option Receipt)) := []

/-- The number of the query among all calls. -/
def Window.number (v : Window ε) : Nat :=
  v.before.length

/-- The window with one more lookup. -/
def Window.lookUp (v : Window ε) (hash : Hash) (answer : Except ε (Option Receipt)) : Window ε :=
  { v with lookups := v.lookups ++ [(hash, answer)] }

/-- Whether the query and all lookups were answered without an error and without a match. Only then
has the window been searched through, and only then may the base move. -/
def Window.completed (plan : Plan) (v : Window ε) : Bool :=
  match v.answer with
  | .error _ => false
  | .ok logs =>
    v.lookups.map Prod.fst = candidates logs && v.lookups.all fun lookup => plan.passes lookup.2

/-- The windows of calls; both are given latest first. A lookup belongs to the window of the latest
query before it. -/
def windows : List (ChainCall ε) → List (Window ε)
  | [] => []
  | .head _ _ :: calls => windows calls
  | .logs filter _ reply :: calls =>
    { before := calls, filter, answer := reply.answer } :: windows calls
  | .receipt hash _ reply :: calls =>
    (windows calls).modifyHead (·.lookUp hash reply.answer)

/-- The first head that was answered. -/
def firstHead : List (ChainCall ε) → Option BlockNumber
  | [] => none
  | .head _ reply :: calls => (firstHead calls).or reply.answer.toOption
  | _ :: calls => firstHead calls

/-- The heads that were answered, latest first. -/
def heads : List (ChainCall ε) → List BlockNumber
  | [] => []
  | .head _ reply :: calls => reply.answer.toOption.toList ++ heads calls
  | _ :: calls => heads calls

/-- The head that was answered just now. -/
def latestHead : List (ChainCall ε) → Option BlockNumber
  | .head _ reply :: _ => reply.answer.toOption
  | _ => none

/-- The base that windows determine, where the first head was `first`. -/
def baseOf (plan : Plan) (first : Option BlockNumber) (vs : List (Window ε)) :
    Option BlockNumber :=
  match vs.find? (·.completed plan) with
  | some v => some v.filter.toBlock
  | none => first.map plan.settings.firstBase

/-- The base of the window that comes after the calls. It is a function of the answers alone, and
the window law compares queries with it; that the phases of a wait carry the same base is
`Trace.agrees`. -/
def base (plan : Plan) (calls : List (ChainCall ε)) : Option BlockNumber :=
  baseOf plan (firstHead calls) (windows calls)

/-- The window law: a query covers the blocks from the base, less the overlap, up to the head. The
head is the one that was answered right before the query, and the base is what the calls before it
determine. -/
structure Window.Lawful (plan : Plan) (v : Window ε) : Prop where
  head : latestHead v.before = some v.filter.toBlock
  reach : ∃ b, base plan v.before = some b ∧
    v.filter = plan.settings.window b v.filter.toBlock

/-! ## Facts about windows -/

/-- A window is completed just when its query was answered, all candidates of the answer were looked
up in order, and each lookup passed. -/
theorem Window.completed_iff {plan : Plan} {v : Window ε} :
    v.completed plan = true ↔
      ∃ logs, v.answer = .ok logs ∧ v.lookups.map Prod.fst = candidates logs ∧
        ∀ lookup ∈ v.lookups, plan.passes lookup.2 = true := by
  rw [completed]
  cases v.answer with
  | error e => simp
  | ok logs => simp

/-- The first head that was answered is the last of the list, which is kept latest first. -/
theorem firstHead_eq_getLast? (calls : List (ChainCall ε)) :
    firstHead calls = (heads calls).getLast? := by
  induction calls with
  | nil => rfl
  | cons call calls ih =>
    cases call with
    | head time reply =>
      rw [firstHead, heads, List.getLast?_append, ih]
      cases reply.answer <;> rfl
    | logs filter time reply => exact ih
    | receipt hash time reply => exact ih

/-- Later calls only add heads in front. So the heads before a query are some of the heads of the
wait. -/
theorem heads_suffix {earlier calls : List (ChainCall ε)} (suffix : earlier <:+ calls) :
    heads earlier <:+ heads calls := by
  obtain ⟨later, rfl⟩ := suffix
  induction later with
  | nil => exact List.suffix_refl _
  | cons call later ih =>
    cases call with
    | head time reply => exact ih.trans (List.suffix_append _ _)
    | logs filter time reply => exact ih
    | receipt hash time reply => exact ih

/-- The windows before a window are those of the calls before it. This lets an induction over
windows use what was proved of their calls. -/
theorem windows_before {calls : List (ChainCall ε)} {later vs : List (Window ε)} {v : Window ε}
    (h : windows calls = later ++ v :: vs) : windows v.before = vs := by
  induction calls generalizing later v with
  | nil => simp [windows] at h
  | cons call calls ih =>
    cases call with
    | head time reply => exact ih h
    | logs filter time reply =>
      rw [windows] at h
      cases later with
      | nil =>
        obtain ⟨rfl, rfl⟩ := List.cons.inj h
        rfl
      | cons u later => exact ih (List.cons.inj h).2
    | receipt hash time reply =>
      -- a lookup belongs to the latest window and leaves the calls before it alone
      rw [windows] at h
      cases latest : windows calls with
      | nil => simp [latest] at h
      | cons u us =>
        rw [latest, List.modifyHead_cons] at h
        cases later with
        | nil =>
          obtain ⟨rfl, rfl⟩ := List.cons.inj h
          exact @ih [] u latest
        | cons u' later =>
          obtain ⟨-, rest⟩ := List.cons.inj h
          refine @ih (u :: later) v ?_
          rw [latest, rest]
          rfl

/-- A window before a window of the calls is a window of the calls, so that a law for all windows of
a wait is a law for those before each of them. -/
theorem mem_windows_before {calls : List (ChainCall ε)} {u v : Window ε}
    (hv : v ∈ windows calls) (hu : u ∈ windows v.before) : u ∈ windows calls := by
  obtain ⟨later, vs, split⟩ := List.append_of_mem hv
  rw [windows_before split] at hu
  rw [split]
  exact List.mem_append_right _ (List.mem_cons_of_mem _ hu)

/-! ## What a phase knows of its windows -/

/-- A window up to `h` from the base `b`, of which the candidates `pending` are still to be looked
up and the others have passed. It is the invariant of the lookups: each one that passes moves a
candidate from `pending` to the lookups, and when none is left the window is completed. -/
structure Window.Scanning (plan : Plan) (v : Window ε) (b h : BlockNumber) (pending : List Hash) :
    Prop where
  filter : v.filter = plan.settings.window b h
  split : ∃ logs, v.answer = .ok logs ∧ v.lookups.map Prod.fst ++ pending = candidates logs
  passed : ∀ lookup ∈ v.lookups, plan.passes lookup.2 = true

/-- What the windows of the calls say about the phase they lead to. The base and the head that a
phase carries are those that the calls determine, and a phase of lookups carries the candidates that
its window has not looked up. -/
def Agrees (plan : Plan) (calls : List (ChainCall ε)) : Phase → Prop
  | .head b | .pause b => base plan calls = b
  | .logs b h => base plan calls = some b ∧ latestHead calls = some h
  | .receipts b h pending =>
    ∃ v vs, windows calls = v :: vs ∧ v.Scanning plan b h pending ∧
      baseOf plan (firstHead calls) vs = some b

theorem baseOf_cons_of_completed {plan : Plan} {first : Option BlockNumber} {v : Window ε}
    {vs : List (Window ε)} (h : v.completed plan = true) :
    baseOf plan first (v :: vs) = some v.filter.toBlock := by
  rw [baseOf, List.find?_cons_of_pos h]

/-- A window that is not completed leaves the base where it was. Its blocks are searched again. -/
theorem baseOf_cons_of_not_completed {plan : Plan} {first : Option BlockNumber} {v : Window ε}
    {vs : List (Window ε)} (h : v.completed plan = false) :
    baseOf plan first (v :: vs) = baseOf plan first vs := by
  rw [baseOf, baseOf, List.find?_cons_of_neg (by simp [h])]

/-- A base is the upper block of a completed window or lies below the first head. These are the two
places from which a lower edge of a window can come. -/
theorem baseOf_cases {plan : Plan} {first : Option BlockNumber} {vs : List (Window ε)}
    {b : BlockNumber} (h : baseOf plan first vs = some b) :
    (∃ u ∈ vs, u.completed plan = true ∧ u.filter.toBlock = b) ∨
      ∃ head, first = some head ∧ plan.settings.firstBase head = b := by
  rw [baseOf] at h
  split at h
  · rename_i u latest
    exact .inl ⟨u, List.mem_of_find?_eq_some latest, List.find?_some latest, Option.some.inj h⟩
  · exact .inr (Option.map_eq_some_iff.mp h)

/-- A head that is answered makes a base where there was none, and changes none that there was: only
the first head of a wait has a say in the base. -/
theorem base_head_found {plan : Plan} {calls : List (ChainCall ε)} {time : Nat}
    {reply : Reply ε BlockNumber} {h : BlockNumber} (answer : reply.answer = .ok h) :
    base plan (.head time reply :: calls) =
      some ((base plan calls).getD (plan.settings.firstBase h)) := by
  simp only [base, baseOf, windows, firstHead, answer, Except.toOption]
  cases (windows calls).find? (·.completed plan) with
  | some v => rfl
  | none => cases firstHead calls <;> rfl

theorem base_head_failed {plan : Plan} {calls : List (ChainCall ε)} {time : Nat}
    {reply : Reply ε BlockNumber} {e : ε} (answer : reply.answer = .error e) :
    base plan (.head time reply :: calls) = base plan calls := by
  simp [base, windows, firstHead, answer, Except.toOption]

namespace Window.Scanning

variable {plan : Plan} {v : Window ε} {b h : BlockNumber} {hash : Hash} {pending : List Hash}

theorem completed (s : v.Scanning plan b h []) : v.completed plan = true := by
  obtain ⟨logs, answer, split⟩ := s.split
  rw [List.append_nil] at split
  exact completed_iff.mpr ⟨logs, answer, split, s.passed⟩

theorem lookUp_passed (s : v.Scanning plan b h (hash :: pending))
    {answer : Except ε (Option Receipt)} (passes : plan.passes answer = true) :
    (v.lookUp hash answer).Scanning plan b h pending where
  filter := s.filter
  split := by
    obtain ⟨logs, found, split⟩ := s.split
    refine ⟨logs, found, ?_⟩
    simpa [lookUp] using split
  passed := by
    intro lookup mem
    rcases List.mem_append.mp mem with mem | mem
    · exact s.passed lookup mem
    · rw [List.mem_singleton.mp mem]
      exact passes

end Window.Scanning

/-- A window whose latest lookup did not pass is not completed. So an error in the middle of a scan
keeps the base, however many lookups passed before it. -/
theorem Window.not_completed_lookUp {plan : Plan} (v : Window ε) (hash : Hash)
    {answer : Except ε (Option Receipt)} (fails : plan.passes answer = false) :
    (v.lookUp hash answer).completed plan = false := by
  rw [Bool.eq_false_iff]
  intro completed
  obtain ⟨-, -, -, passed⟩ := Window.completed_iff.mp completed
  have passes := passed (hash, answer) (List.mem_append_right _ (List.mem_singleton_self _))
  rw [fails] at passes
  cases passes

/-- An answer keeps the agreement of calls and phase. The cases are those of `Follows`: heads
concern the base, logs open a window, and lookups that pass go on scanning it. -/
theorem Agrees.follows {plan : Plan} {calls : List (ChainCall ε)} {phase next : Phase}
    {call : ChainCall ε} (agrees : Agrees plan calls phase) (follows : Follows plan phase call next) :
    Agrees plan (call :: calls) next := by
  cases follows with
  | headFailed answer => exact (base_head_failed answer).trans agrees
  | headFound answer =>
    refine ⟨?_, ?_⟩
    · rw [base_head_found answer, show base plan calls = _ from agrees]
    · simp [latestHead, answer, Except.toOption]
  | logsFailed answer =>
    refine Eq.trans (baseOf_cons_of_not_completed ?_) agrees.1
    simp [Window.completed, answer]
  | logsFound answer =>
    exact ⟨_, _, rfl, ⟨rfl, ⟨_, answer, rfl⟩, by simp⟩, agrees.1⟩
  | @receiptFailed b h hash pending time reply e answer =>
    obtain ⟨v, vs, latest, scanning, from_vs⟩ := agrees
    have failed : plan.passes reply.answer = false := by
      rw [answer]
      rfl
    change baseOf plan (firstHead calls) (windows _) = _
    rw [windows, latest, List.modifyHead_cons,
      baseOf_cons_of_not_completed (v.not_completed_lookUp hash failed)]
    exact from_vs
  | receiptPassed passes =>
    obtain ⟨v, vs, latest, scanning, from_vs⟩ := agrees
    refine ⟨_, vs, ?_, scanning.lookUp_passed passes, from_vs⟩
    rw [windows, latest, List.modifyHead_cons]

/-- A trace agrees with its phase. The induction is over the trace; the end of a scan is where a
window becomes completed, and the base moves up to its head. -/
theorem Trace.agrees {plan : Plan} {calls : List (ChainCall ε)} {phase : Phase}
    (trace : Trace plan calls phase) : Agrees plan calls phase := by
  induction trace with
  | start => rfl
  | answered _ follows ih => exact ih.follows follows
  | scanned _ ih =>
    -- nothing is pending any more, so that the latest window is completed and makes the base
    obtain ⟨v, vs, latest, scanning, -⟩ := ih
    change baseOf plan _ (windows _) = _
    rw [latest, baseOf_cons_of_completed scanning.completed, scanning.filter]
    rfl
  | resumed _ ih => exact ih

/-- Looking up a receipt changes no query, and no calls before one. -/
theorem mem_windows_receipt {calls : List (ChainCall ε)} {hash : Hash} {time : Nat}
    {reply : Reply ε (Option Receipt)} {v : Window ε}
    (h : v ∈ windows (.receipt hash time reply :: calls)) :
    ∃ u ∈ windows calls, v.before = u.before ∧ v.filter = u.filter := by
  rw [windows] at h
  cases latest : windows calls with
  | nil => simp [latest] at h
  | cons u us =>
    rw [latest, List.modifyHead_cons] at h
    rcases List.mem_cons.mp h with rfl | mem
    · exact ⟨u, List.mem_cons_self .., rfl, rfl⟩
    · exact ⟨v, List.mem_cons_of_mem _ mem, rfl, rfl⟩

/-- The window law looks at the query and at the calls before it, not at the lookups. -/
theorem Window.Lawful.congr {plan : Plan} {u v : Window ε} (lawful : u.Lawful plan)
    (before : v.before = u.before) (filter : v.filter = u.filter) : v.Lawful plan := by
  constructor
  · rw [before, filter]
    exact lawful.head
  · rw [before, filter]
    exact lawful.reach

/-- The window law for a trace: every log query covers the blocks from the base of the calls before
it, less the overlap, up to the head that was answered just before it. A query is only made in a
phase that agrees with the calls before it, which is all that the law says. -/
theorem Trace.lawful {plan : Plan} {calls : List (ChainCall ε)} {phase : Phase}
    (trace : Trace plan calls phase) : ∀ v ∈ windows calls, v.Lawful plan := by
  induction trace with
  | start =>
    intro v hv
    cases hv
  | scanned _ ih => exact ih
  | resumed _ ih => exact ih
  | answered trace follows ih =>
    -- only a log query adds a window, and its phase holds the base and the head
    have agrees := trace.agrees
    have added : ∀ {b h : BlockNumber} {calls : List (ChainCall ε)} {time : Nat}
        {reply : Reply ε (List Log)}, Agrees plan calls (.logs b h) →
          (∀ v ∈ windows calls, v.Lawful plan) →
          ∀ v ∈ windows (.logs (plan.settings.window b h) time reply :: calls),
            v.Lawful plan := by
      intro b h calls time reply agrees ih v hv
      rcases List.mem_cons.mp hv with rfl | hv
      · exact ⟨agrees.2, b, agrees.1, rfl⟩
      · exact ih v hv
    cases follows with
    | headFailed | headFound => exact ih
    | logsFailed | logsFound => exact added agrees ih
    | receiptFailed | receiptPassed =>
      intro v hv
      obtain ⟨u, hu, before, filter⟩ := mem_windows_receipt hv
      exact (ih u hu).congr before filter

/-- The window law for the answered calls of a whole wait. The lookup that decides comes after a
trace, and it changes no query. -/
theorem Ended.lawful {plan : Plan} {calls : List (ChainCall ε)} {ending : Ending ε σ}
    (ended : Ended plan calls ending) : ∀ v ∈ windows calls, v.Lawful plan := by
  cases ended with
  | resolved trace =>
    intro v hv
    obtain ⟨u, hu, before, filter⟩ := mem_windows_receipt hv
    exact (trace.lawful u hu).congr before filter
  | interrupted trace => exact trace.lawful

end MetaTransaction.Confirmation
