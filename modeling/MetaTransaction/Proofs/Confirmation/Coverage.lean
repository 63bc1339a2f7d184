import MetaTransaction.Proofs.Confirmation.Deadline
import MetaTransaction.Proofs.Confirmation.Reference

/-!
# Blocks that windows cover

Each log query of a wait reaches up to the head that was answered just before it, and down to the
overlap below the base. The base lies below the first head until a window is completed, and then is
the upper block of the latest completed window; an error moves it nowhere. The windows therefore
leave no block out, even when the head goes back, and fall back by no more than the overlap when it
does not.

* `run_asked` — every query of a run, answered or not, comes after a trace;
* `Follows.base_of_failed` — an answer with an error keeps the base;
* `covered` — completed windows cover all blocks from below the first head on, by induction over the
  windows, earliest first;
* `windows_follow_exact_law` — the statement for every wait.
-/

namespace MetaTransaction.Confirmation

variable {ε σ : Type}

/-! ## Queries -/

/-- A query that was made when the calls before it were a trace. Unlike the law, this also holds of
a query that was never answered, and it keeps the whole trace for later use. -/
def Window.Asked (plan : Plan) (v : Window ε) : Prop :=
  ∃ b h, Trace plan v.before (.logs b h) ∧ v.filter = plan.settings.window b h

section

variable {plan : Plan} {calls : List (ChainCall ε)} {phase : Phase}

/-- A call that a trace asks for keeps all queries asked, whatever becomes of its answer. So the
last call of a wait need not be told apart from the others. -/
theorem Asks.asked {call : ChainCall ε} (asks : Asks plan phase call)
    (trace : Trace plan calls phase) (asked : ∀ v ∈ windows calls, v.Asked plan) :
    ∀ v ∈ windows (call :: calls), v.Asked plan := by
  cases asks with
  | head => exact asked
  | logs =>
    intro v hv
    rcases List.mem_cons.mp hv with rfl | hv
    · exact ⟨_, _, trace, rfl⟩
    · exact asked v hv
  | receipt =>
    intro v hv
    obtain ⟨u, hu, before, filter⟩ := mem_windows_receipt hv
    rw [Window.Asked, before, filter]
    exact asked u hu

theorem Trace.asked (trace : Trace plan calls phase) : ∀ v ∈ windows calls, v.Asked plan := by
  induction trace with
  | start =>
    intro v hv
    cases hv
  | answered trace follows ih => exact follows.asks.asked trace ih
  | scanned _ ih => exact ih
  | resumed _ ih => exact ih

/-- Each answer in a trace was given after a trace. What holds of the last answer of all traces
holds therefore at every moment of a wait. -/
theorem Trace.follows_of_suffix (trace : Trace plan calls phase) {call : ChainCall ε}
    {before : List (ChainCall ε)} (suffix : call :: before <:+ calls) :
    ∃ phase next, Trace plan before phase ∧ Follows plan phase call next := by
  induction trace with
  | start => cases List.suffix_nil.mp suffix
  | answered trace follows ih =>
    rcases List.suffix_cons_iff.mp suffix with same | suffix
    · obtain ⟨rfl, rfl⟩ := List.cons.inj same
      exact ⟨_, _, trace, follows⟩
    · exact ih suffix
  | scanned _ ih => exact ih suffix
  | resumed _ ih => exact ih suffix

/-- Every query of a run was asked, also one that was not answered in time. The law of windows
speaks of all calls of a wait, and this is how the last one enters. -/
theorem run_asked {chain : Chain ε σ} (w : World ε σ) (phase : Phase)
    (trace : Trace plan w.calls phase) :
    ∀ v ∈ windows (run plan chain w phase).world.calls, v.Asked plan := by
  refine run_of_invariant (fun w phase => Trace plan w.calls phase)
    (fun e => ∀ v ∈ windows e.world.calls, v.Asked plan) Trace.move ?_ w phase trace
  intro w phase w' result trace move
  cases move with
  | resolved isOpen arrives =>
    rw [arrives.calls]
    exact Asks.receipt.asked trace trace.asked
  | stopped => exact trace.asked
  | unanswered isOpen arrives settled asks =>
    rw [arrives.calls]
    exact asks.asked trace trace.asked
  | roused => exact trace.asked

/-- Windows record their query and the calls before it, so that a window is found again among the
calls. -/
theorem query_suffix {v : Window ε} (h : v ∈ windows calls) :
    ∃ time reply, .logs v.filter time reply :: v.before <:+ calls := by
  induction calls generalizing v with
  | nil => cases h
  | cons call calls ih =>
    have kept : ∀ {v : Window ε}, v ∈ windows calls →
        ∃ time reply, .logs v.filter time reply :: v.before <:+ call :: calls := by
      intro v hv
      obtain ⟨time, reply, suffix⟩ := ih hv
      exact ⟨time, reply, suffix.trans (List.suffix_cons _ _)⟩
    cases call with
    | head time reply => exact kept h
    | logs filter time reply =>
      rcases List.mem_cons.mp h with rfl | h
      · exact ⟨time, reply, List.suffix_refl _⟩
      · exact kept h
    | receipt hash time reply =>
      obtain ⟨u, hu, before, filter⟩ := mem_windows_receipt h
      rw [before, filter]
      exact kept hu

end

/-! ## The window law -/

/-- The window law in numbers, where differences do not fall below zero. The law is about words of
64 bits that saturate; here it is about natural numbers, where nothing can wrap around. -/
structure Window.Exact (plan : Plan) (v : Window ε) : Prop where
  /-- the window ends at the head that was answered just before its query -/
  head : latestHead v.before = some v.filter.toBlock
  /-- it starts the overlap below the base, but not above the head -/
  reach : ∃ b, base plan v.before = some b ∧
    v.filter.fromBlock.toNat =
      min (b.toNat - plan.settings.overlap.toNat) v.filter.toBlock.toNat
  ordered : v.filter.fromBlock ≤ v.filter.toBlock

theorem Settings.toNat_fromBlock_window (s : Settings) (b h : BlockNumber) :
    (s.window b h).fromBlock.toNat = min (b.toNat - s.overlap.toNat) h.toNat := by
  change (min (b.back s.overlap) h).toNat = _
  rw [BlockNumber.toNat_min, BlockNumber.toNat_back]

/-- A query that was asked follows the window law, as its trace agrees with the phase that asks. -/
theorem Window.Asked.lawful {plan : Plan} {v : Window ε} (asked : v.Asked plan) :
    v.Lawful plan := by
  obtain ⟨b, h, trace, filter⟩ := asked
  obtain ⟨from_base, latest⟩ := trace.agrees
  have upper : v.filter.toBlock = h := by
    rw [filter]
    rfl
  rw [← upper] at latest filter
  exact ⟨latest, b, from_base, filter⟩

theorem Window.Lawful.exact {plan : Plan} {v : Window ε} (lawful : v.Lawful plan) :
    v.Exact plan := by
  obtain ⟨latest, b, from_base, filter⟩ := lawful
  have lower : v.filter.fromBlock.toNat =
      min (b.toNat - plan.settings.overlap.toNat) v.filter.toBlock.toNat := by
    conv_lhs => rw [filter]
    exact plan.settings.toNat_fromBlock_window b _
  refine ⟨latest, ⟨b, from_base, lower⟩, ?_⟩
  rw [UInt64.le_iff_toNat_le, lower]
  exact Nat.min_le_right _ _

/-! ## Errors -/

/-- A call was answered with an error. -/
def ChainCall.Failed : ChainCall ε → Prop
  | .head _ reply => ∃ e, reply.answer = .error e
  | .logs _ _ reply => ∃ e, reply.answer = .error e
  | .receipt _ _ reply => ∃ e, reply.answer = .error e

/-- A window with candidates that are still to be looked up is not completed: it has fewer lookups
than candidates. -/
theorem Window.Scanning.not_completed {plan : Plan} {v : Window ε} {b h : BlockNumber}
    {hash : Hash} {pending : List Hash} (scanning : v.Scanning plan b h (hash :: pending)) :
    v.completed plan = false := by
  rw [Bool.eq_false_iff]
  intro completed
  obtain ⟨logs, answer, split⟩ := scanning.split
  obtain ⟨logs', answer', all, -⟩ := Window.completed_iff.mp completed
  rw [answer] at answer'
  obtain rfl := Except.ok.inj answer'
  have same := congrArg List.length (split.trans all.symm)
  simp at same

/-- An error keeps the base, at whichever call it comes. A head that fails is not counted, logs that
fail make a window that is not completed, and a lookup that fails leaves its window uncompleted. -/
theorem Follows.base_of_failed {plan : Plan} {calls : List (ChainCall ε)} {call : ChainCall ε}
    {phase next : Phase} (follows : Follows plan phase call next)
    (trace : Trace plan calls phase) (failed : call.Failed) :
    base plan (call :: calls) = base plan calls := by
  cases follows with
  | headFailed answer => exact base_head_failed answer
  | headFound answer =>
    obtain ⟨e, error⟩ := failed
    rw [answer] at error
    cases error
  | logsFailed answer =>
    refine baseOf_cons_of_not_completed ?_
    simp [Window.completed, answer]
  | logsFound answer =>
    obtain ⟨e, error⟩ := failed
    rw [answer] at error
    cases error
  | @receiptFailed b h hash pending time reply e answer =>
    -- neither before the lookup nor after it is the latest window completed
    obtain ⟨v, vs, latest, scanning, -⟩ := trace.agrees
    have fails : plan.passes reply.answer = false := by
      rw [answer]
      rfl
    change baseOf plan (firstHead calls) (windows _) = baseOf plan (firstHead calls) _
    rw [windows, latest, List.modifyHead_cons,
      baseOf_cons_of_not_completed (v.not_completed_lookUp hash fails),
      baseOf_cons_of_not_completed scanning.not_completed]
  | receiptPassed passes =>
    obtain ⟨e, error⟩ := failed
    rw [error] at passes
    cases passes

/-! ## Windows to be scanned again -/

/-- The latest window of the calls is not completed, and the next query starts from the same base as
its own. So the blocks that a failed lookup left unsearched are covered again. -/
def Held (plan : Plan) (asked calls : List (ChainCall ε)) : Prop :=
  ∃ b v vs, windows calls = v :: vs ∧ v.completed plan = false ∧
    v.filter = plan.settings.window b v.filter.toBlock ∧ base plan calls = some b ∧
    ∀ u ∈ windows asked, calls <:+ u.before → windows u.before = v :: vs →
      u.filter = plan.settings.window b u.filter.toBlock

/-- Later calls keep the base as long as there is no other window. Only heads can come in between,
and the first head is no longer among them. -/
theorem base_of_suffix {plan : Plan} {calls later : List (ChainCall ε)} {b : BlockNumber}
    (suffix : calls <:+ later) (same : windows later = windows calls)
    (from_base : base plan calls = some b) : base plan later = some b := by
  rw [base, baseOf, same]
  rw [base, baseOf] at from_base
  cases completed : (windows calls).find? (·.completed plan) with
  | some v =>
    rw [completed] at from_base
    exact from_base
  | none =>
    rw [completed] at from_base
    obtain ⟨first, found, lower⟩ := Option.map_eq_some_iff.mp from_base
    exact Option.map_eq_some_iff.mpr ⟨first, firstHead_suffix suffix found, lower⟩

/-- A lookup that fails holds the wait at its window: the window is not completed, and the next one
is taken from the same base. -/
theorem Follows.held {plan : Plan} {calls asked : List (ChainCall ε)} {hash : Hash} {time : ℕ}
    {reply : Reply ε (Option Receipt)} {phase next : Phase}
    (follows : Follows plan phase (.receipt hash time reply) next) (trace : Trace plan calls phase)
    {e : ε} (failed : reply.answer = .error e) (law : ∀ v ∈ windows asked, v.Asked plan) :
    Held plan asked (.receipt hash time reply :: calls) := by
  have agrees := trace.agrees.follows follows
  have fails : plan.passes reply.answer = false := by
    rw [failed]
    rfl
  cases follows with
  | @receiptFailed b h _ pending =>
    obtain ⟨v, vs, latest, scanning, -⟩ := trace.agrees
    have looked : windows (.receipt hash time reply :: calls) =
        v.lookUp hash reply.answer :: vs := by
      rw [windows, latest, List.modifyHead_cons]
    refine ⟨b, _, vs, looked, v.not_completed_lookUp hash fails, ?_, agrees, ?_⟩
    · change v.filter = plan.settings.window b v.filter.toBlock
      rw [scanning.filter]
      rfl
    · intro u hu suffix same
      obtain ⟨b', h', trace', filter⟩ := law u hu
      have from_base := base_of_suffix suffix (same.trans looked.symm) agrees
      rw [trace'.agrees.1] at from_base
      obtain rfl := Option.some.inj from_base
      rw [filter]
      rfl
  | receiptPassed passes =>
    rw [fails] at passes
    cases passes

/-! ## Coverage -/

/-- A block lies in a window. -/
def Window.Covers (v : Window ε) (block : BlockNumber) : Prop :=
  v.filter.fromBlock ≤ block ∧ block ≤ v.filter.toBlock

/-- The windows, latest first, leave no gap: each block from the lower edge of the first one up to
the upper edge of the latest completed one lies in a completed one. Windows that failed are not
counted, since a log in one of them may have been missed. -/
def NoGap (plan : Plan) (vs : List (Window ε)) : Prop :=
  ∀ first last, vs.getLast? = some first → vs.find? (·.completed plan) = some last →
    ∀ block, first.filter.fromBlock ≤ block → block ≤ last.filter.toBlock →
      ∃ v ∈ vs, v.completed plan = true ∧ v.Covers block

section

variable {plan : Plan} {calls : List (ChainCall ε)} {phase : Phase}

/-- Before the first query one head at most was answered, and then the query comes next. So the
first head and the head of the first query are one. -/
theorem Trace.heads_of_no_window (trace : Trace plan calls phase) (none : windows calls = []) :
    heads calls = [] ∨ ∃ b h, phase = .logs b h ∧ heads calls = [h] := by
  induction trace with
  | start => exact .inl rfl
  | @answered calls phase call next trace follows ih =>
    cases follows with
    | headFailed answer =>
      rcases ih none with nobody | ⟨b, h, ⟨⟩, -⟩
      simp [heads, answer, Except.toOption, nobody]
    | headFound answer =>
      rcases ih none with nobody | ⟨b, h, ⟨⟩, -⟩
      exact .inr ⟨_, _, rfl, by simp [heads, answer, Except.toOption, nobody]⟩
    | logsFailed | logsFound => cases none
    | receiptFailed | receiptPassed =>
      obtain ⟨v, vs, latest, -⟩ := trace.agrees
      rw [windows, latest] at none
      cases none
  | scanned _ ih =>
    rcases ih none with nobody | ⟨b, h, ⟨⟩, -⟩
    exact .inl nobody
  | resumed _ ih =>
    rcases ih none with nobody | ⟨b, h, ⟨⟩, -⟩
    exact .inl nobody

/-- The first query reaches down from the head that was answered first, by the lookback and the
overlap. -/
theorem Window.Asked.first {v : Window ε} (asked : v.Asked plan) (none : windows v.before = []) :
    ∃ first, firstHead v.before = some first ∧
      v.filter.fromBlock.toNat =
        first.toNat - plan.settings.lookback.toNat - plan.settings.overlap.toNat := by
  obtain ⟨b, h, trace, filter⟩ := asked
  rcases trace.heads_of_no_window none with nobody | ⟨_, _, ⟨⟩, only⟩
  · have latest := mem_heads_of_latestHead trace.agrees.2
    rw [nobody] at latest
    cases latest
  · have start : firstHead v.before = some h := by
      rw [firstHead_eq_getLast?, only]
      rfl
    have from_first : base plan v.before = some (plan.settings.firstBase h) := by
      rw [base, none, start]
      rfl
    rw [trace.agrees.1] at from_first
    obtain rfl := Option.some.inj from_first
    refine ⟨h, start, ?_⟩
    rw [filter, Settings.toNat_fromBlock_window, Settings.firstBase, BlockNumber.toNat_back]
    omega

/-- The completed windows cover all blocks from the reach of the first query up to the latest of
them. The induction is over the windows from the earliest on: what a completed window leaves out lies
below its base, up to which the ones before it cover. -/
theorem covered (asked : ∀ v ∈ windows calls, v.Asked plan) {first : BlockNumber}
    (start : firstHead calls = some first) :
    ∀ vs later : List (Window ε), windows calls = later ++ vs →
      ∀ last, vs.find? (·.completed plan) = some last →
        ∀ block : BlockNumber,
          first.toNat - plan.settings.lookback.toNat - plan.settings.overlap.toNat ≤ block.toNat →
          block ≤ last.filter.toBlock → ∃ v ∈ vs, v.completed plan = true ∧ v.Covers block := by
  intro vs
  induction vs with
  | nil =>
    intro later _ last found
    cases found
  | cons v vs ih =>
    intro later split last found block lower upper
    have earlier := ih (later ++ [v]) (by rw [split, List.append_assoc]; rfl)
    by_cases completed : v.completed plan = true
    · rw [List.find?_cons_of_pos completed] at found
      obtain rfl := Option.some.inj found
      by_cases inside : v.filter.fromBlock ≤ block
      · exact ⟨v, List.mem_cons_self .., completed, inside, upper⟩
      · have mem : v ∈ windows calls := by
          rw [split]
          exact List.mem_append_right _ (List.mem_cons_self ..)
        obtain ⟨-, ⟨b, from_base, reach⟩, -⟩ := (asked v mem).lawful.exact
        rw [UInt64.le_iff_toNat_le] at inside
        rw [base, windows_before split, baseOf] at from_base
        cases before : vs.find? (·.completed plan) with
        | some u =>
          rw [before] at from_base
          obtain rfl := Option.some.inj from_base
          have below : block ≤ u.filter.toBlock := by
            rw [UInt64.le_iff_toNat_le]
            omega
          obtain ⟨w, hw, covers⟩ := earlier u before block lower below
          exact ⟨w, List.mem_cons_of_mem _ hw, covers⟩
        | none =>
          rw [before] at from_base
          obtain ⟨head, found, rfl⟩ := Option.map_eq_some_iff.mp from_base
          have same := firstHead_suffix (before_suffix mem) found
          rw [start] at same
          obtain rfl := Option.some.inj same
          rw [Settings.firstBase, BlockNumber.toNat_back] at reach
          omega
    · rw [List.find?_cons_of_neg completed] at found
      obtain ⟨w, hw, covers⟩ := earlier last found block lower upper
      exact ⟨w, List.mem_cons_of_mem _ hw, covers⟩

theorem noGap (asked : ∀ v ∈ windows calls, v.Asked plan) : NoGap plan (windows calls) := by
  intro oldest last isOldest found block lower upper
  obtain ⟨later, split⟩ := List.getLast?_eq_some_iff.mp isOldest
  have mem : oldest ∈ windows calls := List.mem_of_getLast? isOldest
  obtain ⟨first, start, edge⟩ := (asked oldest mem).first (windows_before split)
  rw [UInt64.le_iff_toNat_le, edge] at lower
  exact covered asked (firstHead_suffix (before_suffix mem) start) _ [] rfl last found block lower
    upper

/-! ## Heads that do not go back -/

/-- Where the head does not go back, the latest is the greatest. -/
theorem le_latestHead {h h' : BlockNumber} (falling : (heads calls).Pairwise (· ≥ ·))
    (latest : latestHead calls = some h) (mem : h' ∈ heads calls) : h'.toNat ≤ h.toNat := by
  cases calls with
  | nil => cases latest
  | cons call calls =>
    cases call with
    | head time reply =>
      have answer : reply.answer.toOption = some h := latest
      rw [heads, answer] at falling mem
      rcases List.mem_cons.mp mem with rfl | mem
      · exact Nat.le_refl _
      · exact UInt64.le_iff_toNat_le.mp ((List.pairwise_cons.mp falling).1 h' mem)
    | logs filter time reply => cases latest
    | receipt hash time reply => cases latest

/-- The latest completed window is at or after any completed one. So its upper edge is the base that
counts. -/
theorem mem_of_find?_completed {vs : List (Window ε)} {u v : Window ε}
    (found : vs.find? (·.completed plan) = some u) (mem : v ∈ vs)
    (completed : v.completed plan = true) : ∃ later older, vs = later ++ u :: older ∧
      (v = u ∨ v ∈ older) := by
  obtain ⟨-, later, older, split, passed⟩ := List.find?_eq_some_iff_append.mp found
  refine ⟨later, older, split, ?_⟩
  rw [split] at mem
  rcases List.mem_append.mp mem with early | mem
  · have failed := passed v early
    rw [completed] at failed
    cases failed
  · exact List.mem_cons.mp mem

/-- Where the head does not go back, a query starts no more than the overlap below any window that
was completed before it. The base is then the greatest upper edge of all completed windows, so that
blocks that have been searched are searched again only within the overlap. -/
theorem Window.Lawful.start_le {v u : Window ε} (lawful : v.Lawful plan)
    (earlier : ∀ w ∈ windows v.before, w.Lawful plan)
    (falling : (heads v.before).Pairwise (· ≥ ·)) (mem : u ∈ windows v.before)
    (completed : u.completed plan = true) :
    u.filter.toBlock.toNat - plan.settings.overlap.toNat ≤ v.filter.fromBlock.toNat := by
  obtain ⟨latest, ⟨b, from_base, reach⟩, -⟩ := lawful.exact
  obtain ⟨w, found⟩ : ∃ w, (windows v.before).find? (·.completed plan) = some w :=
    Option.isSome_iff_exists.mp (List.find?_isSome.mpr ⟨u, mem, completed⟩)
  rw [base, baseOf, found] at from_base
  obtain rfl := Option.some.inj from_base
  have last : w ∈ windows v.before := List.mem_of_find?_eq_some found
  have above : u.filter.toBlock.toNat ≤ w.filter.toBlock.toNat := by
    obtain ⟨later, older, split, rfl | older⟩ := mem_of_find?_completed found mem completed
    · exact Nat.le_refl _
    · rw [← windows_before split] at older
      exact le_latestHead (falling.sublist (heads_suffix (before_suffix last)).sublist)
        (earlier w last).head ((earlier u mem).mem_heads older)
  have below := le_latestHead falling latest ((earlier w last).mem_heads last)
  omega

end

/-! ## Waits -/

section

variable {plan : Plan} {calls : List (ChainCall ε)} {ending : Ending ε σ}

/-- All calls of a wait are answered but at most the latest. The reply to that one is cut off by the
end. -/
theorem Ended.calls_eq (ended : Ended plan calls ending) :
    ∃ unanswered, ending.world.calls = unanswered ++ calls ∧ unanswered.length ≤ 1 := by
  cases ended with
  | resolved _ _ _ same => exact ⟨[], same, Nat.zero_le _⟩
  | @interrupted _ _ _ world _ same =>
    obtain ⟨unanswered, arrived, short, -⟩ := exists_unanswered world.now world.calls
    exact ⟨unanswered, same ▸ arrived, short⟩

/-- All calls before a query were answered. -/
theorem Ended.before_suffix (ended : Ended plan calls ending) {v : Window ε}
    (hv : v ∈ windows ending.world.calls) : v.before <:+ calls := by
  obtain ⟨time, reply, suffix⟩ := query_suffix hv
  obtain ⟨unanswered, same, short⟩ := ended.calls_eq
  rw [same] at suffix
  match unanswered, short with
  | [], _ => exact (List.suffix_cons _ _).trans suffix
  | [call], _ =>
    rcases List.suffix_cons_iff.mp suffix with same | suffix
    · rw [(List.cons.inj same).2]
      exact List.suffix_refl _
    · exact (List.suffix_cons _ _).trans suffix

/-- Each query among answered calls was asked, at every moment of the wait. The last answer of a
wait that resolves is a receipt, which makes no query. -/
theorem Ended.asked (ended : Ended plan calls ending) {before : List (ChainCall ε)}
    (suffix : before <:+ calls) : ∀ v ∈ windows before, v.Asked plan := by
  have of_trace : ∀ {calls phase}, Trace plan calls phase → before <:+ calls →
      ∀ v ∈ windows before, v.Asked plan := by
    intro calls phase trace suffix
    cases before with
    | nil =>
      intro v hv
      cases hv
    | cons call before =>
      obtain ⟨phase, next, trace, follows⟩ := trace.follows_of_suffix suffix
      exact follows.asks.asked trace trace.asked
  cases ended with
  | resolved trace =>
    rcases List.suffix_cons_iff.mp suffix with rfl | suffix
    · exact Asks.receipt.asked trace trace.asked
    · exact of_trace trace suffix
  | interrupted trace => exact of_trace trace suffix

/-- A call that was answered with an error came after a trace, because an error never ends a
wait. -/
theorem Ended.follows_of_failed (ended : Ended plan calls ending) {call : ChainCall ε}
    {before : List (ChainCall ε)} (suffix : call :: before <:+ calls) (failed : call.Failed) :
    ∃ phase next, Trace plan before phase ∧ Follows plan phase call next := by
  cases ended with
  | resolved trace answer =>
    rcases List.suffix_cons_iff.mp suffix with same | suffix
    · -- the receipt that decides is no error
      obtain ⟨rfl, rfl⟩ := List.cons.inj same
      obtain ⟨e, error⟩ := failed
      rw [answer] at error
      cases error
    · exact trace.follows_of_suffix suffix
  | interrupted trace => exact trace.follows_of_suffix suffix

/-- An error keeps the base, at every moment of the wait, and not only where it ends. -/
theorem Ended.base_of_failed (ended : Ended plan calls ending) {call : ChainCall ε}
    {before : List (ChainCall ε)} (suffix : call :: before <:+ calls) (failed : call.Failed) :
    base plan (call :: before) = base plan before := by
  obtain ⟨phase, next, trace, follows⟩ := ended.follows_of_failed suffix failed
  exact follows.base_of_failed trace failed

end

/-- The window law of every wait, whatever the chain answers. All calls before a query are answered,
and the query follows the law. A call that is answered with an error keeps the base. At no moment do
the completed windows leave a gap. A query after heads that did not go back starts no more than the
overlap below any window completed before it. -/
theorem windows_follow_exact_law (waiter : Waiter) (chain : Chain ε σ) (id : Identifier)
    (timeout : Option Duration) (handle : Handle) (now : ℕ) (state : σ) :
    let plan := waiter.plan id timeout now
    let asked := (waiter.wait chain id timeout handle now state).world.calls
    let answered := waiter.answered chain id timeout handle now state
    (∀ v ∈ windows asked, v.before <:+ answered ∧ v.Exact plan) ∧
      (∀ call before, call :: before <:+ answered → call.Failed →
        base plan (call :: before) = base plan before) ∧
      (∀ calls, calls <:+ answered → NoGap plan (windows calls)) ∧
      ∀ v ∈ windows asked, (heads v.before).Pairwise (· ≥ ·) →
        ∀ u ∈ windows v.before, u.completed plan = true →
          u.filter.toBlock.toNat - plan.settings.overlap.toNat ≤ v.filter.fromBlock.toNat := by
  intro plan asked answered
  have ended : Ended plan answered (waiter.wait chain id timeout handle now state) :=
    wait_ended waiter chain id timeout handle now state
  have lawful : ∀ v ∈ windows asked, v.Lawful plan := fun v hv =>
    (run_asked _ _ .start v hv).lawful
  refine ⟨?_, ?_, ?_, ?_⟩
  · intro v hv
    exact ⟨ended.before_suffix hv, (lawful v hv).exact⟩
  · intro call before suffix failed
    exact ended.base_of_failed suffix failed
  · intro calls suffix
    exact noGap (ended.asked suffix)
  · intro v hv falling u hu completed
    exact (lawful v hv).start_le
      (fun w hw => lawful w (mem_windows_before hv hw)) falling hu completed

/-- Where the head goes back, a window ends below the one before it, and the next one starts from
there. -/
example :
    (windows (Sample.calls { heads := [10, 7, 9], logs := [], receipts := [] })).map
      (fun v => (v.filter.fromBlock, v.filter.toBlock)) = [(5, 9), (7, 7), (4, 10)] :=
  Sample.of_runFor (P := fun calls _ => (windows calls).map
    (fun v => (v.filter.fromBlock, v.filter.toBlock)) = [(5, 9), (7, 7), (4, 10)]) 12
    (by decide +kernel)

end MetaTransaction.Confirmation
