import Mathlib.Data.List.MinMax
import Mathlib.Data.Prod.Lex
import MetaTransaction.Proofs.Confirmation.Overlap

/-!
# The reference outcome

What a wait reports depends on the chain and on the first head alone. Where the logs and receipts of
a chain do not change, every wait that resolves does so with the outcome of one candidate: the least
in the order of block and log, among all logs not below the first window whose transactions decide.
Errors, latencies, cancellations and timeouts only change whether and when a wait resolves.

* `find?_candidates` — the first candidate with a property is that of the least log with it;
* `Shows.found_filter` — the deciding logs that a window finds are all that do not lie above it;
* `resolved_outcome_eq_reference` — the statement for every wait, and for any two of them.
-/

namespace MetaTransaction

/-- The place of a log in the order of block and log. -/
def Log.place (log : Log) : ℕ ×ₗ ℕ :=
  toLex (log.blockNumber.toNat, log.logIndex.toNat)

theorem Log.notAfter_iff {a b : Log} : a.notAfter b = true ↔ a.place ≤ b.place := by
  simp only [notAfter, place, Prod.Lex.toLex_le_toLex, Bool.or_eq_true, Bool.and_eq_true,
    decide_eq_true_eq, UInt64.lt_iff_toNat_lt, UInt64.le_iff_toNat_le, ← UInt64.toNat_inj]

theorem Log.notAfter_trans (a b c : Log) (first : a.notAfter b = true)
    (second : b.notAfter c = true) : a.notAfter c = true := by
  rw [notAfter_iff] at *
  exact first.trans second

theorem Log.notAfter_total (a b : Log) : (a.notAfter b || b.notAfter a) = true := by
  rw [Bool.or_eq_true, notAfter_iff, notAfter_iff]
  exact le_total _ _

theorem Log.blockNumber_le_of_place_le {a b : Log} (h : a.place ≤ b.place) :
    a.blockNumber.toNat ≤ b.blockNumber.toNat := by
  rw [place, place, Prod.Lex.toLex_le_toLex] at h
  rcases h with below | ⟨same, -⟩
  · exact Nat.le_of_lt below
  · exact Nat.le_of_eq same

namespace Confirmation

variable {ε σ : Type}

/-! ## The first candidate with a property -/

theorem find?_eraseDups {α : Type} [DecidableEq α] (p : α → Bool) (l : List α) :
    l.eraseDups.find? p = l.find? p := by
  -- by length, since what follows an element is filtered before it is searched
  induction h : l.length using Nat.strong_induction_on generalizing l with
  | _ n ih =>
    cases l with
    | nil => rfl
    | cons a l =>
      have shorter : (l.filter fun b => !b == a).length < n := by
        rw [← h]
        exact Nat.lt_succ_of_le (List.length_filter_le _ _)
      rw [List.eraseDups_cons]
      by_cases hit : p a = true
      · rw [List.find?_cons_of_pos hit, List.find?_cons_of_pos hit]
      · rw [List.find?_cons_of_neg hit, List.find?_cons_of_neg hit, ih _ shorter _ rfl,
          List.find?_filter]
        -- the elements that are equal to `a` do not have the property
        congr 1
        funext b
        by_cases same : b = a
        · rw [same]
          simp [hit]
        · simp [same]

/-- The first sorted log with a property is the first of the least logs with it, as sorting is
stable. So the order of candidates can be stated without sorting. -/
theorem find?_mergeSort (p : Log → Bool) (logs : List Log) :
    (logs.mergeSort Log.notAfter).find? p = (logs.filter p).argmin Log.place := by
  induction logs with
  | nil => simp
  | cons log logs ih =>
    obtain ⟨before, after, sorted, rest, less⟩ :=
      List.mergeSort_cons Log.notAfter_trans Log.notAfter_total log logs
    have ordered := List.pairwise_mergeSort Log.notAfter_trans Log.notAfter_total (log :: logs)
    rw [sorted, List.pairwise_append, List.pairwise_cons] at ordered
    rw [rest, List.find?_append] at ih
    rw [sorted, List.find?_append]
    cases early : before.find? p with
    | some c =>
      -- the least of the others comes before `log`
      have before_log : c.place < log.place := by
        have unsorted := less c (List.mem_of_find?_eq_some early)
        rw [Bool.not_eq_true', Bool.eq_false_iff, ne_eq, Log.notAfter_iff] at unsorted
        exact not_le.mp unsorted
      rw [early] at ih
      by_cases hit : p log = true
      · rw [List.filter_cons_of_pos hit, List.argmin_cons, ← ih]
        simp [before_log]
      · rw [List.filter_cons_of_neg hit, ← ih]
        rfl
    | none =>
      rw [early] at ih
      by_cases hit : p log = true
      · rw [List.filter_cons_of_pos hit, List.argmin_cons, ← ih, List.find?_cons_of_pos hit]
        cases late : after.find? p with
        | none => rfl
        | some c =>
          have after_log : ¬ c.place < log.place := by
            have sorted := ordered.2.1.1 c (List.mem_of_find?_eq_some late)
            rw [Log.notAfter_iff] at sorted
            exact not_lt.mpr sorted
          simp [after_log]
      · rw [List.filter_cons_of_neg hit, ← ih, List.find?_cons_of_neg hit]

/-- The first candidate with a property is the transaction of the least log with it. This is what
connects a scan, which goes through candidates, with the reference, which takes a least log. -/
theorem find?_candidates (p : Hash → Bool) (logs : List Log) :
    (candidates logs).find? p =
      ((logs.filter fun log => p log.transactionHash).argmin Log.place).map
        Log.transactionHash := by
  rw [candidates, find?_eraseDups, List.find?_map, find?_mergeSort]
  rfl

/-- The least element stays the least when others are left out. -/
theorem argmin_filter {α β : Type} [LinearOrder β] {f : α → β} {l : List α} {a : α}
    {p : α → Bool} (least : l.argmin f = some a) (kept : p a = true) :
    (l.filter p).argmin f = some a := by
  induction l generalizing a with
  | nil => cases least
  | cons b l ih =>
    rw [List.argmin_cons] at least
    cases rest : l.argmin f with
    | none =>
      rw [rest] at least
      obtain rfl := Option.some.inj least
      rw [List.argmin_eq_none.mp rest, List.filter_cons_of_pos kept]
      rfl
    | some c =>
      -- the least of `l` wins only when it is less than `b`, which comes first
      rw [rest] at least
      by_cases less : f c < f b
      · obtain rfl : c = a := by simpa [less] using least
        by_cases hit : p b = true
        · rw [List.filter_cons_of_pos hit, List.argmin_cons, ih rest kept]
          simp [less]
        · rw [List.filter_cons_of_neg hit]
          exact ih rest kept
      · obtain rfl : b = a := by simpa [less] using least
        rw [List.filter_cons_of_pos kept, List.argmin_cons]
        cases others : (l.filter p).argmin f with
        | none => rfl
        | some d =>
          have mem : d ∈ l := List.mem_of_mem_filter (List.argmin_mem others)
          have above : f c ≤ f d := List.le_of_mem_argmin mem rest
          simp [not_lt.mpr ((not_lt.mp less).trans above)]

/-! ## Chains that stand still -/

/-- The answers show one set of logs and one receipt, or none, for each transaction. Log queries are
filtered honestly, and the head does not go back. It is a condition on the answers that a wait was
given; on calls that failed it says nothing. -/
structure Shows (logs : List Log) (receipts : Hash → Option Receipt)
    (calls : List (ChainCall ε)) : Prop where
  logs : ∀ filter time reply found, .logs filter time reply ∈ calls → reply.answer = .ok found →
    found = logs.filter filter.accepts
  receipt : ∀ hash time reply found, .receipt hash time reply ∈ calls →
    reply.answer = .ok found → found = receipts hash
  heads : (heads calls).Pairwise (· ≥ ·)

/-- The outcome that a transaction decides, if it does. -/
def Settings.outcomeOf (s : Settings) (id : Identifier) (receipts : Hash → Option Receipt)
    (hash : Hash) : Option Outcome :=
  (receipts hash).bind fun receipt =>
    (classifyReceipt id s.failedTopic s.wallet receipt).map fun status => ⟨status, receipt⟩

/-- Whether a log is scanned for, does not lie below the first window and has a transaction that
decides. The first head alone determines the lower bound. -/
def Settings.eligible (s : Settings) (id : Identifier) (receipts : Hash → Option Receipt)
    (first : BlockNumber) (log : Log) : Bool :=
  s.scansFor log && (s.firstBase first).back s.overlap ≤ log.blockNumber &&
    (s.outcomeOf id receipts log.transactionHash).isSome

theorem Settings.eligible_iff {s : Settings} {id : Identifier}
    {receipts : Hash → Option Receipt} {first : BlockNumber} {log : Log} :
    s.eligible id receipts first log = true ↔
      s.scansFor log = true ∧ (s.firstBase first).back s.overlap ≤ log.blockNumber ∧
        (s.outcomeOf id receipts log.transactionHash).isSome = true := by
  simp only [eligible, Bool.and_eq_true, decide_eq_true_eq, and_assoc]

/-- The outcome that waits with the first head `first` report: that of the least eligible log. -/
def Settings.reference (s : Settings) (id : Identifier) (logs : List Log)
    (receipts : Hash → Option Receipt) (first : BlockNumber) : Option Outcome :=
  ((logs.filter (s.eligible id receipts first)).argmin Log.place).bind fun log =>
    s.outcomeOf id receipts log.transactionHash

/-! ## Heads -/

theorem mem_heads_of_latestHead {calls : List (ChainCall ε)} {h : BlockNumber}
    (latest : latestHead calls = some h) : h ∈ heads calls := by
  cases calls with
  | nil => cases latest
  | cons call calls =>
    cases call with
    | head time reply =>
      have answer : reply.answer.toOption = some h := latest
      rw [heads, answer]
      exact List.mem_cons_self ..
    | logs filter time reply => cases latest
    | receipt hash time reply => cases latest

/-- Each window ends at a head. -/
theorem Window.Lawful.mem_heads {plan : Plan} {calls : List (ChainCall ε)} {v : Window ε}
    (lawful : v.Lawful plan) (hv : v ∈ windows calls) : v.filter.toBlock ∈ heads calls :=
  (heads_suffix (before_suffix hv)).subset (mem_heads_of_latestHead lawful.head)

/-- Where the head does not go back, the first is the least. So no window starts below the first
one. -/
theorem Shows.first_le {logs : List Log} {receipts : Hash → Option Receipt}
    {calls : List (ChainCall ε)} (shows : Shows logs receipts calls) {first h : BlockNumber}
    (found : firstHead calls = some first) (mem : h ∈ Confirmation.heads calls) :
    first.toNat ≤ h.toNat := by
  rw [firstHead_eq_getLast?, List.getLast?_eq_some_iff] at found
  obtain ⟨later, split⟩ := found
  have falling := shows.heads
  rw [split] at mem falling
  rcases List.mem_append.mp mem with mem | mem
  · have above := (List.pairwise_append.mp falling).2.2 h mem first (List.mem_singleton_self _)
    exact UInt64.le_iff_toNat_le.mp above
  · rw [List.mem_singleton.mp mem]

/-! ## Windows of a chain that stands still -/

/-- A window records calls: its query and its lookups. What is assumed of all answers holds of what
a window records. -/
theorem window_calls {calls : List (ChainCall ε)} {v : Window ε} (hv : v ∈ windows calls) :
    (∃ time reply, .logs v.filter time reply ∈ calls ∧ reply.answer = v.answer) ∧
      ∀ lookup ∈ v.lookups, ∃ time reply,
        .receipt lookup.1 time reply ∈ calls ∧ reply.answer = lookup.2 := by
  induction calls generalizing v with
  | nil => cases hv
  | cons call calls ih =>
    -- what is recorded of earlier calls stays recorded
    have kept : ∀ {v : Window ε}, v ∈ windows calls →
        (∃ time reply, .logs v.filter time reply ∈ call :: calls ∧ reply.answer = v.answer) ∧
          ∀ lookup ∈ v.lookups, ∃ time reply,
            .receipt lookup.1 time reply ∈ call :: calls ∧ reply.answer = lookup.2 := by
      intro v hv
      obtain ⟨⟨time, reply, mem, answer⟩, lookups⟩ := ih hv
      refine ⟨⟨time, reply, List.mem_cons_of_mem _ mem, answer⟩, ?_⟩
      intro lookup looked
      obtain ⟨time, reply, mem, answer⟩ := lookups lookup looked
      exact ⟨time, reply, List.mem_cons_of_mem _ mem, answer⟩
    cases call with
    | head time reply => exact kept hv
    | logs filter time reply =>
      rcases List.mem_cons.mp hv with rfl | hv
      · refine ⟨⟨time, reply, List.mem_cons_self .., rfl⟩, ?_⟩
        intro lookup looked
        cases looked
      · exact kept hv
    | receipt hash time reply =>
      rw [windows] at hv
      cases latest : windows calls with
      | nil => simp [latest] at hv
      | cons u us =>
        rw [latest, List.modifyHead_cons] at hv
        have earlier : u ∈ windows calls := by
          rw [latest]
          exact List.mem_cons_self ..
        rcases List.mem_cons.mp hv with rfl | hv
        · refine ⟨(kept earlier).1, ?_⟩
          intro lookup looked
          rcases List.mem_append.mp looked with looked | looked
          · exact (kept earlier).2 lookup looked
          · rw [List.mem_singleton.mp looked]
            exact ⟨time, reply, List.mem_cons_self .., rfl⟩
        · refine kept ?_
          rw [latest]
          exact List.mem_cons_of_mem _ hv

/-- Whether a transaction decides, that is, has a receipt that reports the identifier. -/
def Plan.deciding (plan : Plan) (receipts : Hash → Option Receipt) (hash : Hash) : Bool :=
  (plan.settings.outcomeOf plan.id receipts hash).isSome

theorem Plan.deciding_iff {plan : Plan} {receipts : Hash → Option Receipt} {hash : Hash} :
    plan.deciding receipts hash = true ↔
      ∃ receipt, receipts hash = some receipt ∧ (plan.classify receipt).isSome = true := by
  rw [deciding, Settings.outcomeOf]
  cases receipts hash with
  | none => simp
  | some receipt => simp [classify]

namespace Shows

variable {plan : Plan} {all : List Log} {receipts : Hash → Option Receipt}
  {calls : List (ChainCall ε)} {first : BlockNumber}

theorem tail {call : ChainCall ε} (shows : Shows all receipts (call :: calls)) :
    Shows all receipts calls where
  logs filter time reply found mem := shows.logs filter time reply found (List.mem_cons_of_mem _ mem)
  receipt hash time reply found mem :=
    shows.receipt hash time reply found (List.mem_cons_of_mem _ mem)
  heads := by
    have falling := shows.heads
    cases call with
    | head time reply => exact (List.pairwise_append.mp falling).2.1
    | logs filter time reply => exact falling
    | receipt hash time reply => exact falling

/-- A query that is answered finds the logs that match it. -/
theorem window_answer (shows : Shows all receipts calls) {v : Window ε} (hv : v ∈ windows calls)
    {found : List Log} (answer : v.answer = .ok found) : found = all.filter v.filter.accepts := by
  obtain ⟨⟨time, reply, mem, same⟩, -⟩ := window_calls hv
  exact shows.logs _ _ _ _ mem (same.trans answer)

/-- A lookup that is answered finds the receipt. -/
theorem window_lookup (shows : Shows all receipts calls) {v : Window ε} (hv : v ∈ windows calls)
    {hash : Hash} {found : Option Receipt} (looked : (hash, .ok found) ∈ v.lookups) :
    found = receipts hash := by
  obtain ⟨time, reply, mem, answer⟩ := (window_calls hv).2 _ looked
  exact shows.receipt _ _ _ _ mem answer

/-- An eligible log is followed: a chain that stands still hides nothing. -/
theorem followed (shows : Shows all receipts calls) (start : firstHead calls = some first)
    {log : Log} (mem : log ∈ all)
    (eligible : plan.settings.eligible plan.id receipts first log = true) :
    Followed plan calls (fun _ l => l ∈ all) log := by
  obtain ⟨scanned, near, decides⟩ := Settings.eligible_iff.mp eligible
  refine ⟨?_, scanned, ?_, ?_, fun _ _ _ _ => mem⟩
  · intro v hv found answer l
    rw [shows.window_answer hv answer, List.mem_filter]
  · intro first' start'
    rw [start] at start'
    obtain rfl := Option.some.inj start'
    exact near
  · intro v hv found answer _ receipt looked
    rw [shows.window_lookup hv looked]
    exact Plan.deciding_iff.mp decides

/-- No window starts below the first: each base is the base of the first window or a later head. -/
theorem base_le (shows : Shows all receipts calls) (lawful : ∀ v ∈ windows calls, v.Lawful plan)
    (start : firstHead calls = some first) {vs : List (Window ε)} (part : vs ⊆ windows calls)
    {b : BlockNumber} (from_vs : baseOf plan (firstHead calls) vs = some b) :
    (plan.settings.firstBase first).toNat ≤ b.toNat := by
  rcases baseOf_cases from_vs with ⟨u, hu, -, rfl⟩ | ⟨first', start', rfl⟩
  · -- windows end at heads, of which the first is the least
    have above : first.toNat ≤ u.filter.toBlock.toNat :=
      shows.first_le start ((lawful u (part hu)).mem_heads (part hu))
    rw [Settings.firstBase, BlockNumber.toNat_back]
    omega
  · rw [start] at start'
    obtain rfl := Option.some.inj start'
    exact Nat.le_refl _

/-- The deciding logs that a window finds are the eligible ones that do not lie above it: those
below its reach would have kept an earlier window from being completed. This is the step from one
window to the whole history of a wait. -/
theorem found_filter (shows : Shows all receipts calls)
    (lawful : ∀ v ∈ windows calls, v.Lawful plan) (start : firstHead calls = some first)
    {v : Window ε} {vs : List (Window ε)} {b h : BlockNumber} {pending : List Hash}
    (latest : windows calls = v :: vs) (scanning : v.Scanning plan b h pending)
    (from_vs : baseOf plan (firstHead calls) vs = some b) {found : List Log}
    (answer : v.answer = .ok found) :
    found.filter (fun log => plan.deciding receipts log.transactionHash) =
      (all.filter (plan.settings.eligible plan.id receipts first)).filter
        (fun log => log.blockNumber ≤ h) := by
  have hv : v ∈ windows calls := by
    rw [latest]
    exact List.mem_cons_self ..
  rw [shows.window_answer hv answer, List.filter_filter, List.filter_filter]
  refine List.filter_congr ?_
  intro log mem
  rw [Bool.eq_iff_iff, Bool.and_eq_true, Bool.and_eq_true, decide_eq_true_eq]
  constructor
  · rintro ⟨decides, accepted⟩
    rw [scanning.filter, Settings.accepts_window] at accepted
    obtain ⟨lower, upper, scanned⟩ := accepted
    refine ⟨UInt64.le_iff_toNat_le.mpr upper, ?_⟩
    have bottom : ((plan.settings.firstBase first).back plan.settings.overlap).toNat ≤
        log.blockNumber.toNat := by
      have base := shows.base_le lawful start
        (by rw [latest]; exact List.subset_cons_self ..) from_vs
      have head : first.toNat ≤ h.toNat := by
        have ends := shows.first_le start ((lawful v hv).mem_heads hv)
        rwa [scanning.filter] at ends
      have below : (plan.settings.firstBase first).toNat ≤ first.toNat := by
        rw [Settings.firstBase, BlockNumber.toNat_back]
        omega
      rw [BlockNumber.toNat_back]
      omega
    exact Settings.eligible_iff.mpr ⟨scanned, UInt64.le_iff_toNat_le.mpr bottom, decides⟩
  · rintro ⟨upper, eligible⟩
    -- a followed log is found, and what is found matches
    have followed := shows.followed start mem eligible
    have upper' : log.blockNumber ≤ v.filter.toBlock := by
      rw [scanning.filter]
      exact upper
    have seen := followed.found lawful hv mem upper' answer
    rw [shows.window_answer hv answer, List.mem_filter] at seen
    exact ⟨(Settings.eligible_iff.mp eligible).2.2, seen.2⟩

/-- The candidate that decides is the first that could, because those before it were passed. -/
theorem first_deciding (shows : Shows all receipts calls) {v : Window ε}
    (hv : v ∈ windows calls) {b h : BlockNumber} {hash : Hash} {pending : List Hash}
    (scanning : v.Scanning plan b h (hash :: pending)) {found : List Log}
    (answer : v.answer = .ok found) (decides : plan.deciding receipts hash = true) :
    (candidates found).find? (plan.deciding receipts) = some hash := by
  obtain ⟨logs, same, split⟩ := scanning.split
  rw [answer] at same
  obtain rfl := Except.ok.inj same
  rw [← split, List.find?_append, List.find?_eq_none.mpr, List.find?_cons_of_pos decides]
  · rfl
  · -- the candidates before it were looked up and passed
    intro earlier mem decides
    obtain ⟨⟨hash', reply⟩, looked, rfl⟩ := List.mem_map.mp mem
    have passes := scanning.passed _ looked
    cases reply with
    | error e => cases passes
    | ok receipt =>
      obtain ⟨receipt', shown, classified⟩ := Plan.deciding_iff.mp decides
      rw [shows.window_lookup hv looked, shown, Plan.passes, Option.isNone_iff_eq_none] at passes
      rw [passes] at classified
      cases classified

end Shows

/-! ## The outcome -/

/-- The least eligible log of a chain that stands still is the one whose transaction decides. Among
the logs of the latest window it is the first that decides, and `found_filter` says that the windows
before have left no other. -/
theorem Trace.least {plan : Plan} {all : List Log} {receipts : Hash → Option Receipt}
    {calls : List (ChainCall ε)} {b h : BlockNumber} {hash : Hash} {pending : List Hash}
    (trace : Trace plan calls (.receipts b h (hash :: pending)))
    (shows : Shows all receipts calls) (decides : plan.deciding receipts hash = true) :
    ∃ first log, firstHead calls = some first ∧ log.transactionHash = hash ∧
      (all.filter (plan.settings.eligible plan.id receipts first)).argmin Log.place =
        some log := by
  obtain ⟨v, vs, latest, scanning, from_vs⟩ := trace.agrees
  obtain ⟨found, answer, -⟩ := scanning.split
  have lawful := trace.lawful
  have hv : v ∈ windows calls := by
    rw [latest]
    exact List.mem_cons_self ..
  obtain ⟨first, start⟩ : ∃ first, firstHead calls = some first := by
    have mem := (lawful v hv).mem_heads hv
    rw [firstHead_eq_getLast?]
    exact ⟨_, List.getLast?_eq_some_getLast (List.ne_nil_of_mem mem)⟩
  have picked := shows.first_deciding hv scanning answer decides
  rw [find?_candidates, shows.found_filter lawful start latest scanning from_vs answer,
    Option.map_eq_some_iff] at picked
  obtain ⟨log, least, rfl⟩ := picked
  refine ⟨first, log, start, rfl, ?_⟩
  -- the logs above the window are not the least
  obtain ⟨mem, upper⟩ := List.mem_filter.mp (List.argmin_mem least)
  cases reference :
      (all.filter (plan.settings.eligible plan.id receipts first)).argmin Log.place with
  | none =>
    rw [List.argmin_eq_none.mp reference] at mem
    cases mem
  | some log' =>
    have below := Log.blockNumber_le_of_place_le (List.le_of_mem_argmin mem reference)
    have kept : decide (log'.blockNumber ≤ h) = true := by
      rw [decide_eq_true_eq, UInt64.le_iff_toNat_le] at *
      omega
    rw [argmin_filter reference kept] at least
    exact least

/-- A wait that resolves on a chain that stands still reports the reference outcome. Nothing is said
of the faults on the way: the trace before the last answer contains whatever there were. -/
theorem Ended.reference {plan : Plan} {all : List Log} {receipts : Hash → Option Receipt}
    {calls : List (ChainCall ε)} {ending : Ending ε σ} (ended : Ended plan calls ending)
    (shows : Shows all receipts calls) {outcome : Outcome} (ok : ending.result = .ok outcome) :
    ∃ first, firstHead calls = some first ∧
      plan.settings.reference plan.id all receipts first = some outcome := by
  cases ended with
  | interrupted => cases ok
  | @resolved calls b h hash pending arrival reply world receipt status trace answer reported =>
    obtain rfl := Except.ok.inj ok
    have shown : some receipt = receipts hash :=
      shows.receipt _ _ _ _ (List.mem_cons_self ..) answer
    have outcome : plan.settings.outcomeOf plan.id receipts hash = some ⟨status, receipt⟩ := by
      rw [Plan.classify] at reported
      rw [Settings.outcomeOf, ← shown, Option.bind_some, reported]
      rfl
    have decides : plan.deciding receipts hash = true := by
      rw [Plan.deciding, outcome]
      rfl
    obtain ⟨first, log, start, rfl, least⟩ := trace.least shows.tail decides
    refine ⟨first, start, ?_⟩
    rw [Settings.reference, least]
    exact outcome

/-- What a wait reports does not depend on errors and timing: on a chain that stands still each wait
that resolves reports the reference outcome for its first head, and so does every other wait with
the same first head that resolves. The first head remains as the only thing that can make a
difference, because it says how far down the windows reach. -/
theorem resolved_outcome_eq_reference (waiter : Waiter) (id : Identifier) (all : List Log)
    (receipts : Hash → Option Receipt) (chain : Chain ε σ) (timeout : Option Duration)
    (handle : Handle) (now : Nat) (state : σ) (outcome : Outcome)
    (shows : Shows all receipts (waiter.answered chain id timeout handle now state))
    (ok : (waiter.wait chain id timeout handle now state).result = .ok outcome) :
    ∃ first, firstHead (waiter.answered chain id timeout handle now state) = some first ∧
      waiter.settings.reference id all receipts first = some outcome ∧
      ∀ {ε' σ' : Type} (chain' : Chain ε' σ') (timeout' : Option Duration) (handle' : Handle)
        (now' : Nat) (state' : σ') (outcome' : Outcome),
        Shows all receipts (waiter.answered chain' id timeout' handle' now' state') →
          firstHead (waiter.answered chain' id timeout' handle' now' state') = some first →
            (waiter.wait chain' id timeout' handle' now' state').result = .ok outcome' →
              outcome' = outcome := by
  obtain ⟨first, start, reference⟩ :=
    (wait_ended waiter chain id timeout handle now state).reference shows ok
  refine ⟨first, start, reference, ?_⟩
  intro ε' σ' chain' timeout' handle' now' state' outcome' shows' start' ok'
  obtain ⟨first', other, reference'⟩ :=
    (wait_ended waiter chain' id timeout' handle' now' state').reference shows' ok'
  rw [start'] at other
  obtain rfl := Option.some.inj other
  exact Option.some.inj (reference'.symm.trans reference)

namespace Sample

/-- A chain that shows the sample log and its receipt all the time. -/
def steady : Script where
  heads := [9, 11, 12]
  logs := [{ item := nonceLog }]
  receipts := [{ item := receipt }]

/-- The same chain, with an error, a late answer and a handle that is dropped. -/
def troubled : Script :=
  { steady with
    faults := [{ call := 0, latency := 3, action := some .drop },
      { call := 1, failure := some .network }] }

/-- The receipt of the sample chain. -/
def receiptOf (hash : Hash) : Option Receipt :=
  if hash = receipt.transactionHash then some receipt else none

/-- Whether an answer is an error or that of the sample chain. -/
def isSteady : ChainCall Failure → Bool
  | .head _ _ => true
  | .logs filter _ reply =>
    reply.answer.toOption.all fun found => found = [nonceLog].filter filter.accepts
  | .receipt hash _ reply => reply.answer.toOption.all fun found => found = receiptOf hash

theorem shows_of_isSteady {calls : List (ChainCall Failure)}
    (steady : ∀ call ∈ calls, isSteady call = true) (falling : (heads calls).Pairwise (· ≥ ·)) :
    Shows [nonceLog] receiptOf calls where
  logs filter time reply found mem answer := by
    have shown := steady _ mem
    rw [isSteady, answer] at shown
    exact of_decide_eq_true shown
  receipt hash time reply found mem answer := by
    have shown := steady _ mem
    rw [isSteady, answer] at shown
    exact of_decide_eq_true shown
  heads := falling

/-- What a script has to show to be an instance of the statement. -/
def Suits (calls : List (ChainCall Failure)) (ending : Ending Failure Script.State) : Prop :=
  (∀ call ∈ calls, isSteady call = true) ∧ (heads calls).Pairwise (· ≥ ·) ∧
    firstHead calls = some 9 ∧ ending.result.toOption = some ⟨.executed, receipt⟩

instance (calls : List (ChainCall Failure)) (ending : Ending Failure Script.State) :
    Decidable (Suits calls ending) :=
  inferInstanceAs (Decidable (_ ∧ _ ∧ _ ∧ _))

theorem steady_suits : Suits (calls steady) (ending steady) :=
  of_runFor 12 (by decide +kernel)

theorem troubled_suits : Suits (calls troubled) (ending troubled) :=
  of_runFor 16 (by decide +kernel)

theorem Suits.shows {calls : List (ChainCall Failure)} {ending : Ending Failure Script.State}
    (suits : Suits calls ending) : Shows [nonceLog] receiptOf calls :=
  shows_of_isSteady suits.1 suits.2.1

theorem Suits.result {calls : List (ChainCall Failure)} {ending : Ending Failure Script.State}
    (suits : Suits calls ending) : ending.result = .ok ⟨.executed, receipt⟩ := by
  have shown := suits.2.2.2
  cases result : ending.result with
  | error e =>
    rw [result] at shown
    cases shown
  | ok outcome =>
    rw [result] at shown
    exact congrArg Except.ok (Option.some.inj shown)

end Sample

/-- The sample chain and its troubled copy report the same reference outcome. -/
theorem troubled_outcome_eq_reference :
    Shows [Sample.nonceLog] Sample.receiptOf (Sample.calls Sample.steady) ∧
      (Sample.ending Sample.steady).result = .ok ⟨.executed, Sample.receipt⟩ ∧
      Sample.settings.reference Sample.identifier [Sample.nonceLog] Sample.receiptOf 9 =
        some ⟨.executed, Sample.receipt⟩ ∧
      ∃ outcome, (Sample.ending Sample.troubled).result = .ok outcome ∧
        outcome = ⟨.executed, Sample.receipt⟩ := by
  have steady := Sample.steady_suits
  have troubled := Sample.troubled_suits
  obtain ⟨first, start, reference, same⟩ :=
    resolved_outcome_eq_reference Sample.waiter Sample.identifier [Sample.nonceLog]
      Sample.receiptOf Sample.steady.chain none .never 0 {} ⟨.executed, Sample.receipt⟩
      steady.shows steady.result
  obtain rfl := Option.some.inj (steady.2.2.1.symm.trans start)
  refine ⟨steady.shows, steady.result, reference, _, troubled.result, ?_⟩
  exact same Sample.troubled.chain none .never 0 {} _ troubled.shows troubled.2.2.1 troubled.result

end Confirmation

end MetaTransaction
