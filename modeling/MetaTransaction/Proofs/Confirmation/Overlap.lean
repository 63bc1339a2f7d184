import MetaTransaction.Proofs.Confirmation.Windows

/-!
# Overlapping windows lose no log

Each window reaches the overlap below the one completed before it. A log that is hidden by a
reorganisation can therefore only be lost when the head has moved further than the overlap while it
was hidden. `Followed` says that this does not happen to a log, and that its transaction decides the
wait wherever it is looked up.

* `Followed.accepts` — a window sees the log, when no window before it was completed over it;
* `Followed.not_completed` — hence no window that could see it is completed, by induction over the
  windows, earliest first;
* `visible_log_not_passed_over` — the statement for every wait.
-/

namespace MetaTransaction

/-- Going back from a block is subtraction that stops at zero, as it is on natural numbers. -/
theorem BlockNumber.toNat_back (block : BlockNumber) (distance : UInt64) :
    (block.back distance).toNat = block.toNat - distance.toNat := by
  rw [back]
  split
  · rename_i below
    rw [UInt64.lt_iff_toNat_lt] at below
    rw [UInt64.toNat_zero]
    omega
  · rename_i above
    exact UInt64.toNat_sub_of_le _ _ (UInt64.not_lt.mp above)

theorem BlockNumber.toNat_min (a b : BlockNumber) : (min a b).toNat = min a.toNat b.toNat := by
  change (if a ≤ b then a else b).toNat = _
  split
  · rename_i le
    rw [UInt64.le_iff_toNat_le] at le
    omega
  · rename_i gt
    rw [UInt64.le_iff_toNat_le] at gt
    omega

namespace Confirmation

variable {ε σ : Type}

/-! ## What a window sees -/

/-- Whether a log has the topic that is scanned for and, when only one wallet counts, is its. -/
def Settings.scansFor (s : Settings) (log : Log) : Bool :=
  log.topics.head? = some s.nonceTopic && isFrom s.wallet log

/-- A window accepts the logs that are scanned for in its blocks. Stated in natural numbers, so that
the arithmetic of windows can be left to linear arithmetic. -/
theorem Settings.accepts_window (s : Settings) (b h : BlockNumber) (log : Log) :
    (s.window b h).accepts log = true ↔
      min (b.toNat - s.overlap.toNat) h.toNat ≤ log.blockNumber.toNat ∧
        log.blockNumber.toNat ≤ h.toNat ∧ s.scansFor log = true := by
  have lower : min (b.back s.overlap) h ≤ log.blockNumber ↔
      min (b.toNat - s.overlap.toNat) h.toNat ≤ log.blockNumber.toNat := by
    rw [UInt64.le_iff_toNat_le, BlockNumber.toNat_min, BlockNumber.toNat_back]
  have upper : log.blockNumber ≤ h ↔ log.blockNumber.toNat ≤ h.toNat := UInt64.le_iff_toNat_le
  change (decide (min (b.back s.overlap) h ≤ log.blockNumber) && decide (log.blockNumber ≤ h) &&
    decide (log.topics.head? = some s.nonceTopic) && isFrom s.wallet log) = true ↔ _
  simp only [scansFor, Bool.and_eq_true, decide_eq_true_eq, lower, upper, and_assoc]

/-- The transaction of each log of an answer is a candidate. -/
theorem mem_candidates {logs : List Log} {log : Log} (h : log ∈ logs) :
    log.transactionHash ∈ candidates logs := by
  rw [candidates, List.mem_eraseDups]
  exact List.mem_map_of_mem (List.mem_mergeSort.mpr h)

/-- Later calls do not change the first head. -/
theorem firstHead_suffix {earlier calls : List (ChainCall ε)} {first : BlockNumber}
    (suffix : earlier <:+ calls) (h : firstHead earlier = some first) :
    firstHead calls = some first := by
  obtain ⟨later, split⟩ := heads_suffix suffix
  rw [firstHead_eq_getLast?] at h ⊢
  rw [← split, List.getLast?_append, h]
  rfl

/-- The calls before a window are calls of the trace. -/
theorem before_suffix {calls : List (ChainCall ε)} {v : Window ε} (h : v ∈ windows calls) :
    v.before <:+ calls := by
  induction calls generalizing v with
  | nil => cases h
  | cons call calls ih =>
    cases call with
    | head time reply => exact (ih h).trans (List.suffix_cons _ _)
    | logs filter time reply =>
      rcases List.mem_cons.mp h with rfl | h
      · exact List.suffix_cons _ _
      · exact (ih h).trans (List.suffix_cons _ _)
    | receipt hash time reply =>
      obtain ⟨u, hu, before, -⟩ := mem_windows_receipt h
      rw [before]
      exact (ih hu).trans (List.suffix_cons _ _)

/-! ## Followed logs -/

/-- A log that decides the wait wherever it is seen, and that no reorganisation hides for longer
than the overlap allows. `visible n` are the logs that the chain shows to the call with the number
`n`. The chain may otherwise do what it likes: heads may go back, and other logs may come and go. -/
structure Followed (plan : Plan) (calls : List (ChainCall ε)) (visible : Nat → Log → Prop)
    (log : Log) : Prop where
  /-- an answered query gives the visible logs that match it -/
  honest : ∀ v ∈ windows calls, ∀ logs, v.answer = .ok logs →
    ∀ l, l ∈ logs ↔ visible v.number l ∧ v.filter.accepts l = true
  scanned : plan.settings.scansFor log = true
  /-- the log is not below the first window -/
  near : ∀ first, firstHead calls = some first →
    (plan.settings.firstBase first).back plan.settings.overlap ≤ log.blockNumber
  /-- a lookup for the log that does not fail gives a receipt that decides -/
  decisive : ∀ v ∈ windows calls, ∀ logs, v.answer = .ok logs → log ∈ logs →
    ∀ found, (log.transactionHash, .ok found) ∈ v.lookups →
      ∃ receipt, found = some receipt ∧ (plan.classify receipt).isSome = true
  /-- a completed window that ends above the log by more than the overlap saw it -/
  kept : ∀ v ∈ windows calls, v.completed plan = true →
    log.blockNumber.toNat + plan.settings.overlap.toNat < v.filter.toBlock.toNat →
      visible v.number log

namespace Followed

variable {plan : Plan} {calls : List (ChainCall ε)} {visible : Nat → Log → Prop} {log : Log}

/-- A window that ends at the log or above reaches down to it, when no window before it that could
see the log was completed. Its base is then below the log or within the overlap above it. -/
theorem accepts (followed : Followed plan calls visible log) {v : Window ε}
    (hv : v ∈ windows calls) (lawful : v.Lawful plan)
    (upper : log.blockNumber ≤ v.filter.toBlock)
    (earlier : ∀ u ∈ windows v.before, visible u.number log →
      log.blockNumber ≤ u.filter.toBlock → u.completed plan = false) :
    v.filter.accepts log = true := by
  obtain ⟨b, from_before, filter⟩ := lawful.reach
  have reach : b.toNat - plan.settings.overlap.toNat ≤ log.blockNumber.toNat := by
    rcases baseOf_cases from_before with ⟨u, hu, completed, rfl⟩ | ⟨first, found, rfl⟩
    · by_cases deep : log.blockNumber.toNat + plan.settings.overlap.toNat < u.filter.toBlock.toNat
      · have seen : visible u.number log :=
          followed.kept u (mem_windows_before hv hu) completed deep
        have below : log.blockNumber ≤ u.filter.toBlock := by
          rw [UInt64.le_iff_toNat_le]
          omega
        rw [earlier u hu seen below] at completed
        cases completed
      · omega
    · have near := followed.near first (firstHead_suffix (before_suffix hv) found)
      rwa [UInt64.le_iff_toNat_le, BlockNumber.toNat_back] at near
  rw [UInt64.le_iff_toNat_le] at upper
  rw [filter, Settings.accepts_window]
  exact ⟨Nat.le_trans (Nat.min_le_left _ _) reach, upper, followed.scanned⟩

/-- A window whose answer holds the log is not completed: the lookup of its transaction fails or
decides, and neither is a pass. -/
theorem not_completed_of_mem (followed : Followed plan calls visible log) {v : Window ε}
    (hv : v ∈ windows calls) {logs : List Log} (answer : v.answer = .ok logs)
    (mem : log ∈ logs) : v.completed plan = false := by
  rw [Bool.eq_false_iff]
  intro completed
  obtain ⟨logs', answer', all, passed⟩ := Window.completed_iff.mp completed
  rw [answer] at answer'
  cases answer'
  have candidate := mem_candidates mem
  rw [← all] at candidate
  obtain ⟨⟨hash, found⟩, looked, rfl⟩ := List.mem_map.mp candidate
  have passes := passed _ looked
  cases found with
  | error e => cases passes
  | ok found =>
    obtain ⟨receipt, rfl, decides⟩ := followed.decisive v hv logs answer mem found looked
    rw [Plan.passes, Option.isNone_iff_eq_none] at passes
    rw [passes] at decides
    cases decides

/-- No window that could see the log is completed. The induction is over the windows from the
earliest on, since the reach of each depends on those completed before it. -/
theorem not_completed (followed : Followed plan calls visible log)
    (lawful : ∀ v ∈ windows calls, v.Lawful plan) :
    ∀ (vs later : List (Window ε)), windows calls = later ++ vs →
      ∀ v ∈ vs, visible v.number log → log.blockNumber ≤ v.filter.toBlock →
        v.completed plan = false := by
  intro vs
  induction vs with
  | nil =>
    intro later _ v hv
    cases hv
  | cons w vs ih =>
    intro later split v hv seen upper
    -- the windows before `w`; the reach of `w` depends on them
    have earlier := ih (later ++ [w]) (by rw [split, List.append_assoc]; rfl)
    rcases List.mem_cons.mp hv with rfl | hv
    · have mem : v ∈ windows calls := by
        rw [split]
        exact List.mem_append_right _ (List.mem_cons_self ..)
      cases answer : v.answer with
      | error e => simp [Window.completed, answer]
      | ok logs =>
        have accepted : v.filter.accepts log = true := by
          refine followed.accepts mem (lawful v mem) upper ?_
          rw [windows_before split]
          exact earlier
        have found : log ∈ logs := (followed.honest v mem logs answer log).mpr ⟨seen, accepted⟩
        exact followed.not_completed_of_mem mem answer found
    · exact earlier v hv seen upper

/-- A window that could see the log finds it. The windows before it that could are not completed, so
that it reaches down to the log. -/
theorem found (followed : Followed plan calls visible log)
    (lawful : ∀ v ∈ windows calls, v.Lawful plan) {v : Window ε} (hv : v ∈ windows calls)
    (seen : visible v.number log) (upper : log.blockNumber ≤ v.filter.toBlock)
    {logs : List Log} (answer : v.answer = .ok logs) : log ∈ logs := by
  refine (followed.honest v hv logs answer log).mpr ⟨seen, ?_⟩
  refine followed.accepts hv (lawful v hv) upper ?_
  intro u hu
  exact followed.not_completed lawful (windows calls) [] rfl u (mem_windows_before hv hu)

end Followed

/-! ## Waits -/

/-- No outcome is lost: whatever the chain shows and hides, no window of a wait that ends at a
followed log or above, and whose query could see it, is completed. The query finds the log, unless
it is answered with an error. So the base never moves past a log that decides, and a later window
has another chance to see it. -/
theorem visible_log_not_passed_over (waiter : Waiter) (chain : Chain ε σ) (id : Identifier)
    (timeout : Option Duration) (handle : Handle) (now : Nat) (state : σ)
    (visible : Nat → Log → Prop) (log : Log)
    (followed : Followed (waiter.plan id timeout now)
      (waiter.answered chain id timeout handle now state) visible log) :
    ∀ v ∈ windows (waiter.answered chain id timeout handle now state),
      visible v.number log → log.blockNumber ≤ v.filter.toBlock →
        v.completed (waiter.plan id timeout now) = false ∧
          ∀ logs, v.answer = .ok logs → log ∈ logs := by
  have lawful := (wait_ended waiter chain id timeout handle now state).lawful
  intro v hv seen upper
  refine ⟨followed.not_completed lawful _ [] rfl v hv seen upper, ?_⟩
  intro logs answer
  exact followed.found lawful hv seen upper answer

namespace Sample

/-- The sample log is hidden from the first window, above the second one, whose head has gone back,
and seen by the third. -/
def reorganised : Script where
  heads := [10, 9, 12]
  logs := [{ item := nonceLog, since := 3 }]
  receipts := [{ item := receipt }]

/-- What `reorganised` shows to a call. -/
def visible (n : Nat) (log : Log) : Prop :=
  3 ≤ n ∧ log = nonceLog

/-- Whether a window could not see the sample log, or found it and its receipt. -/
def regular (v : Window Failure) : Bool :=
  v.answer.toOption = some [] && (v.number < 3 || !v.filter.accepts nonceLog) ||
    v.answer.toOption = some [nonceLog] && 3 ≤ v.number && v.filter.accepts nonceLog &&
      v.lookups.all fun lookup => lookup.2.toOption = some (some receipt)

theorem regular_cases {v : Window Failure} {logs : List Log} (h : regular v = true)
    (answer : v.answer = .ok logs) :
    logs = [] ∧ (v.number < 3 ∨ v.filter.accepts nonceLog = false) ∨
      logs = [nonceLog] ∧ 3 ≤ v.number ∧ v.filter.accepts nonceLog = true ∧
        ∀ lookup ∈ v.lookups, lookup.2.toOption = some (some receipt) := by
  have shown : v.answer.toOption = some logs := by
    rw [answer]
    rfl
  simpa [regular, shown, and_assoc] using h

theorem reorganised_windows :
    firstHead (calls reorganised) = some 10 ∧
      (∃ v ∈ windows (calls reorganised), v.number = 5) ∧
      ∀ v ∈ windows (calls reorganised), regular v = true ∧ v.filter.toBlock.toNat ≤ 12 :=
  of_runFor (P := fun calls _ => firstHead calls = some 10 ∧ (∃ v ∈ windows calls, v.number = 5) ∧
    ∀ v ∈ windows calls, regular v = true ∧ v.filter.toBlock.toNat ≤ 12) 12 (by decide +kernel)

theorem reorganised_followed :
    Followed (waiter.plan identifier none 0) (calls reorganised) visible nonceLog := by
  obtain ⟨first, -, windowed⟩ := reorganised_windows
  refine ⟨?_, rfl, ?_, ?_, ?_⟩
  · intro v hv logs answer log
    rcases regular_cases (windowed v hv).1 answer with ⟨rfl, hidden⟩ | ⟨rfl, late, accepted, -⟩
    · constructor
      · intro mem
        cases mem
      · rintro ⟨⟨late, rfl⟩, accepted⟩
        rcases hidden with early | refused
        · omega
        · rw [refused] at accepted
          cases accepted
    · constructor
      · intro mem
        obtain rfl := List.mem_singleton.mp mem
        exact ⟨⟨late, rfl⟩, accepted⟩
      · rintro ⟨⟨-, rfl⟩, -⟩
        exact List.mem_singleton_self _
  · intro h found
    rw [first] at found
    obtain rfl := Option.some.inj found
    decide
  · intro v hv logs answer mem found looked
    rcases regular_cases (windowed v hv).1 answer with ⟨rfl, -⟩ | ⟨-, -, -, shown⟩
    · cases mem
    · have same : some found = some (some receipt) := shown _ looked
      obtain rfl := Option.some.inj same
      exact ⟨receipt, rfl, by decide⟩
  · -- no head is more than the overlap above the log
    intro v hv _ deep
    have shallow : v.filter.toBlock.toNat ≤ 12 := (windowed v hv).2
    have high : 12 < v.filter.toBlock.toNat := deep
    omega

end Sample

/-- In the sample chain the third window finds the log and is not completed. -/
theorem reorganised_log_not_passed_over :
    Followed (Sample.waiter.plan Sample.identifier none 0) (Sample.calls Sample.reorganised)
        Sample.visible Sample.nonceLog ∧
      (∃ v ∈ windows (Sample.calls Sample.reorganised), v.number = 5) ∧
      ∀ v ∈ windows (Sample.calls Sample.reorganised),
        Sample.visible v.number Sample.nonceLog →
          Sample.nonceLog.blockNumber ≤ v.filter.toBlock →
            v.completed (Sample.waiter.plan Sample.identifier none 0) = false ∧
              ∀ logs, v.answer = .ok logs → Sample.nonceLog ∈ logs :=
  ⟨Sample.reorganised_followed, Sample.reorganised_windows.2.1,
    visible_log_not_passed_over Sample.waiter Sample.reorganised.chain Sample.identifier none
      .never 0 {} Sample.visible Sample.nonceLog Sample.reorganised_followed⟩

end Confirmation

end MetaTransaction
