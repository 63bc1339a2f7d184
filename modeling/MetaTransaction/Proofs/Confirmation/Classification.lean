import MetaTransaction.Confirmation.Classification

/-!
# Reports of a receipt

A log reports an identifier as executed or as failed by its shape. A receipt reports what its first
reporting log does, among the logs of the emitter when there is one; it is silent when no such log
reports. Main statements: `classifyReceipt_eq_some_iff` and `classifyReceipt_eq_none_iff`.
-/

namespace MetaTransaction.Confirmation

variable {id : Identifier} {topic : Hash} {emitter : Option Address} {log : Log} {receipt : Receipt}

/-! ## Logs -/

/-- A log without topics whose data are the identifier. -/
def ReportsExecution (id : Identifier) (log : Log) : Prop :=
  log.topics = [] ∧ log.data = id.hash.bytes

/-- A log with the failure topic alone whose data start with the identifier. -/
def ReportsFailure (id : Identifier) (topic : Hash) (log : Log) : Prop :=
  log.topics = [topic] ∧ id.hash.bytes <+: log.data

/-- A log of either shape. -/
def Reports (id : Identifier) (topic : Hash) (log : Log) : Prop :=
  ReportsExecution id log ∨ ReportsFailure id topic log

/-- No log has both shapes, since a report of an execution has no topic and one of a failure has
one. -/
theorem not_reportsExecution_of_reportsFailure (h : ReportsFailure id topic log) :
    ¬ ReportsExecution id log := by
  rintro ⟨none, -⟩
  rw [h.1] at none
  cases none

theorem classifyLog_eq_executed_iff :
    classifyLog id topic log = .executed ↔ ReportsExecution id log := by
  rw [classifyLog, ReportsExecution]
  split
  · simp [*]
  · split <;> simp [*]

/-- A log is classified as a failure just when it has the shape of one. That the execution is tested
for first makes no difference, because the shapes exclude each other. -/
theorem classifyLog_eq_failed_iff :
    classifyLog id topic log = .failed ↔ ReportsFailure id topic log := by
  constructor
  · intro h
    rw [classifyLog] at h
    split at h
    · cases h
    · split at h
      · rename_i shape
        exact ⟨shape.1, List.isPrefixOf_iff_prefix.mp shape.2⟩
      · cases h
  · intro h
    have other := not_reportsExecution_of_reportsFailure h
    rw [ReportsExecution] at other
    rw [classifyLog, if_neg other, if_pos ⟨h.1, List.isPrefixOf_iff_prefix.mpr h.2⟩]

theorem classifyLog_eq_unknown_iff :
    classifyLog id topic log = .unknown ↔ ¬ Reports id topic log := by
  rw [Reports, not_or, ← @classifyLog_eq_executed_iff id topic log,
    ← classifyLog_eq_failed_iff]
  cases classifyLog id topic log <;> decide

/-! ## Receipts -/

/-- The first log of a receipt that counts and reports. -/
def FirstReport (id : Identifier) (topic : Hash) (emitter : Option Address) (receipt : Receipt)
    (log : Log) : Prop :=
  ∃ before after, receipt.logs = before ++ log :: after ∧ isFrom emitter log = true ∧
    Reports id topic log ∧ ∀ l ∈ before, isFrom emitter l = true → ¬ Reports id topic l

/-- No log of the receipt that counts reports. -/
def Silent (id : Identifier) (topic : Hash) (emitter : Option Address) (receipt : Receipt) : Prop :=
  ∀ l ∈ receipt.logs, isFrom emitter l = true → ¬ Reports id topic l

/-- Whether a log counts and reports. -/
def decides (id : Identifier) (topic : Hash) (emitter : Option Address) (log : Log) : Bool :=
  isFrom emitter log && classifyLog id topic log ≠ .unknown

/-- A log decides just when it is of a contract that counts and has one of the two shapes. -/
theorem decides_iff :
    decides id topic emitter log = true ↔ isFrom emitter log = true ∧ Reports id topic log := by
  rw [decides, Bool.and_eq_true, decide_eq_true_eq, ne_eq, classifyLog_eq_unknown_iff,
    Classical.not_not]

/-- A receipt is classified by its first log that decides. Filtering, classifying and searching are
one search here, which is the form that the statements about first reports are proved from. -/
theorem classifyReceipt_eq_map :
    classifyReceipt id topic emitter receipt =
      (receipt.logs.find? (decides id topic emitter)).map (classifyLog id topic) := by
  rw [classifyReceipt, List.find?_map, List.find?_filter]
  congr 2
  funext log
  simp [decides]

/-- A receipt reports what its first reporting log does. Logs that come after it make no difference,
and neither do logs before it that do not count. -/
theorem classifyReceipt_eq_some_iff {status : Status} :
    classifyReceipt id topic emitter receipt = some status ↔
      ∃ log, FirstReport id topic emitter receipt log ∧ classifyLog id topic log = status := by
  rw [classifyReceipt_eq_map, Option.map_eq_some_iff]
  have first : ∀ log, receipt.logs.find? (decides id topic emitter) = some log ↔
      FirstReport id topic emitter receipt log := by
    intro log
    rw [List.find?_eq_some_iff_append, decides_iff]
    constructor
    · rintro ⟨⟨counts, reports⟩, before, after, split, earlier⟩
      refine ⟨before, after, split, counts, reports, ?_⟩
      intro l mem fromEmitter reports
      have undecided := earlier l mem
      rw [decides_iff.mpr ⟨fromEmitter, reports⟩] at undecided
      cases undecided
    · rintro ⟨before, after, split, counts, reports, earlier⟩
      refine ⟨⟨counts, reports⟩, before, after, split, ?_⟩
      intro l mem
      rw [Bool.not_eq_true', Bool.eq_false_iff, ne_eq, decides_iff]
      exact fun ⟨fromEmitter, reports⟩ => earlier l mem fromEmitter reports
  simp only [first]

/-- A receipt reports nothing just when it is silent. -/
theorem classifyReceipt_eq_none_iff :
    classifyReceipt id topic emitter receipt = none ↔ Silent id topic emitter receipt := by
  rw [classifyReceipt_eq_map, Option.map_eq_none_iff, List.find?_eq_none]
  simp only [decides_iff, not_and]
  rfl

end MetaTransaction.Confirmation
