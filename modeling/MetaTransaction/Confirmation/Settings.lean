import MetaTransaction.Abi
import MetaTransaction.Chain
import MetaTransaction.Duration
import MetaTransaction.Identifier

/-!
# Settings and errors of the confirmation engine

The distance that a wait looks back at first and the overlap of later windows are kept apart: both
say how deep a reorganisation may be, but of different windows. Only settings that pass `validate`
reach a wait.
-/

namespace MetaTransaction.Confirmation

/-- What is wrong with settings. -/
inductive SettingsError
  | zeroPollInterval
  | zeroTimeout
  | overlapBeyondLookback (overlap lookback : UInt64)
  /-- settings that another party refused, in its words -/
  | refused (detail : String)
deriving DecidableEq, Repr

/-- The error as messages word it. -/
def SettingsError.detail : SettingsError → String
  | .zeroPollInterval => "poll interval must be greater than zero"
  | .zeroTimeout => "default timeout must be greater than zero"
  | .overlapBeyondLookback overlap lookback =>
    s!"reorg overlap ({overlap.toNat}) cannot exceed initial lookback ({lookback.toNat})"
  | .refused detail => detail

/-- Why a wait ended without an outcome, or did not start. -/
inductive Error
  | deadlineExceeded (id : Identifier) (timeout : Duration)
  | cancelled (id : Identifier)
  | invalidSettings (error : SettingsError)
deriving DecidableEq

/-- The error as messages word it. -/
def Error.message : Error → String
  | .deadlineExceeded id timeout =>
    s!"Timed out after {timeout.secondsText}s waiting for meta transaction {id.text}"
  | .cancelled id => s!"Cancelled waiting for meta transaction {id.text}"
  | .invalidSettings error => "Invalid confirmation settings: " ++ error.detail

/-- The topic that every execution of a wallet emits. -/
def nonceChangeTopic : Hash := Abi.topic "NonceChange(uint256,uint256)"

/-- The topic of a failed execution. -/
def failureTopic : Hash := Abi.topic "TxFailed(bytes32,bytes)"

/-- What a wait can be tuned by. -/
structure Settings where
  /-- the timeout of a wait that names none -/
  defaultTimeout : Duration := .ofSeconds 120
  /-- how far below the head the first window reaches -/
  lookback : UInt64 := 1024
  /-- how far a window reaches below the one before it -/
  overlap : UInt64 := 12
  /-- the pause between two rounds -/
  pollInterval : Duration := .ofSeconds 1
  /-- the topic of the logs that are scanned for -/
  nonceTopic : Hash := nonceChangeTopic
  /-- the topic of the logs that report a failure -/
  failedTopic : Hash := failureTopic
  /-- the only contract whose logs count, when there is one -/
  wallet : Option Address := none
deriving DecidableEq

/-- Refuses settings with which a wait would not end or would leave gaps. -/
def Settings.validate (s : Settings) : Except SettingsError Unit :=
  if s.pollInterval.nanoseconds = 0 then .error .zeroPollInterval
  else if s.defaultTimeout.nanoseconds = 0 then .error .zeroTimeout
  else if s.lookback < s.overlap then .error (.overlapBeyondLookback s.overlap s.lookback)
  else .ok ()

/-- Valid settings do not poll without a pause. This is the check that makes a wait end: a round
that failed is followed by a pause, and only a pause that takes time brings the deadline nearer. -/
theorem Settings.pollInterval_ne_zero {s : Settings} (h : s.validate = .ok ()) :
    s.pollInterval.nanoseconds ≠ 0 := by
  intro zero
  simp [validate, zero] at h

/-- The pause of valid settings takes at least one tick of the clock, since a duration that is not
zero is rounded up to whole ticks. -/
theorem Settings.pollInterval_pos {s : Settings} (h : s.validate = .ok ()) :
    0 < s.pollInterval.ticks :=
  Duration.ticks_pos (pollInterval_ne_zero h)

end MetaTransaction.Confirmation
