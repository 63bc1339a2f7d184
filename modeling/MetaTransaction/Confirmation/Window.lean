import MetaTransaction.Confirmation.Settings

/-!
# Windows and candidates

Each round of a wait scans a window of blocks that ends at the head. The window starts a little
below the base, which is the head of the last completed round, or far below the first head. The
transactions of its logs are the candidates, each once, in the order of block and log.
-/

namespace MetaTransaction.Confirmation

/-- The base of the first window. -/
def Settings.firstBase (s : Settings) (head : BlockNumber) : BlockNumber :=
  head.back s.lookback

/-- The query for the logs of a window. -/
def Settings.window (s : Settings) (base head : BlockNumber) : LogFilter :=
  { fromBlock := min (base.back s.overlap) head
    toBlock := head
    address := s.wallet
    topic := s.nonceTopic }

/-- The transactions that emitted the logs, each once, in the order of block and log. -/
def candidates (logs : List Log) : List Hash :=
  ((logs.mergeSort Log.notAfter).map Log.transactionHash).eraseDups

end MetaTransaction.Confirmation
