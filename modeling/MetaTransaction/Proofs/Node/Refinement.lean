import MetaTransaction.Proofs.Confirmation.Coverage
import MetaTransaction.Proofs.Confirmation.Simulation
import MetaTransaction.Proofs.Node.Payload

/-!
# Waits over nodes

A wait over a node that shows a chain is a wait over the chain. The server of a node sees the name of
a method and its parameters, and answers JSON; it shows a chain when its answers tell those of the
chain, whatever else stands in them. Logs that are not mined may be added anywhere. What the chain
does not answer is told by an error, by JSON of another form, or by a receipt that is in no block.

* `Server.Renders` — servers that show a chain; `Rendering.server_renders` — every chain has one;
* `Server.Renders.simulates` — what is read from such a server are the answers of the chain;
* `Node.noted_simulates` — each query is one request;
* `wait_over_node_refines_chain` — the requests, the answers that are read, and the waits.
-/

namespace MetaTransaction

open Confirmation

variable {ε σ ν α : Type}

/-! ## Servers -/

/-- The server of a node: it is asked by the name of a method and its parameters. -/
abbrev Server (ν : Type) := String → List Json → ℕ → ν → Reply NodeFailure Json × ν

/-- The node of a server. -/
def Server.node (server : Server ν) : Node ν where
  ask request := server request.method (request.params NodeRequest.clientTag)

/-- What a node may answer where the chain tells its head. -/
inductive TellsHead : Except ε BlockNumber → Except NodeFailure Json → Prop
  | found (head) : TellsHead (.ok head) (.ok (NodeRequest.quantity head))
  | failed (e failure) : TellsHead (.error e) (.error failure)
  | malformed (e) {j} : Payload.quantity? j = none → TellsHead (.error e) (.ok j)

/-- What a node may answer where the chain tells logs. An answer that is no list of logs is an
error, also if only one of its entries cannot be read. -/
inductive TellsLogs : Except ε (List Log) → Except NodeFailure Json → Prop
  /-- entries that are not mined may stand among the logs -/
  | found (entries : List LogEntry) {logs} : entries.filterMap LogEntry.log? = logs →
      TellsLogs (.ok logs) (.ok (.array (entries.map LogEntry.toJson)))
  | failed (e failure) : TellsLogs (.error e) (.error failure)
  | malformed (e) {j} : Payload.logs? j = none → TellsLogs (.error e) (.ok j)

/-- What a node may answer where the chain tells a receipt. Null says that there is none; a receipt
that is in no block yet says nothing, and the lookup fails. -/
inductive TellsReceipt : Except ε (Option Receipt) → Except NodeFailure Json → Prop
  | missing : TellsReceipt (.ok none) (.ok .null)
  | mined (entry : ReceiptEntry) {receipt} : entry.receipt? = some receipt →
      TellsReceipt (.ok (some receipt)) (.ok entry.toJson)
  /-- a receipt that is in no block is no answer yet -/
  | pending (e) (entry : ReceiptEntry) : entry.blockNumber = none →
      TellsReceipt (.error e) (.ok entry.toJson)
  | failed (e failure) : TellsReceipt (.error e) (.error failure)
  | malformed (e) {j} : Json.nullable? Payload.receipt? j = none → TellsReceipt (.error e) (.ok j)

/-- In states that belong together a request is answered as the query is, at the same time, and such
states are left. It is the condition of a simulation for one request. -/
def Answers (shows : ν → σ → Prop) (tells : Except ε α → Except NodeFailure Json → Prop)
    (query : ℕ → σ → Reply ε α × σ) (ask : ℕ → ν → Reply NodeFailure Json × ν) : Prop :=
  ∀ now s t, shows s t →
    tells (query now t).1.answer (ask now s).1.answer ∧
      (ask now s).1.delay = (query now t).1.delay ∧ (ask now s).1.action = (query now t).1.action ∧
      shows (ask now s).2 (query now t).2

/-- A server that shows a chain, in whatever form the parameters of its methods are written. It is
asked by the meaning of its parameters: any object that denotes the query, and any string that
writes the hash, has to be answered alike. -/
structure Server.Renders (server : Server ν) (chain : Chain ε σ) (shows : ν → σ → Prop) : Prop where
  head : Answers shows TellsHead chain.head (server "eth_blockNumber" [])
  logs : ∀ j filter, LogQuery.ofJson? j = some filter.query →
    Answers shows TellsLogs (chain.logs filter) (server "eth_getLogs" [j])
  receipt : ∀ j hash, Json.hash? j = some hash →
    Answers shows TellsReceipt (chain.receipt hash) (server "eth_getTransactionReceipt" [j])

/-! ## What is read -/

/-- What is told of a head is read. -/
theorem TellsHead.read {answer : Except ε BlockNumber} {told : Except NodeFailure Json}
    (tells : TellsHead answer told) : plainAnswer (Node.readHead told) = plainAnswer answer := by
  cases tells with
  | found head =>
    rw [Node.readHead, Node.readAnswer, Payload.quantity?_quantity]
    rfl
  | failed e failure => rfl
  | malformed e other =>
    rw [Node.readHead, Node.readAnswer, other]
    rfl

/-- What is told of logs is read: entries that are not mined leave no trace. -/
theorem TellsLogs.read {answer : Except ε (List Log)} {told : Except NodeFailure Json}
    (tells : TellsLogs answer told) : plainAnswer (Node.readLogs told) = plainAnswer answer := by
  cases tells with
  | found entries same =>
    rw [Node.readLogs_toJson, same]
    rfl
  | failed e failure => rfl
  | malformed e other =>
    rw [Node.readLogs, Node.readAnswer, other]
    rfl

/-- What is told of a receipt is read, apart from the kind of error. -/
theorem TellsReceipt.read {answer : Except ε (Option Receipt)} {told : Except NodeFailure Json}
    (tells : TellsReceipt answer told) :
    plainAnswer (Node.readReceipt told) = plainAnswer answer := by
  cases tells with
  | missing => rfl
  | mined entry same =>
    rw [Node.readReceipt_toJson same]
    rfl
  | pending e entry none =>
    rw [Node.readReceipt_pending none]
    rfl
  | failed e failure => rfl
  | malformed e other =>
    rw [Node.readReceipt, Node.readAnswer, other]
    rfl

section

variable {server : Server ν} {chain : Chain ε σ} {shows : ν → σ → Prop}

/-- A request that is answered as a query is, and read. This joins what a node may answer with what
the reader makes of it, for any of the three queries. -/
theorem Answers.alike {tells : Except ε α → Except NodeFailure Json → Prop}
    {query : ℕ → σ → Reply ε α × σ} {read : Except NodeFailure Json → Except ReaderError α}
    (request : NodeRequest) (record : ℕ → Reply Unit α → ChainCall Unit)
    (answers : Answers shows tells query
      (server request.method (request.params NodeRequest.clientTag)))
    (reads : ∀ {answer told}, tells answer told → plainAnswer (read told) = plainAnswer answer) :
    Alike (fun _ => shows) record (server.node.query request read) query := by
  intro _ now s t shown
  obtain ⟨told, delay, action, after⟩ := answers now s t shown
  refine ⟨?_, after⟩
  change Reply.mk _ _ _ = Reply.mk _ _ _
  congr 1
  exact reads told

/-- What is read from a server that shows a chain are the answers of the chain. With it all that was
proved of waits over chains holds of waits over such servers. -/
theorem Server.Renders.simulates (renders : server.Renders chain shows) :
    Simulates (fun _ => shows) server.node.chain chain where
  head := Answers.alike .blockNumber .head renders.head TellsHead.read
  logs filter :=
    Answers.alike (.logs filter) (.logs filter)
      (renders.logs _ filter (LogQuery.ofJson?_filterObject filter)) TellsLogs.read
  receipt hash :=
    Answers.alike (.receipt hash) (.receipt hash)
      (renders.receipt _ hash (Json.faithful_hash.read hash)) TellsReceipt.read

end

/-! ## Requests -/

/-- The request that a call makes at a node. -/
def Confirmation.ChainCall.request : ChainCall ε → NodeRequest
  | .head _ _ => .blockNumber
  | .logs filter _ _ => .logs filter
  | .receipt hash _ _ => .receipt hash

theorem Confirmation.ChainCall.request_plain (call : ChainCall ε) :
    call.plain.request = call.request := by
  cases call <;> rfl

/-- A node that has noted one request for each call, beside one that notes nothing. Here the
relation of a simulation depends on the calls that were made. -/
def Node.HasNoted (calls : List (ChainCall Unit)) (s : ν × List NodeRequest) (t : ν) : Prop :=
  s.1 = t ∧ s.2 = calls.map ChainCall.request

/-- Noting the request of a query makes no difference, and it is one request. -/
theorem Node.noted_alike (node : Node ν) (request : NodeRequest)
    (read : Except NodeFailure Json → Except ReaderError α)
    (record : ℕ → Reply Unit α → ChainCall Unit)
    (asks : ∀ time reply, (record time reply).request = request) :
    Alike HasNoted record (node.noted.query request read) (node.query request read) := by
  rintro calls now ⟨s, requests⟩ t ⟨rfl, rfl⟩
  refine ⟨rfl, rfl, ?_⟩
  change request :: _ = (record now _).request :: _
  rw [asks]

theorem Node.noted_simulates (node : Node ν) :
    Simulates HasNoted node.noted.chain node.chain where
  head := node.noted_alike .blockNumber readHead .head fun _ _ => rfl
  logs filter := node.noted_alike (.logs filter) readLogs (.logs filter) fun _ _ => rfl
  receipt hash := node.noted_alike (.receipt hash) readReceipt (.receipt hash) fun _ _ => rfl

/-! ## Waits -/

/-- A wait over a node that was asked `requests`, against a wait over the chain that it shows. -/
structure Refines (shows : ν → σ → Prop) (ending : Ending ReaderError ν)
    (requests : List NodeRequest) (direct : Ending ε σ) : Prop where
  result : ending.result = direct.result
  now : ending.world.now = direct.world.now
  handle : ending.world.handle = direct.world.handle
  /-- the calls are made at the same instants and answered alike, errors apart -/
  calls : ending.world.calls.map ChainCall.plain = direct.world.calls.map ChainCall.plain
  /-- each of them is one request -/
  requests : requests = direct.world.calls.map ChainCall.request
  shown : shows ending.world.chain direct.world.chain

/-- A wait over a node that shows a chain is a wait over the chain: one simulation reads the
answers, and another one counts the requests. -/
theorem Server.Renders.refines {server : Server ν} {chain : Chain ε σ} {shows : ν → σ → Prop}
    (renders : server.Renders chain shows) (waiter : Waiter) (id : Identifier)
    (timeout : Option Duration) (handle : Handle) (now : ℕ) {state : ν} {state' : σ}
    (start : shows state state') :
    Refines shows (waiter.wait server.node.chain id timeout handle now state)
      (waiter.wait server.node.noted.chain id timeout handle now (state, [])).world.chain.2
      (waiter.wait chain id timeout handle now state') := by
  obtain ⟨result, same⟩ := wait_matches renders.simulates waiter id timeout handle now start
  obtain ⟨-, noting⟩ :=
    wait_matches server.node.noted_simulates waiter id timeout handle now
      (show Node.HasNoted [] (state, []) state from ⟨rfl, rfl⟩)
  refine ⟨result, same.now, same.handle, same.calls, ?_, same.chain⟩
  rw [noting.chain.2, noting.calls, same.calls, List.map_map]
  exact List.map_congr_left fun call _ => call.request_plain

/-! ## Servers for every chain -/

/-- The reply of a server to a reply of a chain. -/
def Confirmation.Reply.told (write : α → Json) (failure : ε → NodeFailure) (reply : Reply ε α) :
    Reply NodeFailure Json where
  answer := (reply.answer.map write).mapError failure
  delay := reply.delay
  action := reply.action

/-- What a chain does not tell by itself: how its failures look at a node, which logs are not mined
yet, and what else stands in its logs and receipts. -/
structure Rendering (ε : Type) where
  failure : ε → NodeFailure
  pending : List LogEntry
  notMined : ∀ entry ∈ pending, entry.log? = none
  restOfLog : Log → LogEntry
  restOfReceipt : Receipt → ReceiptEntry

namespace Rendering

variable (r : Rendering ε)

/-- The pending logs, and then the mined ones. -/
def logs (logs : List Log) : Json :=
  .array ((r.pending ++ logs.map fun log => log.entry (r.restOfLog log)).map LogEntry.toJson)

/-- The receipt, or null. -/
def receipt : Option Receipt → Json
  | none => .null
  | some receipt => (receipt.entry (r.restOfReceipt receipt) r.restOfLog).toJson

/-- The server that shows a chain. Other methods than those for chains are refused. -/
def server (chain : Chain ε σ) : Server σ := fun method params now state =>
  if method = "eth_blockNumber" then
    let (reply, state) := chain.head now state
    (reply.told NodeRequest.quantity r.failure, state)
  else if method = "eth_getLogs" then
    match params.head?.bind fun j => (LogQuery.ofJson? j).bind LogQuery.filter? with
    | none => ({ answer := .error (.refused (-32602) "invalid params") }, state)
    | some filter =>
      let (reply, state) := chain.logs filter now state
      (reply.told r.logs r.failure, state)
  else if method = "eth_getTransactionReceipt" then
    match params.head?.bind Json.hash? with
    | none => ({ answer := .error (.refused (-32602) "invalid params") }, state)
    | some hash =>
      let (reply, state) := chain.receipt hash now state
      (reply.told r.receipt r.failure, state)
  else ({ answer := .error (.refused (-32601) "unknown method") }, state)

/-- What is found is told with the pending logs in front. -/
theorem tells_logs (logs : List Log) : TellsLogs (.ok logs : Except ε _) (.ok (r.logs logs)) := by
  refine .found _ ?_
  rw [List.filterMap_append, Log.filterMap_entry, List.filterMap_eq_nil_iff.mpr r.notMined,
    List.nil_append]

/-- What is found is told, a receipt as its entry and none as null. -/
theorem tells_receipt (receipt : Option Receipt) :
    TellsReceipt (.ok receipt : Except ε _) (.ok (r.receipt receipt)) := by
  cases receipt with
  | none => exact .missing
  | some receipt => exact .mined _ (receipt.receipt?_entry _ _)

/-- A reply is told when whatever is found is told. -/
theorem answers_told {tells : Except ε α → Except NodeFailure Json → Prop} {write : α → Json}
    (found : ∀ a, tells (.ok a) (.ok (write a)))
    (failed : ∀ e, tells (.error e) (.error (r.failure e))) (query : ℕ → σ → Reply ε α × σ) :
    Answers Eq tells query fun now state =>
      ((query now state).1.told write r.failure, (query now state).2) := by
  rintro now s t rfl
  refine ⟨?_, rfl, rfl, rfl⟩
  change tells (query now s).1.answer ((((query now s).1.answer).map write).mapError r.failure)
  cases (query now s).1.answer with
  | error e => exact failed e
  | ok a => exact found a

/-- Every chain has a server that shows it, with pending logs in front of every answer. So there are
servers as they are assumed above, with all that a reader has to drop. -/
theorem server_renders (chain : Chain ε σ) : (r.server chain).Renders chain Eq where
  head := r.answers_told .found (fun e => .failed e _) chain.head
  logs j filter asked := by
    have served : r.server chain "eth_getLogs" [j] = fun now state =>
        ((chain.logs filter now state).1.told r.logs r.failure,
          (chain.logs filter now state).2) := by
      funext now state
      simp [server, asked, LogQuery.filter?_query]
    rw [served]
    exact r.answers_told r.tells_logs (fun e => .failed e _) (chain.logs filter)
  receipt j hash asked := by
    have served : r.server chain "eth_getTransactionReceipt" [j] = fun now state =>
        ((chain.receipt hash now state).1.told r.receipt r.failure,
          (chain.receipt hash now state).2) := by
      funext now state
      simp [server, asked]
    rw [served]
    exact r.answers_told r.tells_receipt (fun e => .failed e _) (chain.receipt hash)

end Rendering

/-! ## Main statement -/

/-- What a reader makes of queries and of the answers to them. -/
structure Node.Reading : Prop where
  /-- a query for logs is the request for just the logs that its filter accepts -/
  denotes : ∀ filter : LogFilter, (NodeRequest.logs filter).method = "eth_getLogs" ∧
    ∃ j, (∀ tag, (NodeRequest.logs filter).params tag = [j]) ∧
      LogQuery.ofJson? j = some filter.query ∧ ∀ log, filter.query.accepts log = filter.accepts log
  /-- mined logs read back in their order, whatever else stands in their entries -/
  logs : ∀ (logs : List Log) (rest : Log → LogEntry),
    readLogs (.ok (.array (logs.map fun log => (log.entry (rest log)).toJson))) = .ok logs
  /-- entries that are no mined logs are left out, and the others are not affected -/
  entries : ∀ entries : List LogEntry,
    readLogs (.ok (.array (entries.map LogEntry.toJson))) = .ok (entries.filterMap LogEntry.log?)
  incomplete : ∀ entry : LogEntry,
    entry.log? = none ↔ entry.blockNumber = none ∨ entry.transactionHash = none
  /-- mined receipts read back -/
  receipt : ∀ (receipt : Receipt) (rest : ReceiptEntry) (restOfLog : Log → LogEntry),
    readReceipt (.ok (receipt.entry rest restOfLog).toJson) = .ok (some receipt)
  /-- null is no receipt -/
  missing : readReceipt (.ok .null) = .ok none
  /-- a receipt without a block number is an error -/
  pending : ∀ entry : ReceiptEntry, entry.blockNumber = none →
    readReceipt (.ok entry.toJson) = .error (.noBlockNumber entry.transactionHash)

theorem Node.reading : Node.Reading where
  denotes filter := ⟨rfl, _, fun _ => rfl, LogQuery.ofJson?_filterObject filter, filter.accepts_query⟩
  logs := readLogs_mined
  entries := readLogs_toJson
  incomplete _ := LogEntry.log?_eq_none_iff
  receipt := readReceipt_mined
  missing := readReceipt_null
  pending _ := readReceipt_pending

/-- Queries denote their filters, and what is mined reads back. A wait over the node of a server that
shows a chain makes the same calls as over the chain, one request for each, and ends in the same way.
Over any node, a receipt without a block number holds the wait at its window. -/
theorem wait_over_node_refines_chain {server : Server ν} {chain : Chain ε σ} {shows : ν → σ → Prop}
    (renders : server.Renders chain shows) :
    Node.Reading ∧
    (∀ (waiter : Waiter) (id : Identifier) (timeout : Option Duration) (handle : Handle) (now : ℕ)
      (state : ν) (state' : σ), shows state state' →
        Refines shows (waiter.wait server.node.chain id timeout handle now state)
          (waiter.wait server.node.noted.chain id timeout handle now (state, [])).world.chain.2
          (waiter.wait chain id timeout handle now state')) ∧
    ∀ {μ : Type} (node : Node μ) (waiter : Waiter) (id : Identifier) (timeout : Option Duration)
      (handle : Handle) (now : ℕ) (state : μ) (hash : Hash) (time : ℕ)
      (reply : Reply ReaderError (Option Receipt)) (before : List (ChainCall ReaderError)),
      .receipt hash time reply :: before <:+
          waiter.answered node.chain id timeout handle now state →
        ∀ transaction, reply.answer = .error (.noBlockNumber transaction) →
          Held (waiter.plan id timeout now)
            (waiter.wait node.chain id timeout handle now state).world.calls
            (.receipt hash time reply :: before) := by
  refine ⟨Node.reading, ?_, ?_⟩
  · intro waiter id timeout handle now state state' start
    exact renders.refines waiter id timeout handle now start
  · intro μ node waiter id timeout handle now state hash time reply before suffix transaction failed
    have ended := wait_ended waiter node.chain id timeout handle now state
    obtain ⟨phase, next, trace, follows⟩ := ended.follows_of_failed suffix ⟨_, failed⟩
    exact follows.held trace failed (run_asked _ _ .start)

namespace Sample

open Confirmation.Sample (waiter identifier nonceLog receipt troubled troubled_suits)

/-- A log of the sample transaction as a node tells it before the transaction is mined. -/
def pendingLog : LogEntry where
  address := nonceLog.address
  topics := nonceLog.topics
  data := []

/-- The sample receipt as a node tells it before the transaction is in a block. -/
def pendingReceipt : ReceiptEntry where
  type := ⟨"0x2", by decide⟩
  mark := .status true
  cumulativeGasUsed := 21000
  logs := [pendingLog]
  logsBloom := .ofNat 256 0
  transactionHash := receipt.transactionHash
  gasUsed := receipt.gasUsed
  effectiveGasPrice := 7
  sender := .ofNat 20 4

def rendering : Rendering Failure where
  failure
    | .network => .unreachable
    | .invalidResponse => .malformed
  pending := [pendingLog]
  notMined := List.forall_mem_singleton.mpr rfl
  restOfLog _ := pendingLog
  restOfReceipt _ := pendingReceipt

/-- A lookup that a pending receipt answers. -/
def isPending : ChainCall ReaderError → Bool
  | .receipt _ _ { answer := .error (.noBlockNumber _), .. } => true
  | _ => false

theorem isPending_iff {call : ChainCall ReaderError} : isPending call = true ↔
    ∃ hash time reply transaction, call = .receipt hash time reply ∧
      reply.answer = .error (.noBlockNumber transaction) := by
  constructor
  · intro pending
    unfold isPending at pending
    split at pending
    · exact ⟨_, _, _, _, rfl, rfl⟩
    · cases pending
  · rintro ⟨hash, time, ⟨answer, delay, action⟩, transaction, rfl, rfl⟩
    rfl

/-- A node that tells the pending receipt to the first lookup and the mined one to all others. Its
state is the number of lookups. -/
def slowNode : Node ℕ where
  ask request _ lookups :=
    match request with
    | .blockNumber => ({ answer := .ok (NodeRequest.quantity 10) }, lookups)
    | .logs _ => ({ answer := .ok (rendering.logs [nonceLog]) }, lookups)
    | .receipt _ =>
      ({ answer := .ok (if lookups = 0 then pendingReceipt.toJson else rendering.receipt receipt) },
        lookups + 1)
    | _ => ({ answer := .error .unreachable }, lookups)

/-- What is read from this node. -/
def slowChain : Chain ReaderError ℕ where
  head _ lookups := ({ answer := .ok 10 }, lookups)
  logs _ _ lookups := ({ answer := .ok [nonceLog] }, lookups)
  receipt _ _ lookups :=
    ({ answer := if lookups = 0 then .error (.noBlockNumber receipt.transactionHash)
        else .ok (some receipt) }, lookups + 1)

theorem slowNode_chain : slowNode.chain = slowChain := by
  have head : Node.readHead (.ok (NodeRequest.quantity 10)) = .ok 10 := by
    rw [Node.readHead, Node.readAnswer, Payload.quantity?_quantity]
    rfl
  have logs : Node.readLogs (.ok (rendering.logs [nonceLog])) = .ok [nonceLog] := by
    rw [Rendering.logs, Node.readLogs_toJson]
    rfl
  have receipts (lookups : ℕ) : Node.readReceipt (.ok
      (if lookups = 0 then pendingReceipt.toJson else rendering.receipt receipt)) =
      if lookups = 0 then .error (.noBlockNumber receipt.transactionHash)
        else .ok (some receipt) := by
    split
    · exact Node.readReceipt_pending rfl
    · exact Node.readReceipt_mined ..
  rw [Node.chain, slowChain, Chain.mk.injEq]
  refine ⟨?_, ?_, ?_⟩
  · funext now lookups
    exact congrArg (fun answer => (Reply.mk answer (some 0) none, lookups)) head
  · funext filter now lookups
    exact congrArg (fun answer => (Reply.mk answer (some 0) none, lookups)) logs
  · funext hash now lookups
    exact congrArg (fun answer => (Reply.mk answer (some 0) none, lookups + 1)) (receipts lookups)

/-- The first lookup of the wait meets the pending receipt, the second one the mined receipt. -/
theorem slow_wait :
    (waiter.answered slowChain identifier none .never 0 0).any isPending = true ∧
      (waiter.wait slowChain identifier none .never 0 0).result.toOption =
        some ⟨.executed, receipt⟩ :=
  Confirmation.of_runFor (P := fun calls e => calls.any isPending = true ∧
    e.result.toOption = some ⟨.executed, receipt⟩) 12 (by decide +kernel)

end Sample

/-- The sample wait over a node, with a pending log in each answer, ends as over the chain. Over a
node that tells a pending receipt first, the wait is held at its window, and ends when it is told the
mined one. -/
theorem sample_waits_over_nodes :
    ((Sample.rendering.server Sample.troubled.chain).Renders Sample.troubled.chain Eq ∧
      (Sample.waiter.wait (Sample.rendering.server Sample.troubled.chain).node.chain
        Sample.identifier none .never 0 {}).result = .ok ⟨.executed, Sample.receipt⟩) ∧
    (Sample.waiter.wait Sample.slowNode.chain Sample.identifier none .never 0 0).result.toOption =
      some ⟨.executed, Sample.receipt⟩ ∧
    ∃ call before, Sample.isPending call = true ∧
      call :: before <:+
        Sample.waiter.answered Sample.slowNode.chain Sample.identifier none .never 0 0 ∧
      Held (Sample.waiter.plan Sample.identifier none 0)
        (Sample.waiter.wait Sample.slowNode.chain Sample.identifier none .never 0 0).world.calls
        (call :: before) := by
  have renders := Sample.rendering.server_renders Sample.troubled.chain
  obtain ⟨-, refines, holds⟩ := wait_over_node_refines_chain renders
  refine ⟨⟨renders, ?_⟩, ?_, ?_⟩
  · rw [(refines Sample.waiter Sample.identifier none .never 0 {} {} rfl).result]
    exact Sample.troubled_suits.result
  · rw [Sample.slowNode_chain]
    exact Sample.slow_wait.2
  · obtain ⟨call, mem, pending⟩ := List.any_eq_true.mp Sample.slow_wait.1
    obtain ⟨later, before, split⟩ := List.append_of_mem mem
    rw [← Sample.slowNode_chain] at split
    have suffix := List.suffix_append later (call :: before)
    rw [← split] at suffix
    refine ⟨call, before, pending, suffix, ?_⟩
    obtain ⟨hash, time, reply, transaction, rfl, failed⟩ := Sample.isPending_iff.mp pending
    exact holds _ _ _ _ _ _ _ _ _ _ _ suffix transaction failed

end MetaTransaction
