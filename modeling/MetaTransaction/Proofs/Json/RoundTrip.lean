import MetaTransaction.CommandLine.Run
import MetaTransaction.Proofs.Identifier
import MetaTransaction.Proofs.Json.Faithful
import MetaTransaction.Proofs.Json.Value
import MetaTransaction.Proofs.Nonce

/-!
# Round trips through JSON texts

What is written as JSON reads back: calls, nonces and bundles, signed bundles and the answers of
relayers, identifiers, chains, logs, receipts and outcomes (`json_round_trips`). Each form is shown
to be faithful from the forms of its parts, and the parser reads the text of a faithful form. A
signed bundle comes back from a file with everything that its identifier depends on.
-/

namespace MetaTransaction

open Json

/-! ## The forms of the types -/

theorem ChainId.faithful : Faithful ChainId.toJson ChainId.ofJson? := by
  refine ⟨fun _ => .natural _, fun c => ?_⟩
  rw [ofJson?, toJson, uint64?_ofUInt64]
  rfl

theorem Identifier.faithful : Faithful Identifier.toJson Identifier.ofJson? := by
  refine ⟨fun _ => .string _, fun id => ?_⟩
  rw [ofJson?, toJson, string?, Option.bind_some, read_text]
  rfl

/-- A status is written as its word, and no two have one word. -/
theorem Status.faithful : Faithful Status.toJson Status.ofJson? := by
  refine ⟨fun _ => .string _, fun status => ?_⟩
  cases status <;> rfl

theorem Log.faithful : Faithful Log.toJson Log.ofJson? := by
  refine .of_fields (fun _ => rfl) (by decide) (fun log => ?_) (fun log => ?_)
  · simp [faithful_address.plain, faithful_hash.list.plain, faithful_bytes.plain,
      faithful_uint64.plain, faithful_hash.plain]
  · simp [required?, faithful_address.read, faithful_hash.list.read, faithful_bytes.read,
      faithful_uint64.read, faithful_hash.read]

theorem Receipt.faithful : Faithful Receipt.toJson Receipt.ofJson? := by
  refine .of_fields (fun _ => rfl) (by decide) (fun receipt => ?_) (fun receipt => ?_)
  · simp [faithful_hash.plain, faithful_uint64.plain, faithful_bool.plain, Log.faithful.list.plain]
  · simp [required?, faithful_hash.read, faithful_uint64.read, faithful_bool.read,
      Log.faithful.list.read]

theorem Outcome.faithful : Faithful Outcome.toJson Outcome.ofJson? := by
  refine .of_fields (fun _ => rfl) (by decide) (fun outcome => ?_) (fun outcome => ?_)
  · simp [Status.faithful.plain, Receipt.faithful.plain]
  · simp [required?, Status.faithful.read, Receipt.faithful.read]

theorem Call.faithful : Faithful Call.toJson Call.ofJson? := by
  refine .of_fields (fun _ => rfl) (by decide) (fun c => ?_) (fun c => ?_)
  · simp [faithful_address.plain, faithful_bytes.plain, (faithful_word 256).plain,
      faithful_bool.plain]
  · simp [required?, optional?, faithful_address.read, faithful_bytes.read,
      (faithful_word 256).read, faithful_bool.read]

/-- A nonce is written as its space and its counter. A counter that is read has to fit, and one that
was written does. -/
theorem Nonce.faithful : Faithful Nonce.toJson Nonce.ofJson? := by
  refine .of_fields (fun _ => rfl) (by decide) (fun n => ?_) (fun n => ?_)
  · simp [(faithful_word 160).plain, (faithful_word 96).plain]
  · -- the counter is read in the width of a word and must then fit its own
    have counter : ofWord n.counter = ofWord n.counterWord := by
      rw [ofWord, ofWord, toNat_counterWord]
    simp [counter, required?, (faithful_word 160).read, (faithful_word 256).read,
      ofCounter_counterWord, Except.toOption]

theorem Bundle.faithful : Faithful Bundle.toJson Bundle.ofJson? := by
  refine .of_fields (fun _ => rfl) (by decide) (fun b => ?_) (fun b => ?_)
  · simp [Call.faithful.list.plain, Nonce.faithful.plain]
  · simp [required?, optional?, Call.faithful.list.read, Nonce.faithful.read]

theorem SignedBundle.faithful : Faithful SignedBundle.toJson SignedBundle.ofJson? := by
  refine .of_fields (fun _ => rfl) (by decide) (fun s => ?_) (fun s => ?_)
  · simp [ChainId.faithful.plain, faithful_address.plain, Bundle.faithful.plain,
      faithful_bytes.plain]
  · simp [required?, ChainId.faithful.read, faithful_address.read, Bundle.faithful.read,
      faithful_bytes.read]

theorem Submission.faithful : Faithful Submission.toJson Submission.ofJson? := by
  refine .of_fields (fun _ => rfl) (by decide) (fun s => ?_) (fun s => ?_)
  · simp [Identifier.faithful.plain, faithful_hash.plain]
  · simp [required?, Identifier.faithful.read, faithful_hash.read]

/-! ## Texts -/

namespace Json

variable {α : Type}

/-- The value of a type that a text writes. -/
def readText? (ofJson? : Json → Option α) (text : String) : Option α :=
  (parse? text).bind ofJson?

/-- Reads a text as a value of a type and writes the value. -/
def rewrite? (toJson : α → Json) (ofJson? : Json → Option α) (text : String) : Option String :=
  (readText? ofJson? text).map fun a => (toJson a).compact

/-- A type whose values come back from their texts. The second condition is about all texts that are
accepted, also those that the printer would not write. -/
structure RoundTrips (toJson : α → Json) (ofJson? : Json → Option α) : Prop where
  /-- the text of a value is read as the value -/
  reads_back : ∀ a, readText? ofJson? (toJson a).compact = some a
  /-- what a text is rewritten to is rewritten to itself -/
  settles : ∀ text text', rewrite? toJson ofJson? text = some text' →
    rewrite? toJson ofJson? text' = some text'

/-- A faithful form round-trips. The text of a plain value has the tokens of the value, and these
build it; and what a text is rewritten to is such a text. -/
theorem Faithful.roundTrips {toJson : α → Json} {ofJson? : Json → Option α}
    (h : Faithful toJson ofJson?) : RoundTrips toJson ofJson? := by
  have back (a : α) : readText? ofJson? (toJson a).compact = some a := by
    rw [readText?, (h.plain a).parse?_compact, Option.bind_some, h.read]
  refine ⟨back, fun text text' rewritten => ?_⟩
  obtain ⟨a, -, rfl⟩ := Option.map_eq_some_iff.mp rewritten
  rw [rewrite?, back, Option.map_some]

end Json

/-! ## Files -/

/-- The files after a text is written to a path. -/
def FileSystem.write (files : FileSystem) (path text : String) : FileSystem :=
  fun p => if p = path then .file (Bytes.ofString text) else files p

/-- A text comes back from its bytes. -/
theorem FileEntry.text?_file (text : String) :
    FileEntry.text? (.file (Bytes.ofString text)) = some text := by
  have bytes : (⟨(Bytes.ofString text).toArray⟩ : ByteArray) = text.toByteArray := by
    have encoded := String.toByteArray_ofList (l := text.toList)
    rw [String.ofList_toList] at encoded
    rw [encoded, List.utf8Encode]
    apply ByteArray.ext
    rw [List.data_toByteArray]
    rfl
  rw [text?, bytes, String.fromUTF8?, dif_pos text.isValidUTF8]
  rfl

/-- A signed bundle that is written to a file is read from it. -/
theorem CommandLine.readSigned_write (files : FileSystem) (path : String) (s : SignedBundle) :
    readSigned (files.write path s.toJson.compact) path = .ok s := by
  have parsed : SignedBundle.parse? s.toJson.compact = some s :=
    SignedBundle.faithful.roundTrips.reads_back s
  simp [readSigned, FileSystem.write, FileEntry.text?_file, parsed]

/-- Every JSON form round-trips: the text of a value is read as the value, what a text is rewritten
to is rewritten to itself, and a signed bundle that goes through a file keeps its identifier. Texts
are printed and read by this library, and not only turned into values and back. -/
theorem json_round_trips :
    RoundTrips Call.toJson Call.ofJson? ∧ RoundTrips Nonce.toJson Nonce.ofJson? ∧
      RoundTrips Bundle.toJson Bundle.ofJson? ∧
      RoundTrips SignedBundle.toJson SignedBundle.ofJson? ∧
      RoundTrips Submission.toJson Submission.ofJson? ∧
      RoundTrips Identifier.toJson Identifier.ofJson? ∧
      RoundTrips Status.toJson Status.ofJson? ∧ RoundTrips ChainId.toJson ChainId.ofJson? ∧
      RoundTrips Log.toJson Log.ofJson? ∧ RoundTrips Receipt.toJson Receipt.ofJson? ∧
      RoundTrips Outcome.toJson Outcome.ofJson? ∧
      ∀ (files : FileSystem) (path : String) (s : SignedBundle),
        let read := CommandLine.readSigned (files.write path s.toJson.compact) path
        read = .ok s ∧ read.map SignedBundle.identifier = .ok s.identifier := by
  refine ⟨Call.faithful.roundTrips, Nonce.faithful.roundTrips, Bundle.faithful.roundTrips,
    SignedBundle.faithful.roundTrips, Submission.faithful.roundTrips,
    Identifier.faithful.roundTrips, Status.faithful.roundTrips, ChainId.faithful.roundTrips,
    Log.faithful.roundTrips, Receipt.faithful.roundTrips, Outcome.faithful.roundTrips, ?_⟩
  intro files path s
  have read := CommandLine.readSigned_write files path s
  exact ⟨read, congrArg (Except.map SignedBundle.identifier) read⟩

/-- A call that leaves fields out is written in full. -/
example :
    let text := "\x7b \"target\": \"0101010101010101010101010101010101010101\"," ++
      " \"gasLimit\": 21000 \x7d"
    ((parse? text).bind Call.ofJson?).map (fun c => c.toJson.compact) =
      some ("\x7b\"target\":\"0x0101010101010101010101010101010101010101\",\"data\":\"0x\"," ++
        "\"value\":\"0x0\",\"gasLimit\":\"0x5208\",\"delegateCall\":false," ++
        "\"revertOnError\":false\x7d") := by
  decide +kernel

end MetaTransaction
