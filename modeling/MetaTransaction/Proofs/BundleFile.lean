import MetaTransaction.Proofs.Confirmation.Classification
import MetaTransaction.Proofs.Json.RoundTrip
import MetaTransaction.Proofs.Relay.Submission

/-!
# Identifiers of bundle files

A bundle file and a signed bundle are written in different forms, and the identifier of the bundle
is derived from either, by the service in front of a relayer once more, and read from what a person
copies. All of them mean the same identifier.

* `BundleFile.identifier_eq_error_iff` — a file has no identifier just when its counter is too wide
  or it has no calls;
* `Relayer.submit_judges` — the service acknowledges under the identifier of the bundle or not at
  all;
* `file_identifier_shared` — the identifier of a file in every tool.
-/

namespace MetaTransaction

/-! ## Bundles of files -/

namespace BundleFile

variable {file : BundleFile}

/-- A file whose counter fits makes a bundle of its own calls and nonce. -/
theorem bundle_eq_ok (fits : file.counter.toNat < 2 ^ 96) :
    ∃ nonce, file.bundle = .ok ⟨file.calls, nonce⟩ ∧ nonce.space = file.space ∧
      nonce.counterWord = file.counter := by
  obtain ⟨nonce, made, space, counter⟩ := @Nonce.ofCounter_eq_ok file.space _ fits
  refine ⟨nonce, ?_, space, counter⟩
  rw [bundle, made]
  rfl

/-- A counter that does not fit is reported before anything else, even if there are no calls. -/
theorem identifier_of_wide (wide : 2 ^ 96 ≤ file.counter.toNat) :
    file.identifier = .error (.counterTooWide file.counter.toNat) := by
  rw [identifier, bundle, Nonce.ofCounter_eq_error wide]
  rfl

/-- The identifier of a file is the one of its bundle, however that is signed. -/
theorem identifier_of_bundle {b : Bundle} (made : file.bundle = .ok b) (signature : Bytes) :
    file.identifier = (SignedBundle.mk file.chain file.wallet b signature).identifier := by
  rw [identifier, made]
  rfl

/-- A file has no identifier when its counter is too wide or it has no calls. -/
theorem identifier_eq_error_iff {e : DerivationError} :
    file.identifier = .error e ↔
      2 ^ 96 ≤ file.counter.toNat ∧ e = .counterTooWide file.counter.toNat ∨
        file.counter.toNat < 2 ^ 96 ∧ file.calls = [] ∧ e = .emptyBundle := by
  by_cases fits : file.counter.toNat < 2 ^ 96
  · obtain ⟨nonce, made, -⟩ := bundle_eq_ok fits
    rw [identifier_of_bundle made []]
    by_cases empty : file.calls = []
    · rw [SignedBundle.identifier_of_empty _ empty]
      constructor
      · intro same
        exact .inr ⟨fits, empty, (Except.error.inj same).symm⟩
      · rintro (⟨wide, -⟩ | ⟨-, -, rfl⟩)
        · exact absurd fits (Nat.not_lt.mpr wide)
        · rfl
    · obtain ⟨id, derived⟩ := SignedBundle.identifier_of_nonempty
        ⟨file.chain, file.wallet, ⟨file.calls, nonce⟩, []⟩ empty
      rw [derived]
      constructor
      · intro same
        cases same
      · rintro (⟨wide, -⟩ | ⟨-, none, -⟩)
        · exact absurd fits (Nat.not_lt.mpr wide)
        · exact absurd none empty
  · have wide := Nat.not_lt.mp fits
    rw [identifier_of_wide wide]
    constructor
    · intro same
      exact .inl ⟨wide, (Except.error.inj same).symm⟩
    · rintro (⟨-, rfl⟩ | ⟨small, -⟩)
      · rfl
      · exact absurd small fits

/-- What has an identifier is a bundle. -/
theorem bundle_of_identifier {id : Identifier} (derived : file.identifier = .ok id) :
    ∃ b, file.bundle = .ok b := by
  cases made : file.bundle with
  | error e =>
    rw [identifier, made] at derived
    cases derived
  | ok b => exact ⟨b, rfl⟩

end BundleFile

/-! ## Tools -/

/-- What the service makes of the relayer's answer to a bundle with the identifier `id`. -/
inductive Relayer.Judges (id : Identifier) :
    Except RelayError Submission → Except RelayError Submission → Prop
  /-- an error of the relayer is passed on -/
  | failed (e) : Judges id (.error e) (.error e)
  /-- an acknowledgement under another identifier is not believed -/
  | mismatch (submission) : submission.identifier ≠ id →
      Judges id (.ok submission) (.error (.identifierMismatch id submission.identifier))
  | accepted (submission) : submission.identifier = id →
      Judges id (.ok submission) (.ok submission)

theorem Relayer.acknowledged_judges (id : Identifier) (told : Except RelayError Submission) :
    Judges id told (acknowledged id told) := by
  cases told with
  | error e => exact .failed e
  | ok submission =>
    rw [acknowledged]
    split
    · exact .accepted submission (by assumption)
    · exact .mismatch submission (by assumption)

/-- A bundle with an identifier is handed to a relayer of its chain, and the answer is judged. -/
theorem Relayer.submit_judges {ρ : Type} {r : Relayer ρ} {signed : SignedBundle} {id : Identifier}
    (serves : r.chain = signed.chain) (derived : signed.identifier = .ok id) (before : ρ) :
    ∃ told answer after, r.relay signed before = (told, after) ∧
      r.submit signed before = (answer, after) ∧ Judges id told answer := by
  rw [submit_of_admitted serves.symm derived]
  exact ⟨_, _, _, rfl, rfl, acknowledged_judges id _⟩

/-- What the tools make of a signed bundle with the identifier `id`. They agree on it without having
talked to one another: each derives it anew. -/
structure SignedBundle.KnownAs (signed : SignedBundle) (id : Identifier) : Prop where
  derived : signed.identifier = .ok id
  /-- a file that holds its JSON form is read as the bundle -/
  saved : ∀ files path,
    CommandLine.readSigned (FileSystem.write files path signed.toJson.compact) path = .ok signed
  /-- a relayer of its chain gets it, and must acknowledge it under the identifier -/
  submitted : ∀ {ρ : Type} (r : Relayer ρ), r.chain = signed.chain → ∀ before,
    ∃ told answer after, r.relay signed before = (told, after) ∧
      r.submit signed before = (answer, after) ∧ Relayer.Judges id told answer

/-- Every signed bundle that has an identifier is known under it. -/
theorem SignedBundle.knownAs {signed : SignedBundle} {id : Identifier}
    (derived : signed.identifier = .ok id) : signed.KnownAs id where
  derived := derived
  saved files path := CommandLine.readSigned_write files path signed
  submitted _ serves before := Relayer.submit_judges serves derived before

/-- A text that is read as the identifier that logs are compared with, in either of the shapes in
which logs report one. -/
def Identifier.WrittenAs (id : Identifier) (text : String) : Prop :=
  ∃ read, Identifier.read text = .ok read ∧ ∀ topic log,
    (Confirmation.classifyLog id topic log = .executed ↔
      log.topics = [] ∧ log.data = read.hash.bytes) ∧
    (Confirmation.classifyLog id topic log = .failed ↔
      log.topics = [topic] ∧ read.hash.bytes <+: log.data)

theorem Identifier.writtenAs {id : Identifier} {text : String} (read : read text = .ok id) :
    id.WrittenAs text :=
  ⟨id, read, fun _ _ =>
    ⟨Confirmation.classifyLog_eq_executed_iff, Confirmation.classifyLog_eq_failed_iff⟩⟩

/-- The command for identifiers prints the one of the file. -/
theorem CommandLine.output_identify {files : FileSystem} {path text : String} {file : BundleFile}
    {id : Identifier} (stored : (files path).text? = some text)
    (parsed : BundleFile.parse? text = some file) (derived : file.identifier = .ok id)
    (filter : Verbosity) (jsonLog : Bool) :
    (report filter jsonLog (identify files path)).output = id.text ++ "\n" := by
  have printed : identify files path = CommandAction.print (id.text ++ "\n") := by
    rw [identify, stored]
    simp only
    rw [parsed]
    simp only
    rw [derived]
    rfl
  rw [printed]
  exact String.empty_append

/-- The identifier of a bundle file is the same for all tools: it is printed, the printed text is
read, with or without a mark, as what logs are compared with, and the bundle is known under it
however it is signed. A file without an identifier has a counter that is too wide, or no calls. -/
theorem file_identifier_shared {text : String} {file : BundleFile}
    (parsed : BundleFile.parse? text = some file) :
    (∀ id, file.identifier = .ok id →
      (∀ files path filter jsonLog,
        (CommandLine.report filter jsonLog
          (CommandLine.identify (FileSystem.write files path text) path)).output =
            id.text ++ "\n") ∧
      id.WrittenAs id.text ∧ id.WrittenAs ("0x" ++ id.text) ∧
      ∃ bundle, file.bundle = .ok bundle ∧ ∀ signature,
        (SignedBundle.mk file.chain file.wallet bundle signature).KnownAs id) ∧
    ∀ e, file.identifier = .error e ↔
      2 ^ 96 ≤ file.counter.toNat ∧ e = .counterTooWide file.counter.toNat ∨
        file.counter.toNat < 2 ^ 96 ∧ file.calls = [] ∧ e = .emptyBundle := by
  refine ⟨?_, fun _ => BundleFile.identifier_eq_error_iff⟩
  intro id derived
  refine ⟨?_, Identifier.writtenAs id.read_text, Identifier.writtenAs id.read_text_after_mark, ?_⟩
  · intro files path filter jsonLog
    have stored : (FileSystem.write files path text path).text? = some text := by
      rw [FileSystem.write, if_pos rfl, FileEntry.text?_file]
    exact CommandLine.output_identify stored parsed derived filter jsonLog
  · obtain ⟨bundle, made⟩ := BundleFile.bundle_of_identifier derived
    refine ⟨bundle, made, ?_⟩
    intro signature
    exact SignedBundle.knownAs (BundleFile.identifier_of_bundle made signature ▸ derived)

namespace Sample

/-- A bundle file that leaves out what can be left out, and half of the nonce. -/
def fileText : String :=
  "\x7b\"chain_id\": 42161, \"wallet\": \"abababababababababababababababababababab\",\n" ++
    " \"nonce\": \x7b\"counter\": \"0x07\"\x7d," ++
    " \"calls\": [\x7b\"target\": \"0x0101010101010101010101010101010101010101\"\x7d]\x7d"

def file : BundleFile where
  chain := .arbitrum
  wallet := ⟨List.replicate 20 0xab, rfl⟩
  counter := 7
  calls := [{ target := ⟨List.replicate 20 0x01, rfl⟩ }]

theorem parse?_fileText : BundleFile.parse? fileText = some file := by
  decide +kernel

end Sample

/-- The sample file has an identifier, and its bundle is known under it with any signature. -/
theorem sample_file_identifier_shared :
    ∃ id, Sample.file.identifier = .ok id ∧ id.WrittenAs ("0x" ++ id.text) ∧
      ∃ bundle, Sample.file.bundle = .ok bundle ∧ ∀ signature,
        (SignedBundle.mk .arbitrum Sample.file.wallet bundle signature).KnownAs id := by
  obtain ⟨shared, failed⟩ := file_identifier_shared Sample.parse?_fileText
  cases derived : Sample.file.identifier with
  | error e =>
    rcases (failed e).mp derived with ⟨wide, -⟩ | ⟨-, none, -⟩
    · exact absurd wide (by decide)
    · cases none
  | ok id =>
    obtain ⟨-, -, marked, known⟩ := shared id derived
    exact ⟨id, rfl, marked, known⟩

end MetaTransaction
