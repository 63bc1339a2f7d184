import MetaTransaction.CommandLine.Run
import MetaTransaction.Proofs.Configuration.Validation

/-!
# Keys of accounts

Loading a configuration checks the digits of its key, and the relayer checks their number when it is
created. The two differ in the numbers that no account has: zero, and those from the order of the
curve on. Such a key is loaded and described as valid, and is refused by every command that needs
the relayer.

* `AccountKey.read?_of_writes`, `AccountKey.read?_eq_none_iff` — the account of thirty-two bytes;
* `LocalRelayer.takes` — what becomes of a relayer with a key that writes thirty-two bytes;
* `loaded_key_refused_iff_no_account` — the keys of configurations that were loaded;
* `described_key_without_account` — the two checks by the commands that make them.
-/

namespace MetaTransaction

open Confirmation (Settings Waiter)

/-! ## Accounts -/

namespace AccountKey

/-- Whether a number is the secret of an account: any number below the order of the curve but
zero. -/
def IsNumber (n : ℕ) : Prop :=
  0 < n ∧ n < curveOrder

instance : DecidablePred IsNumber := fun _ => inferInstanceAs (Decidable (_ ∧ _))

variable {text : String} {secret : Hash}

/-- A key that writes the number of an account is read as this account. Numbers are not reduced, so
that no two of them stand for one account. -/
theorem read?_of_writes (writes : Hex.Writes text secret.bytes) (number : IsNumber secret.toNat) :
    read? text = some ⟨secret.toNat, number.1, number.2⟩ := by
  rw [read?, Hex.readFixed?_of_writes writes]
  exact dif_pos number

theorem read?_eq_none_iff (writes : Hex.Writes text secret.bytes) :
    read? text = none ↔ ¬ IsNumber secret.toNat := by
  by_cases number : IsNumber secret.toNat
  · rw [read?_of_writes writes number]
    exact iff_of_false nofun (not_not_intro number)
  · rw [read?, Hex.readFixed?_of_writes writes]
    exact iff_of_true (dif_neg number) number

end AccountKey

/-! ## Relayers -/

namespace LocalRelayer

/-- What becomes of a relayer whose key writes thirty-two bytes. -/
structure Takes (endpoint : String) (chain : ChainId) (key : String) (settings : Settings)
    (secret : Hash) : Prop where
  /-- the key is refused just when no account has its number -/
  refused : create endpoint chain key settings = .error .badKey ↔
    ¬ AccountKey.IsNumber secret.toNat
  /-- else it is the key of the account with the number -/
  account : ∀ number : AccountKey.IsNumber secret.toNat,
    AccountKey.read? key = some ⟨secret.toNat, number.1, number.2⟩
  /-- and the relayer is created where a client can be made for the endpoint -/
  created : AccountKey.IsNumber secret.toNat → Endpoint.isValid endpoint →
    ∃ relayer, create endpoint chain key settings = .ok relayer ∧
      relayer.key.number = secret.toNat ∧ relayer.chain = chain ∧
      relayer.waiter.settings = settings
  unreachable : AccountKey.IsNumber secret.toNat → ¬ Endpoint.isValid endpoint →
    create endpoint chain key settings =
      .error (.node ⟨.connectRelayer endpoint, .unreachable⟩)

variable {endpoint : String} {chain : ChainId} {key : String} {settings : Settings}

/-- Without an account there is no relayer, and the key is what is blamed, whatever the endpoint
is. -/
theorem create_of_read_none (none : AccountKey.read? key = none) :
    create endpoint chain key settings = .error .badKey := by
  rw [create, none]
  rfl

/-- The account of the number, when there is one and the endpoint is an address. The key is read
before the endpoint is looked at. -/
theorem create_of_number {secret : Hash} (writes : Hex.Writes key secret.bytes)
    (valid : settings.validate = .ok ()) (number : AccountKey.IsNumber secret.toNat) :
    create endpoint chain key settings =
      if Endpoint.isValid endpoint then
        .ok ⟨⟨secret.toNat, number.1, number.2⟩, chain, ⟨settings, valid⟩⟩
      else .error (.node ⟨.connectRelayer endpoint, .unreachable⟩) := by
  rw [create, AccountKey.read?_of_writes writes number, Waiter.new_of_valid valid]
  cases Endpoint.isValid endpoint <;> rfl

theorem takes (endpoint : String) (chain : ChainId) {secret : Hash}
    (writes : Hex.Writes key secret.bytes) (valid : settings.validate = .ok ()) :
    Takes endpoint chain key settings secret := by
  refine ⟨⟨?_, ?_⟩, AccountKey.read?_of_writes writes, ?_, ?_⟩
  · intro refused number
    rw [create_of_number writes valid number] at refused
    split at refused <;> cases refused
  · intro noAccount
    exact create_of_read_none ((AccountKey.read?_eq_none_iff writes).mpr noAccount)
  · intro number reachable
    rw [create_of_number writes valid number, if_pos reachable]
    exact ⟨_, rfl, rfl, rfl, rfl⟩
  · intro number unreachable
    rw [create_of_number writes valid number, if_neg unreachable]

end LocalRelayer

/-! ## Configurations -/

namespace Configuration

section

variable {e : Environment} {start text : String} {c : Configuration} {account : Account}

/-- The key of a configuration that was loaded writes thirty-two bytes. The relayer refuses it when
their number is zero or not below the order of the curve, and otherwise takes it for the account
with that number. -/
theorem loaded_key_refused_iff_no_account (ok : ofText e start text = .ok c)
    (given : c.relayer = some account) :
    ∃ settings, c.confirmation.settings = .ok settings ∧
      ∃ secret : Hash, Hex.Writes account.key secret.bytes ∧
        LocalRelayer.Takes c.network.endpoint c.network.chain account.key settings secret := by
  obtain ⟨-, -, -, -, -, usable⟩ := ofText_eq_ok_iff.mp ok
  obtain ⟨settings, read⟩ := Engine.exists_settings_iff.mpr usable.engine
  obtain ⟨secret, writes⟩ := exists_hash_iff.mpr (usable.key account given)
  exact ⟨settings, read, secret, writes,
    LocalRelayer.takes _ _ writes (Engine.settings_eq_ok_iff.mp read).2⟩

end

namespace Sample

/-- The text of a configuration with a key. -/
def keyText (key : String) : String :=
  "[network]\nchain_id=1\nrpc_url=\"http://node\"\n[relayer]\nprivate_key=\"" ++ key ++ "\"\n"

/-- What the text says. -/
def keyConfiguration (key : String) : Configuration where
  network := { chain := .ethereum, endpoint := "http://node" }
  relayer := some ⟨key⟩

/-- The number of no account. -/
def zeroKey : String :=
  "0000000000000000000000000000000000000000000000000000000000000000"

/-- The largest number of an account. -/
def lastKey : String :=
  "0xFFFFFFFFFFFFFFFFFFFFFFFFFFFFFFFEBAAEDCE6AF48A03BBFD25E8CD0364140"

theorem zeroKey_loaded :
    ofText {} defaultPrefix (keyText zeroKey) = .ok (keyConfiguration zeroKey) :=
  ofText_eq_ok_iff.mpr ⟨keyText zeroKey, keyConfiguration zeroKey, by decide +kernel,
    by decide +kernel, by decide +kernel, by decide +kernel⟩

theorem lastKey_loaded :
    ofText {} defaultPrefix (keyText lastKey) = .ok (keyConfiguration lastKey) :=
  ofText_eq_ok_iff.mpr ⟨keyText lastKey, keyConfiguration lastKey, by decide +kernel,
    by decide +kernel, by decide +kernel, by decide +kernel⟩

end Sample

/-- The key with the largest number is that of an account. -/
theorem last_key_taken :
    ofText {} defaultPrefix (Sample.keyText Sample.lastKey) =
        .ok (Sample.keyConfiguration Sample.lastKey) ∧
      ∃ relayer, LocalRelayer.create "http://node" .ethereum Sample.lastKey {} = .ok relayer ∧
        relayer.key.number = curveOrder - 1 := by
  obtain ⟨settings, read, secret, writes, taken⟩ :=
    loaded_key_refused_iff_no_account Sample.lastKey_loaded rfl
  obtain rfl : {} = settings := Except.ok.inj read
  -- the text writes one byte string only, the one that it is decoded to
  have bytes : Hex.decode (Hex.stripLower (Bytes.ofString Sample.lastKey)) =
      .ok (Bytes.ofNat 32 (curveOrder - 1)) := by decide +kernel
  have same := Except.ok.inj ((Hex.decode_stripLower_iff.mpr writes).symm.trans bytes)
  have number : secret.toNat = curveOrder - 1 := by
    rw [FixedBytes.toNat, same]
    decide +kernel
  obtain ⟨relayer, created, key, -, -⟩ :=
    taken.created (by rw [number]; decide +kernel) (by decide +kernel)
  exact ⟨Sample.lastKey_loaded, relayer, created, key.trans number⟩

/-- A key can be loaded that the relayer refuses. -/
theorem zero_key_loaded_and_refused :
    ofText {} defaultPrefix (Sample.keyText Sample.zeroKey) =
        .ok (Sample.keyConfiguration Sample.zeroKey) ∧
      (Sample.keyConfiguration Sample.zeroKey).relayer = some ⟨Sample.zeroKey⟩ ∧
      (Sample.keyConfiguration Sample.zeroKey).confirmation.settings = .ok {} ∧
      LocalRelayer.create "http://node" .ethereum Sample.zeroKey {} = .error .badKey :=
  ⟨Sample.zeroKey_loaded, rfl, rfl, LocalRelayer.create_of_read_none (by decide +kernel)⟩

end Configuration

/-! ## Commands -/

namespace CommandLine

variable {ν : Type} {c : Configuration} {host : Host ν} {failure : Failure}

/-- What was loaded is described without a failure. The description does not read the key, so that
it cannot tell whether an account has its number. -/
theorem describe_of_settings {settings : Settings} (read : c.confirmation.settings = .ok settings)
    (record : Record) : ∃ after, (describe c).run.run record = (.ok (), after) := by
  rw [describe, read, show CommandAction.ofExcept Failure.settings (.ok settings) = pure settings
    from rfl, pure_bind]
  cases settings.wallet <;> exact ⟨_, rfl⟩

theorem localRelayer_eq {settings : Settings} {account : Configuration.Account}
    (read : c.confirmation.settings = .ok settings) (given : c.relayer = some account) :
    localRelayer c = CommandAction.ofExcept .relayer
      (LocalRelayer.create c.network.endpoint c.network.chain account.key settings) := by
  rw [localRelayer, given]
  dsimp only
  rw [read]
  exact pure_bind _ _

/-- A command that needs the relayer fails as making it fails, with nothing reported. So the node is
not asked for a nonce. -/
theorem printNonce_of_no_relayer (failed : localRelayer c = throw failure) (wallet : Address)
    (space : BitVec 160) : printNonce host c wallet space = throw failure := by
  rw [printNonce, failed]
  rfl

theorem relayBundle_of_no_relayer (failed : localRelayer c = throw failure) {path : String}
    {signed : SignedBundle} (stored : readSigned host.files path = .ok signed) (awaits : Bool)
    (timeout : Option UInt64) : relayBundle host c path awaits timeout = throw failure := by
  rw [relayBundle, stored, failed]
  exact pure_bind _ _

/-- A loaded configuration with the key of no account passes the command that checks it, and fails
every command that needs the relayer. -/
theorem described_key_without_account {e : Environment} {start text : String}
    {account : Configuration.Account} {secret : Hash}
    (ok : Configuration.ofText e start text = .ok c) (given : c.relayer = some account)
    (writes : Hex.Writes account.key secret.bytes)
    (noAccount : ¬ AccountKey.IsNumber secret.toNat) (host : Host ν) :
    (∀ record, ∃ after, (runCommand host c .validate).run.run record = (.ok (), after)) ∧
      (∀ wallet space, runCommand host c (.nonce wallet space) = throw (.relayer .badKey)) ∧
      ∀ path signed awaits timeout, readSigned host.files path = .ok signed →
        runCommand host c (.relay path awaits timeout) = throw (.relayer .badKey) := by
  obtain ⟨-, -, -, -, -, usable⟩ := Configuration.ofText_eq_ok_iff.mp ok
  obtain ⟨settings, read⟩ := Configuration.Engine.exists_settings_iff.mpr usable.engine
  have failed : localRelayer c = throw (.relayer .badKey) := by
    rw [localRelayer_eq read given, LocalRelayer.create_of_read_none
      ((AccountKey.read?_eq_none_iff writes).mpr noAccount)]
    rfl
  refine ⟨describe_of_settings read, printNonce_of_no_relayer failed, ?_⟩
  intro path signed awaits timeout stored
  exact relayBundle_of_no_relayer failed stored awaits timeout

end CommandLine

end MetaTransaction
