import MetaTransaction.Configuration.Load
import MetaTransaction.Proofs.Except
import MetaTransaction.Proofs.Hex
import MetaTransaction.Relay.Local

/-!
# Checked configurations

What the checks accept, as one condition on the values of a configuration, and what the engine is
given by a configuration that passes them. The engine checks its settings once more when it starts;
a configuration that was loaded cannot fail there.

* `Engine.settings_eq_ok_iff` — the settings that a section gives;
* `validate_eq_ok_iff` — the usable configurations;
* `loaded_configurations_usable` — loading accepts the usable configurations, and the engine starts
  with what it is given.
-/

namespace MetaTransaction

open Confirmation (Settings Waiter nonceChangeTopic failureTopic)

theorem Confirmation.Waiter.new_of_valid {settings : Settings} (valid : settings.validate = .ok ()) :
    Waiter.new settings = .ok ⟨settings, valid⟩ := by
  unfold Waiter.new
  split
  · rename_i invalid
    rw [valid] at invalid
    cases invalid
  · rfl

namespace Configuration

/-! ## Fields -/

/-- The topic that a field gives, where `default` stands for a field that is left out. -/
def GivesTopic (default : Hash) : Option String → Hash → Prop
  | none, topic => topic = default
  | some text, topic => Hex.Writes text topic.bytes

/-- The wallet that a field gives. -/
def GivesWallet : Option String → Option Address → Prop
  | none, wallet => wallet = none
  | some text, wallet => ∃ address, Address.read text = .ok address ∧ wallet = some address

theorem readTopic_eq_ok_iff {field : TopicField} {text : String} {topic : Hash} :
    readTopic field text = .ok topic ↔ Hex.Writes text topic.bytes := by
  rw [← Hex.decode_stripLower_iff]
  unfold readTopic
  dsimp only
  split
  · rename_i length
    refine iff_of_false (by simp) ?_
    intro decoded
    have := Hex.length_of_decode decoded
    rw [topic.length_bytes] at this
    exact length this
  · split <;> rename_i decoded <;> rw [decoded]
    · simp
    · simp
    · rename_i length bytes
      have : bytes.length = 32 := by
        have := Hex.length_of_decode decoded
        omega
      rw [dif_pos this]
      simp [FixedBytes.ext_iff]

theorem topicOr_eq_ok_iff {default : Hash} {field : TopicField} {text : Option String}
    {topic : Hash} : topicOr default field text = .ok topic ↔ GivesTopic default text topic := by
  cases text with
  | none => simp [topicOr, GivesTopic, eq_comm]
  | some text => exact readTopic_eq_ok_iff

theorem wallet?_eq_ok_iff {text : Option String} {wallet : Option Address} :
    wallet? text = .ok wallet ↔ GivesWallet text wallet := by
  cases text with
  | none => simp [wallet?, GivesWallet, eq_comm]
  | some text =>
    rw [wallet?, GivesWallet]
    cases Address.read text <;> simp [eq_comm]

/-- The texts of thirty-two bytes are those of sixty-four digits. -/
theorem exists_hash_iff {text : String} :
    (∃ topic : Hash, Hex.Writes text topic.bytes) ↔ Hex.IsText 64 text := by
  rw [show 64 = 2 * 32 from rfl, Hex.isText_iff]
  constructor
  · rintro ⟨topic, writes⟩
    exact ⟨_, topic.length_bytes, writes⟩
  · rintro ⟨bytes, length, writes⟩
    exact ⟨⟨bytes, length⟩, writes⟩

theorem exists_topic_iff (default : Hash) {text : Option String} :
    (∃ topic, GivesTopic default text topic) ↔ ∀ s ∈ text, Hex.IsText 64 s := by
  cases text with
  | none => simp [GivesTopic]
  | some text => simpa [GivesTopic] using exists_hash_iff

/-- A field gives some wallet when it is left out or can be read as an address. -/
theorem exists_wallet_iff {text : Option String} :
    (∃ wallet, GivesWallet text wallet) ↔
      ∀ s ∈ text, ∃ address, Address.read s = .ok address := by
  cases text with
  | none => simp [GivesWallet]
  | some text => simp [GivesWallet]

/-- What is checked of a key is that it writes thirty-two bytes. Whether their number is that of an
account is not looked at. -/
theorem isKey_iff {text : String} : isKey text ↔ Hex.IsText 64 text := by
  rw [← exists_hash_iff]
  simp only [← Hex.decode_stripLower_iff, isKey, Bool.and_eq_true, decide_eq_true_eq]
  constructor
  · rintro ⟨length, decodes⟩
    cases decoded : Hex.decode (Hex.stripLower (Bytes.ofString text)) with
    | error e => simp [decoded, Except.toBool] at decodes
    | ok bytes =>
      have := Hex.length_of_decode decoded
      exact ⟨⟨bytes, by omega⟩, rfl⟩
  · rintro ⟨topic, decoded⟩
    have := Hex.length_of_decode decoded
    rw [topic.length_bytes] at this
    exact ⟨this, by rw [decoded]; rfl⟩

/-! ## The section of the engine -/

/-- The settings hold what the section of the engine says, with the default for a topic that it
leaves out. Durations are compared in nanoseconds, so that no unit can be mistaken for another. -/
structure Engine.Gives (c : Engine) (settings : Settings) : Prop where
  timeout : settings.defaultTimeout.nanoseconds = c.defaultTimeout.toNat * 1000000000
  lookback : settings.lookback = c.lookback
  overlap : settings.overlap = c.overlap
  pollInterval : settings.pollInterval.nanoseconds = c.pollInterval.toNat * 1000000
  nonceTopic : GivesTopic nonceChangeTopic c.nonceTopic settings.nonceTopic
  failedTopic : GivesTopic failureTopic c.failedTopic settings.failedTopic
  wallet : GivesWallet c.wallet settings.wallet

/-- The engine can run with what the section says. The conditions are on the section alone, with no
mention of the functions that check it. -/
structure Engine.Usable (c : Engine) : Prop where
  timeout : 0 < c.defaultTimeout
  pollInterval : 0 < c.pollInterval
  overlap : c.overlap ≤ c.lookback
  nonceTopic : ∀ text ∈ c.nonceTopic, Hex.IsText 64 text
  failedTopic : ∀ text ∈ c.failedTopic, Hex.IsText 64 text
  wallet : ∀ text ∈ c.wallet, ∃ address, Address.read text = .ok address

/-- No unit is lost: a duration of the engine is zero when the number in the section is. -/
theorem Engine.Gives.validate_iff {c : Engine} {settings : Settings} (gives : c.Gives settings) :
    settings.validate = .ok () ↔
      0 < c.defaultTimeout ∧ 0 < c.pollInterval ∧ c.overlap ≤ c.lookback := by
  simp only [UInt64.lt_iff_toNat_lt, UInt64.le_iff_toNat_le, UInt64.toNat_zero]
  rw [Settings.validate, gives.pollInterval, gives.timeout, gives.overlap, gives.lookback]
  simp only [UInt64.lt_iff_toNat_lt]
  split
  · simp
    omega
  · split
    · simp
      omega
    · split
      · simp
        omega
      · simp
        omega

theorem Engine.Gives.eq {c : Engine} {settings : Settings} (gives : c.Gives settings) :
    settings = {
      defaultTimeout := .ofSeconds c.defaultTimeout.toNat
      lookback := c.lookback
      overlap := c.overlap
      pollInterval := .ofMilliseconds c.pollInterval.toNat
      nonceTopic := settings.nonceTopic
      failedTopic := settings.failedTopic
      wallet := settings.wallet } := by
  obtain ⟨⟨timeout⟩, lookback, overlap, ⟨interval⟩, nonceTopic, failedTopic, wallet⟩ := settings
  obtain ⟨rfl, rfl, rfl, rfl, -, -, -⟩ := gives
  rfl

/-- The settings that a section gives: those it says, when the engine takes them. The fields are
read one after another, and this takes all of them together. -/
theorem Engine.settings_eq_ok_iff {c : Engine} {settings : Settings} :
    c.settings = .ok settings ↔ c.Gives settings ∧ settings.validate = .ok () := by
  simp only [Engine.settings, Except.bind_eq_ok_iff, topicOr_eq_ok_iff, wallet?_eq_ok_iff,
    Except.mapError_eq_ok_iff]
  constructor
  · rintro ⟨nonceTopic, nonce, failedTopic, failed, wallet, reads, ⟨⟩, valid, same⟩
    obtain rfl := Except.ok.inj same
    exact ⟨⟨rfl, rfl, rfl, rfl, nonce, failed, reads⟩, valid⟩
  · rintro ⟨gives, valid⟩
    refine ⟨_, gives.nonceTopic, _, gives.failedTopic, _, gives.wallet, (), ?_⟩
    rw [← gives.eq]
    exact ⟨valid, rfl⟩

theorem Engine.exists_settings_iff {c : Engine} :
    (∃ settings, c.settings = .ok settings) ↔ c.Usable := by
  simp only [Engine.settings_eq_ok_iff]
  constructor
  · rintro ⟨settings, gives, valid⟩
    obtain ⟨timeout, pollInterval, overlap⟩ := gives.validate_iff.mp valid
    exact ⟨timeout, pollInterval, overlap, (exists_topic_iff _).mp ⟨_, gives.nonceTopic⟩,
      (exists_topic_iff _).mp ⟨_, gives.failedTopic⟩, exists_wallet_iff.mp ⟨_, gives.wallet⟩⟩
  · intro usable
    obtain ⟨nonceTopic, nonce⟩ := (exists_topic_iff nonceChangeTopic).mpr usable.nonceTopic
    obtain ⟨failedTopic, failed⟩ := (exists_topic_iff failureTopic).mpr usable.failedTopic
    obtain ⟨wallet, reads⟩ := exists_wallet_iff.mpr usable.wallet
    have gives : c.Gives {
        defaultTimeout := .ofSeconds c.defaultTimeout.toNat
        lookback := c.lookback
        overlap := c.overlap
        pollInterval := .ofMilliseconds c.pollInterval.toNat
        nonceTopic, failedTopic, wallet } := ⟨rfl, rfl, rfl, rfl, nonce, failed, reads⟩
    exact ⟨_, gives, gives.validate_iff.mpr ⟨usable.timeout, usable.pollInterval, usable.overlap⟩⟩

/-! ## The whole configuration -/

/-- The checks have nothing against a configuration. Each field is one check, and states what the
check is for. -/
structure Usable (c : Configuration) : Prop where
  chain : 0 < c.network.chain.value
  endpoint : "http://".toList <+: c.network.endpoint.toList ∨
    "https://".toList <+: c.network.endpoint.toList
  engine : c.confirmation.Usable
  key : ∀ account ∈ c.relayer, Hex.IsText 64 account.key

theorem isHttp_iff {endpoint : String} : isHttp endpoint ↔
    "http://".toList <+: endpoint.toList ∨ "https://".toList <+: endpoint.toList := by
  simp [isHttp]

theorem keyCheck_eq_ok_iff {relayer : Option Account} :
    (match relayer with
      | none => .ok ()
      | some account => if isKey account.key then .ok () else .error .relayerKey :
      Except Violation Unit) = .ok () ↔ ∀ account ∈ relayer, Hex.IsText 64 account.key := by
  cases relayer with
  | none => simp
  | some account => simp [← isKey_iff]

/-- A configuration passes its checks when it is usable. The checks are taken apart in their order,
which is of no importance for what passes. -/
theorem validate_eq_ok_iff {c : Configuration} : c.validate = .ok () ↔ Usable c := by
  simp only [validate, Except.refuse_eq_ok_iff, Except.bind_eq_ok_iff]
  constructor
  · rintro ⟨chain, endpoint, -, settings, ok, key⟩
    exact ⟨UInt64.pos_iff_ne_zero.mpr chain, isHttp_iff.mp (by simpa using endpoint),
      Engine.exists_settings_iff.mp ⟨settings, ok⟩, keyCheck_eq_ok_iff.mp key⟩
  · intro usable
    obtain ⟨settings, ok⟩ := Engine.exists_settings_iff.mpr usable.engine
    have endpoint := isHttp_iff.mpr usable.endpoint
    exact ⟨UInt64.pos_iff_ne_zero.mp usable.chain, by simpa using endpoint,
      UInt64.pos_iff_ne_zero.mp usable.engine.timeout, settings, ok,
      keyCheck_eq_ok_iff.mpr usable.key⟩

instance (c : Configuration) : Decidable (Usable c) :=
  decidable_of_iff (c.validate = .ok ()) validate_eq_ok_iff

/-! ## Loading -/

/-- A text is loaded when all of its steps succeed, and the checks are the last of them. -/
theorem ofText_eq_ok_iff {e : Environment} {start text : String} {c : Configuration} :
    ofText e start text = .ok c ↔
      ∃ read c₀, substituted e text = .ok read ∧ parse? read = some c₀ ∧
        c₀.override e start = .ok c ∧ Usable c := by
  simp only [ofText, Except.bind_eq_ok_iff]
  constructor
  · rintro ⟨read, replaced, ok⟩
    cases parsed : parse? read with
    | none =>
      rw [parsed] at ok
      cases ok
    | some c₀ =>
      rw [parsed] at ok
      simp only [Except.mapError_eq_ok_iff, complete, Except.bind_eq_ok_iff] at ok
      obtain ⟨d, overridden, ⟨⟩, valid, same⟩ := ok
      obtain rfl := Except.ok.inj same
      exact ⟨read, c₀, replaced, parsed, overridden, validate_eq_ok_iff.mp valid⟩
  · rintro ⟨read, c₀, replaced, parsed, overridden, usable⟩
    refine ⟨read, replaced, ?_⟩
    rw [parsed]
    simp only [Except.mapError_eq_ok_iff, complete, Except.bind_eq_ok_iff]
    exact ⟨c, overridden, (), validate_eq_ok_iff.mpr usable, rfl⟩

/-- What has passed all other steps is refused by the checks only. -/
theorem ofText_of_unusable {e : Environment} {start text read : String} {c₀ c : Configuration}
    (replaced : substituted e text = .ok read) (parsed : parse? read = some c₀)
    (overridden : c₀.override e start = .ok c) (unusable : ¬ Usable c) :
    ∃ violation, c.validate = .error violation ∧
      ofText e start text = .error (.invalid violation) := by
  cases valid : c.validate with
  | ok => exact absurd (validate_eq_ok_iff.mp valid) unusable
  | error violation =>
    refine ⟨violation, rfl, ?_⟩
    simp [ofText, replaced, parsed, complete, overridden, valid, bind, Except.bind]

/-- A file is loaded by its text. -/
theorem exists_text_of_load {files : FileSystem} {e : Environment} {start : String}
    {path : Option String} {c : Configuration} (ok : load files e start path = .ok c) :
    ∃ text, ofText e start text = .ok c := by
  unfold load at ok
  split at ok
  · cases ok
  · split at ok
    · cases ok
    · split at ok
      · cases ok
      · exact ⟨_, ok⟩

/-- The engine starts with what its section says, on its own and below a relayer. -/
def Engine.Starts (c : Engine) : Prop :=
  ∃ settings, c.settings = .ok settings ∧ c.Gives settings ∧
    (∃ waiter, Waiter.new settings = .ok waiter ∧ waiter.settings = settings) ∧
    ∀ endpoint chain key error,
      LocalRelayer.create endpoint chain key settings ≠ .error (.confirmation error)

theorem Engine.Usable.starts {c : Engine} (usable : c.Usable) : c.Starts := by
  obtain ⟨settings, ok⟩ := Engine.exists_settings_iff.mpr usable
  obtain ⟨gives, valid⟩ := Engine.settings_eq_ok_iff.mp ok
  have started := Waiter.new_of_valid valid
  refine ⟨settings, ok, gives, ⟨_, started, rfl⟩, ?_⟩
  intro endpoint chain key error failed
  rw [LocalRelayer.create, started] at failed
  split at failed
  · cases failed
  · split at failed <;> cases failed

/-- What a text says after substitution, reading and overrides is loaded just when it is usable, and
is refused by the checks otherwise. The engine starts with every configuration that is loaded, from a
text or from a file. -/
theorem loaded_configurations_usable (e : Environment) (start text : String) :
    (∀ read c₀ c, substituted e text = .ok read → parse? read = some c₀ →
      c₀.override e start = .ok c →
      (∀ d, ofText e start text = .ok d ↔ d = c ∧ Usable c) ∧
      (¬ Usable c → ∃ violation, c.validate = .error violation ∧
        ofText e start text = .error (.invalid violation))) ∧
    (∀ c, ofText e start text = .ok c → c.confirmation.Starts) ∧
    ∀ files path c, load files e start path = .ok c → c.confirmation.Starts := by
  have starts : ∀ text c, ofText e start text = .ok c → c.confirmation.Starts := by
    intro text c ok
    obtain ⟨-, -, -, -, -, usable⟩ := ofText_eq_ok_iff.mp ok
    exact usable.engine.starts
  refine ⟨?_, starts text, ?_⟩
  · intro read c₀ c replaced parsed overridden
    refine ⟨fun d => ?_, ofText_of_unusable replaced parsed overridden⟩
    constructor
    · intro ok
      obtain ⟨read', c₀', replaced', parsed', overridden', usable⟩ := ofText_eq_ok_iff.mp ok
      obtain rfl := Except.ok.inj (replaced.symm.trans replaced')
      obtain rfl := Option.some.inj (parsed.symm.trans parsed')
      obtain rfl := Except.ok.inj (overridden.symm.trans overridden')
      exact ⟨rfl, usable⟩
    · rintro ⟨rfl, usable⟩
      exact ofText_eq_ok_iff.mpr ⟨read, c₀, replaced, parsed, overridden, usable⟩
  · intro files path c ok
    obtain ⟨text, ok⟩ := exists_text_of_load ok
    exact starts text c ok

namespace Sample

/-- The text of a configuration. -/
def text : String :=
  "[network]\nchain_id=1\nrpc_url=\"http://node\"\n" ++
    "[confirmation]\nwallet=\"abababababababababababababababababababab\"\n"

/-- What the text says. -/
def configuration : Configuration where
  network := { chain := .ethereum, endpoint := "http://node" }
  confirmation := { wallet := some "abababababababababababababababababababab" }

end Sample

/-- A text with a wallet of its own is loaded, and the engine starts with it. -/
theorem sample_configuration_loaded :
    ofText {} defaultPrefix Sample.text = .ok Sample.configuration ∧
      Sample.configuration.confirmation.Starts := by
  obtain ⟨accepts, starts, -⟩ := loaded_configurations_usable {} defaultPrefix Sample.text
  obtain ⟨loaded, -⟩ := accepts Sample.text Sample.configuration Sample.configuration
    (by decide +kernel) (by decide +kernel) (by decide +kernel)
  have ok := (loaded _).mpr ⟨rfl, by decide +kernel⟩
  exact ⟨ok, starts _ ok⟩

end Configuration

end MetaTransaction
