import MetaTransaction.Proofs.Configuration.Validation

/-!
# Settings that variables override

A setting that a variable overrides is not taken from the file, and what the file says about it is
not even checked: it neither wins nor stands in the way. Everything else is as the file has it.

* `override_eq_ok_iff` — what overriding makes of a configuration;
* `AgreesApart.override_eq` — two files that agree apart from the settings that variables override;
* `overridden_settings_without_influence` — the same of loading.
-/

namespace MetaTransaction.Configuration

/-- A setting with a variable for it: what the variable says, or what the file has where the
variable is unset. Where the variable is set, the file does not occur. -/
def Chosen {α : Type} (reads : String → α → Prop) (found : Option String) (file setting : α) :
    Prop :=
  match found with
  | none => setting = file
  | some value => reads value setting

/-- What variables make of the configuration of a file. -/
structure Overridden (e : Environment) (start : String) (file c : Configuration) : Prop where
  endpoint : Chosen (fun value endpoint => endpoint = value) (e.get? (start ++ "RPC_URL"))
    file.network.endpoint c.network.endpoint
  chain : Chosen (fun value chain => ChainId.read value = .ok chain)
    (e.get? (start ++ "CHAIN_ID")) file.network.chain c.network.chain
  level : Chosen (fun value level => level = value) (e.get? (start ++ "LOG_LEVEL"))
    file.logging.level c.logging.level
  /-- the whole section is overridden -/
  relayer : Chosen (fun value relayer => relayer = some ⟨value⟩) (e.get? (start ++ "PRIVATE_KEY"))
    file.relayer c.relayer
  engine : c.confirmation = file.confirmation
  json : c.logging.json = file.logging.json

/-- Two configurations that are equal apart from settings that variables override. Each field asks
for equality only where its variable is unset. -/
structure AgreesApart (e : Environment) (start : String) (c d : Configuration) : Prop where
  endpoint : e.get? (start ++ "RPC_URL") = none → c.network.endpoint = d.network.endpoint
  chain : e.get? (start ++ "CHAIN_ID") = none → c.network.chain = d.network.chain
  level : e.get? (start ++ "LOG_LEVEL") = none → c.logging.level = d.logging.level
  relayer : e.get? (start ++ "PRIVATE_KEY") = none → c.relayer = d.relayer
  engine : c.confirmation = d.confirmation
  json : c.logging.json = d.logging.json

section

variable {e : Environment} {start : String}

/-! ## One configuration -/

theorem chosen_getD_iff {found : Option String} {file setting : String} :
    Chosen (fun value setting => setting = value) found file setting ↔
      found.getD file = setting := by
  cases found <;> simp [Chosen, eq_comm]

theorem overriddenChain_eq_ok_iff {file chain : ChainId} {found : Option String} :
    overriddenChain file found = .ok chain ↔
      Chosen (fun value chain => ChainId.read value = .ok chain) found file chain := by
  cases found with
  | none => simp [overriddenChain, Chosen, eq_comm]
  | some value => simp [overriddenChain, Chosen]

/-- The choice of a relayer takes the whole section from its variable, if it is set. -/
theorem chosen_or_iff {file relayer : Option Account} {found : Option String} :
    Chosen (fun value relayer => relayer = some ⟨value⟩) found file relayer ↔
      (found.map Account.mk).or file = relayer := by
  cases found <;> simp [Chosen, eq_comm]

/-- Overriding gives the settings that are chosen, one by one. -/
theorem override_eq_ok_iff {file c : Configuration} :
    file.override e start = .ok c ↔ Overridden e start file c := by
  simp only [override, Except.bind_eq_ok_iff, overriddenChain_eq_ok_iff]
  constructor
  · rintro ⟨chain, chosen, same⟩
    obtain rfl := Except.ok.inj same
    exact ⟨chosen_getD_iff.mpr rfl, chosen, chosen_getD_iff.mpr rfl, chosen_or_iff.mpr rfl, rfl,
      rfl⟩
  · intro overridden
    obtain ⟨⟨chain, endpoint⟩, confirmation, relayer, ⟨level, json⟩⟩ := c
    obtain ⟨atEndpoint, atChain, atLevel, atRelayer, rfl, rfl⟩ := overridden
    refine ⟨chain, atChain, ?_⟩
    rw [chosen_getD_iff.mp atEndpoint, chosen_getD_iff.mp atLevel, chosen_or_iff.mp atRelayer]
    rfl

/-! ## Two configurations -/

/-- A choice that ignores the file where a variable is set depends on the file only where none is.
All four settings are instances of this, errors included. -/
theorem choice_eq {α β : Type} {f : α → Option String → β} {file file' : α} {found : Option String}
    (ignores : ∀ a b value, f a (some value) = f b (some value))
    (agree : found = none → file = file') : f file found = f file' found := by
  cases found with
  | none => rw [agree rfl]
  | some value => exact ignores file file' value

/-- What variables override is the same for both configurations. -/
theorem AgreesApart.override_eq {c d : Configuration} (agree : AgreesApart e start c d) :
    c.override e start = d.override e start := by
  have endpoint := choice_eq (f := fun file found => found.getD file) (fun _ _ _ => rfl)
    agree.endpoint
  have chain := choice_eq (f := overriddenChain) (fun _ _ _ => rfl) agree.chain
  have level := choice_eq (f := fun file found => found.getD file) (fun _ _ _ => rfl) agree.level
  have relayer := choice_eq (f := fun file found => (found.map Account.mk).or file)
    (fun _ _ _ => rfl) agree.relayer
  simp only [override]
  rw [endpoint, chain, level, relayer, agree.engine, agree.json]

/-- What a text says, once its references are replaced, is overridden and then checked. After that
nothing but the configuration of the file matters. -/
theorem ofText_eq_complete {text read : String} {file : Configuration}
    (replaced : substituted e text = .ok read) (parsed : parse? read = some file) :
    ofText e start text = (file.complete e start).mapError .invalid := by
  simp only [ofText, replaced, parsed, bind, Except.bind]

end

/-! ## Loading -/

/-- Two texts that agree apart from the settings that variables override are loaded alike, errors
included. What is loaded has the values of the variables and else what the text says, and only that
is checked. -/
theorem overridden_settings_without_influence (e : Environment) (start : String) :
    (∀ text text' read read' file file',
      substituted e text = .ok read → parse? read = some file →
      substituted e text' = .ok read' → parse? read' = some file' →
      AgreesApart e start file file' → ofText e start text = ofText e start text') ∧
    ∀ text read file, substituted e text = .ok read → parse? read = some file →
      ∀ c, ofText e start text = .ok c ↔ Overridden e start file c ∧ Usable c := by
  constructor
  · intro text text' read read' file file' replaced parsed replaced' parsed' agree
    rw [ofText_eq_complete replaced parsed, ofText_eq_complete replaced' parsed', complete, complete,
      agree.override_eq]
  · intro text read file replaced parsed c
    rw [ofText_eq_ok_iff, ← override_eq_ok_iff]
    constructor
    · rintro ⟨read', file', replaced', parsed', overridden, usable⟩
      obtain rfl := Except.ok.inj (replaced.symm.trans replaced')
      obtain rfl := Option.some.inj (parsed.symm.trans parsed')
      exact ⟨overridden, usable⟩
    · rintro ⟨overridden, usable⟩
      exact ⟨read, file, replaced, parsed, overridden, usable⟩

namespace Sample

/-- A text with a chain, an endpoint and a key that no check would pass. -/
def staleText : String :=
  "[network]\nchain_id=0\nrpc_url=\"ftp://node\"\n[relayer]\nprivate_key=\"old\"\n" ++
    "[logging]\nlevel=\"debug\"\n"

def staleConfiguration : Configuration where
  network := { chain := ⟨0⟩, endpoint := "ftp://node" }
  relayer := some ⟨"old"⟩
  logging := { level := "debug" }

/-- A text that has only the settings which have to be there. -/
def shortText : String :=
  "[network]\nchain_id=1\nrpc_url=\"\"\n[logging]\nlevel=\"debug\"\n"

def shortConfiguration : Configuration where
  network := { chain := .ethereum, endpoint := "" }
  logging := { level := "debug" }

def key : String :=
  "abababababababababababababababababababababababababababababababab"

/-- Variables for all settings but the log level. -/
def overrides : Environment where
  bindings := [("RPC_URL", "http://node"), ("CHAIN_ID", "10"), ("PRIVATE_KEY", key)]

def overriddenConfiguration : Configuration where
  network := { chain := .optimism, endpoint := "http://node" }
  relayer := some ⟨key⟩
  logging := { level := "debug" }

end Sample

/-- Settings that would be refused do not matter once they are overridden. -/
theorem stale_settings_without_influence :
    AgreesApart Sample.overrides "" Sample.staleConfiguration Sample.shortConfiguration ∧
      ofText Sample.overrides "" Sample.staleText = ofText Sample.overrides "" Sample.shortText ∧
      ofText Sample.overrides "" Sample.staleText = .ok Sample.overriddenConfiguration := by
  obtain ⟨alike, loads⟩ := overridden_settings_without_influence Sample.overrides ""
  have agree : AgreesApart Sample.overrides "" Sample.staleConfiguration Sample.shortConfiguration :=
    ⟨nofun, nofun, fun _ => rfl, nofun, rfl, rfl⟩
  have replaced : substituted Sample.overrides Sample.staleText = .ok Sample.staleText := by
    decide +kernel
  have parsed : parse? Sample.staleText = some Sample.staleConfiguration := by decide +kernel
  refine ⟨agree, ?_, ?_⟩
  · exact alike _ Sample.shortText _ Sample.shortText _ Sample.shortConfiguration replaced parsed
      (by decide +kernel) (by decide +kernel) agree
  · have overridden : Overridden Sample.overrides "" Sample.staleConfiguration
        Sample.overriddenConfiguration := override_eq_ok_iff.mp (by decide +kernel)
    exact (loads _ _ _ replaced parsed _).mpr ⟨overridden, by decide +kernel⟩

end MetaTransaction.Configuration
