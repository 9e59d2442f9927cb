import SplitHello.Json.Object

/-!
# The configuration file

What `load` makes of a text and the text `save` writes. The two functions that
encrypt and decrypt a secret belong to the operating system; they are parameters
of the model.
-/

namespace SplitHello

open ByteString Json

/-- `worker` resolves names through the Worker, `system` leaves DNS alone. -/
inductive DnsMode
  | worker
  | system
  deriving DecidableEq, Repr

structure Config where
  apiToken : Bytes := []
  accountId : Bytes := []
  workerName : Bytes := ofString "splithello-relay"
  workerUrl : Bytes := []
  sharedSecret : Bytes := []
  dnsMode : DnsMode := .worker
  splitDelayMs : ℕ := 20
  probeTimeoutMs : ℕ := 3000
  tunnelFallback : Bool := false
  processInclude : List Bytes := []
  processExclude : List Bytes := []
  migratedFromPlaintext : Bool := false
  legacyApiTokenPresent : Bool := false
  sharedSecretBlob : Bytes := []
  processIncludeInvalid : Bool := false
  deriving DecidableEq, Repr

namespace Config

/-- A secret as it was read: the plain text, the encrypted value that could not be
decrypted, and whether an old plain-text field was used. -/
structure Secret where
  plaintext : Bytes := []
  keptBlob : Bytes := []
  migrated : Bool := false

def readSecret (unprotect : Bytes → Bytes) (json protectedKey legacyKey : Bytes) : Secret :=
  let blob := getString json protectedKey
  if blob ≠ [] then
    let plaintext := unprotect blob
    { plaintext, keptBlob := if plaintext = [] then blob else [] }
  else
    let legacy := getString json legacyKey
    { plaintext := legacy, migrated := legacy ≠ [] }

/-- A number out of its range reads as the fallback. -/
def readUnsigned (json key : Bytes) (fallback low high : ℕ) : ℕ :=
  let value := getInt json key fallback
  if value < low ∨ value > high then fallback else value.toNat

def maximumRules : ℕ := 128
def maximumRuleLength : ℕ := 1024

/-- A rule the configuration keeps. -/
def usableRule (rule : Bytes) : Bool := rule ≠ [] && rule.length ≤ maximumRuleLength

def readProcessRules (content key : Bytes) : List Bytes :=
  ((getStringArray content key).filter usableRule).take maximumRules

def includeKey : Bytes := ofString "process_include"
def excludeKey : Bytes := ofString "process_exclude"

/-- Reads a text into a configuration; what the text lacks keeps its default. -/
def load (unprotect : Bytes → Bytes) (self : Config) (json : Bytes) : Config :=
  let token := readSecret unprotect json (ofString "api_token_dpapi") (ofString "api_token")
  let secret := readSecret unprotect json (ofString "shared_secret_dpapi")
    (ofString "shared_secret")
  let workerName := getString json (ofString "worker_name")
  let processInclude := readProcessRules json includeKey
  { apiToken := token.plaintext
    accountId := getString json (ofString "account_id")
    workerName := if workerName = [] then ofString "splithello-relay" else workerName
    workerUrl := getString json (ofString "worker_url")
    sharedSecret := secret.plaintext
    dnsMode := if getString json (ofString "dns_mode") = ofString "system" then .system else .worker
    splitDelayMs := readUnsigned json (ofString "split_delay_ms") self.splitDelayMs 0 2000
    probeTimeoutMs := readUnsigned json (ofString "probe_timeout_ms") self.probeTimeoutMs 250 30000
    tunnelFallback := getBool json (ofString "tunnel_fallback")
    processInclude
    processExclude := readProcessRules json excludeKey
    migratedFromPlaintext := self.migratedFromPlaintext || token.migrated || secret.migrated
    legacyApiTokenPresent := getString json (ofString "api_token_dpapi") ≠ [] ||
      getString json (ofString "api_token") ≠ []
    sharedSecretBlob := secret.keptBlob
    -- An include list that came out empty although the file has one is flagged.
    processIncludeInvalid := processInclude.isEmpty && !(getStringArray json includeKey).isEmpty }

/-- The members of the file. A secret that cannot be encrypted is dropped, one that
could not be decrypted is written back as it was. -/
def members (protect : Bytes → Bytes) (config : Config) : List (Bytes × Bytes) :=
  let protectedSecret :=
    if config.sharedSecret = [] then config.sharedSecretBlob else protect config.sharedSecret
  [(ofString "shared_secret_dpapi", quoted protectedSecret),
    (ofString "account_id", quoted config.accountId),
    (ofString "worker_name", quoted config.workerName),
    (ofString "worker_url", quoted config.workerUrl),
    (ofString "dns_mode",
      quoted (if config.dnsMode = .system then ofString "system" else ofString "worker")),
    (ofString "split_delay_ms", decimal config.splitDelayMs),
    (ofString "probe_timeout_ms", decimal config.probeTimeoutMs),
    (ofString "tunnel_fallback",
      if config.tunnelFallback then ofString "true" else ofString "false"),
    (includeKey, stringArrayJson config.processInclude),
    (excludeKey, stringArrayJson config.processExclude)]

/-- The text of the file. -/
def saveText (protect : Bytes → Bytes) (config : Config) : Bytes :=
  objectText (config.members protect)

theorem members_keys (protect : Bytes → Bytes) (config : Config) :
    ((config.members protect).map Prod.fst).Nodup := by
  simp only [members, List.map_cons, List.map_nil]
  decide

/-- No value of the file hides or fakes a key. -/
theorem members_pass (protect : Bytes → Bytes) (config : Config) {key : Bytes}
    (hkey : IsKey key) : ∀ m ∈ config.members protect, IsKey m.1 ∧ Passes key m.2 := by
  have hbool : Passes key
      (if config.tunnelFallback then ofString "true" else ofString "false") := by
    apply passes_of_notMem
    split <;> decide
  simp only [members, List.mem_cons, List.not_mem_nil, or_false, forall_eq_or_imp, forall_eq]
  exact ⟨⟨by decide, passes_quoted hkey _⟩, ⟨by decide, passes_quoted hkey _⟩,
    ⟨by decide, passes_quoted hkey _⟩, ⟨by decide, passes_quoted hkey _⟩,
    ⟨by decide, passes_quoted hkey _⟩, ⟨by decide, passes_decimal key _⟩,
    ⟨by decide, passes_decimal key _⟩, ⟨by decide, hbool⟩,
    ⟨by decide, passes_stringArrayJson hkey _⟩, ⟨by decide, passes_stringArrayJson hkey _⟩⟩

theorem getStringArray_saveText_include (protect : Bytes → Bytes) (config : Config) :
    getStringArray (config.saveText protect) includeKey = config.processInclude :=
  getStringArray_objectText (by decide) (members_keys protect config)
    (members_pass protect config (by decide)) (by simp [members])

theorem getStringArray_saveText_exclude (protect : Bytes → Bytes) (config : Config) :
    getStringArray (config.saveText protect) excludeKey = config.processExclude :=
  getStringArray_objectText (by decide) (members_keys protect config)
    (members_pass protect config (by decide)) (by simp [members])

/-! ## Loading what was saved -/

/-- What the two functions of the system are for: an encrypted secret can be read again. -/
structure Guards (protect unprotect : Bytes → Bytes) : Prop where
  ne_nil : ∀ secret, secret ≠ [] → protect secret ≠ []
  inverts : ∀ secret, secret ≠ [] → unprotect (protect secret) = secret

/-- Process rules that the configuration keeps as they are. -/
def KeptRules (rules : List Bytes) : Prop :=
  rules.length ≤ maximumRules ∧ ∀ rule ∈ rules, 1 ≤ rule.length ∧ rule.length ≤ maximumRuleLength

/-- A configuration within the limits that `load` applies. -/
structure InRange (config : Config) : Prop where
  workerName : config.workerName ≠ []
  splitDelayMs : config.splitDelayMs ≤ 2000
  probeTimeoutMs : 250 ≤ config.probeTimeoutMs ∧ config.probeTimeoutMs ≤ 30000
  processInclude : KeptRules config.processInclude
  processExclude : KeptRules config.processExclude

/-- Two configurations agree in all that the file is for, secrets aside. -/
structure SameSettings (config config' : Config) : Prop where
  accountId : config.accountId = config'.accountId
  workerName : config.workerName = config'.workerName
  workerUrl : config.workerUrl = config'.workerUrl
  dnsMode : config.dnsMode = config'.dnsMode
  splitDelayMs : config.splitDelayMs = config'.splitDelayMs
  probeTimeoutMs : config.probeTimeoutMs = config'.probeTimeoutMs
  tunnelFallback : config.tunnelFallback = config'.tunnelFallback
  processInclude : config.processInclude = config'.processInclude
  processExclude : config.processExclude = config'.processExclude

def secretKey : Bytes := ofString "shared_secret_dpapi"

section

variable (protect unprotect : Bytes → Bytes) (config : Config)

theorem getString_saveText {key value : Bytes} (hkey : IsKey key)
    (hmem : (key, quoted value) ∈ config.members protect) :
    getString (config.saveText protect) key = value :=
  getString_objectText hkey (members_keys protect config) (members_pass protect config hkey) hmem

/-- The secret as an older release wrote it is not in the file. -/
theorem getString_saveText_legacy :
    getString (config.saveText protect) (ofString "shared_secret") = [] := by
  have hkey : IsKey (ofString "shared_secret") := by decide
  have hnot : ofString "shared_secret" ∉ (config.members protect).map Prod.fst := by
    simp only [members, List.map_cons, List.map_nil]
    decide
  rw [getString, saveText, findValue_objectText_eq_none hkey (members_pass protect config hkey)
    fun m hm heq => hnot (List.mem_map.2 ⟨m, hm, heq⟩)]

theorem readUnsigned_saveText {key : Bytes} {n low high : ℕ} (hkey : IsKey key)
    (hmem : (key, decimal n) ∈ config.members protect) (hlow : low ≤ n) (hhigh : n ≤ high)
    (hn : n < 2 ^ 63) (fallback : ℕ) :
    readUnsigned (config.saveText protect) key fallback low high = n := by
  have hvalue := getInt_objectText hkey (members_keys protect config)
    (members_pass protect config hkey) hn hmem fallback
  rw [readUnsigned, saveText, hvalue, if_neg (by omega), Int.toNat_natCast]

theorem getBool_saveText_tunnelFallback :
    getBool (config.saveText protect) (ofString "tunnel_fallback") = config.tunnelFallback :=
  getBool_objectText (by decide) (members_keys protect config)
    (members_pass protect config (by decide)) (by simp [members])

/-- Rules within the limits are read as they were written. -/
theorem take_filter_usableRule {rules : List Bytes} (h : KeptRules rules) :
    (rules.filter usableRule).take maximumRules = rules := by
  have hall : rules.filter usableRule = rules := by
    refine List.filter_eq_self.2 fun rule hrule => ?_
    obtain ⟨hlow, hhigh⟩ := h.2 rule hrule
    have hne : rule ≠ [] := List.ne_nil_of_length_pos hlow
    simp [usableRule, hne, hhigh]
  rw [hall, List.take_of_length_le h.1]

theorem load_saveText_sameSettings (h : config.InRange) (self : Config) :
    SameSettings (load unprotect self (config.saveText protect)) config where
  accountId := getString_saveText protect config (by decide) (by simp [members])
  workerName := by
    have hname : getString (config.saveText protect) (ofString "worker_name") =
        config.workerName := getString_saveText protect config (by decide) (by simp [members])
    rw [load]
    dsimp only
    rw [hname, if_neg h.workerName]
  workerUrl := getString_saveText protect config (by decide) (by simp [members])
  dnsMode := by
    have hmode : getString (config.saveText protect) (ofString "dns_mode") =
        if config.dnsMode = .system then ofString "system" else ofString "worker" :=
      getString_saveText protect config (by decide) (by simp [members])
    rw [load]
    dsimp only
    rw [hmode]
    cases config.dnsMode <;> decide
  splitDelayMs := readUnsigned_saveText protect config (by decide) (by simp [members])
    (Nat.zero_le _) h.splitDelayMs (h.splitDelayMs.trans_lt (by decide)) _
  probeTimeoutMs := readUnsigned_saveText protect config (by decide) (by simp [members])
    h.probeTimeoutMs.1 h.probeTimeoutMs.2 (h.probeTimeoutMs.2.trans_lt (by decide)) _
  tunnelFallback := getBool_saveText_tunnelFallback protect config
  processInclude := by
    rw [load]
    dsimp only
    rw [readProcessRules, getStringArray_saveText_include, take_filter_usableRule h.processInclude]
  processExclude := by
    rw [load]
    dsimp only
    rw [readProcessRules, getStringArray_saveText_exclude, take_filter_usableRule h.processExclude]

theorem getString_saveText_secret : getString (config.saveText protect) secretKey =
    if config.sharedSecret = [] then config.sharedSecretBlob else protect config.sharedSecret :=
  getString_saveText protect config (by decide) (by simp [members, secretKey])

theorem load_sharedSecret (self : Config) (json : Bytes) :
    (load unprotect self json).sharedSecret =
        (readSecret unprotect json secretKey (ofString "shared_secret")).plaintext ∧
      (load unprotect self json).sharedSecretBlob =
        (readSecret unprotect json secretKey (ofString "shared_secret")).keptBlob :=
  ⟨rfl, rfl⟩

theorem load_undecryptable (self : Config) {json : Bytes} (hstored : getString json secretKey ≠ [])
    (hundecryptable : unprotect (getString json secretKey) = []) :
    (load unprotect self json).sharedSecret = [] ∧
      (load unprotect self json).sharedSecretBlob = getString json secretKey := by
  obtain ⟨hsecret, hblob⟩ := load_sharedSecret unprotect self json
  rw [hsecret, hblob, readSecret, if_pos hstored, hundecryptable]
  dsimp only
  exact ⟨rfl, if_pos rfl⟩

theorem load_saveText_unset (hunset : config.sharedSecret = [])
    (hblob : config.sharedSecretBlob = [] ∨ unprotect config.sharedSecretBlob = [])
    (self : Config) :
    (load unprotect self (config.saveText protect)).sharedSecret = [] ∧
      (load unprotect self (config.saveText protect)).sharedSecretBlob =
        config.sharedSecretBlob := by
  have htext : getString (config.saveText protect) secretKey = config.sharedSecretBlob := by
    rw [getString_saveText_secret, if_pos hunset]
  by_cases hnil : config.sharedSecretBlob = []
  · obtain ⟨hsecret, hkept⟩ := load_sharedSecret unprotect self (config.saveText protect)
    rw [hsecret, hkept, readSecret, if_neg (by simp [htext, hnil]), getString_saveText_legacy, hnil]
    exact ⟨rfl, rfl⟩
  · have hundecryptable := hblob.resolve_left hnil
    rw [← htext] at hnil hundecryptable ⊢
    exact load_undecryptable unprotect self hnil hundecryptable

variable {protect unprotect}

theorem load_saveText_set (hguards : Guards protect unprotect) (hset : config.sharedSecret ≠ [])
    (self : Config) :
    (load unprotect self (config.saveText protect)).sharedSecret = config.sharedSecret := by
  have htext : getString (config.saveText protect) secretKey = protect config.sharedSecret := by
    rw [getString_saveText_secret, if_neg hset]
  have hne : getString (config.saveText protect) secretKey ≠ [] := by
    rw [htext]
    exact hguards.ne_nil _ hset
  rw [(load_sharedSecret unprotect self _).1, readSecret, if_pos hne, htext,
    hguards.inverts _ hset]

/-- A configuration that was saved is loaded as it was, whatever its strings hold, and a
secret that could not be decrypted stays in the file as it is. -/
theorem load_saveText (hguards : Guards protect unprotect) (h : config.InRange)
    (self : Config) :
    SameSettings (load unprotect self (config.saveText protect)) config ∧
      (config.sharedSecret ≠ [] →
        (load unprotect self (config.saveText protect)).sharedSecret = config.sharedSecret) ∧
      (config.sharedSecret = [] →
        config.sharedSecretBlob = [] ∨ unprotect config.sharedSecretBlob = [] →
        (load unprotect self (config.saveText protect)).sharedSecret = [] ∧
          (load unprotect self (config.saveText protect)).sharedSecretBlob =
            config.sharedSecretBlob) ∧
      ∀ json, getString json secretKey ≠ [] → unprotect (getString json secretKey) = [] →
        (load unprotect self json).sharedSecret = [] ∧
          ∀ edited : Config, edited.sharedSecret = [] →
            edited.sharedSecretBlob = (load unprotect self json).sharedSecretBlob →
            getString (edited.saveText protect) secretKey = getString json secretKey := by
  refine ⟨load_saveText_sameSettings protect unprotect config h self,
    fun hset => load_saveText_set config hguards hset self,
    fun hunset hblob => load_saveText_unset protect unprotect config hunset hblob self, ?_⟩
  intro json hstored hundecryptable
  obtain ⟨hsecret, hblob⟩ := load_undecryptable unprotect self hstored hundecryptable
  refine ⟨hsecret, fun edited hunset hkept => ?_⟩
  rw [getString_saveText_secret, if_pos hunset, hkept, hblob]

end

/-- A stand-in for the system's encryption: a mark in front, and anything without it
cannot be decrypted. -/
def marked (secret : Bytes) : Bytes := 65 :: secret

def unmarked : Bytes → Bytes
  | 65 :: secret => secret
  | _ => []

/-- Values that look like other members of the file. -/
def awkward : Config where
  accountId := ofString "worker_url\": \"x\", \"split_delay_ms\": 7"
  workerName := ofString "process_include"
  workerUrl := [0, 34, 92, 255, 10]
  sharedSecret := ofString "\"\\s"
  dnsMode := .system
  splitDelayMs := 2000
  probeTimeoutMs := 250
  tunnelFallback := true
  processInclude := [ofString "process_exclude", [91, 93, 34, 44]]

theorem load_saveText_awkward :
    SameSettings (load unmarked {} (awkward.saveText marked)) awkward ∧
      (load unmarked {} (awkward.saveText marked)).sharedSecret = awkward.sharedSecret := by
  have hguards : Guards marked unmarked := ⟨fun _ _ => List.cons_ne_nil _ _, fun _ _ => rfl⟩
  have hrules : KeptRules awkward.processInclude := by
    refine ⟨by decide, fun rule hrule => ?_⟩
    rcases List.mem_cons.1 hrule with rfl | hrule
    · decide
    · rw [List.mem_singleton.1 hrule]
      decide
  have hnone : KeptRules awkward.processExclude := by
    refine ⟨by decide, fun rule hrule => ?_⟩
    cases hrule
  have hrange : awkward.InRange := ⟨by decide, by decide, by decide, hrules, hnone⟩
  obtain ⟨hsame, hset, -⟩ := load_saveText awkward hguards hrange {}
  exact ⟨hsame, hset (by decide)⟩

end Config

end SplitHello
