import SplitHello.FileUtil
import SplitHello.Json.Object
import Mathlib.Data.List.DropRight

/-!
# The system proxy

Older releases pointed the system's proxy at themselves, and this one still undoes it. The
settings that were there before are kept in memory and in a backup file, which is written before
the registry is touched. What the system makes of the calls is a parameter again.

The three values in the registry are written one after the other, and only the first result is
looked at. A process that dies between two of them leaves settings that are nobody's, which only a
forced restore replaces.
-/

namespace SplitHello

namespace SystemProxy

open ByteString Json Volume FileUtil

/-! ## The registry -/

inductive RegValue
  | sz (data : Bytes)
  | expandSz (data : Bytes)
  | dword (value : UInt32)
  | other
  deriving DecidableEq, Repr

/-- The values under the key of the Internet settings that are used here. -/
structure Registry where
  proxyEnable : Option RegValue := none
  proxyServer : Option RegValue := none
  proxyOverride : Option RegValue := none
  deriving DecidableEq, Repr

/-- Without the terminators, which may or may not be stored. -/
def withoutTerminator (data : Bytes) : Bytes := data.rdropWhile (· = 0)

def regGetString : Option RegValue → Bytes
  | some (.sz data) => withoutTerminator data
  | some (.expandSz data) => withoutTerminator data
  | _ => []

def regGetDword : Option RegValue → UInt32
  | some (.dword value) => value
  | _ => 0

/-- The value behind a write or a deletion, which may fail unnoticed. -/
def regSetOrDelete (done : Bool) (value : Bytes) (old : Option RegValue) : Option RegValue :=
  if !done then old
  else if value = [] then none
  else some (.sz (value ++ [0]))

structure Snapshot where
  enabled : UInt32 := 0
  server : Bytes := []
  bypass : Bytes := []
  ourPort : UInt16 := 0
  deriving DecidableEq, Repr

/-- Which of the calls of an `applySnapshot` do what they are asked to. -/
structure ApplyCalls where
  opened : Bool := true
  enable : Bool := true
  server : Bool := true
  bypass : Bool := true
  deriving DecidableEq, Repr

def reading (registry : Registry) : Snapshot :=
  { enabled := regGetDword registry.proxyEnable
    server := regGetString registry.proxyServer
    bypass := regGetString registry.proxyOverride }

def readCurrent (opened : Bool) (registry : Registry) : Option Snapshot :=
  if opened then some (reading registry) else none

def applySnapshot (calls : ApplyCalls) (registry : Registry) (snapshot : Snapshot) :
    Registry × Bool :=
  if !calls.opened then (registry, false)
  else
    ({ proxyEnable :=
        if calls.enable then some (.dword snapshot.enabled) else registry.proxyEnable
       proxyServer := regSetOrDelete calls.server snapshot.server registry.proxyServer
       proxyOverride := regSetOrDelete calls.bypass snapshot.bypass registry.proxyOverride },
      calls.enable)

/-! ## The backup -/

def bypassList : Bytes := ofString "localhost;127.0.0.1;<local>"

def ourProxyValue (port : UInt16) : Bytes := ofString "https=127.0.0.1:" ++ decimal port.toNat

/-- Older builds wrote the address alone. -/
def pointsAtUs (value : Bytes) (port : UInt16) : Bool :=
  value = ourProxyValue port || value = ofString "127.0.0.1:" ++ decimal port.toNat

def backupMembers (snapshot : Snapshot) : List (Bytes × Bytes) :=
  [(ofString "version", decimal 1), (ofString "our_port", decimal snapshot.ourPort.toNat),
    (ofString "proxy_enable", decimal snapshot.enabled.toNat),
    (ofString "proxy_server", quoted snapshot.server),
    (ofString "proxy_override", quoted snapshot.bypass)]

def backupText (snapshot : Snapshot) : Bytes := objectText (backupMembers snapshot)

/-- The conversion of a number to 32 or 16 bits. -/
def lowBits (bits : ℕ) (n : ℤ) : ℕ := (n % 2 ^ bits).toNat

def parseBackup (content : Bytes) : Snapshot :=
  { enabled := UInt32.ofNat (lowBits 32 (getInt content (ofString "proxy_enable") 0))
    server := getString content (ofString "proxy_server")
    bypass := getString content (ofString "proxy_override")
    ourPort := UInt16.ofNat (lowBits 16 (getInt content (ofString "our_port") 0)) }

/-! ## The proxy -/

/-- The registry, the disk and the variables of the class. -/
structure State where
  registry : Registry := {}
  disk : WideDisk := fun _ => {}
  saved : Bool := false
  snapshot : Snapshot := {}
  backupPath : Bytes := []

structure EnableCalls where
  opened : Bool := true
  write : Calls := {}
  apply : ApplyCalls := {}

structure RestoreCalls where
  read : ReadCalls := {}
  opened : Bool := true
  apply : ApplyCalls := {}
  deleted : Bool := true

def ourSettings (port : UInt16) : Snapshot :=
  { enabled := 1, server := ourProxyValue port, bypass := bypassList }

def isOurs (opened : Bool) (registry : Registry) (port : UInt16) : Bool :=
  match readCurrent opened registry with
  | none => false
  | some current => current.enabled = 1 && pointsAtUs current.server port

section

variable (widen : Bytes → WideString)

def writeBackup (calls : Calls) (path : Bytes) (snapshot : Snapshot) :
    List (Op WideString UInt8) × Bool :=
  if path = [] then ([], false) else writeAtomic widen calls path (backupText snapshot)

def readBackup (calls : ReadCalls) (disk : WideDisk) (path : Bytes) : Option Snapshot :=
  if path = [] then none
  else
    match readAll widen calls disk path [] with
    | (false, _) => none
    | (true, content) => if content = [] then none else some (parseBackup content)

namespace State

def enable (s : State) (port : UInt16) (backupPath : Bytes) (calls : EnableCalls) :
    State × Bool :=
  match readCurrent calls.opened s.registry with
  | none => (s, false)
  | some current =>
      let s :=
        if current.enabled = 1 ∧ pointsAtUs current.server port = true then s
        else if !s.saved then
          let snapshot := { current with ourPort := port }
          { s with
            saved := true
            snapshot
            backupPath
            disk := applyAll (writeBackup widen calls.write backupPath snapshot).1 s.disk }
        else s
      let (registry, applied) := applySnapshot calls.apply s.registry (ourSettings port)
      ({ s with registry }, applied)

def disable (s : State) (calls : ApplyCalls) (deleted : Bool) : State × Bool :=
  if !s.saved then (s, true)
  else
    let (registry, restored) := applySnapshot calls s.registry s.snapshot
    if !restored then ({ s with registry }, false)
    else
      ({ s with
          registry
          disk := applyAll (remove widen deleted s.disk s.backupPath).1 s.disk
          saved := false
          backupPath := [] }, true)

def restoreLeftovers (s : State) (backupPath : Bytes) (force : Bool) (calls : RestoreCalls) :
    State × Bool :=
  match readBackup widen calls.read s.disk backupPath with
  | none => (s, false)
  | some backup =>
      if !force && !isOurs calls.opened s.registry backup.ourPort then (s, false)
      else
        let (registry, restored) := applySnapshot calls.apply s.registry backup
        ({ s with
            registry
            disk :=
              if restored then applyAll (remove widen calls.deleted s.disk backupPath).1 s.disk
              else s.disk }, restored)

/-- What the next process finds. -/
def killed (s : State) : State := { registry := s.registry, disk := s.disk }

end State

end

/-! ## Reading what was written -/

theorem backupMembers_keys (snapshot : Snapshot) :
    ((backupMembers snapshot).map Prod.fst).Nodup := by
  simp only [backupMembers, List.map_cons, List.map_nil]
  decide

theorem backupMembers_pass (snapshot : Snapshot) {key : Bytes} (hkey : IsKey key) :
    ∀ m ∈ backupMembers snapshot, IsKey m.1 ∧ Passes key m.2 := by
  simp only [backupMembers, List.mem_cons, List.not_mem_nil, or_false, forall_eq_or_imp, forall_eq]
  exact ⟨⟨by decide, passes_decimal key _⟩, ⟨by decide, passes_decimal key _⟩,
    ⟨by decide, passes_decimal key _⟩, ⟨by decide, passes_quoted hkey _⟩,
    ⟨by decide, passes_quoted hkey _⟩⟩

theorem parseBackup_backupText (snapshot : Snapshot) :
    parseBackup (backupText snapshot) = snapshot := by
  have hstring : ∀ key value, IsKey key → (key, quoted value) ∈ backupMembers snapshot →
      getString (backupText snapshot) key = value := fun key value hkey hmem =>
    getString_objectText hkey (backupMembers_keys snapshot) (backupMembers_pass snapshot hkey) hmem
  have hint : ∀ (key : Bytes) (n : ℕ), IsKey key → n < 2 ^ 63 →
      (key, decimal n) ∈ backupMembers snapshot →
        getInt (backupText snapshot) key 0 = n := fun key n hkey hn hmem =>
    getInt_objectText hkey (backupMembers_keys snapshot) (backupMembers_pass snapshot hkey) hn
      hmem 0
  have henabled := snapshot.enabled.toNat_lt
  have hport := snapshot.ourPort.toNat_lt
  rw [parseBackup, hstring (ofString "proxy_server") snapshot.server (by decide)
      (by simp [backupMembers]),
    hstring (ofString "proxy_override") snapshot.bypass (by decide) (by simp [backupMembers]),
    hint (ofString "proxy_enable") snapshot.enabled.toNat (by decide) (by omega)
      (by simp [backupMembers]),
    hint (ofString "our_port") snapshot.ourPort.toNat (by decide) (by omega)
      (by simp [backupMembers])]
  have hlow32 : lowBits 32 (snapshot.enabled.toNat : ℤ) = snapshot.enabled.toNat := by
    rw [lowBits]
    omega
  have hlow16 : lowBits 16 (snapshot.ourPort.toNat : ℤ) = snapshot.ourPort.toNat := by
    rw [lowBits]
    omega
  rw [hlow32, hlow16, UInt32.ofNat_toNat, UInt16.ofNat_toNat]

/-- A text that a terminator behind it does not change. -/
def Trimmed (value : Bytes) : Prop := withoutTerminator value = value

theorem withoutTerminator_concat (value : Bytes) :
    withoutTerminator (value ++ [0]) = withoutTerminator value :=
  List.rdropWhile_concat_pos _ _ _ (by simp)

theorem trimmed_withoutTerminator (data : Bytes) : Trimmed (withoutTerminator data) :=
  List.rdropWhile_idempotent _ _

theorem trimmed_regGetString (value : Option RegValue) : Trimmed (regGetString value) := by
  cases value with
  | none => rfl
  | some value =>
      cases value with
      | sz data => exact trimmed_withoutTerminator data
      | expandSz data => exact trimmed_withoutTerminator data
      | dword value => rfl
      | other => rfl

theorem regGetString_regSetOrDelete {value : Bytes} (h : Trimmed value) (old : Option RegValue) :
    regGetString (regSetOrDelete true value old) = value := by
  rw [regSetOrDelete, if_neg (by simp)]
  split
  · rename_i hempty
    rw [hempty]
    rfl
  · exact (withoutTerminator_concat value).trans h

/-- The calls that write all three values or none. -/
def ApplyCalls.Whole (calls : ApplyCalls) : Prop :=
  calls.opened = true → calls.enable = true ∧ calls.server = true ∧ calls.bypass = true

instance (calls : ApplyCalls) : Decidable calls.Whole := inferInstanceAs (Decidable (_ → _))

theorem applySnapshot_whole {calls : ApplyCalls} (h : calls.Whole) (registry : Registry)
    {snapshot : Snapshot} (hserver : Trimmed snapshot.server) (hbypass : Trimmed snapshot.bypass) :
    applySnapshot calls registry snapshot = (registry, false) ∨
      (applySnapshot calls registry snapshot).2 = true ∧
        reading (applySnapshot calls registry snapshot).1 = { snapshot with ourPort := 0 } := by
  rw [applySnapshot]
  cases hopened : calls.opened with
  | false => exact Or.inl rfl
  | true =>
      obtain ⟨henable, hset, hset'⟩ := h hopened
      rw [henable, hset, hset', if_neg (by simp)]
      refine Or.inr ⟨rfl, ?_⟩
      rw [reading]
      dsimp only
      rw [regGetString_regSetOrDelete hserver, regGetString_regSetOrDelete hbypass]
      rfl

theorem trimmed_of_notMem {value : Bytes} (h : (0 : UInt8) ∉ value) : Trimmed value := by
  refine List.rdropWhile_eq_self_iff.2 fun hne hlast => h ?_
  rw [← decide_eq_true_iff.1 hlast]
  exact List.getLast_mem hne

theorem trimmed_ourSettings (port : UInt16) :
    Trimmed (ourSettings port).server ∧ Trimmed (ourSettings port).bypass := by
  have hbypass : (0 : UInt8) ∉ bypassList := by decide
  refine ⟨trimmed_of_notMem fun hmem => ?_, trimmed_of_notMem hbypass⟩
  rcases List.mem_append.1 hmem with hmem | hmem
  · revert hmem
    decide
  · exact notMem_decimal rfl _ hmem

theorem isOurs_of_reading {registry : Registry} {port : UInt16}
    (h : reading registry = { ourSettings port with ourPort := 0 }) :
    isOurs true registry port = true := by
  rw [isOurs, readCurrent, if_pos rfl, h]
  simp [ourSettings, pointsAtUs]

theorem isOurs_opened {opened : Bool} {registry : Registry} {port : UInt16}
    (h : isOurs opened registry port = true) : isOurs true registry port = true := by
  cases opened with
  | true => exact h
  | false => cases h

theorem isOurs_eq (registry : Registry) (port : UInt16) :
    isOurs true registry port = true ↔
      (reading registry).enabled = 1 ∧ pointsAtUs (reading registry).server port = true := by
  rw [isOurs, readCurrent, if_pos rfl, Bool.and_eq_true, decide_eq_true_eq]

/-! ## The user's settings -/

/-- The settings as the backup keeps them. -/
def noted (port : UInt16) (user : Snapshot) : Snapshot := { user with ourPort := port }

/-- Settings that a user may have made: they do not point at the port, and the backup holds
them. -/
structure Usable (port : UInt16) (registry : Registry) : Prop where
  foreign : isOurs true registry port = false
  short : (backupText (noted port (reading registry))).length < 2 ^ 32

/-- What happens on one machine with one port and one backup file. -/
inductive Event
  | enable (calls : EnableCalls)
  | disable (calls : ApplyCalls) (deleted : Bool)
  | restore (calls : RestoreCalls)
  /-- The process dies, or a new one starts. -/
  | killed
  /-- The process dies while it writes the backup, behind so many operations. -/
  | cut (calls : Calls) (k : ℕ)
  | change (registry : Registry)

section

variable (widen : Bytes → WideString) (path : Bytes) (port : UInt16)

def State.step (s : State) : Event → State
  | .enable calls => (s.enable widen port path calls).1
  | .disable calls deleted => (s.disable widen calls deleted).1
  | .restore calls => (s.restoreLeftovers widen path false calls).1
  | .killed => s.killed
  | .cut calls k =>
      if s.saved || isOurs true s.registry port then s.killed
      else
        let ops := (writeBackup widen calls path (noted port (reading s.registry))).1
        { s.killed with disk := applyAll (ops.take k) s.disk }
  | .change registry => { s with registry }

/-- The three values are written together, the backup can be written, what an earlier process
left behind is looked for before anything is saved, and the user leaves the settings alone while
they are ours. -/
def Allowed (s : State) : Event → Prop
  | .enable calls => calls.apply.Whole ∧
      (writeBackup widen calls.write path (noted port (reading s.registry))).2 = true
  | .disable calls _ => calls.Whole
  | .restore calls => s.saved = false ∧ calls.apply.Whole
  | .killed => True
  | .cut _ _ => True
  | .change registry =>
      s.saved = false ∧ isOurs true s.registry port = false ∧ Usable port registry

/-- The settings that the user made last. -/
def Event.user (user : Registry) : Event → Registry
  | .change registry => registry
  | _ => user

inductive Run (first : State) : List Event → State → Prop
  | nil : Run first [] first
  | concat {events : List Event} {event : Event} {s : State} (h : Run first events s)
      (hallowed : Allowed widen path port s event) :
      Run first (events ++ [event]) (s.step widen path port event)

/-- The backup of these settings is on the disk. -/
def Backed (user : Registry) (s : State) : Prop :=
  (s.disk (widen path)).content = some (backupText (noted port (reading user)))

/-- The settings of the user are in place, or ours are and theirs are in the backup. -/
structure Safe (user : Registry) (s : State) : Prop where
  usable : Usable port user
  place : reading s.registry = reading user ∨
    isOurs true s.registry port = true ∧ Backed widen path port user s
  memory : s.saved = true → s.snapshot = noted port (reading user) ∧ s.backupPath = path ∧
    Backed widen path port user s
  stale : ∀ content, (s.disk (widen path)).content = some content →
    ∃ old : Snapshot, content = backupText old ∧ old.ourPort = port

end

section

variable {widen : Bytes → WideString} {path : Bytes} {port : UInt16} {user : Registry} {s : State}

theorem readBackup_cases (calls : ReadCalls) (disk : WideDisk) :
    readBackup widen calls disk path = none ∨
      ∃ content, (disk (widen path)).content = some content ∧
        readBackup widen calls disk path = some (parseBackup content) := by
  rw [readBackup]
  split
  · exact Or.inl rfl
  · cases hread : readAll widen calls disk path [] with
    | mk complete content =>
        cases complete with
        | false => exact Or.inl rfl
        | true =>
            dsimp only
            split
            · exact Or.inl rfl
            · exact Or.inr ⟨content, readAll_eq_true hread, rfl⟩

/-- The text of a backup can be read off again, so the text says whose it is. -/
theorem backupText_injective : Function.Injective backupText := fun a b h => by
  rw [← parseBackup_backupText a, h, parseBackup_backupText]

/-- After a registry has been written. -/
theorem Safe.registry (h : Safe widen path port user s) {registry : Registry}
    (hplace : reading registry = reading user ∨
      isOurs true registry port = true ∧ Backed widen path port user s) :
    Safe widen path port user { s with registry } :=
  ⟨h.usable, hplace, h.memory, h.stale⟩

theorem Safe.backed_of_ours (h : Safe widen path port user s)
    (hours : isOurs true s.registry port = true) : Backed widen path port user s := by
  rcases h.place with hplace | ⟨-, hbacked⟩
  · have hforeign := h.usable.foreign
    rw [← Bool.not_eq_true, isOurs_eq, ← hplace, ← isOurs_eq] at hforeign
    exact absurd hours hforeign
  · exact hbacked

theorem Safe.reading_of_foreign (h : Safe widen path port user s)
    (hforeign : isOurs true s.registry port = false) : reading s.registry = reading user := by
  rcases h.place with hplace | ⟨hours, -⟩
  · exact hplace
  · rw [hforeign] at hours
    cases hours

/-- A process that has nothing in memory. -/
theorem Safe.forget (h : Safe widen path port user s) {t : State}
    (hregistry : t.registry = s.registry) (hdisk : t.disk = s.disk)
    (hsaved : t.saved = false) : Safe widen path port user t := by
  refine ⟨h.usable, ?_, fun hs => ?_, ?_⟩
  · rw [Backed, hregistry, hdisk]
    exact h.place
  · rw [hsaved] at hs
    cases hs
  · rw [hdisk]
    exact h.stale

/-- A backup goes, with the user's settings back in place and nothing in memory. -/
theorem Safe.removed (h : Safe widen path port user s) {s' : State} {deleted : Bool}
    (hplace : reading s'.registry = reading user)
    (hdisk : s'.disk = applyAll (remove widen deleted s.disk path).1 s.disk)
    (hsaved : s'.saved = false) : Safe widen path port user s' := by
  refine ⟨h.usable, Or.inl hplace, fun hs => ?_, fun content hcontent => ?_⟩
  · rw [hsaved] at hs
    cases hs
  · rw [hdisk] at hcontent
    rcases @remove_target widen deleted s.disk path with hsame | hgone
    · rw [hsame] at hcontent
      exact h.stale content hcontent
    · rw [hgone] at hcontent
      cases hcontent

/-- The backup of the settings that are in place is written. -/
theorem Safe.written (h : Safe widen path port user s)
    (hforeign : isOurs true s.registry port = false) {calls : Calls}
    (hok : (writeBackup widen calls path (noted port (reading s.registry))).2 = true) :
    Safe widen path port user
      { s with
        saved := true
        snapshot := noted port (reading s.registry)
        backupPath := path
        disk := applyAll (writeBackup widen calls path (noted port (reading s.registry))).1
          s.disk } := by
  have hreading := h.reading_of_foreign hforeign
  have hpath : path ≠ [] := by
    intro hempty
    rw [writeBackup, if_pos hempty] at hok
    cases hok
  rw [writeBackup, if_neg hpath] at hok
  have hcontent : (applyAll (writeBackup widen calls path (noted port (reading s.registry))).1
      s.disk (widen path)).content = some (backupText (noted port (reading user))) := by
    rw [writeBackup, if_neg hpath, writeAtomic_target, hok, if_pos rfl]
    dsimp only
    rw [hreading, stored_eq_self h.usable.short]
  refine ⟨h.usable, Or.inl hreading, fun _ => ⟨?_, rfl, hcontent⟩, fun content hsome => ?_⟩
  · dsimp only
    rw [hreading]
  · dsimp only at hsome
    rw [hcontent] at hsome
    exact ⟨noted port (reading user), (Option.some.inj hsome).symm, rfl⟩

/-- Ours take the place, once the backup is there. -/
theorem Safe.takeOver (h : Safe widen path port user s) (hbacked : Backed widen path port user s)
    {calls : ApplyCalls} (hwhole : calls.Whole) :
    Safe widen path port user
      { s with registry := (applySnapshot calls s.registry (ourSettings port)).1 } := by
  rcases applySnapshot_whole hwhole s.registry (trimmed_ourSettings port).1
    (trimmed_ourSettings port).2 with hsame | ⟨-, hreading⟩
  · rw [hsame]
    exact h.registry h.place
  · exact h.registry (Or.inr ⟨isOurs_of_reading hreading, hbacked⟩)

theorem Safe.enable (h : Safe widen path port user s) {calls : EnableCalls}
    (hwhole : calls.apply.Whole)
    (hok : (writeBackup widen calls.write path (noted port (reading s.registry))).2 = true) :
    Safe widen path port user (s.enable widen port path calls).1 := by
  rw [State.enable, readCurrent]
  cases calls.opened with
  | false => exact h
  | true =>
      rw [if_pos rfl]
      dsimp only
      rw [if_congr (isOurs_eq s.registry port).symm rfl rfl]
      cases hours : isOurs true s.registry port with
      | true =>
          rw [if_pos rfl]
          exact h.takeOver (h.backed_of_ours hours) hwhole
      | false =>
          rw [if_neg Bool.false_ne_true]
          cases hsaved : s.saved with
          | true =>
              rw [if_neg (by simp)]
              exact h.takeOver (h.memory hsaved).2.2 hwhole
          | false =>
              rw [Bool.not_false, if_pos rfl]
              have hwritten := h.written hours hok
              exact hwritten.takeOver (hwritten.memory rfl).2.2 hwhole

/-- The settings of the user as a snapshot are put back, or nothing is. -/
theorem applySnapshot_noted {calls : ApplyCalls} (hwhole : calls.Whole) (registry : Registry)
    (port : UInt16) (user : Registry) :
    applySnapshot calls registry (noted port (reading user)) = (registry, false) ∨
      (applySnapshot calls registry (noted port (reading user))).2 = true ∧
        reading (applySnapshot calls registry (noted port (reading user))).1 = reading user :=
  applySnapshot_whole hwhole registry (trimmed_regGetString _) (trimmed_regGetString _)

theorem Safe.disable (h : Safe widen path port user s) {calls : ApplyCalls} (deleted : Bool)
    (hwhole : calls.Whole) : Safe widen path port user (s.disable widen calls deleted).1 := by
  rw [State.disable]
  cases hsaved : s.saved with
  | false => exact h
  | true =>
      obtain ⟨hsnapshot, hpath, hbacked⟩ := h.memory hsaved
      rw [if_neg (by simp), hsnapshot, hpath]
      dsimp only
      rcases applySnapshot_noted hwhole s.registry port user with hsame | ⟨hrestored, hreading⟩
      · rw [hsame]
        exact ⟨h.usable, h.place, fun _ => ⟨rfl, rfl, hbacked⟩, h.stale⟩
      · rw [hrestored, if_neg (by simp)]
        exact h.removed hreading rfl rfl

theorem Safe.restore (h : Safe widen path port user s) {calls : RestoreCalls}
    (hsaved : s.saved = false) (hwhole : calls.apply.Whole) :
    Safe widen path port user (s.restoreLeftovers widen path false calls).1 := by
  rw [State.restoreLeftovers]
  rcases @readBackup_cases widen path calls.read s.disk with
    hnone | ⟨content, hcontent, hsome⟩
  · rw [hnone]
    exact h
  · obtain ⟨old, htext, hport⟩ := h.stale content hcontent
    rw [hsome, htext, parseBackup_backupText]
    dsimp only
    rw [hport]
    cases hours : isOurs calls.opened s.registry port with
    | false => exact h
    | true =>
        rw [if_neg (by simp)]
        -- what is on the disk is the backup of the settings that ours replaced
        have hbacked := h.backed_of_ours (isOurs_opened hours)
        rw [Backed, hcontent, htext] at hbacked
        rw [backupText_injective (Option.some.inj hbacked)]
        rcases applySnapshot_noted hwhole s.registry port user with hsame | ⟨hrestored, hreading⟩
        · rw [hsame]
          exact h
        · rw [hrestored, if_pos rfl]
          exact h.removed hreading rfl hsaved

theorem Safe.cut (h : Safe widen path port user s) (calls : Calls) (k : ℕ) :
    Safe widen path port user (s.step widen path port (.cut calls k)) := by
  rw [State.step]
  split
  · exact h.forget rfl rfl rfl
  · rename_i hwrites
    have hforeign : isOurs true s.registry port = false := by
      simp only [Bool.or_eq_true, not_or, Bool.not_eq_true] at hwrites
      exact hwrites.2
    have hreading := h.reading_of_foreign hforeign
    refine ⟨h.usable, Or.inl hreading, fun hs => ?_, fun content hcontent => ?_⟩
    · cases hs
    · dsimp only at hcontent
      rw [writeBackup] at hcontent
      split at hcontent
      · rw [List.take_nil] at hcontent
        exact h.stale content hcontent
      · rcases writeAtomic_take widen calls path (backupText (noted port (reading s.registry))) k
          s.disk (target_ne_temp (widen path)) with hsame | ⟨-, -, hnew⟩
        · rw [hsame] at hcontent
          exact h.stale content hcontent
        · rw [hnew, hreading, stored_eq_self h.usable.short] at hcontent
          exact ⟨noted port (reading user), (Option.some.inj hcontent).symm, rfl⟩

theorem Safe.step (h : Safe widen path port user s) {event : Event}
    (hallowed : Allowed widen path port s event) :
    Safe widen path port (event.user user) (s.step widen path port event) := by
  cases event with
  | enable calls => exact h.enable hallowed.1 hallowed.2
  | disable calls deleted => exact h.disable deleted hallowed
  | restore calls => exact h.restore hallowed.1 hallowed.2
  | killed => exact h.forget rfl rfl rfl
  | cut calls k => exact h.cut calls k
  | change registry =>
      refine ⟨hallowed.2.2, Or.inl rfl, fun hs => ?_, h.stale⟩
      have hs : s.saved = true := hs
      rw [hallowed.1] at hs
      cases hs

/-- A machine without a backup. -/
theorem Safe.first (hfirst : Usable port s.registry) (hsaved : s.saved = false)
    (hdisk : (s.disk (widen path)).content = none) : Safe widen path port s.registry s := by
  refine ⟨hfirst, Or.inl rfl, fun hs => ?_, fun content hcontent => ?_⟩
  · rw [hsaved] at hs
    cases hs
  · rw [hdisk] at hcontent
    cases hcontent

end

end SystemProxy

end SplitHello
