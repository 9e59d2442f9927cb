import SplitHello.Process.Rules
import SplitHello.Library.History
import SplitHello.Library.KeyedTable

/-!
# The process filter

A decision about a four-tuple is made once, from the image of the process that owns
it, and kept for as long as packets of the tuple keep arriving. The table of
decisions and the table of image names are modelled with their lifetimes and with
everything that leaves them; what the system says about owners and images comes in
with every call as its `Moment`.

A decision is found again by the tuple alone. `Watched` remembers beside the filter
which image each decision was taken for, and with that it can be said exactly when a
new connection is judged by its own owner.
-/

namespace SplitHello

namespace Process

open ByteString KeyedTable History

def maximumCachedEndpoints : ℕ := 8192
def tcpCacheTtlMs : ℕ := 10 * 60 * 1000
def udpCacheTtlMs : ℕ := 2 * 60 * 1000
def unknownCacheTtlMs : ℕ := 1000
def processNameTtlMs : ℕ := 30 * 1000
def sweepIntervalMs : ℕ := 1000

inductive Protocol
  | tcp
  | udp
  deriving DecidableEq, Repr

structure Endpoint where
  ipv6 : Bool := false
  protocol : Protocol := .tcp
  localAddress : Bytes
  remoteAddress : Bytes
  localPort : ℕ
  remotePort : ℕ
  deriving DecidableEq, Repr

/-- What the comparison of endpoints looks at: of an IPv4 address the first four bytes
only. -/
def Endpoint.key (endpoint : Endpoint) : Endpoint :=
  let length := if endpoint.ipv6 then 16 else 4
  { endpoint with
    localAddress := endpoint.localAddress.take length
    remoteAddress := endpoint.remoteAddress.take length }

/-- The system at the time of a call: its clock, who owns which connection, and the path
of the program that runs under a process id. A connection has two ports. -/
structure Moment where
  tickMs : ℕ := 0
  owner : Endpoint → Option ℕ
  imagePath : ℕ → Bytes
  owner_ports : ∀ endpoint, endpoint.localPort = 0 ∨ endpoint.remotePort = 0 →
    owner endpoint = none
  endpointBucket : Endpoint → ℕ := fun _ => 0
  processBucket : ℕ → ℕ := fun _ => 0

/-- The image of a process, empty when it cannot be found. -/
def Moment.processImage (moment : Moment) (processId : ℕ) : Bytes :=
  if processId = 0 then []
  else if processId = 4 then ofString "system"
  else normalize (moment.imagePath processId)

structure Decision where
  intercept : Bool
  expiresAtMs : ℕ
  resolved : Bool
  deriving DecidableEq, Repr

structure ProcessName where
  image : Bytes
  expiresAtMs : ℕ
  deriving DecidableEq, Repr

structure Filter where
  rules : Rules
  endpoints : Table Endpoint Decision := ∅
  processNames : Table ℕ ProcessName := ∅
  nextSweepMs : ℕ := 0

def Protocol.ttlMs : Protocol → ℕ
  | .tcp => tcpCacheTtlMs
  | .udp => udpCacheTtlMs

namespace Filter

def fresh (rules : Rules) : Filter := { rules }

/-- The decision about an endpoint that has not expired. -/
def cachedDecision (f : Filter) (endpoint : Endpoint) (now : ℕ) : Option Decision :=
  (f.endpoints.lookup endpoint.key).filter fun d => now < d.expiresAtMs

/-- The name of a process that has not expired. -/
def cachedName (f : Filter) (processId now : ℕ) : Option ProcessName :=
  (f.processNames.lookup processId).filter fun n => now < n.expiresAtMs

/-- Called for a new name: in a full table the expired names go first, and then whichever
name the table starts with. -/
def makeRoomForName (f : Filter) (now : ℕ) (bucket : ℕ → ℕ) : Table ℕ ProcessName :=
  if size f.processNames < maximumCachedEndpoints then f.processNames
  else
    let kept := eraseIf (fun _ n => n.expiresAtMs ≤ now) f.processNames
    if size kept < maximumCachedEndpoints then kept
    else eraseKeys kept (((walk bucket kept).take 1).map Sigma.fst)

def cachedProcessImage (f : Filter) (processId now : ℕ) (moment : Moment) : Bytes × Filter :=
  match f.cachedName processId now with
  | some n => (n.image, f)
  | none =>
      let image := moment.processImage processId
      (image,
        { f with
          processNames := (f.makeRoomForName now moment.processBucket).insert processId
            ⟨image, now + processNameTtlMs⟩ })

/-- The order in which live tuples give way: bypassed ones before intercepted ones, then
the one that would expire first. -/
def evictionOrder (bucket : Endpoint → ℕ) (t : Table Endpoint Decision) : List Endpoint :=
  (t.entries.insertionSort fun a b =>
    toLex (a.2.intercept, toLex (a.2.expiresAtMs, bucket a.1)) ≤
      toLex (b.2.intercept, toLex (b.2.expiresAtMs, bucket b.1))).map Sigma.fst

/-- Drops expired entries, at most one scan a second. -/
def sweep (f : Filter) (now : ℕ) : Filter :=
  if f.nextSweepMs ≤ now then
    { f with
      endpoints := eraseIf (fun _ d => d.expiresAtMs ≤ now) f.endpoints
      nextSweepMs := now + sweepIntervalMs }
  else f

/-- Called with the table full: a sixteenth of the entries goes, unless a scan for expired
ones has made room. -/
def makeRoom (f : Filter) (now : ℕ) (bucket : Endpoint → ℕ) : Filter :=
  if f.nextSweepMs ≤ now ∧ size (f.sweep now).endpoints < maximumCachedEndpoints then f.sweep now
  else
    let evict := max 1 (size (f.sweep now).endpoints / 16)
    { f.sweep now with
      endpoints := eraseKeys (f.sweep now).endpoints
        ((evictionOrder bucket (f.sweep now).endpoints).take evict) }

/-- The image of the process that owns the endpoint, through the table of names. -/
def ownerImage (f : Filter) (endpoint : Endpoint) (now : ℕ) (moment : Moment) :
    Bytes × Filter :=
  match moment.owner endpoint.key with
  | none => ([], f)
  | some processId => f.cachedProcessImage processId now moment

/-- A decision is made and kept. An owner without an image is looked for again soon. -/
def judge (f : Filter) (endpoint : Endpoint) (now : ℕ) (moment : Moment) : Bool × Filter :=
  let (image, f) := f.ownerImage endpoint now moment
  let intercept := image ≠ [] && f.rules.allowsImage image
  let ttl := if image = [] then unknownCacheTtlMs else endpoint.protocol.ttlMs
  let f :=
    if maximumCachedEndpoints ≤ size f.endpoints ∧ endpoint.key ∉ f.endpoints then
      f.makeRoom now moment.endpointBucket
    else f
  (intercept,
    { f with endpoints := f.endpoints.insert endpoint.key ⟨intercept, now + ttl, image ≠ []⟩ })

def shouldIntercept (f : Filter) (endpoint : Endpoint) (outbound newTcpFlow : Bool) (nowMs : ℕ)
    (moment : Moment) : Bool × Filter :=
  if !f.rules.enabled then (true, f)
  else if endpoint.localPort = 0 ∨ endpoint.remotePort = 0 then (false, f)
  else
    let now := if nowMs = 0 then moment.tickMs else nowMs
    match f.cachedDecision endpoint now with
    | some d =>
        -- Traffic keeps a resolved decision alive.
        let expiresAtMs := max d.expiresAtMs (now + endpoint.protocol.ttlMs)
        (d.intercept,
          if d.resolved then
            { f with endpoints := f.endpoints.insert endpoint.key { d with expiresAtMs } }
          else f)
    | none =>
        if !outbound ∨ endpoint.protocol = .tcp ∧ !newTcpFlow then (false, f)
        else f.judge endpoint now moment

def forget (f : Filter) (endpoint : Endpoint) : Filter :=
  { f with endpoints := f.endpoints.erase endpoint.key }

def clear (f : Filter) : Filter := { f with endpoints := ∅, processNames := ∅ }

end Filter

/-- What can happen to a filter. -/
inductive FilterEvent
  | shouldIntercept (endpoint : Endpoint) (outbound newTcpFlow : Bool) (nowMs : ℕ)
      (moment : Moment)
  | forget (endpoint : Endpoint)
  | clear

def Filter.step (f : Filter) : FilterEvent → Filter
  | .shouldIntercept endpoint outbound newTcpFlow nowMs moment =>
      (f.shouldIntercept endpoint outbound newTcpFlow nowMs moment).2
  | .forget endpoint => f.forget endpoint
  | .clear => f.clear

/-! ## What one call does -/

namespace Filter

/-- The clock a call goes by. -/
def clock (nowMs : ℕ) (moment : Moment) : ℕ := if nowMs = 0 then moment.tickMs else nowMs

theorem ownerImage_fields (f : Filter) (endpoint : Endpoint) (now : ℕ) (moment : Moment) :
    (f.ownerImage endpoint now moment).2.rules = f.rules ∧
      (f.ownerImage endpoint now moment).2.endpoints = f.endpoints := by
  rw [ownerImage]
  split
  · exact ⟨rfl, rfl⟩
  · rw [cachedProcessImage]
    split
    · exact ⟨rfl, rfl⟩
    · exact ⟨rfl, rfl⟩

theorem sweep_fields (f : Filter) (now : ℕ) :
    (f.sweep now).rules = f.rules ∧ Shrinks (f.sweep now).endpoints f.endpoints := by
  rw [sweep]
  split
  · exact ⟨rfl, eraseIf_shrinks _ _⟩
  · exact ⟨rfl, Shrinks.refl _⟩

theorem makeRoom_fields (f : Filter) (now : ℕ) (bucket : Endpoint → ℕ) :
    (f.makeRoom now bucket).rules = f.rules ∧
      Shrinks (f.makeRoom now bucket).endpoints f.endpoints := by
  obtain ⟨hrules, hshrinks⟩ := f.sweep_fields now
  rw [makeRoom]
  split
  · exact ⟨hrules, hshrinks⟩
  · exact ⟨hrules, (eraseKeys_shrinks _ _).trans hshrinks⟩

/-- A fresh decision: what it says, and what the table holds behind it. -/
theorem judge_spec (f : Filter) (endpoint : Endpoint) (now : ℕ) (moment : Moment) :
    let image := (f.ownerImage endpoint now moment).1
    let verdict := decide (image ≠ []) && f.rules.allowsImage image
    (f.judge endpoint now moment).1 = verdict ∧
      (f.judge endpoint now moment).2.rules = f.rules ∧
      ∀ key d, (f.judge endpoint now moment).2.endpoints.lookup key = some d →
        key = endpoint.key ∧ d.intercept = verdict ∨
          key ≠ endpoint.key ∧ f.endpoints.lookup key = some d := by
  obtain ⟨hrules, hendpoints⟩ := f.ownerImage_fields endpoint now moment
  dsimp only
  rw [judge]
  set found := f.ownerImage endpoint now moment with hfound
  refine ⟨by rw [← hrules], ?_, ?_⟩
  · dsimp only
    split
    · rw [(makeRoom_fields _ _ _).1, hrules]
    · exact hrules
  · intro key d h
    rcases lookup_insert_cases h with ⟨hkey, hd⟩ | ⟨hne, hold⟩
    · exact Or.inl ⟨hkey, by rw [hd, ← hrules]⟩
    · refine Or.inr ⟨hne, ?_⟩
      rw [← hendpoints]
      split at hold
      · exact (makeRoom_fields _ _ _).2 _ _ hold
      · exact hold

/-- The ways a call can go: its answer and the filter it leaves. -/
inductive Outcome (f : Filter) (endpoint : Endpoint) (outbound newTcpFlow : Bool) (now : ℕ)
    (moment : Moment) : Bool × Filter → Prop
  | unruled (hdisabled : f.rules.enabled = false) :
      Outcome f endpoint outbound newTcpFlow now moment (true, f)
  | portless (henabled : f.rules.enabled = true)
      (hports : endpoint.localPort = 0 ∨ endpoint.remotePort = 0) :
      Outcome f endpoint outbound newTcpFlow now moment (false, f)
  | remembered (d : Decision) (f' : Filter) (henabled : f.rules.enabled = true)
      (hports : ¬ (endpoint.localPort = 0 ∨ endpoint.remotePort = 0))
      (hcached : f.cachedDecision endpoint now = some d)
      (hkept : f' = f ∨ ∃ expiresAtMs, f' =
        { f with endpoints := f.endpoints.insert endpoint.key { d with expiresAtMs } }) :
      Outcome f endpoint outbound newTcpFlow now moment (d.intercept, f')
  | missed (henabled : f.rules.enabled = true)
      (hports : ¬ (endpoint.localPort = 0 ∨ endpoint.remotePort = 0))
      (hcached : f.cachedDecision endpoint now = none)
      (hrefused : outbound = false ∨ endpoint.protocol = .tcp ∧ newTcpFlow = false) :
      Outcome f endpoint outbound newTcpFlow now moment (false, f)
  | judged (henabled : f.rules.enabled = true)
      (hports : ¬ (endpoint.localPort = 0 ∨ endpoint.remotePort = 0))
      (hcached : f.cachedDecision endpoint now = none)
      (hasked : ¬ (outbound = false ∨ endpoint.protocol = .tcp ∧ newTcpFlow = false)) :
      Outcome f endpoint outbound newTcpFlow now moment (f.judge endpoint now moment)

theorem shouldIntercept_outcome (f : Filter) (endpoint : Endpoint) (outbound newTcpFlow : Bool)
    (nowMs : ℕ) (moment : Moment) :
    f.Outcome endpoint outbound newTcpFlow (clock nowMs moment) moment
      (f.shouldIntercept endpoint outbound newTcpFlow nowMs moment) := by
  rw [shouldIntercept, ← clock]
  cases henabled : f.rules.enabled with
  | false => exact .unruled henabled
  | true =>
      dsimp only [Bool.not_true, Bool.false_eq_true, if_false]
      by_cases hports : endpoint.localPort = 0 ∨ endpoint.remotePort = 0
      · rw [if_pos hports]
        exact .portless henabled hports
      · rw [if_neg hports]
        cases hcached : f.cachedDecision endpoint (clock nowMs moment) with
        | some d =>
            refine .remembered d _ henabled hports hcached ?_
            cases hresolved : d.resolved with
            | false => exact Or.inl rfl
            | true => exact Or.inr ⟨_, rfl⟩
        | none =>
            by_cases hrefused : outbound = false ∨ endpoint.protocol = .tcp ∧ newTcpFlow = false
            · have hcall : f.Outcome endpoint outbound newTcpFlow (clock nowMs moment) moment
                  (false, f) := .missed henabled hports hcached hrefused
              simpa [hrefused] using hcall
            · have hcall : f.Outcome endpoint outbound newTcpFlow (clock nowMs moment) moment
                  (f.judge endpoint (clock nowMs moment) moment) :=
                .judged henabled hports hcached hrefused
              simpa [hrefused] using hcall

end Filter

/-! ## The image behind a decision -/

/-- A filter, and for each endpoint the image its last decision was taken for. -/
structure Watched where
  filter : Filter
  images : Endpoint → Bytes := fun _ => []

def Watched.fresh (rules : Rules) : Watched := { filter := Filter.fresh rules }

/-- The call makes a decision. -/
def Filter.Decides (f : Filter) (endpoint : Endpoint) (outbound newTcpFlow : Bool) (now : ℕ) :
    Prop :=
  f.rules.enabled = true ∧ ¬ (endpoint.localPort = 0 ∨ endpoint.remotePort = 0) ∧
    f.cachedDecision endpoint now = none ∧
    ¬ (outbound = false ∨ endpoint.protocol = .tcp ∧ newTcpFlow = false)

instance (f : Filter) (endpoint : Endpoint) (outbound newTcpFlow : Bool) (now : ℕ) :
    Decidable (f.Decides endpoint outbound newTcpFlow now) :=
  inferInstanceAs (Decidable (_ ∧ _ ∧ _ ∧ _))

def Watched.step (w : Watched) (e : FilterEvent) : Watched where
  filter := w.filter.step e
  images :=
    match e with
    | .shouldIntercept endpoint outbound newTcpFlow nowMs moment =>
        if w.filter.Decides endpoint outbound newTcpFlow (Filter.clock nowMs moment) then
          Function.update w.images endpoint.key
            (w.filter.ownerImage endpoint (Filter.clock nowMs moment) moment).1
        else w.images
    | _ => w.images

/-- Watching does not change the filter. -/
theorem watched_filter (w : Watched) (es : List FilterEvent) :
    (run Watched.step w es).filter = run Filter.step w.filter es := by
  induction es generalizing w with
  | nil => rfl
  | cons e es ih => exact ih (w.step e)

/-- Every decision in the table is the verdict on the image it was taken for. -/
structure Watched.Sound (w : Watched) (rules : Rules) : Prop where
  same : w.filter.rules = rules
  entries : ∀ key d, w.filter.endpoints.lookup key = some d →
    rules.enabled = true ∧ ¬ (key.localPort = 0 ∨ key.remotePort = 0) ∧
      d.intercept = rules.intercepts (w.images key)

theorem intercepts_of_enabled {rules : Rules} (h : rules.enabled = true) (image : Bytes) :
    rules.intercepts image = (decide (image ≠ []) && rules.allowsImage image) := by
  rw [Rules.intercepts, h]
  rfl

theorem lookup_of_cachedDecision {f : Filter} {endpoint : Endpoint} {now : ℕ} {d : Decision}
    (h : f.cachedDecision endpoint now = some d) : f.endpoints.lookup endpoint.key = some d :=
  (Option.filter_eq_some_iff.1 h).1

/-- A table that holds no new decision; an old one may live longer. -/
theorem Watched.Sound.of_old {w w' : Watched} {rules : Rules} (h : w.Sound rules)
    (hrules : w'.filter.rules = w.filter.rules) (himages : w'.images = w.images)
    (hold : ∀ key d', w'.filter.endpoints.lookup key = some d' →
      ∃ d, w.filter.endpoints.lookup key = some d ∧ d'.intercept = d.intercept) :
    w'.Sound rules := by
  refine ⟨hrules.trans h.same, ?_⟩
  intro key d' hd'
  obtain ⟨d, hd, hsame⟩ := hold key d' hd'
  rw [hsame, himages]
  exact h.entries key d hd

/-- A new decision is the verdict on the image that was found. -/
theorem Watched.Sound.judge {w w' : Watched} {rules : Rules} (h : w.Sound rules)
    {endpoint : Endpoint} {now : ℕ} {moment : Moment} (henabled : rules.enabled = true)
    (hports : ¬ (endpoint.localPort = 0 ∨ endpoint.remotePort = 0))
    (hfilter : w'.filter = (w.filter.judge endpoint now moment).2)
    (himages : w'.images = Function.update w.images endpoint.key
      (w.filter.ownerImage endpoint now moment).1) : w'.Sound rules := by
  obtain ⟨-, hrules, hlookup⟩ := w.filter.judge_spec endpoint now moment
  rw [← hfilter] at hrules hlookup
  refine ⟨hrules.trans h.same, ?_⟩
  intro key d hd
  rcases hlookup key d hd with ⟨rfl, hverdict⟩ | ⟨hne, hold⟩
  · refine ⟨henabled, hports, ?_⟩
    rw [hverdict, himages, Function.update_self, intercepts_of_enabled henabled, h.same]
  · rw [himages, Function.update_of_ne hne]
    exact h.entries key d hold

theorem Watched.Sound.step {w : Watched} {rules : Rules} (h : w.Sound rules) (e : FilterEvent) :
    (w.step e).Sound rules := by
  cases e with
  | forget endpoint => exact h.of_old rfl rfl fun key d hd => ⟨d, erase_shrinks _ _ key d hd, rfl⟩
  | clear =>
      refine h.of_old rfl rfl fun key d hd => ?_
      have hempty : (∅ : Table Endpoint Decision).lookup key = some d := hd
      rw [AList.lookup_empty] at hempty
      cases hempty
  | shouldIntercept endpoint outbound newTcpFlow nowMs moment =>
      have hcall := w.filter.shouldIntercept_outcome endpoint outbound newTcpFlow nowMs moment
      have hfilter : (w.step (.shouldIntercept endpoint outbound newTcpFlow nowMs moment)).filter =
          (w.filter.shouldIntercept endpoint outbound newTcpFlow nowMs moment).2 := rfl
      generalize w.filter.shouldIntercept endpoint outbound newTcpFlow nowMs moment = call
        at hcall hfilter
      have hstay (hsame : call.2 = w.filter)
          (hnot : ¬ w.filter.Decides endpoint outbound newTcpFlow (Filter.clock nowMs moment)) :
          (w.step (.shouldIntercept endpoint outbound newTcpFlow nowMs moment)).Sound rules := by
        rw [hsame] at hfilter
        exact h.of_old (by rw [hfilter]) (if_neg hnot) fun key d hd => ⟨d, hfilter ▸ hd, rfl⟩
      cases hcall with
      | unruled hdisabled =>
          refine hstay rfl fun hdecides => ?_
          have henabled := hdecides.1
          rw [hdisabled] at henabled
          cases henabled
      | portless henabled hports => exact hstay rfl fun hdecides => hdecides.2.1 hports
      | remembered d f' henabled hports hcached hkept =>
          have hnot : ¬ w.filter.Decides endpoint outbound newTcpFlow
              (Filter.clock nowMs moment) := by
            rintro ⟨-, -, hnone, -⟩
            rw [hcached] at hnone
            cases hnone
          rcases hkept with hsame | ⟨expiresAtMs, hrenewed⟩
          · exact hstay hsame hnot
          · rw [hrenewed] at hfilter
            refine h.of_old (by rw [hfilter]) (if_neg hnot) fun key d' hd' => ?_
            rw [hfilter] at hd'
            rcases lookup_insert_cases hd' with ⟨rfl, rfl⟩ | ⟨-, hd'⟩
            · exact ⟨d, lookup_of_cachedDecision hcached, rfl⟩
            · exact ⟨d', hd', rfl⟩
      | missed henabled hports hcached hrefused =>
          exact hstay rfl fun hdecides => hdecides.2.2.2 hrefused
      | judged henabled hports hcached hasked =>
          have hdecides : w.filter.Decides endpoint outbound newTcpFlow
              (Filter.clock nowMs moment) := ⟨henabled, hports, hcached, hasked⟩
          rw [h.same] at henabled
          exact h.judge henabled hports hfilter (if_pos hdecides)

/-- After any run the table holds only verdicts on the images that were watched. -/
theorem watched_sound (rules : Rules) (es : List FilterEvent) :
    (run Watched.step (Watched.fresh rules) es).Sound rules := by
  refine run_invariant Watched.step _ (fun _ w => w.Sound rules) ?_ ?_ es
  · refine ⟨rfl, fun key d hd => ?_⟩
    have hempty : (∅ : Table Endpoint Decision).lookup key = some d := hd
    rw [AList.lookup_empty] at hempty
    cases hempty
  · exact fun _ w e h => h.step e

/-! ## A new connection -/

/-- The image that owns an endpoint, empty when it has no owner or the owner no image. -/
def Moment.imageOf (moment : Moment) (endpoint : Endpoint) : Bytes :=
  (moment.owner endpoint.key).elim [] moment.processImage

/-- What is remembered about an endpoint and its owner gets the same verdict as the
image that owns the endpoint now. -/
structure UpToDate (rules : Rules) (w : Watched) (endpoint : Endpoint) (now : ℕ)
    (moment : Moment) : Prop where
  decision : ∀ d, w.filter.cachedDecision endpoint now = some d →
    rules.intercepts (w.images endpoint.key) = rules.intercepts (moment.imageOf endpoint)
  name : w.filter.cachedDecision endpoint now = none →
    ∀ processId n, moment.owner endpoint.key = some processId →
      w.filter.cachedName processId now = some n →
        rules.intercepts n.image = rules.intercepts (moment.processImage processId)

/-- The image a decision is made from is the owner's, unless an old name is in the way. -/
theorem ownerImage_verdict (rules : Rules) (f : Filter) (endpoint : Endpoint) (now : ℕ)
    (moment : Moment) :
    rules.intercepts (f.ownerImage endpoint now moment).1 =
        rules.intercepts (moment.imageOf endpoint) ↔
      ∀ processId n, moment.owner endpoint.key = some processId →
        f.cachedName processId now = some n →
          rules.intercepts n.image = rules.intercepts (moment.processImage processId) := by
  rw [Filter.ownerImage, Moment.imageOf]
  cases howner : moment.owner endpoint.key with
  | none => simp
  | some processId =>
      dsimp only
      rw [Filter.cachedProcessImage]
      cases hname : f.cachedName processId now with
      | none =>
          refine ⟨fun _ processId' n hpid hn => ?_, fun _ => rfl⟩
          rw [← Option.some.inj hpid, hname] at hn
          cases hn
      | some n =>
          constructor
          · intro hsame processId' n' hpid hn
            rw [← Option.some.inj hpid] at hn ⊢
            rw [hname] at hn
            rw [← Option.some.inj hn]
            exact hsame
          · exact fun hnames => hnames processId n rfl hname

/-- A SYN is judged by the owner of its endpoint exactly when nothing that is still
remembered speaks for another owner. -/
theorem syn_judged_by_owner_iff (rules : Rules) (es : List FilterEvent) (endpoint : Endpoint)
    (nowMs : ℕ) (moment : Moment) :
    ((run Filter.step (Filter.fresh rules) es).shouldIntercept endpoint true true nowMs moment).1 =
        rules.intercepts (moment.imageOf endpoint) ↔
      UpToDate rules (run Watched.step (Watched.fresh rules) es) endpoint
        (Filter.clock nowMs moment) moment := by
  have hsound := watched_sound rules es
  have hfilter : (run Watched.step (Watched.fresh rules) es).filter =
      run Filter.step (Filter.fresh rules) es := watched_filter (Watched.fresh rules) es
  rw [← hfilter]
  set w := run Watched.step (Watched.fresh rules) es
  have hcall := w.filter.shouldIntercept_outcome endpoint true true nowMs moment
  generalize w.filter.shouldIntercept endpoint true true nowMs moment = call at hcall ⊢
  cases hcall with
  | unruled hdisabled =>
      rw [hsound.same] at hdisabled
      have hall : ∀ image, rules.intercepts image = true := by
        intro image
        rw [Rules.intercepts, hdisabled]
        rfl
      rw [hall]
      exact ⟨fun _ => ⟨fun _ _ => by rw [hall, hall], fun _ _ _ _ _ => by rw [hall, hall]⟩,
        fun _ => rfl⟩
  | portless henabled hports =>
      -- No connection has such an endpoint, and no decision was ever made about one.
      rw [hsound.same] at henabled
      have hnone : w.filter.cachedDecision endpoint (Filter.clock nowMs moment) = none := by
        rw [Option.eq_none_iff_forall_ne_some]
        intro d hd
        exact (hsound.entries _ d (lookup_of_cachedDecision hd)).2.1 hports
      have howner : moment.owner endpoint.key = none := moment.owner_ports endpoint.key hports
      have himage : moment.imageOf endpoint = [] := by rw [Moment.imageOf, howner]; rfl
      rw [himage, intercepts_of_enabled henabled]
      refine ⟨fun _ => ⟨fun d hd => ?_, fun _ processId n hpid => ?_⟩, fun _ => rfl⟩
      · rw [hnone] at hd
        cases hd
      · rw [howner] at hpid
        cases hpid
  | remembered d f' henabled hports hcached hkept =>
      dsimp only
      rw [(hsound.entries _ d (lookup_of_cachedDecision hcached)).2.2]
      constructor
      · intro hsame
        refine ⟨fun _ _ => hsame, fun hnone => ?_⟩
        rw [hcached] at hnone
        cases hnone
      · exact fun hupToDate => hupToDate.decision d hcached
  | missed henabled hports hcached hrefused => simp at hrefused
  | judged henabled hports hcached hasked =>
      have hverdict := (w.filter.judge_spec endpoint (Filter.clock nowMs moment) moment).1
      rw [hsound.same] at henabled hverdict
      rw [← intercepts_of_enabled henabled] at hverdict
      rw [hverdict, ownerImage_verdict]
      constructor
      · intro hnames
        refine ⟨fun d hd => ?_, fun _ => hnames⟩
        rw [hcached] at hd
        cases hd
      · exact fun hupToDate => hupToDate.name hcached

/-- A system in which one process owns the only connection. -/
def onlyOwner (endpoint : Endpoint) (processId : ℕ) (path : Bytes) : Moment where
  owner := fun e =>
    if e = endpoint ∧ ¬ (e.localPort = 0 ∨ e.remotePort = 0) then some processId else none
  imagePath := fun _ => path
  owner_ports := by
    intro e he
    simp [he]

def sampleEndpoint : Endpoint where
  localAddress := [192, 168, 1, 2]
  remoteAddress := [93, 184, 216, 34]
  localPort := 50000
  remotePort := 443

def sampleRules : Rules := Rules.ofLists [] [ofString "bank.exe"]

/-- An excluded program gets the port of a connection that has been closed for a second,
and is intercepted. -/
theorem reused_tuple_intercepted :
    ((run Filter.step (Filter.fresh sampleRules)
        [.shouldIntercept sampleEndpoint true true 1000
          (onlyOwner sampleEndpoint 100 (ofString "C:\\browser.exe"))]).shouldIntercept
        sampleEndpoint true true 2000
        (onlyOwner sampleEndpoint 200 (ofString "C:\\bank.exe"))).1 = true ∧
      sampleRules.intercepts ((onlyOwner sampleEndpoint 200
        (ofString "C:\\bank.exe")).imageOf sampleEndpoint) = false := by
  decide +kernel

end Process

end SplitHello
