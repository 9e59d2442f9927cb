import SplitHello.Dns.Service
import SplitHello.Library.Regular

/-!
# The Worker's `/resolve`

The Worker looks a name up in both address families at a public resolver and answers
with one JSON object. What it makes of the resolver's two answers is modelled here;
the text of the object is not, and `Delivered` says what the client has to read in
it.

A name is checked against a pattern first. The client sends every name that
`isResolvableHost` accepts, which looks at single bytes only; the pattern also has a
rule about the two ends and the length of every label.
-/

namespace SplitHello

namespace Worker

open ByteString Regular Dns

def maxHostnameLength : ℕ := 253
def minTtl : ℤ := 60
def maxTtl : ℤ := 3600

/-! ## Host names -/

/-- A range of a character class. -/
def range (low high : UInt8) : List UInt8 :=
  (List.range (high.toNat + 1 - low.toNat)).map fun i => UInt8.ofNat (low.toNat + i)

/-- The class `[a-z0-9]`. The pattern has the flag `i`, so upper case is in it too. -/
def alphanumeric : List UInt8 := range 97 122 ++ range 65 90 ++ range 48 57

/-- One label: `[a-z0-9]([a-z0-9-]{0,61}[a-z0-9])?`. -/
def labelPattern : RegularExpression UInt8 :=
  oneOf alphanumeric * (1 + upTo 61 (oneOf (alphanumeric ++ [45])) * oneOf alphanumeric)

def hostnamePattern : RegularExpression UInt8 :=
  separated 46 labelPattern * (1 + RegularExpression.char 46)

def isValidHostname (hostname : Bytes) : Bool :=
  0 < hostname.length && hostname.length ≤ maxHostnameLength && hostnamePattern.rmatch hostname

/-! ## Lookups -/

/-- The two families a name is looked up in. -/
inductive RecordType
  | a
  | aaaa
  deriving DecidableEq, Repr

def RecordType.wanted : RecordType → ℤ
  | .a => 1
  | .aaaa => 28

def RecordType.family : RecordType → ℕ
  | .a => 4
  | .aaaa => 6

/-- An entry of `Answer`. A member of another JSON type than the one that is read is
`none`. -/
structure DohRecord where
  type : Option ℤ
  data : Option Bytes
  ttl : Option ℤ
  deriving DecidableEq, Repr

/-- The upstream answer. `Answer` may not be an array, and an entry may be `null`. -/
structure DohPayload where
  status : Option ℤ
  answer : Option (List (Option DohRecord))
  deriving DecidableEq, Repr

/-- What `fetch` returns; the body may not be a JSON object. -/
structure DohResponse where
  ok : Bool
  payload : Option DohPayload
  deriving DecidableEq, Repr

structure FamilyLookup where
  addresses : List Bytes := []
  ttl : ℤ := 0
  status : ℤ
  errored : Bool
  deriving DecidableEq, Repr

def failedLookup : FamilyLookup := { status := 2, errored := true }

section

variable (isPublicAddress : Bytes → ℕ → Bool)

/-- One family's lookup. `fetch` may throw, and so does reading a member of `null`. -/
def queryDoh (recordType : RecordType) (upstream : Option DohResponse) : FamilyLookup :=
  match upstream with
  | none => failedLookup
  | some response =>
      if !response.ok then failedLookup
      else
        match response.payload with
        | none => failedLookup
        | some payload =>
            let status := payload.status.getD 0
            if status = 2 then failedLookup
            else
              match payload.answer with
              | none => { status, errored := false }
              | some entries =>
                  if entries.any Option.isNone then failedLookup
                  else
                    let answers := (entries.filterMap id).filter fun entry =>
                      entry.type = some recordType.wanted
                    let addresses := (answers.filterMap DohRecord.data).filter fun address =>
                      isPublicAddress address recordType.family
                    let ttls := answers.filterMap DohRecord.ttl
                    { addresses, ttl := ttls.min?.getD 0, status, errored := false }

structure Resolved where
  a : List Bytes
  aaaa : List Bytes
  ttl : ℤ
  rcode : ℤ
  partly : Bool
  failed : Bool
  deriving DecidableEq, Repr

/-- What the two lookups of a name say together. -/
def resolveHost (v4 v6 : FamilyLookup) : Resolved :=
  let ttls := [v4.ttl, v6.ttl].filter fun ttl => 0 < ttl
  let ttl := ttls.min?.getD minTtl
  let hasAddresses := !v4.addresses.isEmpty || !v6.addresses.isEmpty
  let failed := v4.errored && v6.errored
  -- A family that errored says nothing about the name.
  let rcode :=
    if hasAddresses then 0
    else if failed then 2
    else if v4.errored then v6.status
    else v4.status
  { a := v4.addresses
    aaaa := v6.addresses
    ttl := max minTtl (min maxTtl ttl)
    rcode
    partly := v4.errored != v6.errored
    failed }

/-- The JSON object the Worker answers with. -/
inductive Reply
  | error (status : ℕ) (message : String) (host : Option Bytes)
  | found (host : Bytes) (a aaaa : List Bytes) (ttl rcode : ℤ) (partly : Bool)
  deriving DecidableEq, Repr

def Reply.status : Reply → ℕ
  | .error status _ _ => status
  | .found .. => 200

def handleResolve (hostname : Option Bytes) (a aaaa : Option DohResponse) : Reply :=
  match hostname with
  | none => .error 400 "invalid host" none
  | some hostname =>
      if !isValidHostname hostname then .error 400 "invalid host" none
      else
        let result := resolveHost (queryDoh isPublicAddress .a a)
          (queryDoh isPublicAddress .aaaa aaaa)
        if result.failed then .error 502 "upstream unavailable" (some hostname)
        else .found hostname result.a result.aaaa result.ttl result.rcode result.partly

end

/-- The client reads in the response what the Worker put into it. -/
def Delivered (reply : Reply) (response : HttpResponse) : Prop :=
  response.status = reply.status ∧
    match reply with
    | .error .. => True
    | .found _ a aaaa ttl rcode partly =>
        Json.getStringArray response.body (ofString "a") = a ∧
          Json.getStringArray response.body (ofString "aaaa") = aaaa ∧
          Json.getString response.body (ofString "ip") = [] ∧
          Json.getInt response.body (ofString "ttl") minTtlSeconds = ttl ∧
          Json.getInt response.body (ofString "rcode") (-1) = rcode ∧
          Json.getBool response.body (ofString "partial") = partly

/-! ## Which names the pattern takes -/

/-- What the pattern asks of a label beyond its letters. -/
def LabelFits (label : Bytes) : Prop :=
  label ≠ [] ∧ label.length ≤ 63 ∧ label.head? ≠ some 45 ∧ label.getLast? ≠ some 45

instance (label : Bytes) : Decidable (LabelFits label) :=
  inferInstanceAs (Decidable (_ ∧ _ ∧ _ ∧ _))

theorem mem_range {low high c : UInt8} : c ∈ range low high ↔ low ≤ c ∧ c ≤ high := by
  rw [range, List.mem_map]
  constructor
  · rintro ⟨i, hi, rfl⟩
    have hi := List.mem_range.1 hi
    have hhigh := high.toNat_lt
    rw [UInt8.le_iff_toNat_le, UInt8.le_iff_toNat_le, UInt8.toNat_ofNat',
      Nat.mod_eq_of_lt (by omega)]
    omega
  · rintro ⟨hlow, hhigh⟩
    rw [UInt8.le_iff_toNat_le] at hlow hhigh
    refine ⟨c.toNat - low.toNat, List.mem_range.2 (by omega), ?_⟩
    rw [Nat.add_sub_cancel' hlow]
    exact UInt8.ofNat_toNat

/-- The letters of a host name are those of the pattern. -/
theorem mem_alphanumeric_of_isHostByte {c : UInt8} (h : isHostByte c = true) (hdot : c ≠ 46) :
    c ∈ alphanumeric ∨ c = 45 := by
  simp only [isHostByte, Bool.or_eq_true, Bool.and_eq_true, decide_eq_true_eq] at h
  simp only [alphanumeric, List.mem_append, mem_range]
  rcases h with ((h | h) | h) | h
  · exact Or.inl (Or.inl (Or.inl h))
  · exact Or.inl (Or.inr h)
  · exact Or.inr h
  · exact absurd h hdot

theorem hyphen_notMem_alphanumeric : (45 : UInt8) ∉ alphanumeric := by decide

theorem dot_notMem_letters : (46 : UInt8) ∉ alphanumeric ++ [45] := by decide

theorem mem_labelPattern {w : Bytes} (hletters : ∀ c ∈ w, c ∈ alphanumeric ++ [45]) :
    w ∈ labelPattern.matches' ↔ LabelFits w := by
  have hedge : ∀ c ∈ w, c ∈ alphanumeric ↔ c ≠ 45 := by
    intro c hc
    constructor
    · rintro hmem rfl
      exact hyphen_notMem_alphanumeric hmem
    · intro hne
      exact (List.mem_append.1 (hletters c hc)).resolve_right fun h => hne (List.mem_singleton.1 h)
  rw [labelPattern, RegularExpression.matches'_mul, RegularExpression.matches'_add,
    RegularExpression.matches'_mul, Language.mem_mul]
  constructor
  · rintro ⟨x, hx, y, hy, rfl⟩
    obtain ⟨a, ha, rfl⟩ := mem_oneOf.1 hx
    have hfirst := (hedge a (by simp)).1 ha
    rcases (Language.mem_add _ _ _).1 hy with hy | hy
    · rw [(Language.mem_one y).1 hy]
      exact ⟨by simp, by simp, by simpa using hfirst, by simpa using hfirst⟩
    · obtain ⟨v, hv, z, hz, rfl⟩ := Language.mem_mul.1 hy
      obtain ⟨b, hb, rfl⟩ := mem_oneOf.1 hz
      have hlast := (hedge b (by simp)).1 hb
      have hlength := (mem_upTo_oneOf.1 hv).1
      have hends : ([a] ++ (v ++ [b])).getLast? = some b := by
        rw [← List.append_assoc, List.getLast?_concat]
      refine ⟨by simp, by simp; omega, by simpa using hfirst, ?_⟩
      rw [hends]
      simpa using hlast
  · rintro ⟨hne, hlength, hfirst, hlast⟩
    obtain ⟨a, t, rfl⟩ := List.exists_cons_of_ne_nil hne
    refine ⟨[a], mem_oneOf.2 ⟨a, (hedge a (by simp)).2 (by simpa using hfirst), rfl⟩, t, ?_, rfl⟩
    rcases List.eq_nil_or_concat t with rfl | ⟨v, b, rfl⟩
    · exact Or.inl rfl
    · rw [List.concat_eq_append] at hlength hlast hletters hedge ⊢
      have hends : (a :: (v ++ [b])).getLast? = some b := by
        rw [← List.cons_append, List.getLast?_concat]
      rw [hends] at hlast
      refine Or.inr (Language.mem_mul.2 ⟨v, mem_upTo_oneOf.2 ⟨?_, ?_⟩, [b], mem_oneOf.2 ?_, rfl⟩)
      · simp at hlength
        omega
      · intro c hc
        exact hletters c (by simp [hc])
      · exact ⟨b, (hedge b (by simp)).2 (by simpa using hlast), rfl⟩

theorem dot_notMem_of_mem_labelPattern {w : Bytes} (h : w ∈ labelPattern.matches') :
    (46 : UInt8) ∉ w := by
  rw [labelPattern, RegularExpression.matches'_mul, RegularExpression.matches'_add,
    RegularExpression.matches'_mul, Language.mem_mul] at h
  obtain ⟨x, hx, y, hy, rfl⟩ := h
  obtain ⟨a, ha, rfl⟩ := mem_oneOf.1 hx
  have hletter : ∀ c ∈ alphanumeric, c ≠ 46 := by
    rintro c hc rfl
    exact dot_notMem_letters (List.mem_append_left _ hc)
  intro hmem
  rcases List.mem_append.1 hmem with hmem | hmem
  · exact hletter a ha (List.mem_singleton.1 hmem).symm
  · rcases (Language.mem_add _ _ _).1 hy with hy | hy
    · rw [(Language.mem_one y).1 hy] at hmem
      cases hmem
    · obtain ⟨v, hv, z, hz, rfl⟩ := Language.mem_mul.1 hy
      obtain ⟨b, hb, rfl⟩ := mem_oneOf.1 hz
      rcases List.mem_append.1 hmem with hmem | hmem
      · exact dot_notMem_letters ((mem_upTo_oneOf.1 hv).2 46 hmem)
      · exact hletter b hb (List.mem_singleton.1 hmem).symm

/-- Without a dot at the end the pattern is the list of labels. -/
theorem mem_hostnamePattern {w : Bytes} (hend : w.getLast? ≠ some 46) :
    w ∈ hostnamePattern.matches' ↔ w ∈ (separated 46 labelPattern).matches' := by
  rw [hostnamePattern, RegularExpression.matches'_mul, RegularExpression.matches'_add,
    Language.mem_mul]
  constructor
  · rintro ⟨x, hx, y, hy, rfl⟩
    rcases (Language.mem_add _ _ _).1 hy with hy | hy
    · rw [(Language.mem_one y).1 hy, List.append_nil]
      exact hx
    · rw [Set.mem_singleton_iff.1 hy, List.getLast?_concat] at hend
      exact absurd rfl hend
  · intro hw
    exact ⟨w, hw, [], Or.inl rfl, List.append_nil w⟩

theorem getLast?_lowercase_ne (host : Bytes) : (lowercase host).getLast? ≠ some 46 := by
  rw [lowercase, List.getLast?_reverse]
  intro hdot
  have hfirst := List.head?_dropWhile_not (fun c : UInt8 => decide (c = 46)) (lower host).reverse
  rw [hdot] at hfirst
  simp at hfirst

/-- The Worker takes a name of the client exactly when every label fits. -/
theorem isValidHostname_lowercase {host : Bytes}
    (h : isResolvableHost (lowercase host) = true) :
    isValidHostname (lowercase host) = true ↔
      ∀ label ∈ (lowercase host).splitOn 46, LabelFits label := by
  rw [isResolvableHost] at h
  simp only [Bool.and_eq_true, Bool.not_eq_true', decide_eq_true_eq, List.all_eq_true] at h
  obtain ⟨⟨hne, hlength⟩, hbytes⟩ := h
  have hpos : 0 < (lowercase host).length :=
    List.length_pos_iff.2 (by simpa using hne)
  have hmax : (lowercase host).length ≤ maxHostnameLength := hlength
  have hlabels : ∀ label ∈ (lowercase host).splitOn 46,
      (label ∈ labelPattern.matches' ↔ LabelFits label) := by
    intro label hlabel
    refine mem_labelPattern fun c hc => ?_
    obtain ⟨hmem, hdot⟩ := mem_of_mem_splitOn hlabel hc
    rcases mem_alphanumeric_of_isHostByte (hbytes c hmem) hdot with hc | hc
    · exact List.mem_append_left _ hc
    · exact List.mem_append_right _ (List.mem_singleton.2 hc)
  rw [isValidHostname, decide_eq_true hpos, decide_eq_true hmax, Bool.and_true, Bool.true_and,
    RegularExpression.rmatch_iff_matches', mem_hostnamePattern (getLast?_lowercase_ne host),
    mem_separated fun _ => dot_notMem_of_mem_labelPattern]
  exact forall₂_congr hlabels

theorem handleResolve_status_of_invalid (isPublicAddress : Bytes → ℕ → Bool) {hostname : Bytes}
    (h : isValidHostname hostname = false) (a aaaa : Option DohResponse) :
    (handleResolve isPublicAddress (some hostname) a aaaa).status = 400 := by
  rw [handleResolve, h]
  rfl

theorem handleResolve_of_valid (isPublicAddress : Bytes → ℕ → Bool) {hostname : Bytes}
    (h : isValidHostname hostname = true) (a aaaa : Option DohResponse) :
    handleResolve isPublicAddress (some hostname) a aaaa =
      let result := resolveHost (queryDoh isPublicAddress .a a)
        (queryDoh isPublicAddress .aaaa aaaa)
      if result.failed then .error 502 "upstream unavailable" (some hostname)
      else .found hostname result.a result.aaaa result.ttl result.rcode result.partly := by
  rw [handleResolve, h]
  rfl

theorem handleResolve_status_of_valid (isPublicAddress : Bytes → ℕ → Bool) {hostname : Bytes}
    (h : isValidHostname hostname = true) (a aaaa : Option DohResponse) :
    (handleResolve isPublicAddress (some hostname) a aaaa).status ≠ 400 := by
  rw [handleResolve_of_valid isPublicAddress h]
  dsimp only
  split <;> simp [Reply.status]

/-- A name the client sends is taken by the Worker, and no answer to it is a refusal,
exactly when all its labels fit. -/
theorem resolve_takes_name_iff (isPublicAddress : Bytes → ℕ → Bool) (host : Bytes)
    (h : isResolvableHost (lowercase host) = true) :
    (isValidHostname (lowercase host) = true ∧
      ∀ a aaaa response,
        Delivered (handleResolve isPublicAddress (some (lowercase host)) a aaaa) response →
          response.status ≠ 400) ↔
      ∀ label ∈ (lowercase host).splitOn 46, LabelFits label := by
  rw [← isValidHostname_lowercase h]
  constructor
  · exact fun hvalid => hvalid.1
  · intro hvalid
    refine ⟨hvalid, ?_⟩
    intro a aaaa response hdelivered hrefused
    refine handleResolve_status_of_valid isPublicAddress hvalid a aaaa ?_
    rw [hdelivered.1] at hrefused
    exact_mod_cast hrefused

theorem resolve_takes_www_example_com :
    isResolvableHost (lowercase (ofString "www.Example.com.")) = true ∧
      isValidHostname (lowercase (ofString "www.Example.com.")) = true := by
  have hhost : isResolvableHost (lowercase (ofString "www.Example.com.")) = true := by decide
  have hlabels : ∀ label ∈ (lowercase (ofString "www.Example.com.")).splitOn 46,
      LabelFits label := by
    decide
  exact ⟨hhost, ((resolve_takes_name_iff (fun _ _ => true) _ hhost).2 hlabels).1⟩

/-- A label with a hyphen at its end is sent, refused, and answered with SERVFAIL. The
same name could have been relayed. -/
theorem hyphen_label_refused :
    isResolvableHost (lowercase (ofString "cdn-.example.com")) = true ∧
      isValidHostname (lowercase (ofString "cdn-.example.com")) = false ∧
      (handleResolve (fun _ _ => true) (some (lowercase (ofString "cdn-.example.com")))
        none none).status = 400 ∧
      answer noLiterals { name := ofString "cdn-.example.com", type := typeA }
          (readAnswer noLiterals { status := 400 }) =
        finish noLiterals { name := ofString "cdn-.example.com", type := typeA } [] := by
  have hhost : isResolvableHost (lowercase (ofString "cdn-.example.com")) = true := by decide
  have hinvalid : isValidHostname (lowercase (ofString "cdn-.example.com")) = false := by
    rw [Bool.eq_false_iff, Ne, isValidHostname_lowercase hhost]
    decide
  exact ⟨hhost, hinvalid, handleResolve_status_of_invalid _ hinvalid none none, rfl⟩

end Worker

end SplitHello
