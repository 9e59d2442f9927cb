import SplitHello.Json.Object

/-!
# Flat objects as anybody may write them

The texts that come back from the Worker and from the Cloudflare API have their members in one
line or in many, with blanks or without. Here an object is written if its text has the right
tokens in the right order, whatever white space is between them. A lookup of a key passes over
the values in front of it, whatever they hold, and each reader gives back what was written.
-/

namespace SplitHello

namespace Json

open ByteString

/-! ## What is written -/

def White (w : Bytes) : Prop := ∀ c ∈ w, isWs c

section

variable {α : Type}

/-- Items with commas between them and white space around the commas. -/
inductive Items (Item : α → Bytes → Prop) : List α → Bytes → Prop
  | last {x : α} {t w : Bytes} (hx : Item x t) (hw : White w) : Items Item [x] (t ++ w)
  | cons {x : α} {xs : List α} {t w w' b : Bytes} (hx : Item x t) (hw : White w) (hw' : White w')
      (hxs : Items Item xs b) : Items Item (x :: xs) (t ++ (w ++ comma :: (w' ++ b)))

/-- What can stand between two brackets. -/
inductive Listed (Item : α → Bytes → Prop) : List α → Bytes → Prop
  | nil {w : Bytes} (hw : White w) : Listed Item [] w
  | items {xs : List α} {w b : Bytes} (hw : White w) (h : Items Item xs b) :
      Listed Item xs (w ++ b)

end

/-- A key, a colon and a value. -/
def Member {α : Type} (ValueText : α → Bytes → Prop) (m : Bytes × α) (text : Bytes) : Prop :=
  ∃ w w' value, White w ∧ White w' ∧ ValueText m.2 value ∧
    text = quoted m.1 ++ (w ++ colon :: (w' ++ value))

def StringText (v text : Bytes) : Prop := text = quoted v

def BracesText {α : Type} (ValueText : α → Bytes → Prop) (members : List (Bytes × α))
    (text : Bytes) : Prop :=
  ∃ b, Listed (Member ValueText) members b ∧ text = 123 :: (b ++ [125])

/-- An object inside another one, of strings, with its text. -/
structure Nested where
  fields : List (Bytes × Bytes)
  text : Bytes
  written : BracesText StringText fields text

/-- `long long` is the type of all integers that are read. -/
inductive Value
  | string (v : Bytes)
  | strings (vs : List Bytes)
  | int (n : Int64)
  | bool (b : Bool)
  | object (nested : Nested)

namespace Value

def Text : Value → Bytes → Prop
  | string v, text => StringText v text
  | strings vs, text => ∃ b, Listed StringText vs b ∧ text = 91 :: (b ++ [93])
  | int n, text =>
      text = if n.toInt < 0 then 45 :: decimal n.toInt.natAbs else decimal n.toInt.natAbs
  | bool b, text => text = if b then ofString "true" else ofString "false"
  | object nested, text => text = nested.text

def IsObject : Value → Prop
  | object _ => True
  | _ => False

/-- The reader of its type gives the value that a key has in a text. -/
def ReadBack (text key : Bytes) : Value → Prop
  | string v => getString text key = v
  | strings vs => getStringArray text key = vs
  | int n => ∀ fallback, getInt text key fallback = n.toInt
  | bool b => getBool text key = b
  | object nested => getRaw text key = nested.text

end Value

/-- Keys of letters and underscores, no two of them the same, and an object only as the last
value. -/
structure FlatObject where
  members : List (Bytes × Value)
  nodup : (members.map Prod.fst).Nodup
  keys : ∀ m ∈ members, ∀ c ∈ m.1, isKeyByte c
  flat : ∀ m ∈ members.dropLast, ¬ m.2.IsObject

def FlatObject.Written (o : FlatObject) (text : Bytes) : Prop :=
  ∃ w w' b, White w ∧ White w' ∧ BracesText Value.Text o.members b ∧ text = w ++ (b ++ w')

/-! ## Writing without white space -/

theorem white_nil : White [] := fun _ h => by cases h

def listText (texts : List Bytes) : Bytes := [comma].intercalate texts

theorem items_listText {α : Type} {Item : α → Bytes → Prop} {f : α → Bytes} (x : α) (xs : List α)
    (h : ∀ y, Item y (f y)) : Items Item (x :: xs) (listText ((x :: xs).map f)) := by
  induction xs generalizing x with
  | nil =>
      have hlast := Items.last (h x) white_nil
      have htext : listText ([x].map f) = f x := by simp [listText, List.intercalate]
      rw [List.append_nil] at hlast
      rw [htext]
      exact hlast
  | cons y ys ih =>
      have hcons := Items.cons (h x) white_nil white_nil (ih y)
      have htext : listText ((x :: y :: ys).map f) =
          f x ++ comma :: listText ((y :: ys).map f) := by
        rw [listText, List.map_cons, List.map_cons, List.intercalate_cons_cons]
        simp [listText]
      rw [htext]
      exact hcons

theorem listed_listText {α : Type} {Item : α → Bytes → Prop} {f : α → Bytes} (xs : List α)
    (h : ∀ y, Item y (f y)) : Listed Item xs (listText (xs.map f)) := by
  cases xs with
  | nil => exact .nil white_nil
  | cons x xs => exact .items white_nil (items_listText x xs h)

def bracesText {α : Type} (valueText : α → Bytes) (members : List (Bytes × α)) : Bytes :=
  123 :: (listText (members.map fun m => quoted m.1 ++ colon :: valueText m.2) ++ [125])

theorem bracesText_written {α : Type} {ValueText : α → Bytes → Prop} {valueText : α → Bytes}
    (h : ∀ x, ValueText x (valueText x)) (members : List (Bytes × α)) :
    BracesText ValueText members (bracesText valueText members) :=
  ⟨_, listed_listText members fun m => ⟨[], [], _, white_nil, white_nil, h m.2, rfl⟩, rfl⟩

theorem stringText_quoted (v : Bytes) : StringText v (quoted v) := rfl

def Nested.compact (fields : List (Bytes × Bytes)) : Nested :=
  ⟨fields, bracesText quoted fields, bracesText_written stringText_quoted fields⟩

def Value.compact : Value → Bytes
  | string v => quoted v
  | strings vs => 91 :: (listText (vs.map quoted) ++ [93])
  | int n => if n.toInt < 0 then 45 :: decimal n.toInt.natAbs else decimal n.toInt.natAbs
  | bool b => if b then ofString "true" else ofString "false"
  | object nested => nested.text

theorem Value.text_compact (value : Value) : value.Text value.compact := by
  cases value with
  | strings vs => exact ⟨_, listed_listText vs stringText_quoted, rfl⟩
  | string v => exact rfl
  | int n => exact rfl
  | bool b => exact rfl
  | object nested => exact rfl

def FlatObject.compact (o : FlatObject) : Bytes := bracesText Value.compact o.members

theorem FlatObject.compact_written (o : FlatObject) : o.Written o.compact :=
  ⟨[], [], _, white_nil, white_nil, bracesText_written Value.text_compact o.members,
    (List.append_nil _).symm⟩

def sampleObject : FlatObject where
  members :=
    [(ofString "host", .string (ofString "\"ttl\":")), (ofString "a", .strings [ofString "host"]),
      (ofString "ttl", .int (-7)), (ofString "ok", .bool true),
      (ofString "result", .object (.compact [(ofString "\x7d", ofString "\"")]))]
  nodup := by decide +kernel
  keys := by decide +kernel
  flat := by simp [Value.IsObject]

/-! ## White space -/

theorem White.notMem {w : Bytes} (h : White w) {c : UInt8} (hc : isWs c = false) : c ∉ w := by
  intro hmem
  have hws := h c hmem
  rw [hc] at hws
  cases hws

theorem skipWs_white {w : Bytes} (hw : White w) {c : UInt8} (hc : isWs c = false) (s : Bytes) :
    skipWs (w ++ c :: s) = c :: s := by
  rw [skipWs_append hw, skipWs, List.dropWhile_cons_of_neg (by rw [hc]; decide)]

theorem findValue_white (key : Bytes) {w : Bytes} (hw : White w) (s : Bytes) :
    findValue key (w ++ s) = findValue key s :=
  findValue_append_of_notMem key (hw.notMem (by decide)) s

/-- What stands behind a value: neither more of it nor of a key, and no colon. -/
structure Break (rest : Bytes) : Prop where
  head : ∀ c, rest.head? = some c → isKeyByte c = false ∧ c ≠ quote ∧ isDigit c = false
  noColon : (skipWs rest).head? ≠ some colon

theorem isWs_break {c : UInt8} (h : isWs c) :
    isKeyByte c = false ∧ c ≠ quote ∧ isDigit c = false := by
  simp only [isWs, Bool.or_eq_true, decide_eq_true_eq] at h
  rcases h with ((rfl | rfl) | rfl) | rfl <;> decide

/-- White space and a comma or a bracket behind it. -/
theorem Break.white {w : Bytes} (hw : White w) {c : UInt8}
    (hc : isKeyByte c = false ∧ c ≠ quote ∧ isDigit c = false) (hws : isWs c = false)
    (hcolon : c ≠ colon) (s : Bytes) : Break (w ++ c :: s) where
  head := by
    intro d hd
    cases w with
    | nil =>
        cases hd
        exact hc
    | cons x w =>
        cases hd
        exact isWs_break (hw d (List.mem_cons_self ..))
  noColon := by
    rw [skipWs_white hw hws]
    intro h
    exact hcolon (Option.some.inj h)

theorem Break.comma {w : Bytes} (hw : White w) (s : Bytes) : Break (w ++ comma :: s) :=
  .white hw (by decide) (by decide) (by decide) s

theorem Break.bracket {w : Bytes} (hw : White w) (s : Bytes) : Break (w ++ 93 :: s) :=
  .white hw (by decide) (by decide) (by decide) s

theorem Break.brace {w : Bytes} (hw : White w) (s : Bytes) : Break (w ++ 125 :: s) :=
  .white hw (by decide) (by decide) (by decide) s

/-! ## Passing over a value -/

def Skips (key text : Bytes) : Prop :=
  ∀ rest, Break rest → findValue key (text ++ rest) = findValue key rest

/-- The needle of the empty key is two quotes, which no literal but the empty one has, and no
colon is behind that one. -/
theorem findValue_nil_guarded {b rest : Bytes} (hb : b.IsChain GuardedQuote) (hrest : Break rest) :
    findValue [] (b ++ quote :: rest) = findValue [] rest := by
  induction b with
  | nil =>
      cases rest with
      | nil => rfl
      | cons c rest =>
          have hne : (quote == c) = false := beq_false_of_ne (Ne.symm (hrest.head c rfl).2.1)
          rw [List.nil_append, findValue]
          simp [List.isPrefixOf?, hne]
  | cons c b ih =>
      have ih := ih hb.tail
      rw [List.cons_append, findValue]
      split
      · exact ih
      · rename_i behind hmatch
        have happ := List.isPrefixOf?_eq_some_iff_append_eq.1 hmatch
        simp only [List.nil_append, List.cons_append, List.cons.injEq] at happ
        obtain ⟨rfl, hbehind⟩ := happ
        cases b with
        | nil =>
            obtain rfl : behind = rest := (List.cons.inj hbehind).2
            split
            · exact ih
            · rename_i d value hskip
              rw [if_neg fun hd => hrest.noColon (by rw [hskip, hd]; rfl), ih]
        | cons x b =>
            have hx : quote = x := (List.cons.inj hbehind).1
            have hguard := (List.isChain_cons.1 hb).1 x rfl hx.symm
            exact absurd hguard (by decide)

section

variable {key : Bytes} (hkey : ∀ c ∈ key, isKeyByte c)

include hkey

theorem quote_notMem_key : quote ∉ key := fun h => by
  cases hkey quote h

/-- A literal is passed over, whatever its content. -/
theorem skips_quoted (v : Bytes) : Skips key (quoted v) := by
  intro rest hrest
  by_cases hempty : key = []
  · rw [hempty, quoted_append]
    exact findValue_nil_guarded (quote_escape_guarded v) hrest
  · refine findValue_quoted ⟨hempty, quote_notMem_key hkey, fun h => ?_⟩ ⟨?_, hrest.noColon⟩ v
    · cases hkey backslash h
    · intro c hc hmem
      have hbyte := hkey c hmem
      rw [(hrest.head c hc).1] at hbyte
      cases hbyte

end

theorem skips_of_notMem (key : Bytes) {text : Bytes} (h : quote ∉ text) : Skips key text :=
  fun rest _ => findValue_append_of_notMem key h rest

/-- Items that are passed over are passed over up to the bracket behind them. -/
theorem Items.skips {α : Type} {key : Bytes} {Item : α → Bytes → Prop} {xs : List α} {b : Bytes}
    (h : Items Item xs b) (hitem : ∀ x t, Item x t → Skips key t) (s : Bytes) :
    findValue key (b ++ 93 :: s) = findValue key s := by
  induction h with
  | @last x t w hx hw =>
      rw [List.append_assoc, hitem x t hx _ (.bracket hw s), findValue_white key hw,
        findValue_cons_of_ne (by decide)]
  | @cons x xs t w w' b hx hw hw' hxs ih =>
      rw [List.append_assoc, List.append_assoc, List.cons_append, List.append_assoc,
        hitem x t hx _ (.comma hw _), findValue_white key hw, findValue_cons_of_ne (by decide),
        findValue_white key hw', ih]

theorem Listed.skips {α : Type} {key : Bytes} {Item : α → Bytes → Prop} {xs : List α} {b : Bytes}
    (h : Listed Item xs b) (hitem : ∀ x t, Item x t → Skips key t) (s : Bytes) :
    findValue key (b ++ 93 :: s) = findValue key s := by
  cases h with
  | nil hw => rw [findValue_white key hw, findValue_cons_of_ne (by decide)]
  | items hw hitems => rw [List.append_assoc, findValue_white key hw, hitems.skips hitem]

theorem quote_notMem_decimal (n : ℕ) : quote ∉ decimal n := notMem_decimal rfl n

/-- A lookup passes over every value but an object. -/
theorem Value.Text.skips {key : Bytes} (hkey : ∀ c ∈ key, isKeyByte c) {value : Value}
    (hflat : ¬ value.IsObject) {text : Bytes} (h : value.Text text) : Skips key text := by
  cases value with
  | string v =>
      obtain rfl : text = quoted v := h
      exact skips_quoted hkey v
  | strings vs =>
      obtain ⟨b, hb, rfl⟩ := h
      intro rest _
      rw [List.cons_append, List.append_assoc, findValue_cons_of_ne (by decide)]
      refine hb.skips ?_ rest
      rintro v t rfl
      exact skips_quoted hkey v
  | int n =>
      obtain rfl : text = _ := h
      refine skips_of_notMem key ?_
      split
      · rw [List.mem_cons, not_or]
        exact ⟨by decide, quote_notMem_decimal _⟩
      · exact quote_notMem_decimal _
  | bool b =>
      obtain rfl : text = _ := h
      refine skips_of_notMem key ?_
      cases b <;> decide
  | object nested => exact absurd trivial hflat

/-! ## Finding a member -/

theorem quoted_key {k : Bytes} (hk : ∀ c ∈ k, isKeyByte c) (s : Bytes) :
    quoted k ++ s = quote :: (k ++ quote :: s) := by
  by_cases hempty : k = []
  · rw [hempty]
    rfl
  · rw [IsKey.quoted ⟨hempty, hk⟩, List.append_assoc]
    rfl

/-- The key that is asked for is found where a colon follows. -/
theorem findValue_member {key w w' : Bytes} (hkey : ∀ c ∈ key, isKeyByte c) (hw : White w)
    (hw' : White w') {c : UInt8} (hc : isWs c = false) (s : Bytes) :
    findValue key (quoted key ++ (w ++ colon :: (w' ++ c :: s))) = some (c :: s) := by
  have hmatch : ∀ behind : Bytes,
      (quote :: key ++ [quote]).isPrefixOf? (quote :: (key ++ quote :: behind)) = some behind := by
    intro behind
    rw [List.isPrefixOf?_eq_some_iff_append_eq]
    simp
  rw [quoted_key hkey, findValue, hmatch]
  dsimp only
  rw [skipWs_white hw (by decide)]
  dsimp only
  rw [if_pos rfl, skipWs_white hw' hc]

/-- Another key is passed over with its colon. -/
theorem findValue_member_of_ne {key k w w' : Bytes} (hkey : ∀ c ∈ key, isKeyByte c)
    (hk : ∀ c ∈ k, isKeyByte c) (hne : k ≠ key) (hw : White w) (hw' : White w') (s : Bytes) :
    findValue key (quoted k ++ (w ++ colon :: (w' ++ s))) = findValue key s := by
  have hquote := quote_notMem_key hkey
  have hquote' := quote_notMem_key hk
  have hcolon : colon ≠ quote := by decide
  have hclose : (quote :: (key ++ [quote])).isPrefixOf? (quote :: (w ++ colon :: (w' ++ s))) =
      none := by
    cases w with
    | nil => exact isPrefixOf?_close hkey (by decide) hcolon _
    | cons x w =>
        obtain ⟨hx, hxquote, -⟩ := isWs_break (hw x (List.mem_cons_self ..))
        exact isPrefixOf?_close hkey hx hxquote _
  rw [quoted_key hk, findValue, List.cons_append, isPrefixOf?_otherKey hquote hquote' hne]
  dsimp only
  rw [findValue_append_of_notMem key hquote', findValue, List.cons_append, hclose]
  dsimp only
  rw [findValue_white key hw, findValue_cons_of_ne hcolon, findValue_white key hw']

/-! ## Finding it among the others -/

theorem Value.Text.head {value : Value} {text : Bytes} (h : value.Text text) :
    ∃ c t, text = c :: t ∧ isWs c = false := by
  cases value with
  | string v =>
      obtain rfl : text = quoted v := h
      exact ⟨quote, escape v ++ [quote], rfl, by decide⟩
  | strings vs =>
      obtain ⟨b, -, rfl⟩ := h
      exact ⟨91, _, rfl, by decide⟩
  | int n =>
      obtain rfl : text = _ := h
      split
      · exact ⟨45, _, rfl, by decide⟩
      · obtain ⟨c, digits, hdecimal, hdigit⟩ := exists_decimal_cons n.toInt.natAbs
        exact ⟨c, digits, hdecimal, isWs_of_isDigit hdigit⟩
  | bool b =>
      obtain rfl : text = _ := h
      cases b
      · exact ⟨102, _, rfl, by decide⟩
      · exact ⟨116, _, rfl, by decide⟩
  | object nested =>
      obtain rfl : text = _ := h
      obtain ⟨b, -, htext⟩ := nested.written
      exact ⟨123, _, htext, by decide⟩

/-- A lookup finds the text that was written for a key, with something behind it that ends it. -/
def Finds (key text : Bytes) (value : Value) : Prop :=
  ∃ t rest, value.Text t ∧ Break rest ∧ findValue key text = some (t ++ rest)

theorem finds_member {key : Bytes} (hkey : ∀ c ∈ key, isKeyByte c) {value : Value} {text : Bytes}
    (h : Member Value.Text (key, value) text) {rest : Bytes} (hrest : Break rest) :
    Finds key (text ++ rest) value := by
  obtain ⟨w, w', t, hw, hw', ht, rfl⟩ := h
  obtain ⟨c, t, rfl, hc⟩ := ht.head
  refine ⟨_, rest, ht, hrest, ?_⟩
  simp only [List.append_assoc, List.cons_append]
  exact findValue_member hkey hw hw' hc (t ++ rest)

theorem skips_member {key : Bytes} (hkey : ∀ c ∈ key, isKeyByte c) {m : Bytes × Value}
    (hk : ∀ c ∈ m.1, isKeyByte c) (hne : m.1 ≠ key) (hflat : ¬ m.2.IsObject) {text : Bytes}
    (h : Member Value.Text m text) : Skips key text := by
  obtain ⟨w, w', t, hw, hw', ht, rfl⟩ := h
  intro rest hrest
  simp only [List.append_assoc, List.cons_append]
  rw [findValue_member_of_ne hkey hk hne hw hw', ht.skips hkey hflat rest hrest]

theorem Items.finds {key : Bytes} (hkey : ∀ c ∈ key, isKeyByte c) {value : Value}
    {members : List (Bytes × Value)} {b : Bytes} (h : Items (Member Value.Text) members b)
    (hnodup : (members.map Prod.fst).Nodup) (hkeys : ∀ m ∈ members, ∀ c ∈ m.1, isKeyByte c)
    (hflat : ∀ m ∈ members.dropLast, ¬ m.2.IsObject) (hmem : (key, value) ∈ members) (s : Bytes) :
    Finds key (b ++ 125 :: s) value := by
  induction h with
  | @last m t w hx hw =>
      obtain rfl : (key, value) = m := List.mem_singleton.1 hmem
      rw [List.append_assoc]
      exact finds_member hkey hx (.brace hw s)
  | @cons m members t w w' b hx hw hw' hxs ih =>
      rw [List.append_assoc, List.append_assoc, List.cons_append, List.append_assoc]
      rw [List.map_cons, List.nodup_cons] at hnodup
      rcases List.mem_cons.1 hmem with rfl | hin
      · exact finds_member hkey hx (.comma hw _)
      · have hne : m.1 ≠ key := by
          rintro heq
          exact hnodup.1 (List.mem_map.2 ⟨_, hin, heq.symm⟩)
        have hdrop : (m :: members).dropLast = m :: members.dropLast :=
          List.dropLast_cons_of_ne_nil (List.ne_nil_of_mem hin)
        rw [hdrop] at hflat
        obtain ⟨hm, hmembers⟩ := List.forall_mem_cons.1 hflat
        obtain ⟨t', rest, ht', hrest, hfind⟩ := ih hnodup.2
          (fun m' hm' => hkeys m' (List.mem_cons_of_mem _ hm')) hmembers hin
        refine ⟨t', rest, ht', hrest, ?_⟩
        rw [skips_member hkey (hkeys m (List.mem_cons_self ..)) hne hm hx _ (.comma hw _),
          findValue_white key hw, findValue_cons_of_ne (by decide), findValue_white key hw', hfind]

theorem Listed.exists_items {α : Type} {Item : α → Bytes → Prop} {xs : List α} {b : Bytes}
    (h : Listed Item xs b) (hne : xs ≠ []) : ∃ w b', White w ∧ Items Item xs b' ∧ b = w ++ b' := by
  cases h with
  | nil => exact absurd rfl hne
  | items hw hitems => exact ⟨_, _, hw, hitems, rfl⟩

/-- In an object as it may be written, every key is found. -/
theorem FlatObject.finds (o : FlatObject) {text : Bytes} (h : o.Written text) {key : Bytes}
    {value : Value} (hmem : (key, value) ∈ o.members) : Finds key text value := by
  obtain ⟨w, w', -, hw, -, ⟨b, hlisted, rfl⟩, rfl⟩ := h
  obtain ⟨w₀, b', hw₀, hitems, rfl⟩ := hlisted.exists_items (List.ne_nil_of_mem hmem)
  obtain ⟨t, rest, ht, hrest, hfind⟩ :=
    hitems.finds (fun c hc => o.keys _ hmem c hc) o.nodup o.keys o.flat hmem w'
  refine ⟨t, rest, ht, hrest, ?_⟩
  simp only [List.cons_append, List.append_assoc, List.nil_append]
  rw [findValue_white key hw, findValue_cons_of_ne (by decide), findValue_white key hw₀]
  exact hfind

/-! ## Reading it -/

theorem arrayLoop_white (fuel : ℕ) {w : Bytes} (hw : White w) (s : Bytes) :
    arrayLoop fuel (w ++ s) = arrayLoop fuel s := by
  cases fuel with
  | zero => rfl
  | succ fuel => rw [arrayLoop, arrayLoop, skipWs_append hw]

theorem arrayLoop_bracket (fuel : ℕ) (s : Bytes) : arrayLoop fuel (93 :: s) = [] := by
  cases fuel <;> rfl

theorem two_le_length_quoted (v : Bytes) : 2 ≤ (quoted v).length := by
  rw [quoted, List.length_append, List.length_cons, List.length_singleton]
  omega

theorem Items.arrayLoop {vs : List Bytes} {b : Bytes} (h : Items StringText vs b) {fuel : ℕ}
    (hfuel : b.length ≤ fuel) (s : Bytes) : Json.arrayLoop fuel (b ++ 93 :: s) = vs := by
  have hfirst : ∀ (fuel : ℕ) (v s : Bytes),
      Json.arrayLoop (fuel + 1) (quoted v ++ s) = v :: Json.arrayLoop fuel s :=
    fun fuel v s => arrayLoop_quoted fuel [] (fun _ hc => by cases hc) v s
  induction h generalizing fuel with
  | @last v t w hx hw =>
      obtain rfl : t = quoted v := hx
      have hlength := two_le_length_quoted v
      rw [List.length_append] at hfuel
      obtain ⟨fuel, rfl⟩ : ∃ n, fuel = n + 1 := ⟨fuel - 1, by omega⟩
      rw [List.append_assoc, hfirst, arrayLoop_white fuel hw, arrayLoop_bracket]
  | @cons v vs t w w' b hx hw hw' hxs ih =>
      obtain rfl : t = quoted v := hx
      have hlength := two_le_length_quoted v
      simp only [List.length_append, List.length_cons] at hfuel
      obtain ⟨fuel, rfl⟩ : ∃ n, fuel = n + 2 := ⟨fuel - 2, by omega⟩
      rw [List.append_assoc, List.append_assoc, List.cons_append, List.append_assoc, hfirst,
        arrayLoop_white _ hw, arrayLoop_comma, arrayLoop_white _ hw', ih (by omega)]

theorem Listed.arrayLoop {vs : List Bytes} {b : Bytes} (h : Listed StringText vs b) {fuel : ℕ}
    (hfuel : b.length ≤ fuel) (s : Bytes) : Json.arrayLoop fuel (b ++ 93 :: s) = vs := by
  cases h with
  | nil hw => rw [arrayLoop_white fuel hw, arrayLoop_bracket]
  | items hw hitems =>
      rw [List.length_append] at hfuel
      rw [List.append_assoc, arrayLoop_white fuel hw, hitems.arrayLoop (by omega)]

/-- The bracket matcher of an object passes over a text. -/
def Carried (text : Bytes) : Prop :=
  ∀ s, rawLoop 123 125 1 false (text ++ s) = text ++ rawLoop 123 125 1 false s

theorem Carried.append {a b : Bytes} (ha : Carried a) (hb : Carried b) : Carried (a ++ b) := by
  intro s
  rw [List.append_assoc, ha, hb, List.append_assoc]

theorem carried_quoted (v : Bytes) : Carried (quoted v) := rawLoop_quoted 123 125 1 v

theorem White.carried {w : Bytes} (h : White w) : Carried w :=
  rawLoop_plain 1
    ⟨h.notMem (by decide), h.notMem (by decide), h.notMem (by decide)⟩

theorem Carried.cons {c : UInt8} (hc : quote ≠ c ∧ 123 ≠ c ∧ 125 ≠ c) {b : Bytes}
    (hb : Carried b) : Carried (c :: b) := by
  have hbyte : Carried [c] :=
    rawLoop_plain 1 (by simp only [List.mem_singleton]; exact hc)
  exact hbyte.append hb

theorem Member.carried {m : Bytes × Bytes} {text : Bytes} (h : Member StringText m text) :
    Carried text := by
  obtain ⟨w, w', value, hw, hw', hvalue, rfl⟩ := h
  obtain rfl : value = quoted m.2 := hvalue
  exact (carried_quoted m.1).append
    (hw.carried.append (.cons (by decide) (hw'.carried.append (carried_quoted m.2))))

theorem Items.carried {fields : List (Bytes × Bytes)} {b : Bytes}
    (h : Items (Member StringText) fields b) : Carried b := by
  induction h with
  | last hx hw => exact (Member.carried hx).append hw.carried
  | cons hx hw hw' hxs ih =>
      exact (Member.carried hx).append
        (hw.carried.append (.cons (by decide) (hw'.carried.append ih)))

theorem Listed.carried {fields : List (Bytes × Bytes)} {b : Bytes}
    (h : Listed (Member StringText) fields b) : Carried b := by
  cases h with
  | nil hw => exact hw.carried
  | items hw hitems => exact hw.carried.append hitems.carried

/-- The matcher gives a nested object as it is written. -/
theorem Nested.rawLoop (nested : Nested) (s : Bytes) :
    ∃ b, nested.text = 123 :: b ∧ Json.rawLoop 123 125 0 false (123 :: (b ++ s)) = nested.text := by
  obtain ⟨b, hlisted, htext⟩ := nested.written
  refine ⟨b ++ [125], htext, ?_⟩
  have hclose : Json.rawLoop 123 125 1 false (125 :: s) = [125] := rfl
  have hopen : Json.rawLoop 123 125 0 false (123 :: (b ++ 125 :: s)) =
      123 :: Json.rawLoop 123 125 1 false (b ++ 125 :: s) := rfl
  rw [htext, List.append_assoc, List.singleton_append, hopen, hlisted.carried, hclose]

/-- A negative number begins with its sign, which is no digit. -/
theorem getInt_toInt {s key rest : Bytes} (hrest : Break rest) {n : Int64}
    (hfind : findValue key s =
      some ((if n.toInt < 0 then 45 :: decimal n.toInt.natAbs else decimal n.toInt.natAbs) ++ rest))
    (fallback : ℤ) : getInt s key fallback = n.toInt := by
  have hstop : ∀ c, rest.head? = some c → isDigit c = false := fun c hc => (hrest.head c hc).2.2
  have hle := n.le_toInt
  have hlt := n.toInt_lt
  by_cases hneg : n.toInt < 0
  · rw [if_pos hneg, List.cons_append] at hfind
    rw [getInt, hfind]
    dsimp only
    rw [if_pos (by decide), strtoll, if_pos rfl, takeWhile_decimal _ rest hstop,
      digitsValue_decimal]
    omega
  · rw [if_neg hneg] at hfind
    rw [getInt_decimal hfind hstop (by omega)]
    omega

/-- A value that is found is read back. -/
theorem Finds.readBack {key text : Bytes} {value : Value} (h : Finds key text value) :
    value.ReadBack text key := by
  obtain ⟨t, rest, ht, hrest, hfind⟩ := h
  cases value with
  | string v =>
      obtain rfl : t = quoted v := ht
      show getString text key = v
      rw [getString, hfind]
      dsimp only
      rw [parseString_quoted]
  | strings vs =>
      obtain ⟨b, hb, rfl⟩ := ht
      show getStringArray text key = vs
      rw [getStringArray, hfind, List.cons_append, List.append_assoc]
      dsimp only
      rw [if_pos rfl]
      exact hb.arrayLoop (by rw [List.length_append]; omega) rest
  | int n =>
      obtain rfl : t = _ := ht
      intro fallback
      exact getInt_toInt hrest hfind fallback
  | bool b =>
      obtain rfl : t = _ := ht
      show getBool text key = b
      rw [getBool, hfind]
      cases b <;> rfl
  | object nested =>
      obtain rfl : t = nested.text := ht
      obtain ⟨b, htext, hraw⟩ := nested.rawLoop rest
      show getRaw text key = nested.text
      rw [htext, List.cons_append] at hfind
      rw [getRaw, hfind]
      dsimp only
      rw [if_pos rfl, hraw]

/-- The string reader ends behind the closing quote whatever follows, and in an object of any
values every reader gives back the value of the key that it is asked for. -/
theorem helpers_read_back :
    (∀ s rest : Bytes, parseString (quoted s ++ rest) = (s, rest)) ∧
    ∀ (o : FlatObject) (text : Bytes), o.Written text →
      ∀ m ∈ o.members, m.2.ReadBack text m.1 :=
  ⟨parseString_quoted, fun o _ h _ hmem => (o.finds h hmem).readBack⟩

theorem helpers_read_back_sample :
    parseString (quoted [34] ++ [34]) = ([34], [34]) ∧
      getString sampleObject.compact (ofString "host") = ofString "\"ttl\":" ∧
      getStringArray sampleObject.compact (ofString "a") = [ofString "host"] ∧
      getInt sampleObject.compact (ofString "ttl") 0 = -7 ∧
      getBool sampleObject.compact (ofString "ok") = true ∧
      getRaw sampleObject.compact (ofString "result") =
        ofString "\x7b\"\x7d\":\"\\\"\"\x7d" := by
  have hread := helpers_read_back.2 sampleObject _ sampleObject.compact_written
  exact ⟨helpers_read_back.1 [34] [34], hread _ (.head _), hread _ (.tail _ (.head _)),
    hread _ (.tail _ (.tail _ (.head _))) 0, hread _ (.tail _ (.tail _ (.tail _ (.head _)))),
    hread _ (.tail _ (.tail _ (.tail _ (.tail _ (.head _)))))⟩

end Json

end SplitHello
