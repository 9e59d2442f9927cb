import SplitHello.Library.KeyedTable

/-!
# Fixed windows

One counter for each key. A counter starts with the first note of its key and starts anew
with the first one after its window. The table of the counters is bounded in a crude way: a
key that would be one too many makes all counters start anew. `Tally` keeps the account of
one key, where both kinds of fresh starts are paid for, one kind with time and the other
with the notes that filled the table.
-/

namespace FixedWindow

open KeyedTable

structure Counter where
  start : ℕ
  count : ℕ
  deriving DecidableEq, Repr

abbrev Counters (K : Type*) := Table K Counter

section

variable {K : Type*} [DecidableEq K]

def Counter.ended (width now : ℕ) (c : Counter) : Bool := c.start + width < now

def startCounter (maxKeys now : ℕ) (key : K) (t : Counters K) : Counters K :=
  (if maxKeys < size t then ∅ else t).insert key { start := now, count := 1 }

def note (width maxKeys now : ℕ) (key : K) (t : Counters K) : Counters K :=
  match t.lookup key with
  | none => startCounter maxKeys now key t
  | some c =>
      if c.ended width now then startCounter maxKeys now key t
      else t.insert key { c with count := c.count + 1 }

/-- The window of the key is not over, and its counter has reached the limit. -/
def blocked (width limit now : ℕ) (key : K) (t : Counters K) : Bool :=
  (t.lookup key).any fun c => !c.ended width now && limit ≤ c.count

variable {width maxKeys limit began now : ℕ} {key other : K} {t : Counters K}

theorem size_startCounter_le :
    size (startCounter maxKeys now key t) ≤ maxKeys + 1 := by
  rw [startCounter]
  refine (size_insert_le _ key _).trans (Nat.succ_le_succ ?_)
  split
  · exact Nat.zero_le maxKeys
  · omega

theorem size_note_le (h : size t ≤ maxKeys + 1) :
    size (note width maxKeys now key t) ≤ maxKeys + 1 := by
  rw [note]
  cases hlookup : t.lookup key with
  | none => exact size_startCounter_le
  | some c =>
      dsimp only
      split
      · exact size_startCounter_le
      · exact (Nat.le_of_eq (size_insert_of_lookup _ hlookup)).trans h

/-! ## The account of a key -/

/-- The key has no counter, or one whose window is over. -/
def Fresh (width now : ℕ) (key : K) (t : Counters K) : Prop :=
  ∀ c, t.lookup key = some c → c.ended width now = true

/-- What is known at `now` of a key since `began`: `notes` counts the notes of all keys, and what
the table had at first; `free` counts the notes of the key that came while it was not blocked.
The table was emptied `clears` times, and the key has had `opened` counters. -/
structure Account (width maxKeys limit began now : ℕ) (key : K) (notes free : ℕ)
    (t : Counters K) (clears opened : ℕ) : Prop where
  began_le : began ≤ now
  filled : clears * (maxKeys + 1) + size t ≤ notes
  spent : free ≤ limit * opened
  fresh : Fresh width now key t → opened * (width + 1) ≤ (now - began) + (width + 1) * clears
  live : ∀ c, t.lookup key = some c → c.ended width now = false → began ≤ c.start ∧
    c.start ≤ now ∧ free + (limit - c.count) ≤ limit * opened ∧
    opened * (width + 1) ≤ (c.start - began) + (width + 1) * (clears + 1)

def Tally (width maxKeys limit began now : ℕ) (key : K) (notes free : ℕ)
    (t : Counters K) : Prop :=
  ∃ clears opened, Account width maxKeys limit began now key notes free t clears opened

theorem Tally.empty (hle : began ≤ now) : Tally width maxKeys limit began now key 0 0 ∅ :=
  ⟨0, 0, hle, Nat.le_of_eq (by simp [size]), Nat.zero_le _, fun _ => by simp, fun c hc => by
    simp at hc⟩

variable {notes free : ℕ}

/-- Whatever counters the key has had, their windows are paid for. -/
theorem Account.time_le {clears opened : ℕ}
    (h : Account width maxKeys limit began now key notes free t clears opened) :
    opened * (width + 1) ≤ (now - began) + (width + 1) * (clears + 1) := by
  rw [Nat.mul_succ (width + 1)]
  by_cases hfresh : Fresh width now key t
  · have := h.fresh hfresh
    omega
  · obtain ⟨c, hc⟩ := not_forall.1 hfresh
    obtain ⟨hlookup, hlive⟩ := Classical.not_imp.1 hc
    have := h.live c hlookup (by simpa using hlive)
    rw [Nat.mul_succ (width + 1)] at this
    omega

theorem Tally.later {later : ℕ} (h : Tally width maxKeys limit began now key notes free t)
    (hle : now ≤ later) : Tally width maxKeys limit began later key notes free t := by
  obtain ⟨clears, opened, h⟩ := h
  have hbegan := h.began_le
  refine ⟨clears, opened, hbegan.trans hle, h.filled, h.spent, fun hfresh => ?_,
    fun c hc hended => ?_⟩
  · by_cases hbefore : Fresh width now key t
    · have := h.fresh hbefore
      omega
    · -- the window is over only since then
      obtain ⟨c, hc⟩ := not_forall.1 hbefore
      obtain ⟨hlookup, hlive⟩ := Classical.not_imp.1 hc
      have hlast := h.live c hlookup (by simpa using hlive)
      have hended := hfresh c hlookup
      rw [Counter.ended, decide_eq_true_eq] at hended
      rw [Nat.mul_succ (width + 1)] at hlast
      omega
  · rw [Counter.ended, decide_eq_false_iff_not] at hended
    have := h.live c hc (by rw [Counter.ended, decide_eq_false_iff_not]; omega)
    exact ⟨this.1, this.2.1.trans hle, this.2.2⟩

/-- The account is opened anew at any time: one counter of the key may be running then, whose
window has begun not long ago. -/
theorem Tally.restart (h : Tally width maxKeys limit began now key notes free t) :
    Tally width maxKeys limit (now - width) now key (size t) 0 t := by
  obtain ⟨clears, opened, h⟩ := h
  by_cases hfresh : Fresh width now key t
  · refine ⟨0, 0, Nat.sub_le _ _, by simp, Nat.zero_le _, fun _ => by simp, fun c hc hlive => ?_⟩
    rw [hfresh c hc] at hlive
    cases hlive
  · refine ⟨0, 1, Nat.sub_le _ _, by simp, Nat.zero_le _, fun hnot => absurd hnot hfresh,
      fun c hc hlive => ?_⟩
    have hstart := (h.live c hc hlive).2.1
    rw [Counter.ended, decide_eq_false_iff_not] at hlive
    exact ⟨by omega, hstart, by omega, by omega⟩

/-- A fresh counter of the key: it is not there, or its window is over. -/
theorem Tally.startCounter (hlimit : 0 < limit)
    (h : Tally width maxKeys limit began now key notes free t) (hfresh : Fresh width now key t) :
    Tally width maxKeys limit began now key (notes + 1) (free + 1)
      (startCounter maxKeys now key t) := by
  obtain ⟨clears, opened, h⟩ := h
  have hspent := h.spent
  have htime := h.fresh hfresh
  have hfilled := h.filled
  have hopened : (opened + 1) * (width + 1) ≤ (now - began) + (width + 1) * (clears + 1) := by
    rw [Nat.succ_mul, Nat.mul_succ (width + 1)]
    omega
  have hfree : free + 1 + (limit - 1) ≤ limit * (opened + 1) := by
    rw [Nat.mul_succ]
    omega
  have hopen : ∀ c ∈ ((if maxKeys < size t then ∅ else t).insert key
      { start := now, count := 1 } : Counters K).lookup key, c = { start := now, count := 1 } := by
    intro c hc
    rw [AList.lookup_insert] at hc
    exact (Option.some.inj hc).symm
  rw [FixedWindow.startCounter]
  -- the new counter is not over yet
  have hlive : ¬ Fresh width now key ((if maxKeys < size t then ∅ else t).insert key
      { start := now, count := 1 }) := by
    intro hover
    have hended := hover _ (AList.lookup_insert _)
    rw [Counter.ended, decide_eq_true_eq] at hended
    dsimp only at hended
    omega
  by_cases hfull : maxKeys < size t
  · rw [if_pos hfull] at hopen hlive ⊢
    have hone : size ((∅ : Counters K).insert key { start := now, count := 1 }) ≤ 1 :=
      size_insert_le ∅ key _
    refine ⟨clears + 1, opened + 1, h.began_le, ?_, by omega, fun hover => absurd hover hlive,
      fun c hc _ => ?_⟩
    · rw [Nat.succ_mul]
      omega
    · rw [hopen c hc]
      refine ⟨h.began_le, Nat.le_refl now, hfree, hopened.trans ?_⟩
      exact Nat.add_le_add_left (Nat.mul_le_mul_left _ (Nat.le_succ _)) _
  · rw [if_neg hfull] at hopen hlive ⊢
    have hmore := size_insert_le t key { start := now, count := 1 }
    refine ⟨clears, opened + 1, h.began_le, by omega, by omega, fun hover => absurd hover hlive,
      fun c hc _ => ?_⟩
    rw [hopen c hc]
    exact ⟨h.began_le, Nat.le_refl now, hfree, hopened⟩

theorem blocked_eq_false_of_fresh (hfresh : Fresh width now key t) :
    blocked width limit now key t = false := by
  rw [blocked, Option.any_eq_false]
  intro c hc
  rw [hfresh c hc]
  rfl

/-- A note of the key itself. -/
theorem Tally.note_self (hlimit : 0 < limit)
    (h : Tally width maxKeys limit began now key notes free t) :
    Tally width maxKeys limit began now key (notes + 1)
      (if blocked width limit now key t then free else free + 1)
      (note width maxKeys now key t) := by
  by_cases hfresh : Fresh width now key t
  · have hstart := h.startCounter hlimit hfresh
    rw [blocked_eq_false_of_fresh hfresh, if_neg Bool.false_ne_true, note]
    cases hlookup : t.lookup key with
    | none => exact hstart
    | some c =>
        dsimp only
        rw [if_pos (hfresh c hlookup)]
        exact hstart
  · obtain ⟨c, hc⟩ := not_forall.1 hfresh
    obtain ⟨hlookup, hended⟩ := Classical.not_imp.1 hc
    have hended : c.ended width now = false := by simpa using hended
    have hblocked : blocked width limit now key t = decide (limit ≤ c.count) := by
      rw [blocked, hlookup, Option.any_some, hended, Bool.not_false, Bool.true_and]
    have hnote : note width maxKeys now key t = t.insert key { c with count := c.count + 1 } := by
      rw [note, hlookup]
      dsimp only
      rw [hended, if_neg Bool.false_ne_true]
    obtain ⟨clears, opened, h⟩ := h
    have hacc := h.live c hlookup hended
    have hspent := h.spent
    rw [hblocked, hnote]
    have hlookup' : ∀ d, (t.insert key { c with count := c.count + 1 }).lookup key = some d →
        d = { c with count := c.count + 1 } := fun d hd => by
      rw [AList.lookup_insert] at hd
      exact (Option.some.inj hd).symm
    refine ⟨clears, opened, h.began_le, ?_, ?_, fun hover => ?_, fun d hd _ => ?_⟩
    · rw [size_insert_of_lookup _ hlookup]
      exact h.filled.trans (Nat.le_succ notes)
    · split
      · exact hspent
      · rename_i hroom
        rw [decide_eq_true_eq] at hroom
        omega
    · have hover := hover _ (AList.lookup_insert _)
      rw [Counter.ended] at hover hended
      rw [hover] at hended
      cases hended
    · rw [hlookup' d hd]
      refine ⟨hacc.1, hacc.2.1, ?_, hacc.2.2.2⟩
      -- the note takes one of what the counter has left, or there is nothing left
      have hleft := hacc.2.2.1
      dsimp only
      by_cases hreached : limit ≤ c.count
      · rw [if_pos (decide_eq_true hreached)]
        omega
      · rw [if_neg (by simpa using hreached)]
        omega

/-- A note of another key may cost the key its counter. -/
theorem Tally.note_other (h : Tally width maxKeys limit began now key notes free t)
    (hne : other ≠ key) :
    Tally width maxKeys limit began now key (notes + 1) free (note width maxKeys now other t) := by
  have hkept : ∀ (c : Counter), (t.insert other c).lookup key = t.lookup key :=
    fun c => AList.lookup_insert_ne hne.symm
  obtain ⟨clears, opened, h⟩ := h
  have hfresh (c : Counter) (hfresh : Fresh width now key (t.insert other c)) :
      Fresh width now key t := fun d hd => hfresh d ((hkept c).trans hd)
  have hstart : Tally width maxKeys limit began now key (notes + 1) free
      (FixedWindow.startCounter maxKeys now other t) := by
    rw [FixedWindow.startCounter]
    by_cases hfull : maxKeys < size t
    · rw [if_pos hfull]
      have hone : size ((∅ : Counters K).insert other { start := now, count := 1 }) ≤ 1 :=
        size_insert_le ∅ other _
      refine ⟨clears + 1, opened, h.began_le, ?_, h.spent, fun _ => h.time_le, fun c hc => ?_⟩
      · have := h.filled
        rw [Nat.succ_mul]
        omega
      · rw [AList.lookup_insert_ne hne.symm] at hc
        simp at hc
    · rw [if_neg hfull]
      have hmore := size_insert_le t other { start := now, count := 1 }
      refine ⟨clears, opened, h.began_le, ?_, h.spent, fun hf => h.fresh (hfresh _ hf), ?_⟩
      · have := h.filled
        omega
      · rw [hkept]
        exact h.live
  rw [note]
  cases hlookup : t.lookup other with
  | none => exact hstart
  | some c =>
      dsimp only
      split
      · exact hstart
      · refine ⟨clears, opened, h.began_le, ?_, h.spent, fun hf => h.fresh (hfresh _ hf), ?_⟩
        · rw [size_insert_of_lookup _ hlookup]
          exact h.filled.trans (Nat.le_succ notes)
        · rw [hkept]
          exact h.live

theorem Tally.note (hlimit : 0 < limit)
    (h : Tally width maxKeys limit began now key notes free t) (other : K) :
    Tally width maxKeys limit began now key (notes + 1)
      (free + if other = key ∧ blocked width limit now other t = false then 1 else 0)
      (note width maxKeys now other t) := by
  by_cases heq : other = key
  · subst heq
    have hself := h.note_self hlimit
    cases hblocked : blocked width limit now other t <;> simpa [hblocked] using hself
  · rw [if_neg fun hboth => heq hboth.1, Nat.add_zero]
    exact h.note_other heq

/-- A limit for each window that has passed, and one for each time that the table may have
been filled. -/
theorem Tally.free_le (h : Tally width maxKeys limit began now key notes free t) :
    free ≤ limit * (1 + (now - began) / (width + 1) + notes / (maxKeys + 1)) := by
  obtain ⟨clears, opened, h⟩ := h
  have hclears : clears ≤ notes / (maxKeys + 1) := by
    rw [Nat.le_div_iff_mul_le (Nat.succ_pos maxKeys)]
    exact (Nat.le_add_right _ _).trans h.filled
  have htime : opened * (width + 1) ≤ (now - began) + (width + 1) * (clears + 1) := h.time_le
  have hopened : opened ≤ (now - began) / (width + 1) + (clears + 1) := by
    rw [← Nat.add_mul_div_left _ _ (Nat.succ_pos width),
      Nat.le_div_iff_mul_le (Nat.succ_pos width)]
    exact htime
  exact h.spent.trans (Nat.mul_le_mul_left limit (by omega))

end

end FixedWindow
