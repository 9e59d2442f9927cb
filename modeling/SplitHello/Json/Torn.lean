import SplitHello.Json.Written

/-!
# Reading a text that breaks off

How the helpers behave on a prefix of what was written: a string literal without its
closing quote takes the rest of the text with it, and the bracket matcher returns a
prefix of what it returns for the whole text. The loops of the string reader end by
themselves; more rounds than bytes change nothing.
-/

namespace SplitHello

namespace Json

open ByteString

/-- A prefix of a text in two parts ends in the first part or reaches into the second. -/
theorem isPrefix_append_cases {q a b : Bytes} (h : q <+: a ++ b) :
    q <+: a ∧ q ≠ a ∨ ∃ q', q' <+: b ∧ q = a ++ q' := by
  by_cases heq : q = a
  · exact Or.inr ⟨[], List.nil_prefix, by rw [heq, List.append_nil]⟩
  rcases List.prefix_or_prefix_of_prefix h (List.prefix_append a b) with htorn | ⟨q', rfl⟩
  · exact Or.inl ⟨htorn, heq⟩
  · exact Or.inr ⟨q', (List.prefix_append_right_inj a).1 h, rfl⟩

/-! ## String literals -/

theorem readHex_rest_length (n code digits : ℕ) (s : Bytes) :
    (readHex n code digits s).2.2.length ≤ s.length := by
  induction n generalizing code digits s with
  | zero => exact le_rfl
  | succ n ih =>
      cases s with
      | nil => exact le_rfl
      | cons c s =>
          rw [readHex]
          split
          · exact (ih _ _ s).trans (by simp)
          · exact le_rfl

theorem parseBody_rest_length (fuel : ℕ) (s : Bytes) :
    (parseBody fuel s).2.length ≤ s.length := by
  induction fuel using Nat.strong_induction_on generalizing s with
  | _ fuel ih =>
      cases fuel with
      | zero => exact le_rfl
      | succ fuel =>
          have ih := ih fuel (Nat.lt_succ_self fuel)
          cases s with
          | nil => exact le_rfl
          | cons c s =>
              unfold parseBody
              split
              · simp
              split
              · exact (ih s).trans (by simp)
              cases s with
              | nil => simp
              | cons esc s =>
                  dsimp only
                  split
                  · have hhex := readHex_rest_length 4 0 0 s
                    exact (ih _).trans (hhex.trans (by simp; omega))
                  · exact (ih s).trans (by simp; omega)

/-- More rounds than bytes change nothing. -/
theorem parseBody_fuel {fuel fuel' : ℕ} {s : Bytes} (h : s.length < fuel)
    (h' : s.length < fuel') : parseBody fuel s = parseBody fuel' s := by
  induction fuel generalizing fuel' s with
  | zero => omega
  | succ fuel ih =>
      obtain ⟨fuel', rfl⟩ := Nat.exists_eq_succ_of_ne_zero (by omega : fuel' ≠ 0)
      rw [Nat.succ_eq_add_one]
      cases s with
      | nil => rfl
      | cons c s =>
          rw [List.length_cons] at h h'
          unfold parseBody
          split
          · rfl
          split
          · rw [ih (s := s) (by omega) (by omega : s.length < fuel')]
          cases s with
          | nil => rfl
          | cons esc s =>
              rw [List.length_cons] at h h'
              dsimp only
              split
              · have hhex := readHex_rest_length 4 0 0 s
                rw [ih (s := (readHex 4 0 0 s).2.2) (by omega)
                  (by omega : (readHex 4 0 0 s).2.2.length < fuel')]
              · rw [ih (s := s) (by omega) (by omega : s.length < fuel')]

theorem parseString_rest_length (s : Bytes) : (parseString s).2.length ≤ s.length := by
  cases s with
  | nil => exact le_rfl
  | cons c s =>
      rw [parseString]
      split
      · exact (parseBody_rest_length _ s).trans (by simp)
      · exact le_rfl

theorem parseString_rest_lt {c : UInt8} (h : c = quote) (s : Bytes) :
    (parseString (c :: s)).2.length ≤ s.length := by
  rw [parseString, if_pos h]
  exact parseBody_rest_length _ s

/-- An escape that breaks off ends the literal with the text. -/
theorem parseBody_torn_escape {c : UInt8} {b : Bytes} (h : b <+: escapeByte c)
    (hne : b ≠ escapeByte c) (fuel : ℕ) : (parseBody (fuel + 1) b).2 = [] := by
  have hend : ∀ fuel, (parseBody fuel []).2 = [] := by
    intro fuel
    cases fuel <;> rfl
  have hpair {x : UInt8} (hb : b <+: [backslash, x]) (hbne : b ≠ [backslash, x]) :
      (parseBody (fuel + 1) b).2 = [] := by
    simp only [List.prefix_cons_iff, List.prefix_nil] at hb
    rcases hb with rfl | ⟨_, rfl, rfl | ⟨_, rfl, rfl⟩⟩
    · rfl
    · rfl
    · exact absurd rfl hbne
  unfold escapeByte at h hne
  split at h
  · rw [if_pos ‹_›] at hne
    exact hpair h hne
  rw [if_neg ‹_›] at hne
  split at h
  · rw [if_pos ‹_›] at hne
    exact hpair h hne
  rw [if_neg ‹_›] at hne
  split at h
  · rw [if_pos ‹_›] at hne
    exact hpair h hne
  rw [if_neg ‹_›] at hne
  split at h
  · rw [if_pos ‹_›] at hne
    exact hpair h hne
  rw [if_neg ‹_›] at hne
  split at h
  · rw [if_pos ‹_›] at hne
    exact hpair h hne
  rw [if_neg ‹_›] at hne
  split at h
  · rw [if_pos ‹_›] at hne
    have hzero : isHexDigit 48 = true := by decide
    have hdigit : isHexDigit (hexDigit (c.toNat / 16)) = true :=
      isHexDigit_hexDigit _ (by have := c.toNat_lt; omega)
    simp only [List.prefix_cons_iff, List.prefix_nil] at h
    rcases h with rfl | ⟨_, rfl, rfl | ⟨_, rfl, rfl | ⟨_, rfl, rfl | ⟨_, rfl, rfl | ⟨_, rfl,
      rfl | ⟨_, rfl, rfl⟩⟩⟩⟩⟩⟩
    · rfl
    · rfl
    · exact hend fuel
    · simp [parseBody, backslash, quote, readHex, hzero, hend]
    · simp [parseBody, backslash, quote, readHex, hzero, hend]
    · simp [parseBody, backslash, quote, readHex, hzero, hdigit, hend]
    · exact absurd rfl hne
  · rw [if_neg ‹_›] at hne
    simp only [List.prefix_cons_iff, List.prefix_nil] at h
    rcases h with rfl | ⟨_, rfl, rfl⟩
    · rfl
    · exact absurd rfl hne

/-- A literal that breaks off takes the rest of the text with it. -/
theorem parseBody_torn {v b : Bytes} (h : b <+: escape v) {fuel : ℕ} (hfuel : b.length < fuel) :
    (parseBody fuel b).2 = [] := by
  induction v generalizing b fuel with
  | nil =>
      have hnil : b = [] := List.prefix_nil.1 h
      obtain ⟨fuel, rfl⟩ := Nat.exists_eq_succ_of_ne_zero (by omega : fuel ≠ 0)
      rw [hnil]
      rfl
  | cons c v ih =>
      obtain ⟨fuel, rfl⟩ := Nat.exists_eq_succ_of_ne_zero (by omega : fuel ≠ 0)
      have hcons : escape (c :: v) = escapeByte c ++ escape v := by simp [escape]
      rw [hcons] at h
      rcases isPrefix_append_cases h with ⟨htorn, hne⟩ | ⟨b', hb', rfl⟩
      · exact parseBody_torn_escape htorn hne fuel
      · have hpos := length_escapeByte_pos c
        rw [List.length_append] at hfuel
        rw [Nat.succ_eq_add_one, parseBody_escapeByte]
        exact ih hb' (by omega)

theorem quote_notMem_escapeByte {c : UInt8} (h : c ≠ quote) : quote ∉ escapeByte c := by
  unfold escapeByte
  rw [if_neg h]
  split
  · decide
  split
  · decide
  split
  · decide
  split
  · decide
  split
  · have hdigit : ∀ n < 16, quote ≠ hexDigit n := by decide
    have hhi := hdigit (c.toNat / 16) (by have := c.toNat_lt; omega)
    have hlo := hdigit (c.toNat % 16) (by omega)
    have hplain : quote ≠ backslash ∧ quote ≠ 117 ∧ quote ≠ 48 := by decide
    simp [hplain, hhi, hlo]
  · simpa using Ne.symm h

theorem quote_notMem_escape {v : Bytes} (h : quote ∉ v) : quote ∉ escape v := by
  intro hmem
  obtain ⟨c, hc, hquote⟩ := List.mem_flatMap.1 hmem
  exact quote_notMem_escapeByte (fun hceq => h (hceq ▸ hc)) hquote

/-- A literal without its closing quote. -/
structure TornLiteral (v q : Bytes) : Prop where
  torn : q <+: quoted v
  ne : q ≠ quoted v
  ne_nil : q ≠ []

theorem TornLiteral.cases {v q : Bytes} (h : TornLiteral v q) :
    ∃ b, q = quote :: b ∧ b <+: escape v := by
  have htext : quoted v = (quote :: escape v) ++ [quote] := rfl
  have htorn : q <+: quote :: escape v := by
    rcases isPrefix_append_cases (htext ▸ h.torn) with ⟨htorn, -⟩ | ⟨q', hq', rfl⟩
    · exact htorn
    · rcases List.prefix_cons_iff.1 hq' with rfl | ⟨_, rfl, hnil⟩
      · exact ⟨[], by rw [List.append_nil, List.append_nil]⟩
      · rw [List.prefix_nil.1 hnil] at h
        exact absurd htext.symm h.ne
  rcases List.prefix_cons_iff.1 htorn with rfl | ⟨b, rfl, hb⟩
  · exact absurd rfl h.ne_nil
  · exact ⟨b, rfl, hb⟩

/-- A literal that breaks off takes the rest of the text with it. -/
theorem TornLiteral.rest_eq_nil {v q : Bytes} (h : TornLiteral v q) :
    (parseString q).2 = [] := by
  obtain ⟨b, rfl, hb⟩ := h.cases
  rw [parseString, if_pos rfl]
  exact parseBody_torn hb (Nat.lt_succ_self _)

/-- A literal that breaks off has no closing quote, unless the value has one inside. -/
theorem TornLiteral.not_closed {v q : Bytes} (h : TornLiteral v q) (hv : quote ∉ v) :
    q.length < 2 ∨ q.getLast? ≠ some quote := by
  obtain ⟨b, rfl, hb⟩ := h.cases
  cases b with
  | nil => exact Or.inl (by simp)
  | cons c b =>
      refine Or.inr fun hlast => quote_notMem_escape hv (hb.subset ?_)
      rw [List.getLast?_cons_cons] at hlast
      exact List.mem_of_getLast? hlast

/-! ## Nested values -/

/-- What the bracket matcher returns for a prefix is a prefix of what it returns. -/
theorem rawLoop_isPrefix {q t : Bytes} (h : q <+: t) (o c : UInt8) (depth : ℕ) (inside : Bool) :
    rawLoop o c depth inside q <+: rawLoop o c depth inside t := by
  induction depth, inside, q using rawLoop.induct o c generalizing t with
  | case1 depth inside =>
      unfold rawLoop
      exact List.nil_prefix
  | case2 depth =>
      obtain ⟨rest, rfl⟩ := h
      cases rest with
      | nil => exact List.prefix_rfl
      | cons d rest =>
          rw [List.singleton_append, rawLoop, rawLoop, if_pos rfl]
          exact ⟨d :: rawLoop o c depth true rest, rfl⟩
  | case3 depth d s ih =>
      obtain ⟨rest, rfl⟩ := h
      rw [List.cons_append, List.cons_append, rawLoop, rawLoop, if_pos rfl, if_pos rfl]
      exact List.cons_prefix_cons.2 ⟨rfl, List.cons_prefix_cons.2 ⟨rfl, ih ⟨rest, rfl⟩⟩⟩
  | case4 depth x s hback ih =>
      obtain ⟨rest, rfl⟩ := h
      rw [List.cons_append, rawLoop_inside o c depth hback, rawLoop_inside o c depth hback]
      exact List.cons_prefix_cons.2 ⟨rfl, ih ⟨rest, rfl⟩⟩
  | case5 depth s ih =>
      obtain ⟨rest, rfl⟩ := h
      rw [List.cons_append, rawLoop, rawLoop, if_pos rfl, if_pos rfl]
      exact List.cons_prefix_cons.2 ⟨rfl, ih ⟨rest, rfl⟩⟩
  | case6 depth s hquote ih =>
      obtain ⟨rest, rfl⟩ := h
      rw [List.cons_append, rawLoop, rawLoop, if_neg hquote, if_pos rfl, if_neg hquote, if_pos rfl]
      exact List.cons_prefix_cons.2 ⟨rfl, ih ⟨rest, rfl⟩⟩
  | case7 s hquote hopen =>
      obtain ⟨rest, rfl⟩ := h
      refine ⟨[], ?_⟩
      rw [List.append_nil, List.cons_append, rawLoop, rawLoop, if_neg hquote, if_neg hopen,
        if_pos rfl, if_pos rfl, if_neg hquote, if_neg hopen, if_pos rfl, if_pos rfl]
  | case8 depth s hquote hopen hdepth ih =>
      obtain ⟨rest, rfl⟩ := h
      rw [List.cons_append, rawLoop, rawLoop, if_neg hquote, if_neg hopen, if_pos rfl,
        if_neg hdepth, if_neg hquote, if_neg hopen, if_pos rfl, if_neg hdepth]
      exact List.cons_prefix_cons.2 ⟨rfl, ih ⟨rest, rfl⟩⟩
  | case9 depth x s hquote hopen hclose ih =>
      obtain ⟨rest, rfl⟩ := h
      rw [List.cons_append, rawLoop, rawLoop, if_neg hquote, if_neg hopen, if_neg hclose,
        if_neg hquote, if_neg hopen, if_neg hclose]
      exact List.cons_prefix_cons.2 ⟨rfl, ih ⟨rest, rfl⟩⟩

end Json

end SplitHello
