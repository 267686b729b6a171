import FrozenDefaults.Json
import Mathlib.Data.List.TakeDrop

/-!
# Tokens read back

A text that spells tokens one after the other, with blanks between them, is read as
these tokens. What stands behind a token does not matter, as long as a number does
not go on there.
-/

namespace FrozenDefaults.Json.Token

/-- A number that is written plainly is not scaled. -/
def Proper : Token → Prop
  | number n => n.plain = true → n.scale = 0
  | _ => True

/-- Whether a number goes on with a character. -/
def continues (c : Char) : Bool := c.isDigit || c == '.' || c == 'e' || c == 'E'

/-- Whether no number goes on at the front of a text. -/
def Ends (cs : List Char) : Prop := ∀ c ∈ cs.head?, continues c = false

section Numbers

variable {rest : List Char}

theorem isDigit_of_mem_repr {n : Nat} {c : Char} (h : c ∈ n.repr.toList) : c.isDigit = true := by
  rw [Nat.toList_repr] at h
  exact Nat.isDigit_of_mem_toDigits (by omega) (by omega) h

theorem exists_repr (n : Nat) : ∃ c cs, n.repr.toList = c :: cs ∧ c.isDigit = true := by
  obtain ⟨c, cs, h⟩ := List.exists_cons_of_ne_nil
    (Nat.toList_repr (n := n) ▸ Nat.toDigits_ne_nil : n.repr.toList ≠ [])
  exact ⟨c, cs, h, isDigit_of_mem_repr (h ▸ List.mem_cons_self)⟩

theorem span_repr (n : Nat) (h : ∀ c ∈ rest.head?, c.isDigit = false) :
    (n.repr.toList ++ rest).span Char.isDigit = (n.repr.toList, rest) := by
  have hdigits : ∀ c ∈ n.repr.toList, c.isDigit = true := fun _ hc => isDigit_of_mem_repr hc
  rw [List.span_eq_takeWhile_dropWhile, List.takeWhile_append_of_pos hdigits,
    List.dropWhile_append_of_pos hdigits]
  cases rest with
  | nil => rw [List.takeWhile_nil, List.dropWhile_nil, List.append_nil]
  | cons c rest =>
    have hc : ¬ c.isDigit = true := Bool.eq_false_iff.1 (h c rfl)
    rw [List.takeWhile_cons_of_neg hc, List.dropWhile_cons_of_neg hc, List.append_nil]

theorem numberOf_repr (n : Nat) : numberOf n.repr.toList = n := by
  rw [Nat.toList_repr]
  exact Nat.ofDigitChars_ten_toDigits

theorem head?_repr_ne {n : Nat} (hn : 0 < n) : n.repr.toList.head? ≠ some '0' := by
  rw [Nat.toList_repr]
  induction n using Nat.strongRecOn with
  | ind n ih =>
    by_cases h : n < 10
    · rw [Nat.toDigits_of_lt_base h]
      have hdigit : ∀ m : Fin 10, 0 < m.val → [m.val.digitChar].head? ≠ some '0' := by decide
      exact hdigit ⟨n, h⟩ hn
    · have hprefix := ih (n / 10) (Nat.div_lt_self hn (by omega)) (by omega)
      obtain ⟨c, cs, hc⟩ := List.exists_cons_of_ne_nil (Nat.toDigits_ne_nil (b := 10) (n := n / 10))
      rw [hc] at hprefix
      rw [Nat.toDigits_of_base_le (by omega) (by omega), hc]
      exact hprefix

theorem exponentDigits?_repr (negative : Bool) (n : Nat)
    (h : ∀ c ∈ rest.head?, c.isDigit = false) : exponentDigits? negative (n.repr.toList ++ rest) =
      some (some (if negative then -(n : Int) else n), rest) := by
  obtain ⟨c, cs, hrepr, _⟩ := exists_repr n
  have hnumber := numberOf_repr n
  rw [exponentDigits?, span_repr n h]
  rw [hrepr] at hnumber ⊢
  simp only [hnumber]

theorem not_digit_of_ends (h : Ends rest) : ∀ c ∈ rest.head?, c.isDigit = false := by
  intro c hc
  have hc := h c hc
  simp only [continues, Bool.or_eq_false_iff] at hc
  exact hc.1.1.1

theorem fraction?_of_ends (h : Ends rest) : fraction? rest = some ([], rest) := by
  unfold fraction?
  split
  · cases h '.' rfl
  · rfl

theorem exponent?_of_ends (h : Ends rest) : exponent? rest = some (none, rest) := by
  cases rest with
  | nil => rfl
  | cons c rest =>
    have hc := h c rfl
    simp only [continues, Bool.or_eq_false_iff] at hc
    unfold exponent?
    simp only [hc.1.2, hc.2, Bool.or_self, Bool.false_eq_true, if_false]

/-- A scale behind its mark. Digits alone are not taken for a sign. -/
theorem exponent?_scale (scale : Int) (h : Ends rest) :
    exponent? ('e' :: (toString scale).toList ++ rest) = some (some scale, rest) := by
  have hdigit := not_digit_of_ends h
  cases scale with
  | ofNat n =>
    show exponent? ('e' :: n.repr.toList ++ rest) = _
    obtain ⟨c, cs, hrepr, hc⟩ := exists_repr n
    have hdigits := exponentDigits?_repr false n hdigit
    have hminus : c ≠ '-' := by rintro rfl; cases hc
    have hplus : c ≠ '+' := by rintro rfl; cases hc
    rw [hrepr] at hdigits ⊢
    have hmark : ('e' == 'e' || 'e' == 'E') = true := rfl
    unfold exponent?
    simp only [List.cons_append]
    rw [if_pos hmark]
    split
    · rename_i he
      exact absurd (List.cons.inj he).1 hminus
    · rename_i he
      exact absurd (List.cons.inj he).1 hplus
    · exact hdigits
  | negSucc n =>
    have htext : (toString (Int.negSucc n)).toList = '-' :: (n + 1).repr.toList :=
      String.toList_append
    rw [htext]
    show exponentDigits? true ((n + 1).repr.toList ++ rest) = _
    rw [exponentDigits?_repr true (n + 1) hdigit]
    rfl

/-- A magnitude without a point: what follows its digits is its scale, if there is one. -/
theorem magnitude?_repr (digits : Nat) (negative : Bool) {cs : List Char} {power : Option Int}
    (hdigit : ∀ c ∈ cs.head?, c.isDigit = false) (hfraction : fraction? cs = some ([], cs))
    (hpower : exponent? cs = some (power, rest)) :
    magnitude? negative (digits.repr.toList ++ cs) =
      some (⟨⟨digits, power.getD 0⟩, negative, power.isNone⟩, rest) := by
  have hnumber := numberOf_repr digits
  have hzero : ¬ (digits.repr.toList.head? = some '0' ∧ digits.repr.toList.length ≠ 1) := by
    rintro ⟨hhead, hlength⟩
    rcases Nat.eq_zero_or_pos digits with rfl | hpos
    · exact hlength rfl
    · exact head?_repr_ne hpos hhead
  obtain ⟨d, ds, hrepr, _⟩ := exists_repr digits
  rw [magnitude?, span_repr digits hdigit]
  rw [hrepr] at hnumber hzero ⊢
  simp only [if_neg hzero, hfraction, Option.bind_eq_bind, Option.bind_some, hpower, hnumber,
    List.append_nil, List.length_nil, Int.natCast_zero, Int.sub_zero, List.isEmpty_nil,
    Bool.true_and]
  rfl

theorem magnitude?_text {n : Number} (hn : n.plain = true → n.scale = 0) (h : Ends rest) :
    magnitude? n.negative (n.digits.repr.toList ++
      ((if n.plain then [] else 'e' :: (toString n.scale).toList) ++ rest)) = some (n, rest) := by
  obtain ⟨⟨digits, scale⟩, negative, plain⟩ := n
  cases plain with
  | true =>
    obtain rfl : scale = 0 := hn rfl
    exact magnitude?_repr digits negative (not_digit_of_ends h) (fraction?_of_ends h)
      (exponent?_of_ends h)
  | false =>
    refine magnitude?_repr digits negative ?_ rfl (exponent?_scale scale h)
    rintro c ⟨⟩
    rfl

theorem number?_text {n : Number} (hn : n.plain = true → n.scale = 0) (h : Ends rest) :
    number? (numberText n ++ rest) = some (n, rest) := by
  have hmagnitude := magnitude?_text hn h
  cases hs : n.negative with
  | true =>
    rw [hs] at hmagnitude
    rw [numberText, hs, List.append_assoc, List.append_assoc]
    exact hmagnitude
  | false =>
    obtain ⟨c, cs, hrepr, hc⟩ := exists_repr n.digits
    rw [hs] at hmagnitude
    rw [numberText, hs, List.append_assoc, List.append_assoc]
    rw [hrepr] at hmagnitude ⊢
    unfold number?
    split
    · rename_i he
      obtain rfl : c = '-' := (List.cons.inj he).1
      cases hc
    · exact hmagnitude

end Numbers

section Strings

variable (seen : List Nat) (rest : List Char)

theorem unit?_encodeByte {n : Nat} (h : n < 0x20) : ∃ high low,
    Hex.encodeByte (UInt8.ofNat n) = [high, low] ∧ unit? '0' '0' high low = some n := by
  have hall : ∀ m : Fin 0x20, unit? '0' '0' (Hex.digit ((UInt8.ofNat m).toNat / 16))
      (Hex.digit ((UInt8.ofNat m).toNat % 16)) = some m.val := by decide
  exact ⟨_, _, rfl, hall ⟨n, h⟩⟩

theorem units?_unit {a b c d : Char} {n : Nat} (h : unit? a b c d = some n) :
    units? seen ('\\' :: 'u' :: a :: b :: c :: d :: rest) = units? (n :: seen) rest := by
  rw [units?, h]

theorem units?_escapeChar (c : Char) :
    units? seen (escapeChar c ++ rest) = units? (c.toNat :: seen) rest := by
  unfold escapeChar
  split
  · rfl
  · rfl
  · rfl
  · rfl
  · rfl
  · rfl
  · rfl
  · rename_i hquote hslash _ _ _ _ _
    split
    · rename_i hc
      obtain ⟨high, low, hbyte, hunit⟩ := unit?_encodeByte hc
      rw [hbyte]
      exact units?_unit seen rest hunit
    · rename_i hc
      have hstep : units? seen (c :: rest) =
          if c.toNat < 0x20 then none else units? (c.toNat :: seen) rest := by
        rw [units?]
        · exact hquote
        · intros; exact hslash ‹_›
        · intros; exact hslash ‹_›
      rw [List.singleton_append, hstep, if_neg hc]

theorem units?_flatMap (cs : List Char) : units? seen (cs.flatMap escapeChar ++ '"' :: rest) =
    some (seen.reverse ++ cs.map Char.toNat, rest) := by
  induction cs generalizing seen with
  | nil => rw [List.map_nil, List.append_nil]; rfl
  | cons c cs ih =>
    rw [List.flatMap_cons, List.append_assoc, units?_escapeChar, ih, List.reverse_cons,
      List.append_assoc]
    rfl

theorem not_half (c : Char) : isHigh c.toNat = false ∧ isLow c.toNat = false := by
  have hvalid : c.toNat < 0xd800 ∨ 0xdfff < c.toNat ∧ c.toNat < 0x110000 := c.valid
  simp only [isHigh, isLow, Bool.and_eq_false_iff, decide_eq_false_iff_not]
  omega

theorem joined?_map (taken cs : List Char) :
    joined? taken (cs.map Char.toNat) = some (taken.reverse ++ cs) := by
  induction cs generalizing taken with
  | nil => rw [List.append_nil]; rfl
  | cons c cs ih =>
    obtain ⟨hhigh, hlow⟩ := not_half c
    have hone : joined? taken ((c :: cs).map Char.toNat) =
        joined? (c :: taken) (cs.map Char.toNat) := by
      cases cs with
      | nil =>
        simp only [List.map_cons, List.map_nil, joined?, hhigh, hlow, Char.ofNat_toNat]
        rfl
      | cons d ds =>
        simp only [List.map_cons, joined?, hhigh, hlow, Char.ofNat_toNat]
        rfl
    rw [hone, ih, List.reverse_cons, List.append_assoc]
    rfl

theorem string?_text (s : Option String) :
    ∃ cs, stringText s = '"' :: cs ∧ string? (cs ++ rest) = some (s, rest) := by
  cases s with
  | none =>
    refine ⟨_, rfl, ?_⟩
    have hunits : units? [] ("\\ud800\"".toList ++ rest) = some ([0xd800], rest) := by
      have hunit : unit? 'd' '8' '0' '0' = some 0xd800 := by decide
      exact (units?_unit _ _ hunit).trans rfl
    have hjoined : joined? [] [0xd800] = none := if_pos (by decide)
    show string? ("\\ud800\"".toList ++ rest) = _
    rw [string?, hunits]
    simp only [Option.bind_eq_bind, Option.bind_some, hjoined]
    rfl
  | some s =>
    refine ⟨s.toList.flatMap escapeChar ++ ['"'], rfl, ?_⟩
    rw [List.append_assoc, List.singleton_append, string?, units?_flatMap]
    simp only [Option.bind_eq_bind, Option.bind_some, List.reverse_nil, List.nil_append,
      joined?_map, Option.map_some, String.ofList_toList]
    rfl

end Strings

theorem exists_numberText (n : Number) :
    ∃ c cs, numberText n = c :: cs ∧ (c.isDigit || c == '-') = true := by
  cases hs : n.negative with
  | true => exact ⟨'-', _, by rw [numberText, hs]; rfl, rfl⟩
  | false =>
    obtain ⟨c, cs, hrepr, hc⟩ := exists_repr n.digits
    refine ⟨c, cs ++ if n.plain then [] else 'e' :: (toString n.scale).toList, ?_, ?_⟩
    · rw [numberText, hs, hrepr]
      rfl
    · rw [hc, Bool.true_or]

theorem exists_text (t : Token) : ∃ c cs, t.text = c :: cs ∧ isBlank c = false := by
  cases t with
  | bool b => cases b <;> exact ⟨_, _, rfl, rfl⟩
  | number n =>
    obtain ⟨c, cs, htext, hc⟩ := exists_numberText n
    refine ⟨c, cs, htext, ?_⟩
    by_contra hblank
    simp only [isBlank, Bool.not_eq_false, Bool.or_eq_true, beq_iff_eq] at hblank
    rcases hblank with ((rfl | rfl) | rfl) | rfl <;> cases hc
  | string s =>
    obtain ⟨cs, htext, _⟩ := string?_text [] s
    exact ⟨_, cs, htext, rfl⟩
  | _ => exact ⟨_, _, rfl, rfl⟩

theorem first?_number {n : Number} {rest : List Char} (hn : (number n).Proper) (h : Ends rest) :
    first? (numberText n ++ rest) = some (number n, rest) := by
  have hnumber := number?_text hn h
  obtain ⟨c, cs, htext, hc⟩ := exists_numberText n
  rw [htext] at hnumber ⊢
  unfold first?
  split
  all_goals try
    rename_i he
    rw [(List.cons.inj he).1] at hc
    cases hc
  rw [hnumber]
  rfl

/-- The token at the front of a text is read back. -/
theorem first?_text {t : Token} {rest : List Char} (ht : t.Proper)
    (h : ∀ n, t = number n → Ends rest) : first? (t.text ++ rest) = some (t, rest) := by
  cases t with
  | bool b => cases b <;> rfl
  | number n => exact first?_number ht (h n rfl)
  | string s =>
    obtain ⟨cs, htext, hread⟩ := string?_text rest s
    show first? (stringText s ++ rest) = _
    rw [htext]
    show (string? (cs ++ rest)).map (fun r => (string r.1, r.2)) = _
    rw [hread]
    rfl
  | _ => rfl

/-- A text spells tokens if it is their texts, one after the other, with blanks in between. -/
inductive Spells : List Token → List Char → Prop
  | nil : Spells [] []
  | blank {ts : List Token} {cs : List Char} {c : Char} (hc : isBlank c = true)
      (h : Spells ts cs) : Spells ts (c :: cs)
  | token {ts : List Token} {cs : List Char} {t : Token} (ht : t.Proper)
      (hends : ∀ n, t = number n → Ends cs) (h : Spells ts cs) : Spells (t :: ts) (t.text ++ cs)

theorem scan?_of_spells {ts : List Token} {cs : List Char} (h : Spells ts cs) (seen : List Token)
    {room : Nat} (hroom : cs.length ≤ room) : scan? seen room cs = some (seen.reverse ++ ts) := by
  induction h generalizing seen room with
  | nil => cases room <;> rw [scan?, List.append_nil]
  | blank hc _ ih =>
    cases room with
    | zero => cases hroom
    | succ room => rw [scan?, if_pos hc, ih seen (Nat.le_of_succ_le_succ hroom)]
  | @token ts cs t ht hends _ ih =>
    obtain ⟨c, text, htext, hc⟩ := t.exists_text
    have hfirst := first?_text ht hends
    rw [htext, List.cons_append] at hroom hfirst ⊢
    cases room with
    | zero => cases hroom
    | succ room =>
      have hrest : cs.length ≤ room := by
        rw [List.length_cons, List.length_append] at hroom
        omega
      rw [scan?, hc, if_neg Bool.false_ne_true, hfirst]
      simp only [ih (t :: seen) hrest, List.reverse_cons, List.append_assoc, List.singleton_append]

theorem ofText?_of_spells {ts : List Token} {cs : List Char} (h : Spells ts cs) :
    ofText? cs = some ts :=
  scan?_of_spells h [] (Nat.le_refl _)

end FrozenDefaults.Json.Token
