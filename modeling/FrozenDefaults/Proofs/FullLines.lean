import Mathlib.Algebra.Order.Floor.Div
import FrozenDefaults.Proofs.Wrapping

/-!
# How far the lines of a literal are filled

A scan that goes on from the width to the next escape puts the same number of
escapes into every line but the last: the width in escapes, rounded up. The last
line has what is left of them, and there is no line for nothing unless there are
no bytes.
-/

namespace FrozenDefaults

namespace Literal

/-- The lines hold the escapes of the bytes, `k` in each but the last. -/
structure FilledLines (k : Nat) (bs : List UInt8) (ls : List (List Char)) : Prop where
  count : ls.length = max 1 (bs.length ⌈/⌉ k)
  line {i : Nat} {line : List Char} : ls[i]? = some line →
    line = (if i = 0 then opening else []) ++ ((bs.drop (i * k)).take k).flatMap escape ++
      if i + 1 = ls.length then closing else continuation
  opens {i : Nat} {line : List Char} : ls[i]? = some line → (opening <+: line ↔ i = 0)
  full {i : Nat} : i + 1 < ls.length → ((bs.drop (i * k)).take k).length = k
  last : (bs.drop ((ls.length - 1) * k)).length ≤ k ∧
    (bs.drop ((ls.length - 1) * k) = [] → bs = [])

theorem perLine_eq (width : Nat) : perLine width = width ⌈/⌉ escapeLength := by
  rw [Nat.ceilDiv_eq_add_pred_div]
  rfl

section Parts

variable {k : Nat} {bs : List UInt8}

theorem parts_of_le (h : bs.length ≤ k) : parts k bs = [bs] := by
  rw [parts, if_pos (.inr (List.drop_eq_nil_of_le h))]

theorem parts_of_lt (hk : 0 < k) (h : k < bs.length) :
    parts k bs = bs.take k :: parts k (bs.drop k) := by
  rw [parts, if_neg]
  rintro (hzero | hnil)
  · exact hk.ne' hzero
  · exact absurd (List.drop_eq_nil_iff.1 hnil) (Nat.not_le.2 h)

/-- Bytes of which no more are left than go into a line, or a full line and what is behind it. -/
theorem parts_induction (hk : 0 < k) {motive : List UInt8 → Prop}
    (last : ∀ bs, bs.length ≤ k → motive bs)
    (more : ∀ bs, k < bs.length → motive (bs.drop k) → motive bs) (bs : List UInt8) :
    motive bs := by
  induction bs using parts.induct k with
  | case1 bs hlast => exact last bs (List.drop_eq_nil_iff.1 (hlast.resolve_left hk.ne'))
  | case2 bs hmore ih =>
    refine more bs (Nat.lt_of_not_le fun hle => hmore (.inr ?_)) ih
    exact List.drop_eq_nil_of_le hle

theorem ceilDiv_of_lt (hk : 0 < k) {n : Nat} (h : k < n) : n ⌈/⌉ k = (n - k) ⌈/⌉ k + 1 := by
  rw [Nat.ceilDiv_eq_add_pred_div, Nat.ceilDiv_eq_add_pred_div, ← Nat.add_div_right _ hk]
  congr 1
  omega

theorem length_parts (hk : 0 < k) (bs : List UInt8) :
    (parts k bs).length = max 1 (bs.length ⌈/⌉ k) := by
  induction bs using parts_induction hk with
  | last bs hle =>
    have hone : bs.length ⌈/⌉ k ≤ 1 := by
      rwa [ceilDiv_le_iff_le_mul hk, Nat.mul_one]
    rw [parts_of_le hle, max_eq_left hone]
    rfl
  | more bs hlt ih =>
    -- Something is left behind the full line, so that its quotient is not 0 and the maximum is it.
    have hpos : 0 < (bs.length - k) ⌈/⌉ k := by
      refine Nat.lt_of_not_le fun hzero => ?_
      rw [ceilDiv_le_iff_le_mul hk, Nat.mul_zero] at hzero
      omega
    rw [parts_of_lt hk hlt, List.length_cons, ih, List.length_drop, ceilDiv_of_lt hk hlt]
    omega

theorem eq_of_getElem?_parts (hk : 0 < k) {i : Nat} {part : List UInt8}
    (h : (parts k bs)[i]? = some part) : part = (bs.drop (i * k)).take k := by
  induction bs using parts_induction hk generalizing i with
  | last bs hle =>
    rw [parts_of_le hle] at h
    cases i with
    | zero =>
      obtain rfl := Option.some.inj h
      rw [Nat.zero_mul, List.drop_zero, List.take_of_length_le hle]
    | succ i => cases h
  | more bs hlt ih =>
    rw [parts_of_lt hk hlt] at h
    cases i with
    | zero =>
      obtain rfl := Option.some.inj h
      rw [Nat.zero_mul, List.drop_zero]
    | succ i => rw [ih h, List.drop_drop, Nat.succ_mul, Nat.add_comm]

theorem length_take_of_lt (hk : 0 < k) {i : Nat} (h : i + 1 < (parts k bs).length) :
    ((bs.drop (i * k)).take k).length = k := by
  have hlt : k * (i + 1) < bs.length := by
    refine Nat.lt_of_not_le fun hle => ?_
    have hcount := (ceilDiv_le_iff_le_mul hk).2 hle
    rw [length_parts hk] at h
    omega
  rw [Nat.mul_succ, Nat.mul_comm] at hlt
  rw [List.length_take, List.length_drop]
  omega

theorem length_drop_last (hk : 0 < k) (bs : List UInt8) :
    (bs.drop (((parts k bs).length - 1) * k)).length ≤ k ∧
      (bs.drop (((parts k bs).length - 1) * k) = [] → bs = []) := by
  have hcount := length_parts hk bs
  obtain ⟨m, hm⟩ : ∃ m, (parts k bs).length = m + 1 := ⟨(parts k bs).length - 1, by omega⟩
  rw [hm] at hcount ⊢
  rw [Nat.add_sub_cancel, List.length_drop, List.drop_eq_nil_iff, Nat.mul_comm]
  constructor
  · have hall : bs.length ≤ k * (m + 1) := (ceilDiv_le_iff_le_mul hk).1 (by omega)
    rw [Nat.mul_succ] at hall
    omega
  · intro hle
    have hfewer := (ceilDiv_le_iff_le_mul hk).2 hle
    obtain rfl : m = 0 := by omega
    exact List.length_eq_zero_iff.1 (Nat.le_zero.1 hle)

end Parts

section Lines

variable {k : Nat} {bs : List UInt8}

theorem getElem?_marked {pieces : List (List Char)} {i : Nat} {line : List Char}
    (h : (marked pieces)[i]? = some line) : ∃ piece, pieces[i]? = some piece ∧
      line = (if i = 0 then opening else []) ++ piece ++
        if i + 1 = pieces.length then closing else continuation := by
  rw [marked, List.getElem?_mapIdx] at h
  obtain ⟨piece, hpiece, rfl⟩ := Option.map_eq_some_iff.1 h
  exact ⟨piece, hpiece, rfl⟩

/-- Behind the first line no line opens a literal again. -/
theorem not_opening_again (part : List UInt8) {mark : List Char} (h : Inner mark) :
    ¬ opening <+: encode part ++ mark := by
  rintro ⟨rest, hrest⟩
  have hinner := inner_encode_append part h
  rw [← hrest] at hinner
  rcases hinner with hb | hb
  · exact absurd hb (by decide)
  · exact absurd hb (by decide)

theorem filledLines_marked (hk : 0 < k) (bs : List UInt8) :
    FilledLines k bs (marked ((parts k bs).map encode)) := by
  have hlength : (marked ((parts k bs).map encode)).length = (parts k bs).length := by
    rw [marked, List.length_mapIdx, List.length_map]
  have hline {i : Nat} {line : List Char}
      (h : (marked ((parts k bs).map encode))[i]? = some line) :
      line = (if i = 0 then opening else []) ++ encode ((bs.drop (i * k)).take k) ++
        if i + 1 = (parts k bs).length then closing else continuation := by
    obtain ⟨piece, hpiece, rfl⟩ := getElem?_marked h
    rw [List.getElem?_map] at hpiece
    obtain ⟨part, hpart, rfl⟩ := Option.map_eq_some_iff.1 hpiece
    rw [← eq_of_getElem?_parts hk hpart, List.length_map]
  refine ⟨?_, ?_, ?_, ?_, ?_⟩
  · rw [hlength, length_parts hk]
  · intro i line h
    rw [hlength]
    exact hline h
  · intro i line h
    rw [hline h]
    by_cases hi : i = 0
    · rw [if_pos hi, List.append_assoc]
      exact iff_of_true (List.prefix_append _ _) hi
    · rw [if_neg hi, List.nil_append]
      refine iff_of_false (not_opening_again _ ?_) hi
      split
      · exact .inr rfl
      · exact .inl rfl
  · intro i hi
    rw [hlength] at hi
    exact length_take_of_lt hk hi
  · rw [hlength]
    exact length_drop_last hk bs

end Lines

/-- The lines of a literal are filled exactly. They are the pieces that a scan makes of the bytes'
escapes, the width in escapes to a line, rounded up. -/
theorem wrap_fills_lines {width : Nat} (hw : 0 < width) (bs : List UInt8) :
    ∃ ls, wrap width bs = .ok ls ∧ ls = marked (cut width (encode bs)) ∧
      FilledLines (width ⌈/⌉ escapeLength) bs ls := by
  have hk : 0 < width ⌈/⌉ escapeLength := by
    rw [Nat.ceilDiv_eq_add_pred_div, escapeLength]
    omega
  refine ⟨lines width bs, if_neg hw.ne', lines_eq_marked hw bs, ?_⟩
  rw [lines_eq_marked hw, cut_encode hw, perLine_eq]
  exact filledLines_marked hk bs

/-- Six bytes, three to a line: the text ends where a line does. -/
theorem wrap_fills_lines_sample :
    0 < 9 ∧ wrap 9 [1, 2, 3, 4, 5, 6] =
      .ok ["b\"\\x01\\x02\\x03\\".toList, "\\x04\\x05\\x06\",".toList] ∧
    FilledLines 3 [1, 2, 3, 4, 5, 6]
      ["b\"\\x01\\x02\\x03\\".toList, "\\x04\\x05\\x06\",".toList] := by
  have hlines : wrap 9 [1, 2, 3, 4, 5, 6] =
      .ok ["b\"\\x01\\x02\\x03\\".toList, "\\x04\\x05\\x06\",".toList] := by
    decide +kernel
  have hw : 0 < 9 := by decide
  obtain ⟨ls, hls, -, hfilled⟩ := wrap_fills_lines hw [1, 2, 3, 4, 5, 6]
  obtain rfl := Except.ok.inj (hlines.symm.trans hls)
  exact ⟨hw, hlines, hfilled⟩

end Literal

end FrozenDefaults
