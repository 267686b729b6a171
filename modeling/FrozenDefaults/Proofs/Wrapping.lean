import FrozenDefaults.Proofs.Agreeing

/-!
# Literals broken into lines

A literal is broken where a scan of its text comes to the end of a line: the
scan goes on for the width and then to the next backslash. Since a backslash
begins every escape and stands nowhere else, the lines are those of whole
escapes. They read back however they are set in.
-/

namespace FrozenDefaults

namespace Literal

/-- The text from the end of its first line on: the first backslash that has the width before
it. -/
def behindLine (width : Nat) (text : List Char) : List Char :=
  (text.drop width).dropWhile (· ≠ '\\')

def firstLine (width : Nat) (text : List Char) : List Char :=
  text.take width ++ (text.drop width).takeWhile (· ≠ '\\')

theorem firstLine_append_behindLine (width : Nat) (text : List Char) :
    firstLine width text ++ behindLine width text = text := by
  rw [firstLine, behindLine, List.append_assoc, List.takeWhile_append_dropWhile,
    List.take_append_drop]

theorem length_behindLine_lt {width : Nat} {text : List Char} (hw : width ≠ 0)
    (h : behindLine width text ≠ []) : (behindLine width text).length < text.length := by
  have hle := (List.dropWhile_sublist (· ≠ '\\') (l := text.drop width)).length_le
  have hpos := List.length_pos_of_ne_nil h
  rw [List.length_drop] at hle
  rw [behindLine] at hpos ⊢
  omega

/-- The text cut where a scan comes to the end of a line. -/
def cut (width : Nat) (text : List Char) : List (List Char) :=
  if width = 0 ∨ behindLine width text = [] then [text]
  else firstLine width text :: cut width (behindLine width text)
termination_by text.length
decreasing_by
  rename_i h
  exact length_behindLine_lt (not_or.1 h).1 (not_or.1 h).2

/-- The pieces of a literal between its marks. -/
def marked (pieces : List (List Char)) : List (List Char) :=
  pieces.mapIdx fun i piece =>
    (if i = 0 then opening else []) ++ piece ++
      if i + 1 = pieces.length then closing else continuation

section Scan

theorem digit_ne_backslash {n : Nat} (h : n < 16) : Hex.digit n ≠ '\\' := by
  intro hd
  have hv := Hex.value?_digit h
  rw [hd] at hv
  cases hv

theorem ne_backslash_of_mem {b : UInt8} {c : Char} (h : c ∈ 'x' :: Hex.encodeByte b) :
    c ≠ '\\' := by
  have hb := b.toNat_lt
  rcases List.mem_cons.1 h with rfl | h
  · decide
  · rcases List.mem_pair.1 h with rfl | rfl <;> exact digit_ne_backslash (by omega)

/-- The scan stops at the first escape that begins at the width or behind it. -/
theorem behindLine_encode (width : Nat) (bs : List UInt8) :
    behindLine width (encode bs) = encode (bs.drop (perLine width)) := by
  rw [behindLine]
  induction bs generalizing width with
  | nil => simp [encode]
  | cons b bs ih =>
    cases width with
    | zero => rfl
    | succ k =>
      have hcons : encode (b :: bs) = '\\' :: ('x' :: Hex.encodeByte b ++ encode bs) := rfl
      have hlength : ('x' :: Hex.encodeByte b).length = 3 := rfl
      have hper : perLine (k + 1) = perLine (k - 3) + 1 := by
        simp only [perLine, escapeLength]
        omega
      rw [hcons, List.drop_succ_cons, List.drop_append, hlength, List.dropWhile_append_of_pos, ih,
        hper, List.drop_succ_cons]
      intro c hc
      exact decide_eq_true (ne_backslash_of_mem (List.mem_of_mem_drop hc))

theorem firstLine_encode (width : Nat) (bs : List UInt8) :
    firstLine width (encode bs) = encode (bs.take (perLine width)) := by
  have hwhole := firstLine_append_behindLine width (encode bs)
  rw [behindLine_encode] at hwhole
  apply List.append_cancel_right
  rw [hwhole, ← encode_append, List.take_append_drop]

theorem encode_eq_nil_iff {bs : List UInt8} : encode bs = [] ↔ bs = [] := by
  cases bs with
  | nil => exact iff_of_true rfl rfl
  | cons b bs => exact iff_of_false (List.cons_ne_nil _ _) (List.cons_ne_nil _ _)

/-- The scan breaks a literal between escapes, with as many in a line as reach the width. -/
theorem cut_encode {width : Nat} (h : 0 < width) (bs : List UInt8) :
    cut width (encode bs) = (parts (perLine width) bs).map encode := by
  have hper : perLine width ≠ 0 := by
    simp only [perLine, escapeLength]
    omega
  -- By induction on the parts: behind the first line of a text of escapes is a text of escapes.
  induction bs using parts.induct (perLine width) with
  | case1 bs hlast =>
    have hend : behindLine width (encode bs) = [] := by
      rw [behindLine_encode, hlast.resolve_left hper]
      rfl
    rw [cut, if_pos (.inr hend), parts, if_pos hlast]
    rfl
  | case2 bs hmore ih =>
    have hgoes : ¬ (width = 0 ∨ behindLine width (encode bs) = []) := by
      rw [behindLine_encode, encode_eq_nil_iff]
      exact not_or.2 ⟨h.ne', (not_or.1 hmore).2⟩
    rw [cut, if_neg hgoes, parts, if_neg hmore, List.map_cons, ← ih, firstLine_encode,
      behindLine_encode]

end Scan

section Marks

theorem continued_eq_mapIdx (ps : List (List UInt8)) : continued ps =
    (ps.map encode).mapIdx fun i piece =>
      piece ++ if i + 1 = ps.length then closing else continuation := by
  induction ps with
  | nil => rfl
  | cons p ps ih =>
    cases ps with
    | nil => rfl
    | cons q ps =>
      have hc : continued (p :: q :: ps) = (encode p ++ continuation) :: continued (q :: ps) := rfl
      have hfirst : 0 + 1 ≠ (p :: q :: ps).length := by simp only [List.length_cons]; omega
      refine Eq.trans ?_ List.mapIdx_cons.symm
      rw [hc, ih, if_neg hfirst]
      simp only [List.length_cons, Nat.add_right_cancel_iff, List.map_cons]

theorem lines_eq_marked {width : Nat} (h : 0 < width) (bs : List UInt8) :
    lines width bs = marked (cut width (encode bs)) := by
  rw [cut_encode h, lines, continued_eq_mapIdx, marked, List.length_map]
  cases hps : parts (perLine width) bs with
  | nil => exact absurd hps (parts_ne_nil _ _)
  | cons p ps =>
    simp only [List.map_cons, List.mapIdx_cons, if_true, List.append_assoc, Nat.succ_ne_zero,
      if_false, List.nil_append]

end Marks

section SetIn

/-- The line stands behind spaces and tabs. -/
def SetIn (line placed : List Char) : Prop :=
  ∃ blanks, (∀ c ∈ blanks, c = ' ' ∨ c = '\t') ∧ placed = blanks ++ line

variable {width : Nat} {bs : List UInt8}

theorem SetIn.trimStart {line placed : List Char} (h : SetIn line placed)
    (hflush : Text.Flush line) : Text.trimStart placed = line := by
  obtain ⟨blanks, hblanks, rfl⟩ := h
  refine Text.trimStart_append (fun c hc => ?_) hflush
  rcases hblanks c hc with rfl | rfl <;> decide

theorem map_trimStart_of_setIn {ls placed : List (List Char)} (h : List.Forall₂ SetIn ls placed)
    (hflush : ∀ line ∈ ls, Text.Flush line) : placed.map Text.trimStart = ls := by
  induction h with
  | nil => rfl
  | cons hline _ ih =>
    obtain ⟨hfirst, hrest⟩ := List.forall_mem_cons.1 hflush
    rw [List.map_cons, hline.trimStart hfirst, ih hrest]

theorem content_of_setIn {placed : List (List Char)}
    (h : List.Forall₂ SetIn (lines width bs) placed) : content placed = encode bs :=
  content_of_trimStart (map_trimStart_of_setIn h fun _ => flush_of_mem_lines)

/-- Literals broken at any width read back, however their lines are set in. The lines are the pieces
of the bytes' escapes that a scan makes of them, between marks that do not cut into the bytes; what
stands between the marks does not depend on the width. So the literals of an arena hold its
segments, and no check of them fails. -/
theorem wrap_reads_back {width : Nat} (hw : 0 < width) :
    (∀ bs, ∃ ls, wrap width bs = .ok ls ∧ ls = marked (cut width (encode bs)) ∧
      ∀ placed, List.Forall₂ SetIn ls placed →
        content placed = encode bs ∧ decode? (content placed) = some bs) ∧
    ∀ a : Arena,
      (Listing.literals width a).map (fun ls => decode? (content ls)) = a.toSegments.map some ∧
      ∀ world, Agreement.checkLiterals world width a = .ok () := by
  refine ⟨fun bs => ?_, fun a => ⟨?_, fun world => ?_⟩⟩
  · refine ⟨lines width bs, if_neg hw.ne', lines_eq_marked hw bs, fun placed h => ?_⟩
    have hcontent := content_of_setIn h
    exact ⟨hcontent, by rw [hcontent, decode?_encode]⟩
  · rw [Listing.literals, List.map_map]
    exact List.map_congr_left fun bs _ => decode?_content_lines width bs
  · exact Agreement.checkLiteralsFrom_ok world width 0 a.toSegments

/-- A backslash and a quote among the bytes, in two lines that are set in differently, and an arena
of two segments of which one is empty. -/
theorem wrap_reads_back_sample :
    0 < 5 ∧
    wrap 5 [0x5c, 0x22, 0x01] = .ok ["b\"\\x5c\\x22\\".toList, "\\x01\",".toList] ∧
    decode? (content ["\t b\"\\x5c\\x22\\".toList, "      \\x01\",".toList]) =
      some [0x5c, 0x22, 0x01] ∧
    (Listing.literals 5 ⟨#[⟨#[0x5c, 0x22, 1, 2, 3, 4, 5, 6], 8⟩, ⟨#[], 16⟩], 1024⟩).map
      (fun ls => decode? (content ls)) = [some [0x5c, 0x22, 1, 2, 3, 4, 5, 6], some []] := by
  have hw : 0 < 5 := by decide
  have hlines : wrap 5 [0x5c, 0x22, 0x01] =
      .ok ["b\"\\x5c\\x22\\".toList, "\\x01\",".toList] := by decide +kernel
  obtain ⟨hbytes, harena⟩ := wrap_reads_back hw
  obtain ⟨ls, hls, -, hread⟩ := hbytes [0x5c, 0x22, 0x01]
  obtain rfl := Except.ok.inj (hlines.symm.trans hls)
  have hfirst : SetIn "b\"\\x5c\\x22\\".toList "\t b\"\\x5c\\x22\\".toList :=
    ⟨['\t', ' '], fun c hc => (List.mem_pair.1 hc).symm, rfl⟩
  have hlast : SetIn "\\x01\",".toList "      \\x01\",".toList :=
    ⟨List.replicate 6 ' ', fun c hc => .inl (List.eq_of_mem_replicate hc), rfl⟩
  exact ⟨hw, hlines, (hread _ (.cons hfirst (.cons hlast .nil))).2, (harena _).1⟩

end SetIn

end Literal

end FrozenDefaults
