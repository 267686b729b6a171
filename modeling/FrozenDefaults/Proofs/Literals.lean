import FrozenDefaults.Literal

/-!
# Literals read back

The lines of a literal, however far they are set in, hold the escapes of its
bytes, and these decode to the bytes.
-/

namespace FrozenDefaults

namespace Text

/-- The line does not begin with a blank. -/
def Flush : List Char → Prop
  | [] => False
  | c :: _ => isBlank c = false

theorem trimStart_of_flush {line : List Char} (h : Flush line) : trimStart line = line := by
  cases line with
  | nil => exact h.elim
  | cons c cs => exact List.dropWhile_cons_of_neg (Bool.eq_false_iff.1 h)

theorem trimStart_append {blanks line : List Char} (hb : ∀ c ∈ blanks, isBlank c)
    (h : Flush line) : trimStart (blanks ++ line) = line := by
  rw [trimStart, List.dropWhile_append_of_pos hb]
  exact trimStart_of_flush h

theorem trimStart_indent {line : List Char} (h : Flush line) (n : Nat) :
    trimStart (List.replicate n ' ' ++ line) = line := by
  refine trimStart_append (fun c hc => ?_) h
  rw [List.eq_of_mem_replicate hc]
  decide

end Text

namespace Literal

theorem stripBack_append (cs mark : List Char) : stripBack mark (cs ++ mark) = cs := by
  rw [stripBack, if_pos (List.isSuffixOf_iff_suffix.2 (List.suffix_append cs mark)),
    List.length_append, Nat.add_sub_cancel, List.take_left]

theorem stripFront_append (mark cs : List Char) : stripFront mark (mark ++ cs) = cs := by
  rw [stripFront, if_pos (List.isPrefixOf_iff_prefix.2 (List.prefix_append mark cs)),
    List.drop_left]

theorem encode_append (bs bs' : List UInt8) : encode (bs ++ bs') = encode bs ++ encode bs' :=
  List.flatMap_append

theorem decode?_encode (bs : List UInt8) : decode? (encode bs) = some bs := by
  induction bs with
  | nil => rfl
  | cons b bs ih =>
    have hb := b.toNat_lt
    have hhigh := Hex.value?_digit (n := b.toNat / 16) (by omega)
    have hlow := Hex.value?_digit (n := b.toNat % 16) (by omega)
    have hcons : encode (b :: bs) = '\\' :: 'x' :: Hex.digit (b.toNat / 16) ::
        Hex.digit (b.toNat % 16) :: encode bs := rfl
    rw [hcons, decode?, hhigh, hlow, ih]
    simp only [Option.bind_eq_bind, Option.bind_some, Hex.byteOf_halves]
    rfl

theorem parts_flatten (n : Nat) (bs : List UInt8) : (parts n bs).flatten = bs := by
  induction bs using parts.induct n with
  | case1 bs h =>
    rw [parts, if_pos h]
    exact List.append_nil bs
  | case2 bs h ih =>
    rw [parts, if_neg h, List.flatten_cons, ih, List.take_append_drop]

theorem parts_ne_nil (n : Nat) (bs : List UInt8) : parts n bs ≠ [] := by
  rw [parts]
  split
  · exact List.cons_ne_nil _ _
  · exact List.cons_ne_nil _ _

theorem joined_cons {line : List Char} {rest : List (List Char)} (h : rest ≠ []) :
    joined (line :: rest) = stripBack continuation line ++ joined rest := by
  cases rest with
  | nil => exact absurd rfl h
  | cons next rest => rfl

theorem continued_ne_nil {ps : List (List UInt8)} (h : ps ≠ []) : continued ps ≠ [] := by
  rcases ps with _ | ⟨p, _ | ⟨q, ps⟩⟩
  · exact absurd rfl h
  · exact List.cons_ne_nil _ _
  · exact List.cons_ne_nil _ _

theorem joined_continued (ps : List (List UInt8)) : joined (continued ps) = encode ps.flatten := by
  induction ps with
  | nil => rfl
  | cons p ps ih =>
    cases ps with
    | nil =>
      rw [continued, joined, stripBack_append, List.flatten_cons, List.flatten_nil,
        List.append_nil]
    | cons q ps =>
      have hne := continued_ne_nil (List.cons_ne_nil q ps)
      have hc : continued (p :: q :: ps) = (encode p ++ continuation) :: continued (q :: ps) := rfl
      rw [hc, joined_cons hne, stripBack_append, ih, ← encode_append, ← List.flatten_cons]

/-- The line goes on with an escape or ends the literal. -/
def Inner : List Char → Prop
  | [] => False
  | c :: _ => c = '\\' ∨ c = '"'

theorem Inner.flush {line : List Char} (h : Inner line) : Text.Flush line := by
  cases line with
  | nil => exact h
  | cons c cs => rcases h with rfl | rfl <;> rfl

theorem inner_encode_append (p : List UInt8) {line : List Char} (h : Inner line) :
    Inner (encode p ++ line) := by
  cases p with
  | nil => exact h
  | cons b p => exact .inl rfl

theorem inner_of_mem_continued {ps : List (List UInt8)} {line : List Char}
    (h : line ∈ continued ps) : Inner line := by
  induction ps with
  | nil => cases h
  | cons p ps ih =>
    cases ps with
    | nil =>
      obtain rfl := List.mem_singleton.1 h
      exact inner_encode_append p (.inr rfl)
    | cons q ps =>
      rcases List.mem_cons.1 h with rfl | h
      · exact inner_encode_append p (.inl rfl)
      · exact ih h

theorem lines_cases (width : Nat) (bs : List UInt8) : ∃ first rest,
    lines width bs = (opening ++ first) :: rest ∧
      continued (parts (perLine width) bs) = first :: rest ∧ ∀ line ∈ rest, Inner line := by
  cases h : continued (parts (perLine width) bs) with
  | nil => exact absurd h (continued_ne_nil (parts_ne_nil _ _))
  | cons first rest =>
    refine ⟨first, rest, ?_, rfl, fun line hl => ?_⟩
    · rw [lines, h]
    · exact inner_of_mem_continued (h ▸ List.mem_cons_of_mem first hl)

theorem flush_of_mem_lines {width : Nat} {bs : List UInt8} {line : List Char}
    (h : line ∈ lines width bs) : Text.Flush line := by
  obtain ⟨first, rest, hl, _, hrest⟩ := lines_cases width bs
  rw [hl] at h
  rcases List.mem_cons.1 h with rfl | h
  · rfl
  · exact (hrest line h).flush

/-- Blanks in front of the lines of a literal do not count. -/
theorem content_of_trimStart {width : Nat} {bs : List UInt8} {ls : List (List Char)}
    (h : ls.map Text.trimStart = lines width bs) : content ls = encode bs := by
  obtain ⟨first, rest, hl, hc, _⟩ := lines_cases width bs
  have hjoin : joined (first :: rest) = encode bs := by
    rw [← hc, joined_continued, parts_flatten]
  rw [content, h, hl]
  simp only [stripFront_append, hjoin]

theorem content_lines (width : Nat) (bs : List UInt8) : content (lines width bs) = encode bs := by
  apply content_of_trimStart
  rw [List.map_congr_left fun line h => Text.trimStart_of_flush (flush_of_mem_lines h)]
  exact List.map_id _

theorem decode?_content_lines (width : Nat) (bs : List UInt8) :
    decode? (content (lines width bs)) = some bs := by
  rw [content_lines, decode?_encode]

end Literal

end FrozenDefaults
