import FrozenDefaults.Proofs.Digits
import FrozenDefaults.Proofs.Literals
import FrozenDefaults.Proofs.Members

/-!
# Escapes read back

A literal is decoded octet by octet: its octets are taken four at a time, and each
four must be an escape. No octet of a character that is not ASCII is part of an
escape, so that the texts that are decoded are those made of the escapes of bytes,
and nothing else is.
-/

namespace FrozenDefaults

namespace Literal

/-- A backslash, an `x` and the digits of a byte. -/
def IsEscape (b : UInt8) (group : List Char) : Prop :=
  ∃ pair, Hex.IsPair b pair ∧ group = '\\' :: 'x' :: pair

/-- The members four at a time. There may be fewer in the last group. -/
def fours {α : Type} : List α → List (List α)
  | a :: b :: c :: d :: rest => [a, b, c, d] :: fours rest
  | [] => []
  | rest => [rest]

def escapeOctets? : List UInt8 → Option UInt8
  | [0x5c, 0x78, high, low] => do
    let h ← Hex.value? (Text.ofOctet high)
    let l ← Hex.value? (Text.ofOctet low)
    return Hex.byteOf h l
  | _ => none

/-- The bytes of a literal that is given by its octets. -/
def decodeOctets? (raw : List UInt8) : Option (List UInt8) :=
  if raw.length % escapeLength = 0 then (fours raw).mapM escapeOctets? else none

theorem length_lt_of_short {α : Type} {l : List α}
    (h : ∀ a b c d rest, l ≠ a :: b :: c :: d :: rest) : l.length < escapeLength := by
  refine Nat.lt_of_not_le fun hle => ?_
  match l, h, hle with
  | a :: b :: c :: d :: rest, h, _ => exact h a b c d rest rfl

section Escape

variable {b : UInt8}

theorem isEscape_iff {c d : Char} : IsEscape b ['\\', 'x', c, d] ↔
    ∃ high low, Hex.value? c = some high ∧ Hex.value? d = some low ∧ b = Hex.byteOf high low := by
  rw [← Hex.isPair_iff]
  constructor
  · rintro ⟨pair, hpair, h⟩
    cases h
    exact hpair
  · exact fun h => ⟨[c, d], h, rfl⟩

theorem IsEscape.length {group : List Char} (h : IsEscape b group) :
    group.length = escapeLength := by
  obtain ⟨pair, hpair, rfl⟩ := h
  rw [List.length_cons, List.length_cons, hpair.length]
  rfl

theorem IsEscape.isAscii {group : List Char} (h : IsEscape b group) : Text.IsAscii group := by
  obtain ⟨pair, hpair, rfl⟩ := h
  exact List.forall_mem_cons.2 ⟨by decide, List.forall_mem_cons.2 ⟨by decide, hpair.isAscii⟩⟩

end Escape

section Grammar

variable {bs : List UInt8} {cs : List Char}

theorem decode?_cons_eq_some_iff {a b c d : Char} : decode? (a :: b :: c :: d :: cs) = some bs ↔
    ∃ x bs', IsEscape x [a, b, c, d] ∧ decode? cs = some bs' ∧ bs = x :: bs' := by
  -- A group without the two marks is no escape, whatever its digits.
  by_cases hmark : a = '\\' ∧ b = 'x'
  · obtain ⟨rfl, rfl⟩ := hmark
    simp only [decode?, Option.bind_eq_bind, Option.bind_eq_some_iff, Option.pure_def,
      Option.some.injEq, isEscape_iff]
    constructor
    · rintro ⟨high, hc, low, hd, bs', hcs, rfl⟩
      exact ⟨_, bs', ⟨high, low, hc, hd, rfl⟩, hcs, rfl⟩
    · rintro ⟨x, bs', ⟨high, low, hc, hd, rfl⟩, hcs, rfl⟩
      exact ⟨high, hc, low, hd, bs', hcs, rfl⟩
  · have hnone : decode? (a :: b :: c :: d :: cs) = none := by
      rw [decode?]
      · intro h
        cases h
      · intro high low rest h
        cases h
        exact hmark ⟨rfl, rfl⟩
    rw [hnone]
    refine ⟨fun h => (by cases h), ?_⟩
    rintro ⟨_, _, ⟨pair, _, h⟩, _⟩
    cases h
    exact absurd ⟨rfl, rfl⟩ hmark

theorem decode?_of_short (hne : cs ≠ []) (hlt : cs.length < escapeLength) : decode? cs = none := by
  rw [decode?]
  · exact hne
  · rintro high low rest rfl
    exact absurd hlt (Nat.not_lt.2 (Nat.le_add_left 4 rest.length))

theorem decode?_eq_some_iff : decode? cs = some bs ↔ Text.Joins IsEscape bs cs := by
  constructor
  · intro h
    -- By induction four characters at a time: what is left in the end is no escape.
    induction cs using fours.induct generalizing bs with
    | case1 a b c d cs ih =>
      obtain ⟨x, bs', hx, hcs, rfl⟩ := decode?_cons_eq_some_iff.1 h
      exact .cons hx (ih hcs)
    | case2 =>
      obtain rfl := Option.some.inj h
      exact .nil
    | case3 cs hlong hne =>
      rw [decode?_of_short hne (length_lt_of_short hlong)] at h
      cases h
  · intro h
    induction h with
    | nil => rfl
    | cons hx _ ih =>
      obtain ⟨_, ⟨_, _, c, d, _, _, rfl, _⟩, rfl⟩ := id hx
      exact decode?_cons_eq_some_iff.2 ⟨_, _, hx, ih, rfl⟩

end Grammar

section Octets

variable {raw : List UInt8} {bs : List UInt8}

theorem escapeOctets?_eq_some_iff {a b c d x : UInt8} : escapeOctets? [a, b, c, d] = some x ↔
    IsEscape x [Text.ofOctet a, Text.ofOctet b, Text.ofOctet c, Text.ofOctet d] := by
  by_cases hmark : a = 0x5c ∧ b = 0x78
  · obtain ⟨rfl, rfl⟩ := hmark
    have hbackslash : Text.ofOctet 0x5c = '\\' := rfl
    have hx : Text.ofOctet 0x78 = 'x' := rfl
    simp only [hbackslash, hx, isEscape_iff, escapeOctets?, Option.bind_eq_bind,
      Option.bind_eq_some_iff, Option.pure_def, Option.some.injEq]
    constructor
    · rintro ⟨high, hc, low, hd, rfl⟩
      exact ⟨high, low, hc, hd, rfl⟩
    · rintro ⟨high, low, hc, hd, rfl⟩
      exact ⟨high, hc, low, hd, rfl⟩
  · have hnone : escapeOctets? [a, b, c, d] = none := by
      rw [escapeOctets?]
      intro high low h
      cases h
      exact hmark ⟨rfl, rfl⟩
    rw [hnone]
    refine ⟨fun h => (by cases h), ?_⟩
    rintro ⟨pair, _, h⟩
    obtain ⟨ha, h⟩ := List.cons.inj h
    exact absurd ⟨Text.ofOctet_injective ha, Text.ofOctet_injective (List.cons.inj h).1⟩ hmark

theorem decodeOctets?_cons_eq_some_iff {a b c d : UInt8} :
    decodeOctets? (a :: b :: c :: d :: raw) = some bs ↔
      ∃ x bs', escapeOctets? [a, b, c, d] = some x ∧ decodeOctets? raw = some bs' ∧
        bs = x :: bs' := by
  have hlength : (a :: b :: c :: d :: raw).length % escapeLength = raw.length % escapeLength :=
    Nat.add_mod_right raw.length escapeLength
  have hfours : fours (a :: b :: c :: d :: raw) = [a, b, c, d] :: fours raw := rfl
  rw [decodeOctets?, decodeOctets?, hlength, hfours]
  split
  · rw [Datum.mapM_eq_some_iff, List.forall₂_cons_left_iff]
    simp only [Datum.mapM_eq_some_iff]
  · refine ⟨fun h => (by cases h), ?_⟩
    rintro ⟨_, _, _, h, _⟩
    cases h

theorem decodeOctets?_eq (raw : List UInt8) :
    decodeOctets? raw = decode? (raw.map Text.ofOctet) := by
  refine Option.ext fun bs => ?_
  -- Octets in fours stand for characters in fours, and the length refuses what is left of both.
  induction raw using fours.induct generalizing bs with
  | case1 a b c d raw ih =>
    rw [decodeOctets?_cons_eq_some_iff, List.map_cons, List.map_cons, List.map_cons, List.map_cons,
      decode?_cons_eq_some_iff]
    simp only [escapeOctets?_eq_some_iff, ih]
  | case2 => rfl
  | case3 raw hlong hne =>
    have hlt : raw.length < escapeLength := length_lt_of_short hlong
    have hpos := List.length_pos_of_ne_nil hne
    have hlength : raw.length % escapeLength ≠ 0 := by
      rw [Nat.mod_eq_of_lt hlt]
      exact hpos.ne'
    rw [decodeOctets?, if_neg hlength,
      decode?_of_short (fun h => hne (List.map_eq_nil_iff.1 h)) (by rwa [List.length_map])]

end Octets

/-- The bytes of a literal, from the octets of its text. -/
def decodeText? (t : String) : Option (List UInt8) := decodeOctets? t.toUTF8.toList

theorem decodeText?_eq (t : String) : decodeText? t = decode? t.toList := by
  rw [decodeText?, decodeOctets?_eq, Text.map_ofOctet_toUTF8]
  exact Text.read_recast (fun h => (decode?_eq_some_iff.1 h).isAscii IsEscape.isAscii) t.toList

section LowerCase

theorem isUpper_escape (b : UInt8) : ∀ c ∈ escape b, c.isUpper = false :=
  List.forall_mem_cons.2 ⟨rfl, List.forall_mem_cons.2 ⟨rfl, Hex.isUpper_encodeByte b⟩⟩

theorem IsEscape.eq_escape {b : UInt8} {group : List Char} (h : IsEscape b group)
    (hlower : ∀ c ∈ group, c.isUpper = false) : group = escape b := by
  obtain ⟨pair, hpair, rfl⟩ := h
  have hdigits := (List.forall_mem_cons.1 (List.forall_mem_cons.1 hlower).2).2
  rw [escape, hpair.eq_encodeByte hdigits]

/-- Of the texts that stand for bytes, the one in lower case is what is written for them. -/
theorem joins_lower_iff {bs : List UInt8} {cs : List Char} :
    (Text.Joins IsEscape bs cs ∧ ∀ c ∈ cs, c.isUpper = false) ↔ cs = encode bs := by
  constructor
  · rintro ⟨h, hlower⟩
    induction h with
    | nil => rfl
    | cons hb _ ih =>
      obtain ⟨hgroup, hrest⟩ := List.forall_mem_append.1 hlower
      rw [hb.eq_escape hgroup, ih hrest]
      rfl
  · rintro rfl
    refine ⟨decode?_eq_some_iff.1 (decode?_encode bs), fun c hc => ?_⟩
    obtain ⟨b, _, hc⟩ := List.mem_flatMap.1 hc
    exact isUpper_escape b c hc

end LowerCase

/-- Decoding accepts the texts that are made of one escape for each byte, in order, and no others.
Of those that stand for the same bytes, the one without a capital letter is the literal that is
written for them. Text with a character that is not ASCII is refused, though it is decoded octet by
octet. -/
theorem escapes_decode_exactly (t : String) :
    decodeText? t = decode? t.toList ∧
    (∀ bs, decodeText? t = some bs ↔
      ∃ groups, List.Forall₂ IsEscape bs groups ∧ t.toList = groups.flatten) ∧
    (∀ bs, decodeText? t = some bs ∧ (∀ c ∈ t.toList, c.isUpper = false) ↔
      t.toList = encode bs) ∧
    ((∀ bs groups, List.Forall₂ IsEscape bs groups → t.toList ≠ groups.flatten) →
      decodeText? t = none) ∧
    ((∃ c ∈ t.toList, 128 ≤ c.toNat) → decodeText? t = none) := by
  have hiff (bs : List UInt8) : decodeText? t = some bs ↔ Text.Joins IsEscape bs t.toList := by
    rw [decodeText?_eq, decode?_eq_some_iff]
  refine ⟨decodeText?_eq t, fun bs => ?_, fun bs => ?_, fun hother => ?_, ?_⟩
  · rw [hiff, Text.joins_iff]
  · rw [hiff, joins_lower_iff]
  · refine Option.eq_none_iff_forall_ne_some.2 fun bs h => ?_
    obtain ⟨groups, hgroups, hcs⟩ := Text.joins_iff.1 ((hiff bs).1 h)
    exact hother bs groups hgroups hcs
  · rintro ⟨c, hc, hge⟩
    refine Option.eq_none_iff_forall_ne_some.2 fun bs h => ?_
    exact absurd (((hiff bs).1 h).isAscii IsEscape.isAscii c hc) (Nat.not_lt.2 hge)

/-- Digits in both cases, and a character of two octets in the place of two digits. -/
theorem escapes_decode_exactly_sample :
    decodeText? "\\x5C\\xa0" = some [0x5c, 0xa0] ∧
    (∃ c ∈ "\\xé".toList, 128 ≤ c.toNat) ∧ "\\xé".toUTF8.toList.length = 4 ∧
    decodeText? "\\xé" = none := by
  obtain ⟨-, hiff, -⟩ := escapes_decode_exactly "\\x5C\\xa0"
  obtain ⟨-, -, -, -, hwide⟩ := escapes_decode_exactly "\\xé"
  have hc : ∃ c ∈ "\\xé".toList, 128 ≤ c.toNat := ⟨'é', by decide, by decide⟩
  refine ⟨(hiff _).2 ⟨["\\x5C".toList, "\\xa0".toList], ?_, rfl⟩, hc, by decide +kernel, hwide hc⟩
  exact .cons ⟨_, ⟨5, 12, '5', 'C', by decide, by decide, rfl, rfl⟩, rfl⟩
    (.cons ⟨_, ⟨10, 0, 'a', '0', by decide, by decide, rfl, rfl⟩, rfl⟩ .nil)

end Literal

end FrozenDefaults
