import Mathlib.Data.List.Forall2
import FrozenDefaults.Proofs.Octets
import FrozenDefaults.Proofs.Resolution

/-!
# Hexadecimal text spelled out

A byte is spelled by two digits, each in one of two alphabets. What is decoded
from the octets of a text is what the text spells, and a text that spells nothing
is not decoded.
-/

namespace FrozenDefaults

namespace Text

variable {α : Type} {R : α → List Char → Prop}

/-- The text is made of a group of characters for each member of a list, in order. -/
inductive Joins (R : α → List Char → Prop) : List α → List Char → Prop
  | nil : Joins R [] []
  | cons {x : α} {xs : List α} {group cs : List Char} (hx : R x group) (hxs : Joins R xs cs) :
      Joins R (x :: xs) (group ++ cs)

theorem joins_iff {xs : List α} {cs : List Char} :
    Joins R xs cs ↔ ∃ groups, List.Forall₂ R xs groups ∧ cs = groups.flatten := by
  constructor
  · intro h
    induction h with
    | nil => exact ⟨[], .nil, rfl⟩
    | cons hx _ ih =>
      obtain ⟨groups, hgroups, rfl⟩ := ih
      exact ⟨_ :: groups, .cons hx hgroups, rfl⟩
  · rintro ⟨groups, hgroups, rfl⟩
    induction hgroups with
    | nil => exact .nil
    | cons hx _ ih => exact .cons hx ih

theorem Joins.isAscii (hR : ∀ {x group}, R x group → IsAscii group) {xs : List α}
    {cs : List Char} (h : Joins R xs cs) : IsAscii cs := by
  induction h with
  | nil => exact fun c hc => absurd hc List.not_mem_nil
  | cons hx _ ih => exact List.forall_mem_append.2 ⟨hR hx, ih⟩

theorem Joins.length {k : Nat} (hR : ∀ {x group}, R x group → group.length = k) {xs : List α}
    {cs : List Char} (h : Joins R xs cs) : cs.length = k * xs.length := by
  induction h with
  | nil => rfl
  | cons hx _ ih => rw [List.length_append, hR hx, ih, List.length_cons, Nat.mul_succ, Nat.add_comm]

end Text

namespace Hex

/-- The digit `n`, in the lower or in the upper case. -/
def IsDigit (n : Nat) (c : Char) : Prop :=
  "0123456789abcdef".toList[n]? = some c ∨ "0123456789ABCDEF".toList[n]? = some c

instance (n : Nat) (c : Char) : Decidable (IsDigit n c) := inferInstanceAs (Decidable (_ ∨ _))

/-- Two digits for a byte, the high one first. -/
def IsPair (b : UInt8) (cs : List Char) : Prop :=
  ∃ high low c d, IsDigit high c ∧ IsDigit low d ∧ cs = [c, d] ∧ b.toNat = 16 * high + low

def Spells : List UInt8 → List Char → Prop := Text.Joins IsPair

def decodeText (t : String) : Except Fault (List UInt8) := decode t.toUTF8.toList

/-- What hexadecimal text stands for, without the fault of text that stands for nothing. -/
def read? : List Char → Option (List UInt8)
  | [] => some []
  | [_] => none
  | high :: low :: rest => do
    let h ← value? high
    let l ← value? low
    return byteOf h l :: (← read? rest)

theorem IsDigit.lt {n : Nat} {c : Char} (h : IsDigit n c) : n < 16 := by
  rcases h with h | h <;> exact (List.getElem?_eq_some_iff.1 h).1

theorem IsDigit.of_alphabets {P : Nat → Char → Bool}
    (hall : ∀ n < 16, "0123456789abcdef".toList[n]?.all (P n) ∧
      "0123456789ABCDEF".toList[n]?.all (P n)) {n : Nat} {c : Char} (h : IsDigit n c) :
    P n c = true := by
  obtain ⟨hlower, hupper⟩ := hall n h.lt
  rcases h with h | h
  · rwa [h] at hlower
  · rwa [h] at hupper

theorem IsDigit.value?_eq {n : Nat} {c : Char} (h : IsDigit n c) : value? c = some n :=
  of_decide_eq_true (h.of_alphabets (P := fun n c => decide (value? c = some n)) (by decide))

theorem lt_of_value? {n : Nat} {c : Char} (h : value? c = some n) : c.toNat < 128 := by
  have hle {d : Char} (hc : c ≤ d) (hd : d.toNat < 128) : c.toNat < 128 :=
    Nat.lt_of_le_of_lt (UInt32.le_iff_toNat_le.1 (Char.le_def.1 hc)) hd
  unfold value? at h
  split at h
  · rename_i hc
    exact hle hc.2 (by decide)
  · split at h
    · rename_i hc
      exact hle hc.2 (by decide)
    · split at h
      · rename_i hc
        exact hle hc.2 (by decide)
      · cases h

theorem value?_eq_some_iff {n : Nat} {c : Char} : value? c = some n ↔ IsDigit n c := by
  refine ⟨fun h => ?_, IsDigit.value?_eq⟩
  -- A character with a value is ASCII, and so one of finitely many.
  have hcases : ∀ m < 128, (value? (Char.ofNat m)).all fun n => IsDigit n (Char.ofNat m) := by
    decide
  have hc := hcases c.toNat (lt_of_value? h)
  rw [Char.ofNat_toNat, h] at hc
  exact of_decide_eq_true hc

theorem toNat_byteOf {high low : Nat} (hh : high < 16) (hl : low < 16) :
    (byteOf high low).toNat = 16 * high + low :=
  UInt8.toNat_ofNat_of_lt' (by simp only [UInt8.size]; omega)

theorem isPair_iff {b : UInt8} {c d : Char} : IsPair b [c, d] ↔
    ∃ high low, value? c = some high ∧ value? d = some low ∧ b = byteOf high low := by
  constructor
  · rintro ⟨high, low, _, _, hc, hd, hcs, hb⟩
    cases hcs
    refine ⟨high, low, hc.value?_eq, hd.value?_eq, UInt8.toNat_inj.1 ?_⟩
    rw [hb, toNat_byteOf hc.lt hd.lt]
  · rintro ⟨high, low, hc, hd, rfl⟩
    have hc := value?_eq_some_iff.1 hc
    have hd := value?_eq_some_iff.1 hd
    exact ⟨high, low, c, d, hc, hd, rfl, toNat_byteOf hc.lt hd.lt⟩

theorem IsPair.isAscii {b : UInt8} {cs : List Char} (h : IsPair b cs) : Text.IsAscii cs := by
  obtain ⟨_, _, c, d, hc, hd, rfl, _⟩ := h
  intro e he
  rcases List.mem_pair.1 he with rfl | rfl
  · exact lt_of_value? hc.value?_eq
  · exact lt_of_value? hd.value?_eq

theorem IsPair.length {b : UInt8} {cs : List Char} (h : IsPair b cs) : cs.length = 2 := by
  obtain ⟨_, _, c, d, _, _, rfl, _⟩ := h
  rfl

theorem exists_spells_iff {cs : List Char} :
    (∃ bs, Spells bs cs) ↔ (∀ c ∈ cs, ∃ n, IsDigit n c) ∧ cs.length % 2 = 0 := by
  constructor
  · rintro ⟨bs, h⟩
    refine ⟨?_, by rw [h.length IsPair.length, Nat.mul_mod_right]⟩
    induction h with
    | nil => exact fun c hc => absurd hc List.not_mem_nil
    | cons hb _ ih =>
      obtain ⟨high, low, c, d, hc, hd, rfl, _⟩ := hb
      exact List.forall_mem_cons.2 ⟨⟨high, hc⟩, List.forall_mem_cons.2 ⟨⟨low, hd⟩, ih⟩⟩
  · rintro ⟨hdigits, heven⟩
    induction cs using read?.induct with
    | case1 => exact ⟨[], .nil⟩
    | case2 c => cases heven
    | case3 c d cs ih =>
      obtain ⟨⟨high, hc⟩, hdigits⟩ := List.forall_mem_cons.1 hdigits
      obtain ⟨⟨low, hd⟩, hdigits⟩ := List.forall_mem_cons.1 hdigits
      rw [List.length_cons, List.length_cons] at heven
      obtain ⟨bs, hbs⟩ := ih hdigits (by omega)
      exact ⟨_, .cons (isPair_iff.2 ⟨high, low, hc.value?_eq, hd.value?_eq, rfl⟩) hbs⟩

theorem read?_cons_cons_eq_some_iff {c d : Char} {cs : List Char} {bs : List UInt8} :
    read? (c :: d :: cs) = some bs ↔
      ∃ b bs', IsPair b [c, d] ∧ read? cs = some bs' ∧ bs = b :: bs' := by
  simp only [read?, Option.bind_eq_bind, Option.bind_eq_some_iff, Option.pure_def,
    Option.some.injEq, isPair_iff]
  constructor
  · rintro ⟨high, hc, low, hd, bs', hcs, rfl⟩
    exact ⟨_, bs', ⟨high, low, hc, hd, rfl⟩, hcs, rfl⟩
  · rintro ⟨b, bs', ⟨high, low, hc, hd, rfl⟩, hcs, rfl⟩
    exact ⟨high, hc, low, hd, bs', hcs, rfl⟩

theorem read?_eq_some_iff {cs : List Char} {bs : List UInt8} :
    read? cs = some bs ↔ Spells bs cs := by
  constructor
  · intro h
    induction cs using read?.induct generalizing bs with
    | case1 =>
      obtain rfl := Option.some.inj h
      exact .nil
    | case2 c => cases h
    | case3 c d cs ih =>
      obtain ⟨b, bs', hb, hcs, rfl⟩ := read?_cons_cons_eq_some_iff.1 h
      exact .cons hb (ih hcs)
  · intro h
    induction h with
    | nil => rfl
    | cons hb _ ih =>
      obtain ⟨_, _, c, d, _, _, rfl, _⟩ := id hb
      exact read?_cons_cons_eq_some_iff.2 ⟨_, _, hb, ih, rfl⟩

section LowerCase

theorem isUpper_digit {n : Nat} (h : n < 16) : (digit n).isUpper = false := by
  have hcases : ∀ n < 16, (digit n).isUpper = false := by decide
  exact hcases n h

theorem IsDigit.eq_digit {n : Nat} {c : Char} (h : IsDigit n c) (hc : c.isUpper = false) :
    c = digit n := by
  have hcase := h.of_alphabets (P := fun n c => c.isUpper || decide (c = digit n)) (by decide)
  rw [hc, Bool.false_or] at hcase
  exact of_decide_eq_true hcase

theorem isUpper_encodeByte (b : UInt8) : ∀ c ∈ encodeByte b, c.isUpper = false := by
  have hb := b.toNat_lt
  intro c hc
  rcases List.mem_pair.1 hc with rfl | rfl <;> exact isUpper_digit (by omega)

theorem IsPair.eq_encodeByte {b : UInt8} {cs : List Char} (h : IsPair b cs)
    (hlower : ∀ c ∈ cs, c.isUpper = false) : cs = encodeByte b := by
  obtain ⟨high, low, c, d, hc, hd, rfl, hb⟩ := h
  have hc := hc.eq_digit (hlower c List.mem_cons_self)
  have hdigit := hd.eq_digit (hlower d (List.mem_cons_of_mem c List.mem_cons_self))
  have hhigh : b.toNat / 16 = high := by have := hd.lt; omega
  have hlow : b.toNat % 16 = low := by have := hd.lt; omega
  rw [encodeByte, hhigh, hlow, ← hc, ← hdigit]

end LowerCase

section Octets

variable {raw : List UInt8} {bs : List UInt8}

theorem digitAt_eq_ok_iff {position n : Nat} {b : UInt8} :
    digitAt position b = .ok n ↔ value? (Text.ofOctet b) = some n := by
  rw [digitAt, Text.ofOctet]
  cases value? (Char.ofNat b.toNat) with
  | none => exact ⟨fun h => (by cases h), fun h => (by cases h)⟩
  | some m => rw [Except.ok.injEq, Option.some.injEq]

theorem decodePairs_eq_ok_iff (h : raw.length % 2 = 0) (position : Nat) :
    decodePairs position raw = .ok bs ↔ read? (raw.map Text.ofOctet) = some bs := by
  induction position, raw using decodePairs.induct generalizing bs with
  | case1 position high low rest ih =>
    have hrest : rest.length % 2 = 0 := by
      rw [List.length_cons, List.length_cons] at h
      omega
    rw [List.map_cons, List.map_cons]
    have hpure (l : List UInt8) : (pure l : Except Fault (List UInt8)) = .ok l := rfl
    simp only [decodePairs, read?, bind_eq_ok_iff, digitAt_eq_ok_iff, ih hrest, hpure,
      Option.bind_eq_bind, Option.bind_eq_some_iff, Option.pure_def, Except.ok.injEq,
      Option.some.injEq]
  | case2 raw position hshort =>
    rcases raw with _ | ⟨b, _ | ⟨c, rest⟩⟩
    · show Except.ok [] = Except.ok bs ↔ some [] = some bs
      rw [Except.ok.injEq, Option.some.injEq]
    · cases h
    · exact absurd rfl (hshort b c rest)

theorem decodeText_eq_ok_iff {t : String} : decodeText t = .ok bs ↔ Spells bs t.toList := by
  have hrecast : read? (t.toUTF8.toList.map Text.ofOctet) = read? t.toList := by
    rw [Text.map_ofOctet_toUTF8]
    exact Text.read_recast (fun h => (read?_eq_some_iff.1 h).isAscii IsPair.isAscii) t.toList
  rw [← read?_eq_some_iff, ← hrecast, decodeText, decode]
  split
  · rename_i hodd
    refine ⟨fun h => (by cases h), fun h => ?_⟩
    have hlength := (read?_eq_some_iff.1 h).length IsPair.length
    rw [List.length_map] at hlength
    omega
  · rename_i hodd
    exact decodePairs_eq_ok_iff (by omega) 0

end Octets

end Hex

end FrozenDefaults
