import Mathlib.Algebra.Order.BigOperators.Group.List
import FrozenDefaults.Wire.Pointer

/-!
# Pointer words read back

What the constructors of pointer words put into a field, the field gives back,
as long as the offset, the count or the landing pad fits its bits.
-/

namespace FrozenDefaults

namespace Pointer

open BitVec

section Struct

variable {offset : Int} {d p : UInt16}

theorem extract_tag_ofStruct : (ofStruct offset d p).extractLsb' 0 2 = 0b00#2 := by
  rw [ofStruct, extractLsb'_append_eq_of_add_le (by omega), extractLsb'_eq_self]

@[simp] theorem kind_ofStruct : kind (ofStruct offset d p) = .struct := by
  rw [kind, extract_tag_ofStruct]
  rfl

@[simp] theorem dataWords_ofStruct : dataWords (ofStruct offset d p) = d := by
  rw [dataWords, ofStruct, extractLsb'_append_eq_of_le (by omega),
    extractLsb'_append_eq_of_le (by omega), extractLsb'_append_eq_of_add_le (by omega),
    extractLsb'_eq_self]

@[simp] theorem pointerWords_ofStruct : pointerWords (ofStruct offset d p) = p := by
  rw [pointerWords, ofStruct, extractLsb'_append_eq_of_le (by omega),
    extractLsb'_append_eq_of_le (by omega), extractLsb'_append_eq_of_le (by omega),
    extractLsb'_eq_self]

theorem extract_offset_ofStruct :
    (ofStruct offset d p).extractLsb' 2 30 = BitVec.ofInt 30 offset := by
  rw [ofStruct, extractLsb'_append_eq_of_le (by omega),
    extractLsb'_append_eq_of_add_le (by omega), extractLsb'_eq_self]

theorem withOffset_ofStruct (offset' : Int) :
    withOffset (ofStruct offset d p) offset' = ofStruct offset' d p := by
  have high : (ofStruct offset d p).extractLsb' 32 32 = p.toBitVec ++ d.toBitVec := by
    rw [ofStruct, extractLsb'_append_eq_of_le (by omega),
      extractLsb'_append_eq_of_le (by omega), extractLsb'_eq_self]
  rw [withOffset, high, extract_tag_ofStruct]
  rfl

end Struct

section List

variable {offset : Int} {size : ElementSize} {count : UInt32}

theorem extract_tag_ofList : (ofList offset size count).extractLsb' 0 2 = 0b01#2 := by
  rw [ofList, extractLsb'_append_eq_of_add_le (by omega), extractLsb'_eq_self]

@[simp] theorem kind_ofList : kind (ofList offset size count) = .list := by
  rw [kind, extract_tag_ofList]
  rfl

@[simp] theorem elementSize_ofList : elementSize (ofList offset size count) = size := by
  rw [elementSize, ofList, extractLsb'_append_eq_of_le (by omega),
    extractLsb'_append_eq_of_le (by omega), extractLsb'_append_eq_of_add_le (by omega),
    extractLsb'_eq_self, ElementSize.ofCode_code]

theorem elementCount_ofList (h : count.toNat < 2 ^ 29) :
    elementCount (ofList offset size count) = count := by
  rw [elementCount, ofList, extractLsb'_append_eq_of_le (by omega),
    extractLsb'_append_eq_of_le (by omega), extractLsb'_append_eq_of_le (by omega),
    extractLsb'_eq_self]
  apply UInt32.toNat_inj.1
  have hc : count.toBitVec.toNat < 2 ^ 29 := h
  simp only [UInt32.toNat, toNat_setWidth]
  omega

theorem extract_offset_ofList :
    (ofList offset size count).extractLsb' 2 30 = BitVec.ofInt 30 offset := by
  rw [ofList, extractLsb'_append_eq_of_le (by omega),
    extractLsb'_append_eq_of_add_le (by omega), extractLsb'_eq_self]

theorem withOffset_ofList (offset' : Int) :
    withOffset (ofList offset size count) offset' = ofList offset' size count := by
  have high : (ofList offset size count).extractLsb' 32 32 =
      count.toBitVec.setWidth 29 ++ size.code := by
    rw [ofList, extractLsb'_append_eq_of_le (by omega),
      extractLsb'_append_eq_of_le (by omega), extractLsb'_eq_self]
  rw [withOffset, high, extract_tag_ofList]
  rfl

end List

section Far

variable {double : Bool} {pad : Nat} {segment : UInt32}

@[simp] theorem kind_ofFar : kind (ofFar double pad segment) = .far := by
  have tag : (ofFar double pad segment).extractLsb' 0 2 = 0b10#2 := by
    rw [ofFar, extractLsb'_append_eq_of_add_le (by omega), extractLsb'_eq_self]
  rw [kind, tag]
  rfl

@[simp] theorem isDouble_ofFar : isDouble (ofFar double pad segment) = double := by
  rw [isDouble, ofFar, getLsbD_append, getLsbD_append]
  cases double <;> rfl

theorem padWord_ofFar_mod : padWord (ofFar double pad segment) = pad % 2 ^ 29 := by
  rw [padWord, ofFar, extractLsb'_append_eq_of_le (by omega),
    extractLsb'_append_eq_of_le (by omega), extractLsb'_append_eq_of_add_le (by omega),
    extractLsb'_eq_self, toNat_ofNat]

theorem padWord_ofFar (h : pad < 2 ^ 29) : padWord (ofFar double pad segment) = pad := by
  rw [padWord_ofFar_mod, Nat.mod_eq_of_lt h]

@[simp] theorem segment_ofFar :
    Pointer.segment (ofFar double pad segment) = segment.toNat := by
  rw [Pointer.segment, ofFar, extractLsb'_append_eq_of_le (by omega),
    extractLsb'_append_eq_of_le (by omega), extractLsb'_append_eq_of_le (by omega),
    extractLsb'_eq_self]
  rfl

end Far

theorem ofTag_eq_ofStruct {count : UInt32} (h : count.toNat < 2 ^ 30) (d p : UInt16) :
    ofTag count d p = ofStruct count.toNat d p := by
  apply eq_of_getLsbD_eq
  intro i hi
  have hcount : 30 ≤ i - 2 → count.toBitVec.getLsbD (i - 2) = false := fun hb =>
    Nat.testBit_lt_two_pow (Nat.lt_of_lt_of_le h (Nat.pow_le_pow_right (by decide) hb))
  have hdata : 16 ≤ i - 32 → d.toBitVec.getLsbD (i - 32) = false := getLsbD_of_ge _ _
  have hofInt : (BitVec.ofInt 30 count.toNat).getLsbD (i - 2) =
      (decide (i - 2 < 30) && count.toBitVec.getLsbD (i - 2)) := by
    rw [BitVec.ofInt_natCast, getLsbD_ofNat]
    rfl
  simp only [ofTag, ofStruct, getLsbD_or, getLsbD_shiftLeft, getLsbD_setWidth, getLsbD_append,
    hofInt, hi, decide_true, Bool.true_and]
  rcases Nat.lt_or_ge i 2 with h2 | h2
  · have h32 : i < 32 := by omega
    have h48 : i < 48 := by omega
    simp [h2, h32, h48]
  rcases Nat.lt_or_ge i 32 with h32 | h32
  · have h2' : ¬ i < 2 := by omega
    have h48 : i < 48 := by omega
    have hlow : i - 2 < 30 := by omega
    have hword : i - 2 < 64 := by omega
    simp [h32, h2', h48, hlow, hword]
  have hsub : i - 2 - 30 = i - 32 := by omega
  rw [hcount (by omega), hsub]
  have h2' : ¬ i < 2 := by omega
  have h32' : ¬ i < 32 := by omega
  rcases Nat.lt_or_ge i 48 with h48 | h48
  · have hlow : ¬ i - 2 < 30 := by omega
    have hhigh : i - 32 < 16 := by omega
    have hword : i - 32 < 64 := by omega
    simp [h2', h32', h48, hlow, hhigh, hword]
  · rw [hdata (by omega)]
    have h48' : ¬ i < 48 := by omega
    have hlow : ¬ i - 2 < 30 := by omega
    have hhigh : ¬ i - 32 < 16 := by omega
    have hword : i - 48 < 64 := by omega
    have hrest : i - 32 - 16 = i - 48 := by omega
    simp [h2', h32', h48', hlow, hhigh, hword, hrest]

theorem tagCount_ofStruct {count : UInt32} (h : count.toNat < 2 ^ 30) (d p : UInt16) :
    tagCount (ofStruct count.toNat d p) = count := by
  rw [tagCount, extract_offset_ofStruct, BitVec.ofInt_natCast]
  apply UInt32.toNat_inj.1
  have hw : (setWidth 32 (BitVec.ofNat 30 count.toNat)).toNat = count.toNat := by
    rw [toNat_setWidth, toNat_ofNat]
    omega
  exact hw

theorem ofInt_toInt {offset : Int} (h : -2 ^ 29 ≤ offset) (h' : offset < 2 ^ 29) :
    (BitVec.ofInt 30 offset).toInt = offset := by
  rw [toInt_ofInt]
  exact Int.bmod_eq_of_le (by omega) (by omega)

theorem offset_ofStruct {offset : Int} (h : -2 ^ 29 ≤ offset) (h' : offset < 2 ^ 29)
    (d p : UInt16) : Pointer.offset (ofStruct offset d p) = offset := by
  rw [Pointer.offset, extract_offset_ofStruct, ofInt_toInt h h']

theorem offset_ofList {offset : Int} (h : -2 ^ 29 ≤ offset) (h' : offset < 2 ^ 29)
    (size : ElementSize) (count : UInt32) : Pointer.offset (ofList offset size count) = offset := by
  rw [Pointer.offset, extract_offset_ofList, ofInt_toInt h h']

theorem target?_of_offset {w : Word} {home t : Nat} (h : Pointer.offset w = t - home - 1)
    (ht : t < 2 ^ 63) : target? w home = some t := by
  have hb : Int.bmod (home + 1 + Pointer.offset w) UInt64.size = t := by
    have hsum : (home : Int) + 1 + (t - home - 1) = t := by omega
    rw [h, hsum]
    exact Int.bmod_eq_of_le (by simp only [UInt64.size]; omega) (by simp only [UInt64.size]; omega)
  simp only [target?, hb]
  rw [if_pos (Int.natCast_nonneg t), Int.toNat_natCast]

theorem offset_of_target? {w : Word} {home t : Nat} (h : target? w home = some t)
    (hw : home < 2 ^ 62) : Pointer.offset w = t - home - 1 := by
  have hlow : -2 ^ 29 ≤ Pointer.offset w := (w.extractLsb' 2 30).le_toInt
  have hhigh : Pointer.offset w < 2 ^ 29 := (w.extractLsb' 2 30).toInt_lt
  have hb : Int.bmod (home + 1 + Pointer.offset w) UInt64.size = home + 1 + Pointer.offset w :=
    Int.bmod_eq_of_le (by simp only [UInt64.size]; omega) (by simp only [UInt64.size]; omega)
  simp only [target?, hb] at h
  split at h
  · have ht := Option.some.inj h
    omega
  · cases h

theorem padWord_lt (w : Word) : padWord w < 2 ^ 29 := (w.extractLsb' 3 29).isLt

theorem isNull_eq_false_of_kind {w : Word} (h : kind w ≠ .struct) : isNull w = false := by
  rw [isNull, beq_eq_false_iff_ne]
  rintro rfl
  exact h rfl

theorem elementCount_lt (w : Word) : (elementCount w).toNat < 2 ^ 29 := by
  have h := (w.extractLsb' 35 29).isLt
  have he : (elementCount w).toNat = (w.extractLsb' 35 29).toNat := by
    rw [elementCount, UInt32.toNat, toNat_setWidth]
    omega
  rw [he]
  exact h

theorem tagCount_lt (w : Word) : (tagCount w).toNat < 2 ^ 30 := by
  have h := (w.extractLsb' 2 30).isLt
  have he : (tagCount w).toNat = (w.extractLsb' 2 30).toNat := by
    rw [tagCount, UInt32.toNat, toNat_setWidth]
    omega
  rw [he]
  exact h

end Pointer

end FrozenDefaults
