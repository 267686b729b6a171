import FrozenDefaults.Proofs.Building
import FrozenDefaults.Proofs.Fits

/-!
# Filling objects

The loops of a copy that fill the parts of an object do what storing the parts
does that are read from the source. Whatever copies one slot as its value is
stored gives such loops.
-/

namespace FrozenDefaults

open Building (Realizes)
open DeepCopy

namespace Arena

variable {a b : Arena} {r : Span}

/-- The span is an aligned region in use with at least `n` bytes. -/
structure HasRegion (a : Arena) (r : Span) (n : Nat) : Prop where
  holds : a.Holds r
  length : n ≤ r.length
  aligned : r.start % bytesPerWord = 0

namespace HasRegion

variable {n : Nat} (h : a.HasRegion r n)
include h

theorem mono {m : Nat} (hm : m ≤ n) : a.HasRegion r m := ⟨h.holds, hm.trans h.length, h.aligned⟩

theorem evolves (hev : Evolves a b) : b.HasRegion r n :=
  ⟨hev.grows.holds h.holds, h.length, h.aligned⟩

theorem covers_part (offset m : Nat) (hm : offset + m ≤ n) {s i : Nat}
    (hc : Span.Covers ⟨r.segment, r.start + offset, m⟩ s i) : r.Covers s i := by
  have hl := h.length
  simp only [Span.Covers, Span.stop] at hc ⊢
  omega

theorem part (offset m : Nat) (hm : offset + m ≤ n) (ho : offset % bytesPerWord = 0) :
    a.HasRegion ⟨r.segment, r.start + offset, m⟩ m := by
  have hstop := h.holds.2
  have hl := h.length
  have hal := h.aligned
  simp only [Span.stop, bytesPerWord] at hstop hal ho
  refine ⟨⟨h.holds.1, ?_⟩, Nat.le_refl m, ?_⟩
  · simp only [Span.stop]
    omega
  · simp only [bytesPerWord]
    omega

theorem slot {i : Nat} (hi : (i + 1) * bytesPerWord ≤ n) :
    a.HasSlot ⟨r.segment, r.start + i * bytesPerWord, bytesPerWord⟩ := by
  have hp := h.part (i * bytesPerWord) bytesPerWord (by
    rwa [← Nat.succ_mul]) (Nat.mul_mod_left _ _)
  exact ⟨hp.holds, rfl, hp.aligned⟩

end HasRegion

end Arena

open Arena

theorem fillList_bare {source : Arena} {copySlot : Span → Span → Building Unit} {v w : ListView}
    (h : v.layout.Bare) : DeepCopy.fillList source copySlot v w =
      DeepCopy.fillBytes source v.elements w.elements (v.layout.payloadBytes v.count) := by
  obtain ⟨s, l, count⟩ := v
  cases l <;> first | rfl | cases h

/-- Every slot is copied by storing the value that is read. -/
def CopiesSlots (value : Span → Except Fault Value) (copySlot : Span → Span → Building Unit) :
    Prop := ∀ (src slot : Span) (a : Arena), a.Sound → a.HasSlot slot →
      Realizes (copySlot src slot) a slot.Covers (value src) fun v => ((), v.store slot a)

namespace CopiesSlots

variable {source a : Arena} {value : Span → Except Fault Value}
  {copySlot : Span → Span → Building Unit} {src dst : Span}

theorem fillBytes {n : Nat} (hdst : a.HasRegion dst n) :
    Realizes (DeepCopy.fillBytes source src dst n) a dst.Covers (source.dataOf src n)
      fun bs => ((), a.patch ⟨dst.segment, dst.start, bs.length⟩ bs) := by
  rw [DeepCopy.fillBytes, dataOf]
  by_cases h0 : 0 < n
  · rw [if_pos h0, if_pos h0]
    refine .read fun t ht => (Realizes.of_read _).finish fun bs hbs => ?_
    have hlen : bs.length = n := by
      rw [(read_eq_ok_iff.1 hbs).2.1, (Span.part_eq_ok_iff.1 ht).2]
    have hpart : dst.part 0 n = .ok ⟨dst.segment, dst.start + 0, n⟩ :=
      Span.part_eq_ok ((Nat.zero_add n).trans_le hdst.length)
    have hin := (hdst.part 0 n (Nat.zero_add n).le rfl).holds
    have hgrows := (grows_patch hin hlen).mono (Q := fun s i => ¬ dst.Covers s i)
      fun s i hn _ hc => hn (hdst.covers_part 0 n (Nat.zero_add n).le hc)
    refine .lift hpart (.of_ok ?_ ?_)
    · rw [Building.write_of_holds hin hlen, hlen]
      rfl
    · rw [hlen]
      exact hgrows
  · rw [if_neg h0, if_neg h0]
    exact .pure (by rw [List.length_nil, patch_nil])

variable (hc : CopiesSlots value copySlot)
include hc

theorem fillSlotsFrom {first count : Nat} (ha : a.Sound)
    (hdst : a.HasRegion dst ((first + count) * bytesPerWord)) :
    Realizes (forIndices (fun i => do
        copySlot (← liftExcept (src.word i)) (← liftExcept (dst.word i))) first count) a dst.Covers
      (collect (fun i => src.word i >>= value) first count)
      fun vs => ((), Value.storeSlots vs dst.segment (dst.start + first * bytesPerWord) a) := by
  induction count generalizing first a with
  | zero => exact .pure (by rw [Value.storeSlots])
  | succ count ih =>
    have hslot := hdst.slot (i := first) (Nat.mul_le_mul_right _ (by omega))
    have hword : dst.word first = .ok ⟨dst.segment, dst.start + first * bytesPerWord,
        bytesPerWord⟩ := by
      refine Span.part_eq_ok ((Nat.succ_mul _ _).symm.trans_le ?_)
      exact (Nat.mul_le_mul_right _ (by omega)).trans hdst.length
    have hfirst : Realizes (do
        copySlot (← liftExcept (src.word first)) (← liftExcept (dst.word first))) a dst.Covers
        (src.word first >>= value) fun v => ((), v.store ⟨dst.segment,
          dst.start + first * bytesPerWord, bytesPerWord⟩ a) := by
      refine .read fun s _ => .lift hword ((hc s _ a ha hslot).widen fun t i hi => .inl ?_)
      exact hdst.covers_part _ _ ((Nat.succ_mul _ _).symm.trans_le
        (Nat.mul_le_mul_right _ (by omega))) hi
    refine .bind hfirst fun v _ => ?_
    · have hev := v.evolves_store ⟨dst.segment, dst.start + first * bytesPerWord, bytesPerWord⟩ a
      refine .map (ih (hev.sound ha) ?_) _ fun vs _ => ?_
      · rw [Nat.add_right_comm]
        exact hdst.evolves hev
      · rw [Value.storeSlots, Nat.succ_mul, Nat.add_assoc]

theorem fillSlots {count : Nat} (ha : a.Sound) (hdst : a.HasRegion dst (count * bytesPerWord)) :
    Realizes (DeepCopy.fillSlots copySlot src dst count) a dst.Covers (slotsOf value src count)
      fun vs => ((), Value.storeSlots vs dst.segment dst.start a) := by
  have h : Realizes _ a dst.Covers (collect (fun i => src.word i >>= value) 0 count) _ :=
    hc.fillSlotsFrom ha (by rwa [Nat.zero_add])
  rwa [Nat.zero_mul, Nat.add_zero] at h

theorem fillStruct (v : StructView) {region : Span} {d p : Nat} (shape : Shape)
    (hd : shape.dataBytes = d * bytesPerWord) (ha : a.Sound)
    (hdst : a.HasRegion region ((d + p) * bytesPerWord)) :
    Realizes (DeepCopy.fillStruct source copySlot v (.ofRegion region d p)) a region.Covers
      (source.partOf value v d p)
      fun part => ((), Value.storePart shape part region.segment region.start a) := by
  rw [Nat.add_mul] at hdst
  have hdata := hdst.part 0 (d * bytesPerWord) (by omega) rfl
  have hmin : min v.data.length (d * bytesPerWord) ≤ d * bytesPerWord := Nat.min_le_right _ _
  have hbytes : a.HasRegion ⟨region.segment, region.start, d * bytesPerWord⟩
      (min v.data.length (d * bytesPerWord)) := ⟨hdata.holds, hmin, hdata.aligned⟩
  refine .bind ((fillBytes hbytes).widen fun s i hi => .inl
    (hdst.covers_part 0 (d * bytesPerWord) (by omega) hi)) fun bs hbs => ?_
  refine .read fun there _ => ?_
  have hev := a.evolves_patch ⟨region.segment, region.start, bs.length⟩ bs
  have hslots := (hdst.part (d * bytesPerWord) (p * bytesPerWord) (Nat.le_refl _)
    (Nat.mul_mod_left _ _)).evolves hev
  have hhere : (StructView.ofRegion region d p).pointers.wordCount = .ok p :=
    Span.wordCount_eq_ok_iff.2 ⟨⟨Nat.mul_mod_left _ _, hslots.aligned⟩,
      (Nat.mul_div_cancel p (by decide)).symm⟩
  refine .lift hhere ?_
  have hcount : min there p * bytesPerWord ≤ p * bytesPerWord :=
    Nat.mul_le_mul_right _ (Nat.min_le_right _ _)
  refine .map ((hc.fillSlots (hev.sound ha) ⟨hslots.holds, hcount, hslots.aligned⟩).widen
    fun s i hi => .inl (hdst.covers_part _ _ (Nat.le_refl _) hi)) _ fun vs _ => ?_
  rw [Value.storePart, hd]

variable {d p : UInt16} (count : UInt32)

theorem fillElement {i n : Nat} (ha : a.Sound)
    (hdst : a.HasRegion dst (n * (ElementLayout.stride d p * bytesPerWord))) (hi : i < n) :
    Realizes (DeepCopy.fillElement source copySlot src dst d p i) a dst.Covers
      (source.elementOf value src d p i)
      fun part => ((), Value.storePart (.list (.composite d p) count) part dst.segment
        (dst.start + i * (ElementLayout.stride d p * bytesPerWord)) a) := by
  have hle : (i + 1) * (ElementLayout.stride d p * bytesPerWord) ≤
      n * (ElementLayout.stride d p * bytesPerWord) := Nat.mul_le_mul_right _ hi
  have hmul := Nat.succ_mul i (ElementLayout.stride d p * bytesPerWord)
  refine .read fun there _ => .lift (Span.part_eq_ok ?_) (.widen ?_ fun s i hi => .inl
    (hdst.covers_part _ _ (hmul.symm.trans_le hle) hi))
  · exact (hmul.symm.trans_le hle).trans hdst.length
  · refine hc.fillStruct _ (.list (.composite d p) count) rfl ha
      (hdst.part _ _ (hmul.symm.trans_le hle) ?_)
    rw [← Nat.mul_assoc]
    exact Nat.mul_mod_left _ _

theorem fillElementsFrom {first rounds : Nat} (ha : a.Sound)
    (hdst : a.HasRegion dst ((first + rounds) * (ElementLayout.stride d p * bytesPerWord))) :
    Realizes (forIndices (DeepCopy.fillElement source copySlot src dst d p) first rounds) a
      dst.Covers
      (collect (source.elementOf value src d p) first rounds)
      fun parts => ((), Value.storeParts (.list (.composite d p) count) parts dst.segment
        (dst.start + first * (ElementLayout.stride d p * bytesPerWord)) a) := by
  induction rounds generalizing first a with
  | zero => exact .pure (by rw [Value.storeParts])
  | succ rounds ih =>
    refine .bind (hc.fillElement count ha hdst (by omega)) fun part _ => ?_
    have hev := Value.evolves_storePart (.list (.composite d p) count) part dst.segment
      (dst.start + first * (ElementLayout.stride d p * bytesPerWord)) a
    refine .map (ih (hev.sound ha) ?_) _ fun parts _ => ?_
    · rw [Nat.add_right_comm]
      exact hdst.evolves hev
    · rw [Value.storeParts_cons, Nat.succ_mul, Nat.add_assoc, Shape.partBytes_composite]

/-- One round stands for all elements if they have no words. -/
theorem fillEmptyElements (h0 : ElementLayout.stride d p = 0) (ha : a.Sound)
    (hdst : a.HasRegion dst 0) {n : Nat} :
    Realizes (forIndices (DeepCopy.fillElement source copySlot src dst d p) 0 (min n 1)) a
      dst.Covers
      (collect (source.elementOf value src d p) 0 n)
      fun parts => ((), Value.storeParts (.list (.composite d p) count) parts dst.segment
        dst.start a) := by
  cases n with
  | zero => exact .pure (by rw [Value.storeParts])
  | succ n =>
    have hsame (i : Nat) : source.elementOf value src d p i = source.elementOf value src d p 0 := by
      simp only [elementOf, h0, Nat.zero_mul, Nat.mul_zero]
    have hone : a.HasRegion dst (1 * (ElementLayout.stride d p * bytesPerWord)) := by
      rwa [h0, Nat.zero_mul]
    have hmin : min (n + 1) 1 = 0 + 1 := by omega
    rw [hmin]
    refine .bind (hc.fillElement count ha hone Nat.zero_lt_one) fun part hpart => ?_
    obtain ⟨hd, hp, _⟩ := elementOf_eq_ok hpart
    rw [(Nat.add_eq_zero_iff.1 h0).1, Nat.zero_mul] at hd
    rw [(Nat.add_eq_zero_iff.1 h0).2] at hp
    obtain rfl : part = ⟨[], []⟩ := by
      rw [← List.eq_nil_of_length_eq_zero hd, ← List.eq_nil_of_length_eq_zero hp]
    rw [collect_const (fun i => (hsame i).trans hpart)]
    refine .pure ?_
    rw [← List.replicate_succ, Value.storeParts_replicate_nil, Value.storePart_nil]

theorem fillElements (ha : a.Sound)
    (hdst : a.HasRegion dst (count.toNat * (ElementLayout.stride d p * bytesPerWord))) :
    Realizes (forIndices (DeepCopy.fillElement source copySlot src dst d p) 0
        (elementRounds (ElementLayout.stride d p) count)) a dst.Covers
      (collect (source.elementOf value src d p) 0 count.toNat)
      fun parts => ((), Value.storeParts (.list (.composite d p) count) parts dst.segment
        dst.start a) := by
  by_cases h0 : ElementLayout.stride d p = 0
  · rw [elementRounds, if_pos h0]
    rw [h0, Nat.zero_mul, Nat.mul_zero] at hdst
    exact hc.fillEmptyElements count h0 ha hdst
  · rw [elementRounds, if_neg h0]
    have h : Realizes _ a dst.Covers (collect (source.elementOf value src d p) 0 count.toNat) _ :=
      hc.fillElementsFrom count ha (by rwa [Nat.zero_add])
    rwa [Nat.zero_mul, Nat.add_zero] at h

theorem fillList {v w : ListView} (ha : a.Sound)
    (hdst : a.HasRegion w.elements (v.layout.storageBytes v.count)) :
    Realizes (DeepCopy.fillList source copySlot v w) a w.elements.Covers (source.listParts value v)
      fun parts => ((), Value.storeParts (.list v.layout v.count) parts w.elements.segment
        w.elements.start a) := by
  obtain ⟨s, l, count⟩ := v
  rcases l.trichotomy with rfl | ⟨d, p, rfl⟩ | hl
  · rw [Shape.storageBytes_pointer] at hdst
    refine .map (hc.fillSlots ha hdst) _ fun vs _ => ?_
    rw [Value.storeParts_singleton, Value.storePart, List.length_nil, patch_nil]
    rfl
  · rw [Shape.storageBytes_composite] at hdst
    exact hc.fillElements count ha hdst
  · rw [fillList_bare hl, listParts_bare hl]
    refine .map (fillBytes (hdst.mono (l.payloadBytes_le_storageBytes count))) _ fun bs _ => ?_
    rw [Value.storeParts_singleton, Value.storePart, Value.storeSlots]

end CopiesSlots

end FrozenDefaults
