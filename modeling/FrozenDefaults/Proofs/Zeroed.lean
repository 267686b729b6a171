import FrozenDefaults.Proofs.ReadBack

/-!
# Zeroed regions

A new region is zero, and zeros written to it change nothing. So a struct that is
stored in part is the same as one filled up with zeros and nulls.
-/

namespace FrozenDefaults

namespace Arena

variable {a b : Arena} {s : Span}

structure Zeroed (a : Arena) (s : Span) : Prop where
  holds : a.Holds s
  byte? : ∀ t i, s.Covers t i → a.byte? t i = some 0

theorem Fresh.zeroed {n : Nat} (h : Fresh a n s b) : b.Zeroed s :=
  ⟨h.holds, fun t i hi => by rw [h.byte?, if_pos hi]⟩

namespace Zeroed

theorem sub {start n : Nat} (h : a.Zeroed s) (hs : s.start ≤ start) (hn : start + n ≤ s.stop) :
    a.Zeroed ⟨s.segment, start, n⟩ :=
  ⟨h.holds.sub hn, fun t i hi =>
    h.byte? t i ⟨hi.1, hs.trans hi.2.1, hi.2.2.trans_le hn⟩⟩

theorem grows {P : Nat → Nat → Prop} (h : a.Zeroed s) (hg : Grows P a b)
    (hp : ∀ t i, s.Covers t i → P t i) : b.Zeroed s :=
  ⟨hg.holds h.holds, fun t i hi => by
    rw [hg.bytes t i (hp t i hi) (h.holds.lt_of_covers hi), h.byte? t i hi]⟩

theorem read (h : a.Zeroed s) : a.read s = .ok (List.replicate s.length 0) := by
  refine read_eq_ok_iff.2 ⟨h.holds, List.length_replicate, fun i hi => ?_⟩
  rw [h.byte? _ _ ⟨rfl, Nat.le_add_right _ _, Nat.add_lt_add_left hi _⟩,
    List.getElem?_replicate, if_pos hi]

end Zeroed

theorem overwrite_go_append (bytes : Array UInt8) (i : Nat) (xs ys : List UInt8) :
    Segment.overwrite.go bytes i (xs ++ ys) =
      Segment.overwrite.go (Segment.overwrite.go bytes i xs) (i + xs.length) ys := by
  induction xs generalizing bytes i with
  | nil => rfl
  | cons x xs ih =>
    rw [List.cons_append, Segment.overwrite.go, Segment.overwrite.go, ih, List.length_cons,
      Nat.add_assoc, Nat.add_comm 1]

theorem patch_append (a : Arena) (segment start m n k : Nat) (xs ys : List UInt8) :
    a.patch ⟨segment, start, m⟩ (xs ++ ys) =
      (a.patch ⟨segment, start, n⟩ xs).patch ⟨segment, start + xs.length, k⟩ ys := by
  have h : a.segments.modify segment (·.overwrite start (xs ++ ys)) =
      (a.segments.modify segment (·.overwrite start xs)).modify segment
        (·.overwrite (start + xs.length) ys) := by
    apply Array.ext_getElem?
    intro i
    rw [Array.getElem?_modify, Array.getElem?_modify, Array.getElem?_modify]
    by_cases hi : segment = i
    · simp only [if_pos hi, Option.map_map]
      congr 1
      funext seg
      simp only [Segment.overwrite, Function.comp, overwrite_go_append]
    · simp only [if_neg hi]
  simp only [patch, h]

theorem patch_of_read {bs : List UInt8} (h : a.read s = .ok bs) : a.patch s bs = a := by
  obtain ⟨hs, hl, hg⟩ := read_eq_ok_iff.1 h
  obtain ⟨seg, hseg⟩ := getElem?_of_lt hs.1
  have hstop := hs.2
  rw [usedIn_of_getElem? hseg, Span.stop, ← hl] at hstop
  have hbytes : seg.overwrite s.start bs = seg := by
    have he : Segment.overwrite.go seg.bytes s.start bs = seg.bytes := by
      apply Array.ext_getElem?
      intro i
      rw [Segment.overwrite_go_getElem? _ _ _ _ hstop]
      by_cases hi : s.start ≤ i ∧ i < s.start + bs.length
      · rw [if_pos hi, hg (i - s.start) (by omega), Nat.add_sub_cancel' hi.1,
          byte?_of_getElem? hseg]
      · rw [if_neg hi]
    rw [Segment.overwrite, he]
  have h : a.segments.modify s.segment (·.overwrite s.start bs) = a.segments := by
    apply Array.ext_getElem?
    intro i
    rw [Array.getElem?_modify]
    by_cases hi : s.segment = i
    · rw [if_pos hi, ← hi, hseg, Option.map_some, hbytes]
    · rw [if_neg hi]
  rw [patch, h]

end Arena

namespace Value

open Arena

theorem storeSlots_append (vs ws : List Value) (segment start : Nat) (a : Arena) :
    storeSlots (vs ++ ws) segment start a =
      storeSlots ws segment (start + vs.length * bytesPerWord) (storeSlots vs segment start a) := by
  induction vs generalizing start a with
  | nil => rw [List.nil_append, storeSlots, List.length_nil, Nat.zero_mul, Nat.add_zero]
  | cons v vs ih =>
    rw [List.cons_append, storeSlots, storeSlots, ih, List.length_cons, Nat.succ_mul,
      Nat.add_assoc, Nat.add_comm bytesPerWord]

theorem storeSlots_null {a : Arena} {segment start n : Nat}
    (h : a.Zeroed ⟨segment, start, n * bytesPerWord⟩) :
    storeSlots (List.replicate n .null) segment start a = a := by
  induction n generalizing start with
  | zero => rw [List.replicate_zero, storeSlots]
  | succ n ih =>
    have hstop : start + bytesPerWord + n * bytesPerWord = start + (n + 1) * bytesPerWord := by
      rw [Nat.succ_mul, Nat.add_assoc, Nat.add_comm bytesPerWord]
    have hslot : a.Zeroed ⟨segment, start, bytesPerWord⟩ :=
      h.sub (Nat.le_refl _) ((Nat.le_add_right _ _).trans_eq hstop)
    have hrest : a.Zeroed ⟨segment, start + bytesPerWord, n * bytesPerWord⟩ :=
      h.sub (Nat.le_add_right _ _) hstop.le
    have hzero : List.replicate bytesPerWord 0 = Word.toBytes Pointer.null := by decide
    have hnull : a.putWord ⟨segment, start, bytesPerWord⟩ Pointer.null = a :=
      patch_of_read (hslot.read.trans (congrArg _ hzero))
    rw [List.replicate_succ, storeSlots, store, hnull, ih hrest]

section Padded

variable {d p : Nat} {part : Part Value} {region : Span} {a : Arena} (hz : a.Zeroed region)
  (hd : part.data.length ≤ d * bytesPerWord)
include hz hd

/-- The zeros behind the data of a part change nothing. -/
theorem patch_padded (hl : d * bytesPerWord ≤ region.length) :
    a.patch ⟨region.segment, region.start, (part.padded d p).data.length⟩ (part.padded d p).data =
      a.patch ⟨region.segment, region.start, part.data.length⟩ part.data := by
  have hstop : region.start + d * bytesPerWord ≤ region.stop := Nat.add_le_add_left hl _
  have hin : a.Holds ⟨region.segment, region.start, part.data.length⟩ :=
    hz.holds.sub ((Nat.add_le_add_left hd _).trans hstop)
  have hrest : a.Zeroed ⟨region.segment, region.start + part.data.length,
      d * bytesPerWord - part.data.length⟩ := by
    apply hz.sub (Nat.le_add_right _ _)
    omega
  have hpatched := hrest.grows (grows_patch hin rfl) fun t i hi hc =>
    absurd hc.2.2 (Nat.not_lt.2 hi.2.1)
  rw [Part.padded, List.rightpad, patch_append a _ _ _ part.data.length
    (d * bytesPerWord - part.data.length), patch_of_read hpatched.read]

theorem storePart_padded {room : Nat} (hp : part.slots.length ≤ p)
    (hv : ∀ v ∈ part.slots, StoresBack room v) (ha : a.Sound)
    (hal : region.start % bytesPerWord = 0) (hl : region.length = (d + p) * bytesPerWord) :
    storePart (.struct d p) (part.padded d p) region.segment region.start a =
      storePart (.struct d p) part region.segment region.start a := by
  have hpad : (part.padded d p).slots =
      part.slots ++ List.replicate (p - part.slots.length) .null := rfl
  have hdata := patch_padded (p := p) hz hd (by rw [hl, Nat.add_mul]; exact Nat.le_add_right _ _)
  have hwords := Nat.mul_le_mul_right bytesPerWord hp
  have hsub := Nat.sub_mul p part.slots.length bytesPerWord
  have hstop : region.stop = region.start + (d * bytesPerWord + p * bytesPerWord) := by
    rw [Span.stop, hl, Nat.add_mul]
  have hin : a.Holds ⟨region.segment, region.start, part.data.length⟩ := hz.holds.sub (by omega)
  have hpatch := stored_patch hin rfl
  have hslots := stored_storeSlots hv region.segment (region.start + d * bytesPerWord)
    (hpatch.evolves.sound ha)
    (hpatch.grows.holds (hz.holds.sub (by omega)))
    (by rw [Nat.add_mul_mod_self_right]; exact hal)
  have hnulls : a.Zeroed ⟨region.segment,
      region.start + d * bytesPerWord + part.slots.length * bytesPerWord,
      (p - part.slots.length) * bytesPerWord⟩ := by
    apply hz.sub <;> omega
  have hnulls := (hnulls.grows hpatch.grows fun t i hi hc => by
    simp only [Span.Covers, Span.stop] at hi hc; omega).grows hslots.grows fun t i hi hc => by
    simp only [Span.Covers, Span.stop] at hi hc; omega
  rw [storePart, storePart, hdata, hpad, storeSlots_append]
  exact storeSlots_null hnulls

end Padded

end Value

end FrozenDefaults
