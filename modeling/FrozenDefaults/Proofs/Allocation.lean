import FrozenDefaults.Proofs.Memory

/-!
# Writes and allocations

What one step does to the memory of an arena. A write changes its own places and
nothing else. An allocation puts a zeroed region behind the used part of one
segment; a region in a new segment begins at zero.
-/

namespace FrozenDefaults

namespace Segment

theorem overwrite_go_size (bytes : Array UInt8) (i : Nat) (bs : List UInt8) :
    (overwrite.go bytes i bs).size = bytes.size := by
  induction bs generalizing bytes i with
  | nil => rfl
  | cons b bs ih => rw [overwrite.go, ih, Array.size_setIfInBounds]

theorem overwrite_go_getElem? (bytes : Array UInt8) (i j : Nat) (bs : List UInt8)
    (h : i + bs.length ≤ bytes.size) :
    (overwrite.go bytes i bs)[j]? =
      if i ≤ j ∧ j < i + bs.length then bs[j - i]? else bytes[j]? := by
  induction bs generalizing bytes i with
  | nil => simp [overwrite.go]
  | cons b bs ih =>
    rw [List.length_cons] at h
    rw [overwrite.go, ih _ _ (by rw [Array.size_setIfInBounds]; omega), List.length_cons]
    rcases Nat.lt_trichotomy j i with hj | rfl | hj
    · rw [if_neg (by omega), if_neg (by omega), Array.getElem?_setIfInBounds_ne (by omega)]
    · rw [if_neg (by omega), if_pos (by omega), Nat.sub_self, List.getElem?_cons_zero,
        Array.getElem?_setIfInBounds_self_of_lt (by omega)]
    · by_cases hl : j < i + (bs.length + 1)
      · obtain ⟨k, rfl⟩ : ∃ k, j = i + 1 + k := ⟨j - (i + 1), by omega⟩
        have hk : i + 1 + k - (i + 1) = k := by omega
        have hk' : i + 1 + k - i = k + 1 := by omega
        rw [if_pos (by omega), if_pos (by omega), hk, hk', List.getElem?_cons_succ]
      · rw [if_neg (by omega), if_neg (by omega), Array.getElem?_setIfInBounds_ne (by omega)]

end Segment

namespace Arena

variable {a b : Arena}

theorem getElem?_patch (s : Span) (bs : List UInt8) (t : Nat) :
    (a.patch s bs).segments[t]? =
      if s.segment = t then a.segments[t]?.map (·.overwrite s.start bs) else a.segments[t]? := by
  rw [patch, Array.getElem?_modify]

@[simp] theorem segmentCount_patch (s : Span) (bs : List UInt8) :
    (a.patch s bs).segmentCount = a.segmentCount := by simp [patch, segmentCount]

@[simp] theorem usedIn_patch (s : Span) (bs : List UInt8) (t : Nat) :
    (a.patch s bs).usedIn t = a.usedIn t := by
  rw [usedIn, getElem?_patch, usedIn]
  split
  · cases a.segments[t]? with
    | none => rfl
    | some seg => exact Segment.overwrite_go_size seg.bytes s.start bs
  · rfl

theorem byte?_patch {s : Span} {bs : List UInt8} (hs : a.Holds s) (hl : bs.length = s.length)
    (t i : Nat) : (a.patch s bs).byte? t i =
      if s.Covers t i then bs[i - s.start]? else a.byte? t i := by
  rw [byte?, getElem?_patch]
  by_cases ht : s.segment = t
  · subst ht
    obtain ⟨seg, hseg⟩ := getElem?_of_lt hs.1
    have hstop : s.start + bs.length ≤ seg.bytes.size := by
      have hu := hs.2
      rw [usedIn_of_getElem? hseg, Span.stop] at hu
      rw [hl]
      exact hu
    rw [if_pos rfl, byte?_of_getElem? hseg, hseg]
    simp only [Option.map_some, Option.bind_some, Segment.overwrite, Span.Covers, true_and,
      Span.stop, ← hl]
    exact Segment.overwrite_go_getElem? seg.bytes s.start i bs hstop
  · rw [if_neg ht, if_neg (fun h => ht h.1.symm), byte?]

@[simp] theorem holds_patch {s t : Span} {bs : List UInt8} :
    (a.patch s bs).Holds t ↔ a.Holds t := by simp [Holds]

@[simp] theorem whole_patch {s : Span} {bs : List UInt8} : (a.patch s bs).Whole ↔ a.Whole := by
  simp [Whole]

@[simp] theorem patch_nil (a : Arena) (s : Span) : a.patch s [] = a := by
  have h : a.segments.modify s.segment (·.overwrite s.start []) = a.segments := by
    apply Array.ext_getElem?
    intro i
    rw [Array.getElem?_modify]
    split
    · cases a.segments[i]? <;> rfl
    · rfl
  rw [patch, h]

theorem grows_patch {s : Span} {bs : List UInt8} (hs : a.Holds s) (hl : bs.length = s.length) :
    Grows (fun t i => ¬ s.Covers t i) a (a.patch s bs) where
  count := by simp
  used t := by simp
  bytes t i hp _ := by rw [byte?_patch hs hl, if_neg hp]

theorem read_patch {s : Span} {bs : List UInt8} (hs : a.Holds s) (hl : bs.length = s.length) :
    (a.patch s bs).read s = .ok bs := by
  refine read_eq_ok_iff.2 ⟨holds_patch.2 hs, hl, fun i hi => ?_⟩
  rw [byte?_patch hs hl, if_pos ⟨rfl, Nat.le_add_right _ _, Nat.add_lt_add_left hi _⟩,
    Nat.add_sub_cancel_left]

theorem foldr_used_modify {l : List Segment} {k n : Nat} {f : Segment → Segment}
    (hk : k < l.length ∨ n = 0) (hf : ∀ seg, (f seg).used = seg.used + n) :
    (l.modify k f).foldr (fun s m => s.used + m) 0 = l.foldr (fun s m => s.used + m) 0 + n := by
  induction l generalizing k with
  | nil =>
    obtain rfl : n = 0 := by simpa using hk
    cases k <;> rfl
  | cons x xs ih =>
    cases k with
    | zero => simp only [List.modify_zero_cons, List.foldr_cons, hf]; omega
    | succ k =>
      have hk' : k < xs.length ∨ n = 0 := by simpa using hk
      simp only [List.modify_succ_cons, List.foldr_cons, ih hk']
      omega

@[simp] theorem totalSize_patch (s : Span) (bs : List UInt8) :
    (a.patch s bs).totalSize = a.totalSize := by
  have hu : ∀ seg : Segment, (seg.overwrite s.start bs).used = seg.used + 0 :=
    fun seg => Segment.overwrite_go_size seg.bytes s.start bs
  rw [totalSize, patch, Array.toList_modify]
  exact foldr_used_modify (.inr rfl) hu

/-- In `b` the zeroed region `r` of `n` bytes has been put behind what `a` uses. -/
structure Fresh (a : Arena) (n : Nat) (r : Span) (b : Arena) : Prop where
  start : r.start = a.usedIn r.segment
  length : r.length = n
  segment : r.segment < b.segmentCount
  count : a.segmentCount ≤ b.segmentCount
  usedIn : ∀ t, b.usedIn t = a.usedIn t + if t = r.segment then n else 0
  byte? : ∀ t i, b.byte? t i = if r.Covers t i then some 0 else a.byte? t i
  totalSize : b.totalSize = a.totalSize + n

theorem getElem?_extend (segments : Array Segment) (k n t : Nat) :
    (segments.modify k (·.extend n))[t]? =
      if k = t then segments[t]?.map (·.extend n) else segments[t]? := Array.getElem?_modify

theorem used_extend (s : Segment) (n : Nat) : (s.extend n).used = s.used + n := by
  simp [Segment.extend, Segment.used]

theorem fresh_extend {segments : Array Segment} {k n : Nat} (next next' : Nat)
    (hk : k < segments.size) :
    Fresh ⟨segments, next⟩ n ⟨k, (⟨segments, next⟩ : Arena).usedIn k, n⟩
      ⟨segments.modify k (·.extend n), next'⟩ where
  start := rfl
  length := rfl
  segment := by simpa [segmentCount] using hk
  count := by simp [segmentCount]
  usedIn t := by
    simp only [Arena.usedIn, getElem?_extend]
    by_cases ht : k = t
    · subst ht
      obtain ⟨seg, hseg⟩ : ∃ seg, segments[k]? = some seg := ⟨_, Array.getElem?_eq_getElem hk⟩
      simp [hseg, used_extend]
    · rw [if_neg ht, if_neg (fun h => ht h.symm), Nat.add_zero]
  byte? t i := by
    simp only [Arena.byte?, getElem?_extend]
    by_cases ht : k = t
    · subst ht
      obtain ⟨seg, hseg⟩ : ∃ seg, segments[k]? = some seg := ⟨_, Array.getElem?_eq_getElem hk⟩
      simp only [hseg, if_true, Option.map_some, Option.bind_some, Segment.extend, Arena.usedIn,
        Option.getD_some, Span.Covers, Span.stop, true_and, Segment.used]
      rw [Array.getElem?_append, Array.getElem?_replicate]
      by_cases hi : i < seg.bytes.size
      · rw [if_pos hi, if_neg (by omega)]
      · by_cases hn : i < seg.bytes.size + n
        · rw [if_neg hi, if_pos (by omega), if_pos (by omega)]
        · rw [if_neg hi, if_neg (by omega), if_neg (by omega), Array.getElem?_eq_none (by omega)]
    · rw [if_neg ht, if_neg (fun h => ht h.1.symm)]
  totalSize := by
    simp only [Arena.totalSize, Array.toList_modify]
    exact foldr_used_modify (.inl (by simpa using hk)) fun seg => used_extend seg n

theorem allocIn_of_room {segment n : Nat} {seg : Segment} (hseg : a.segments[segment]? = some seg)
    (hc : seg.used + roundUp n ≤ seg.capacity) : a.allocIn segment n =
      (some ⟨segment, seg.used, roundUp n⟩,
        ⟨a.segments.modify segment (·.extend (roundUp n)), a.nextSize⟩) := by
  simp only [allocIn, hseg, if_pos hc]

theorem allocIn_of_full {segment n : Nat} (h : ∀ seg, a.segments[segment]? = some seg →
    seg.capacity < seg.used + roundUp n) : a.allocIn segment n = (none, a) := by
  cases hs : a.segments[segment]? with
  | none => simp only [allocIn, hs]
  | some seg => simp only [allocIn, hs, if_neg (Nat.not_le.2 (h seg hs))]

/-- An allocation in a full or unknown segment changes nothing. -/
theorem allocIn_cases (a : Arena) (segment n : Nat) :
    a.allocIn segment n = (none, a) ∨
      ∃ r b, a.allocIn segment n = (some r, b) ∧ r.segment = segment ∧ Fresh a (roundUp n) r b := by
  by_cases h : ∃ seg, a.segments[segment]? = some seg ∧ seg.used + roundUp n ≤ seg.capacity
  · obtain ⟨seg, hseg, hc⟩ := h
    have hs : segment < a.segments.size := (Array.getElem?_eq_some_iff.1 hseg).1
    refine .inr ⟨_, _, allocIn_of_room hseg hc, rfl, ?_⟩
    have hf := fresh_extend (n := roundUp n) a.nextSize a.nextSize hs
    have hused : (⟨a.segments, a.nextSize⟩ : Arena).usedIn segment = seg.used :=
      usedIn_of_getElem? hseg
    rwa [hused] at hf
  · exact .inl (allocIn_of_full fun seg hseg => Nat.lt_of_not_le fun hc => h ⟨seg, hseg, hc⟩)

theorem getElem?_openSegment (a : Arena) (capacity t : Nat) :
    (a.openSegment capacity).segments[t]? =
      if t = a.segmentCount then some ⟨#[], capacity⟩ else a.segments[t]? := Array.getElem?_push

theorem usedIn_openSegment (a : Arena) (capacity t : Nat) :
    (a.openSegment capacity).usedIn t = a.usedIn t := by
  rw [usedIn, getElem?_openSegment]
  by_cases ht : t = a.segmentCount
  · rw [if_pos ht, usedIn_eq_zero (Nat.le_of_eq ht.symm)]
    rfl
  · rw [if_neg ht, usedIn]

theorem byte?_openSegment (a : Arena) (capacity t i : Nat) :
    (a.openSegment capacity).byte? t i = a.byte? t i := by
  rw [byte?, getElem?_openSegment]
  by_cases ht : t = a.segmentCount
  · have hu : a.usedIn t = 0 := usedIn_eq_zero (Nat.le_of_eq ht.symm)
    rw [if_pos ht, byte?_eq_none (hu ▸ Nat.zero_le i)]
    simp
  · rw [if_neg ht, byte?]

theorem totalSize_openSegment (a : Arena) (capacity : Nat) :
    (a.openSegment capacity).totalSize = a.totalSize := by
  simp [totalSize, openSegment, Segment.used]

theorem fresh_allocFresh (a : Arena) (n : Nat) :
    Fresh a (roundUp n) (a.allocFresh n).1 (a.allocFresh n).2 := by
  let opened := a.openSegment (max (roundUp n) a.nextSize)
  have hid : a.segmentCount < opened.segments.size := by
    simp [opened, openSegment, segmentCount]
  have hzero : (⟨opened.segments, opened.nextSize⟩ : Arena).usedIn a.segmentCount = 0 :=
    (usedIn_openSegment a _ _).trans (usedIn_eq_zero (Nat.le_refl _))
  have hf := fresh_extend (n := roundUp n) opened.nextSize opened.nextSize hid
  rw [hzero] at hf
  refine ⟨?_, rfl, hf.segment, ?_, fun t => ?_, fun t i => ?_, ?_⟩
  · exact (usedIn_eq_zero (Nat.le_refl _)).symm
  · exact hid.le.trans hf.count
  · exact (hf.usedIn t).trans (by rw [usedIn_openSegment]; rfl)
  · exact (hf.byte? t i).trans (by rw [byte?_openSegment]; rfl)
  · exact hf.totalSize.trans (by rw [totalSize_openSegment])

theorem alloc_cases (a : Arena) (n : Nat) :
    (∃ r b, a.allocIn (a.segmentCount - 1) n = (some r, b) ∧ a.alloc n = (r, b)) ∨
      a.allocIn (a.segmentCount - 1) n = (none, a) ∧ a.alloc n = a.allocFresh n := by
  have hlast : a.segments.size - 1 = a.segmentCount - 1 := rfl
  rcases allocIn_cases a (a.segmentCount - 1) n with h | ⟨r, b, h, _, _⟩
  · right
    refine ⟨h, ?_⟩
    simp only [alloc]
    rw [hlast, h]
  · left
    refine ⟨r, b, h, ?_⟩
    simp only [alloc]
    rw [hlast, h]

theorem fresh_alloc (a : Arena) (n : Nat) : Fresh a (roundUp n) (a.alloc n).1 (a.alloc n).2 := by
  rcases alloc_cases a n with ⟨r, b, hin, he⟩ | ⟨_, he⟩
  · rcases allocIn_cases a (a.segmentCount - 1) n with hn | ⟨r', b', hr, _, hf⟩
    · rw [hn] at hin
      cases hin
    · rw [hr] at hin
      obtain ⟨rfl, rfl⟩ : r' = r ∧ b' = b := by simpa using hin
      rw [he]
      exact hf
  · rw [he]
    exact fresh_allocFresh a n

theorem fresh_alloc_words (a : Arena) {n : Nat} (hn : n % bytesPerWord = 0) :
    Fresh a n (a.alloc n).1 (a.alloc n).2 := by
  have hf := fresh_alloc a n
  rwa [roundUp_eq_self hn] at hf

namespace Fresh

variable {n : Nat} {r : Span} (h : Fresh a n r b)
include h

theorem holds : b.Holds r := by
  refine ⟨h.segment, ?_⟩
  rw [h.usedIn, if_pos rfl, Span.stop, h.start, h.length]

theorem grows (P : Nat → Nat → Prop) : Grows P a b where
  count := h.count
  used t := by rw [h.usedIn]; exact Nat.le_add_right _ _
  bytes t i _ hi := by
    rw [h.byte?, if_neg]
    rintro ⟨rfl, hs, _⟩
    rw [h.start] at hs
    exact absurd hi (Nat.not_lt.2 hs)

theorem le_of_covers {t i : Nat} (hc : r.Covers t i) : a.usedIn t ≤ i := by
  obtain ⟨rfl, hs, _⟩ := hc
  exact h.start ▸ hs

theorem whole (ha : a.Whole) (hn : n % bytesPerWord = 0) : b.Whole := by
  intro t
  have hu := ha t
  rw [h.usedIn]
  unfold bytesPerWord at *
  split <;> omega

end Fresh

theorem checkBlock_eq_ok_iff {n : Nat} : checkBlock n = .ok () ↔ roundUp n ≤ maxBlock := by
  have hmax : maxBlock < maxSize := by decide
  rw [checkBlock]
  split
  · exact ⟨fun h => (by cases h), fun h => (by omega)⟩
  · split
    · exact ⟨fun h => (by cases h), fun h => (by omega)⟩
    · exact ⟨fun _ => (by omega), fun _ => rfl⟩

theorem checkBlock_of_words {n : Nat} (hn : n % bytesPerWord = 0) (h : n ≤ maxBlock) :
    checkBlock n = .ok () :=
  checkBlock_eq_ok_iff.2 ((roundUp_eq_self hn).trans_le h)

theorem checkBlock_of_lt {n : Nat} (hn : n % bytesPerWord = 0) (h : maxBlock < n) :
    checkBlock n = .error (.breach (if maxSize < n then .overflow else .capacity)) := by
  rw [checkBlock, roundUp_eq_self hn, if_pos h]
  split <;> rfl

end Arena

end FrozenDefaults
