import FrozenDefaults.Proofs.Backing
import FrozenDefaults.Proofs.Doubling

/-!
# Blocks that can be had

No memory has a block of more than `maxBlock` bytes. An arena that grows asks for
blocks at least twice as large as before, so that it may come to ask for too
large a block although all that is put into it is small. It does not as long as
twice of what is in use is no more than a block can have.
-/

namespace FrozenDefaults

theorem Segment.used_le_size_block (s : Segment) : s.block.used ≤ s.block.storage.size := by
  rw [block, Array.size_append]
  exact Nat.le_add_right _ _

namespace Arena

/-- A memory as there can be one. -/
def Backing.Bounded (m : Backing) : Prop := ∀ b ∈ m.blocks, b.storage.size ≤ maxBlock

instance (m : Backing) : Decidable m.Bounded := by
  unfold Backing.Bounded
  infer_instance

variable {a b : Arena} {s : Span} {n : Nat}

theorem maxBlock_le_maxSize : maxBlock ≤ maxSize := by decide

theorem stop_le_of_holds (ha : a.backing.Bounded) (hs : a.Holds s) : s.stop ≤ maxBlock := by
  obtain ⟨seg, hseg, hstop⟩ := holds_iff.1 hs
  have hblock : a.backing.blocks[s.segment]? = some seg.block := by
    rw [getElem?_backing, hseg]
    rfl
  exact hstop.trans (seg.used_le_size_block.trans (ha _ (Array.mem_of_getElem? hblock)))

theorem stop_le_maxSize (ha : a.backing.Bounded) (hs : a.Holds s) : s.stop ≤ maxSize :=
  (stop_le_of_holds ha hs).trans maxBlock_le_maxSize

theorem bounded_backing_iff (ha : a.Sound) :
    a.backing.Bounded ↔ ∀ s < a.segmentCount, a.capacityIn s ≤ maxBlock := by
  have hsize {s : Nat} {seg : Segment} (hseg : a.segments[s]? = some seg) :
      seg.block.storage.size = a.capacityIn s := by
    rw [Segment.size_block (ha.fits seg (Array.mem_of_getElem? hseg)), capacityIn, hseg]
    rfl
  constructor
  · intro h s hs
    obtain ⟨seg, hseg⟩ := getElem?_of_lt hs
    have hblock : a.backing.blocks[s]? = some seg.block := by
      rw [getElem?_backing, hseg]
      rfl
    exact hsize hseg ▸ h _ (Array.mem_of_getElem? hblock)
  · intro h b hb
    obtain ⟨s, hs⟩ := Array.getElem?_of_mem hb
    rw [getElem?_backing] at hs
    obtain ⟨seg, hseg, rfl⟩ := Option.map_eq_some_iff.1 hs
    rw [hsize hseg]
    exact h s (Array.getElem?_eq_some_iff.1 hseg).1

theorem Evolves.bounded (h : Evolves a b) (ha : a.Sound) (hb : b.backing.Bounded) :
    a.backing.Bounded := by
  rw [bounded_backing_iff ha]
  intro s hs
  rw [← h.capacity s hs]
  exact (bounded_backing_iff (h.sound ha)).1 hb s (hs.trans_le h.grows.count)

theorem Evolves.bounded_of_count (h : Evolves a b) (ha : a.Sound)
    (hc : b.segmentCount = a.segmentCount) (hb : a.backing.Bounded) : b.backing.Bounded := by
  rw [bounded_backing_iff (h.sound ha), hc]
  intro s hs
  rw [h.capacity s hs]
  exact (bounded_backing_iff ha).1 hb s hs

theorem segmentCount_allocIn (a : Arena) (segment n : Nat) :
    (a.allocIn segment n).2.segmentCount = a.segmentCount := by
  by_cases h : ∃ seg, a.segments[segment]? = some seg ∧ seg.used + roundUp n ≤ seg.capacity
  · obtain ⟨seg, hseg, hc⟩ := h
    rw [allocIn_of_room hseg hc]
    exact Array.size_modify
  · rw [allocIn_of_full fun seg hseg => Nat.lt_of_not_le fun hc => h ⟨seg, hseg, hc⟩]

theorem bounded_allocIn (ha : a.Sound) (hbound : a.backing.Bounded) {segment : Nat}
    {r : Option Span} (h : a.allocIn segment n = (r, b)) : b.backing.Bounded := by
  have hev := evolves_allocIn a segment n
  have hc := segmentCount_allocIn a segment n
  rw [h] at hev hc
  exact hev.bounded_of_count ha hc hbound

theorem bounded_allocFresh_iff (ha : a.Sound) (hb : a.backing.Bounded)
    (hfull : a.alloc n = a.allocFresh n) :
    (a.allocFresh n).2.backing.Bounded ↔ max (roundUp n) a.nextSize ≤ maxBlock := by
  have hev := hfull ▸ evolves_alloc a n
  rw [bounded_backing_iff (hev.sound ha), segmentCount_allocFresh]
  constructor
  · intro h
    rw [← capacityIn_allocFresh_self a n]
    exact h _ (Nat.lt_succ_self _)
  · intro h s hs
    rcases Nat.lt_succ_iff_lt_or_eq.1 hs with hs | rfl
    · rw [hev.capacity s hs]
      exact (bounded_backing_iff ha).1 hb s hs
    · rw [capacityIn_allocFresh_self]
      exact h

/-- The size kept for the next segment is at most twice that of the last one opened. -/
theorem Steps.nextSize_le (h : Steps a b) :
    b.nextSize ≤ max a.nextSize (2 * b.capacityIn (b.segmentCount - 1)) := by
  induction h with
  | refl => exact Nat.le_max_left _ _
  | @tail c d _ hstep ih =>
    -- Only a step that opens a segment changes the size that is kept.
    rcases hstep.cases with ⟨hcount, hnext⟩ | ⟨n, _, _, rfl⟩
    · rw [hcount, hnext]
      rcases Nat.eq_zero_or_pos c.segmentCount with h0 | h0
      · have hnone : c.capacityIn (c.segmentCount - 1) = 0 := by
          rw [h0, capacityIn, Array.getElem?_eq_none (Nat.le_of_eq h0)]
          rfl
        rw [hnone] at ih
        omega
      · rwa [hstep.evolves.capacity _ (Nat.sub_lt h0 Nat.one_pos)]
    · rw [nextSize_allocFresh, segmentCount_allocFresh, Nat.add_sub_cancel,
        capacityIn_allocFresh_self]
      omega

/-- What is in use tells that all blocks can be had. -/
theorem Steps.bounded (h : Steps a b) (ha : a.Sound) (hbound : a.backing.Bounded)
    (hnext : a.nextSize ≤ maxBlock) (htotal : 2 * b.totalSize ≤ maxBlock) :
    b.backing.Bounded := by
  rw [bounded_backing_iff (h.evolves.sound ha)]
  intro s hs
  by_cases hold : s < a.segmentCount
  · rw [h.evolves.capacity s hold]
    exact (bounded_backing_iff ha).1 hbound s hold
  · -- The segment was opened on the way, and the one before it was full then: what is in use there
    -- bounds the size that was kept for the new one.
    obtain ⟨c, n, hbefore, hafter, _, hfull, hcap⟩ := h.exists_alloc (Nat.le_of_not_lt hold) hs
    have hsize := (fresh_alloc c n).totalSize ▸ hafter.evolves.size
    have hkept := hbefore.nextSize_le
    have hlast : c.capacityIn (c.segmentCount - 1) ≤ b.totalSize := by
      rcases hfull with h0 | hfull
      · rw [capacityIn, Array.getElem?_eq_none (by rw [h0]; exact Nat.le_of_eq h0)]
        exact Nat.zero_le _
      · have hused := c.usedIn_le_totalSize (c.segmentCount - 1)
        omega
    rw [hcap]
    omega

end Arena

end FrozenDefaults
