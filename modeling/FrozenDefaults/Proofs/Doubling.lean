import FrozenDefaults.Proofs.Preservation
import FrozenDefaults.Proofs.Reachable

/-!
# Segments double

A new segment is opened by an allocation for which the last segment has no room,
and by nothing else. The size kept for it is ahead of every segment there is, so
that from one segment to the next the capacity at least doubles. Few segments
are ever needed, and their numbers are small.
-/

namespace FrozenDefaults

namespace Arena

variable {a b : Arena} {n : Nat}

/-- The last segment has no room for `n` bytes, or there is no segment. -/
def Full (a : Arena) (n : Nat) : Prop :=
  a.segmentCount = 0 ∨
    a.capacityIn (a.segmentCount - 1) < a.usedIn (a.segmentCount - 1) + roundUp n

theorem full_iff : a.Full n ↔ (a.allocIn (a.segmentCount - 1) n).1 = none := by
  rw [← Option.not_isSome_iff_eq_none, isSome_allocIn_iff, Full]
  omega

theorem segmentCount_allocFresh (a : Arena) (n : Nat) :
    (a.allocFresh n).2.segmentCount = a.segmentCount + 1 := by
  simp [allocFresh, openSegment, segmentCount]

theorem nextSize_allocFresh (a : Arena) (n : Nat) : (a.allocFresh n).2.nextSize =
    max a.nextSize (min (2 * max (roundUp n) a.nextSize) maxSize) := rfl

theorem capacityIn_allocFresh_self (a : Arena) (n : Nat) :
    (a.allocFresh n).2.capacityIn a.segmentCount = max (roundUp n) a.nextSize := by
  have hopen : (a.openSegment (max (roundUp n) a.nextSize)).capacityIn a.segmentCount =
      max (roundUp n) a.nextSize := by
    rw [capacityIn, getElem?_openSegment, if_pos rfl]
    rfl
  exact (capacityIn_extend _ _ _ _ _).trans hopen

/-- What a step can do to the segments: nothing, or open one more because the last one is full. -/
theorem Step.cases (h : Step a b) : b.segmentCount = a.segmentCount ∧ b.nextSize = a.nextSize ∨
    ∃ n, a.Full n ∧ b = (a.alloc n).2 ∧ b = (a.allocFresh n).2 := by
  have hroom (segment n : Nat) : (a.allocIn segment n).2.segmentCount = a.segmentCount ∧
      (a.allocIn segment n).2.nextSize = a.nextSize := by
    by_cases hfit : ∃ seg, a.segments[segment]? = some seg ∧ seg.used + roundUp n ≤ seg.capacity
    · obtain ⟨seg, hseg, hc⟩ := hfit
      rw [allocIn_of_room hseg hc]
      exact ⟨Array.size_modify, rfl⟩
    · rw [allocIn_of_full fun seg hseg => Nat.lt_of_not_le fun hc => hfit ⟨seg, hseg, hc⟩]
      exact ⟨rfl, rfl⟩
  cases h with
  | alloc n =>
    rcases alloc_cases a n with ⟨r, b, hin, he⟩ | ⟨hin, he⟩
    · have h := hroom (a.segmentCount - 1) n
      rw [hin] at h
      rw [he]
      exact .inl h
    · exact .inr ⟨n, full_iff.2 (by rw [hin]), rfl, by rw [he]⟩
  | allocIn segment n => exact .inl (hroom segment n)
  | write s bs =>
    rcases write_cases a s bs with ⟨_, _, h⟩ | ⟨_, f, h⟩ <;> rw [h]
    · exact .inl ⟨segmentCount_patch s bs, rfl⟩
    · exact .inl ⟨rfl, rfl⟩

theorem segmentCount_withCapacity_le (n : Nat) : (withCapacity n).segmentCount ≤ 1 := by
  unfold withCapacity
  by_cases h0 : 0 < roundUp n
  · rw [if_pos h0]
    exact Nat.le_refl 1
  · rw [if_neg h0]
    exact Nat.zero_le 1

/-- The size kept for the next segment is ahead of the capacities there are. -/
structure Geared (a : Arena) : Prop where
  least : minSegmentSize ≤ a.nextSize
  ahead : ∀ s < a.segmentCount, min (2 * a.capacityIn s) maxSize ≤ a.nextSize

namespace Geared

theorem withCapacity (n : Nat) : Geared (.withCapacity n) := by
  unfold Arena.withCapacity
  by_cases h0 : 0 < roundUp n
  · rw [if_pos h0]
    refine ⟨?_, fun s hs => ?_⟩
    · exact (Nat.le_max_right _ _).trans (Nat.le_max_left _ _)
    · obtain rfl : s = 0 := Nat.lt_one_iff.1 hs
      exact Nat.le_max_right _ _
  · rw [if_neg h0]
    exact ⟨Nat.le_max_right _ _, fun s hs => absurd hs (Nat.not_lt_zero s)⟩

variable (ha : a.Geared)
include ha

theorem step (h : Step a b) : b.Geared := by
  have hold {s : Nat} (hs : s < a.segmentCount) : min (2 * b.capacityIn s) maxSize ≤ a.nextSize := by
    rw [h.evolves.capacity s hs]
    exact ha.ahead s hs
  rcases h.cases with ⟨hcount, hnext⟩ | ⟨n, _, _, rfl⟩
  · refine ⟨hnext ▸ ha.least, fun s hs => ?_⟩
    rw [hnext]
    exact hold (hcount ▸ hs)
  · refine ⟨ha.least.trans (Nat.le_max_left _ _), fun s hs => ?_⟩
    rw [segmentCount_allocFresh] at hs
    rw [nextSize_allocFresh]
    rcases Nat.lt_succ_iff_lt_or_eq.1 hs with hs | rfl
    · exact (hold hs).trans (Nat.le_max_left _ _)
    · rw [capacityIn_allocFresh_self]
      exact Nat.le_max_right _ _

theorem steps (h : Steps a b) : b.Geared := by
  induction h with
  | refl => exact ha
  | tail _ hstep ih => exact ih.step hstep

end Geared

theorem Steps.exists_alloc (h : Steps a b) {s : Nat} (hs : a.segmentCount ≤ s)
    (hb : s < b.segmentCount) : ∃ c n, Steps a c ∧ Steps (c.alloc n).2 b ∧ c.segmentCount = s ∧
      c.Full n ∧ b.capacityIn s = max (roundUp n) c.nextSize := by
  induction h with
  | refl => omega
  | @tail c d hsteps hstep ih =>
    by_cases hc : s < c.segmentCount
    · obtain ⟨e, n, hbefore, hafter, hcount, hfull, hcap⟩ := ih hc
      refine ⟨e, n, hbefore, hafter.tail hstep, hcount, hfull, ?_⟩
      rw [hstep.evolves.capacity s hc, hcap]
    · rcases hstep.cases with ⟨hcount, _⟩ | ⟨n, hfull, he, rfl⟩
      · omega
      · rw [segmentCount_allocFresh] at hb
        obtain rfl : c.segmentCount = s := by omega
        exact ⟨c, n, hsteps, he ▸ .refl, rfl, hfull, capacityIn_allocFresh_self c n⟩

/-- The arenas that come of one made with a capacity, by allocations, writes and copies, whether a
step succeeds or fails. -/
inductive Grown (start : Nat) : Arena → Prop
  | withCapacity : Grown start (.withCapacity start)
  | alloc {a : Arena} (h : Grown start a) (n : Nat) : Grown start (a.alloc n).2
  | allocIn {a : Arena} (h : Grown start a) (segment n : Nat) : Grown start (a.allocIn segment n).2
  | write {a : Arena} (h : Grown start a) (s : Span) (bs : List UInt8) :
      Grown start (Building.write s bs a).2
  | copyStruct {a : Arena} (h : Grown start a) (source : Arena) (limit : Nat) (src : StructView)
      (dataWords pointerWords : Nat) :
      Grown start (DeepCopy.copyStruct source limit src dataWords pointerWords a).2
  | copyList {a : Arena} (h : Grown start a) (source : Arena) (limit : Nat) (src : ListView) :
      Grown start (DeepCopy.copyList source limit src a).2
  | copyPointer {a : Arena} (h : Grown start a) (source : Arena) (limit : Nat) (src slot : Span) :
      Grown start (DeepCopy.copyPointer source limit src slot a).2

/-- No capacity but the last is so large that twice as much is no size. -/
def Unsaturated (a : Arena) : Prop := ∀ s < a.segmentCount - 1, 2 * a.capacityIn s ≤ maxSize

namespace Grown

variable {start : Nat} (h : Grown start a)
include h

theorem steps : Steps (.withCapacity start) a := by
  induction h with
  | withCapacity => exact .refl
  | alloc _ n ih => exact ih.tail (.alloc _ n)
  | allocIn _ segment n ih => exact ih.tail (.allocIn _ segment n)
  | write _ s bs ih => exact ih.tail (.write _ s bs)
  | copyStruct _ source limit src d p ih =>
    exact ih.trans (Building.Stepping.copyStruct source limit src d p _)
  | copyList _ source limit src ih => exact ih.trans (Building.Stepping.copyList source limit src _)
  | copyPointer _ source limit src slot ih =>
    exact ih.trans (Building.Stepping.copyPointer source limit src slot _)

/-- From one segment to the next the capacity doubles, unless that is too much for a size. -/
theorem capacityIn_succ {s : Nat} (hs : s + 1 < a.segmentCount) :
    minSegmentSize ≤ a.capacityIn (s + 1) ∧
      min (2 * a.capacityIn s) maxSize ≤ a.capacityIn (s + 1) := by
  have hfirst := segmentCount_withCapacity_le start
  obtain ⟨c, n, hbefore, hafter, hcount, _, hcap⟩ := h.steps.exists_alloc (s := s + 1) (by omega) hs
  have hc := (Geared.withCapacity start).steps hbefore
  have hlt : s < c.segmentCount := by omega
  have hkept : a.capacityIn s = c.capacityIn s :=
    ((evolves_alloc c n).trans hafter.evolves).capacity s hlt
  rw [hcap, hkept]
  exact ⟨hc.least.trans (Nat.le_max_right _ _), (hc.ahead s hlt).trans (Nat.le_max_right _ _)⟩

theorem minSegmentSize_mul_le (hsat : a.Unsaturated) {k : Nat} (hk : k + 1 < a.segmentCount) :
    minSegmentSize * 2 ^ k ≤ a.capacityIn (k + 1) := by
  induction k with
  | zero => exact (h.capacityIn_succ hk).1
  | succ k ih =>
    rw [Nat.pow_succ, ← Nat.mul_assoc, Nat.mul_comm]
    calc 2 * (minSegmentSize * 2 ^ k)
      _ ≤ 2 * a.capacityIn (k + 1) := Nat.mul_le_mul_left 2 (ih (by omega))
      _ = min (2 * a.capacityIn (k + 1)) maxSize := (Nat.min_eq_left (hsat (k + 1) (by omega))).symm
      _ ≤ a.capacityIn (k + 1 + 1) := (h.capacityIn_succ hk).2

theorem segmentCount_lt (hsat : a.Unsaturated)
    (hlast : a.capacityIn (a.segmentCount - 1) ≤ maxSize) : a.segmentCount < 56 := by
  by_contra hmany
  obtain ⟨k, hk⟩ : ∃ k, a.segmentCount = 54 + k + 2 := ⟨a.segmentCount - 56, by omega⟩
  have hle := h.minSegmentSize_mul_le hsat (k := 54 + k) (by omega)
  have hpow : 2 ^ 54 ≤ 2 ^ (54 + k) := Nat.pow_le_pow_right (by decide) (Nat.le_add_right _ _)
  rw [hk] at hlast
  have hbound : minSegmentSize * 2 ^ 54 ≤ maxSize :=
    (Nat.mul_le_mul_left _ hpow).trans (hle.trans hlast)
  exact absurd hbound (by decide)

end Grown

/-- However an arena has grown, every segment after the first has at least the least capacity, twice
the capacity of the one before, and what the allocation asked for that opened it because the last
segment was full. So segments are few, and 32 bits tell them apart. -/
theorem segments_double {start : Nat} {a : Arena} (h : Grown start a) :
    (∀ s, s + 1 < a.segmentCount → minSegmentSize ≤ a.capacityIn (s + 1) ∧
      min (2 * a.capacityIn s) maxSize ≤ a.capacityIn (s + 1)) ∧
    (withCapacity start).segmentCount ≤ 1 ∧
    (∀ s < a.segmentCount, (withCapacity start).segmentCount ≤ s → ∃ b n,
      Steps (withCapacity start) b ∧ Steps (b.alloc n).2 a ∧ b.segmentCount = s ∧ b.Full n ∧
        roundUp n ≤ a.capacityIn s) ∧
    (a.Unsaturated →
      (∀ s, s + 1 < a.segmentCount → 2 * a.capacityIn s ≤ a.capacityIn (s + 1)) ∧
      (2 ≤ a.segmentCount →
        1024 * 2 ^ (a.segmentCount - 2) ≤ a.capacityIn (a.segmentCount - 1)) ∧
      (a.capacityIn (a.segmentCount - 1) ≤ maxSize → a.segmentCount < 56 ∧
        ∀ s ≤ a.segmentCount, (UInt32.ofNat s).toNat = s)) := by
  refine ⟨fun s hs => h.capacityIn_succ hs, segmentCount_withCapacity_le start,
    fun s hs hstart => ?_, fun hsat => ⟨fun s hs => ?_, fun htwo => ?_, fun hlast => ?_⟩⟩
  · obtain ⟨b, n, hbefore, hafter, hcount, hfull, hcap⟩ := h.steps.exists_alloc hstart hs
    exact ⟨b, n, hbefore, hafter, hcount, hfull, hcap ▸ Nat.le_max_left _ _⟩
  · exact Nat.min_eq_left (hsat s (by omega)) ▸ (h.capacityIn_succ hs).2
  · obtain ⟨k, hk⟩ : ∃ k, a.segmentCount = k + 2 := ⟨a.segmentCount - 2, by omega⟩
    rw [hk]
    exact h.minSegmentSize_mul_le hsat (by omega)
  · have hfew := h.segmentCount_lt hsat hlast
    refine ⟨hfew, fun s hs => UInt32.toNat_ofNat_of_lt' ?_⟩
    rw [UInt32.size]
    omega

/-- A copy opens a second segment for a landing pad with its object, and a large request a third. -/
theorem segments_double_sample :
    let copied := (DeepCopy.copyPointer Arena.sample 64 ⟨0, 0, 8⟩ ⟨0, 0, 8⟩ crowded).2
    let a := (copied.alloc 5000).2
    (List.range a.segmentCount).map a.capacityIn = [8, 1024, 5000] ∧
      2 * a.capacityIn 1 ≤ a.capacityIn 2 ∧
      ∃ b n, Steps (withCapacity 8) b ∧ Steps (b.alloc n).2 a ∧ b.segmentCount = 2 ∧ b.Full n ∧
        roundUp n ≤ a.capacityIn 2 := by
  intro copied a
  have hcapacities : (List.range a.segmentCount).map a.capacityIn = [8, 1024, 5000] := by
    decide +kernel
  have hcount : a.segmentCount = 3 := by decide +kernel
  have hsat : a.Unsaturated := by
    unfold Unsaturated
    decide +kernel
  have hstart : Grown 8 (.withCapacity 8) := .withCapacity
  have hgrown : Grown 8 a :=
    ((hstart.alloc 8).copyPointer Arena.sample 64 ⟨0, 0, 8⟩ ⟨0, 0, 8⟩).alloc 5000
  obtain ⟨_, _, hopened, hdouble⟩ := segments_double hgrown
  exact ⟨hcapacities, (hdouble hsat).1 1 (by omega), hopened 2 (by omega) (by decide)⟩

end Arena

end FrozenDefaults
