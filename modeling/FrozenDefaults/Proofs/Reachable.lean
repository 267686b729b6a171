import FrozenDefaults.Proofs.Copying
import FrozenDefaults.Proofs.Evolving

/-!
# Reachable arenas

The arenas that can be made: with a capacity or from segments, and from these by
allocations, writes and copies, whether a step succeeds or fails. All of them
are sound.
-/

namespace FrozenDefaults

namespace Arena

inductive Reachable : Arena → Prop
  | withCapacity (n : Nat) : Reachable (.withCapacity n)
  | ofSegments {segments : List (List UInt8)} {a : Arena} (h : ofSegments segments = .ok a) :
      Reachable a
  | ofSegmentsWithCapacity {segments : List (List UInt8)} {capacity : Nat} {a : Arena}
      (h : ofSegmentsWithCapacity segments capacity = .ok a) : Reachable a
  | alloc {a : Arena} (h : Reachable a) (n : Nat) : Reachable (a.alloc n).2
  | allocIn {a : Arena} (h : Reachable a) (segment n : Nat) : Reachable (a.allocIn segment n).2
  | write {a : Arena} (h : Reachable a) (s : Span) (bs : List UInt8) :
      Reachable (Building.write s bs a).2
  | copyStruct {a : Arena} (h : Reachable a) (source : Arena) (limit : Nat) (src : StructView)
      (dataWords pointerWords : Nat) :
      Reachable (DeepCopy.copyStruct source limit src dataWords pointerWords a).2
  | copyList {a : Arena} (h : Reachable a) (source : Arena) (limit : Nat) (src : ListView) :
      Reachable (DeepCopy.copyList source limit src a).2
  | copyPointer {a : Arena} (h : Reachable a) (source : Arena) (limit : Nat) (src slot : Span) :
      Reachable (DeepCopy.copyPointer source limit src slot a).2

variable {a b : Arena}

theorem whole_of_forall (h : ∀ seg ∈ a.segments, seg.used % bytesPerWord = 0) : a.Whole := by
  intro s
  by_cases hs : s < a.segmentCount
  · obtain ⟨seg, hseg⟩ := getElem?_of_lt hs
    rw [usedIn_of_getElem? hseg]
    exact h seg (Array.mem_of_getElem? hseg)
  · rw [usedIn_eq_zero (Nat.le_of_not_lt hs)]
    rfl

theorem Whole.used_mod (h : a.Whole) {seg : Segment} (hs : seg ∈ a.segments) :
    seg.used % bytesPerWord = 0 := by
  obtain ⟨s, hs⟩ := Array.getElem?_of_mem hs
  have hw := h s
  rwa [usedIn_of_getElem? hs] at hw

theorem Sound.openSegment (h : a.Sound) (capacity : Nat) : (a.openSegment capacity).Sound := by
  have hcases {seg : Segment} (hs : seg ∈ (a.openSegment capacity).segments) :
      seg ∈ a.segments ∨ seg = ⟨#[], capacity⟩ := Array.mem_push.1 hs
  refine ⟨whole_of_forall fun seg hs => ?_, fun seg hs => ?_⟩
  · rcases hcases hs with hs | rfl
    · exact h.whole.used_mod hs
    · rfl
  · rcases hcases hs with hs | rfl
    · exact h.fits seg hs
    · exact Nat.zero_le _

theorem sound_of_isEmpty {n : Nat} : Sound ⟨#[], n⟩ :=
  ⟨whole_of_forall fun _ hs => absurd hs (Array.not_mem_empty _),
    fun _ hs => absurd hs (Array.not_mem_empty _)⟩

theorem tight_withCapacity (n : Nat) : Tight (.withCapacity n) := by
  unfold withCapacity
  by_cases h0 : 0 < roundUp n
  · simp only [if_pos h0]
    exact ⟨sound_of_isEmpty.openSegment _, Nat.le_refl _⟩
  · simp only [if_neg h0]
    exact ⟨sound_of_isEmpty, Nat.zero_le _⟩

theorem sound_ofSegmentsFrom {segments : List (List UInt8)} (ha : a.Sound)
    (h : ofSegmentsFrom a segments = .ok b) : b.Sound := by
  induction segments generalizing a with
  | nil =>
    obtain rfl : a = b := Except.ok.inj h
    exact ha
  | cons bs rest ih =>
    rw [ofSegmentsFrom] at h
    by_cases hbs : bs.length % bytesPerWord = 0
    · rw [if_pos hbs] at h
      refine ih ⟨whole_of_forall fun seg hs => ?_, fun seg hs => ?_⟩ h
      · rcases Array.mem_push.1 hs with hs | rfl
        · exact ha.whole.used_mod hs
        · exact hbs
      · rcases Array.mem_push.1 hs with hs | rfl
        · exact ha.fits seg hs
        · exact Nat.le_refl _
    · rw [if_neg hbs] at h
      cases h

theorem sound_ofSegments {segments : List (List UInt8)} (h : ofSegments segments = .ok a) :
    a.Sound := sound_ofSegmentsFrom sound_of_isEmpty h

/-- The arena with at least `capacity` bytes for its first segment. -/
def enlarge (a : Arena) (capacity : Nat) : Arena :=
  if a.segments.isEmpty then
    if 0 < roundUp capacity then a.openSegment (roundUp capacity) else a
  else
    { a with
      segments := a.segments.modify 0 fun s =>
        { s with capacity := max s.capacity (roundUp capacity) } }

theorem ofSegmentsWithCapacity_eq (segments : List (List UInt8)) (capacity : Nat) :
    ofSegmentsWithCapacity segments capacity = (·.enlarge capacity) <$> ofSegments segments := by
  rw [ofSegmentsWithCapacity]
  cases ofSegments segments with
  | error f => rfl
  | ok a =>
    rw [ok_bind]
    simp only [Functor.map, Except.map, enlarge]
    split <;> rfl

theorem Sound.enlarge (h : a.Sound) (capacity : Nat) : (a.enlarge capacity).Sound := by
  unfold Arena.enlarge
  split
  · split
    · exact h.openSegment _
    · exact h
  · have hold {seg : Segment} (hseg : seg ∈ a.segments.modify 0 fun s =>
        { s with capacity := max s.capacity (roundUp capacity) }) :
        ∃ old ∈ a.segments, seg.bytes = old.bytes ∧ old.capacity ≤ seg.capacity := by
      obtain ⟨i, hi⟩ := Array.getElem?_of_mem hseg
      rw [Array.getElem?_modify] at hi
      by_cases h0 : 0 = i
      · rw [if_pos h0] at hi
        obtain ⟨old, hold, rfl⟩ := Option.map_eq_some_iff.1 hi
        exact ⟨old, Array.mem_of_getElem? hold, rfl, Nat.le_max_left _ _⟩
      · rw [if_neg h0] at hi
        exact ⟨seg, Array.mem_of_getElem? hi, rfl, Nat.le_refl _⟩
    refine ⟨whole_of_forall fun seg hseg => ?_, fun seg hseg => ?_⟩
    · obtain ⟨old, hm, hbytes, _⟩ := hold hseg
      rw [Segment.used, hbytes]
      exact h.whole.used_mod hm
    · obtain ⟨old, hm, hbytes, hcap⟩ := hold hseg
      rw [Segment.used, hbytes]
      exact (h.fits old hm).trans hcap

theorem sound_ofSegmentsWithCapacity {segments : List (List UInt8)} {capacity : Nat}
    (h : ofSegmentsWithCapacity segments capacity = .ok a) : a.Sound := by
  rw [ofSegmentsWithCapacity_eq] at h
  obtain ⟨b, hb, rfl⟩ := map_eq_ok_iff.1 h
  exact (sound_ofSegments hb).enlarge capacity

theorem Reachable.sound (h : a.Reachable) : a.Sound := by
  induction h with
  | withCapacity n => exact (tight_withCapacity n).toSound
  | ofSegments h => exact sound_ofSegments h
  | ofSegmentsWithCapacity h => exact sound_ofSegmentsWithCapacity h
  | alloc _ n ih => exact (evolves_alloc _ n).sound ih
  | allocIn _ segment n ih => exact (evolves_allocIn _ segment n).sound ih
  | write _ s bs ih => exact (Step.write _ s bs).evolves.sound ih
  | copyStruct _ source limit src d p ih =>
    exact (Building.Stepping.copyStruct source limit src d p _).evolves.sound ih
  | copyList _ source limit src ih => 
    exact (Building.Stepping.copyList source limit src _).evolves.sound ih
  | copyPointer _ source limit src slot ih =>
    exact (Building.Stepping.copyPointer source limit src slot _).evolves.sound ih

end Arena

end FrozenDefaults
