import FrozenDefaults.Proofs.Reachable

/-!
# Arenas rebuilt from their segments

The used bytes of a word-aligned arena make an arena again, with or without room
behind the first segment. Whatever can be read in the one can be read in the
other.
-/

namespace FrozenDefaults

namespace Arena

/-- The arena without the room behind its segments. -/
def frozen (a : Arena) : Arena :=
  ⟨a.segments.map fun s => { s with capacity := s.used }, minSegmentSize⟩

variable {a b : Arena}

theorem getElem?_toSegments (a : Arena) (s : Nat) :
    a.toSegments[s]? = a.segments[s]?.map (·.bytes.toList) := by
  rw [toSegments, List.getElem?_map, Array.getElem?_toList]

theorem usedIn_eq (a : Arena) (s : Nat) :
    a.usedIn s = (a.toSegments[s]?.map List.length).getD 0 := by
  rw [usedIn, getElem?_toSegments, Option.map_map]
  rfl

/-- Reads depend on the used bytes alone. -/
theorem grows_of_toSegments (P : Nat → Nat → Prop) (h : b.toSegments = a.toSegments) :
    Grows P a b where
  count := by rw [← length_toSegments, ← h, length_toSegments]
  used s := by rw [usedIn_eq, usedIn_eq, h]
  bytes s i _ _ := by
    have hbyte (c : Arena) : c.byte? s i = c.toSegments[s]?.bind (·[i]?) := by
      rw [byte?, getElem?_toSegments, Option.bind_map]
      simp only [Function.comp_def, Array.getElem?_toList]
    rw [hbyte, hbyte, h]

theorem ofSegmentsFrom_eq_ok (a : Arena) {segments : List (List UInt8)}
    (h : ∀ bs ∈ segments, bs.length % bytesPerWord = 0) :
    ofSegmentsFrom a segments = .ok { a with
      segments := a.segments ++ (segments.map fun bs => ⟨bs.toArray, bs.length⟩).toArray } := by
  induction segments generalizing a with
  | nil => simp [ofSegmentsFrom]
  | cons bs segments ih =>
    rw [ofSegmentsFrom, if_pos (h bs List.mem_cons_self),
      ih _ fun bs' hbs => h bs' (List.mem_cons_of_mem bs hbs)]
    simp

theorem ofSegments_toSegments (h : a.Whole) : ofSegments a.toSegments = .ok a.frozen := by
  have hwords : ∀ bs ∈ a.toSegments, bs.length % bytesPerWord = 0 := by
    intro bs hbs
    obtain ⟨seg, hseg, rfl⟩ := List.mem_map.1 hbs
    exact h.used_mod (Array.mem_toList_iff.1 hseg)
  rw [ofSegments, ofSegmentsFrom_eq_ok empty hwords]
  refine congrArg (fun l => Except.ok (Arena.mk l minSegmentSize)) (Array.ext_getElem? fun i => ?_)
  simp [empty, toSegments, Function.comp_def, Segment.used]

theorem ofSegmentsWithCapacity_toSegments (h : a.Whole) (capacity : Nat) :
    ofSegmentsWithCapacity a.toSegments capacity = .ok (a.frozen.enlarge capacity) := by
  rw [ofSegmentsWithCapacity_eq, ofSegments_toSegments h]
  rfl

theorem toSegments_frozen (a : Arena) : a.frozen.toSegments = a.toSegments := by
  rw [toSegments, frozen, Array.toList_map, List.map_map]
  rfl

theorem enlarge_of_pos (h : 0 < a.segmentCount) (capacity : Nat) : a.enlarge capacity =
    { a with
      segments := a.segments.modify 0 fun s =>
        { s with capacity := max s.capacity (roundUp capacity) } } :=
  if_neg fun he => h.ne' (Array.isEmpty_iff_size_eq_zero.1 he)

theorem toSegments_enlarge (h : 0 < a.segmentCount) (capacity : Nat) :
    (a.enlarge capacity).toSegments = a.toSegments := by
  apply List.ext_getElem?
  intro i
  rw [enlarge_of_pos h, getElem?_toSegments, getElem?_toSegments, Array.getElem?_modify]
  split
  · rw [Option.map_map]
    rfl
  · rfl

theorem grows_enlarge (P : Nat → Nat → Prop) (a : Arena) (capacity : Nat) :
    Grows P a (a.enlarge capacity) := by
  rcases Nat.eq_zero_or_pos a.segmentCount with h | h
  · have hused (s : Nat) : a.usedIn s = 0 := usedIn_eq_zero (h ▸ Nat.zero_le s)
    exact ⟨h ▸ Nat.zero_le _, fun s => hused s ▸ Nat.zero_le _,
      fun s i _ hi => absurd hi (hused s ▸ Nat.not_lt_zero i)⟩
  · exact grows_of_toSegments P (toSegments_enlarge h capacity)

end Arena

end FrozenDefaults
