import Mathlib.Algebra.Order.BigOperators.Group.List
import FrozenDefaults.DeepCopy

/-!
# The memory of an arena

An arena is looked at byte by byte: `usedIn` says how much of a segment is in
use and `byte?` what stands at a place. `Grows P a b` says that `b` has come out
of `a` by allocations and writes that spared the places with `P`. Every read
that succeeds stays the same while its places are spared.
-/

namespace FrozenDefaults

/-- The span has the place `i` of the given segment. -/
def Span.Covers (s : Span) (segment i : Nat) : Prop :=
  segment = s.segment ∧ s.start ≤ i ∧ i < s.stop

instance (s : Span) (segment i : Nat) : Decidable (s.Covers segment i) :=
  inferInstanceAs (Decidable (_ ∧ _))

/-- The spans have no place in common. -/
def Span.Apart (r q : Span) : Prop := ∀ s i, r.Covers s i → ¬ q.Covers s i

namespace Arena

def usedIn (a : Arena) (segment : Nat) : Nat := (a.segments[segment]?.map Segment.used).getD 0

def byte? (a : Arena) (segment i : Nat) : Option UInt8 :=
  a.segments[segment]?.bind fun seg => seg.bytes[i]?

def Holds (a : Arena) (s : Span) : Prop :=
  s.segment < a.segmentCount ∧ s.stop ≤ a.usedIn s.segment

/-- All segments are filled up to a word boundary. -/
def Whole (a : Arena) : Prop := ∀ segment, a.usedIn segment % bytesPerWord = 0

structure Grows (P : Nat → Nat → Prop) (a b : Arena) : Prop where
  count : a.segmentCount ≤ b.segmentCount
  used : ∀ s, a.usedIn s ≤ b.usedIn s
  bytes : ∀ s i, P s i → i < a.usedIn s → b.byte? s i = a.byte? s i

variable {a b c : Arena} {P Q : Nat → Nat → Prop}

theorem usedIn_of_getElem? {s : Nat} {seg : Segment} (h : a.segments[s]? = some seg) :
    a.usedIn s = seg.used := by simp [usedIn, h]

theorem usedIn_eq_zero {s : Nat} (h : a.segmentCount ≤ s) : a.usedIn s = 0 := by
  have hn : a.segments[s]? = none := Array.getElem?_eq_none h
  simp [usedIn, hn]

theorem getElem?_of_lt {s : Nat} (h : s < a.segmentCount) : ∃ seg, a.segments[s]? = some seg :=
  ⟨_, Array.getElem?_eq_getElem h⟩

theorem byte?_of_getElem? {s : Nat} {seg : Segment} (h : a.segments[s]? = some seg) (i : Nat) :
    a.byte? s i = seg.bytes[i]? := by simp [byte?, h]

theorem byte?_eq_none {s i : Nat} (h : a.usedIn s ≤ i) : a.byte? s i = none := by
  by_cases hs : s < a.segmentCount
  · obtain ⟨seg, hseg⟩ := getElem?_of_lt hs
    rw [usedIn_of_getElem? hseg] at h
    rw [byte?_of_getElem? hseg]
    exact Array.getElem?_eq_none h
  · have hn : a.segments[s]? = none := Array.getElem?_eq_none (Nat.le_of_not_lt hs)
    simp [byte?, hn]

theorem used_le_foldr {l : List Segment} {seg : Segment} (h : seg ∈ l) :
    seg.used ≤ l.foldr (fun s n => s.used + n) 0 := by
  induction l with
  | nil => cases h
  | cons x xs ih =>
    rw [List.foldr_cons]
    rcases List.mem_cons.1 h with rfl | h
    · exact Nat.le_add_right _ _
    · exact (ih h).trans (Nat.le_add_left _ _)

theorem usedIn_le_totalSize (a : Arena) (s : Nat) : a.usedIn s ≤ a.totalSize := by
  by_cases hs : s < a.segmentCount
  · obtain ⟨seg, hseg⟩ := getElem?_of_lt hs
    rw [usedIn_of_getElem? hseg]
    exact used_le_foldr (Array.mem_toList_iff.2 (Array.mem_of_getElem? hseg))
  · rw [usedIn_eq_zero (Nat.le_of_not_lt hs)]
    exact Nat.zero_le _

theorem length_toSegments (a : Arena) : a.toSegments.length = a.segmentCount := by
  rw [toSegments, List.length_map, Array.length_toList, segmentCount]

theorem Holds.sub {s : Span} (h : a.Holds s) {start n : Nat} (hn : start + n ≤ s.stop) :
    a.Holds ⟨s.segment, start, n⟩ := ⟨h.1, hn.trans h.2⟩

theorem check_eq_ok_iff {s : Span} : a.check s = .ok () ↔ a.Holds s := by
  by_cases hs : s.segment < a.segmentCount
  · obtain ⟨seg, hseg⟩ := getElem?_of_lt hs
    simp only [check, hseg, Holds, usedIn_of_getElem? hseg, hs, true_and]
    by_cases hu : s.stop ≤ seg.used
    · simp [hu]
    · simp [hu]
  · have hn : a.segments[s.segment]? = none := Array.getElem?_eq_none (Nat.le_of_not_lt hs)
    simp [check, hn, Holds, hs]

theorem check_of_holds {s : Span} (h : a.Holds s) : a.check s = .ok () := check_eq_ok_iff.2 h

theorem read_eq_extract {s : Span} {seg : Segment} (h : a.Holds s)
    (hseg : a.segments[s.segment]? = some seg) :
    a.read s = .ok (seg.bytes.extract s.start s.stop).toList := by
  simp only [read, check_of_holds h, hseg]
  rfl

theorem exists_read {s : Span} (h : a.Holds s) : ∃ bs, a.read s = .ok bs ∧ bs.length = s.length ∧
    ∀ i < s.length, bs[i]? = a.byte? s.segment (s.start + i) := by
  obtain ⟨seg, hseg⟩ := getElem?_of_lt h.1
  have hstop := h.2
  rw [usedIn_of_getElem? hseg, Segment.used, Span.stop] at hstop
  refine ⟨_, read_eq_extract h hseg, ?_, fun i hi => ?_⟩
  · rw [Array.length_toList, Array.size_extract, Span.stop]
    omega
  · rw [byte?_of_getElem? hseg, Array.getElem?_toList, Array.getElem?_extract, if_pos]
    rw [Span.stop]
    omega

theorem holds_of_read {s : Span} {bs : List UInt8} (h : a.read s = .ok bs) : a.Holds s := by
  cases hc : a.check s with
  | ok _ => exact check_eq_ok_iff.1 hc
  | error f =>
    simp only [read, hc] at h
    cases h

theorem check_eq_error {s : Span} {f : Fault} (h : a.read s = .error f) : a.check s = .error f := by
  cases hc : a.check s with
  | error g =>
    rw [read, hc] at h
    exact congrArg _ (Except.error.inj h)
  | ok _ =>
    obtain ⟨bs, hread, _⟩ := exists_read (check_eq_ok_iff.1 hc)
    cases hread.symm.trans h

/-- What a read gives, byte by byte. -/
theorem read_eq_ok_iff {s : Span} {bs : List UInt8} :
    a.read s = .ok bs ↔ a.Holds s ∧ bs.length = s.length ∧
      ∀ i < s.length, bs[i]? = a.byte? s.segment (s.start + i) := by
  constructor
  · intro hr
    obtain ⟨bs', hr', hl, hg⟩ := exists_read (holds_of_read hr)
    obtain rfl : bs' = bs := Except.ok.inj (hr'.symm.trans hr)
    exact ⟨holds_of_read hr, hl, hg⟩
  · rintro ⟨hs, hl, hg⟩
    obtain ⟨bs', hr', hl', hg'⟩ := exists_read hs
    have hbs : bs' = bs := by
      apply List.ext_getElem?
      intro i
      by_cases hi : i < s.length
      · rw [hg' i hi, hg i hi]
      · rw [List.getElem?_eq_none (by omega), List.getElem?_eq_none (by omega)]
    rw [hr', hbs]

namespace Grows

theorem refl (P : Nat → Nat → Prop) (a : Arena) : Grows P a a :=
  ⟨Nat.le_refl _, fun _ => Nat.le_refl _, fun _ _ _ _ => rfl⟩

theorem trans (hab : Grows P a b) (hbc : Grows P b c) : Grows P a c where
  count := hab.count.trans hbc.count
  used s := (hab.used s).trans (hbc.used s)
  bytes s i hp hi :=
    (hbc.bytes s i hp (hi.trans_le (hab.used s))).trans (hab.bytes s i hp hi)

theorem mono (h : Grows P a b) (hq : ∀ s i, Q s i → i < a.usedIn s → P s i) : Grows Q a b where
  count := h.count
  used := h.used
  bytes s i hp hi := h.bytes s i (hq s i hp hi) hi

theorem spares (h : Grows (fun _ _ => ¬ False) a b) : Grows (fun _ _ => True) a b :=
  h.mono fun _ _ _ _ => id

theorem holds (h : Grows P a b) {s : Span} (hs : a.Holds s) : b.Holds s :=
  ⟨hs.1.trans_le h.count, hs.2.trans (h.used _)⟩

theorem read (h : Grows P a b) {s : Span} {bs : List UInt8} (hr : a.read s = .ok bs)
    (hp : ∀ i, s.Covers s.segment i → P s.segment i) : b.read s = .ok bs := by
  obtain ⟨hs, hl, hg⟩ := read_eq_ok_iff.1 hr
  refine read_eq_ok_iff.2 ⟨h.holds hs, hl, fun i hi => ?_⟩
  have hstop := hs.2
  have hc : s.Covers s.segment (s.start + i) :=
    ⟨rfl, Nat.le_add_right _ _, Nat.add_lt_add_left hi _⟩
  rw [hg i hi, h.bytes _ _ (hp _ hc) (hc.2.2.trans_le hstop)]

end Grows

end Arena

end FrozenDefaults
