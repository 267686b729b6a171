import FrozenDefaults.Proofs.Capabilities
import FrozenDefaults.Proofs.Formation
import FrozenDefaults.Proofs.Limits
import FrozenDefaults.Proofs.Outcome

/-!
# Extents of objects

A pointer leads to an object only if the whole of it lies in the used part of
one segment: the words that its tag declares and no others, at word boundaries.
Nothing is asked of the source, whose words may be any. In particular each slot
of the object is a word that can be read.
-/

namespace FrozenDefaults

open Arena

/-- All of the span lies in the other one. -/
def Span.Within (t s : Span) : Prop := t.segment = s.segment ∧ s.start ≤ t.start ∧ t.stop ≤ s.stop

namespace Arena

/-- The ways from the pointer `p`, found at the given word, to the place of its object and the word
that describes it: this is the pointer itself, its landing pad, or the word behind the first of a
double landing pad, which then tells the place. -/
inductive Route (a : Arena) (segment word : Nat) (p : Word) : Tagged → Prop
  | near {n : Nat} (hk : Pointer.kind p = .struct ∨ Pointer.kind p = .list)
      (ht : Pointer.target? p word = some n) : Route a segment word p ⟨p, segment, n⟩
  | pad {w : Word} {n : Nat} (hk : Pointer.kind p = .far) (hd : Pointer.isDouble p = false)
      (hw : a.readWord (Pointer.segment p) (Pointer.padWord p) = .ok w)
      (hnear : Pointer.kind w ≠ .far) (ht : Pointer.target? w (Pointer.padWord p) = some n) :
      Route a segment word p ⟨w, Pointer.segment p, n⟩
  | doublePad {w tag : Word} (hk : Pointer.kind p = .far) (hd : Pointer.isDouble p = true)
      (hw : a.readWord (Pointer.segment p) (Pointer.padWord p) = .ok w)
      (hfar : Pointer.kind w = .far) (hsingle : Pointer.isDouble w = false)
      (htag : a.readWord (Pointer.segment p) (Pointer.padWord p + 1) = .ok tag) :
      Route a segment word p ⟨tag, Pointer.segment w, Pointer.padWord w⟩

end Arena

/-- The struct lies at the place in two sections side by side, with the words that the tag
declares. -/
structure StructView.DeclaredIn (v : StructView) (a : Arena) (t : Tagged) : Prop where
  kind : Pointer.kind t.tag = .struct
  formed : v.FormedIn a
  segment : v.data.segment = t.segment
  start : v.data.start = t.word * bytesPerWord
  data : v.data.length = (Pointer.dataWords t.tag).toNat * bytesPerWord
  pointers : v.pointers.length = (Pointer.pointerWords t.tag).toNat * bytesPerWord

/-- The elements have room in the declared number of words, right behind the tag word of the list,
which tells their number and their form. -/
structure ListView.CompositeIn (v : ListView) (a : Arena) (t : Tagged) (d p : UInt16) : Prop where
  size : Pointer.elementSize t.tag = .composite
  tag : ∃ w, a.readWord t.segment t.word = .ok w ∧ Pointer.kind w = .struct ∧
    Pointer.dataWords w = d ∧ Pointer.pointerWords w = p ∧ Pointer.tagCount w = v.count
  start : v.elements.start = (t.word + 1) * bytesPerWord
  length : v.elements.length = (Pointer.elementCount t.tag).toNat * bytesPerWord
  room : v.count.toNat * ElementLayout.stride d p ≤ (Pointer.elementCount t.tag).toNat

/-- The elements begin at the place and take as many bytes as their number needs in whole words. -/
structure ListView.UntaggedAt (v : ListView) (t : Tagged) : Prop where
  size : Pointer.elementSize t.tag = v.layout.size
  count : v.count = Pointer.elementCount t.tag
  start : v.elements.start = t.word * bytesPerWord
  length : v.elements.length = v.layout.storageBytes v.count

/-- The elements are whole words in use at the place, enough for their number. -/
structure ListView.DeclaredIn (v : ListView) (a : Arena) (t : Tagged) : Prop where
  kind : Pointer.kind t.tag = .list
  whole : a.HoldsWords v.elements
  segment : v.elements.segment = t.segment
  valid : v.validate = .ok ()
  extent : match v.layout with
    | .composite d p => v.CompositeIn a t d p
    | _ => v.UntaggedAt t

def Target.DeclaredIn (target : Target) (a : Arena) (t : Tagged) : Prop :=
  match target with
  | .struct v => v.DeclaredIn a t
  | .list v => v.DeclaredIn a t

def Target.sections : Target → List Span
  | .struct v => [v.data, v.pointers]
  | .list v => [v.elements]

/-- All that a copy reads of the object is in use: each part of the sections and each slot. -/
structure Target.ReadableIn (target : Target) (a : Arena) : Prop where
  sections : ∀ s ∈ target.sections, ∀ q : Span, q.Within s →
    ∃ bs, a.read q = .ok bs ∧ bs.length = q.length
  slots : ∀ q ∈ target.slots, a.HasSlot q ∧ ∃ w, a.readWord q.segment q.startWord = .ok w

theorem ListView.validate_of_room {v : ListView}
    (h : v.layout.payloadBytes v.count ≤ v.elements.length) : v.validate = .ok () :=
  if_neg (Nat.not_lt.2 h)

namespace Arena

variable {a : Arena} {segment word : Nat} {p : Word} {t : Tagged}

theorem route_of_place (h : a.place segment word p = .ok t) : a.Route segment word p t := by
  unfold place at h
  split at h
  · cases h
  · rename_i hk
    obtain ⟨w, hw, ⟨hd, hfar, hsingle, tag, htag, rfl⟩ | ⟨hd, hnear, h⟩⟩ := of_farPlace h
    · exact .doublePad hk hd hw hfar hsingle htag
    · obtain ⟨n, hn, rfl⟩ := of_nearPlace h
      exact .pad hk hd hw hnear hn
  · rename_i hk
    obtain ⟨n, hn, rfl⟩ := of_nearPlace h
    exact .near (.inl hk) hn
  · rename_i hk
    obtain ⟨n, hn, rfl⟩ := of_nearPlace h
    exact .near (.inr hk) hn

theorem structAt_declaredIn {v : StructView} (hk : Pointer.kind t.tag = .struct)
    (h : a.structAt t = .ok v) : v.DeclaredIn a t := by
  obtain ⟨hh, rfl⟩ := structAt_eq_ok_iff.1 h
  refine ⟨hk, ⟨⟨hh.sub ?_, ?_⟩, ⟨hh.sub ?_, ?_⟩, rfl, rfl⟩, rfl, rfl, rfl, rfl⟩
  · simp only [structSpan, Span.stop, Nat.add_mul]
    omega
  · exact ⟨Nat.mul_mod_left _ _, Nat.mul_mod_left _ _⟩
  · simp only [structSpan, Span.stop, Nat.add_mul]
    omega
  · refine ⟨Nat.mul_mod_left _ _, ?_⟩
    exact (Nat.add_mul_mod_self_right _ _ _).trans (Nat.mul_mod_left _ _)

theorem compositeAt_declaredIn {v : ListView} (hk : Pointer.kind t.tag = .list)
    (hs : Pointer.elementSize t.tag = .composite)
    (h : a.compositeAt t = .ok v) : v.DeclaredIn a t := by
  obtain ⟨w, hw, hstruct, hroom, hh, rfl⟩ := compositeAt_eq_ok_iff.1 h
  rw [Nat.mul_comm] at hroom
  refine ⟨hk, ⟨hh, Nat.mul_mod_left _ _, Nat.mul_mod_left _ _⟩, rfl, ?_, ?_⟩
  · refine ListView.validate_of_room ?_
    rw [ElementLayout.payloadBytes_composite, ← Nat.mul_assoc]
    exact Nat.mul_le_mul_right _ hroom
  · exact ⟨hs, ⟨w, hw, hstruct, rfl, rfl, rfl⟩, rfl, rfl, hroom⟩

theorem listAt_declaredIn {v : ListView} (hk : Pointer.kind t.tag = .list)
    (h : a.listAt t = .ok v) : v.DeclaredIn a t := by
  rcases listAt_cases h with ⟨hs, h⟩ | ⟨l, hsize, hplain, hh, rfl⟩
  · exact compositeAt_declaredIn hk hs h
  · refine ⟨hk, ⟨hh, roundUp_mod _, Nat.mul_mod_left _ _⟩, rfl, ?_, ?_⟩
    · exact ListView.validate_of_room (l.payloadBytes_le_storageBytes _)
    · cases l with
      | composite d p => exact absurd rfl hplain
      | _ => exact ⟨hsize, rfl, rfl, rfl⟩

/-- What a pointer leads to is what the tag at the end of its route declares, and all there. -/
theorem declaredIn_of_follow {target : Target} (h : a.follow segment word p = .ok target) :
    ∃ t, a.Route segment word p t ∧ target.DeclaredIn a t := by
  obtain ⟨t, ht, h⟩ := bind_eq_ok_iff.1 h
  refine ⟨t, route_of_place ht, ?_⟩
  rcases objectAt_cases h with ⟨v, hk, hv, rfl⟩ | ⟨v, hk, hv, rfl⟩
  · exact structAt_declaredIn hk hv
  · exact listAt_declaredIn hk hv

end Arena

section Slots

variable {a : Arena} {q s : Span}

theorem Span.within_of_word {i : Nat} (h : s.word i = .ok q) : q.Within s := by
  obtain ⟨hle, rfl⟩ := Span.part_eq_ok_iff.1 h
  refine ⟨rfl, Nat.le_add_right _ _, ?_⟩
  simp only [Span.stop]
  omega

theorem Arena.HoldsWords.hasSlot (h : a.HoldsWords s) {i : Nat} (hq : s.word i = .ok q) :
    a.HasSlot q := by
  obtain ⟨hle, rfl⟩ := Span.part_eq_ok_iff.1 hq
  have hregion : a.HasRegion s s.length := ⟨h.holds, Nat.le_refl _, h.aligned.2⟩
  exact hregion.slot ((Nat.succ_mul _ _).trans_le hle)

theorem Span.mem_wordsFrom_iff {count : Nat} (h : count * bytesPerWord ≤ s.length) :
    q ∈ wordsFrom s.segment s.start count ↔ ∃ i < count, s.word i = .ok q := by
  rw [mem_wordsFrom]
  refine exists_congr fun i => and_congr_right fun hi => ?_
  rw [Span.word, Span.part_eq_ok_iff]
  exact ⟨fun hq => ⟨(Nat.succ_mul _ _).symm.trans_le ((Nat.mul_le_mul_right _ hi).trans h), hq⟩,
    fun hq => hq.2⟩

theorem StructView.mem_slots_iff {v : StructView} :
    q ∈ v.slots ↔ ∃ i < v.pointers.length / bytesPerWord, v.pointers.word i = .ok q :=
  Span.mem_wordsFrom_iff (Nat.div_mul_le_self _ _)

theorem word_of_element {d p : UInt16} {count i j : Nat} (hi : i < count) (hj : j < p.toNat)
    (hroom : count * (ElementLayout.stride d p * bytesPerWord) ≤ s.length) :
    s.word (i * ElementLayout.stride d p + d.toNat + j) =
      .ok ⟨s.segment, s.start + i * (ElementLayout.stride d p * bytesPerWord) +
        d.toNat * bytesPerWord + j * bytesPerWord, bytesPerWord⟩ := by
  have hnext : (i + 1) * (ElementLayout.stride d p * bytesPerWord) ≤ s.length :=
    (Nat.mul_le_mul_right _ hi).trans hroom
  refine Span.part_eq_ok_iff.2 ⟨?_, ?_⟩
  · rw [Nat.succ_mul, ← Nat.mul_assoc, ← Nat.add_mul] at hnext
    rw [← Nat.succ_mul]
    refine (Nat.mul_le_mul_right _ ?_).trans hnext
    unfold ElementLayout.stride
    omega
  · rw [Nat.add_mul, Nat.add_mul, Nat.mul_assoc, ← Nat.add_assoc, ← Nat.add_assoc]

theorem ListView.exists_word_of_mem_slots {v : ListView}
    (hroom : v.layout.payloadBytes v.count ≤ v.elements.length) (hq : q ∈ v.slots) :
    ∃ i, v.elements.word i = .ok q := by
  obtain ⟨s, l, count⟩ := v
  obtain ⟨i, hi, hq⟩ := Shape.mem_slotsFrom.1 hq
  obtain ⟨j, hj, rfl⟩ := mem_wordsFrom.1 hq
  rcases l.trichotomy with rfl | ⟨d, p, rfl⟩ | hl
  · rw [ElementLayout.payloadBytes_pointer] at hroom
    have hi0 : i = 0 := Nat.lt_one_iff.1 hi
    refine ⟨j, Span.part_eq_ok_iff.2 ⟨?_, ?_⟩⟩
    · rw [← Nat.succ_mul]
      exact (Nat.mul_le_mul_right _ hj).trans hroom
    · rw [hi0, Nat.zero_mul]
      rfl
  · rw [ElementLayout.payloadBytes_composite] at hroom
    have hword := word_of_element hi hj hroom
    rw [Shape.partBytes_composite]
    exact ⟨_, hword⟩
  · rw [Shape.pointerWords_bare hl] at hj
    exact absurd hj (Nat.not_lt_zero j)

theorem Target.DeclaredIn.hasSlot {target : Target} {t : Tagged} (h : target.DeclaredIn a t)
    (hq : q ∈ target.slots) : a.HasSlot q := by
  cases target with
  | struct v =>
    obtain ⟨i, _, hi⟩ := StructView.mem_slots_iff.1 hq
    exact h.formed.pointers.hasSlot hi
  | list v =>
    obtain ⟨i, hi⟩ := ListView.exists_word_of_mem_slots (ListView.room_of_validate h.valid) hq
    exact h.whole.hasSlot hi

theorem Arena.Holds.within (h : a.Holds s) (hq : q.Within s) : a.Holds q :=
  ⟨hq.1 ▸ h.1, hq.1 ▸ hq.2.2.trans h.2⟩

theorem Target.DeclaredIn.exists_read {target : Target} {t : Tagged} (h : target.DeclaredIn a t)
    (hs : s ∈ target.sections) (hq : q.Within s) :
    ∃ bs, a.read q = .ok bs ∧ bs.length = q.length := by
  have hheld : a.Holds s := by
    cases target with
    | struct v =>
      have hformed := StructView.DeclaredIn.formed h
      rcases List.mem_pair.1 hs with rfl | rfl
      · exact hformed.data.holds
      · exact hformed.pointers.holds
    | list v =>
      rw [List.mem_singleton.1 hs]
      exact (ListView.DeclaredIn.whole h).holds
  obtain ⟨bs, hread, hlength, _⟩ := Arena.exists_read (hheld.within hq)
  exact ⟨bs, hread, hlength⟩

theorem Target.DeclaredIn.readableIn {target : Target} {t : Tagged} (h : target.DeclaredIn a t) :
    target.ReadableIn a where
  sections _ hs _ hq := h.exists_read hs hq
  slots _ hq := ⟨h.hasSlot hq, (h.hasSlot hq).exists_readWord⟩

end Slots

end FrozenDefaults
