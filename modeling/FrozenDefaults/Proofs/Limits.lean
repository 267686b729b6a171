import FrozenDefaults.Proofs.FarPointers
import FrozenDefaults.Proofs.Requirement
import FrozenDefaults.Proofs.SameSteps

/-!
# Steps that stop early

Two copies that differ in how they descend make the same steps, until one of them
comes to a slot that it may not copy. `SameUnless p f m m'` says that where `m`
succeeds, `m'` does the same, unless `p` holds: then it stops with `f`. A copy
stops early if one of the slots that it goes through makes it stop.
-/

namespace FrozenDefaults

open Arena

theorem mem_wordsFrom {segment start count : Nat} {s : Span} : s ∈ wordsFrom segment start count ↔
    ∃ i < count, s = ⟨segment, start + i * bytesPerWord, bytesPerWord⟩ := by
  induction count generalizing start with
  | zero => exact ⟨fun h => absurd h List.not_mem_nil, fun ⟨_, h, _⟩ => absurd h (Nat.not_lt_zero _)⟩
  | succ count ih =>
    rw [wordsFrom, List.mem_cons, ih]
    constructor
    · rintro (rfl | ⟨i, hi, rfl⟩)
      · exact ⟨0, Nat.succ_pos _, by rw [Nat.zero_mul, Nat.add_zero]⟩
      · exact ⟨i + 1, Nat.succ_lt_succ hi, by rw [Nat.succ_mul]; congr 1; omega⟩
    · rintro ⟨i, hi, rfl⟩
      cases i with
      | zero => exact .inl (by rw [Nat.zero_mul, Nat.add_zero])
      | succ i =>
        exact .inr ⟨i, Nat.lt_of_succ_lt_succ hi, by rw [Nat.succ_mul]; congr 1; omega⟩

theorem take_wordsFrom (segment start count n : Nat) :
    (wordsFrom segment start count).take n = wordsFrom segment start (min count n) := by
  induction count generalizing start n with
  | zero => rw [Nat.zero_min, wordsFrom, List.take_nil]
  | succ count ih =>
    cases n with
    | zero => rw [List.take_zero, Nat.min_zero, wordsFrom]
    | succ n => rw [Nat.succ_min_succ, wordsFrom, wordsFrom, List.take_succ_cons, ih]

theorem Shape.mem_slotsFrom {shape : Shape} {segment start count : Nat} {s : Span} :
    s ∈ shape.slotsFrom segment start count ↔ ∃ i < count,
      s ∈ wordsFrom segment (start + i * shape.partBytes + shape.dataBytes) shape.pointerWords := by
  induction count generalizing start with
  | zero => exact ⟨fun h => absurd h List.not_mem_nil, fun ⟨_, h, _⟩ => absurd h (Nat.not_lt_zero _)⟩
  | succ count ih =>
    rw [slotsFrom, List.mem_append, ih]
    constructor
    · rintro (h | ⟨i, hi, h⟩)
      · exact ⟨0, Nat.succ_pos _, by rwa [Nat.zero_mul, Nat.add_zero]⟩
      · refine ⟨i + 1, Nat.succ_lt_succ hi, ?_⟩
        rwa [Nat.succ_mul, Nat.add_comm (i * _), ← Nat.add_assoc]
    · rintro ⟨i, hi, h⟩
      cases i with
      | zero =>
        rw [Nat.zero_mul, Nat.add_zero] at h
        exact .inl h
      | succ i =>
        rw [Nat.succ_mul, Nat.add_comm (i * _), ← Nat.add_assoc] at h
        exact .inr ⟨i, Nat.lt_of_succ_lt_succ hi, h⟩

namespace Building

variable {β γ : Type} {p q : Prop} {f : Fault} {m m' : Building β} {k k' : β → Building γ}

/-- Where `m` succeeds `m'` does the same, unless `p` holds and `m'` stops with the fault. -/
def SameUnless (p : Prop) (f : Fault) (m m' : Building β) : Prop :=
  ∀ a x b, m a = (.ok x, b) → (p → (m' a).1 = .error f) ∧ (¬ p → m' a = (.ok x, b))

namespace SameUnless

theorem congr (h : SameUnless p f m m') (hpq : p ↔ q) : SameUnless q f m m' :=
  fun a x b hm => ⟨fun hq => (h a x b hm).1 (hpq.2 hq), fun hq => (h a x b hm).2 (mt hpq.1 hq)⟩

theorem refl (f : Fault) (m : Building β) : SameUnless False f m m :=
  fun _ _ _ hm => ⟨False.elim, fun _ => hm⟩

theorem of_throw (p : Prop) (f g : Fault) (m' : Building β) : SameUnless p f (throw g) m' :=
  fun _ _ _ h => by cases h

theorem stop (hp : p) (f : Fault) (m : Building β) : SameUnless p f m (throw f) :=
  fun _ _ _ _ => ⟨fun _ => rfl, fun hn => absurd hp hn⟩

theorem bind (h : SameUnless p f m m') (hk : ∀ x, SameUnless q f (k x) (k' x)) :
    SameUnless (p ∨ q) f (m >>= k) (m' >>= k') := by
  intro a z c hrun
  obtain ⟨y, b, hm, hrest⟩ := bind_run hrun
  obtain ⟨hstop, hsame⟩ := h a y b hm
  obtain ⟨hstop', hsame'⟩ := hk y b z c hrest
  by_cases hp : p
  · have herror : m' a = (.error f, (m' a).2) := Prod.ext (hstop hp) rfl
    rw [bind_error herror]
    exact ⟨fun _ => rfl, fun hn => absurd (.inl hp) hn⟩
  · rw [bind_ok (hsame hp)]
    exact ⟨fun hpq => hstop' (hpq.resolve_left hp), fun hn => hsame' fun hq => hn (.inr hq)⟩

theorem step (hk : ∀ x, SameUnless p f (k x) (k' x)) : SameUnless p f (m >>= k) (m >>= k') :=
  ((refl f m).bind hk).congr (iff_of_eq (false_or p))

theorem before (h : SameUnless p f m m') : SameUnless p f (m >>= k) (m' >>= k) :=
  (h.bind fun x => refl f (k x)).congr (iff_of_eq (or_false p))

theorem lift {e : Except Fault β} (hk : ∀ x, e = .ok x → SameUnless p f (k x) (k' x)) :
    SameUnless p f (liftExcept e >>= k) (liftExcept e >>= k') := by
  cases e with
  | ok x => exact hk x rfl
  | error g => exact of_throw p f g _

theorem forIndices {step step' : Nat → Building Unit} {P : Nat → Prop}
    (h : ∀ i, SameUnless (P i) f (step i) (step' i)) (first count : Nat) :
    SameUnless (∃ i, first ≤ i ∧ i < first + count ∧ P i) f
      (DeepCopy.forIndices step first count) (DeepCopy.forIndices step' first count) := by
  induction count generalizing first with
  | zero => exact (refl f _).congr ⟨False.elim, fun ⟨_, _, _, _⟩ => by omega⟩
  | succ count ih =>
    refine ((h first).bind fun _ => ih (first + 1)).congr ?_
    constructor
    · rintro (hs | ⟨i, _, _, hs⟩)
      · exact ⟨first, Nat.le_refl _, by omega, hs⟩
      · exact ⟨i, by omega, by omega, hs⟩
    · rintro ⟨i, hle, _, hs⟩
      rcases Nat.eq_or_lt_of_le hle with rfl | hlt
      · exact .inl hs
      · exact .inr ⟨i, hlt, by omega, hs⟩

section Fill

variable {source : Arena} {copySlot copySlot' : Span → Span → Building Unit} {stops : Span → Prop}
  (hc : ∀ src slot, SameUnless (stops src) f (copySlot src slot) (copySlot' src slot))
include hc

theorem fillSlots (src dst : Span) (count : Nat) :
    SameUnless (∃ s ∈ wordsFrom src.segment src.start count, stops s) f
      (DeepCopy.fillSlots copySlot src dst count) (DeepCopy.fillSlots copySlot' src dst count) := by
  refine (forIndices (P := fun i =>
    stops ⟨src.segment, src.start + i * bytesPerWord, bytesPerWord⟩) (fun i => ?_) 0 count).congr ?_
  · refine lift fun s hs => lift fun _ _ => ?_
    obtain ⟨_, rfl⟩ := Span.part_eq_ok_iff.1 hs
    exact hc _ _
  · constructor
    · rintro ⟨i, _, hi, hs⟩
      exact ⟨_, mem_wordsFrom.2 ⟨i, by omega, rfl⟩, hs⟩
    · rintro ⟨s, hm, hs⟩
      obtain ⟨i, hi, rfl⟩ := mem_wordsFrom.1 hm
      exact ⟨i, Nat.zero_le _, by omega, hs⟩

/-- Of the slots of a struct only those are gone through that the copy has room for. -/
theorem fillStruct (v : StructView) (region : Span) (d p : Nat) :
    SameUnless (∃ s ∈ v.slots.take p, stops s) f
      (DeepCopy.fillStruct source copySlot v (.ofRegion region d p))
      (DeepCopy.fillStruct source copySlot' v (.ofRegion region d p)) := by
  refine step fun _ => lift fun there hthere => lift fun here hhere => ?_
  obtain ⟨_, rfl⟩ := Span.wordCount_eq_ok_iff.1 hthere
  obtain ⟨_, rfl⟩ := Span.wordCount_eq_ok_iff.1 hhere
  have hp : (StructView.ofRegion region d p).pointers.length / bytesPerWord = p :=
    Nat.mul_div_cancel p (by decide)
  rw [hp, StructView.slots, take_wordsFrom]
  exact fillSlots hc _ _ _

theorem fillElement (src dst : Span) (d p : UInt16) (i : Nat) :
    SameUnless (∃ s ∈ wordsFrom src.segment (src.start +
        i * (ElementLayout.stride d p * bytesPerWord) + d.toNat * bytesPerWord) p.toNat, stops s) f
      (DeepCopy.fillElement source copySlot src dst d p i)
      (DeepCopy.fillElement source copySlot' src dst d p i) := by
  refine lift fun there hthere => lift fun here _ => ?_
  obtain ⟨_, rfl⟩ := Span.part_eq_ok_iff.1 hthere
  have hp : p.toNat * bytesPerWord / bytesPerWord = p.toNat := Nat.mul_div_cancel _ (by decide)
  refine (fillStruct hc _ here d.toNat p.toNat).congr ?_
  rw [StructView.slots, take_wordsFrom]
  simp only [StructView.ofRegion, hp, Nat.min_self]

theorem fillElements (src dst : Span) (d p : UInt16) (count : UInt32) :
    SameUnless (∃ s ∈ ListView.slots ⟨src, .composite d p, count⟩, stops s) f
      (DeepCopy.forIndices (DeepCopy.fillElement source copySlot src dst d p) 0
        (DeepCopy.elementRounds (ElementLayout.stride d p) count))
      (DeepCopy.forIndices (DeepCopy.fillElement source copySlot' src dst d p) 0
        (DeepCopy.elementRounds (ElementLayout.stride d p) count)) := by
  refine (forIndices (fillElement hc src dst d p) 0 _).congr ?_
  have hbytes : (Shape.list (.composite d p) count).partBytes =
      ElementLayout.stride d p * bytesPerWord := Shape.partBytes_composite d p count
  simp only [ListView.slots, Shape.mem_slotsFrom, hbytes, Nat.zero_add]
  constructor
  · rintro ⟨i, _, hi, s, hm, hs⟩
    exact ⟨s, ⟨i, hi.trans_le (DeepCopy.elementRounds_le _ _), hm⟩, hs⟩
  · rintro ⟨s, ⟨i, hi, hm⟩, hs⟩
    refine ⟨i, Nat.zero_le _, ?_, s, hm, hs⟩
    -- An element with a slot is not empty, so that every element has a round.
    obtain ⟨j, hj, _⟩ := mem_wordsFrom.1 hm
    have hp : p.toNat ≠ 0 := Nat.ne_zero_of_lt hj
    have hstride : ElementLayout.stride d p ≠ 0 := fun h0 => hp (Nat.eq_zero_of_add_eq_zero_left h0)
    rw [DeepCopy.elementRounds, if_neg hstride]
    exact hi

theorem fillList (v w : ListView) : SameUnless (∃ s ∈ v.slots, stops s) f
    (DeepCopy.fillList source copySlot v w) (DeepCopy.fillList source copySlot' v w) := by
  obtain ⟨src, l, count⟩ := v
  rcases l.trichotomy with rfl | ⟨d, p, rfl⟩ | hl
  · have hslots : ListView.slots ⟨src, .pointer, count⟩ =
        wordsFrom src.segment src.start count.toNat := List.append_nil _
    rw [hslots]
    exact fillSlots hc src w.elements count.toNat
  · exact fillElements hc src w.elements d p count
  · rw [fillList_bare hl, fillList_bare hl]
    refine (refl f _).congr ⟨False.elim, fun ⟨s, hm, _⟩ => ?_⟩
    obtain ⟨_, _, hm⟩ := Shape.mem_slotsFrom.1 hm
    rw [Shape.pointerWords_bare hl] at hm
    exact List.not_mem_nil hm

theorem copyStructTo (v : StructView) (slot : Span) : SameUnless (∃ s ∈ v.slots, stops s) f
    (DeepCopy.copyStructTo source copySlot v slot)
    (DeepCopy.copyStructTo source copySlot' v slot) := by
  unfold DeepCopy.copyStructTo
  by_cases h0 : v.data.length / bytesPerWord = 0 ∧ v.pointers.length / bytesPerWord = 0
  · have hslots : v.slots = [] := by rw [StructView.slots, h0.2, wordsFrom]
    rw [if_pos h0, if_pos h0, hslots]
    refine (refl f _).congr ⟨False.elim, ?_⟩
    rintro ⟨_, hm, _⟩
    exact List.not_mem_nil hm
  · have hslots : v.slots.take (v.pointers.length / bytesPerWord) = v.slots := by
      rw [StructView.slots, take_wordsFrom, Nat.min_self]
    rw [if_neg h0, if_neg h0, ← hslots]
    exact step fun spot => before (fillStruct hc v spot.content _ _)

theorem copyTarget (src slot : Span) (pointer : Word) {t : Target}
    (ht : source.follow src.segment src.startWord pointer = .ok t) :
    SameUnless (∃ s ∈ t.slots, stops s) f (DeepCopy.copyTarget source copySlot src slot pointer)
      (DeepCopy.copyTarget source copySlot' src slot pointer) := by
  refine lift fun t' ht' => ?_
  obtain rfl := Except.ok.inj (ht.symm.trans ht')
  cases t with
  | struct v => exact copyStructTo hc v slot
  | list v => exact step fun spot => step fun dst => before (fillList hc v dst)

end Fill

end SameUnless

end Building

end FrozenDefaults
