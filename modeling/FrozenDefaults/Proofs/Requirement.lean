import FrozenDefaults.Proofs.Copying

/-!
# What a copy requires

A copy reads its source and writes its destination in turns. It succeeds only
where the source can be read, whatever the destination is.
-/

namespace FrozenDefaults

open Arena
open DeepCopy

namespace Building

variable {α β γ δ : Type} {m : Building β} {k : β → Building γ} {a c : Arena}

/-- A sequence of steps that succeeds has a first step that does. -/
theorem bind_run {z : γ} (h : (m >>= k) a = (.ok z, c)) :
    ∃ y b, m a = (.ok y, b) ∧ k y b = (.ok z, c) := by
  obtain ⟨r, b, hm⟩ : ∃ r b, m a = (r, b) := ⟨_, _, rfl⟩
  cases r with
  | ok y =>
    rw [bind_ok hm] at h
    exact ⟨y, b, hm, h⟩
  | error f =>
    rw [bind_error hm] at h
    cases h

/-- The step succeeds, in whatever arena it is run, only where the reading `r` does. -/
def Requires (m : Building β) (r : Except Fault α) : Prop :=
  ∀ a y b, m a = (.ok y, b) → ∃ x, r = .ok x

namespace Requires

variable {r : Except Fault α} {f : α → Except Fault δ}

theorem of_ok (m : Building β) (x : α) : Requires m (.ok x) := fun _ _ _ _ => ⟨x, rfl⟩

theorem of_read (e : Except Fault β) : Requires (liftExcept e) e := by
  intro a y b h
  cases e with
  | ok x => exact ⟨x, rfl⟩
  | error f => cases h

theorem bind (h : Requires m r) (hk : ∀ y x, r = .ok x → Requires (k y) (f x)) :
    Requires (m >>= k) (r >>= f) := by
  intro a z c hrun
  obtain ⟨y, b, hm, hrest⟩ := bind_run hrun
  obtain ⟨x, hx⟩ := h a y b hm
  obtain ⟨w, hw⟩ := hk y x hx b z c hrest
  exact ⟨w, bind_eq_ok_iff.2 ⟨x, hx, hw⟩⟩

theorem read {e : Except Fault β} {f : β → Except Fault δ}
    (hk : ∀ x, e = .ok x → Requires (k x) (f x)) : Requires (liftExcept e >>= k) (e >>= f) := by
  cases e with
  | ok x => exact fun a z c h => hk x rfl a z c h
  | error f => exact fun _ _ _ h => by cases h

theorem lift {e : Except Fault β} (hk : ∀ x, e = .ok x → Requires (k x) r) :
    Requires (liftExcept e >>= k) r := by
  cases e with
  | ok x => exact fun a z c h => hk x rfl a z c h
  | error f => exact fun _ _ _ h => by cases h

theorem step (hk : ∀ y, Requires (k y) r) : Requires (m >>= k) r := by
  intro a z c hrun
  obtain ⟨y, b, _, hrest⟩ := bind_run hrun
  exact hk y b z c hrest

theorem before (h : Requires m r) : Requires (m >>= k) r := by
  intro a z c hrun
  obtain ⟨y, b, hm, _⟩ := bind_run hrun
  exact h a y b hm

theorem map (h : Requires m r) (g : α → δ) : Requires m (r >>= fun x => .ok (g x)) := by
  intro a y b hm
  obtain ⟨x, hx⟩ := h a y b hm
  exact ⟨g x, bind_eq_ok_iff.2 ⟨x, hx, rfl⟩⟩

theorem forIndices {step : Nat → Building Unit} {reading : Nat → Except Fault α}
    (h : ∀ i, Requires (step i) (reading i)) (first count : Nat) :
    Requires (DeepCopy.forIndices step first count) (collect reading first count) := by
  induction count generalizing first with
  | zero => exact of_ok _ _
  | succ count ih => exact (h first).bind fun _ x _ => (ih (first + 1)).map (x :: ·)

variable {source : Arena} {value : Span → Except Fault Value}
  {copySlot : Span → Span → Building Unit}

theorem fillBytes (src dst : Span) (n : Nat) :
    Requires (DeepCopy.fillBytes source src dst n) (source.dataOf src n) := by
  rw [DeepCopy.fillBytes, dataOf]
  split
  · exact .read fun _ _ => before (of_read _)
  · exact of_ok _ _

variable (hc : ∀ src slot, Requires (copySlot src slot) (value src))
include hc

theorem fillSlots (src dst : Span) (count : Nat) :
    Requires (DeepCopy.fillSlots copySlot src dst count) (slotsOf value src count) :=
  .forIndices (fun _ => .read fun t _ => .lift fun _ _ => hc t _) 0 count

theorem fillStruct (v : StructView) (region : Span) (d p : Nat) :
    Requires (DeepCopy.fillStruct source copySlot v (.ofRegion region d p))
      (source.partOf value v d p) := by
  refine (fillBytes _ _ _).bind fun _ _ _ => .read fun there _ => .lift fun here hhere => ?_
  obtain ⟨_, rfl⟩ := Span.wordCount_eq_ok_iff.1 hhere
  have hp : (StructView.ofRegion region d p).pointers.length / bytesPerWord = p :=
    Nat.mul_div_cancel p (by decide)
  rw [hp]
  exact (fillSlots hc _ _ _).map _

theorem fillElement (src dst : Span) (d p : UInt16) (i : Nat) :
    Requires (DeepCopy.fillElement source copySlot src dst d p i)
      (source.elementOf value src d p i) :=
  .read fun _ _ => .lift fun _ _ => fillStruct hc _ _ _ _

theorem fillElements (src dst : Span) (d p : UInt16) (count : UInt32) :
    Requires (DeepCopy.forIndices (DeepCopy.fillElement source copySlot src dst d p) 0
        (elementRounds (ElementLayout.stride d p) count))
      (collect (source.elementOf value src d p) 0 count.toNat) := by
  by_cases h0 : ElementLayout.stride d p = 0
  · rw [elementRounds, if_pos h0]
    cases hn : count.toNat with
    | zero => exact of_ok _ _
    | succ n =>
      -- The one round reads an element, and all of them are read alike.
      have hmin : min (n + 1) 1 = 0 + 1 := by omega
      rw [hmin]
      refine before ?_
      intro a y b hrun
      obtain ⟨part, hpart⟩ := fillElement hc src dst d p 0 a y b hrun
      have hsame (i : Nat) : source.elementOf value src d p i = .ok part := by
        rw [← hpart]
        simp only [elementOf, h0, Nat.zero_mul, Nat.mul_zero]
      exact ⟨_, collect_const hsame 0 (n + 1)⟩
  · rw [elementRounds, if_neg h0]
    exact .forIndices (fillElement hc src dst d p) 0 count.toNat

theorem fillList (v w : ListView) :
    Requires (DeepCopy.fillList source copySlot v w) (source.listParts value v) := by
  obtain ⟨s, l, count⟩ := v
  rcases l.trichotomy with rfl | ⟨d, p, rfl⟩ | hl
  · exact (fillSlots hc _ _ _).map _
  · exact fillElements hc s w.elements d p count
  · rw [fillList_bare hl, listParts_bare hl]
    exact (fillBytes _ _ _).map _

theorem copyTarget (src slot : Span) (pointer : Word) :
    Requires (DeepCopy.copyTarget source copySlot src slot pointer)
      (source.follow src.segment src.startWord pointer >>= source.targetOf value) := by
  refine .read fun t ht => ?_
  rcases follow_linkable ht with ⟨region, d, p, rfl, hal⟩ | ⟨v, rfl, _⟩
  · let v := StructView.ofRegion region d.toNat p.toNat
    have hal : v.pointers.Aligned :=
      ⟨Nat.mul_mod_left _ _, (Nat.add_mul_mod_self_right _ _ _).trans hal⟩
    show Requires (DeepCopy.copyStructTo source copySlot v slot) (source.targetOf value (.struct v))
    unfold DeepCopy.copyStructTo
    by_cases h0 : v.data.length / bytesPerWord = 0 ∧ v.pointers.length / bytesPerWord = 0
    · rw [targetOf_emptyStruct hal h0.1 h0.2]
      exact of_ok _ _
    · rw [if_neg h0]
      exact .step fun spot => before ((fillStruct hc v _ _ _).map _)
  · exact .step fun spot => .step fun dst => before ((fillList hc v dst).map _)

end Requires

end Building

open Building (Requires)

theorem copyWord_requires {source : Arena} {descend : Span → Span → Word → Building Unit}
    {beyond : Word → Except Fault Value} (src slot : Span)
    (hd : ∀ pointer, Requires (descend src slot pointer) (beyond pointer)) :
    Requires (copyWord source descend src slot) (source.wordValue beyond src) := by
  refine .read fun _ _ => .lift fun _ _ => .read fun pointer _ => ?_
  by_cases hn : Pointer.isNull pointer = true
  · rw [if_pos hn, if_pos hn]
    exact .of_ok _ _
  · rw [if_neg hn, if_neg hn]
    exact hd pointer

theorem copySlot_requires (source : Arena) (limit room : Nat) (src slot : Span) :
    Requires (copySlot source limit room src slot) (source.valueAt limit room src) := by
  induction room generalizing src slot with
  | zero =>
    refine copyWord_requires src slot fun _ => ?_
    rintro _ _ _ ⟨⟩
  | succ room ih => exact copyWord_requires src slot fun p => .copyTarget ih src slot p

section Copies

variable (source : Arena) (limit : Nat)

theorem copyPointer_requires (src slot : Span) :
    Requires (copyPointer source limit src slot) (source.valueAt limit limit src) :=
  copySlot_requires source limit limit src slot

theorem copyStruct_requires (v : StructView) (d p : Nat) :
    Requires (copyStruct source limit v d p) (source.partOf (source.valueAt limit limit) v d p) :=
  .step fun _ => .before (.fillStruct (copyPointer_requires source limit) v _ d p)

theorem copyList_requires (v : ListView) :
    Requires (copyList source limit v) (v.validate >>= fun _ =>
      source.listParts (source.valueAt limit limit) v) :=
  .read fun _ _ => .step fun _ => .step fun _ =>
    .before (.fillList (copyPointer_requires source limit) v _)

end Copies

end FrozenDefaults
