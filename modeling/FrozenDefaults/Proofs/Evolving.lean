import FrozenDefaults.Proofs.Building
import Mathlib.Logic.Relation

/-!
# Copies come down to allocations and writes

Whatever a copy is given and however it ends, what it does to the arena is a
sequence of allocations and writes. What these keep is kept by every copy: the
arena stays sound, and nothing of it goes away.
-/

namespace FrozenDefaults

open DeepCopy

namespace Arena

/-- What is done to an arena at once. A write that is refused changes nothing. -/
inductive Step : Arena → Arena → Prop
  | alloc (a : Arena) (n : Nat) : Step a (a.alloc n).2
  | allocIn (a : Arena) (segment n : Nat) : Step a (a.allocIn segment n).2
  | write (a : Arena) (s : Span) (bs : List UInt8) : Step a (Building.write s bs a).2

abbrev Steps : Arena → Arena → Prop := Relation.ReflTransGen Step

theorem write_cases (a : Arena) (s : Span) (bs : List UInt8) :
    a.Holds s ∧ bs.length = s.length ∧ Building.write s bs a = (.ok (), a.patch s bs) ∨
      ¬ (a.Holds s ∧ bs.length = s.length) ∧ ∃ f, Building.write s bs a = (.error f, a) := by
  have hget : (get : Building Arena) a = (.ok a, a) := rfl
  cases hc : a.check s with
  | error f =>
    right
    refine ⟨fun ⟨hs, _⟩ => ?_, f, ?_⟩
    · rw [check_of_holds hs] at hc
      cases hc
    · rw [Building.write, Building.bind_ok hget, Building.bind_error (Building.lift_error hc)]
  | ok _ =>
    have hs := check_eq_ok_iff.1 hc
    by_cases hl : bs.length = s.length
    · exact .inl ⟨hs, hl, Building.write_of_holds hs hl⟩
    · right
      refine ⟨fun h => hl h.2, .breach .unequalLengths, ?_⟩
      rw [Building.write, Building.bind_ok hget, Building.bind_ok (Building.lift_ok hc), if_neg hl]
      rfl

variable {a b : Arena}

theorem Step.evolves (h : Step a b) : Evolves a b := by
  cases h with
  | alloc n => exact evolves_alloc a n
  | allocIn segment n => exact evolves_allocIn a segment n
  | write s bs =>
    rcases write_cases a s bs with ⟨_, _, h⟩ | ⟨_, f, h⟩ <;> rw [h]
    · exact evolves_patch a s bs
    · exact .refl a

theorem Steps.evolves (h : Steps a b) : Evolves a b := by
  induction h with
  | refl => exact .refl a
  | tail _ hstep ih => exact ih.trans hstep.evolves

end Arena

open Arena (Steps)

def Building.Stepping {α : Type} (m : Building α) : Prop := ∀ a, Steps a (m a).2

namespace Building.Stepping

variable {α β : Type} {m : Building α} {k : α → Building β}

theorem pure (x : α) : Stepping (Pure.pure x) := fun _ => .refl

theorem throw (f : Fault) : Stepping (throw f : Building α) := fun _ => .refl

theorem lift (e : Except Fault α) : Stepping (liftExcept e : Building α) := by
  cases e with
  | ok x => exact pure x
  | error f => exact throw f

theorem bind (hm : Stepping m) (hk : ∀ x, Stepping (k x)) : Stepping (m >>= k) := by
  intro a
  have hsteps := hm a
  cases hx : m a with
  | mk r b =>
    rw [hx] at hsteps
    cases r with
    | ok x =>
      rw [bind_ok hx]
      exact hsteps.trans (hk x b)
    | error f =>
      rw [bind_error hx]
      exact hsteps

theorem after (e : Except Fault α) (hk : ∀ x, Stepping (k x)) : Stepping (liftExcept e >>= k) :=
  bind (lift e) hk

theorem alloc (n : Nat) : Stepping (Building.alloc n) :=
  after _ fun _ a => .single (.alloc a n)

theorem write (s : Span) (bs : List UInt8) : Stepping (Building.write s bs) :=
  fun a => .single (.write a s bs)

theorem writeWord (segment word : Nat) (w : Word) : Stepping (Building.writeWord segment word w) :=
  write _ _

theorem forIndices {step : Nat → Building Unit} (h : ∀ i, Stepping (step i)) (first count : Nat) :
    Stepping (DeepCopy.forIndices step first count) := by
  induction count generalizing first with
  | zero => exact pure ()
  | succ count ih => exact bind (h first) fun _ => ih (first + 1)

theorem place (slot : Span) (n : Nat) : Stepping (DeepCopy.place slot n) := by
  intro a
  have hin := Arena.Step.allocIn a slot.segment n
  rw [Arena.place_eq]
  cases he : a.allocIn slot.segment n with
  | mk r b =>
    rw [he] at hin
    cases r with
    | some r =>
      rw [Arena.makeRoom_of_some he]
      exact .single hin
    | none =>
      rw [Arena.makeRoom_of_none he rfl]
      exact .tail (.single hin) (.alloc b _)

theorem link (slot : Span) (p : Placement) (w : Word) : Stepping (DeepCopy.link slot p w) := by
  unfold DeepCopy.link
  split
  · exact writeWord _ _ _
  · exact bind (writeWord _ _ _) fun _ => writeWord _ _ _

theorem listInRegion (v : ListView) (region : Span) :
    Stepping (DeepCopy.listInRegion v region) := by
  unfold DeepCopy.listInRegion
  split
  · exact bind (writeWord _ _ _) fun _ => after _ fun _ => pure _
  · exact pure _

section Fill

variable {source : Arena} {copySlot : Span → Span → Building Unit}

theorem fillBytes (src dst : Span) (n : Nat) : Stepping (DeepCopy.fillBytes source src dst n) := by
  unfold DeepCopy.fillBytes
  split
  · exact after _ fun _ => after _ fun _ => after _ fun _ => write _ _
  · exact pure ()

variable (hc : ∀ src slot, Stepping (copySlot src slot))
include hc

theorem fillSlots (src dst : Span) (count : Nat) :
    Stepping (DeepCopy.fillSlots copySlot src dst count) :=
  forIndices (fun _ => after _ fun _ => after _ fun _ => hc _ _) 0 count

theorem fillStruct (src dst : StructView) :
    Stepping (DeepCopy.fillStruct source copySlot src dst) :=
  bind (fillBytes _ _ _) fun _ => after _ fun _ => after _ fun _ => fillSlots hc _ _ _

theorem fillList (src dst : ListView) : Stepping (DeepCopy.fillList source copySlot src dst) := by
  unfold DeepCopy.fillList
  split
  · exact fillSlots hc _ _ _
  · exact forIndices (fun _ => after _ fun _ => after _ fun _ => fillStruct hc _ _) _ _
  · exact fillBytes _ _ _

theorem copyStructTo (src : StructView) (slot : Span) :
    Stepping (DeepCopy.copyStructTo source copySlot src slot) := by
  unfold DeepCopy.copyStructTo
  by_cases h0 : src.data.length / bytesPerWord = 0 ∧ src.pointers.length / bytesPerWord = 0
  · rw [if_pos h0]
    exact writeWord _ _ _
  · rw [if_neg h0]
    exact bind (place _ _) fun _ => bind (fillStruct hc _ _) fun _ => link _ _ _

theorem copyListTo (src : ListView) (slot : Span) :
    Stepping (DeepCopy.copyListTo source copySlot src slot) :=
  bind (place _ _) fun _ => bind (listInRegion _ _) fun _ => bind (fillList hc _ _) fun _ =>
    link _ _ _

theorem copyTarget (src slot : Span) (pointer : Word) :
    Stepping (DeepCopy.copyTarget source copySlot src slot pointer) := by
  refine after _ fun t => ?_
  cases t with
  | struct v => exact copyStructTo hc v slot
  | list v => exact copyListTo hc v slot

end Fill

theorem copyWord {source : Arena} {descend : Span → Span → Word → Building Unit}
    (hd : ∀ src slot pointer, Stepping (descend src slot pointer)) (src slot : Span) :
    Stepping (DeepCopy.copyWord source descend src slot) := by
  refine after _ fun _ => after _ fun _ => after _ fun pointer => ?_
  split
  · exact writeWord _ _ _
  · exact hd _ _ _

variable (source : Arena) (limit : Nat)

theorem copySlot (room : Nat) (src slot : Span) :
    Stepping (DeepCopy.copySlot source limit room src slot) := by
  induction room generalizing src slot with
  | zero => exact copyWord (fun _ _ _ => throw _) src slot
  | succ room ih => exact copyWord (copyTarget ih) src slot

theorem copyPointer (src slot : Span) : Stepping (DeepCopy.copyPointer source limit src slot) :=
  copySlot source limit limit src slot

theorem copyStruct (src : StructView) (d p : Nat) :
    Stepping (DeepCopy.copyStruct source limit src d p) :=
  bind (alloc _) fun _ => bind (fillStruct (copyPointer source limit) _ _) fun _ => pure _

theorem copyList (src : ListView) : Stepping (DeepCopy.copyList source limit src) :=
  after _ fun _ => bind (alloc _) fun _ => bind (listInRegion _ _) fun _ =>
    bind (fillList (copyPointer source limit) _ _) fun _ => pure _

theorem copyDescriptor (d : Descriptor) : Stepping (DeepCopy.copyDescriptor source limit d) := by
  cases d with
  | struct v =>
    exact after _ fun _ => after _ fun _ => bind (copyStruct source limit v _ _) fun _ => pure _
  | list v => exact bind (copyList source limit v) fun _ => pure _
  | pointer src =>
    exact bind (alloc _) fun _ => bind (copyPointer source limit src _) fun _ => pure _

end Building.Stepping

end FrozenDefaults
