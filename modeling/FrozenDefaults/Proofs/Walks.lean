import FrozenDefaults.Proofs.Fits
import Mathlib.Logic.Function.Basic

/-!
# Where a walk stops

A value is read depth first and from left to right, and the reading ends with
the first fault it meets. A reading comes to a slot if it ends with whatever
fault it finds there; a walk comes from slot to slot in this way and stops at a
pointer that cannot be followed. The faults that tell of a pointer word come
from the pointer where the walk stops and from nothing else.
-/

namespace FrozenDefaults

/-- The fault tells of a pointer word. -/
def Fault.OfPointer : Fault → Prop
  | .malformed _ _ _ => True
  | .capability _ _ => True
  | _ => False

section Readings

variable {α β : Type}

/-- With these values of the slots the reading ends with whatever fault it finds in the slot. -/
def ComesTo (r : (Span → Except Fault Value) → Except Fault α)
    (value : Span → Except Fault Value) (slot : Span) : Prop :=
  ∀ f, r (Function.update value slot (.error f)) = .error f

/-- No fault of a pointer arises here. -/
def Plain (r : Except Fault α) : Prop := ∀ f, r = .error f → ¬ f.OfPointer

/-- The reading ends with a fault of a pointer only if it has come to a slot with this fault, and
otherwise nothing depends on faults in slots. -/
structure Heeds (r : (Span → Except Fault Value) → Except Fault α) : Prop where
  keeps : ∀ {value slot f x}, value slot = .error f → r value = .ok x →
    ∀ g, r (Function.update value slot (.error g)) = .ok x
  stops : ∀ {value f}, Fault.OfPointer f → r value = .error f →
    ∃ slot, value slot = .error f ∧ ComesTo r value slot

namespace Plain

theorem ok (x : α) : Plain (.ok x) := fun _ h => by cases h

theorem bind {r : Except Fault α} {k : α → Except Fault β} (h : Plain r) (hk : ∀ x, Plain (k x)) :
    Plain (r >>= k) := by
  intro f hf
  rcases bind_eq_error_iff.1 hf with hf | ⟨x, _, hf⟩
  · exact h f hf
  · exact hk x f hf

theorem part (s : Span) (offset n : Nat) : Plain (s.part offset n) := by
  intro f h
  unfold Span.part at h
  split at h <;> cases h
  exact id

theorem wordCount (s : Span) : Plain s.wordCount := by
  intro f h
  unfold Span.wordCount at h
  split at h <;> cases h
  exact id

theorem validate (v : ListView) : Plain v.validate := by
  intro f h
  simp only [ListView.validate] at h
  split at h <;> cases h
  exact id

theorem checkSlot (s : Span) : Plain (DeepCopy.checkSlot s) := by
  intro f h
  unfold DeepCopy.checkSlot at h
  split at h <;> cases h
  exact id

theorem checkBlock (n : Nat) : Plain (Arena.checkBlock n) := by
  intro f h
  unfold Arena.checkBlock at h
  split at h
  · cases h
    exact id
  · split at h <;> cases h
    exact id

variable (a : Arena)

theorem check (s : Span) : Plain (a.check s) := by
  intro f h
  unfold Arena.check at h
  split at h
  · cases h
    exact id
  · split at h <;> cases h
    exact id

theorem read (s : Span) : Plain (a.read s) := by
  refine (check a s).bind fun _ => ?_
  split <;> exact ok _

theorem readWord (segment word : Nat) : Plain (a.readWord segment word) :=
  (read a _).bind fun _ => ok _

theorem dataOf (s : Span) (n : Nat) : Plain (a.dataOf s n) := by
  unfold Arena.dataOf
  split
  · exact (part _ _ _).bind fun _ => read a _
  · exact ok _

end Plain

namespace Heeds

variable {r : (Span → Except Fault Value) → Except Fault α}

theorem const {e : Except Fault α} (h : Plain e) : Heeds fun _ => e :=
  ⟨fun _ hx _ => hx, fun hf he => absurd hf (h _ he)⟩

theorem slot (s : Span) : Heeds fun value => value s := by
  refine ⟨fun {value t f x} ht hx g => ?_, fun _ he => ⟨s, he, fun g => Function.update_self ..⟩⟩
  have hne : s ≠ t := by
    rintro rfl
    cases hx.symm.trans ht
  rw [Function.update_of_ne hne]
  exact hx

theorem bind {k : α → (Span → Except Fault Value) → Except Fault β} (h : Heeds r)
    (hk : ∀ x, Heeds (k x)) : Heeds fun value => r value >>= fun x => k x value where
  keeps hs hy g := by
    obtain ⟨x, hx, hy⟩ := bind_eq_ok_iff.1 hy
    exact bind_eq_ok_iff.2 ⟨x, h.keeps hs hx g, (hk x).keeps hs hy g⟩
  stops hf he := by
    rcases bind_eq_error_iff.1 he with he | ⟨x, hx, he⟩
    · obtain ⟨s, hs, hcome⟩ := h.stops hf he
      exact ⟨s, hs, fun g => bind_eq_error_iff.2 (.inl (hcome g))⟩
    · obtain ⟨s, hs, hcome⟩ := (hk x).stops hf he
      exact ⟨s, hs, fun g => bind_eq_error_iff.2 (.inr ⟨x, h.keeps hs hx g, hcome g⟩)⟩

theorem map (h : Heeds r) (g : α → β) : Heeds fun value => r value >>= fun x => .ok (g x) :=
  h.bind fun _ => const (.ok _)

theorem before {e : Except Fault α} (he : Plain e)
    {k : α → (Span → Except Fault Value) → Except Fault β} (hk : ∀ x, Heeds (k x)) :
    Heeds fun value => e >>= fun x => k x value :=
  (const he).bind hk

theorem collect {step : Nat → (Span → Except Fault Value) → Except Fault α}
    (h : ∀ i, Heeds (step i)) (first count : Nat) :
    Heeds fun value => FrozenDefaults.collect (fun i => step i value) first count := by
  induction count generalizing first with
  | zero => exact const (.ok _)
  | succ count ih => exact (h first).bind fun x => (ih (first + 1)).map (x :: ·)

variable (a : Arena)

theorem slotsOf (s : Span) (count : Nat) : Heeds fun value => Arena.slotsOf value s count :=
  collect (fun _ => before (.part _ _ _) slot) 0 count

theorem partOf (v : StructView) (d p : Nat) : Heeds fun value => a.partOf value v d p :=
  before (.dataOf a _ _) fun _ => before (.wordCount _) fun _ => (slotsOf _ _).map _

theorem listParts (v : ListView) : Heeds fun value => a.listParts value v := by
  obtain ⟨s, l, count⟩ := v
  rcases l.trichotomy with rfl | ⟨d, p, rfl⟩ | hl
  · exact (slotsOf _ _).map _
  · exact collect (fun _ => before (.part _ _ _) fun _ => partOf a _ _ _) 0 _
  · have hbare (value : Span → Except Fault Value) :
        a.listParts value ⟨s, l, count⟩ = _ := Arena.listParts_bare hl
    simp only [hbare]
    exact const ((Plain.dataOf a _ _).bind fun _ => .ok _)

theorem targetOf (t : Target) : Heeds fun value => a.targetOf value t := by
  cases t with
  | struct v => exact (partOf a _ _ _).map _
  | list v => exact (listParts a v).map _

end Heeds

end Readings

namespace Arena

variable {a : Arena} {limit room : Nat} {slot q : Span} {w : Word} {f : Fault}

/-- The walk from the slot stops at the pointer `w` in the slot `q`. There are at most `room` levels
down to it, and all that is read before it has a value. -/
inductive Stops (a : Arena) (limit : Nat) : (room : Nat) → Span → Span → Word → Prop
  | here {room : Nat} {slot : Span} {w : Word} (hc : DeepCopy.checkSlot slot = .ok ())
      (hw : a.readWord slot.segment slot.startWord = .ok w) (hn : Pointer.isNull w = false)
      (hstop : ∀ t, a.follow slot.segment slot.startWord w ≠ .ok t) :
      Stops a limit (room + 1) slot slot w
  | inside {room : Nat} {slot inner q : Span} {p w : Word} {t : Target}
      (hc : DeepCopy.checkSlot slot = .ok ())
      (hp : a.readWord slot.segment slot.startWord = .ok p) (hn : Pointer.isNull p = false)
      (ht : a.follow slot.segment slot.startWord p = .ok t)
      (hcome : ComesTo (fun value => a.targetOf value t) (a.valueAt limit room) inner)
      (h : Stops a limit room inner q w) : Stops a limit (room + 1) slot q w

theorem valueAt_of_word (hc : DeepCopy.checkSlot slot = .ok ())
    (hw : a.readWord slot.segment slot.startWord = .ok w) (hn : Pointer.isNull w = false) :
    a.valueAt limit (room + 1) slot =
      a.follow slot.segment slot.startWord w >>= a.targetOf (a.valueAt limit room) := by
  rw [valueAt, wordValue, hc, ok_bind, hw, ok_bind, if_neg (Bool.not_eq_true _ ▸ hn)]

theorem Stops.readWord (h : a.Stops limit room slot q w) :
    a.readWord q.segment q.startWord = .ok w := by
  induction h with
  | here _ hw _ _ => exact hw
  | inside _ _ _ _ _ _ ih => exact ih

theorem update_valueAt (h : a.valueAt limit room slot = .error f) :
    Function.update (a.valueAt limit room) slot (.error f) = a.valueAt limit room := by
  rw [← h]
  exact Function.update_eq_self slot _

theorem Stops.valueAt_eq (h : a.Stops limit room slot q w)
    (hf : a.follow q.segment q.startWord w = .error f) : a.valueAt limit room slot = .error f := by
  induction h with
  | here hc hw hn _ => rw [valueAt_of_word hc hw hn, hf, error_bind]
  | inside hc hp hn ht hcome _ ih =>
    have hvalue := hcome f
    rw [update_valueAt (ih hf)] at hvalue
    rw [valueAt_of_word hc hp hn, ht, ok_bind]
    exact hvalue

theorem wordValue_eq_error {beyond : Word → Except Fault Value} (hf : f.OfPointer)
    (h : a.wordValue beyond slot = .error f) : DeepCopy.checkSlot slot = .ok () ∧
      ∃ w, a.readWord slot.segment slot.startWord = .ok w ∧ Pointer.isNull w = false ∧
        beyond w = .error f := by
  rcases bind_eq_error_iff.1 h with h | ⟨_, hc, h⟩
  · exact absurd hf (Plain.checkSlot slot f h)
  rcases bind_eq_error_iff.1 h with h | ⟨w, hw, h⟩
  · exact absurd hf (Plain.readWord a _ _ f h)
  refine ⟨hc, w, hw, ?_⟩
  by_cases hn : Pointer.isNull w = true
  · rw [if_pos hn] at h
    cases h
  · rw [if_neg hn] at h
    exact ⟨Bool.eq_false_of_not_eq_true hn, h⟩

/-- A walk that ends with a fault of a pointer stops at a pointer with this fault. -/
theorem exists_stops (hf : f.OfPointer) (h : a.valueAt limit room slot = .error f) :
    ∃ q w, a.Stops limit room slot q w ∧ a.follow q.segment q.startWord w = .error f := by
  induction room generalizing slot with
  | zero =>
    obtain ⟨_, _, _, _, hdeep⟩ := wordValue_eq_error hf h
    cases hdeep
    exact hf.elim
  | succ room ih =>
    obtain ⟨hc, p, hp, hn, h⟩ := wordValue_eq_error hf h
    rcases bind_eq_error_iff.1 h with h | ⟨t, ht, h⟩
    · refine ⟨slot, p, .here hc hp hn fun t ht => ?_, h⟩
      cases ht.symm.trans h
    · obtain ⟨inner, hinner, hcome⟩ := (Heeds.targetOf a t).stops hf h
      obtain ⟨q, w, hstops, hfault⟩ := ih hinner
      exact ⟨q, w, .inside hc hp hn ht hcome hstops, hfault⟩

/-- The walk through all that is read stops at the pointer `w` in the slot `q`. -/
def WalkStops {α : Type} (a : Arena) (limit : Nat)
    (r : (Span → Except Fault Value) → Except Fault α) (q : Span) (w : Word) : Prop :=
  ∃ slot, ComesTo r (a.valueAt limit limit) slot ∧ a.Stops limit limit slot q w

section Walks

variable {α : Type} {r : (Span → Except Fault Value) → Except Fault α}

theorem WalkStops.eq_error (h : a.WalkStops limit r q w)
    (hf : a.follow q.segment q.startWord w = .error f) : r (a.valueAt limit limit) = .error f := by
  obtain ⟨slot, hcome, hstops⟩ := h
  have hr := hcome f
  rwa [update_valueAt (hstops.valueAt_eq hf)] at hr

/-- A reading ends with a fault of a pointer exactly if it stops at a pointer with this fault. -/
theorem eq_error_iff_walkStops (hr : Heeds r) (hf : f.OfPointer) :
    r (a.valueAt limit limit) = .error f ↔
      ∃ q w, a.WalkStops limit r q w ∧ a.follow q.segment q.startWord w = .error f := by
  constructor
  · intro h
    obtain ⟨slot, hslot, hcome⟩ := hr.stops hf h
    obtain ⟨q, w, hstops, hfault⟩ := exists_stops hf hslot
    exact ⟨q, w, ⟨slot, hcome, hstops⟩, hfault⟩
  · rintro ⟨q, w, hstops, hfault⟩
    exact hstops.eq_error hfault

end Walks

end Arena

end FrozenDefaults
