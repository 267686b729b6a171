import FrozenDefaults.Proofs.Preservation
import FrozenDefaults.Proofs.Calls

/-!
# Stray slots

A copy comes to its slot when it links it, behind all other steps. Whatever
aligned word the slot is, the copy stores the value that is read, and then the
slot has to be in use. A word that was not in use before can pass: the copy
itself may have allocated it.
-/

namespace FrozenDefaults

open Arena
open Building (Realizes)
open DeepCopy (checkSlot Placement)

theorem Segment.overwrite_go_of_le {bytes : Array UInt8} {i : Nat} (h : bytes.size ≤ i)
    (bs : List UInt8) : overwrite.go bytes i bs = bytes := by
  induction bs generalizing i with
  | nil => rfl
  | cons b bs ih =>
    rw [overwrite.go, Array.setIfInBounds_eq_of_size_le h]
    exact ih (h.trans (Nat.le_succ i))

theorem DeepCopy.checkSlot_eq_ok_iff {s : Span} :
    checkSlot s = .ok () ↔ s.length = bytesPerWord ∧ s.start % bytesPerWord = 0 := by
  unfold checkSlot
  split
  · rename_i h
    exact ⟨fun he => (by cases he), fun ⟨hl, hs⟩ => absurd h (by simp [hl, hs])⟩
  · rename_i h
    exact ⟨fun _ => not_or.1 h |>.imp of_not_not of_not_not, fun _ => rfl⟩

namespace Arena

variable {a : Arena} {slot : Span} (hs : checkSlot slot = .ok ())
include hs

theorem usedIn_le_of_not_holds (ha : a.Whole) (hn : ¬ a.Holds slot) :
    a.usedIn slot.segment ≤ slot.start := by
  by_cases hlt : slot.segment < a.segmentCount
  · obtain ⟨hl, hal⟩ := DeepCopy.checkSlot_eq_ok_iff.1 hs
    have hw := ha slot.segment
    have hstop : a.usedIn slot.segment < slot.stop := Nat.lt_of_not_le fun h => hn ⟨hlt, h⟩
    simp only [Span.stop, hl, bytesPerWord] at hstop hal hw
    omega
  · rw [usedIn_eq_zero (Nat.le_of_not_lt hlt)]
    exact Nat.zero_le _

theorem patch_of_not_holds (ha : a.Whole) (hn : ¬ a.Holds slot) (bs : List UInt8) :
    a.patch slot bs = a := by
  have hsegments : a.segments.modify slot.segment (·.overwrite slot.start bs) = a.segments := by
    apply Array.ext_getElem?
    intro t
    rw [Array.getElem?_modify]
    by_cases ht : slot.segment = t
    · rw [if_pos ht]
      subst ht
      cases hseg : a.segments[slot.segment]? with
      | none => rfl
      | some seg =>
        have hle := usedIn_le_of_not_holds hs ha hn
        rw [usedIn_of_getElem? hseg] at hle
        rw [Option.map_some, Segment.overwrite, Segment.overwrite_go_of_le hle]
    · rw [if_neg ht]
  rw [patch, hsegments]

/-- A word is stored if it is in use, and otherwise nothing changes. -/
theorem writeWord_run (ha : a.Whole) (w : Word) :
    Building.writeWord slot.segment slot.startWord w a =
      ((a.putWord slot w).check slot, a.putWord slot w) := by
  obtain ⟨hl, hal⟩ := DeepCopy.checkSlot_eq_ok_iff.1 hs
  by_cases hh : a.Holds slot
  · have hslot : a.HasSlot slot := ⟨hh, hl, hal⟩
    have hheld : (a.putWord slot w).Holds slot := holds_patch.2 hh
    rw [Building.writeWord_of_hasSlot hslot, check_of_holds hheld]
  · have hspan : wordSpan slot.segment slot.startWord = slot := by
      rw [wordSpan, startWord_mul hal, ← hl]
    rw [putWord, patch_of_not_holds hs ha hh, Building.writeWord, hspan]
    cases hc : a.check slot with
    | ok _ => exact absurd (check_eq_ok_iff.1 hc) hh
    | error f => exact (Building.bind_ok rfl).trans (Building.bind_error (Building.lift_error hc))

theorem link_run {p : Placement} (ha : a.Sound) (hpad : ∀ pad, p.pad = some pad → a.HasSlot pad)
    (w : Word) :
    DeepCopy.link slot p w a = ((a.putLink slot p w).check slot, a.putLink slot p w) := by
  cases hp : p.pad with
  | none =>
    simp only [DeepCopy.link, putLink, hp]
    exact writeWord_run hs ha.whole _
  | some pad =>
    simp only [DeepCopy.link, putLink, hp]
    rw [Building.bind_ok (Building.writeWord_of_hasSlot (hpad pad hp) _)]
    exact writeWord_run hs ((evolves_putWord a pad _).sound ha).whole _

end Arena

namespace Building

variable {α β : Type}

/-- Run in `a`, the step fails with the fault of `r`, or it leaves what `done` makes of the result
of `r`, and it succeeds if the slot is in use there. -/
structure Lands (m : Building Unit) (a : Arena) (slot : Span) (r : Except Fault α)
    (done : α → Arena) : Prop where
  ok : ∀ x, r = .ok x → m a = ((done x).check slot, done x)
  error : ∀ f, r = .error f → (m a).1 = .error f

namespace Lands

variable {m : Building β} {k : β → Building Unit} {a b : Arena} {slot : Span}
  {done : α → Arena} {r : Except Fault α}

theorem of_ok {m : Building Unit} {x : α} (h : m a = ((done x).check slot, done x)) :
    Lands m a slot (.ok x) done :=
  ⟨fun _ hx => Except.ok.inj hx ▸ h, fun _ hf => by cases hf⟩

theorem step {x : β} (h : m a = (.ok x, b)) (hk : Lands (k x) b slot r done) :
    Lands (m >>= k) a slot r done := by
  refine ⟨fun y hy => ?_, fun f hf => ?_⟩ <;> rw [bind_ok h]
  · exact hk.ok y hy
  · exact hk.error f hf

theorem read {e : Except Fault β} {r' : β → Except Fault α}
    (hk : ∀ x, e = .ok x → Lands (k x) a slot (r' x) done) :
    Lands (liftExcept e >>= k) a slot (e >>= r') done := by
  cases e with
  | ok x => exact hk x rfl
  | error f => exact ⟨fun _ h => (by cases h), fun g h => by cases h; rfl⟩

theorem finish {γ : Type} {R : Nat → Nat → Prop} {s : Except Fault γ} {made : γ → β × Arena}
    {g : γ → α} (h : Realizes m a R s made)
    (hk : ∀ x, s = .ok x → k (made x).1 (made x).2 = ((done (g x)).check slot, done (g x))) :
    Lands (m >>= k) a slot (s >>= fun x => .ok (g x)) done := by
  cases s with
  | ok x =>
    refine .of_ok ?_
    rw [bind_ok (h.ok x rfl)]
    exact hk x rfl
  | error f =>
    refine ⟨fun _ he => (by cases he), fun g he => ?_⟩
    obtain rfl : f = g := Except.error.inj he
    have hm : m a = (.error f, (m a).2) := Prod.ext (h.error f rfl) rfl
    rw [bind_error hm]

end Lands

end Building

open Building (Lands)

namespace CopiesSlots

variable {source a : Arena} {value : Span → Except Fault Value}
  {copySlot : Span → Span → Building Unit} {slot : Span} (hc : CopiesSlots value copySlot)
  (hs : checkSlot slot = .ok ()) (ha : a.Sound)
include hc hs ha

theorem copyStructTo_lands {v : StructView} (hal : v.pointers.Aligned) :
    Lands (DeepCopy.copyStructTo source copySlot v slot) a slot
      (source.targetOf value (.struct v)) fun x => x.store slot a := by
  let d := v.data.length / bytesPerWord
  let p := v.pointers.length / bytesPerWord
  unfold DeepCopy.copyStructTo
  by_cases h0 : d = 0 ∧ p = 0
  · rw [if_pos h0, targetOf_emptyStruct hal h0.1 h0.2]
    apply Lands.of_ok
    rw [Value.store_emptyStruct]
    exact writeWord_run hs ha.whole _
  · have hroom := room_makeRoom ha slot (n := (d + p) * bytesPerWord) (Nat.mul_mod_left _ _)
    have hplace := place_eq a slot ((d + p) * bytesPerWord)
    obtain ⟨spot, b, hb⟩ : ∃ spot b, a.makeRoom slot ((d + p) * bytesPerWord) = (spot, b) :=
      ⟨_, _, rfl⟩
    rw [hb] at hroom hplace
    rw [if_neg h0]
    have hb' := hroom.evolves.sound ha
    refine .step hplace (.finish (hc.fillStruct v (.struct d p) rfl hb' hroom.content)
      fun part _ => ?_)
    have hev := Value.evolves_storePart (.struct d p) part spot.content.segment
      spot.content.start b
    have hne : Shape.struct d p ≠ .struct 0 0 := fun h => h0 (Shape.struct.inj h)
    rw [Value.store_object hne, footprint_struct, hb, Shape.fill, Value.storeParts_singleton]
    exact link_run hs (hev.sound hb') (fun pad hp => (hroom.pad pad hp).1.grows hev.grows) _

theorem copyListTo_lands (v : ListView) :
    Lands (DeepCopy.copyListTo source copySlot v slot) a slot
      (source.targetOf value (.list v)) fun x => x.store slot a := by
  have hroom := room_makeRoom ha slot (DeepCopy.footprint_mod v)
  have hplace := place_eq a slot (DeepCopy.footprint v)
  obtain ⟨spot, b, hb⟩ : ∃ spot b, a.makeRoom slot (DeepCopy.footprint v) = (spot, b) :=
    ⟨_, _, rfl⟩
  rw [hb] at hroom hplace
  have hopen := opened hroom.content hroom.length
  have hb' := hopen.evolves.sound (hroom.evolves.sound ha)
  refine .step hplace (.step (listInRegion_eq hroom.content hroom.length)
    (.finish (hc.fillList hb' hopen.body) fun parts _ => ?_))
  have hev := Value.evolves_storeParts (.list v.layout v.count) parts spot.content.segment
    (spot.content.start + (Shape.list v.layout v.count).headerBytes)
    (b.putTag (.list v.layout v.count) spot.content)
  rw [pointerCount_eq hopen.length, Value.store_object (fun h => by cases h), ← footprint_eq, hb]
  exact link_run hs (hev.sound hb') (fun pad hp =>
    (hroom.pad pad hp).1.grows (hopen.evolves.trans hev).grows) _

theorem copyTarget_lands (src : Span) (pointer : Word) :
    Lands (DeepCopy.copyTarget source copySlot src slot pointer) a slot
      (source.follow src.segment src.startWord pointer >>= source.targetOf value)
      fun x => x.store slot a := by
  refine .read fun t ht => ?_
  rcases follow_linkable ht with ⟨region, d, p, rfl, hal⟩ | ⟨v, rfl, _⟩
  · refine hc.copyStructTo_lands hs ha ⟨Nat.mul_mod_left _ _, ?_⟩
    exact (Nat.add_mul_mod_self_right _ _ _).trans hal
  · exact hc.copyListTo_lands hs ha v

end CopiesSlots

section Copies

variable {source a : Arena} {limit : Nat} {src slot : Span} (hs : checkSlot slot = .ok ())
include hs

theorem copyWord_lands {descend : Span → Span → Word → Building Unit}
    {beyond : Word → Except Fault Value} (ha : a.Sound)
    (hd : ∀ pointer, Lands (descend src slot pointer) a slot (beyond pointer)
      fun v => v.store slot a) :
    Lands (DeepCopy.copyWord source descend src slot) a slot (source.wordValue beyond src)
      fun v => v.store slot a := by
  refine .read fun _ _ => .step (Building.lift_ok hs) (.read fun pointer _ => ?_)
  by_cases hn : Pointer.isNull pointer = true
  · rw [if_pos hn, if_pos hn]
    exact .of_ok (writeWord_run hs ha.whole _)
  · rw [if_neg hn, if_neg hn]
    exact hd pointer

theorem copySlot_lands (room : Nat) (ha : a.Sound) :
    Lands (DeepCopy.copySlot source limit room src slot) a slot (source.valueAt limit room src)
      fun v => v.store slot a := by
  cases room with
  | zero =>
    exact copyWord_lands hs ha fun _ => ⟨fun _ h => (by cases h), fun f h => by cases h; rfl⟩
  | succ room =>
    exact copyWord_lands hs ha fun pointer =>
      (copiesSlots_copySlot source limit room).copyTarget_lands hs ha src pointer

/-- A copy into any aligned word ends with the fault of the reading, or else with the check of the
word in what it leaves. -/
theorem copyPointer_run (ha : a.Sound) :
    (DeepCopy.copyPointer source limit src slot a).1 =
        (source.valueAt limit limit src >>= fun v => (v.store slot a).check slot) ∧
      ∀ v, source.valueAt limit limit src = .ok v →
        (DeepCopy.copyPointer source limit src slot a).2 = v.store slot a := by
  have h : Lands (DeepCopy.copyPointer source limit src slot) a slot _ _ :=
    copySlot_lands hs limit ha
  refine ⟨?_, fun v hv => by rw [h.ok v hv]⟩
  cases hr : source.valueAt limit limit src with
  | ok v => exact congrArg Prod.fst (h.ok v hr)
  | error f => exact h.error f hr

end Copies

/-- Null and a struct without words take no room, and so nothing of them is stored. -/
theorem Value.store_of_not_holds {v : Value} {a : Arena} {slot : Span}
    (hv : v = .null ∨ ∃ parts, v = .object (.struct 0 0) parts) (hs : checkSlot slot = .ok ())
    (ha : a.Whole) (hn : ¬ a.Holds slot) : v.store slot a = a := by
  rcases hv with rfl | ⟨parts, rfl⟩
  · rw [Value.store, putWord, patch_of_not_holds hs ha hn]
  · rw [Value.store_emptyStruct, putWord, patch_of_not_holds hs ha hn]

/-- A copy into a word that is not in use fails where the reading does, and else it ends with the
check of the word in what it leaves. No byte of the word was in use before, so the copy succeeds
exactly where it has itself come to use the word. A null pointer and a struct without words, which
take no room, never succeed. -/
theorem copyPointer_into_unused (source : Arena) (limit : Nat) {a : Arena} {src slot : Span}
    (ha : a.Reachable) (hs : checkSlot slot = .ok ()) (hn : ¬ a.Holds slot) :
    let run := DeepCopy.copyPointer source limit src slot a
    run.1 = (source.valueAt limit limit src >>= fun v => (v.store slot a).check slot) ∧
    a.usedIn slot.segment ≤ slot.start ∧
    (run.1 = .ok () ↔ (∃ v, source.valueAt limit limit src = .ok v) ∧ run.2.Holds slot) ∧
    ∀ v, source.valueAt limit limit src = .ok v →
      (v = .null ∨ ∃ parts, v = .object (.struct 0 0) parts) →
        run.1 = a.check slot ∧ run.1 ≠ .ok () := by
  intro run
  have hwhole := ha.sound.whole
  obtain ⟨hrun, hleft⟩ : run.1 = _ ∧ _ := copyPointer_run hs ha.sound
  refine ⟨hrun, usedIn_le_of_not_holds hs hwhole hn, ?_, fun v hv hempty => ?_⟩
  · rw [hrun, bind_eq_ok_iff]
    constructor
    · rintro ⟨v, hv, hc⟩
      exact ⟨⟨v, hv⟩, (hleft v hv).symm ▸ check_eq_ok_iff.1 hc⟩
    · rintro ⟨⟨v, hv⟩, hh⟩
      exact ⟨v, hv, check_eq_ok_iff.2 ((hleft v hv) ▸ hh)⟩
  · have hcheck : run.1 = a.check slot := by
      rw [hrun, hv, ok_bind, Value.store_of_not_holds hempty hs hwhole hn]
    exact ⟨hcheck, fun h => hn (check_eq_ok_iff.1 (hcheck.symm.trans h))⟩

/-- The struct takes the places from zero on, and the slot is one of them. The three words of the
struct and of the list behind it do not reach a slot further on, and a null pointer takes no place
at all. -/
theorem copyPointer_into_unused_sample :
    let a := withCapacity 64
    (DeepCopy.copyPointer sample 64 ⟨0, 0, 8⟩ ⟨0, 0, 8⟩ a).1 = .ok () ∧
    (DeepCopy.copyPointer sample 64 ⟨0, 0, 8⟩ ⟨0, 56, 8⟩ a).1 ≠ .ok () ∧
    (DeepCopy.copyPointer crowded 64 ⟨0, 0, 8⟩ ⟨0, 0, 8⟩ a).1 = .error (.outOfBounds 0 0 8 0) := by
  intro a
  have ha : a.Reachable := .withCapacity 64
  have hn : ¬ a.Holds ⟨0, 0, 8⟩ := by unfold Holds; decide
  have hn' : ¬ a.Holds ⟨0, 56, 8⟩ := by unfold Holds; decide
  refine ⟨?_, fun h => ?_, ?_⟩
  · refine (copyPointer_into_unused sample 64 ha rfl hn).2.2.1.2 ⟨⟨_, rfl⟩, ?_⟩
    unfold Holds
    decide +kernel
  · have hh := ((copyPointer_into_unused sample 64 ha rfl hn').2.2.1.1 h).2
    unfold Holds at hh
    exact absurd hh (by decide +kernel)
  · exact ((copyPointer_into_unused crowded 64 ha rfl hn).2.2.2 .null rfl (.inl rfl)).1

/-- A word that is not in use is not always refused: the pointer to the struct takes the place of
its data word. -/
theorem exists_copyPointer_into_unused_ok :
    ¬ ∀ (source : Arena) (limit : Nat) (a : Arena) (src slot : Span), a.Reachable →
      checkSlot src = .ok () → checkSlot slot = .ok () → ¬ a.Holds slot →
        ∃ f, (DeepCopy.copyPointer source limit src slot a).1 = .error f := by
  intro h
  have hn : ¬ (withCapacity 64).Holds ⟨0, 0, 8⟩ := by unfold Holds; decide
  obtain ⟨f, hf⟩ := h sample 64 _ ⟨0, 0, 8⟩ ⟨0, 0, 8⟩ (.withCapacity 64) rfl rfl hn
  have hok : (DeepCopy.copyPointer sample 64 ⟨0, 0, 8⟩ ⟨0, 0, 8⟩ (withCapacity 64)).1 = .ok () := by
    decide +kernel
  rw [hok] at hf
  cases hf

end FrozenDefaults
