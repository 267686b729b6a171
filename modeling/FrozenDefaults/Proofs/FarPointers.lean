import FrozenDefaults.Proofs.Depth
import Mathlib.Algebra.GroupWithZero.Nat
import Mathlib.Algebra.Order.Group.Nat

/-!
# Far pointers

The far pointers of a value are counted where the value is read. Each of them
has a landing pad of one word, so that a stored value takes its size and a word
for every far pointer in it, and nothing else.
-/

namespace FrozenDefaults

open Arena

def wordsFrom (segment : Nat) : (start count : Nat) → List Span
  | _, 0 => []
  | start, count + 1 =>
    ⟨segment, start, bytesPerWord⟩ :: wordsFrom segment (start + bytesPerWord) count

/-- The slots of consecutive parts of an object of this shape. -/
def Shape.slotsFrom (shape : Shape) (segment : Nat) : (start count : Nat) → List Span
  | _, 0 => []
  | start, count + 1 =>
    wordsFrom segment (start + shape.dataBytes) shape.pointerWords ++
      slotsFrom shape segment (start + shape.partBytes) count

def StructView.slots (v : StructView) : List Span :=
  wordsFrom v.pointers.segment v.pointers.start (v.pointers.length / bytesPerWord)

def ListView.slots (v : ListView) : List Span :=
  (Shape.list v.layout v.count).slotsFrom v.elements.segment v.elements.start
    (Shape.list v.layout v.count).partCount

def Target.slots : Target → List Span
  | .struct v => v.slots
  | .list v => v.slots

def Descriptor.slots : Descriptor → List Span
  | .struct v => v.slots
  | .list v => v.slots
  | .pointer slot => [slot]

namespace Arena

/-- The far pointers from the slot on, through at most `room` levels. -/
def farsIn (a : Arena) : (room : Nat) → Span → Nat
  | 0, _ => 0
  | room + 1, slot =>
    match a.readWord slot.segment slot.startWord with
    | .error _ => 0
    | .ok w =>
      if Pointer.isNull w then 0
      else
        (if Pointer.kind w = .far then 1 else 0) +
          match a.follow slot.segment slot.startWord w with
          | .error _ => 0
          | .ok t => (t.slots.map (farsIn a room)).sum

/-- The far pointers of what the descriptor describes. -/
def farsOf (a : Arena) (room : Nat) (d : Descriptor) : Nat := (d.slots.map (a.farsIn room)).sum

variable {a b c : Arena} {room : Nat} {slot : Span}

theorem farsIn_null {w : Word} (hw : a.readWord slot.segment slot.startWord = .ok w)
    (hn : Pointer.isNull w = true) : a.farsIn room slot = 0 := by
  cases room with
  | zero => rfl
  | succ room => simp only [farsIn, hw, if_pos hn]

theorem farsIn_leads {far : Bool} {t : Target} (h : c.Leads slot far t) :
    c.farsIn (room + 1) slot =
      (if far then 1 else 0) + (t.slots.map (c.farsIn room)).sum := by
  obtain ⟨_, w, hw, hn, rfl, hf⟩ := h
  simp only [farsIn, hw, hn, hf, Bool.false_eq_true, if_false, decide_eq_true_eq]

theorem farsIn_le_succ (a : Arena) (room : Nat) (slot : Span) :
    a.farsIn room slot ≤ a.farsIn (room + 1) slot := by
  induction room generalizing slot with
  | zero => exact Nat.zero_le _
  | succ room ih =>
    rw [farsIn, farsIn]
    split
    · exact Nat.le_refl _
    · split
      · exact Nat.le_refl _
      · refine Nat.add_le_add_left ?_ _
        split
        · exact Nat.le_refl _
        · exact List.sum_le_sum fun s _ => ih s

theorem farsOf_mono (a : Arena) {m n : Nat} (h : m ≤ n) (d : Descriptor) :
    a.farsOf m d ≤ a.farsOf n d := by
  refine List.sum_le_sum fun s _ => ?_
  exact monotone_nat_of_le_succ (fun room => a.farsIn_le_succ room s) h

end Arena

namespace Shape

theorem slots_target (shape : Shape) (region : Span) : (shape.target region).slots =
    shape.slotsFrom region.segment (region.start + shape.headerBytes) shape.partCount := by
  cases shape with
  | struct d p =>
    have hp : p * bytesPerWord / bytesPerWord = p := Nat.mul_div_cancel p (by decide)
    show wordsFrom region.segment (region.start + d * bytesPerWord)
      (p * bytesPerWord / bytesPerWord) = wordsFrom region.segment _ p ++ []
    rw [hp, List.append_nil]
    rfl
  | list l count => rfl

theorem slots_descriptor (t : Target) : t.descriptor.slots = t.slots := by cases t <;> rfl

end Shape

namespace Value

/-- The trace of a value that is accounted for: beyond its size it took a word for each far
pointer. -/
def Counted (room : Nat) : Trace := fun v slot a c =>
  (v.store slot a).totalSize = a.totalSize + v.size + bytesPerWord * c.farsIn room slot

variable {room : Nat} {a c : Arena}

theorem totalSize_storeSlots {vs : List Value} {segment start : Nat}
    (h : SlotsLeft (Counted room) segment start vs a c) :
    (storeSlots vs segment start a).totalSize = a.totalSize + slotsSize vs +
      bytesPerWord * ((wordsFrom segment start vs.length).map (c.farsIn room)).sum := by
  induction vs generalizing start a with
  | nil => rfl
  | cons v vs ih =>
    obtain ⟨hv, hvs⟩ := h
    have hrest := ih hvs
    rw [Counted] at hv
    rw [storeSlots, hrest, hv, slotsSize, List.length_cons, wordsFrom, List.map_cons,
      List.sum_cons, Nat.mul_add]
    omega

theorem totalSize_storeParts {shape : Shape} {parts : List (Part Value)} {segment start : Nat}
    (hs : ∀ part ∈ parts, part.slots.length = shape.pointerWords)
    (h : PartsLeft (Counted room) shape segment start parts a c) :
    (storeParts shape parts segment start a).totalSize = a.totalSize + partsSize parts +
      bytesPerWord * ((shape.slotsFrom segment start parts.length).map (c.farsIn room)).sum := by
  induction parts generalizing start a with
  | nil => rfl
  | cons part parts ih =>
    obtain ⟨⟨_, hpart⟩, hparts⟩ := h
    have hslots := totalSize_storeSlots hpart
    have hrest := ih (fun q hq => hs q (List.mem_cons_of_mem part hq)) hparts
    rw [totalSize_patch, hs part List.mem_cons_self] at hslots
    rw [storeParts_cons, hrest, storePart, hslots, partsSize, List.length_cons, Shape.slotsFrom,
      List.map_append, List.sum_append, Nat.mul_add]
    omega

theorem counted_null : Leaves (Counted room) .null := by
  intro a slot _ hslot
  refine (stored_putWord hslot Pointer.null).weaken fun c hc => ?_
  rw [Counted, farsIn_null hc rfl]
  exact totalSize_patch _ _

theorem counted_emptyStruct {parts : List (Part Value)} (fills : (Shape.struct 0 0).Fills parts) :
    Leaves (Counted (room + 1)) (.object (.struct 0 0) parts) := by
  intro a slot _ hslot
  obtain rfl := eq_nil_of_fills fills
  rw [store_emptyStruct]
  refine (stored_emptyStruct hslot).weaken fun c hc => ?_
  have hslots : ((Shape.struct 0 0).target ⟨slot.segment, slot.start, 0⟩).slots = [] :=
    Shape.slots_target _ _
  have hsize : size (.object (.struct 0 0) [⟨[], []⟩]) = 0 := by
    rw [size, partsSize, partsSize, slotsSize]
    rfl
  rw [Counted, farsIn_leads hc.1, store_emptyStruct, hslots, hsize]
  exact totalSize_patch _ _

/-- A value that fits is accounted for where it was stored. -/
theorem Fits.counted {v : Value} (h : v.Fits room) : Leaves (Counted room) v := by
  induction h with
  | null => exact counted_null
  | @object room shape parts hlink fills _ ih =>
    by_cases hs : shape = .struct 0 0
    · subst hs
      exact counted_emptyStruct fills
    · intro a slot ha hslot
      refine (stored_object fills ih hlink hs ha hslot).weaken fun c hc => ?_
      obtain ⟨far, content, b, hobject⟩ := hc
      have hparts := totalSize_storeParts fills.slots hobject.left
      rw [fills.count, ← Shape.slots_target] at hparts
      have hroom := hobject.room
      rw [Counted, hobject.size, hparts, farsIn_leads hobject.leads, size, Nat.mul_add]
      cases far <;> simp only [if_true, if_false, Bool.false_eq_true] at hroom ⊢ <;> omega

end Value

theorem Content.Fits.counted {content : Content} {limit : Nat} {a : Arena}
    (h : content.Fits limit) (ha : a.Sound) :
    Stored a (fun _ _ => False) content.size
      (fun c => (content.store a).2.totalSize = a.totalSize + content.size +
        bytesPerWord * c.farsOf limit (content.store a).1) (content.store a).2 := by
  cases h with
  | @object shape parts fills _ slots =>
    have hf := a.fresh_alloc_words shape.footprint_mod
    have hv (part : Part Value) (hp : part ∈ parts) (v : Value) (hv : v ∈ part.slots) :=
      (slots part hp v hv).counted
    refine (Value.stored_settle fills hv ha).weaken fun c hc => ?_
    have hparts := Value.totalSize_storeParts fills.slots hc
    rw [fills.count, ← Shape.slots_target, Value.totalSize_putTag, hf.totalSize] at hparts
    rw [farsOf, store, Shape.slots_descriptor, Shape.settle, Shape.fill, hparts, size]
    omega
  | @pointer v fits =>
    have hf := a.fresh_alloc_words (n := bytesPerWord) rfl
    have hev := a.evolves_alloc bytesPerWord
    have hslot := hasSlot_alloc ha
    refine ((fits.counted _ _ (hev.sound ha) hslot).allocated hf hev fun s i => .inr).weaken
      fun c hc => ?_
    rw [Value.Counted, hf.totalSize] at hc
    have hfars : c.farsOf limit (store (.pointer v) a).1 =
        c.farsIn limit (a.alloc bytesPerWord).1 := List.sum_singleton
    have htotal : (store (.pointer v) a).2 = v.store (a.alloc bytesPerWord).1
      (a.alloc bytesPerWord).2 := rfl
    rw [hfars, htotal, hc, size, ← Nat.add_assoc]

end FrozenDefaults
