import FrozenDefaults.Proofs.Chains
import FrozenDefaults.Proofs.Interrupting

/-!
# The normal form of copies

Of the many ways to lay out a message a copy uses few. A slot that it writes holds
null, the pointer to the struct without words, a near pointer to an object in the
segment of the slot, or a far pointer to a landing pad in another segment, with
the object right behind it. Which of the last two it is depends on the room in the
segment when the object is placed. That an object without room for itself is never
put back into the segment of its slot is due to how arenas hand out regions.
-/

namespace FrozenDefaults

open DeepCopy
open Relation (ReflTransGen)

namespace Arena

variable {a b c m : Arena} {slot : Span} {w : Word} {shape : Shape} {region : Span}

/-- At the given place `w` is a near pointer to the object in the region. The words of a composite
list are those of its elements. -/
structure Points (c : Arena) (segment word : Nat) (w : Word) (shape : Shape) (region : Span) :
    Prop where
  near : Pointer.kind w = .struct ∨ Pointer.kind w = .list
  target : Pointer.target? w word = some region.startWord
  leads : c.follow segment word w = .ok (shape.target region)
  segment : region.segment = segment
  aligned : region.start % bytesPerWord = 0
  length : region.length = shape.footprint
  words : ∀ d p count, shape = .list (.composite d p) count →
    (Pointer.elementCount w).toNat = count.toNat * ElementLayout.stride d p

/-- What the word in a slot of `c` can be, if its object was placed in `m` and nothing that is in
use in `a` may be taken for it. -/
inductive SlotForm (a m c : Arena) (slot : Span) : Word → Prop
  | null : SlotForm a m c slot Pointer.null
  | emptyStruct : SlotForm a m c slot Pointer.emptyStruct
  | near {w : Word} {shape : Shape} {region : Span}
      (points : c.Points slot.segment slot.startWord w shape region)
      (new : a.usedIn slot.segment ≤ region.start)
      (placed : region.start = m.usedIn slot.segment)
      (room : m.usedIn slot.segment + shape.footprint ≤ m.capacityIn slot.segment) :
      SlotForm a m c slot w
  | far {w pad : Word} {shape : Shape} {region : Span} (kind : Pointer.kind w = .far)
      (single : Pointer.isDouble w = false) (away : Pointer.segment w ≠ slot.segment)
      (new : a.usedIn (Pointer.segment w) ≤ Pointer.padWord w * bytesPerWord)
      (placed : Pointer.padWord w * bytesPerWord = m.usedIn (Pointer.segment w))
      (reads : c.readWord (Pointer.segment w) (Pointer.padWord w) = .ok pad)
      (offset : Pointer.offset pad = 0)
      (points : c.Points (Pointer.segment w) (Pointer.padWord w) pad shape region)
      (behind : region.start = (Pointer.padWord w + 1) * bytesPerWord)
      (full : m.capacityIn slot.segment < m.usedIn slot.segment + shape.footprint) :
      SlotForm a m c slot w

section Points

theorem nearPlace_eq_ok_iff {segment word : Nat} {g : Tagged} : nearPlace segment word w = .ok g ↔
    ∃ t, Pointer.target? w word = some t ∧ g = ⟨w, segment, t⟩ := by
  unfold nearPlace
  cases Pointer.target? w word with
  | none => exact ⟨fun h => (by cases h), fun ⟨_, h, _⟩ => (by cases h)⟩
  | some t =>
    constructor
    · intro h
      exact ⟨t, rfl, (Except.ok.inj h).symm⟩
    · rintro ⟨_, ht, rfl⟩
      rw [Option.some.inj ht]

theorem place_eq_nearPlace (hk : Pointer.kind w = .struct ∨ Pointer.kind w = .list)
    (segment word : Nat) : c.place segment word w = nearPlace segment word w := by
  unfold place
  rcases hk with hk | hk <;> rw [hk]

/-- The object in the region starts at the given word, and the words that `w` counts for a composite
list are those of its elements. -/
structure LiesAt (segment word : Nat) (w : Word) (shape : Shape) (region : Span) : Prop where
  segment : region.segment = segment
  start : region.start = word * bytesPerWord
  words : ∀ d p count, shape = .list (.composite d p) count →
    (Pointer.elementCount w).toNat = count.toNat * ElementLayout.stride d p

section LiesAt

variable {segment word : Nat} {l : ElementLayout} {count : UInt32}

theorem structAt_lies {v : StructView} (h : c.structAt ⟨w, segment, word⟩ = .ok v)
    (hv : Target.struct v = shape.target region) : LiesAt segment word w shape region := by
  obtain ⟨_, rfl⟩ := structAt_eq_ok_iff.1 h
  cases shape with
  | struct d p =>
    have hdata := congrArg StructView.data (Target.struct.inj hv)
    obtain ⟨hseg, hstart, _⟩ := Span.mk.inj hdata
    exact ⟨hseg.symm, hstart.symm, fun d p count h => by cases h⟩
  | list l count => cases hv

theorem compositeAt_lies
    (h : c.compositeAt ⟨w, segment, word⟩ = .ok ⟨(Shape.list l count).body region, l, count⟩)
    (hlen : region.length = (Shape.list l count).footprint) :
    LiesAt segment word w (.list l count) region := by
  obtain ⟨header, _, _, _, _, hv⟩ := compositeAt_eq_ok_iff.1 h
  obtain ⟨helements, rfl, rfl⟩ := ListView.mk.inj hv
  obtain ⟨hseg, hstart, hwords⟩ := Span.mk.inj helements
  have hbody := (Shape.length_body hlen).symm.trans hwords
  rw [Shape.partBytes_composite, ← Nat.mul_assoc] at hbody
  refine ⟨hseg, Nat.add_right_cancel (hstart.trans (Nat.succ_mul word bytesPerWord)),
    fun d p count h => ?_⟩
  obtain ⟨hl, rfl⟩ := Shape.list.inj h
  obtain ⟨rfl, rfl⟩ := ElementLayout.composite.inj hl
  exact (Nat.eq_of_mul_eq_mul_right (by decide) hbody).symm

theorem listAt_lies
    (h : c.listAt ⟨w, segment, word⟩ = .ok ⟨(Shape.list l count).body region, l, count⟩)
    (hlen : region.length = (Shape.list l count).footprint) :
    LiesAt segment word w (.list l count) region := by
  rcases listAt_cases h with ⟨_, h⟩ | ⟨l', _, hplain, _, hv⟩
  · exact compositeAt_lies h hlen
  · obtain ⟨helements, rfl, _⟩ := ListView.mk.inj hv
    obtain ⟨hseg, hstart, _⟩ := Span.mk.inj helements
    rw [Shape.headerBytes_plain hplain] at hstart
    refine ⟨hseg, hstart, fun d p count h => ?_⟩
    obtain ⟨rfl, _⟩ := Shape.list.inj h
    exact absurd rfl hplain

theorem objectAt_lies (h : c.objectAt ⟨w, segment, word⟩ = .ok (shape.target region))
    (hlen : region.length = shape.footprint) :
    (Pointer.kind w = .struct ∨ Pointer.kind w = .list) ∧ LiesAt segment word w shape region := by
  rcases objectAt_cases h with ⟨v, hk, hv, h⟩ | ⟨v, hk, hv, h⟩
  · exact ⟨.inl hk, structAt_lies hv h.symm⟩
  · cases shape with
    | struct d p => cases h
    | list l count =>
      obtain rfl := Target.list.inj h
      exact ⟨.inr hk, listAt_lies hv hlen⟩

end LiesAt

theorem points_of_nearPlace {segment word : Nat} {g : Tagged}
    (hg : nearPlace segment word w = .ok g) (h : c.objectAt g = .ok (shape.target region))
    (hlen : region.length = shape.footprint) : c.Points segment word w shape region := by
  obtain ⟨t, ht, rfl⟩ := nearPlace_eq_ok_iff.1 hg
  obtain ⟨hnear, hlies⟩ := objectAt_lies h hlen
  have hword : region.startWord = t := by
    rw [Span.startWord, hlies.start]
    exact Nat.mul_div_cancel t (by decide)
  refine ⟨hnear, hword ▸ ht, bind_eq_ok_iff.2 ⟨_, place_near hnear segment ht, h⟩,
    hlies.segment, ?_, hlen, hlies.words⟩
  rw [hlies.start]
  exact Nat.mul_mod_left t bytesPerWord

theorem Leads.mem_slots {far : Bool} {t : Target} (h : c.Leads slot far t) {u : Span}
    (hu : c.Reaches slot u) : u ∈ t.slots := by
  obtain ⟨_, w, hw, _, _, hf⟩ := h
  obtain ⟨_, t', ⟨_, w', hw', _, _, hf'⟩, hm⟩ := hu
  obtain rfl := Except.ok.inj (hw.symm.trans hw')
  rwa [Except.ok.inj (hf.symm.trans hf')]

theorem not_reaches_of_null (hw : c.readWord slot.segment slot.startWord = .ok Pointer.null)
    (u : Span) : ¬ c.Reaches slot u := by
  rintro ⟨_, _, ⟨_, w, hw', hn, _⟩, _⟩
  obtain rfl := Except.ok.inj (hw.symm.trans hw')
  cases hn

theorem Leads.points (h : c.Leads slot false (shape.target region))
    (hlen : region.length = shape.footprint) :
    ∃ w, c.readWord slot.segment slot.startWord = .ok w ∧
      c.Points slot.segment slot.startWord w shape region := by
  obtain ⟨_, w, hw, _, hk, hf⟩ := h
  obtain ⟨g, hg, hobject⟩ := bind_eq_ok_iff.1 hf
  refine ⟨w, hw, points_of_nearPlace ?_ hobject hlen⟩
  cases hkind : Pointer.kind w with
  | struct => rwa [place_eq_nearPlace (.inl hkind)] at hg
  | list => rwa [place_eq_nearPlace (.inr hkind)] at hg
  | far => exact absurd hkind (of_decide_eq_false hk)
  | capability =>
    unfold place at hg
    rw [hkind] at hg
    cases hg

theorem Leads.points_pad (h : c.Leads slot true (shape.target region))
    (hh : c.Housed slot true region) (hlen : region.length = shape.footprint) :
    ∃ w pad, c.readWord slot.segment slot.startWord = .ok w ∧ Pointer.kind w = .far ∧
      Pointer.isDouble w = false ∧ region.start = (Pointer.padWord w + 1) * bytesPerWord ∧
      c.readWord (Pointer.segment w) (Pointer.padWord w) = .ok pad ∧ Pointer.offset pad = 0 ∧
      c.Points (Pointer.segment w) (Pointer.padWord w) pad shape region := by
  obtain ⟨_, w, hw, _, hk, hf⟩ := h
  have hkind : Pointer.kind w = .far := of_decide_eq_true hk
  have hpads := hh.pads w hw
  rw [Pointer.pads, if_pos hkind, if_pos rfl] at hpads
  obtain ⟨_, hpad, hdouble⟩ := Span.mk.inj (List.singleton_inj.1 hpads)
  have hroom := hh.room rfl
  have hsingle : Pointer.isDouble w = false := by
    cases hd : Pointer.isDouble w with
    | false => rfl
    | true =>
      rw [hd] at hdouble
      exact absurd hdouble (by decide)
  have hbehind : region.start = (Pointer.padWord w + 1) * bytesPerWord := by
    rw [Nat.succ_mul, hpad, Nat.sub_add_cancel hroom]
  obtain ⟨g, hg, hobject⟩ := bind_eq_ok_iff.1 hf
  unfold place at hg
  rw [hkind] at hg
  obtain ⟨pad, hread, hg⟩ := bind_eq_ok_iff.1 hg
  simp only [hsingle, Bool.false_eq_true, if_false] at hg
  split at hg
  · cases hg
  · have hpoints := points_of_nearPlace hg hobject hlen
    refine ⟨w, pad, hw, hkind, hsingle, hbehind, hread, ?_, hpoints⟩
    have hword : region.startWord = Pointer.padWord w + 1 := by
      rw [Span.startWord, hbehind]
      exact Nat.mul_div_cancel _ (by decide)
    have hpad := Pointer.padWord_lt w
    have hoffset := Pointer.offset_of_target? hpoints.target (by omega)
    rw [hword] at hoffset
    omega

end Points

namespace SlotForm

variable {m : Arena}

theorem mono (h : SlotForm b m c slot w) (hab : ∀ s, a.usedIn s ≤ b.usedIn s) :
    SlotForm a m c slot w := by
  cases h with
  | null => exact .null
  | emptyStruct => exact .emptyStruct
  | near points new placed room => exact .near points ((hab _).trans new) placed room
  | far kind single away new placed reads offset points behind full =>
    exact .far kind single away ((hab _).trans new) placed reads offset points behind full

theorem plain (h : SlotForm a m c slot w) : Pointer.kind w ≠ .capability ∧
    (Pointer.kind w = .far → Pointer.isDouble w = false) := by
  cases h with
  | null => decide
  | emptyStruct => decide
  | near points =>
    rcases points.near with hk | hk <;> rw [hk] <;> exact ⟨by decide, fun h => by cases h⟩
  | far kind single => exact ⟨by rw [kind]; decide, fun _ => single⟩

end SlotForm

end Arena

theorem Shape.eq_of_target_eq {shape shape' : Shape} {region region' : Span}
    (h : shape.target region = shape'.target region') : shape = shape' := by
  cases shape with
  | struct d p =>
    cases shape' with
    | struct d' p' =>
      have hview := Target.struct.inj h
      have hd : d * bytesPerWord = d' * bytesPerWord := congrArg (·.data.length) hview
      have hp : p * bytesPerWord = p' * bytesPerWord := congrArg (·.pointers.length) hview
      rw [Nat.eq_of_mul_eq_mul_right (by decide) hd, Nat.eq_of_mul_eq_mul_right (by decide) hp]
    | list l count => cases h
  | list l count =>
    cases shape' with
    | struct d' p' => cases h
    | list l' count' =>
      have hview := Target.list.inj h
      rw [show l = l' from congrArg ListView.layout hview,
        show count = count' from congrArg ListView.count hview]

namespace Arena

variable {a b c m : Arena} {slot : Span} {w : Word} {shape : Shape} {region : Span}

theorem shape_of_follow {segment word : Nat} (hk : Pointer.kind w = .struct)
    (h : c.follow segment word w = .ok (shape.target region)) :
    shape = .struct (Pointer.dataWords w).toNat (Pointer.pointerWords w).toNat := by
  obtain ⟨g, hg, h⟩ := bind_eq_ok_iff.1 h
  rw [place_eq_nearPlace (.inl hk)] at hg
  obtain ⟨t, _, rfl⟩ := nearPlace_eq_ok_iff.1 hg
  rw [objectAt_struct hk, map_eq_ok_iff] at h
  obtain ⟨v, hv, h⟩ := h
  obtain ⟨_, rfl⟩ := structAt_eq_ok_iff.1 hv
  have htarget : shape.target region = (Shape.struct (Pointer.dataWords w).toNat
      (Pointer.pointerWords w).toNat).target (structSpan ⟨w, segment, t⟩) := h
  exact Shape.eq_of_target_eq htarget

/-- Whatever object is found behind the slot, the pointer to it is far if and only if the segment
had no room for it. -/
theorem SlotForm.far_iff (h : SlotForm a m c slot w) (hm : m.Sound)
    (hf : c.follow slot.segment slot.startWord w = .ok (shape.target region)) :
    Pointer.kind w = .far ↔
      m.capacityIn slot.segment < m.usedIn slot.segment + shape.footprint := by
  have hempty (hd : Pointer.dataWords w = 0) (hp : Pointer.pointerWords w = 0)
      (hk : Pointer.kind w = .struct) : Pointer.kind w = .far ↔
        m.capacityIn slot.segment < m.usedIn slot.segment + shape.footprint := by
    obtain rfl := shape_of_follow hk hf
    rw [hk, footprint_struct, hd, hp]
    exact iff_of_false (by decide) (Nat.not_lt.2 (hm.usedIn_le_capacityIn slot.segment))
  cases h with
  | null => exact hempty rfl rfl rfl
  | emptyStruct => exact hempty rfl rfl rfl
  | near points _ _ room =>
    obtain rfl := Shape.eq_of_target_eq (Except.ok.inj (points.leads.symm.trans hf))
    refine iff_of_false ?_ (Nat.not_lt.2 room)
    rcases points.near with hk | hk <;> rw [hk] <;> decide
  | @far _ pad _ _ kind single _ _ _ reads _ points _ full =>
    obtain ⟨g, hg, hobject⟩ := bind_eq_ok_iff.1 points.leads
    rw [place_near points.near _ points.target] at hg
    obtain rfl := Except.ok.inj hg
    have hplace := place_far kind single reads points.near slot.segment slot.startWord points.target
    have hleads : c.follow slot.segment slot.startWord w = _ :=
      bind_eq_ok_iff.2 ⟨_, hplace, hobject⟩
    obtain rfl := Shape.eq_of_target_eq (Except.ok.inj (hleads.symm.trans hf))
    exact iff_of_true kind full

/-- The word in a slot of `c` that was written by a copy into `a`. When the copy turned to the slot
it had made `m` out of `a`. -/
structure NormalSlot (a m c : Arena) (slot : Span) (w : Word) : Prop where
  evolves : Evolves a m
  reads : c.readWord slot.segment slot.startWord = .ok w
  form : SlotForm a m c slot w
  plain : Pointer.kind w ≠ .capability ∧ (Pointer.kind w = .far → Pointer.isDouble w = false)
  far_iff : ∀ (shape : Shape) (region : Span),
    c.follow slot.segment slot.startWord w = .ok (shape.target region) → (Pointer.kind w = .far ↔
      m.capacityIn slot.segment < m.usedIn slot.segment + shape.footprint)

namespace NormalSlot

theorem of_form (ha : a.Sound) (hw : c.readWord slot.segment slot.startWord = .ok w)
    (h : SlotForm a a c slot w) : NormalSlot a a c slot w :=
  ⟨.refl a, hw, h, h.plain, fun _ _ => h.far_iff ha⟩

theorem mono (h : NormalSlot b m c slot w) (hab : Evolves a b) : NormalSlot a m c slot w :=
  ⟨hab.trans h.evolves, h.reads, h.form.mono hab.grows.used, h.plain, h.far_iff⟩

end NormalSlot

end Arena

open Arena

/-- All that was written to the slots that the log names is in normal form in `c`. These are the
given slots and all that can be reached from them. -/
structure NormalLog (log : List Writing) (slots : List Span) (a c : Arena) : Prop where
  normal : ∀ x ∈ log, ∃ w, NormalSlot a x.moment c x.slot w
  complete : ∀ u ∈ slots, ∀ s, ReflTransGen c.Reaches u s → ∃ x ∈ log, x.slot = s

namespace NormalLog

variable {log log' : List Writing} {slots slots' : List Span} {a b c : Arena} {slot : Span}

theorem nil (a c : Arena) : NormalLog [] [] a c :=
  ⟨fun _ h => absurd h List.not_mem_nil, fun _ h => absurd h List.not_mem_nil⟩

theorem mono (h : NormalLog log slots b c) (hab : Evolves a b) : NormalLog log slots a c := by
  refine ⟨fun x hx => ?_, h.complete⟩
  obtain ⟨w, hw⟩ := h.normal x hx
  exact ⟨w, hw.mono hab⟩

theorem append (h : NormalLog log slots a c) (h' : NormalLog log' slots' a c) :
    NormalLog (log ++ log') (slots ++ slots') a c where
  normal x hx := (List.mem_append.1 hx).elim (h.normal x) (h'.normal x)
  complete u hu s hs := by
    rcases List.mem_append.1 hu with hu | hu
    · obtain ⟨x, hx, rfl⟩ := h.complete u hu s hs
      exact ⟨x, List.mem_append_left _ hx, rfl⟩
    · obtain ⟨x, hx, rfl⟩ := h'.complete u hu s hs
      exact ⟨x, List.mem_append_right _ hx, rfl⟩

/-- The slot itself comes before the slots of the object that it leads to. -/
theorem cons {w : Word} (hw : NormalSlot a a c slot w)
    (hreach : ∀ u, c.Reaches slot u → u ∈ slots) (h : NormalLog log slots a c) :
    NormalLog (⟨slot, a⟩ :: log) [slot] a c where
  normal x hx := by
    rcases List.mem_cons.1 hx with rfl | hx
    · exact ⟨w, hw⟩
    · exact h.normal x hx
  complete u hu s hs := by
    obtain rfl := List.mem_singleton.1 hu
    rcases ReflTransGen.cases_head hs with rfl | ⟨v, hv, hs⟩
    · exact ⟨_, List.mem_cons_self, rfl⟩
    · obtain ⟨x, hx, hslot⟩ := h.complete v (hreach v hv) s hs
      exact ⟨x, List.mem_cons_of_mem _ hx, hslot⟩

end NormalLog

namespace Value

/-- The trace of a value in normal form. -/
structure Normal (v : Value) (slot : Span) (a c : Arena) : Prop where
  log : NormalLog (v.writings slot a) [slot] a c
  null : v = .null → c.readWord slot.segment slot.startWord = .ok Pointer.null

variable {a b c : Arena}

theorem normalLog_slots {vs : List Value} {segment start : Nat}
    (h : SlotsLeft Normal segment start vs a c) :
    NormalLog (slotsWritings vs segment start a) (wordsFrom segment start vs.length) a c := by
  induction vs generalizing start a with
  | nil => exact .nil a c
  | cons v vs ih =>
    obtain ⟨hv, hvs⟩ := h
    have hev := v.evolves_store ⟨segment, start, bytesPerWord⟩ a
    rw [slotsWritings]
    exact hv.log.append ((ih hvs).mono hev)

theorem normalLog_parts {shape : Shape} {parts : List (Part Value)} {segment start : Nat}
    (hs : ∀ part ∈ parts, part.slots.length = shape.pointerWords)
    (h : PartsLeft Normal shape segment start parts a c) :
    NormalLog (partsWritings shape parts segment start a)
      (shape.slotsFrom segment start parts.length) a c := by
  induction parts generalizing start a with
  | nil => exact .nil a c
  | cons part parts ih =>
    obtain ⟨⟨_, hpart⟩, hparts⟩ := h
    have hslots := (normalLog_slots hpart).mono (a.evolves_patch _ _)
    rw [hs part List.mem_cons_self] at hslots
    have hrest := ih (fun q hq => hs q (List.mem_cons_of_mem part hq)) hparts
    rw [partsWritings_cons]
    exact hslots.append (hrest.mono (evolves_storePart shape part segment start a))

theorem normal_null : Leaves Normal .null := by
  intro a slot ha hslot
  refine (stored_putWord hslot Pointer.null).weaken fun c hc => ⟨?_, fun _ => hc⟩
  rw [writings]
  exact .cons (.of_form ha hc .null) (fun u hu => absurd hu (not_reaches_of_null hc u)) (.nil a c)

theorem normal_emptyStruct {parts : List (Part Value)} (fills : (Shape.struct 0 0).Fills parts) :
    Leaves Normal (.object (.struct 0 0) parts) := by
  intro a slot ha hslot
  obtain rfl := eq_nil_of_fills fills
  rw [store_emptyStruct]
  refine ((stored_emptyStruct hslot).and (stored_putWord hslot Pointer.emptyStruct)).weaken
    fun c hc => ⟨?_, fun h => by cases h⟩
  obtain ⟨⟨hleads, _⟩, hw⟩ := hc
  rw [writings_emptyStruct]
  refine .cons (.of_form ha hw .emptyStruct) (fun u hu => ?_) (.nil a c)
  have hmem := hleads.mem_slots hu
  rwa [Shape.slots_target] at hmem

variable {shape : Shape} {parts : List (Part Value)} {slot content : Span} {pad : Option Span}
  {far : Bool} {w : Word}

theorem normal_of_leads (fills : shape.Fills parts) (hs : shape ≠ .struct 0 0)
    (hroom : a.makeRoom slot shape.footprint = (⟨content, pad⟩, b))
    (hslot : NormalSlot a a c slot w) (hleads : c.Leads slot far (shape.target content))
    (hparts : PartsLeft Normal shape content.segment (content.start + shape.headerBytes) parts
      (b.putTag shape content) c) : Normal (.object shape parts) slot a c := by
  refine ⟨?_, fun h => by cases h⟩
  have hev := a.evolves_makeRoom slot shape.footprint
  have hlog := normalLog_parts fills.slots hparts
  rw [fills.count, ← Shape.slots_target] at hlog
  rw [hroom] at hev
  rw [writings_object _ _ _ hs, hroom]
  exact .cons hslot (fun u hu => hleads.mem_slots hu)
    (hlog.mono (hev.trans (b.evolves_putTag shape content)))

theorem normal_object (fills : shape.Fills parts)
    (hv : ∀ part ∈ parts, ∀ v ∈ part.slots, Leaves Normal v) (hlink : shape.Linkable)
    (hs : shape ≠ .struct 0 0) : Leaves Normal (.object shape parts) := by
  intro a slot ha hslot
  have hev := a.evolves_makeRoom slot shape.footprint
  have hstore := store_object hs parts slot a
  obtain ⟨⟨content, pad⟩, b, hb⟩ : ∃ p b, a.makeRoom slot shape.footprint = (p, b) := ⟨_, _, rfl⟩
  rw [hb] at hev hstore
  rcases makeRoom_cases a slot shape.footprint_mod with
    ⟨r, he, hseg, hroom, hf⟩ | ⟨r, he, hfull, hf⟩
  · rw [hb] at he hf
    obtain ⟨rfl, rfl⟩ := Placement.mk.inj he
    rw [hstore]
    refine (stored_near fills hv hlink hs ha hslot hf hev hseg).weaken fun c hc => ?_
    obtain ⟨hleads, _, hparts⟩ := hc
    obtain ⟨w, hw, hpoints⟩ := hleads.points hf.length
    have hstart : content.start = a.usedIn slot.segment := by rw [hf.start, hseg]
    exact normal_of_leads fills hs hb
      (.of_form ha hw (.near hpoints hstart.ge hstart hroom)) hleads hparts
  · rw [hb] at he hf
    obtain ⟨rfl, rfl⟩ := Placement.mk.inj he
    obtain ⟨hne, hfull⟩ := hfull hslot.holds.1
    rw [hstore]
    refine (stored_far fills hv hlink ha hslot hf hev rfl).weaken fun c hc => ?_
    obtain ⟨hleads, hhoused, hparts⟩ := hc
    obtain ⟨w, pad, hw, hkind, hsingle, hbehind, hread, hoffset, hpoints⟩ :=
      hleads.points_pad hhoused rfl
    have hsegment : r.segment = Pointer.segment w := hpoints.segment
    have hstart : Pointer.padWord w * bytesPerWord = a.usedIn (Pointer.segment w) := by
      rw [← hsegment, ← hf.start]
      exact (Nat.add_right_cancel (hbehind.trans (Nat.succ_mul _ _))).symm
    exact normal_of_leads fills hs hb (.of_form ha hw (.far hkind hsingle (hsegment ▸ hne) hstart.ge
      hstart hread hoffset hpoints hbehind hfull)) hleads hparts

theorem Fits.normal {room : Nat} {v : Value} (h : v.Fits room) : Leaves Normal v := by
  induction h with
  | null => exact normal_null
  | @object _ shape parts hlink fills _ ih =>
    by_cases hs : shape = .struct 0 0
    · subst hs
      exact normal_emptyStruct fills
    · exact normal_object fills ih hlink hs

theorem reads_null {n segment start : Nat}
    (h : SlotsLeft Normal segment start (List.replicate n .null) a c) :
    ∀ x ∈ slotsWritings (List.replicate n .null) segment start a,
      c.readWord x.slot.segment x.slot.startWord = .ok Pointer.null := by
  induction n generalizing start a with
  | zero =>
    rw [List.replicate_zero, slotsWritings]
    exact fun x hx => absurd hx List.not_mem_nil
  | succ n ih =>
    obtain ⟨hfirst, hrest⟩ := h
    rw [List.replicate_succ, slotsWritings, writings]
    intro x hx
    rcases List.mem_cons.1 hx with rfl | hx
    · exact hfirst.null rfl
    · exact ih hrest x hx

theorem partsLeft_settle {limit : Nat} (h : (Content.object shape parts).Fits limit) (ha : a.Sound)
    (hs : (shape.settle parts a).Addressable) :
    PartsLeft Normal shape (a.alloc shape.footprint).1.segment
      ((a.alloc shape.footprint).1.start + shape.headerBytes) parts
      ((a.alloc shape.footprint).2.putTag shape (a.alloc shape.footprint).1)
      (shape.settle parts a) := by
  cases h with
  | object fills _ slots =>
    have hv (part : Part Value) (hp : part ∈ parts) (v : Value) (hv : v ∈ part.slots) :=
      (slots part hp v hv).normal
    exact (stored_settle fills hv ha).back ha hs _ (.refl _ _)

theorem normalLog_settle {limit : Nat} (h : (Content.object shape parts).Fits limit) (ha : a.Sound)
    (hs : (shape.settle parts a).Addressable) :
    NormalLog (shape.writings parts (a.alloc shape.footprint).1 (a.alloc shape.footprint).2)
      (shape.target (a.alloc shape.footprint).1).slots a (shape.settle parts a) := by
  have hparts := partsLeft_settle h ha hs
  cases h with
  | object fills _ slots =>
    have hlog := normalLog_parts fills.slots hparts
    rw [fills.count, ← Shape.slots_target] at hlog
    exact hlog.mono ((a.evolves_alloc shape.footprint).trans (evolves_putTag _ shape _))

theorem partWritings_padded {d p : Nat} {part : Part Value} {region : Span} (hz : a.Zeroed region)
    (hd : part.data.length ≤ d * bytesPerWord) (hl : d * bytesPerWord ≤ region.length) :
    partWritings (.struct d p) (part.padded d p) region.segment region.start a =
      partWritings (.struct d p) part region.segment region.start a ++
        slotsWritings (List.replicate (p - part.slots.length) .null) region.segment
          (region.start + d * bytesPerWord + part.slots.length * bytesPerWord)
          (storePart (.struct d p) part region.segment region.start a) := by
  have hslots : (part.padded d p).slots =
      part.slots ++ List.replicate (p - part.slots.length) .null := rfl
  rw [partWritings, patch_padded hz hd hl, hslots, slotsWritings_append]
  rfl

/-- A part that is filled up. What is added is null, so it need not be written. -/
theorem normal_padded {limit d p : Nat} {part : Part Value}
    (h : (Content.object (.struct d p) [part.padded d p]).Fits limit)
    (hd : part.data.length ≤ d * bytesPerWord) (ha : a.Sound)
    (hs : ((Shape.struct d p).settle [part.padded d p] a).Addressable) :
    let log := (Shape.struct d p).writings [part] (a.alloc (Shape.struct d p).footprint).1
      (a.alloc (Shape.struct d p).footprint).2
    let c := (Shape.struct d p).settle [part.padded d p] a
    (∀ x ∈ log, ∃ w, NormalSlot a x.moment c x.slot w) ∧
      ∀ u ∈ ((Shape.struct d p).target (a.alloc (Shape.struct d p).footprint).1).slots, ∀ s,
        ReflTransGen c.Reaches u s →
          c.readWord s.segment s.startWord = .ok Pointer.null ∨ ∃ x ∈ log, x.slot = s := by
  intro log c
  have hlog := normalLog_settle h ha hs
  obtain ⟨⟨_, hleft⟩, _⟩ := partsLeft_settle h ha hs
  have hf := a.fresh_alloc_words (Shape.struct d p).footprint_mod
  have hl : d * bytesPerWord ≤ (a.alloc (Shape.struct d p).footprint).1.length := by
    rw [hf.length, footprint_struct, Nat.add_mul]
    exact Nat.le_add_right _ _
  have hpatch := patch_padded (p := p) hf.zeroed hd hl
  rw [Shape.writings_struct, partWritings_padded hf.zeroed hd hl, ← Shape.writings_struct] at hlog
  have hnull := reads_null (hpatch ▸ hleft).of_append_right
  refine ⟨fun x hx => hlog.normal x (List.mem_append_left _ hx), fun u hu s hreach => ?_⟩
  obtain ⟨x, hx, rfl⟩ := hlog.complete u hu s hreach
  rcases List.mem_append.1 hx with hx | hx
  · exact .inr ⟨x, hx, rfl⟩
  · exact .inl (hnull x hx)

end Value

section Copies

variable {source a b : Arena} {limit : Nat}

/-- A copy into `a` has ended with `x` and left `b`. Broken off where it turns to the slot, it does
`before slot f`. Each slot that it turns to is written in normal form. It turns to all that can be
reached from the given slots, but for those that are null because the source has none for them. -/
structure NormalForm {β : Type} (a : Arena) (x : β) (b : Arena) (slots : List Span)
    (before : Span → Fault → Building β) : Prop where
  written : ∀ (slot : Span) (f : Fault) (m : Arena), before slot f a = (.error f, m) →
    ∃ w, NormalSlot a m b slot w
  passes : ∀ (slot : Span) (f : Fault),
    (∃ m, before slot f a = (.error f, m)) ∨ before slot f a = (.ok x, b)
  complete : ∀ u ∈ slots, ∀ s, ReflTransGen b.Reaches u s →
    b.readWord s.segment s.startWord = .ok Pointer.null ∨
      ∃ m, ∀ f, before s f a = (.error f, m)

theorem normalForm_of_log {β : Type} {x : β} {log : List Writing} {slots : List Span}
    {before : Span → Fault → Building β}
    (hbefore : ∀ slot f, Building.Halts slot f (before slot f) a log x b)
    (hnormal : ∀ y ∈ log, ∃ w, NormalSlot a y.moment b y.slot w)
    (hcomplete : ∀ u ∈ slots, ∀ s, ReflTransGen b.Reaches u s →
      b.readWord s.segment s.startWord = .ok Pointer.null ∨ ∃ y ∈ log, y.slot = s) :
    NormalForm a x b slots before where
  written slot f m hm := by
    obtain ⟨y, hy, rfl, rfl⟩ := (hbefore slot f).exists_writing hm
    exact hnormal y hy
  passes slot f := by
    have h := hbefore slot f
    unfold Building.Halts at h
    cases hl : log.find? (·.slot = slot) with
    | some y =>
      rw [hl] at h
      exact .inl ⟨_, h⟩
    | none =>
      rw [hl] at h
      exact .inr h
  complete u hu s hs := by
    refine (hcomplete u hu s hs).imp_right fun ⟨y, hy, hslot⟩ => ?_
    have hsome : (log.find? (·.slot = s)).isSome :=
      List.find?_isSome.2 ⟨y, hy, by simpa using hslot⟩
    obtain ⟨z, hz⟩ := Option.isSome_iff_exists.1 hsome
    refine ⟨z.moment, fun f => ?_⟩
    have h := hbefore s f
    unfold Building.Halts at h
    rwa [hz] at h

theorem copyPointer_normal {src slot : Span} (ha : a.Sound) (hslot : a.HasSlot slot)
    (h : copyPointer source limit src slot a = (.ok (), b)) (hs : b.Addressable) :
    NormalForm a () b [slot] fun halt f => copySlotBefore halt f source limit limit src slot := by
  obtain ⟨v, hv, hdone⟩ := (copyPointer_realizes src ha hslot).of_run h
  obtain ⟨_, rfl⟩ := Prod.mk.inj hdone
  have hnormal := ((valueAt_fits hv).normal a slot ha hslot).back ha hs _ (.refl _ _)
  exact normalForm_of_log
    (fun halt f => haltsSlots_copySlotBefore halt f source limit limit src slot a v ha hslot hv)
    hnormal.log.normal fun u hu s hreach => .inr (hnormal.log.complete u hu s hreach)

theorem copyList_normal {src view : ListView} (ha : a.Sound)
    (h : copyList source limit src a = (.ok view, b)) (hs : b.Addressable) :
    NormalForm a view b view.slots fun halt f =>
      copyListWith source (copySlotBefore halt f source limit limit) src := by
  obtain ⟨parts, hparts, hdone⟩ := (copyList_realizes src ha).of_run h
  obtain ⟨rfl, rfl⟩ := Prod.mk.inj hdone
  obtain ⟨_, hvalid, hparts⟩ := bind_eq_ok_iff.1 hparts
  have hlog := Value.normalLog_settle (.of_listParts hparts) ha hs
  exact normalForm_of_log (fun halt f => copyListBefore_halts ha hvalid hparts)
    hlog.normal fun u hu s hreach => .inr (hlog.complete u hu s hreach)

/-- A new struct. Beyond the slots of the source it is null. -/
theorem copyStruct_normal {src view : StructView} {d p : Nat} (ha : a.Sound)
    (h : copyStruct source limit src d p a = (.ok view, b)) (hs : b.Addressable) :
    NormalForm a view b view.slots fun halt f =>
      copyStructWith source (copySlotBefore halt f source limit limit) src d p := by
  obtain ⟨part, hpart, hfits, hstore⟩ := copyStruct_stores ha h
  obtain ⟨part', hread, hdone⟩ := (copyStruct_realizes src d p ha).of_run h
  obtain ⟨_, hblock, hpart'⟩ := bind_eq_ok_iff.1 hread
  obtain rfl := Except.ok.inj (hpart.symm.trans hpart')
  obtain ⟨rfl, hb⟩ := Prod.mk.inj hdone
  have hsettle : (Shape.struct d p).settle [part.padded d p] a = b := (Prod.mk.inj hstore).2
  obtain ⟨_, hdata, _⟩ := partOf_eq_ok hpart
  rw [← hsettle] at hs
  obtain ⟨hnormal, hcomplete⟩ := Value.normal_padded hfits (by omega) ha hs
  rw [hsettle, footprint_struct] at hnormal hcomplete
  refine normalForm_of_log (fun halt f => ?_) hnormal hcomplete
  rw [← hb]
  exact copyStructBefore_halts ha hblock hpart

end Copies

/-- What deep copies into a reachable arena write is in normal form, as long as the places of the
arena can be addressed. -/
theorem copies_normal_form (source : Arena) (limit : Nat) {a b : Arena} (h : a.Reachable)
    (hs : b.Addressable) :
    (∀ (src view : StructView) (d p : Nat), copyStruct source limit src d p a = (.ok view, b) →
      NormalForm a view b view.slots fun slot f =>
        copyStructWith source (copySlotBefore slot f source limit limit) src d p) ∧
    (∀ src view : ListView, copyList source limit src a = (.ok view, b) →
      NormalForm a view b view.slots fun slot f =>
        copyListWith source (copySlotBefore slot f source limit limit) src) ∧
    ∀ src dst : Span, a.HasSlot dst → copyPointer source limit src dst a = (.ok (), b) →
      NormalForm a () b [dst] fun slot f => copySlotBefore slot f source limit limit src dst :=
  ⟨fun _ _ _ _ hc => copyStruct_normal h.sound hc hs, fun _ _ hc => copyList_normal h.sound hc hs,
    fun _ _ hdst hc => copyPointer_normal h.sound hdst hc hs⟩

/-- The struct is placed in a segment with room for its list. The pointer is not. -/
theorem copies_normal_form_sample :
    let a := (copyStruct sample 64 ⟨⟨0, 8, 8⟩, ⟨0, 16, 8⟩⟩ 2 2 crowded).2
    let b := (copyList sample 64 ⟨⟨0, 24, 8⟩, .bytes1, 3⟩ crowded).2
    let c := (copyPointer sample 64 ⟨0, 0, 8⟩ ⟨0, 0, 8⟩ crowded).2
    (∃ m w, NormalSlot crowded m a ⟨1, 16, 8⟩ w ∧ Pointer.kind w = .list) ∧
      NormalForm crowded (⟨⟨1, 0, 8⟩, .bytes1, 3⟩ : ListView) b [] (fun slot f =>
        copyListWith sample (copySlotBefore slot f sample 64 64) ⟨⟨0, 24, 8⟩, .bytes1, 3⟩) ∧
      ∃ w, NormalSlot crowded crowded c ⟨0, 0, 8⟩ w ∧ Pointer.kind w = .far := by
  intro a b c
  have hs : (copyStruct sample 64 ⟨⟨0, 8, 8⟩, ⟨0, 16, 8⟩⟩ 2 2 crowded).1 =
      .ok ⟨⟨1, 0, 16⟩, ⟨1, 16, 16⟩⟩ := by decide +kernel
  have hl : (copyList sample 64 ⟨⟨0, 24, 8⟩, .bytes1, 3⟩ crowded).1 =
      .ok ⟨⟨1, 0, 8⟩, .bytes1, 3⟩ := by decide +kernel
  have hp : (copyPointer sample 64 ⟨0, 0, 8⟩ ⟨0, 0, 8⟩ crowded).1 = .ok () := by decide +kernel
  have hslot : crowded.HasSlot ⟨0, 0, 8⟩ := ⟨⟨by decide, by decide⟩, rfl, rfl⟩
  have h : crowded.Reachable := (Reachable.withCapacity 8).alloc 8
  have hstruct := (copies_normal_form sample 64 h (b := a)
    ⟨by decide +kernel, by decide +kernel⟩).1 _ _ _ _ (Building.run_eq hs)
  have hlist := (copies_normal_form sample 64 h (b := b)
    ⟨by decide +kernel, by decide +kernel⟩).2.1 _ _ (Building.run_eq hl)
  have hpointer := (copies_normal_form sample 64 h (b := c)
    ⟨by decide +kernel, by decide +kernel⟩).2.2 _ _ hslot (Building.run_eq hp)
  refine ⟨?_, hlist, ?_⟩
  · have hbefore : (copyStructWith sample
        (copySlotBefore ⟨1, 16, 8⟩ (.breach .zeroWrap) sample 64 64)
        ⟨⟨0, 8, 8⟩, ⟨0, 16, 8⟩⟩ 2 2 crowded).1 = .error (.breach .zeroWrap) := by decide +kernel
    obtain ⟨w, hw⟩ := hstruct.written _ _ _ (Prod.ext hbefore rfl)
    have hread : a.readWord 1 2 = .ok 111669149701 := by decide +kernel
    obtain rfl := Except.ok.inj (hread.symm.trans hw.reads)
    exact ⟨_, _, hw, by decide⟩
  · obtain ⟨w, hw⟩ := hpointer.written ⟨0, 0, 8⟩ (.breach .zeroWrap) crowded rfl
    have hread : c.readWord 0 0 = .ok 4294967298 := by decide +kernel
    obtain rfl := Except.ok.inj (hread.symm.trans hw.reads)
    exact ⟨_, hw, by decide⟩

end FrozenDefaults
