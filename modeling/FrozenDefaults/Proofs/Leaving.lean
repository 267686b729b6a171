import FrozenDefaults.Proofs.Parts
import FrozenDefaults.Proofs.Stored

/-!
# What storing leaves behind

An object is stored by putting its parts in a new region and linking the slot to
it. What each value leaves behind in its slot is carried through slots, parts
and objects: `Trace` says what is to be found of a value in an arena that has
grown out of the result, and a stored object leaves the traces of its slots
behind a word that leads to them.
-/

namespace FrozenDefaults

open Arena

/-- The word before the span. -/
def Span.before (s : Span) : Span := ⟨s.segment, s.start - bytesPerWord, bytesPerWord⟩

/-- The landing pad that a word names: one word or, behind a double far pointer, two. -/
def Pointer.pads (w : Word) : List Span :=
  if Pointer.kind w = .far then
    [⟨Pointer.segment w, Pointer.padWord w * bytesPerWord,
      (if Pointer.isDouble w then 2 else 1) * bytesPerWord⟩]
  else []

namespace Arena

/-- The region is in use and, if the slot names a landing pad, that is the word before it. -/
structure Housed (c : Arena) (slot : Span) (far : Bool) (region : Span) : Prop where
  held : c.Holds region
  pads : ∀ w, c.readWord slot.segment slot.startWord = .ok w →
    Pointer.pads w = if far then [region.before] else []
  room : far = true → bytesPerWord ≤ region.start

/-- The slot holds a pointer to the target, through a landing pad or not. -/
structure Leads (c : Arena) (slot : Span) (far : Bool) (t : Target) : Prop where
  checked : DeepCopy.checkSlot slot = .ok ()
  leads : ∃ w, c.readWord slot.segment slot.startWord = .ok w ∧ Pointer.isNull w = false ∧
    decide (Pointer.kind w = .far) = far ∧ c.follow slot.segment slot.startWord w = .ok t

theorem Leads.housed {c : Arena} {slot : Span} {t : Target} (h : c.Leads slot false t)
    {region : Span} (hr : c.Holds region) : c.Housed slot false region := by
  obtain ⟨_, w, hw, _, hkind, _⟩ := h
  refine ⟨hr, fun w' hw' => ?_, fun hfar => by cases hfar⟩
  obtain rfl := Except.ok.inj (hw.symm.trans hw')
  exact if_neg (of_decide_eq_false hkind)

end Arena

namespace Value

/-- What is to be found in the second arena of the value that the slot was given in the first. -/
abbrev Trace := Value → Span → Arena → Arena → Prop

variable (trace : Trace)

/-- Storing the value in any slot leaves its trace. -/
def Leaves (v : Value) : Prop :=
  ∀ (a : Arena) (slot : Span), a.Sound → a.HasSlot slot →
    Stored a slot.Covers v.size (trace v slot a) (v.store slot a)

/-- The traces of values that were stored in consecutive slots. -/
def SlotsLeft (segment : Nat) : (start : Nat) → List Value → (a c : Arena) → Prop
  | _, [], _, _ => True
  | start, v :: vs, a, c =>
    trace v ⟨segment, start, bytesPerWord⟩ a c ∧
      SlotsLeft segment (start + bytesPerWord) vs (v.store ⟨segment, start, bytesPerWord⟩ a) c

/-- The data of a part and the traces of its slots. -/
def PartLeft (shape : Shape) (part : Part Value) (segment start : Nat) (a c : Arena) : Prop :=
  c.read ⟨segment, start, part.data.length⟩ = .ok part.data ∧
    SlotsLeft trace segment (start + shape.dataBytes) part.slots
      (a.patch ⟨segment, start, part.data.length⟩ part.data) c

def PartsLeft (shape : Shape) (segment : Nat) : (start : Nat) → List (Part Value) →
    (a c : Arena) → Prop
  | _, [], _, _ => True
  | start, part :: parts, a, c =>
    PartLeft trace shape part segment start a c ∧
      PartsLeft shape segment (start + shape.partBytes) parts
        (storePart shape part segment start a) c

variable {trace}

theorem SlotsLeft.of_append_right {vs ws : List Value} {segment start : Nat} {a c : Arena}
    (h : SlotsLeft trace segment start (vs ++ ws) a c) : SlotsLeft trace segment
      (start + vs.length * bytesPerWord) ws (storeSlots vs segment start a) c := by
  induction vs generalizing start a with
  | nil =>
    rw [List.length_nil, Nat.zero_mul, storeSlots]
    exact h
  | cons v vs ih =>
    rw [List.length_cons, Nat.succ_mul, Nat.add_comm _ bytesPerWord, ← Nat.add_assoc, storeSlots]
    exact ih h.2

theorem stored_storeSlots {vs : List Value} (hv : ∀ v ∈ vs, Leaves trace v)
    {a : Arena} (segment start : Nat) (ha : a.Sound)
    (hh : a.Holds ⟨segment, start, vs.length * bytesPerWord⟩) (hal : start % bytesPerWord = 0) :
    Stored a (Span.Covers ⟨segment, start, vs.length * bytesPerWord⟩) (slotsSize vs)
      (SlotsLeft trace segment start vs a) (storeSlots vs segment start a) := by
  induction vs generalizing a start with
  | nil => exact Stored.refl a _
  | cons v vs ih =>
    have hstop := hh.2
    simp only [Span.stop, List.length_cons, bytesPerWord] at hstop hal
    have hslot : a.HasSlot ⟨segment, start, bytesPerWord⟩ :=
      ⟨⟨hh.1, by simp only [Span.stop, bytesPerWord]; omega⟩, rfl, hal⟩
    have hfirst := hv v List.mem_cons_self a _ ha hslot
    have hrest := ih (fun w hw => hv w (List.mem_cons_of_mem v hw)) (start + bytesPerWord)
      (hfirst.evolves.sound ha)
      (hfirst.grows.holds ⟨hh.1, by simp only [Span.stop, bytesPerWord]; omega⟩)
      (by simp only [bytesPerWord]; omega)
    refine hfirst.append_within hrest hh ?_ ?_ ?_ <;>
      simp only [Span.Covers, Span.stop, List.length_cons, bytesPerWord] <;> intro s i hi <;> omega

theorem stored_part {shape : Shape} {part : Part Value} (hadm : shape.Admits part)
    (hv : ∀ v ∈ part.slots, Leaves trace v) {a : Arena} (segment start : Nat) (ha : a.Sound)
    (hh : a.Holds ⟨segment, start, shape.partBytes⟩) (hal : start % bytesPerWord = 0) :
    Stored a (Span.Covers ⟨segment, start, shape.partBytes⟩) (slotsSize part.slots)
      (PartLeft trace shape part segment start a) (storePart shape part segment start a) := by
  obtain ⟨hd, hs⟩ := hadm
  have hmod := shape.dataBytes_mod
  have hbytes : shape.partBytes = shape.dataBytes + shape.pointerWords * bytesPerWord := rfl
  have hstop := hh.2
  simp only [Span.stop, bytesPerWord] at hstop hal hbytes hmod
  have hin : a.Holds ⟨segment, start, part.data.length⟩ :=
    ⟨hh.1, by simp only [Span.stop]; omega⟩
  have hdata := stored_patch hin (rfl : part.data.length = part.data.length)
  have hslots := stored_storeSlots hv segment (start + shape.dataBytes)
    (hdata.evolves.sound ha)
    (hdata.grows.holds ⟨hh.1, by simp only [Span.stop, bytesPerWord]; omega⟩)
    (by simp only [bytesPerWord]; omega)
  rw [← Nat.zero_add (slotsSize part.slots)]
  refine hdata.append_within hslots hh ?_ ?_ ?_ <;>
    simp only [Span.Covers, Span.stop, bytesPerWord] <;> intro s i hi <;> omega

theorem stored_storeParts {shape : Shape} {parts : List (Part Value)}
    (hadm : ∀ part ∈ parts, shape.Admits part)
    (hv : ∀ part ∈ parts, ∀ v ∈ part.slots, Leaves trace v)
    {a : Arena} (segment start : Nat) (ha : a.Sound)
    (hh : a.Holds ⟨segment, start, parts.length * shape.partBytes⟩)
    (hal : start % bytesPerWord = 0) :
    Stored a (Span.Covers ⟨segment, start, parts.length * shape.partBytes⟩) (partsSize parts)
      (PartsLeft trace shape segment start parts a) (storeParts shape parts segment start a) := by
  induction parts generalizing a start with
  | nil => exact Stored.refl a _
  | cons part parts ih =>
    have hmod := shape.partBytes_mod
    have hlen : (parts.length + 1) * shape.partBytes =
        parts.length * shape.partBytes + shape.partBytes := Nat.succ_mul _ _
    have hstop := hh.2
    simp only [Span.stop, List.length_cons, bytesPerWord, hlen] at hstop hal hmod
    have hpart := stored_part (hadm part List.mem_cons_self) (hv part List.mem_cons_self) segment
      start ha ⟨hh.1, by simp only [Span.stop]; omega⟩ hal
    have hrest := ih (fun q hq => hadm q (List.mem_cons_of_mem part hq))
      (fun q hq => hv q (List.mem_cons_of_mem part hq)) (start + shape.partBytes)
      (hpart.evolves.sound ha) (hpart.grows.holds ⟨hh.1, by simp only [Span.stop]; omega⟩)
      (by simp only [bytesPerWord]; omega)
    rw [storeParts_cons]
    refine hpart.append_within hrest hh ?_ ?_ ?_ <;>
      simp only [Span.Covers, Span.stop, List.length_cons, hlen] <;> intro s i hi <;> omega

theorem stored_emptyStruct {a : Arena} {slot : Span} (hslot : a.HasSlot slot) :
    Stored a slot.Covers 0
      (fun c => c.Leads slot false ((Shape.struct 0 0).target ⟨slot.segment, slot.start, 0⟩) ∧
        c.Holds ⟨slot.segment, slot.start, 0⟩) (a.putWord slot Pointer.emptyStruct) := by
  refine (stored_putWord hslot Pointer.emptyStruct).conclude fun _ hab c hc hr => ?_
  have hput := hslot.grows (a.evolves_putWord slot Pointer.emptyStruct).grows
  let content : Span := ⟨slot.segment, slot.start, 0⟩
  have hin {b : Arena} (hb : b.HasSlot slot) : b.Holds content :=
    ⟨hb.holds.1, (Nat.le_add_right _ _).trans hb.holds.2⟩
  have hword : slot.startWord < 2 ^ 29 := startWord_lt hab hput.holds
  have hal : content.start % bytesPerWord = 0 := hslot.aligned
  have hlinkable : (Shape.struct 0 0).Linkable := ⟨by decide, by decide⟩
  have hfollow := follow_near hal rfl (hin (hput.grows hc)) hlinkable trivial hword hword
  have hlink : Pointer.withOffset (Shape.struct 0 0).pointer
      (content.startWord - slot.startWord - 1) = Pointer.emptyStruct := by
    have hoffset : (content.startWord : Int) - slot.startWord - 1 = -1 := by
      simp only [content, Span.startWord]
      omega
    rw [hoffset]
    rfl
  rw [hlink] at hfollow
  exact ⟨⟨hslot.checkSlot, Pointer.emptyStruct, hr, by decide, by decide, hfollow⟩,
    hin (hput.grows hc)⟩

variable {a b : Arena} {shape : Shape} {parts : List (Part Value)} {content slot : Span}

theorem stored_fill (fills : shape.Fills parts)
    (hv : ∀ part ∈ parts, ∀ v ∈ part.slots, Leaves trace v) (ha : a.Sound)
    (hh : a.Holds content) (hal : content.start % bytesPerWord = 0)
    (hl : content.length = shape.footprint) :
    Stored a content.Covers (partsSize parts)
      (fun c => c.TagAt shape content ∧ PartsLeft trace shape content.segment
        (content.start + shape.headerBytes) parts (a.putTag shape content) c)
      (shape.fill parts content a) := by
  have hstop := hh.2
  have hmod := shape.headerBytes_mod
  have hfoot : content.length = shape.headerBytes + parts.length * shape.partBytes := by
    rw [hl, fills.count]
    rfl
  simp only [Span.stop, bytesPerWord] at hstop hal hmod
  have htag := stored_putTag shape hh hal hl
  have hparts := stored_storeParts (fun part hp => fills.admits hp) hv
    content.segment (content.start + shape.headerBytes)
    (htag.evolves.sound ha)
    (htag.grows.holds ⟨hh.1, by simp only [Span.stop]; omega⟩)
    (by simp only [bytesPerWord]; omega)
  rw [← Nat.zero_add (partsSize parts)]
  refine htag.append_within hparts hh ?_ ?_ ?_ <;>
    simp only [Span.Covers, Span.stop] <;> intro s i hi <;> omega

theorem stored_settle (fills : shape.Fills parts)
    (hv : ∀ part ∈ parts, ∀ v ∈ part.slots, Leaves trace v) (ha : a.Sound) :
    Stored a (fun _ _ => False) (shape.footprint + partsSize parts)
      (PartsLeft trace shape (a.alloc shape.footprint).1.segment
        ((a.alloc shape.footprint).1.start + shape.headerBytes) parts
        ((a.alloc shape.footprint).2.putTag shape (a.alloc shape.footprint).1))
      (shape.settle parts a) := by
  have hf := a.fresh_alloc_words shape.footprint_mod
  have hev := a.evolves_alloc shape.footprint
  have hfill := stored_fill fills hv (hev.sound ha) hf.holds (hf.aligned ha) hf.length
  exact (hfill.allocated hf hev fun s i => .inr).weaken fun c hc => hc.2

theorem stored_near (fills : shape.Fills parts)
    (hv : ∀ part ∈ parts, ∀ v ∈ part.slots, Leaves trace v) (hlink : shape.Linkable)
    (hs : shape ≠ .struct 0 0) (ha : a.Sound) (hslot : a.HasSlot slot)
    (hf : Fresh a shape.footprint content b) (hev : Evolves a b)
    (hseg : content.segment = slot.segment) :
    Stored a slot.Covers (shape.footprint + partsSize parts)
      (fun c => c.Leads slot false (shape.target content) ∧ c.Housed slot false content ∧
        PartsLeft trace shape content.segment (content.start + shape.headerBytes) parts
          (b.putTag shape content) c)
      (putLink slot ⟨content, none⟩ shape.pointer (shape.fill parts content b)) := by
  have hal := hf.aligned ha
  have hfill := stored_fill fills hv (hev.sound ha) hf.holds hal hf.length
  have hlinked := stored_putWord ((hslot.grows hev.grows).grows hfill.grows)
    (Pointer.withOffset shape.pointer (content.startWord - slot.startWord - 1))
  have hboth := hfill.append (R := fun s i => content.Covers s i ∨ slot.Covers s i) hlinked
    (fun s i hc => (hslot.grows hev.grows).holds.lt_of_covers hc) (fun s i => .inl)
    (fun s i => .inr)
    (fun s i hc hc' => absurd (hslot.holds.lt_of_covers hc') (Nat.not_lt.2 (hf.le_of_covers hc)))
  refine (hboth.allocated hf hev fun s i => .symm).conclude fun _ hab c hc hread => ?_
  obtain ⟨⟨htag, hparts⟩, hword⟩ := hread
  have hout := hfill.grows.holds hf.holds
  have hheld := hc.holds (hlinked.grows.holds hout)
  have hw := startWord_lt hab (hlinked.grows.holds hout)
  have hw' := startWord_lt hab (hlinked.grows.holds
    ((hslot.grows hev.grows).grows hfill.grows).holds)
  have hnear : decide (Pointer.kind (Pointer.withOffset shape.pointer
      (content.startWord - slot.startWord - 1)) = .far) = false := by
    rcases shape.kind_link (content.startWord - slot.startWord - 1) with h | h <;> rw [h] <;> rfl
  have hleads : c.Leads slot false (shape.target content) := by
    refine ⟨hslot.checkSlot, _, hword, shape.isNull_link hlink hs _, hnear, ?_⟩
    rw [← hseg]
    exact follow_near hal hf.length hheld hlink htag hw' hw
  exact ⟨hleads, hleads.housed hheld, hparts⟩

theorem stored_far {r : Span} (fills : shape.Fills parts)
    (hv : ∀ part ∈ parts, ∀ v ∈ part.slots, Leaves trace v) (hlink : shape.Linkable)
    (ha : a.Sound) (hslot : a.HasSlot slot) (hf : Fresh a (shape.footprint + bytesPerWord) r b)
    (hev : Evolves a b) (hc : content = ⟨r.segment, r.start + bytesPerWord, shape.footprint⟩) :
    Stored a slot.Covers (shape.footprint + partsSize parts)
      (fun c => c.Leads slot true (shape.target content) ∧ c.Housed slot true content ∧
        PartsLeft trace shape content.segment (content.start + shape.headerBytes) parts
          (b.putTag shape content) c)
      (putLink slot ⟨content, some ⟨r.segment, r.start, bytesPerWord⟩⟩ shape.pointer
        (shape.fill parts content b)) := by
  subst hc
  let content : Span := ⟨r.segment, r.start + bytesPerWord, shape.footprint⟩
  let pad : Span := ⟨r.segment, r.start, bytesPerWord⟩
  have hral := hf.aligned ha
  have hal : content.start % bytesPerWord = 0 := (Nat.add_mod_right _ _).trans hral
  have hstop := hf.holds.2
  simp only [Span.stop, hf.length] at hstop
  have hheld : b.Holds content := ⟨hf.holds.1, by simp only [content, Span.stop]; omega⟩
  have hpad : b.HasSlot pad := ⟨⟨hf.holds.1, by simp only [pad, Span.stop]; omega⟩, rfl, hral⟩
  have hslot' := hslot.grows hev.grows
  have hfill := stored_fill fills hv (hev.sound ha) hheld hal rfl
  have hpadded := stored_putWord (hpad.grows hfill.grows) (Pointer.withOffset shape.pointer 0)
  have hlinked := stored_putWord ((hslot'.grows hfill.grows).grows hpadded.grows)
    (Pointer.ofFar false pad.startWord (UInt32.ofNat pad.segment))
  -- Content and pad lie in the new region, so the slot is apart from both.
  have hnew {s i : Nat} (hi : content.Covers s i ∨ pad.Covers s i) : r.Covers s i := by
    have hlen := hf.length
    simp only [content, pad, Span.Covers, Span.stop] at hi ⊢
    omega
  have hboth := hfill.append (R := fun s i => content.Covers s i ∨ pad.Covers s i) hpadded
    (fun s i hi => hpad.holds.lt_of_covers hi) (fun s i => .inl) (fun s i => .inr)
    (fun s i hi hi' => by simp only [content, pad, Span.Covers, Span.stop] at hi hi'; omega)
  have hall := hboth.append (R := fun s i => slot.Covers s i ∨ r.Covers s i) hlinked
    (fun s i hi => hslot'.holds.lt_of_covers hi) (fun s i hi => .inr (hnew hi))
    (fun s i => .inl) (fun s i hi hi' => absurd (hslot.holds.lt_of_covers hi')
      (Nat.not_lt.2 (hf.le_of_covers (hnew hi))))
  refine ((hall.allocated hf hev fun s i => id).of_le (by omega)).conclude
    fun _ hab c hc hread => ?_
  obtain ⟨⟨⟨htag, hparts⟩, hword⟩, hfar⟩ := hread
  have hout := hlinked.grows.holds (hpadded.grows.holds (hfill.grows.holds hheld))
  have hword' := startWord_lt hab (hlinked.grows.holds
    ((hpad.grows hfill.grows).grows hpadded.grows).holds)
  have hseg : content.segment < 2 ^ 32 := hout.1.trans_le hab.names
  have hnext : content.startWord = pad.startWord + 1 := Nat.add_div_right _ (by decide)
  have hkind : Pointer.kind (Pointer.ofFar false pad.startWord (UInt32.ofNat pad.segment)) = .far :=
    Pointer.kind_ofFar
  refine ⟨⟨hslot.checkSlot, _, hfar, Pointer.isNull_eq_false_of_kind (by rw [hkind]; decide),
    decide_eq_true hkind, ?_⟩, ⟨hc.holds hout, fun w hw => ?_, fun _ => Nat.le_add_left _ _⟩,
    hparts⟩
  · exact follow_far hal rfl (hc.holds hout) hlink htag hword hword' hseg hnext
  · obtain rfl := Except.ok.inj (hfar.symm.trans hw)
    rw [Pointer.pads, if_pos hkind, Pointer.segment_ofFar, UInt32.toNat_ofNat_of_lt' hseg,
      Pointer.padWord_ofFar hword', Pointer.isDouble_ofFar, startWord_mul hpad.aligned]
    rfl

/-- Where an object was put and what it left: its slot leads to a region of its footprint, with the
traces of its slots in the parts that were stored there in the arena `b`. -/
structure ObjectLeft (trace : Trace) (shape : Shape) (parts : List (Part Value)) (slot : Span)
    (a c : Arena) (far : Bool) (content : Span) (b : Arena) : Prop where
  leads : c.Leads slot far (shape.target content)
  housed : c.Housed slot far content
  aligned : content.start % bytesPerWord = 0
  length : content.length = shape.footprint
  left : PartsLeft trace shape content.segment (content.start + shape.headerBytes) parts b c
  room : b.totalSize = a.totalSize + shape.footprint + if far then bytesPerWord else 0
  size : (store (.object shape parts) slot a).totalSize =
    (storeParts shape parts content.segment (content.start + shape.headerBytes) b).totalSize
  new : ∀ s i, content.Covers s i ∨ far = true ∧ content.before.Covers s i →
    a.usedIn s ≤ i ∧ i < b.usedIn s
  used : ∀ s, a.usedIn s ≤ b.usedIn s ∧ (store (.object shape parts) slot a).usedIn s =
    (storeParts shape parts content.segment (content.start + shape.headerBytes) b).usedIn s

theorem totalSize_putTag (shape : Shape) (region : Span) (a : Arena) :
    (a.putTag shape region).totalSize = a.totalSize := by
  unfold putTag
  split
  · exact totalSize_patch _ _
  · rfl

theorem totalSize_putLink (slot : Span) (p : DeepCopy.Placement) (w : Word) (a : Arena) :
    (a.putLink slot p w).totalSize = a.totalSize := by
  unfold putLink
  split
  · exact totalSize_patch _ _
  · exact (totalSize_patch _ _).trans (totalSize_patch _ _)

theorem usedIn_putTag (shape : Shape) (region : Span) (a : Arena) (s : Nat) :
    (a.putTag shape region).usedIn s = a.usedIn s := by
  unfold putTag
  split
  · exact usedIn_patch _ _ s
  · rfl

theorem usedIn_putLink (slot : Span) (p : DeepCopy.Placement) (w : Word) (a : Arena) (s : Nat) :
    (a.putLink slot p w).usedIn s = a.usedIn s := by
  unfold putLink
  split
  · exact usedIn_patch _ _ s
  · exact (usedIn_patch _ _ s).trans (usedIn_patch _ _ s)

/-- An object that is stored leaves the traces of its slots. -/
theorem stored_object (fills : shape.Fills parts)
    (hv : ∀ part ∈ parts, ∀ v ∈ part.slots, Leaves trace v) (hlink : shape.Linkable)
    (hs : shape ≠ .struct 0 0) (ha : a.Sound) (hslot : a.HasSlot slot) :
    Stored a slot.Covers (shape.footprint + partsSize parts)
      (fun c => ∃ far content b, ObjectLeft trace shape parts slot a c far content b)
      (store (.object shape parts) slot a) := by
  have hev := a.evolves_makeRoom slot shape.footprint
  have hstore := store_object hs parts slot a
  rcases makeRoom_cases a slot shape.footprint_mod with ⟨r, he, hseg, _, hf⟩ | ⟨r, he, _, hf⟩
  · rw [he] at hstore
    have hnear := stored_near fills hv hlink hs ha hslot hf hev hseg
    rw [← hstore] at hnear
    refine hnear.weaken fun c hc => ⟨false, r, _, hc.1, hc.2.1, hf.aligned ha, hf.length, hc.2.2,
      ?_, ?_, fun s i hi => ?_, fun s => ⟨?_, ?_⟩⟩
    · rw [totalSize_putTag, hf.totalSize]
      rfl
    · rw [hstore, totalSize_putLink]
      rfl
    · rw [usedIn_putTag]
      rcases hi with hi | ⟨hfar, _⟩
      · exact ⟨hf.le_of_covers hi, hf.holds.lt_of_covers hi⟩
      · cases hfar
    · rw [usedIn_putTag]
      exact hev.grows.used s
    · rw [hstore, usedIn_putLink]
      rfl
  · rw [he] at hstore
    have hfar := stored_far fills hv hlink ha hslot hf hev rfl
    rw [← hstore] at hfar
    refine hfar.weaken fun c hc => ⟨true, _, _, hc.1, hc.2.1, ?_, rfl, hc.2.2, ?_, ?_,
      fun s i hi => ?_, fun s => ⟨?_, ?_⟩⟩
    · exact (Nat.add_mod_right _ _).trans (hf.aligned ha)
    · rw [totalSize_putTag, hf.totalSize, Nat.add_assoc]
      rfl
    · rw [hstore, totalSize_putLink]
      rfl
    · have hlen := hf.length
      have hin : r.Covers s i := by
        simp only [Span.before, Span.Covers, Span.stop] at hi ⊢
        omega
      rw [usedIn_putTag]
      exact ⟨hf.le_of_covers hin, hf.holds.lt_of_covers hin⟩
    · rw [usedIn_putTag]
      exact hev.grows.used s
    · rw [hstore, usedIn_putLink]
      rfl

end Value

end FrozenDefaults
