import FrozenDefaults.Proofs.Linking
import FrozenDefaults.Proofs.Soundness

/-!
# Steps that last

What a step has stored is there in every arena that grows out of the result and
spares the places of the step. `Stored` says so of one step, and steps whose
places are apart can be put together.
-/

namespace FrozenDefaults

namespace Arena

variable {a b c : Arena} {R R₁ R₂ : Nat → Nat → Prop} {m n : Nat}

/-- The span is an aligned word in use. -/
structure HasSlot (a : Arena) (slot : Span) : Prop where
  holds : a.Holds slot
  length : slot.length = bytesPerWord
  aligned : slot.start % bytesPerWord = 0

theorem Holds.lt_of_covers {r : Span} (h : a.Holds r) {s i : Nat} (hc : r.Covers s i) :
    i < a.usedIn s := by
  obtain ⟨rfl, _, hi⟩ := hc
  exact hi.trans_le h.2

/-- `b` has come out of `a` by steps that, of the places in use before, changed those with `R` alone
and that took at least `n` bytes. What `Back` says can be read in every arena that has grown out of
`b` and spared these and the new places. -/
structure Stored (a : Arena) (R : Nat → Nat → Prop) (n : Nat) (Back : Arena → Prop) (b : Arena) :
    Prop where
  evolves : Evolves a b
  grows : Grows (fun s i => ¬ R s i) a b
  size : a.totalSize + n ≤ b.totalSize
  back : a.Sound → b.Addressable → ∀ c, Grows (fun s i => R s i ∨ a.usedIn s ≤ i) b c → Back c

namespace Stored

variable {Back Back₁ Back₂ : Arena → Prop}

theorem conclude (h : Stored a R n Back₁ b) (hb : a.Sound → b.Addressable → ∀ c,
    Grows (fun _ _ => False) b c → Back₁ c → Back₂ c) : Stored a R n Back₂ b :=
  ⟨h.evolves, h.grows, h.size, fun ha hab c hc =>
    hb ha hab c (hc.mono fun _ _ hf _ => hf.elim) (h.back ha hab c hc)⟩

theorem weaken (h : Stored a R n Back₁ b) (hb : ∀ c, Back₁ c → Back₂ c) : Stored a R n Back₂ b :=
  h.conclude fun _ _ c _ => hb c

theorem of_le (h : Stored a R m Back b) (hn : n ≤ m) : Stored a R n Back b :=
  ⟨h.evolves, h.grows, (Nat.add_le_add_left hn _).trans h.size, h.back⟩

theorem and (h₁ : Stored a R n Back₁ b) (h₂ : Stored a R m Back₂ b) :
    Stored a R n (fun c => Back₁ c ∧ Back₂ c) b :=
  ⟨h₁.evolves, h₁.grows, h₁.size, fun ha hab c hc => ⟨h₁.back ha hab c hc, h₂.back ha hab c hc⟩⟩

theorem refl (a : Arena) (R : Nat → Nat → Prop) : Stored a R 0 (fun _ => True) a :=
  ⟨.refl a, .refl _ a, Nat.le_refl _, fun _ _ _ _ => trivial⟩

theorem append (h₁ : Stored a R₁ m Back₁ b) (h₂ : Stored b R₂ n Back₂ c)
    (held : ∀ s i, R₂ s i → i < a.usedIn s) (sub₁ : ∀ s i, R₁ s i → R s i)
    (sub₂ : ∀ s i, R₂ s i → R s i) (apart : ∀ s i, R₁ s i → ¬ R₂ s i) :
    Stored a R (m + n) (fun c => Back₁ c ∧ Back₂ c) c where
  evolves := h₁.evolves.trans h₂.evolves
  grows := (h₁.grows.mono fun s i hn _ hc => hn (sub₁ s i hc)).trans
    (h₂.grows.mono fun s i hn _ hc => hn (sub₂ s i hc))
  size := by
    have s₁ := h₁.size
    have s₂ := h₂.size
    omega
  back hs hsize x hx := by
    refine ⟨h₁.back hs (h₂.evolves.addressable hsize) x ((h₂.grows.mono ?_).trans (hx.mono ?_)),
      h₂.back (h₁.evolves.sound hs) hsize x (hx.mono ?_)⟩
    · rintro s i (hi | hi) _ hc
      · exact apart s i hi hc
      · exact absurd (held s i hc) (Nat.not_lt.2 hi)
    · rintro s i (hi | hi) _
      · exact .inl (sub₁ s i hi)
      · exact .inr hi
    · rintro s i (hi | hi) _
      · exact .inl (sub₂ s i hi)
      · exact .inr ((h₁.evolves.grows.used s).trans hi)

theorem append_within {r r₁ r₂ : Span} (h₁ : Stored a r₁.Covers m Back₁ b)
    (h₂ : Stored b r₂.Covers n Back₂ c) (held : a.Holds r)
    (sub₁ : ∀ s i, r₁.Covers s i → r.Covers s i) (sub₂ : ∀ s i, r₂.Covers s i → r.Covers s i)
    (apart : ∀ s i, r₁.Covers s i → ¬ r₂.Covers s i) :
    Stored a r.Covers (m + n) (fun c => Back₁ c ∧ Back₂ c) c :=
  h₁.append h₂ (fun s i hc => held.lt_of_covers (sub₂ s i hc)) sub₁ sub₂ apart

theorem allocated {r : Span} (hf : Fresh a m r b) (hev : Evolves a b) (h : Stored b R₁ n Back c)
    (sub : ∀ s i, R₁ s i → R s i ∨ r.Covers s i) : Stored a R (m + n) Back c where
  evolves := hev.trans h.evolves
  grows := by
    refine ((hf.grows fun s i => ¬ R s i ∧ i < a.usedIn s).trans
      (h.grows.mono fun s i hn _ hc => ?_)).mono fun s i hn hi => ⟨hn, hi⟩
    rcases sub s i hc with hR | hr
    · exact hn.1 hR
    · exact absurd hn.2 (Nat.not_lt.2 (hf.le_of_covers hr))
  size := by
    have hs := h.size
    rw [hf.totalSize] at hs
    omega
  back ha hc x hx := by
    refine h.back (hev.sound ha) hc x (hx.mono ?_)
    rintro s i (hi | hi) _
    · rcases sub s i hi with hR | hr
      · exact .inl hR
      · exact .inr (hf.le_of_covers hr)
    · exact .inr ((hev.grows.used s).trans hi)

end Stored

theorem stored_patch {s : Span} {bs : List UInt8} (hs : a.Holds s) (hl : bs.length = s.length) :
    Stored a s.Covers 0 (fun c => c.read s = .ok bs) (a.patch s bs) where
  evolves := a.evolves_patch s bs
  grows := grows_patch hs hl
  size := (totalSize_patch s bs).ge
  back _ _ _ hc := hc.read (read_patch hs hl) fun _ hi => .inl hi

variable {slot : Span}

theorem HasSlot.wordSpan_eq (h : a.HasSlot slot) : wordSpan slot.segment slot.startWord = slot := by
  rw [wordSpan, startWord_mul h.aligned, ← h.length]

theorem HasSlot.checkSlot (h : a.HasSlot slot) : DeepCopy.checkSlot slot = .ok () := by
  refine if_neg ?_
  rintro (hl | hs)
  · exact hl h.length
  · exact hs h.aligned

theorem HasSlot.readWord (h : a.HasSlot slot) {w : Word} (hr : c.read slot = .ok (Word.toBytes w)) :
    c.readWord slot.segment slot.startWord = .ok w := by
  rw [Arena.readWord, h.wordSpan_eq, hr]
  exact congrArg _ (Word.ofBytes_toBytes w)

theorem HasSlot.grows {P : Nat → Nat → Prop} (h : a.HasSlot slot) (hg : Grows P a b) :
    b.HasSlot slot := ⟨hg.holds h.holds, h.length, h.aligned⟩

theorem stored_putWord (h : a.HasSlot slot) (w : Word) :
    Stored a slot.Covers 0 (fun c => c.readWord slot.segment slot.startWord = .ok w)
      (a.putWord slot w) :=
  (stored_patch h.holds (by rw [Word.length_toBytes, h.length])).weaken fun _ hc => h.readWord hc

theorem stored_putTag {region : Span} (shape : Shape) (hh : a.Holds region)
    (hal : region.start % bytesPerWord = 0) (hl : region.length = shape.footprint) :
    Stored a (Span.Covers ⟨region.segment, region.start, shape.headerBytes⟩) 0
      (fun c => c.TagAt shape region) (a.putTag shape region) := by
  cases shape with
  | struct d p => exact (Stored.refl a _).weaken fun _ _ => trivial
  | list l count =>
    rcases l.composite_or with ⟨d, p, rfl⟩ | hc
    · have hle : bytesPerWord ≤ region.length := by
        rw [hl]
        exact Nat.le_add_right _ _
      have hstop := hh.2
      simp only [Span.stop] at hstop
      have hslot : a.HasSlot ⟨region.segment, region.start, bytesPerWord⟩ :=
        ⟨⟨hh.1, by simp only [Span.stop]; omega⟩, rfl, hal⟩
      exact stored_putWord hslot _
    · cases l with
      | composite d p => exact absurd rfl hc
      | _ => exact (Stored.refl a _).weaken fun _ _ => trivial

theorem Fresh.aligned {r : Span} (h : Fresh a n r b) (ha : a.Sound) : r.start % bytesPerWord = 0 :=
  h.start ▸ ha.whole r.segment

theorem hasSlot_alloc (ha : a.Sound) :
    (a.alloc bytesPerWord).2.HasSlot (a.alloc bytesPerWord).1 := by
  have hf := a.fresh_alloc_words (n := bytesPerWord) rfl
  exact ⟨hf.holds, hf.length, hf.aligned ha⟩

/-- Where there is no room for `n` bytes, there is none for more, and what is allocated goes to
another segment. -/
theorem segment_alloc_ne {segment n k : Nat} (hs : segment < a.segmentCount)
    (hfull : a.capacityIn segment < a.usedIn segment + roundUp n) (hk : roundUp n ≤ roundUp k) :
    (a.alloc k).1.segment ≠ segment := by
  rcases alloc_cases a k with ⟨r, b, hin, he⟩ | ⟨_, he⟩
  · rcases allocIn_cases a (a.segmentCount - 1) k with hn | ⟨r', b', hr, hseg, _⟩
    · rw [hn] at hin
      cases hin
    · obtain ⟨rfl, rfl⟩ : r' = r ∧ b' = b := by simpa [hr] using hin
      rw [he, hseg]
      rintro rfl
      have hroom := (isSome_allocIn_iff a (a.segmentCount - 1) k).1 (by rw [hin]; rfl)
      omega
  · rw [he]
    exact (Nat.ne_of_lt hs).symm

/-- The room for an object is new, in the segment of the slot if there is enough of it there, or
behind a landing pad in another segment. -/
theorem makeRoom_cases (a : Arena) (slot : Span) {n : Nat} (hn : n % bytesPerWord = 0) :
    (∃ r, (a.makeRoom slot n).1 = ⟨r, none⟩ ∧ r.segment = slot.segment ∧
        a.usedIn slot.segment + n ≤ a.capacityIn slot.segment ∧
        Fresh a n r (a.makeRoom slot n).2) ∨
      ∃ r, (a.makeRoom slot n).1 = ⟨⟨r.segment, r.start + bytesPerWord, n⟩,
          some ⟨r.segment, r.start, bytesPerWord⟩⟩ ∧
        (slot.segment < a.segmentCount → r.segment ≠ slot.segment ∧
          a.capacityIn slot.segment < a.usedIn slot.segment + n) ∧
        Fresh a (n + bytesPerWord) r (a.makeRoom slot n).2 := by
  have hiff := isSome_allocIn_iff a slot.segment n
  have hround := roundUp_eq_self hn
  rw [hround] at hiff
  rcases allocIn_cases a slot.segment n with h | ⟨r, b, h, hs, hf⟩
  · have hmod := (Nat.add_mod_right n bytesPerWord).trans hn
    have hf := a.fresh_alloc_words hmod
    have haway (hs : slot.segment < a.segmentCount) :
        (a.alloc (n + bytesPerWord)).1.segment ≠ slot.segment ∧
          a.capacityIn slot.segment < a.usedIn slot.segment + n := by
      have hfull : a.capacityIn slot.segment < a.usedIn slot.segment + n := by
        rw [h] at hiff
        exact Nat.lt_of_not_le fun hle => Bool.false_ne_true (hiff.2 ⟨hs, hle⟩)
      refine ⟨segment_alloc_ne hs (hround.symm ▸ hfull) ?_, hfull⟩
      rw [hround, roundUp_eq_self hmod]
      exact Nat.le_add_right _ _
    obtain ⟨r, b, hr⟩ : ∃ r b, a.alloc (n + bytesPerWord) = (r, b) := ⟨_, _, rfl⟩
    rw [hr] at hf haway
    rw [makeRoom_of_none h hr, hf.length, Nat.add_sub_cancel]
    exact .inr ⟨r, rfl, haway, hf⟩
  · rw [h] at hiff
    rw [hround] at hf
    rw [makeRoom_of_some h]
    exact .inl ⟨r, rfl, hs, (hiff.1 rfl).2, hf⟩

theorem startWord_lt {s : Span} (ha : a.Addressable) (h : a.Holds s) : s.startWord < 2 ^ 29 := by
  have hu := h.2.trans (a.usedIn_le_totalSize s.segment)
  have hs := ha.size
  simp only [Span.stop, Span.startWord, bytesPerWord] at hu ⊢
  omega

end Arena

end FrozenDefaults
