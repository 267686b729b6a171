import FrozenDefaults.Proofs.Memory

/-!
# When a pointer leads to an object

The exact conditions under which the steps from a pointer word to its target
succeed, and what they give then.
-/

namespace FrozenDefaults

theorem ok_bind {ε α β : Type} (x : α) (f : α → Except ε β) : Except.ok x >>= f = f x := rfl

theorem error_bind {ε α β : Type} (e : ε) (f : α → Except ε β) :
    Except.error e >>= f = .error e := rfl

theorem bind_eq_ok_iff {ε α β : Type} {x : Except ε α} {f : α → Except ε β} {b : β} :
    x >>= f = .ok b ↔ ∃ a, x = .ok a ∧ f a = .ok b := by
  cases x with
  | error e => exact ⟨fun h => (by cases h), fun ⟨_, h, _⟩ => (by cases h)⟩
  | ok a => exact ⟨fun h => ⟨a, rfl, h⟩, fun ⟨_, h, hf⟩ => (by cases h; exact hf)⟩

theorem bind_eq_error_iff {ε α β : Type} {x : Except ε α} {f : α → Except ε β} {e : ε} :
    x >>= f = .error e ↔ x = .error e ∨ ∃ a, x = .ok a ∧ f a = .error e := by
  cases x with
  | error d =>
    constructor
    · intro h
      exact .inl (congrArg _ (Except.error.inj h))
    · rintro (h | ⟨_, h, _⟩) <;> cases h
      rfl
  | ok a =>
    constructor
    · intro h
      exact .inr ⟨a, rfl, h⟩
    · rintro (h | ⟨_, h, hf⟩) <;> cases h
      exact hf

theorem map_eq_ok_iff {ε α β : Type} {x : Except ε α} {f : α → β} {b : β} :
    f <$> x = .ok b ↔ ∃ a, x = .ok a ∧ b = f a := by
  cases x with
  | error e => exact ⟨fun h => (by cases h), fun ⟨_, h, _⟩ => (by cases h)⟩
  | ok a =>
    constructor
    · intro h
      exact ⟨a, rfl, (Except.ok.inj h).symm⟩
    · rintro ⟨_, h, rfl⟩
      cases h
      rfl

theorem map_eq_error_iff {ε α β : Type} {x : Except ε α} {f : α → β} {e : ε} :
    f <$> x = .error e ↔ x = .error e := by
  cases x with
  | error d =>
    exact ⟨fun h => congrArg _ (Except.error.inj h), fun h => congrArg _ (Except.error.inj h)⟩
  | ok a => exact ⟨fun h => (by cases h), fun h => (by cases h)⟩

theorem Span.part_eq_ok_iff {s t : Span} {offset n : Nat} :
    s.part offset n = .ok t ↔ offset + n ≤ s.length ∧ t = ⟨s.segment, s.start + offset, n⟩ := by
  rw [Span.part]
  split
  · rename_i h
    exact ⟨fun he => ⟨h, (Except.ok.inj he).symm⟩, fun he => by rw [he.2]⟩
  · rename_i h
    exact ⟨fun he => (by cases he), fun he => absurd he.1 h⟩

theorem Span.wordCount_eq_ok_iff {s : Span} {n : Nat} :
    s.wordCount = .ok n ↔ s.Aligned ∧ n = s.length / bytesPerWord := by
  rw [Span.wordCount]
  split
  · rename_i h
    exact ⟨fun he => ⟨h, (Except.ok.inj he).symm⟩, fun he => by rw [he.2]⟩
  · rename_i h
    exact ⟨fun he => (by cases he), fun he => absurd he.1 h⟩

namespace Arena

variable {a : Arena} {t : Tagged}

def structSpan (t : Tagged) : Span :=
  ⟨t.segment, t.word * bytesPerWord,
    ((Pointer.dataWords t.tag).toNat + (Pointer.pointerWords t.tag).toNat) * bytesPerWord⟩

def compositeSpan (t : Tagged) : Span :=
  ⟨t.segment, (t.word + 1) * bytesPerWord, (Pointer.elementCount t.tag).toNat * bytesPerWord⟩

/-- The words of a list of the given layout without a tag. -/
def bareSpan (t : Tagged) (l : ElementLayout) : Span :=
  ⟨t.segment, t.word * bytesPerWord, l.storageBytes (Pointer.elementCount t.tag)⟩

theorem structAt_eq_ok_iff {v : StructView} : a.structAt t = .ok v ↔
    a.Holds (structSpan t) ∧
      v = .ofRegion (structSpan t) (Pointer.dataWords t.tag).toNat
        (Pointer.pointerWords t.tag).toNat := by
  have he : a.structAt t = a.check (structSpan t) >>= fun _ => .ok (.ofRegion (structSpan t)
      (Pointer.dataWords t.tag).toNat (Pointer.pointerWords t.tag).toNat) := rfl
  rw [he, bind_eq_ok_iff]
  constructor
  · rintro ⟨_, hc, hv⟩
    exact ⟨check_eq_ok_iff.1 hc, (Except.ok.inj hv).symm⟩
  · rintro ⟨hc, rfl⟩
    exact ⟨(), check_of_holds hc, rfl⟩

theorem compositeAt_eq (t : Tagged) : a.compositeAt t =
    a.readWord t.segment t.word >>= fun header =>
      if Pointer.kind header ≠ .struct then .error (.malformed t.segment t.word .tagNotStruct)
      else if (Pointer.elementCount t.tag).toNat <
          ElementLayout.stride (Pointer.dataWords header) (Pointer.pointerWords header) *
            (Pointer.tagCount header).toNat then
        .error (.malformed t.segment t.word .tooManyElements)
      else a.check (compositeSpan t) >>= fun _ =>
        .ok ⟨compositeSpan t,
          .composite (Pointer.dataWords header) (Pointer.pointerWords header),
          Pointer.tagCount header⟩ := rfl

theorem compositeAt_eq_ok_iff {v : ListView} : a.compositeAt t = .ok v ↔
    ∃ header, a.readWord t.segment t.word = .ok header ∧ Pointer.kind header = .struct ∧
      ElementLayout.stride (Pointer.dataWords header) (Pointer.pointerWords header) *
        (Pointer.tagCount header).toNat ≤ (Pointer.elementCount t.tag).toNat ∧
      a.Holds (compositeSpan t) ∧
      v = ⟨compositeSpan t, .composite (Pointer.dataWords header) (Pointer.pointerWords header),
        Pointer.tagCount header⟩ := by
  rw [compositeAt_eq, bind_eq_ok_iff]
  refine exists_congr fun header => and_congr_right fun _ => ?_
  by_cases hk : Pointer.kind header = .struct
  · rw [if_neg (not_not.2 hk)]
    by_cases hw : (Pointer.elementCount t.tag).toNat <
        ElementLayout.stride (Pointer.dataWords header) (Pointer.pointerWords header) *
          (Pointer.tagCount header).toNat
    · rw [if_pos hw]
      exact ⟨fun h => (by cases h), fun h => absurd hw (Nat.not_lt.2 h.2.1)⟩
    · rw [if_neg hw, bind_eq_ok_iff]
      constructor
      · rintro ⟨_, hc, hv⟩
        exact ⟨hk, Nat.le_of_not_lt hw, check_eq_ok_iff.1 hc, (Except.ok.inj hv).symm⟩
      · rintro ⟨_, _, hc, rfl⟩
        exact ⟨(), check_of_holds hc, rfl⟩
  · rw [if_pos hk]
    exact ⟨fun h => (by cases h), fun h => absurd h.1 hk⟩

theorem listAt_composite (h : ElementLayout.ofSize? (Pointer.elementSize t.tag) = none) :
    a.listAt t = a.compositeAt t := by rw [listAt, h]

theorem listAt_bare {l : ElementLayout} {v : ListView}
    (h : ElementLayout.ofSize? (Pointer.elementSize t.tag) = some l) : a.listAt t = .ok v ↔
      a.Holds (bareSpan t l) ∧ v = ⟨bareSpan t l, l, Pointer.elementCount t.tag⟩ := by
  have he : a.listAt t = a.check (bareSpan t l) >>= fun _ =>
      .ok ⟨bareSpan t l, l, Pointer.elementCount t.tag⟩ := by
    rw [listAt, h]
    rfl
  rw [he, bind_eq_ok_iff]
  constructor
  · rintro ⟨_, hc, hv⟩
    exact ⟨check_eq_ok_iff.1 hc, (Except.ok.inj hv).symm⟩
  · rintro ⟨hc, rfl⟩
    exact ⟨(), check_of_holds hc, rfl⟩

/-- A list is found behind its tag word, or it has none. -/
theorem listAt_cases {v : ListView} (h : a.listAt t = .ok v) :
    (Pointer.elementSize t.tag = .composite ∧ a.compositeAt t = .ok v) ∨
      ∃ l : ElementLayout, Pointer.elementSize t.tag = l.size ∧ l.size ≠ .composite ∧
        a.Holds (bareSpan t l) ∧ v = ⟨bareSpan t l, l, Pointer.elementCount t.tag⟩ := by
  cases hl : ElementLayout.ofSize? (Pointer.elementSize t.tag) with
  | none =>
    rw [listAt_composite hl] at h
    exact .inl ⟨ElementLayout.eq_composite_of_ofSize? hl, h⟩
  | some l =>
    obtain ⟨hsize, hplain⟩ := ElementLayout.of_ofSize? hl
    exact .inr ⟨l, hsize, hplain, (listAt_bare hl).1 h⟩

theorem objectAt_struct {tag : Word} (h : Pointer.kind tag = .struct) (segment word : Nat) :
    a.objectAt ⟨tag, segment, word⟩ = Target.struct <$> a.structAt ⟨tag, segment, word⟩ := by
  rw [objectAt, h]

theorem objectAt_list {tag : Word} (h : Pointer.kind tag = .list) (segment word : Nat) :
    a.objectAt ⟨tag, segment, word⟩ = Target.list <$> a.listAt ⟨tag, segment, word⟩ := by
  rw [objectAt, h]

theorem objectAt_cases {target : Target} (h : a.objectAt t = .ok target) :
    (∃ v, Pointer.kind t.tag = .struct ∧ a.structAt t = .ok v ∧ target = .struct v) ∨
      ∃ v, Pointer.kind t.tag = .list ∧ a.listAt t = .ok v ∧ target = .list v := by
  cases hk : Pointer.kind t.tag with
  | struct =>
    rw [objectAt_struct hk, map_eq_ok_iff] at h
    obtain ⟨v, hv, rfl⟩ := h
    exact .inl ⟨v, rfl, hv, rfl⟩
  | list =>
    rw [objectAt_list hk, map_eq_ok_iff] at h
    obtain ⟨v, hv, rfl⟩ := h
    exact .inr ⟨v, rfl, hv, rfl⟩
  | far => rw [objectAt, hk] at h; cases h
  | capability => rw [objectAt, hk] at h; cases h

theorem nearPlace_of_target {p : Word} {word target : Nat}
    (h : Pointer.target? p word = some target) (segment : Nat) :
    nearPlace segment word p = .ok ⟨p, segment, target⟩ := by
  unfold nearPlace
  rw [h]

theorem place_near {p : Word} (hk : Pointer.kind p = .struct ∨ Pointer.kind p = .list)
    (segment : Nat) {word target : Nat} (ht : Pointer.target? p word = some target) :
    a.place segment word p = .ok ⟨p, segment, target⟩ := by
  have hnear := nearPlace_of_target ht segment
  unfold place
  rcases hk with hk | hk
  · rw [hk]
    exact hnear
  · rw [hk]
    exact hnear

theorem place_far {p pad : Word} (hk : Pointer.kind p = .far) (hd : Pointer.isDouble p = false)
    (hr : a.readWord (Pointer.segment p) (Pointer.padWord p) = .ok pad)
    (hp : Pointer.kind pad = .struct ∨ Pointer.kind pad = .list) (segment word : Nat)
    {target : Nat} (ht : Pointer.target? pad (Pointer.padWord p) = some target) :
    a.place segment word p = .ok ⟨pad, Pointer.segment p, target⟩ := by
  have hne : Pointer.kind pad ≠ .far := by rcases hp with hp | hp <;> rw [hp] <;> decide
  have hf : a.farPlace p = nearPlace (Pointer.segment p) (Pointer.padWord p) pad := by
    simp only [farPlace, hr, hd]
    exact if_neg hne
  unfold place
  rw [hk]
  exact hf.trans (nearPlace_of_target ht _)

end Arena

end FrozenDefaults
