import FrozenDefaults.Proofs.ReadBack

/-!
# Reading at another depth

What is read depends neither on the nesting limit nor on the levels that are
left of it, as long as they are enough for the value. So it can be said without
a limit what a slot means and what a descriptor describes.
-/

namespace FrozenDefaults

theorem Value.Fits.mono {m n : Nat} {v : Value} (h : v.Fits m) (hmn : m ≤ n) : v.Fits n := by
  induction h generalizing n with
  | null => exact .null
  | object linkable fills _ ih =>
    cases n with
    | zero => exact absurd hmn (Nat.not_succ_le_zero _)
    | succ n =>
      have hmn := Nat.le_of_succ_le_succ hmn
      exact .object linkable fills fun part hp v hv => ih part hp v hv hmn

theorem Content.Fits.mono {m n : Nat} {content : Content} (h : content.Fits m) (hmn : m ≤ n) :
    content.Fits n := by
  cases h with
  | object fills block slots =>
    exact .object fills block fun part hp v hv => (slots part hp v hv).mono hmn
  | pointer fits => exact .pointer (fits.mono hmn)

theorem collect_imp {α : Type} {step step' : Nat → Except Fault α} {first count : Nat}
    {xs : List α} (hs : ∀ i, first ≤ i → i < first + count → ∀ x ∈ xs, step i = .ok x →
      step' i = .ok x) (h : collect step first count = .ok xs) :
    collect step' first count = .ok xs := by
  induction count generalizing first xs with
  | zero => exact h
  | succ count ih =>
    obtain ⟨x, hx, h⟩ := bind_eq_ok_iff.1 h
    obtain ⟨ys, hys, h⟩ := bind_eq_ok_iff.1 h
    obtain rfl : x :: ys = xs := Except.ok.inj h
    have hfirst := hs first (Nat.le_refl _) (by omega) x List.mem_cons_self hx
    have hrest := ih (fun i hi hi' y hy => hs i (by omega) (by omega) y
      (List.mem_cons_of_mem x hy)) hys
    exact bind_eq_ok_iff.2 ⟨x, hfirst, bind_eq_ok_iff.2 ⟨ys, hrest, rfl⟩⟩

namespace Arena

variable {a : Arena}

section Reader

variable {value value' : Span → Except Fault Value} {P : Value → Prop}
  (hv : ∀ s v, P v → value s = .ok v → value' s = .ok v)
include hv

theorem slotsOf_imp {s : Span} {count : Nat} {vs : List Value} (hp : ∀ v ∈ vs, P v)
    (h : slotsOf value s count = .ok vs) : slotsOf value' s count = .ok vs := by
  refine collect_imp (fun i _ _ v hm hi => ?_) h
  obtain ⟨t, ht, hval⟩ := bind_eq_ok_iff.1 hi
  exact bind_eq_ok_iff.2 ⟨t, ht, hv t v (hp v hm) hval⟩

theorem partOf_imp {v : StructView} {d p : Nat} {part : Part Value} (hp : ∀ w ∈ part.slots, P w)
    (h : a.partOf value v d p = .ok part) : a.partOf value' v d p = .ok part := by
  obtain ⟨data, hdata, h⟩ := bind_eq_ok_iff.1 h
  obtain ⟨there, hthere, h⟩ := bind_eq_ok_iff.1 h
  obtain ⟨vs, hvs, h⟩ := bind_eq_ok_iff.1 h
  obtain rfl : ⟨data, vs⟩ = part := Except.ok.inj h
  exact bind_eq_ok_iff.2 ⟨data, hdata, bind_eq_ok_iff.2 ⟨there, hthere,
    bind_eq_ok_iff.2 ⟨vs, slotsOf_imp hv hp hvs, rfl⟩⟩⟩

theorem listParts_imp {v : ListView} {parts : List (Part Value)}
    (hp : ∀ part ∈ parts, ∀ w ∈ part.slots, P w) (h : a.listParts value v = .ok parts) :
    a.listParts value' v = .ok parts := by
  rcases v.layout.trichotomy with hl | ⟨d, p, hl⟩ | hl
  · rw [listParts, hl] at h ⊢
    obtain ⟨vs, hvs, h⟩ := bind_eq_ok_iff.1 h
    obtain rfl : [⟨[], vs⟩] = parts := Except.ok.inj h
    exact bind_eq_ok_iff.2 ⟨vs, slotsOf_imp hv (hp _ List.mem_cons_self) hvs, rfl⟩
  · rw [listParts, hl] at h ⊢
    refine collect_imp (fun i _ _ part hm hi => ?_) h
    obtain ⟨t, ht, hpart⟩ := bind_eq_ok_iff.1 hi
    exact bind_eq_ok_iff.2 ⟨t, ht, partOf_imp hv (hp part hm) hpart⟩
  · rwa [listParts_bare hl] at h ⊢

theorem targetOf_imp {t : Target} {shape : Shape} {parts : List (Part Value)}
    (hp : ∀ part ∈ parts, ∀ w ∈ part.slots, P w)
    (h : a.targetOf value t = .ok (.object shape parts)) :
    a.targetOf value' t = .ok (.object shape parts) := by
  cases t with
  | struct v =>
    obtain ⟨part, hpart, h⟩ := bind_eq_ok_iff.1 h
    obtain ⟨rfl, rfl⟩ := Value.object.inj (Except.ok.inj h)
    exact bind_eq_ok_iff.2 ⟨part, partOf_imp hv (hp part List.mem_cons_self) hpart, rfl⟩
  | list v =>
    obtain ⟨parts', hparts, h⟩ := bind_eq_ok_iff.1 h
    obtain ⟨rfl, rfl⟩ := Value.object.inj (Except.ok.inj h)
    exact bind_eq_ok_iff.2 ⟨parts', listParts_imp hv hp hparts, rfl⟩

end Reader

theorem targetOf_ne_null {value : Span → Except Fault Value} {t : Target} :
    a.targetOf value t ≠ .ok .null := by
  intro h
  cases t with
  | struct v =>
    obtain ⟨_, _, h⟩ := bind_eq_ok_iff.1 h
    cases h
  | list v =>
    obtain ⟨_, _, h⟩ := bind_eq_ok_iff.1 h
    cases h

theorem valueAt_null {limit room : Nat} {slot : Span} {w : Word}
    (hc : DeepCopy.checkSlot slot = .ok ())
    (hw : a.readWord slot.segment slot.startWord = .ok w) (hn : Pointer.isNull w = true) :
    a.valueAt limit room slot = .ok .null := by
  cases room <;> exact wordValue_eq_ok_iff.2 ⟨hc, w, hw, .inl ⟨hn, rfl⟩⟩

theorem valueAt_of_fits {limit limit' room room' : Nat} {slot : Span} {v : Value}
    (hf : v.Fits room') (h : a.valueAt limit room slot = .ok v) :
    a.valueAt limit' room' slot = .ok v := by
  -- An object takes one level, and its slots are read with one level less.
  induction room generalizing room' slot v with
  | zero =>
    obtain ⟨hc, w, hw, ⟨hn, rfl⟩ | ⟨_, h⟩⟩ := wordValue_eq_ok_iff.1 h
    · exact valueAt_null hc hw hn
    · cases h
  | succ room ih =>
    obtain ⟨hc, w, hw, ⟨hn, rfl⟩ | ⟨hn, h⟩⟩ := wordValue_eq_ok_iff.1 h
    · exact valueAt_null hc hw hn
    · obtain ⟨t, ht, h⟩ := bind_eq_ok_iff.1 h
      cases hf with
      | null => exact absurd h targetOf_ne_null
      | @object room' _ _ _ _ slots =>
        have htarget := targetOf_imp (fun _ _ hw hs => ih hw hs) slots h
        exact wordValue_eq_ok_iff.2 ⟨hc, w, hw, .inr ⟨hn, bind_eq_ok_iff.2 ⟨t, ht, htarget⟩⟩⟩

theorem describe_fits {limit : Nat} {d : Descriptor} {content : Content}
    (h : a.describe limit d = .ok content) : content.Fits limit := by
  cases d with
  | struct v =>
    obtain ⟨d, hd, h⟩ := bind_eq_ok_iff.1 h
    obtain ⟨p, hp, h⟩ := bind_eq_ok_iff.1 h
    obtain ⟨_, hb, h⟩ := bind_eq_ok_iff.1 h
    obtain ⟨part, hpart, h⟩ := bind_eq_ok_iff.1 h
    obtain rfl : Content.object (.struct d p) [part] = content := Except.ok.inj h
    obtain ⟨hal, rfl⟩ := Span.wordCount_eq_ok_iff.1 hd
    obtain ⟨_, rfl⟩ := Span.wordCount_eq_ok_iff.1 hp
    obtain ⟨_, hdata, hslots, hread⟩ := partOf_eq_ok hpart
    rw [Nat.div_mul_cancel (Nat.dvd_of_mod_eq_zero hal.1), Nat.min_self] at hdata
    rw [Nat.min_self] at hslots
    have hd := hdata.trans (Nat.div_mul_cancel (Nat.dvd_of_mod_eq_zero hal.1)).symm
    apply Content.Fits.of_part hb hd hslots
    intro w hw
    obtain ⟨s, hs⟩ := hread w hw
    exact valueAt_fits hs
  | list v =>
    obtain ⟨_, _, h⟩ := bind_eq_ok_iff.1 h
    obtain ⟨parts, hparts, h⟩ := bind_eq_ok_iff.1 h
    obtain rfl : Content.object _ parts = content := Except.ok.inj h
    exact .of_listParts hparts
  | pointer slot =>
    obtain ⟨v, hv, rfl⟩ := map_eq_ok_iff.1 h
    exact .pointer (valueAt_fits hv)

/-- What a descriptor describes under one limit it describes under any limit that is enough. -/
theorem describe_of_fits {limit limit' : Nat} {d : Descriptor} {content : Content}
    (hf : content.Fits limit') (h : a.describe limit d = .ok content) :
    a.describe limit' d = .ok content := by
  have hv (s : Span) (v : Value) (hv : v.Fits limit') (hs : a.valueAt limit limit s = .ok v) :
      a.valueAt limit' limit' s = .ok v := valueAt_of_fits hv hs
  cases d with
  | struct v =>
    obtain ⟨d, hd, h⟩ := bind_eq_ok_iff.1 h
    obtain ⟨p, hp, h⟩ := bind_eq_ok_iff.1 h
    obtain ⟨_, hb, h⟩ := bind_eq_ok_iff.1 h
    obtain ⟨part, hpart, h⟩ := bind_eq_ok_iff.1 h
    obtain rfl : Content.object (.struct d p) [part] = content := Except.ok.inj h
    cases hf with
    | object _ _ slots =>
      exact bind_eq_ok_iff.2 ⟨d, hd, bind_eq_ok_iff.2 ⟨p, hp, bind_eq_ok_iff.2 ⟨(), hb,
        bind_eq_ok_iff.2 ⟨part, partOf_imp hv (slots part List.mem_cons_self) hpart, rfl⟩⟩⟩⟩
  | list v =>
    obtain ⟨_, hvalid, h⟩ := bind_eq_ok_iff.1 h
    obtain ⟨parts, hparts, h⟩ := bind_eq_ok_iff.1 h
    obtain rfl : Content.object (.list v.layout v.count) parts = content := Except.ok.inj h
    cases hf with
    | object _ _ slots =>
      exact bind_eq_ok_iff.2 ⟨(), hvalid, bind_eq_ok_iff.2 ⟨parts,
        listParts_imp hv slots hparts, rfl⟩⟩
  | pointer slot =>
    obtain ⟨v, hslot, rfl⟩ := map_eq_ok_iff.1 h
    cases hf with
    | pointer fits => exact map_eq_ok_iff.2 ⟨v, valueAt_of_fits fits hslot, rfl⟩

/-- The slot has the value, under some limit. -/
def Means (a : Arena) (slot : Span) (v : Value) : Prop := ∃ limit, a.valueAt limit limit slot = .ok v

/-- The descriptor describes the content, under some limit. -/
def Describes (a : Arena) (d : Descriptor) (content : Content) : Prop :=
  ∃ limit, a.describe limit d = .ok content

theorem Means.valueAt {slot : Span} {v : Value} (h : a.Means slot v) {limit : Nat}
    (hf : v.Fits limit) : a.valueAt limit limit slot = .ok v := by
  obtain ⟨_, h⟩ := h
  exact valueAt_of_fits hf h

theorem Means.unique {slot : Span} {v w : Value} (hv : a.Means slot v) (hw : a.Means slot w) :
    v = w := by
  obtain ⟨m, hm⟩ := id hv
  obtain ⟨n, hn⟩ := id hw
  have hv := hv.valueAt ((valueAt_fits hm).mono (Nat.le_max_left m n))
  have hw := hw.valueAt ((valueAt_fits hn).mono (Nat.le_max_right m n))
  exact Except.ok.inj (hv.symm.trans hw)

theorem Describes.describe {d : Descriptor} {content : Content} (h : a.Describes d content)
    {limit : Nat} (hf : content.Fits limit) : a.describe limit d = .ok content := by
  obtain ⟨_, h⟩ := h
  exact describe_of_fits hf h

theorem Describes.unique {d : Descriptor} {x y : Content} (hx : a.Describes d x)
    (hy : a.Describes d y) : x = y := by
  obtain ⟨m, hm⟩ := id hx
  obtain ⟨n, hn⟩ := id hy
  have hx := hx.describe ((describe_fits hm).mono (Nat.le_max_left m n))
  have hy := hy.describe ((describe_fits hn).mono (Nat.le_max_right m n))
  exact Except.ok.inj (hx.symm.trans hy)

end Arena

end FrozenDefaults
