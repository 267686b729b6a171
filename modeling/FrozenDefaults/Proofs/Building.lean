import FrozenDefaults.Proofs.Stored

/-!
# Steps that build what is read

A copy reads the source and writes the destination in turns. `Realizes m a R r
done` pulls the two apart: run in `a`, the step `m` fails with the fault of `r`,
or it does what `done` says with the result of `r`. Either way, of the places in
use before, it changes those with `R` alone.
-/

namespace FrozenDefaults

theorem Arena.place_eq (a : Arena) (slot : Span) (n : Nat) :
    DeepCopy.place slot n a = (.ok (a.makeRoom slot n).1, (a.makeRoom slot n).2) := by
  cases h : a.allocIn slot.segment n with
  | mk r b =>
    cases r with
    | some r => simp only [DeepCopy.place, Arena.makeRoom, h]
    | none =>
      obtain ⟨r, c, hr⟩ : ∃ r c, b.alloc (n + bytesPerWord) = (r, c) := ⟨_, _, rfl⟩
      have hl : r.length = roundUp (n + bytesPerWord) := by
        have hf := Arena.fresh_alloc b (n + bytesPerWord)
        rw [hr] at hf
        exact hf.length
      have hle : bytesPerWord ≤ r.length := hl ▸ (Nat.le_add_left _ _).trans (le_roundUp _)
      have hcontent : r.part bytesPerWord (r.length - bytesPerWord) =
          .ok ⟨r.segment, r.start + bytesPerWord, r.length - bytesPerWord⟩ :=
        Span.part_eq_ok (by omega)
      have hpad : r.word 0 = .ok ⟨r.segment, r.start, bytesPerWord⟩ := by
        rw [Span.word, Nat.zero_mul, Span.part_eq_ok (by omega), Nat.add_zero]
      simp only [DeepCopy.place, Arena.makeRoom, h, hr, hcontent, hpad]

namespace Building

open Arena (Grows)

variable {α β γ δ : Type} {m : Building β} {k : β → Building γ} {a b : Arena}

theorem bind_ok {x : β} (h : m a = (.ok x, b)) : (m >>= k) a = k x b := by
  show ExceptT.bindCont k (m a).1 (m a).2 = _
  rw [h]
  rfl

theorem bind_error {f : Fault} (h : m a = (.error f, b)) : (m >>= k) a = (.error f, b) := by
  show ExceptT.bindCont k (m a).1 (m a).2 = _
  rw [h]
  rfl

theorem run_eq {x : β} (h : (m a).1 = .ok x) : m a = (.ok x, (m a).2) := Prod.ext h rfl

theorem lift_ok {e : Except Fault β} {x : β} (h : e = .ok x) :
    (liftExcept e : Building β) a = (.ok x, a) := by rw [h]; rfl

theorem lift_error {e : Except Fault β} {f : Fault} (h : e = .error f) :
    (liftExcept e : Building β) a = (.error f, a) := by rw [h]; rfl

theorem write_of_holds {s : Span} {bs : List UInt8} (h : a.Holds s) (hl : bs.length = s.length) :
    write s bs a = (.ok (), a.patch s bs) := by
  have hget : (get : Building Arena) a = (.ok a, a) := rfl
  rw [write, bind_ok hget, bind_ok (lift_ok (Arena.check_of_holds h)), if_pos hl]
  rfl

theorem writeWord_of_hasSlot {slot : Span} (h : a.HasSlot slot) (w : Word) :
    writeWord slot.segment slot.startWord w a = (.ok (), a.putWord slot w) := by
  rw [writeWord, h.wordSpan_eq, write_of_holds h.holds (by rw [Word.length_toBytes, h.length])]
  rfl

structure Realizes (m : Building β) (a : Arena) (R : Nat → Nat → Prop) (r : Except Fault α)
    (done : α → β × Arena) : Prop where
  ok : ∀ x, r = .ok x → m a = (.ok (done x).1, (done x).2)
  error : ∀ f, r = .error f → (m a).1 = .error f
  keeps : Grows (fun s i => ¬ R s i) a (m a).2

namespace Realizes

variable {R R' : Nat → Nat → Prop} {r : Except Fault α} {done : α → β × Arena}
  {done' : δ → γ × Arena}

theorem pure {x : α} {y : β} (hd : done x = (y, a)) : Realizes (Pure.pure y) a R (.ok x) done where
  ok z h := by
    obtain rfl := Except.ok.inj h
    rw [hd]
    rfl
  error f h := by cases h
  keeps := .refl _ a

theorem of_ok {x : α} (h : m a = (.ok (done x).1, (done x).2))
    (hk : Grows (fun s i => ¬ R s i) a (done x).2) : Realizes m a R (.ok x) done where
  ok z hz := Except.ok.inj hz ▸ h
  error f hf := by cases hf
  keeps := by
    rw [h]
    exact hk

theorem widen (h : Realizes m a R r done) (hr : ∀ s i, R s i → R' s i ∨ a.usedIn s ≤ i) :
    Realizes m a R' r done where
  ok := h.ok
  error := h.error
  keeps := h.keeps.mono fun s i hn hi hR => (hr s i hR).elim hn (Nat.not_le.2 hi)

theorem bind (h : Realizes m a R r done) {r' : α → Except Fault δ}
    (hk : ∀ x, r = .ok x → Realizes (k (done x).1) (done x).2 R (r' x) done') :
    Realizes (m >>= k) a R (r >>= r') done' := by
  cases r with
  | ok x =>
    have hm := h.ok x rfl
    have hg := h.keeps
    rw [hm] at hg
    refine ⟨fun y hy => ?_, fun f hf => ?_, ?_⟩
    · rw [bind_ok hm]
      exact (hk x rfl).ok y hy
    · rw [bind_ok hm]
      exact (hk x rfl).error f hf
    · rw [bind_ok hm]
      exact hg.trans (hk x rfl).keeps
  | error f =>
    have hb : m a = (.error f, (m a).2) := Prod.ext (h.error f rfl) rfl
    refine ⟨fun y hy => (by cases hy), fun g hg => ?_, ?_⟩
    · obtain rfl : f = g := Except.error.inj hg
      rw [bind_error hb]
    · rw [bind_error hb]
      exact h.keeps

/-- Steps behind the last one that can fail. -/
theorem finish (h : Realizes m a R r done) {done' : α → γ × Arena}
    (hk : ∀ x, r = .ok x → Realizes (k (done x).1) (done x).2 R (.ok x) done') :
    Realizes (m >>= k) a R r done' := by
  have hb : Realizes (m >>= k) a R (r >>= .ok) done' := h.bind hk
  cases r with
  | ok x => exact hb
  | error f => exact hb

/-- A step that succeeds whatever the source is. -/
theorem step {x : β} (h : m a = (.ok x, b)) (hg : Grows (fun s i => ¬ R s i) a b)
    {s : Except Fault δ} (hk : Realizes (k x) b R s done') : Realizes (m >>= k) a R s done' where
  ok y hy := by
    rw [bind_ok h]
    exact hk.ok y hy
  error f hf := by
    rw [bind_ok h]
    exact hk.error f hf
  keeps := by
    rw [bind_ok h]
    exact hg.trans hk.keeps

theorem lift {e : Except Fault β} {x : β} (h : e = .ok x) {s : Except Fault δ}
    (hk : Realizes (k x) a R s done') : Realizes (liftExcept e >>= k) a R s done' :=
  .step (lift_ok h) (.refl _ a) hk

theorem of_read (e : Except Fault β) :
    Realizes (liftExcept e) a R e fun x => (x, a) := by
  refine ⟨fun x h => lift_ok h, fun f h => ?_, ?_⟩
  · rw [lift_error h]
  · cases e <;> exact .refl _ a

theorem read {e : Except Fault β} {r' : β → Except Fault δ}
    (hk : ∀ x, e = .ok x → Realizes (k x) a R (r' x) done') :
    Realizes (liftExcept e >>= k) a R (e >>= r') done' :=
  (of_read e).bind hk

theorem map (h : Realizes m a R r done) (g : α → δ) {done' : δ → β × Arena}
    (hd : ∀ x, r = .ok x → done' (g x) = done x) :
    Realizes m a R (r >>= fun x => .ok (g x)) done' := by
  cases r with
  | ok x =>
    refine ⟨fun y hy => ?_, fun f hf => (by cases hf), h.keeps⟩
    obtain rfl : g x = y := Except.ok.inj hy
    rw [hd x rfl]
    exact h.ok x rfl
  | error f =>
    exact ⟨fun y hy => (by cases hy), fun g hg => h.error g (Except.error.inj hg ▸ rfl), h.keeps⟩

end Realizes

end Building

end FrozenDefaults
