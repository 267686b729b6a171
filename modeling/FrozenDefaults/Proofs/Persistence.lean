import FrozenDefaults.Proofs.Depth

/-!
# Reading grown arenas

What is read in an arena is read again after the arena has grown, whatever it
holds then behind the places that were in use. A reading that failed may succeed
later, so only what a reading gives is kept.
-/

namespace FrozenDefaults

/-- What the first reading gives, the second gives as well. -/
def Persists {α : Type} (x y : Except Fault α) : Prop := ∀ v, x = .ok v → y = .ok v

namespace Persists

variable {α β : Type} {x y : Except Fault α} {f g : α → Except Fault β}

theorem refl (x : Except Fault α) : Persists x x := fun _ h => h

theorem bind (h : Persists x y) (hk : ∀ v, Persists (f v) (g v)) :
    Persists (x >>= f) (y >>= g) := by
  intro w hw
  obtain ⟨v, hv, hw⟩ := bind_eq_ok_iff.1 hw
  exact bind_eq_ok_iff.2 ⟨v, h v hv, hk v w hw⟩

theorem map (h : Persists x y) (k : α → β) : Persists (k <$> x) (k <$> y) := by
  intro w hw
  obtain ⟨v, hv, hw⟩ := map_eq_ok_iff.1 hw
  exact map_eq_ok_iff.2 ⟨v, h v hv, hw⟩

theorem collect {step step' : Nat → Except Fault α} (h : ∀ i, Persists (step i) (step' i))
    (first count : Nat) : Persists (collect step first count) (collect step' first count) :=
  fun _ hxs => collect_imp (fun i _ _ v _ => h i v) hxs

end Persists

namespace Arena.Grows

variable {a b : Arena} (h : Grows (fun _ _ => True) a b)
include h

theorem persists_check (s : Span) : Persists (a.check s) (b.check s) :=
  fun _ hs => check_of_holds (h.holds (check_eq_ok_iff.1 hs))

theorem persists_read (s : Span) : Persists (a.read s) (b.read s) :=
  fun _ hs => h.read hs fun _ _ => trivial

theorem persists_readWord (segment word : Nat) :
    Persists (a.readWord segment word) (b.readWord segment word) :=
  (h.persists_read _).bind fun _ => .refl _

section Pointers

theorem persists_farPlace (p : Word) : Persists (a.farPlace p) (b.farPlace p) := by
  apply (h.persists_readWord _ _).bind
  intro pad
  split
  · split
    · exact .refl _
    · exact (h.persists_readWord _ _).bind fun _ => .refl _
  · exact .refl _

theorem persists_place (segment word : Nat) (p : Word) :
    Persists (a.place segment word p) (b.place segment word p) := by
  unfold place
  split
  · exact .refl _
  · exact h.persists_farPlace p
  · exact .refl _
  · exact .refl _

theorem persists_compositeAt (t : Tagged) : Persists (a.compositeAt t) (b.compositeAt t) := by
  rw [compositeAt_eq, compositeAt_eq]
  apply (h.persists_readWord _ _).bind
  intro header
  split
  · exact .refl _
  · split
    · exact .refl _
    · exact (h.persists_check _).bind fun _ => .refl _

theorem persists_listAt (t : Tagged) : Persists (a.listAt t) (b.listAt t) := by
  unfold listAt
  split
  · exact h.persists_compositeAt t
  · exact (h.persists_check _).bind fun _ => .refl _

theorem persists_objectAt (t : Tagged) : Persists (a.objectAt t) (b.objectAt t) := by
  unfold objectAt
  split
  · exact ((h.persists_check _).bind fun _ => .refl _).map _
  · exact (h.persists_listAt t).map _
  · exact .refl _
  · exact .refl _

theorem persists_follow (segment word : Nat) (p : Word) :
    Persists (a.follow segment word p) (b.follow segment word p) :=
  (h.persists_place segment word p).bind h.persists_objectAt

end Pointers

section Values

theorem persists_dataOf (s : Span) (n : Nat) : Persists (a.dataOf s n) (b.dataOf s n) := by
  unfold dataOf
  split
  · exact (Persists.refl _).bind h.persists_read
  · exact .refl _

variable {value value' : Span → Except Fault Value} (hv : ∀ s, Persists (value s) (value' s))
include hv

omit h in
theorem persists_slotsOf (s : Span) (count : Nat) :
    Persists (slotsOf value s count) (slotsOf value' s count) :=
  .collect (fun _ => (Persists.refl _).bind hv) 0 count

theorem persists_partOf (v : StructView) (d p : Nat) :
    Persists (a.partOf value v d p) (b.partOf value' v d p) :=
  (h.persists_dataOf _ _).bind fun _ => (Persists.refl _).bind fun _ =>
    (persists_slotsOf hv _ _).bind fun _ => .refl _

theorem persists_listParts (v : ListView) :
    Persists (a.listParts value v) (b.listParts value' v) := by
  unfold listParts
  split
  · exact (persists_slotsOf hv _ _).bind fun _ => .refl _
  · exact .collect (fun _ => (Persists.refl _).bind fun _ => h.persists_partOf hv _ _ _) _ _
  · exact (h.persists_dataOf _ _).bind fun _ => .refl _

theorem persists_targetOf (t : Target) : Persists (a.targetOf value t) (b.targetOf value' t) := by
  cases t with
  | struct v => exact (h.persists_partOf hv v _ _).bind fun _ => .refl _
  | list v => exact (h.persists_listParts hv v).bind fun _ => .refl _

end Values

theorem persists_wordValue {beyond beyond' : Word → Except Fault Value}
    (hb : ∀ p, Persists (beyond p) (beyond' p)) (slot : Span) :
    Persists (a.wordValue beyond slot) (b.wordValue beyond' slot) := by
  apply (Persists.refl _).bind
  intro _
  apply (h.persists_readWord _ _).bind
  intro p
  split
  · exact .refl _
  · exact hb p

theorem persists_valueAt (limit room : Nat) (slot : Span) :
    Persists (a.valueAt limit room slot) (b.valueAt limit room slot) := by
  induction room generalizing slot with
  | zero => exact h.persists_wordValue (fun _ => .refl _) slot
  | succ room ih =>
    apply h.persists_wordValue
    intro p
    exact (h.persists_follow _ _ p).bind (h.persists_targetOf ih)

theorem persists_describe (limit : Nat) (d : Descriptor) :
    Persists (a.describe limit d) (b.describe limit d) := by
  have hv := h.persists_valueAt limit limit
  cases d with
  | struct v =>
    exact (Persists.refl _).bind fun _ => (Persists.refl _).bind fun _ =>
      (Persists.refl _).bind fun _ => (h.persists_partOf hv v _ _).bind fun _ => .refl _
  | list v =>
    exact (Persists.refl _).bind fun _ => (h.persists_listParts hv v).bind fun _ => .refl _
  | pointer slot => exact (hv slot).map _

end Arena.Grows

end FrozenDefaults
