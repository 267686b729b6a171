import FrozenDefaults.Proofs.Omission

/-!
# Additions commute

Additions that all succeed also do so in any other order, and into a catalog with
any other capacity. Each order fills the arena in its own way, but whatever is kept
has the same image.
-/

namespace FrozenDefaults

open Arena

namespace Catalog

variable {world : World} {c : Catalog world} {table more : List (String × Content)}
  {calls : List (String × Arena × Descriptor)}

/-- What a call adds if it succeeds. -/
def Yields (limit : Nat) (call : String × Arena × Descriptor) (k : String × Content) : Prop :=
  call.1 = k.1 ∧ call.2.1.describe limit call.2.2 = .ok k.2

theorem Sealed.addEach (h : c.Sealed table)
    (hy : List.Forall₂ (Yields c.nestingLimit) calls more)
    (hnodup : ((table ++ more).map Prod.fst).Nodup) :
    (∀ r ∈ (c.addEach calls).1, r = .ok ()) ∧ (c.addEach calls).2.Sealed (table ++ more) := by
  induction calls generalizing c table more with
  | nil =>
    cases hy
    exact ⟨fun r hr => (by cases hr), (List.append_nil table).symm ▸ h⟩
  | cons call calls ih =>
    cases hy with
    | @cons _ k _ more hk hy =>
      obtain ⟨ident, source, d⟩ := call
      obtain ⟨rfl, hd⟩ := hk
      have hi := not_mem_of_nodup hnodup
      rw [List.append_cons] at hnodup ⊢
      obtain ⟨hok, hsealed⟩ := ih (h.enter hi (describe_fits hd)) hy hnodup
      rw [Catalog.addEach, h.add_ok hi hd]
      exact ⟨List.forall_mem_cons.2 ⟨rfl, hok⟩, hsealed⟩

end Catalog

end FrozenDefaults
