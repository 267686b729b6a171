import FrozenDefaults.Catalog
import FrozenDefaults.Proofs.Lexing

/-!
# Identifiers

A field has an identifier if its name is made of letters, digits and underscores.
The node and the field can be read back from the identifier, so that no two
fields share one.
-/

namespace FrozenDefaults

namespace Catalog

/-- The names that a field can have in an identifier. -/
def IsFieldName (field : String) : Prop :=
  field ≠ "" ∧ ∀ c ∈ field.toList,
    ('a' ≤ c ∧ c ≤ 'z') ∨ ('A' ≤ c ∧ c ≤ 'Z') ∨ ('0' ≤ c ∧ c ≤ '9') ∨ c = '_'

theorem isIdentChar_iff {c : Char} : isIdentChar c = true ↔
    ('a' ≤ c ∧ c ≤ 'z') ∨ ('A' ≤ c ∧ c ≤ 'Z') ∨ ('0' ≤ c ∧ c ≤ '9') ∨ c = '_' := by
  have h : isIdentChar c = (decide ('A' ≤ c ∧ c ≤ 'Z') || (decide ('a' ≤ c) && decide (c ≤ 'z')) ||
      (decide ('0' ≤ c) && decide (c ≤ '9')) || c == '_') := rfl
  simp only [h, Bool.or_eq_true, Bool.and_eq_true, decide_eq_true_eq, beq_iff_eq]
  rw [or_comm (a := 'A' ≤ c ∧ c ≤ 'Z'), or_assoc, or_assoc]

theorem isFieldName_iff {field : String} : isFieldName field = true ↔ IsFieldName field := by
  rw [isFieldName, Bool.and_eq_true, decide_eq_true_eq, List.all_eq_true]
  exact and_congr_right fun _ => forall₂_congr fun _ _ => isIdentChar_iff

theorem ident_eq_ok_iff {node : Nat} {field ident : String} : Catalog.ident node field = .ok ident ↔
    IsFieldName field ∧ ident = s!"default_value_{node}_{field}" := by
  rw [← isFieldName_iff, Catalog.ident]
  split
  · rename_i h
    exact ⟨fun he => ⟨h, (Except.ok.inj he).symm⟩, fun he => by rw [he.2]⟩
  · rename_i h
    exact ⟨fun he => (by cases he), fun he => absurd he.1 h⟩

theorem ident_eq_error_iff {node : Nat} {field : String} {f : Fault} :
    Catalog.ident node field = .error f ↔ ¬ IsFieldName field ∧ f = .invalidField node field := by
  rw [← isFieldName_iff, Catalog.ident]
  split
  · rename_i h
    exact ⟨fun he => (by cases he), fun he => absurd h he.1⟩
  · rename_i h
    exact ⟨fun he => ⟨h, (Except.error.inj he).symm⟩, fun he => by rw [he.2]⟩

theorem toList_ident (node : Nat) (field : String) : (s!"default_value_{node}_{field}").toList =
    "default_value_".toList ++ (node.repr.toList ++ ("_".toList ++ field.toList)) := by
  simp only [String.toList_append, List.append_assoc]
  rfl

/-- The first underscore behind the number of the node ends it. -/
theorem ident_injective {node node' : Nat} {field field' ident : String}
    (h : Catalog.ident node field = .ok ident) (h' : Catalog.ident node' field' = .ok ident) :
    node = node' ∧ field = field' := by
  obtain ⟨_, rfl⟩ := ident_eq_ok_iff.1 h
  obtain ⟨_, heq⟩ := ident_eq_ok_iff.1 h'
  have hlist := congrArg String.toList heq
  rw [toList_ident, toList_ident] at hlist
  have hread := Reading.number?_append node "_" (by decide) field.toList
  rw [List.append_cancel_left hlist, Reading.number?_append node' "_" (by decide) field'.toList,
    Option.some.injEq, Prod.mk.injEq] at hread
  exact ⟨hread.1.symm, (String.toList_inj.1 (List.append_cancel_left hread.2)).symm⟩

end Catalog

end FrozenDefaults
