import FrozenDefaults.Proofs.Identifiers
import FrozenDefaults.Proofs.Manifests

/-!
# Which manifests have a catalog

A manifest has a catalog if its source can be read and each entry is in order:
its field is a name, no entry before it has its node and its field, and an empty
catalog would take its payload. What the other payloads are does not matter.
The first entry that is not in order says why there is no catalog.
-/

namespace FrozenDefaults

open Arena

namespace Manifest

def Entry.key (e : Entry) : Nat × String := (e.node, e.field)

section Order

variable {world : World} (source : Arena) (fresh : Catalog world)

/-- All entries are in order. -/
structure Accepted (entries : List Entry) : Prop where
  fields : ∀ e ∈ entries, Catalog.IsFieldName e.field
  distinct : (entries.map Entry.key).Nodup
  payloads : ∀ e ∈ entries, ∀ ident, (fresh.add ident source e.payload).1 = .ok ()

/-- Why an entry is not in order that stands behind others. -/
inductive Refused (before : List Entry) (e : Entry) : Failure → Prop
  | field (h : ¬ Catalog.IsFieldName e.field) :
      Refused before e (.ofFault (.invalidField e.node e.field))
  | duplicate {ident : String} (hi : Catalog.ident e.node e.field = .ok ident)
      (h : e.key ∈ before.map Entry.key) :
      Refused before e (unregistered ident (.duplicateIdent ident))
  | payload {ident : String} {f : Fault} (hi : Catalog.ident e.node e.field = .ok ident)
      (hn : e.key ∉ before.map Entry.key) (h : (fresh.add ident source e.payload).1 = .error f) :
      Refused before e (unregistered ident f)

end Order

/-- The identifiers of entries. -/
def Named (entries : List Entry) (idents : List String) : Prop :=
  List.Forall₂ (fun e i => Catalog.ident e.node e.field = .ok i) entries idents

variable {world : World} {capacity limit : Nat} {source : Arena} {before entries : List Entry}
  {taken : List String} {e : Entry} {ident : String}

theorem Named.mem_iff (h : Named before taken) (hi : Catalog.ident e.node e.field = .ok ident) :
    ident ∈ taken ↔ e.key ∈ before.map Entry.key := by
  induction h with
  | nil => simp
  | @cons e' i _ _ hi' _ ih =>
    have hkey : ident = i ↔ e.key = e'.key := by
      constructor
      · rintro rfl
        obtain ⟨hn, hf⟩ := Catalog.ident_injective hi hi'
        exact Prod.ext hn hf
      · intro hk
        obtain ⟨hn, hf⟩ := Prod.mk.inj hk
        rw [hn, hf, hi'] at hi
        exact (Except.ok.inj hi).symm
    rw [List.mem_cons, List.map_cons, List.mem_cons, hkey, ih]

theorem add_new_fst (ident : String) (source : Arena) (d : Descriptor) :
    ((Catalog.new world capacity limit).add ident source d).1 =
      (source.describe limit d).map fun _ => () := by
  rw [Catalog.add_fst (tight_withCapacity capacity).toSound]
  exact if_neg List.not_mem_nil

theorem add_new_error_iff {d : Descriptor} {f : Fault} :
    ((Catalog.new world capacity limit).add ident source d).1 = .error f ↔
      source.describe limit d = .error f := by
  rw [add_new_fst]
  cases source.describe limit d with
  | ok content => exact ⟨fun h => (by cases h), fun h => (by cases h)⟩
  | error g =>
    exact ⟨fun h => congrArg _ (Except.error.inj h), fun h => congrArg _ (Except.error.inj h)⟩

theorem Refused.reading {f : Failure} (hb : Named before taken)
    (h : Refused source (.new world capacity limit) before e f) :
    Manifest.reading source limit taken e = .error f := by
  unfold Manifest.reading
  cases h with
  | field hf => rw [Catalog.ident_eq_error_iff.2 ⟨hf, rfl⟩]
  | duplicate hi hk =>
    rw [hi]
    exact if_pos ((hb.mem_iff hi).2 hk)
  | payload hi hn hp =>
    rw [hi]
    simp only [if_neg (mt (hb.mem_iff hi).1 hn), add_new_error_iff.1 hp]

theorem Accepted.left {fresh : Catalog world} (h : Accepted source fresh (before ++ entries)) :
    Accepted source fresh before where
  fields e he := h.fields e (List.mem_append_left _ he)
  distinct := (List.map_append ▸ h.distinct).of_append_left
  payloads e he := h.payloads e (List.mem_append_left _ he)

section Lists

end Lists

section Catalogs

variable (m : Manifest) (s : Settings) (world : World) (capacity : Nat)

end Catalogs

/-- A pointer to a list of three bytes, which is kept as a pointer, as a list and in a struct. -/
def sample : Manifest where
  options := .none
  segments := ["010000001a000000" ++ "6162630000000000"]
  entries := [⟨1, "p", .pointer ⟨0, 0, 8⟩⟩, ⟨1, "l", .list ⟨⟨0, 8, 8⟩, .bytes1, 3⟩⟩,
    ⟨12, "l", .struct ⟨⟨0, 8, 8⟩, ⟨0, 0, 8⟩⟩⟩]

/-- Narrow lines, and a first segment of one word. -/
def sampleSettings : Settings := ⟨"rt", 5, 8, 64⟩

end Manifest

end FrozenDefaults
