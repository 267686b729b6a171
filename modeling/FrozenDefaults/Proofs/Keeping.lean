import FrozenDefaults.Catalog
import FrozenDefaults.Proofs.Depth
import FrozenDefaults.Proofs.Preservation
import Mathlib.Algebra.GroupWithZero.Nat
import Mathlib.Data.List.Forall2
import Mathlib.Data.List.Nodup

/-!
# What a catalog keeps

Every entry of a catalog that was filled by additions describes a content, and
goes on doing so in every arena that grows out of the catalog's. A failed
addition takes nothing away.
-/

namespace FrozenDefaults

open Arena

theorem grows_copyDescriptor {a : Arena} (ha : a.Sound) (source : Arena) (limit : Nat)
    (d : Descriptor) :
    Grows (fun _ _ => True) a (DeepCopy.copyDescriptor source limit d a).2 := by
  have hr : Building.Realizes (DeepCopy.copyDescriptor source limit d) a _ _ _ :=
    copyDescriptor_realizes d ha
  exact hr.keeps.spares

/-- The entry `e` was made for the content `k.2` under the identifier `k.1`. It describes that
content in every arena that grows out of this one, as long as this one is small enough. -/
structure Kept (limit : Nat) (a : Arena) (e : String × Descriptor) (k : String × Content) :
    Prop where
  ident : e.1 = k.1
  made : ∃ b, e.2 = (k.2.store b).1
  size : k.2.size ≤ a.totalSize
  described : a.totalSize < 2 ^ 32 → ∀ b, Grows (fun _ _ => True) a b →
    b.describe limit e.2 = .ok k.2

theorem Kept.grows {limit : Nat} {a b : Arena} {e : String × Descriptor} {k : String × Content}
    (h : Kept limit a e k) (hg : Grows (fun _ _ => True) a b) (hev : Evolves a b) :
    Kept limit b e k :=
  ⟨h.ident, h.made, h.size.trans hev.size,
    fun hs c hc => h.described (hev.size.trans_lt hs) c (hg.trans hc)⟩

namespace Catalog

variable {world : World} {c : Catalog world} {table : List (String × Content)}

/-- The catalog after a content is stored under an identifier. -/
def enter (c : Catalog world) (k : String × Content) : Catalog world :=
  { c with
    arena := (k.2.store c.arena).2
    entries := c.entries ++ [(k.1, (k.2.store c.arena).1)] }

/-- Every entry keeps its content, which the table gives under the same identifier. -/
structure Sealed (c : Catalog world) (table : List (String × Content)) : Prop where
  tight : c.arena.Tight
  distinct : (table.map Prod.fst).Nodup
  kept : List.Forall₂ (Kept c.nestingLimit c.arena) c.entries table
  size : (table.map fun k => k.2.size).sum ≤ c.arena.totalSize

theorem sealed_new (world : World) (capacity limit : Nat) :
    Sealed (.new world capacity limit) [] where
  tight := tight_withCapacity capacity
  distinct := List.nodup_nil
  kept := .nil
  size := Nat.zero_le _

theorem contains_iff {ident : String} :
    c.contains ident = true ↔ ident ∈ c.entries.map Prod.fst := by
  rw [contains, List.any_eq_true, List.mem_map]
  constructor
  · rintro ⟨e, he, h⟩
    exact ⟨e, he, eq_of_beq h⟩
  · rintro ⟨e, he, h⟩
    exact ⟨e, he, beq_iff_eq.2 h⟩

theorem add_of_new {ident : String} (hi : ident ∉ c.entries.map Prod.fst) (source : Arena)
    (d : Descriptor) : c.add ident source d =
      match DeepCopy.copyDescriptor source c.nestingLimit d c.arena with
      | (.ok d, arena) => (.ok (), { c with arena, entries := c.entries ++ [(ident, d)] })
      | (.error f, arena) => (.error f, { c with arena }) := by
  have hnot : ¬ c.contains ident = true := fun h => hi (contains_iff.1 h)
  unfold add
  exact if_neg hnot

theorem add_of_mem {ident : String} (hi : ident ∈ c.entries.map Prod.fst) (source : Arena)
    (d : Descriptor) : c.add ident source d = (.error (.duplicateIdent ident), c) :=
  if_pos (contains_iff.2 hi)

theorem add_of_ok (ha : c.arena.Sound) {k : String × Content} {source : Arena} {d : Descriptor}
    (hi : k.1 ∉ c.entries.map Prod.fst) (hd : source.describe c.nestingLimit d = .ok k.2) :
    c.add k.1 source d = (.ok (), c.enter k) := by
  rw [add_of_new hi, (copyDescriptor_realizes d ha).ok _ hd]
  rfl

theorem add_of_error (ha : c.arena.Sound) {ident : String} {source : Arena} {d : Descriptor}
    {f : Fault} (hi : ident ∉ c.entries.map Prod.fst)
    (hd : source.describe c.nestingLimit d = .error f) :
    c.add ident source d = (.error f, { c with
      arena := (DeepCopy.copyDescriptor source c.nestingLimit d c.arena).2 }) := by
  have hr : DeepCopy.copyDescriptor source c.nestingLimit d c.arena = (.error f, _) :=
    Prod.ext ((copyDescriptor_realizes d ha).error f hd) rfl
  rw [add_of_new hi, hr]

theorem add_fst (ha : c.arena.Sound) (ident : String) (source : Arena) (d : Descriptor) :
    (c.add ident source d).1 =
      if ident ∈ c.entries.map Prod.fst then .error (.duplicateIdent ident)
      else (source.describe c.nestingLimit d).map fun _ => () := by
  by_cases hi : ident ∈ c.entries.map Prod.fst
  · rw [if_pos hi, add_of_mem hi]
  · rw [if_neg hi]
    cases hd : source.describe c.nestingLimit d with
    | ok content => exact congrArg Prod.fst (add_of_ok (k := (ident, content)) ha hi hd)
    | error f => exact congrArg Prod.fst (add_of_error ha hi hd)

/-- What an addition can do: enter what the source describes under a new identifier, or fail and
leave no more than a larger arena. -/
theorem add_cases (ha : c.arena.Sound) (ident : String) (source : Arena) (d : Descriptor) :
    (∃ content, ident ∉ c.entries.map Prod.fst ∧ source.describe c.nestingLimit d = .ok content ∧
      c.add ident source d = (.ok (), c.enter (ident, content))) ∨
    (∃ f b, c.add ident source d = (.error f, { c with arena := b }) ∧
      Grows (fun _ _ => True) c.arena b ∧ Evolves c.arena b) := by
  by_cases hi : ident ∈ c.entries.map Prod.fst
  · exact .inr ⟨_, c.arena, add_of_mem hi source d, .refl _ _, .refl _⟩
  · cases hd : source.describe c.nestingLimit d with
    | ok content => exact .inl ⟨content, hi, rfl, add_of_ok (k := (ident, content)) ha hi hd⟩
    | error f =>
      exact .inr ⟨f, _, add_of_error ha hi hd, grows_copyDescriptor ha source _ d,
        (Building.Stepping.copyDescriptor source _ d c.arena).evolves⟩

theorem of_add_error (hs : c.arena.Sound) {ident : String} {source : Arena} {d : Descriptor}
    {f : Fault} {c' : Catalog world} (ha : c.add ident source d = (.error f, c')) :
    c' = { c with arena := c'.arena } ∧ Grows (fun _ _ => True) c.arena c'.arena ∧
      Evolves c.arena c'.arena := by
  rcases add_cases hs ident source d with ⟨_, _, _, he⟩ | ⟨_, b, he, hg, hev⟩ <;> rw [he] at ha
  · cases ha
  · obtain ⟨_, rfl⟩ := Prod.mk.inj ha
    exact ⟨rfl, hg, hev⟩

namespace Sealed

variable (h : Sealed c table)
include h

theorem idents : c.entries.map Prod.fst = table.map Prod.fst :=
  List.forall₂_eq_eq_eq ▸ List.forall₂_map_left_iff.2 (List.forall₂_map_right_iff.2
    (h.kept.imp fun _ _ hk => hk.ident))

theorem add_ok {k : String × Content} {source : Arena} {d : Descriptor}
    (hi : k.1 ∉ table.map Prod.fst) (hd : source.describe c.nestingLimit d = .ok k.2) :
    c.add k.1 source d = (.ok (), c.enter k) :=
  add_of_ok h.tight.toSound (h.idents ▸ hi) hd

theorem enter {k : String × Content} (hi : k.1 ∉ table.map Prod.fst)
    (hf : k.2.Fits c.nestingLimit) : Sealed (c.enter k) (table ++ [k]) := by
  have hs := hf.stored h.tight.toSound
  have ht := hs.evolves.tight h.tight
  have hg := hs.grows.spares
  refine ⟨ht, ?_, ?_, ?_⟩
  · rw [List.map_append]
    exact List.Nodup.append h.distinct (List.nodup_singleton _) (List.disjoint_singleton.2 hi)
  · refine List.rel_append (h.kept.imp fun _ _ hk => hk.grows hg hs.evolves) (.cons ?_ .nil)
    refine ⟨rfl, ⟨c.arena, rfl⟩, (Nat.le_add_left _ _).trans hs.size, fun hsize b hb => ?_⟩
    exact hs.back h.tight.toSound (ht.addressable hsize) b (hb.mono fun _ _ _ _ => trivial)
  · have hsize := hs.size
    have hsum := h.size
    rw [List.map_append, List.sum_append, List.map_singleton, List.sum_singleton]
    exact (Nat.add_le_add_right hsum _).trans hsize

theorem grows {b : Arena} (hg : Grows (fun _ _ => True) c.arena b) (hev : Evolves c.arena b) :
    Sealed ({ c with arena := b } : Catalog world) table :=
  ⟨hev.tight h.tight, h.distinct, h.kept.imp fun _ _ hk => hk.grows hg hev, h.size.trans hev.size⟩

theorem add (ident : String) (source : Arena) (d : Descriptor) :
    ∃ table', Sealed (c.add ident source d).2 table' := by
  rcases add_cases h.tight.toSound ident source d with ⟨content, hi, hd, he⟩ | ⟨_, b, he, hg, hev⟩
  · rw [he]
    exact ⟨_, h.enter (h.idents ▸ hi) (describe_fits hd)⟩
  · rw [he]
    exact ⟨table, h.grows hg hev⟩

theorem of_add_ok {ident : String} {source : Arena} {d : Descriptor} {c' : Catalog world}
    (ha : c.add ident source d = (.ok (), c')) : ∃ content, ident ∉ table.map Prod.fst ∧
      source.describe c.nestingLimit d = .ok content ∧ c' = c.enter (ident, content) := by
  rcases add_cases h.tight.toSound ident source d with ⟨content, hi, hd, he⟩ | ⟨_, _, he, _⟩
  · rw [he] at ha
    exact ⟨content, h.idents ▸ hi, hd, (Prod.mk.inj ha).2.symm⟩
  · rw [he] at ha
    cases ha

end Sealed

theorem add_nestingLimit (c : Catalog world) (ident : String) (source : Arena) (d : Descriptor) :
    (c.add ident source d).2.nestingLimit = c.nestingLimit := by
  unfold add
  split
  · rfl
  · split <;> rfl

/-- What additions make of a catalog, each of which may fail. -/
inductive Filled (start : Catalog world) : Catalog world → Prop
  | start : Filled start start
  | add {c : Catalog world} (h : Filled start c) (ident : String) (source : Arena)
      (d : Descriptor) : Filled start (c.add ident source d).2

namespace Filled

variable {start : Catalog world} (h : Filled start c)
include h

theorem nestingLimit : c.nestingLimit = start.nestingLimit := by
  induction h with
  | start => rfl
  | add _ ident source d ih => exact (add_nestingLimit _ ident source d).trans ih

theorem trans {c' : Catalog world} (h' : Filled c c') : Filled start c' := by
  induction h' with
  | start => exact h
  | add _ ident source d ih => exact ih.add ident source d

theorem exists_sealed (hs : Sealed start table) : ∃ table', Sealed c table' := by
  induction h with
  | start => exact ⟨table, hs⟩
  | add _ ident source d ih =>
    obtain ⟨table', ih⟩ := ih
    exact ih.add ident source d

end Filled

end Catalog

end FrozenDefaults
