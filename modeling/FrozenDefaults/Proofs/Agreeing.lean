import FrozenDefaults.Agreement
import FrozenDefaults.Proofs.Literals
import FrozenDefaults.Proofs.Transcription

/-!
# The worlds agree

The reader's catalog of what additions have collected is made without a fault,
lies in one segment and has the images of the builder's. No disagreement can be
found.
-/

namespace FrozenDefaults

open Arena

namespace Catalog

variable {c : Catalog .builder} {table : List (String × Content)}

def readerOf (c : Catalog .builder) (table : List (String × Content)) : Catalog .reader :=
  enterAll (.new .reader c.arena.totalSize c.nestingLimit) (inKinds (·.2.kind) table)

theorem roomy_readerOf_of_le {budget : Nat} (hn : (table.map fun k => k.2.size).sum ≤ budget)
    (hb : budget ≤ c.arena.totalSize) : Roomy budget 0 (c.readerOf table).arena := by
  apply roomy_enterAll
  refine roomy_withCapacity ?_ hb
  rwa [sum_inKinds_contents]

namespace Sealed

variable (h : Sealed c table) (hs : c.arena.totalSize < 2 ^ 32)
include h

theorem roomy_readerOf : Roomy c.arena.totalSize 0 (c.readerOf table).arena :=
  roomy_readerOf_of_le h.size (Nat.le_refl _)

include hs

theorem toReader : c.toReader = .ok (c.readerOf table) :=
  (h.transcribe hs .reader c.arena.totalSize).1

theorem sealed_readerOf : Sealed (c.readerOf table) (inKinds (·.2.kind) table) :=
  (h.transcribe hs .reader c.arena.totalSize).2

theorem images_readerOf : (c.readerOf table).images = c.images := by
  have hle := h.roomy_readerOf.totalSize_le
  rw [h.images hs, (h.sealed_readerOf hs).images (hle.trans_lt hs), inKinds_inKinds]

end Sealed

end Catalog

namespace Agreement

theorem lookup_of_mem {α : Type} {l : List (String × α)} {k : String} {v : α}
    (h : (l.map Prod.fst).Nodup) (hm : (k, v) ∈ l) : l.lookup k = some v := by
  induction l with
  | nil => cases hm
  | cons e l ih =>
    obtain ⟨hne, h⟩ := List.nodup_cons.1 h
    rcases List.mem_cons.1 hm with rfl | hm
    · exact List.lookup_cons_self
    · have hk : k ≠ e.1 := by
        rintro rfl
        exact hne (List.mem_map.2 ⟨_, hm, rfl⟩)
      rw [List.lookup_cons, beq_eq_false_iff_ne.2 hk]
      exact ih h hm

theorem compareImages_ok {reader images : List (String × List UInt8)}
    (h : ∀ e ∈ images, reader.lookup e.1 = some e.2) : compareImages reader images = .ok () := by
  induction images with
  | nil => rfl
  | cons e images ih =>
    rw [compareImages, h e List.mem_cons_self]
    simp only [if_true]
    exact ih fun e' he => h e' (List.mem_cons_of_mem e he)

theorem checkLiteralsFrom_ok (world : World) (wrapWidth segment : Nat)
    (segments : List (List UInt8)) :
    checkLiteralsFrom world wrapWidth segment segments = .ok () := by
  induction segments generalizing segment with
  | nil => rfl
  | cons bs segments ih =>
    rw [checkLiteralsFrom, if_pos (Literal.decode?_content_lines wrapWidth bs), ih]

variable {s : Settings} {c : Catalog .builder} {table : List (String × Content)}

theorem exists_listing (h : c.Sealed table) (hs : c.arena.totalSize < 2 ^ 32)
    (hv : s.validate = .ok ()) : ∃ l, Listing.ofCatalog s c = .ok l := by
  unfold Listing.ofCatalog
  rw [hv, h.toReader hs]
  by_cases he : c.isEmpty = true
  · exact ⟨_, if_pos he⟩
  · exact ⟨_, if_neg he⟩

theorem verify_eq_ok (h : c.Sealed table) (hs : c.arena.totalSize < 2 ^ 32)
    (hv : s.validate = .ok ()) : ∃ lines, verify s c = .ok ⟨c.size, c.arena.segmentCount,
      c.arena.totalSize, (c.readerOf table).arena.totalSize, lines⟩ := by
  obtain ⟨l, hl⟩ := exists_listing h hs hv
  have himages := h.images hs
  have hothers := (h.images_readerOf hs).trans himages
  have hcompare : compareImages ((inKinds (·.2.kind) table).map fun k => (k.1, k.2.image))
      ((inKinds (·.2.kind) table).map fun k => (k.1, k.2.image)) = .ok () := by
    refine compareImages_ok fun e he => lookup_of_mem ?_ he
    rw [List.map_map]
    exact (h.sealed_readerOf hs).distinct
  have hsegments := Nat.not_lt.2 h.roomy_readerOf.segmentCount_le
  refine ⟨l.lineCount, ?_⟩
  have hbuilder : checkLiterals .builder s.wrapWidth c.arena = .ok () :=
    checkLiteralsFrom_ok _ _ _ _
  have hreader : checkLiterals .reader s.wrapWidth (c.readerOf table).arena = .ok () :=
    checkLiteralsFrom_ok _ _ _ _
  unfold verify
  rw [hl, h.toReader hs, himages]
  simp only [Attempt.ofFault, ok_bind, if_neg hsegments, hothers, hcompare, hbuilder,
    hreader, ne_eq, not_true_eq_false, if_false]
  rfl

/-- No disagreement is found in what additions have collected, and neither the transcription nor an
image fails. -/
theorem verify_ok (h : s.newCatalog.Filled c) (hs : c.arena.totalSize < 2 ^ 32)
    (hv : s.validate = .ok ()) :
    ∃ r, verify s c = .ok r ∧ r.entries = c.size ∧ r.readerBytes ≤ r.builderBytes := by
  obtain ⟨table, hc⟩ := h.exists_sealed (Catalog.sealed_new _ _ _)
  obtain ⟨lines, hverify⟩ := verify_eq_ok hc hs hv
  exact ⟨_, hverify, rfl, hc.roomy_readerOf.totalSize_le⟩

end Agreement

end FrozenDefaults
