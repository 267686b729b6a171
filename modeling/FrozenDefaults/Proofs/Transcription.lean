import FrozenDefaults.Catalog.Image
import FrozenDefaults.Proofs.Canonical
import FrozenDefaults.Proofs.Kinds

/-!
# Transcription

What a catalog keeps can be added to any other catalog. A transcription has the
same contents under the same identifiers, and with them the same images.
-/

namespace FrozenDefaults

open Arena

/-- What a content looks like alone in one segment. -/
def Content.image (content : Content) : List UInt8 :=
  (content.store (.withCapacity (content.size + bytesPerWord))).2.toSegments.flatten

theorem Content.image_eq {content : Content} {capacity : Nat} (h : content.size ≤ capacity) :
    (content.store (.withCapacity capacity)).2.toSegments.flatten = content.image := by
  have halike := store_withCapacity_alike (h.trans (le_roundUp capacity))
    ((Nat.le_add_right content.size bytesPerWord).trans (le_roundUp _))
  rw [image, halike.2]

theorem mapM_eq_ok_iff {α β ε : Type} {f : α → Except ε β} {l : List α} {l' : List β} :
    l.mapM f = .ok l' ↔ List.Forall₂ (fun x y => f x = .ok y) l l' := by
  constructor
  · intro h
    induction l generalizing l' with
    | nil =>
      obtain rfl : [] = l' := Except.ok.inj h
      exact .nil
    | cons x l ih =>
      rw [List.mapM_cons] at h
      obtain ⟨y, hy, h⟩ := bind_eq_ok_iff.1 h
      obtain ⟨ys, hys, h⟩ := bind_eq_ok_iff.1 h
      obtain rfl : y :: ys = l' := Except.ok.inj h
      exact .cons hy (ih hys)
  · intro h
    induction h with
    | nil => rfl
    | cons hx _ ih =>
      rw [List.mapM_cons, hx, ih]
      rfl

theorem forall₂_join {α β γ : Type} {R : α → γ → Prop} {S : β → γ → Prop} {l : List α}
    {l' : List β} {l'' : List γ} (h : List.Forall₂ R l l'') (h' : List.Forall₂ S l' l'') :
    List.Forall₂ (fun x y => ∃ z, R x z ∧ S y z) l l' := by
  induction h generalizing l' with
  | nil =>
    cases h'
    exact .nil
  | cons hx _ ih =>
    cases h' with
    | cons hy h' => exact .cons ⟨_, hx, hy⟩ (ih h')

namespace Catalog

variable {world target : World} {c : Catalog world} {table more : List (String × Content)}
  {entries : List (String × Descriptor)}

/-- The catalog after contents are stored one after the other. -/
def enterAll (c : Catalog world) (table : List (String × Content)) : Catalog world :=
  table.foldl enter c

theorem enterAll_nestingLimit (c : Catalog world) (table : List (String × Content)) :
    (c.enterAll table).nestingLimit = c.nestingLimit := by
  induction table generalizing c with
  | nil => rfl
  | cons k table ih => exact ih (c.enter k)

/-- Contents are stored in one segment as long as there is room for them. -/
theorem roomy_enterAll {budget : Nat}
    (h : Roomy budget (table.map fun k => k.2.size).sum c.arena) :
    Roomy budget 0 (c.enterAll table).arena := by
  induction table generalizing c with
  | nil => exact h
  | cons k table ih =>
    rw [List.map_cons, List.sum_cons, Nat.add_comm] at h
    exact ih (c := c.enter k) h.store

theorem not_mem_of_nodup {k : String × Content}
    (h : ((table ++ k :: more).map Prod.fst).Nodup) : k.1 ∉ table.map Prod.fst := by
  rw [List.map_append, List.map_cons] at h
  exact fun hm => (List.nodup_append.1 h).2.2 _ hm _ List.mem_cons_self rfl

theorem Sealed.addAll {source : Arena} {limit : Nat} (h : Sealed c table)
    (hl : c.nestingLimit = limit) (hd : ((table ++ more).map Prod.fst).Nodup)
    (hs : List.Forall₂ (fun e k => e.1 = k.1 ∧ source.describe limit e.2 = .ok k.2)
      entries more) : Catalog.addAll source entries c = .ok (c.enterAll more) ∧
      Sealed (c.enterAll more) (table ++ more) := by
  induction hs generalizing c table with
  | nil =>
    rw [List.append_nil]
    exact ⟨rfl, h⟩
  | @cons e k entries more he _ ih =>
    obtain ⟨i, d⟩ := e
    obtain ⟨rfl, he⟩ := he
    have hi := not_mem_of_nodup hd
    subst hl
    rw [List.append_cons] at hd ⊢
    rw [Catalog.addAll, h.add_ok hi he]
    exact ih (h.enter hi (describe_fits he)) rfl hd

theorem Sealed.byKind (h : Sealed c table) : List.Forall₂ (Kept c.nestingLimit c.arena) c.byKind
    (inKinds (·.2.kind) table) := by
  rw [byKind_eq]
  exact forall₂_inKinds (fun _ _ hk => hk.kind) h.kept

theorem Sealed.inKinds_ne_nil (h : Sealed c table) (hne : c.entries ≠ []) :
    inKinds (fun k : String × Content => k.2.kind) table ≠ [] := by
  have hperm := inKinds_contents table
  intro he
  rw [he] at hperm
  have hlength := h.kept.length_eq
  rw [hperm.nil_eq.symm] at hlength
  exact hne (List.eq_nil_of_length_eq_zero hlength)

/-- A transcription succeeds and keeps the same contents, by kind. -/
theorem Sealed.transcribe (h : Sealed c table) (hs : c.arena.totalSize < 2 ^ 32) (target : World)
    (capacity : Nat) :
    c.transcribe target capacity =
        .ok (enterAll (.new target capacity c.nestingLimit) (inKinds (·.2.kind) table)) ∧
      Sealed (enterAll (.new target capacity c.nestingLimit) (inKinds (·.2.kind) table))
        (inKinds (·.2.kind) table) := by
  have hd := ((inKinds_contents table).map Prod.fst).nodup_iff.2 h.distinct
  apply (sealed_new target capacity c.nestingLimit).addAll rfl hd
  exact h.byKind.imp fun e k hk => ⟨hk.ident, hk.described hs _ (.refl _ _)⟩

theorem image_of_describe {d : Descriptor} {content : Content}
    (h : c.arena.describe c.nestingLimit d = .ok content) (hs : content.size ≤ c.arena.totalSize) :
    c.image d = .ok content.image := by
  have hr := (copyDescriptor_realizes d (tight_withCapacity
    (c.arena.totalSize + bytesPerWord)).toSound).ok _ h
  simp only [image, hr]
  rw [Content.image_eq (hs.trans (Nat.le_add_right _ _))]

theorem Sealed.images (h : Sealed c table) (hs : c.arena.totalSize < 2 ^ 32) :
    c.images = .ok ((inKinds (·.2.kind) table).map fun k => (k.1, k.2.image)) := by
  apply mapM_eq_ok_iff.2
  rw [List.forall₂_map_right_iff]
  refine h.byKind.imp fun e k hk => ?_
  have hi := image_of_describe (hk.described hs _ (.refl _ _)) hk.size
  show c.image e.2 >>= (fun bs => pure (e.1, bs)) = _
  rw [hi, hk.ident]
  rfl

theorem Sealed.forall₂_alike {t : Catalog target} (h : Sealed c table) (ht : Sealed t more)
    {n : Nat} (hk : ofKind (·.2.kind) n more = ofKind (·.2.kind) n table) :
    List.Forall₂ (fun e e' => e.1 = e'.1 ∧ e.2.Alike e'.2)
      (ofKind (·.2.kind) n c.entries) (ofKind (·.2.kind) n t.entries) := by
  have hc := forall₂_ofKind (fun _ _ hk => Kept.kind hk) n h.kept
  have ht := forall₂_ofKind (fun _ _ hk => Kept.kind hk) n ht.kept
  rw [hk] at ht
  refine (forall₂_join hc ht).imp fun e e' he => ?_
  obtain ⟨k, hk, hk'⟩ := he
  obtain ⟨a, ha⟩ := hk.made
  obtain ⟨b, hb⟩ := hk'.made
  rw [hk.ident, hk'.ident, ha, hb]
  exact ⟨rfl, k.2.alike_store a b⟩

/-- The same identifiers in the same order, and the same layouts. -/
structure Alike (c : Catalog world) (t : Catalog target) : Prop where
  structs : List.Forall₂ (fun e e' => e.1 = e'.1 ∧ e.2.data.length = e'.2.data.length ∧
    e.2.pointers.length = e'.2.pointers.length) c.structs t.structs
  lists : List.Forall₂ (fun e e' => e.1 = e'.1 ∧ e.2.elements.length = e'.2.elements.length ∧
    e.2.layout = e'.2.layout ∧ e.2.count = e'.2.count) c.lists t.lists
  pointers : List.Forall₂ (fun e e' => e.1 = e'.1 ∧ e.2.length = bytesPerWord ∧
    e'.2.length = bytesPerWord) c.pointers t.pointers

theorem Sealed.alike_of_ofKind {t : Catalog target} (h : Sealed c table) (ht : Sealed t more)
    (hsame : ∀ n < 3, ofKind (·.2.kind) n more = ofKind (·.2.kind) n table) : c.Alike t where
  structs := by
    have hk := h.forall₂_alike ht (hsame 0 (by omega))
    rw [← map_structs, ← map_structs, List.forall₂_map_left_iff, List.forall₂_map_right_iff] at hk
    refine hk.imp fun e e' he => ?_
    obtain ⟨hi, ha⟩ := he
    cases ha with
    | struct hdata hpointers => exact ⟨hi, hdata, hpointers⟩
  lists := by
    have hk := h.forall₂_alike ht (hsame 1 (by omega))
    rw [← map_lists, ← map_lists, List.forall₂_map_left_iff, List.forall₂_map_right_iff] at hk
    refine hk.imp fun e e' he => ?_
    obtain ⟨hi, ha⟩ := he
    cases ha with
    | list helements hlayout hcount => exact ⟨hi, helements, hlayout, hcount⟩
  pointers := by
    have hk := h.forall₂_alike ht (hsame 2 (by omega))
    rw [← map_pointers, ← map_pointers, List.forall₂_map_left_iff,
      List.forall₂_map_right_iff] at hk
    refine hk.imp fun e e' he => ?_
    obtain ⟨hi, ha⟩ := he
    cases ha with
    | pointer hleft hright => exact ⟨hi, hleft, hright⟩

theorem Sealed.alike {t : Catalog target} (h : Sealed c table)
    (ht : Sealed t (inKinds (·.2.kind) table)) : c.Alike t :=
  h.alike_of_ofKind ht fun _ hn => ofKind_inKinds _ hn _

/-- A catalog without room at first, with a pointer, a list and a struct under three identifiers.
The second addition fails. -/
def sample : Catalog .builder :=
  let c := Catalog.new .builder 0 64
  let c := (c.add "p" Arena.sample (.pointer ⟨0, 0, 8⟩)).2
  let c := (c.add "p" Arena.sample (.pointer ⟨0, 0, 8⟩)).2
  let c := (c.add "l" Arena.sample (.list ⟨⟨0, 24, 8⟩, .bytes1, 3⟩)).2
  (c.add "s" Arena.sample (.struct ⟨⟨0, 8, 8⟩, ⟨0, 16, 8⟩⟩)).2

theorem filled_sample : (Catalog.new .builder 0 64).Filled sample :=
  .add (.add (.add (.add .start _ _ _) _ _ _) _ _ _) _ _ _

/-- A catalog whose first segment holds one slot, so that the object of that slot lies behind a
landing pad. -/
def spilled : Catalog .builder :=
  ((Catalog.new .builder 8 64).add "p" Arena.sample (.pointer ⟨0, 0, 8⟩)).2

end Catalog

end FrozenDefaults
