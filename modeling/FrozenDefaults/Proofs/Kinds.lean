import FrozenDefaults.Proofs.Keeping

/-!
# Kinds of entries

A catalog goes through its entries by kind, and in the order of their addition
within a kind. The kind of an entry and its layout are those of its content.
-/

namespace FrozenDefaults

open Arena

section Kinds

variable {α β : Type} (kind : α → Nat)

def ofKind (n : Nat) (l : List α) : List α := l.filter fun x => kind x = n

/-- What is of kind 0, then what is of kind 1, then what is of kind 2. -/
def inKinds (l : List α) : List α := ofKind kind 0 l ++ ofKind kind 1 l ++ ofKind kind 2 l

theorem ofKind_ofKind (m n : Nat) (l : List α) :
    ofKind kind m (ofKind kind n l) = if m = n then ofKind kind n l else [] := by
  rw [ofKind, ofKind, List.filter_filter]
  split
  · rename_i h
    subst h
    simp
  · rename_i h
    rw [List.filter_eq_nil_iff]
    intro x _ hx
    simp only [Bool.and_eq_true, decide_eq_true_eq] at hx
    exact h (hx.1.symm.trans hx.2)

theorem ofKind_inKinds {n : Nat} (hn : n < 3) (l : List α) :
    ofKind kind n (inKinds kind l) = ofKind kind n l := by
  have happ (u v : List α) : ofKind kind n (u ++ v) = ofKind kind n u ++ ofKind kind n v :=
    List.filter_append u v
  rw [inKinds, happ, happ, ofKind_ofKind, ofKind_ofKind, ofKind_ofKind]
  obtain rfl | rfl | rfl : n = 0 ∨ n = 1 ∨ n = 2 := by omega
  all_goals simp

theorem inKinds_inKinds (l : List α) : inKinds kind (inKinds kind l) = inKinds kind l := by
  rw [inKinds, ofKind_inKinds kind (by omega), ofKind_inKinds kind (by omega),
    ofKind_inKinds kind (by omega), ← inKinds]

theorem inKinds_perm (hk : ∀ x, kind x < 3) (l : List α) : (inKinds kind l).Perm l := by
  induction l with
  | nil => exact .nil
  | cons x l ih =>
    have hcons (n : Nat) : ofKind kind n (x :: l) =
        if kind x = n then x :: ofKind kind n l else ofKind kind n l := by
      simp [ofKind, List.filter_cons]
    refine List.Perm.trans ?_ (ih.cons x)
    have hx := hk x
    rw [inKinds, hcons, hcons, hcons]
    obtain h | h | h : kind x = 0 ∨ kind x = 1 ∨ kind x = 2 := by omega
    · simp [h, inKinds]
    · simp [h, inKinds]
    · rw [if_neg (by omega), if_neg (by omega), if_pos h]
      exact List.perm_middle

variable {kind} {kind' : β → Nat} {R : α → β → Prop} {l : List α} {l' : List β}

theorem forall₂_ofKind (hr : ∀ x y, R x y → kind x = kind' y) (n : Nat)
    (h : List.Forall₂ R l l') : List.Forall₂ R (ofKind kind n l) (ofKind kind' n l') :=
  List.rel_filter (fun x y hxy => by simp [hr x y hxy]) h

theorem forall₂_inKinds (hr : ∀ x y, R x y → kind x = kind' y) (h : List.Forall₂ R l l') :
    List.Forall₂ R (inKinds kind l) (inKinds kind' l') :=
  List.rel_append (List.rel_append (forall₂_ofKind hr 0 h) (forall₂_ofKind hr 1 h))
    (forall₂_ofKind hr 2 h)

end Kinds

/-- The place of a kind in the order in which entries are gone through. -/
def Descriptor.kind : Descriptor → Nat
  | .struct _ => 0
  | .list _ => 1
  | .pointer _ => 2

theorem Descriptor.kind_lt (d : Descriptor) : d.kind < 3 := by
  unfold kind
  split <;> omega

def Content.kind : Content → Nat
  | .object (.struct _ _) _ => 0
  | .object (.list _ _) _ => 1
  | .pointer _ => 2

theorem Content.kind_lt (content : Content) : content.kind < 3 := by
  unfold kind
  split <;> omega

theorem inKinds_contents (table : List (String × Content)) :
    (inKinds (·.2.kind) table).Perm table :=
  inKinds_perm _ (fun k => k.2.kind_lt) table

theorem sum_inKinds_contents (table : List (String × Content)) :
    ((inKinds (·.2.kind) table).map fun k => k.2.size).sum = (table.map fun k => k.2.size).sum :=
  ((inKinds_contents table).map fun k => k.2.size).sum_eq

theorem Content.kind_store (content : Content) (a : Arena) :
    (content.store a).1.kind = content.kind := by
  rcases content with ⟨_ | _, _⟩ | _ <;> rfl

theorem kind_of_describe {limit : Nat} {a : Arena} {d : Descriptor} {content : Content}
    (h : a.describe limit d = .ok content) : content.kind = d.kind := by
  cases d with
  | struct v =>
    obtain ⟨_, _, h⟩ := bind_eq_ok_iff.1 h
    obtain ⟨_, _, h⟩ := bind_eq_ok_iff.1 h
    obtain ⟨_, _, h⟩ := bind_eq_ok_iff.1 h
    obtain ⟨_, _, h⟩ := bind_eq_ok_iff.1 h
    obtain rfl := Except.ok.inj h
    rfl
  | list v =>
    obtain ⟨_, _, h⟩ := bind_eq_ok_iff.1 h
    obtain ⟨_, _, h⟩ := bind_eq_ok_iff.1 h
    obtain rfl := Except.ok.inj h
    rfl
  | pointer s =>
    obtain ⟨_, _, rfl⟩ := map_eq_ok_iff.1 h
    rfl

theorem Kept.kind {limit : Nat} {a : Arena} {e : String × Descriptor} {k : String × Content}
    (h : Kept limit a e k) : e.2.kind = k.2.kind := by
  obtain ⟨b, h⟩ := h.made
  rw [h, Content.kind_store]

/-- Descriptors of objects with the same layout. -/
inductive Descriptor.Alike : Descriptor → Descriptor → Prop
  | struct {v w : StructView} (data : v.data.length = w.data.length)
      (pointers : v.pointers.length = w.pointers.length) : Alike (.struct v) (.struct w)
  | list {v w : ListView} (elements : v.elements.length = w.elements.length)
      (layout : v.layout = w.layout) (count : v.count = w.count) : Alike (.list v) (.list w)
  | pointer {s u : Span} (left : s.length = bytesPerWord) (right : u.length = bytesPerWord) :
      Alike (.pointer s) (.pointer u)

theorem Content.alike_store (content : Content) (a b : Arena) :
    (content.store a).1.Alike (content.store b).1 := by
  rcases content with ⟨_ | _, _⟩ | _
  · exact .struct rfl rfl
  · refine .list ?_ rfl rfl
    exact congrArg (· - _) ((a.fresh_alloc _).length.trans (b.fresh_alloc _).length.symm)
  · exact .pointer (a.fresh_alloc _).length (b.fresh_alloc _).length

namespace Catalog

variable {world : World} (c : Catalog world)

section Views

variable {α : Type} (view : String × Descriptor → Option (String × α)) (wrap : α → Descriptor)

theorem map_filterMap_eq_ofKind {n : Nat}
    (h : ∀ e, (view e).map (fun x => (x.1, wrap x.2)) = if e.2.kind = n then some e else none)
    (l : List (String × Descriptor)) :
    (l.filterMap view).map (fun x => (x.1, wrap x.2)) = ofKind (·.2.kind) n l := by
  rw [List.map_filterMap, ofKind, ← List.filterMap_eq_filter]
  congr
  funext e
  rw [h, Option.guard_apply]
  simp

end Views

theorem map_structs : c.structs.map (fun e => (e.1, Descriptor.struct e.2)) =
    ofKind (·.2.kind) 0 c.entries :=
  map_filterMap_eq_ofKind _ _ (by rintro ⟨i, _ | _ | _⟩ <;> rfl) _

theorem map_lists : c.lists.map (fun e => (e.1, Descriptor.list e.2)) =
    ofKind (·.2.kind) 1 c.entries :=
  map_filterMap_eq_ofKind _ _ (by rintro ⟨i, _ | _ | _⟩ <;> rfl) _

theorem map_pointers : c.pointers.map (fun e => (e.1, Descriptor.pointer e.2)) =
    ofKind (·.2.kind) 2 c.entries :=
  map_filterMap_eq_ofKind _ _ (by rintro ⟨i, _ | _ | _⟩ <;> rfl) _

theorem byKind_eq : c.byKind = inKinds (·.2.kind) c.entries := by
  rw [byKind, map_structs, map_lists, map_pointers, inKinds]

theorem byKind_perm : c.byKind.Perm c.entries := by
  rw [byKind_eq]
  exact inKinds_perm _ (fun e => e.2.kind_lt) _

end Catalog

end FrozenDefaults
