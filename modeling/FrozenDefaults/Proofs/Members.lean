import FrozenDefaults.Manifest.Json
import FrozenDefaults.Proofs.Trees
import Mathlib.Data.List.Forall2
import Mathlib.Data.List.Nodup

/-!
# Members of objects

A member that stands once in an object is read wherever it stands, and whatever other
members there are. That holds of the records of a manifest and of plain data.
-/

namespace FrozenDefaults

section Once

variable {α β : Type} {members known extra : List (String × α)} {key : String} {value : α}

/-- The key stands once, with this value. -/
def Once (members : List (String × α)) (key : String) (value : α) : Prop :=
  members.filter (·.1 == key) = [(key, value)]

/-- The key does not stand at all. -/
def Missing (members : List (String × α)) (key : String) : Prop :=
  members.filter (·.1 == key) = []

theorem missing_iff : Missing members key ↔ ∀ e ∈ members, e.1 ≠ key := by
  rw [Missing, List.filter_eq_nil_iff]
  exact forall₂_congr fun e _ => not_congr beq_iff_eq

theorem once_of_mem (hd : (members.map Prod.fst).Nodup) (hm : (key, value) ∈ members) :
    Once members key value := by
  induction members with
  | nil => cases hm
  | cons e members ih =>
    obtain ⟨hne, hd⟩ := List.nodup_cons.1 hd
    rw [Once, List.filter_cons]
    rcases List.mem_cons.1 hm with rfl | hm
    · have hmissing : Missing members key :=
        missing_iff.2 fun e he hk => hne (List.mem_map.2 ⟨e, he, hk⟩)
      rw [if_pos (beq_self_eq_true key), hmissing]
    · have hother : ¬ (e.1 == key) = true := by
        rw [beq_iff_eq]
        intro hk
        exact hne (List.mem_map.2 ⟨_, hm, hk.symm⟩)
      rw [if_neg hother]
      exact ih hd hm

/-- The order of the members does not matter, and neither do members of other names. -/
theorem once_of_perm (h : members.Perm (known ++ extra)) (hd : (known.map Prod.fst).Nodup)
    (hm : (key, value) ∈ known) (hextra : ∀ e ∈ extra, e.1 ≠ key) : Once members key value := by
  have hfilter := h.filter (·.1 == key)
  rw [List.filter_append, once_of_mem hd hm, missing_iff.2 hextra] at hfilter
  exact List.perm_singleton.1 hfilter

theorem missing_of_perm (h : members.Perm (known ++ extra)) (hknown : ∀ e ∈ known, e.1 ≠ key)
    (hextra : ∀ e ∈ extra, e.1 ≠ key) : Missing members key := by
  refine missing_iff.2 fun e he => ?_
  rcases List.mem_append.1 (h.subset he) with he | he
  · exact hknown e he
  · exact hextra e he

theorem Once.map (h : Once members key value) (f : α → β) :
    Once (members.map fun e => (e.1, f e.2)) key (f value) := by
  rw [Once, List.filter_map]
  exact congrArg (List.map fun e => (e.1, f e.2)) h

theorem Once.filter (h : Once members key value) {other : String} (hne : key ≠ other) :
    Once (members.filter (·.1 != other)) key value := by
  rw [Once, List.filter_filter]
  refine Eq.trans (List.filter_congr fun e _ => ?_) h
  by_cases he : e.1 = key
  · simp [he, hne]
  · simp [he]

end Once

namespace Record

variable {Node : Type} {members : List (String × Node)} {names : List String} {name : String}

theorem find?_of_once {v : Node} (h : Once members name v) :
    (keyed members).find? names name = some (some v) := by
  rw [find?, h]

theorem find?_of_missing (h : Missing members name) :
    (keyed members).find? names name = some none := by
  rw [find?, h]

end Record

namespace Datum

/-- Plain data with names for its members. -/
def ofMembers (members : List (String × Datum)) : Datum :=
  map (members.map fun e => (text e.1, e.2))

theorem mapM_eq_some_iff {α β : Type} {f : α → Option β} {l : List α} {l' : List β} :
    l.mapM f = some l' ↔ List.Forall₂ (fun x y => f x = some y) l l' := by
  constructor
  · intro h
    induction l generalizing l' with
    | nil =>
      obtain rfl : [] = l' := Option.some.inj h
      exact .nil
    | cons x l ih =>
      rw [List.mapM_cons] at h
      obtain ⟨y, hy, h⟩ := Option.bind_eq_some_iff.1 h
      obtain ⟨ys, hys, h⟩ := Option.bind_eq_some_iff.1 h
      obtain rfl : y :: ys = l' := Option.some.inj h
      exact .cons hy (ih hys)
  · intro h
    induction h with
    | nil => rfl
    | cons hx _ ih =>
      rw [List.mapM_cons, hx, ih]
      rfl

theorem mapM_some {α β : Type} (f : α → β) (l : List α) :
    l.mapM (fun x => some (f x)) = some (l.map f) :=
  mapM_eq_some_iff.2 (List.forall₂_map_right_iff.2 (List.forall₂_same.2 fun _ _ => rfl))

variable {members : List (String × Datum)} {names : List String} {values : List Datum}

theorem kinded?_ofMembers {kind : Datum} (h : Once members "kind" kind) :
    (ofMembers members).kinded? = some (kind, ofMembers (members.filter (·.1 != "kind"))) := by
  have hkind : (members.map fun e => (text e.1, e.2)).filter (isKindKey ·.1) =
      [(text "kind", kind)] := by
    rw [List.filter_map]
    exact congrArg (List.map fun e => (text e.1, e.2)) h
  have hrest : (members.map fun e => (text e.1, e.2)).filter (!isKindKey ·.1) =
      (members.filter (·.1 != "kind")).map fun e => (text e.1, e.2) := List.filter_map
  rw [ofMembers, kinded?, hkind, hrest]
  rfl

theorem idxOf?_eq_iff (hn : names.Nodup) {i : Nat} (hi : i < names.length) {name : String} :
    names.idxOf? name = some i ↔ name = names[i] := by
  rw [List.idxOf?_eq_some_iff]
  constructor
  · rintro ⟨_, h, _⟩
    exact h.symm
  · rintro rfl
    refine ⟨hi, rfl, fun j hj h => ?_⟩
    exact absurd (hn.getElem_inj_iff.1 h) (Nat.ne_of_lt hj)

theorem single?_field (hn : names.Nodup) {i : Nat} (hi : i < names.length) {value : Datum}
    (h : Once members names[i] value) : single? (((members.map fun e =>
      (names.idxOf? e.1, e.2)).filter (·.1 == some i)).map (·.2)) = some value := by
  have hfilter : members.filter (fun e => names.idxOf? e.1 == some i) = [(names[i], value)] := by
    refine Eq.trans (List.filter_congr fun e _ => ?_) h
    rw [Bool.eq_iff_iff, beq_iff_eq, beq_iff_eq, idxOf?_eq_iff hn hi]
  rw [List.filter_map]
  exact congrArg (fun l => single? ((l.map fun e => (names.idxOf? e.1, e.2)).map (·.2))) hfilter

theorem fields?_ofMembers (hn : names.Nodup) (h : List.Forall₂ (Once members) names values) :
    (ofMembers members).fields? names = some values := by
  have hkeyed : (members.map fun e => (text e.1, e.2)).mapM (fun e => do
      return (← fieldOf? names e.1, e.2)) =
        some (members.map fun e => (names.idxOf? e.1, e.2)) := by
    rw [List.mapM_map]
    exact mapM_some _ members
  obtain ⟨hlength, hget⟩ := List.forall₂_iff_get.1 h
  refine (congrArg (· >>= _) hkeyed).trans ?_
  refine mapM_eq_some_iff.2 (List.forall₂_iff_get.2 ⟨by rw [List.length_range, hlength], ?_⟩)
  intro i hi hi'
  rw [List.length_range] at hi
  rw [List.get_eq_getElem, List.getElem_range]
  exact single?_field hn hi (hget i hi hi')

end Datum

namespace Json

/-- A value that may be given to a member that is not known. -/
inductive Idle : Json → Prop
  | null : Idle null
  | bool (b : Bool) : Idle (bool b)
  | string (s : String) : Idle (string (some s))

/-- An object with the given members in some order, among others that are idle and not known. -/
def Shows (known : List String) (members : List (String × Json)) (j : Json) : Prop :=
  ∃ all extra, j = ofMembers all ∧ all.Perm (members ++ extra) ∧
    ∀ e ∈ extra, e.1 ∉ known ∧ Idle e.2

theorem record?_ofMembers (members : List (String × Json)) :
    record? (ofMembers members) = some (.keyed members) := by
  have hmembers : (members.map fun e => (some e.1, e.2)).mapM (fun e => do
      return (← e.1, e.2)) = some members := by
    rw [List.mapM_map]
    exact (Datum.mapM_some id members).trans (by rw [List.map_id])
  exact congrArg (Option.map Record.keyed) hmembers

theorem Idle.exists_datum? {j : Json} (h : Idle j) (depth : Nat) :
    ∃ x, datum? depth j = some x := by
  cases h with
  | null => exact ⟨.other, by rw [datum?]⟩
  | bool b => exact ⟨.other, by rw [datum?]⟩
  | string s => exact ⟨.text s, by rw [datum?, Option.map_some]⟩

namespace Shows

variable {known : List String} {members : List (String × Json)} {j : Json}

/-- What is shown can be looked up, and of what is known nothing else. -/
theorem lookups (h : Shows known members j) (hd : (members.map Prod.fst).Nodup)
    (hk : ∀ e ∈ members, e.1 ∈ known) : ∃ all, j = ofMembers all ∧
      (∀ e ∈ members, Once all e.1 e.2) ∧
      (∀ name ∈ known, (∀ e ∈ members, e.1 ≠ name) → Missing all name) ∧
      ∀ e ∈ all, e ∈ members ∨ Idle e.2 := by
  obtain ⟨all, extra, rfl, hp, hextra⟩ := h
  have hother {name : String} (hn : name ∈ known) : ∀ e ∈ extra, e.1 ≠ name := by
    rintro e he rfl
    exact (hextra e he).1 hn
  refine ⟨all, rfl, fun e he => once_of_perm hp hd he (hother (hk e he)), fun name hn hm =>
    missing_of_perm hp hm (hother hn), fun e he => ?_⟩
  rcases List.mem_append.1 (hp.subset he) with he | he
  · exact .inl he
  · exact .inr (hextra e he).2

theorem exists_datum? (h : Shows known members j) (hd : (members.map Prod.fst).Nodup)
    (hk : ∀ e ∈ members, e.1 ∈ known) {depth : Nat}
    (hread : ∀ e ∈ members, ∃ x, datum? depth e.2 = some x) :
    ∃ ds, datum? (depth + 1) j = some (.ofMembers ds) ∧
      ∀ e ∈ members, ∀ x, datum? depth e.2 = some x → Once ds e.1 x := by
  obtain ⟨all, rfl, honce, _, hall⟩ := h.lookups hd hk
  let read : Json → Datum := fun v => (datum? depth v).getD .other
  have hvalues : ∀ e ∈ all, datum? depth e.2 = some (read e.2) := by
    intro e he
    obtain ⟨x, hx⟩ : ∃ x, datum? depth e.2 = some x :=
      (hall e he).elim (hread e) fun hidle => hidle.exists_datum? depth
    show _ = some ((datum? depth e.2).getD .other)
    rw [hx]
    rfl
  refine ⟨all.map fun e => (e.1, read e.2), ?_, fun e he x hx => ?_⟩
  · have hmembers : (all.map fun e => (some e.1, e.2)).mapM (fun e => do
        return (Datum.text (← e.1), ← datum? depth e.2)) =
          some (all.map fun e => (Datum.text e.1, read e.2)) := by
      rw [List.mapM_map, Datum.mapM_eq_some_iff, List.forall₂_map_right_iff, List.forall₂_same]
      intro e he
      show (datum? depth e.2 >>= fun x => some (Datum.text e.1, x)) = _
      rw [hvalues e he]
      rfl
    rw [ofMembers, datum?, Datum.ofMembers, List.map_map]
    exact congrArg (Option.map Datum.map) hmembers
  · have hvalue : read e.2 = x := by
      show (datum? depth e.2).getD .other = x
      rw [hx]
      rfl
    exact hvalue ▸ (honce e he).map read

end Shows

theorem proper_ofMembers {members : List (String × Json)} (h : ∀ e ∈ members, e.2.Proper) :
    (ofMembers members).Proper := by
  refine .object fun e he => ?_
  obtain ⟨e, hm, rfl⟩ := List.mem_map.1 he
  exact h e hm

theorem Idle.proper {j : Json} (h : Idle j) : j.Proper := by
  cases h with
  | null => exact .null
  | bool b => exact .bool b
  | string s => exact .string _

theorem Shows.proper {known : List String} {members : List (String × Json)} {j : Json}
    (h : Shows known members j) (hm : ∀ e ∈ members, e.2.Proper) : j.Proper := by
  obtain ⟨all, extra, rfl, hp, hextra⟩ := h
  refine proper_ofMembers fun e he => ?_
  rcases List.mem_append.1 (hp.subset he) with he | he
  · exact hm e he
  · exact (hextra e he).2.proper

end Json

end FrozenDefaults
