import FrozenDefaults.Manifest
import FrozenDefaults.Proofs.Transcription

/-!
# Catalogs of manifests

What is added for an entry of a manifest can be read from the source and from the
identifiers before it, whatever the arena is like. The catalog of a manifest is
filled by additions that all succeed. It keeps, for each entry of the manifest,
what the payload describes in the source.
-/

namespace FrozenDefaults

namespace Manifest

variable {c c' : Catalog .builder} {table : List (String × Content)} {source : Arena}

/-- The content is what the entry stands for. -/
def Means (source : Arena) (limit : Nat) (e : Entry) (k : String × Content) : Prop :=
  Catalog.ident e.node e.field = .ok k.1 ∧ source.describe limit e.payload = .ok k.2

theorem ofFault_eq_ok_iff {α : Type} {r : Except Fault α} {x : α} :
    Attempt.ofFault r = .ok x ↔ r = .ok x := by
  cases r with
  | ok y => exact ⟨fun h => (by cases h; rfl), fun h => (by cases h; rfl)⟩
  | error f => exact ⟨fun h => (by cases h), fun h => (by cases h)⟩

/-- Why an entry is not added whose field is in order. -/
def unregistered (ident : String) (f : Fault) : Failure :=
  ⟨[s!"failed to register {ident}"], .fault f⟩

/-- What is read for an entry behind others whose identifiers are taken. -/
def reading (source : Arena) (limit : Nat) (taken : List String) (e : Entry) :
    Attempt (String × Content) :=
  match Catalog.ident e.node e.field with
  | .error f => .error (.ofFault f)
  | .ok ident =>
    if ident ∈ taken then .error (unregistered ident (.duplicateIdent ident))
    else
      match source.describe limit e.payload with
      | .ok content => .ok (ident, content)
      | .error f => .error (unregistered ident f)

def readings (source : Arena) (limit : Nat) :
    List String → List Entry → Attempt (List (String × Content))
  | _, [] => .ok []
  | taken, e :: entries => do
    let k ← reading source limit taken e
    return k :: (← readings source limit (taken ++ [k.1]) entries)

theorem readings_cons {limit : Nat} {e : Entry} {k : String × Content}
    (hk : reading source limit (table.map Prod.fst) e = .ok k) (entries : List Entry) :
    readings source limit (table.map Prod.fst) (e :: entries) =
      (k :: ·) <$> readings source limit ((table ++ [k]).map Prod.fst) entries := by
  rw [readings, hk, ok_bind, List.map_append, List.map_singleton]
  cases readings source limit (table.map Prod.fst ++ [k.1]) entries <;> rfl

theorem reading_eq_ok_iff {limit : Nat} {taken : List String} {e : Entry} {k : String × Content} :
    reading source limit taken e = .ok k ↔ Means source limit e k ∧ k.1 ∉ taken := by
  obtain ⟨i, content⟩ := k
  unfold reading Means
  cases Catalog.ident e.node e.field with
  | error f => exact ⟨fun h => (by cases h), fun h => (by cases h.1.1)⟩
  | ok ident =>
    simp only [Except.ok.injEq]
    split
    · rename_i hi
      exact ⟨fun h => (by cases h), fun ⟨⟨he, _⟩, hn⟩ => absurd (he ▸ hi) hn⟩
    · rename_i hi
      cases source.describe limit e.payload with
      | error f => exact ⟨fun h => (by cases h), fun h => (by cases h.1.2)⟩
      | ok content' =>
        constructor
        · intro h
          obtain ⟨rfl, rfl⟩ := Prod.mk.inj (Except.ok.inj h)
          exact ⟨⟨rfl, rfl⟩, hi⟩
        · rintro ⟨⟨rfl, h⟩, _⟩
          rw [Except.ok.inj h]

theorem addEntry_eq (h : c.Sealed table) (e : Entry) : addEntry source c e =
    c.enter <$> reading source c.nestingLimit (table.map Prod.fst) e := by
  unfold addEntry reading
  cases Catalog.ident e.node e.field with
  | error f => rfl
  | ok ident =>
    simp only [Attempt.ofFault, ok_bind]
    by_cases hi : ident ∈ table.map Prod.fst
    · rw [Catalog.add_of_mem (h.idents ▸ hi), if_pos hi]
      rfl
    · rw [if_neg hi]
      cases hd : source.describe c.nestingLimit e.payload with
      | ok content =>
        rw [h.add_ok (k := (ident, content)) hi hd]
        rfl
      | error f =>
        rw [Catalog.add_of_error h.tight.toSound (h.idents ▸ hi) hd]
        rfl

theorem Means.enter {e : Entry} {k : String × Content} (hm : Means source c.nestingLimit e k)
    (h : c.Sealed table) (hi : k.1 ∉ table.map Prod.fst) :
    (c.enter k).Sealed (table ++ [k]) ∧ c.Filled (c.enter k) := by
  have hfilled := Catalog.Filled.start.add k.1 source e.payload (c := c)
  rw [h.add_ok hi hm.2] at hfilled
  exact ⟨h.enter hi (Arena.describe_fits hm.2), hfilled⟩

theorem foldlM_addEntry (h : c.Sealed table) (entries : List Entry) :
    entries.foldlM (addEntry source) c =
      c.enterAll <$> readings source c.nestingLimit (table.map Prod.fst) entries := by
  induction entries generalizing c table with
  | nil => rfl
  | cons e entries ih =>
    rw [List.foldlM_cons, addEntry_eq h]
    cases hr : reading source c.nestingLimit (table.map Prod.fst) e with
    | error f =>
      rw [readings, hr]
      rfl
    | ok k =>
      obtain ⟨hm, hi⟩ := reading_eq_ok_iff.1 hr
      have hlimit : (c.enter k).nestingLimit = c.nestingLimit := rfl
      refine (ih (hm.enter h hi).1).trans ?_
      rw [readings_cons hr, hlimit]
      cases readings source c.nestingLimit ((table ++ [k]).map Prod.fst) entries <;> rfl

/-- The catalog of a manifest is what has been read, entered in order. -/
theorem catalog_eq (m : Manifest) (s : Settings) : m.catalog s = m.source >>= fun source =>
    s.newCatalog.enterAll <$> readings source s.nestingLimit [] m.entries :=
  bind_congr fun _ => foldlM_addEntry (Catalog.sealed_new _ _ _) m.entries

theorem enterAll_readings {entries : List Entry} {more : List (String × Content)}
    (h : c.Sealed table)
    (hr : readings source c.nestingLimit (table.map Prod.fst) entries = .ok more) :
    (c.enterAll more).Sealed (table ++ more) ∧ c.Filled (c.enterAll more) ∧
      List.Forall₂ (Means source c.nestingLimit) entries more := by
  induction entries generalizing c table more with
  | nil =>
    obtain rfl := Except.ok.inj hr
    exact ⟨(List.append_nil table).symm ▸ h, .start, .nil⟩
  | cons e entries ih =>
    obtain ⟨k, hk, _⟩ := bind_eq_ok_iff.1 hr
    rw [readings_cons hk] at hr
    obtain ⟨rest, hrest, rfl⟩ := map_eq_ok_iff.1 hr
    obtain ⟨hm, hi⟩ := reading_eq_ok_iff.1 hk
    obtain ⟨hsealed, hfilled⟩ := hm.enter h hi
    obtain ⟨hs, hf, hmeans⟩ := ih hsealed hrest
    refine ⟨?_, hfilled.trans hf, .cons hm hmeans⟩
    rwa [List.append_cons]

theorem catalog_eq_ok {m : Manifest} {s : Settings} (h : m.catalog s = .ok c) :
    ∃ source table, m.source = .ok source ∧ c.Sealed table ∧ s.newCatalog.Filled c ∧
      List.Forall₂ (Means source s.nestingLimit) m.entries table := by
  rw [catalog_eq] at h
  obtain ⟨source, hsource, h⟩ := bind_eq_ok_iff.1 h
  obtain ⟨table, htable, rfl⟩ := map_eq_ok_iff.1 h
  exact ⟨source, table, hsource, enterAll_readings (Catalog.sealed_new _ _ _) htable⟩

end Manifest

end FrozenDefaults
