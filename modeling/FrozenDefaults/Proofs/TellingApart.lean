import FrozenDefaults.Proofs.Bindings
import FrozenDefaults.Proofs.Kinds

/-!
# Catalogs told apart by their bindings

The bindings of a catalog stand one behind the other, with nothing to separate
them. Still the lines fix the catalog: a descriptor is read from the lines in
front, whatever follows them, and with its kind all is known that stands around
the identifier in the line before. An identifier may be any text.
-/

namespace FrozenDefaults

namespace Listing

variable {world : World} {rt : String}

/-- The line in which a binding has its identifier. -/
def bindingHead (world : World) (rt ident : String) (d : Descriptor) : String :=
  s!"pub(crate) static {bindingName world ident}: {rt}::DefaultValue<" ++
    s!"{rt}::{world.storageName}, {rt}::{descriptorType d}> = {rt}::DefaultValue::new("

theorem bindingLines_append (ident : String) (d : Descriptor) (rest : List String) :
    bindingLines world rt ident d ++ rest = "#[allow(non_upper_case_globals)]" ::
      bindingHead world rt ident d :: s!"  &{messageName world}," ::
        (descriptorLines rt d ++ ");" :: rest) := by
  rw [bindingLines, List.append_assoc, List.append_assoc]
  rfl

theorem declaration_injective {i j : String}
    (h : Reading.declaration world i = Reading.declaration world j) : i = j := by
  have hlist := congrArg String.toList h
  rw [Reading.toList_declaration, Reading.toList_declaration] at hlist
  exact String.toList_inj.1 (List.append_cancel_right (List.append_cancel_left hlist))

/-- Around the identifier stands what the kind of the descriptor decides. -/
theorem exists_bindingHead_eq (world : World) (rt : String) (d : Descriptor) :
    ∃ type, ∀ ident, bindingHead world rt ident d = Reading.declaration world ident ++ type := by
  refine ⟨rt ++ "::DefaultValue<" ++
    s!"{rt}::{world.storageName}, {rt}::{descriptorType d}> = {rt}::DefaultValue::new(", fun i => ?_⟩
  have hassoc (x y z w : String) : x ++ y ++ z ++ w = x ++ (y ++ z ++ w) := by
    simp only [String.append_assoc]
  exact hassoc (Reading.declaration world i) rt "::DefaultValue<" _

theorem bindingHead_injective {i j : String} {d : Descriptor}
    (h : bindingHead world rt i d = bindingHead world rt j d) : i = j := by
  obtain ⟨type, htype⟩ := exists_bindingHead_eq world rt d
  rw [htype, htype] at h
  exact declaration_injective ((String.append_left_inj type).1 h)

/-- A binding ends where its lines say, and they hold its identifier and its descriptor. -/
theorem bindingLines_append_injective {i j : String} {d e : Descriptor} {rest rest' : List String}
    (h : bindingLines world rt i d ++ rest = bindingLines world rt j e ++ rest') :
    i = j ∧ d = e ∧ rest = rest' := by
  rw [bindingLines_append, bindingLines_append] at h
  -- The first line is that of every binding, the second has the identifier.
  obtain ⟨hhead, h⟩ := List.cons.inj (List.cons.inj h).2
  have hlines := (List.cons.inj h).2
  -- The descriptor first: what stands around the identifier depends on its kind.
  have hread := Reading.descriptor?_descriptorLines rt d (");" :: rest)
  rw [hlines, Reading.descriptor?_descriptorLines] at hread
  obtain rfl := Option.some.inj hread
  exact ⟨bindingHead_injective hhead, rfl, (List.cons.inj (List.append_cancel_left hlines)).2⟩

theorem flatMap_bindingLines_injective {entries entries' : List (String × Descriptor)}
    (h : (entries.flatMap fun e => bindingLines world rt e.1 e.2) =
      entries'.flatMap fun e => bindingLines world rt e.1 e.2) : entries = entries' := by
  have hne (e : String × Descriptor) (rest : List String) :
      bindingLines world rt e.1 e.2 ++ rest ≠ [] := by
    rw [bindingLines_append]
    exact List.cons_ne_nil _ _
  -- By induction on both lists: what is behind the first bindings is the same again.
  induction entries generalizing entries' with
  | nil =>
    cases entries' with
    | nil => rfl
    | cons e' entries' => exact absurd h.symm (hne e' _)
  | cons e entries ih =>
    cases entries' with
    | nil => exact absurd h (hne e _)
    | cons e' entries' =>
      obtain ⟨hident, hd, hrest⟩ := bindingLines_append_injective h
      rw [Prod.ext hident hd, ih hrest]

end Listing

namespace Catalog

variable {world : World} {c c' : Catalog world}

theorem ofKind_byKind (c : Catalog world) {n : Nat} (hn : n < 3) :
    ofKind (·.2.kind) n c.byKind = ofKind (·.2.kind) n c.entries := by
  rw [byKind_eq, ofKind_inKinds _ hn]

theorem byKind_injective (h : c.byKind = c'.byKind) :
    c.structs = c'.structs ∧ c.lists = c'.lists ∧ c.pointers = c'.pointers := by
  have hkind {n : Nat} (hn : n < 3) :
      ofKind (·.2.kind) n c.entries = ofKind (·.2.kind) n c'.entries := by
    rw [← ofKind_byKind c hn, h, ofKind_byKind c' hn]
  have hview {α : Type} {wrap : α → Descriptor} (hw : ∀ v w, wrap v = wrap w → v = w)
      {l l' : List (String × α)}
      (hl : l.map (fun e => (e.1, wrap e.2)) = l'.map fun e => (e.1, wrap e.2)) : l = l' := by
    refine (List.map_inj_right fun x y hxy => ?_).1 hl
    obtain ⟨hident, hd⟩ := Prod.mk.inj hxy
    exact Prod.ext hident (hw _ _ hd)
  have hstructs := hkind (n := 0) (by omega)
  have hlists := hkind (n := 1) (by omega)
  have hpointers := hkind (n := 2) (by omega)
  rw [← map_structs, ← map_structs] at hstructs
  rw [← map_lists, ← map_lists] at hlists
  rw [← map_pointers, ← map_pointers] at hpointers
  exact ⟨hview (fun _ _ => Descriptor.struct.inj) hstructs,
    hview (fun _ _ => Descriptor.list.inj) hlists,
    hview (fun _ _ => Descriptor.pointer.inj) hpointers⟩

end Catalog

namespace Listing

/-- The bindings of a catalog fix its entries: their identifiers, whatever text these are, with
their descriptors, in the order of each kind. -/
theorem bindings_fix_entries {world : World} {s s' : Settings}
    (hrt : s.runtimePath = s'.runtimePath) {c c' : Catalog world}
    (h : bindings s c = bindings s' c') :
    c.structs = c'.structs ∧ c.lists = c'.lists ∧ c.pointers = c'.pointers := by
  rw [bindings, bindings, hrt] at h
  exact Catalog.byKind_injective (flatMap_bindingLines_injective h)

/-- Three entries under identifiers that are no names. Neither the capacity nor the bytes are
printed. -/
def lookalike (capacity : Nat) (b : UInt8) : Catalog .builder :=
  let source : Arena := ⟨#[⟨Array.replicate 8 b ++ Array.replicate 8 0, 16⟩], 1024⟩
  let c := Catalog.new .builder capacity 64
  let c := (c.add "p: rt::Slice,\n);" source (.pointer ⟨0, 8, 8⟩)).2
  let c := (c.add "" source (.list ⟨⟨0, 0, 8⟩, .bytes1, 3⟩)).2
  (c.add "p" source (.struct ⟨⟨0, 0, 8⟩, ⟨0, 8, 8⟩⟩)).2

theorem bindings_fix_entries_sample :
    let c := lookalike 64 1
    let c' := lookalike 4096 2
    bindings ⟨"rt", 5, 8, 64⟩ c = bindings ⟨"rt", 64, 0, 1⟩ c' ∧ c ≠ c' ∧ c.size = 3 ∧
      c.structs = c'.structs ∧ c.lists = c'.lists ∧ c.pointers = c'.pointers := by
  have h : bindings ⟨"rt", 5, 8, 64⟩ (lookalike 64 1) =
      bindings ⟨"rt", 64, 0, 1⟩ (lookalike 4096 2) := by decide +kernel
  exact ⟨h, by decide +kernel, by decide +kernel, bindings_fix_entries rfl h⟩

end Listing

end FrozenDefaults
