import FrozenDefaults.Proofs.Assembling
import FrozenDefaults.Proofs.Identifiers

/-!
# Names of items

A listing declares an item for the message of each world, one for the size of the
reader's message, and two for every entry. No two items of a listing have the same
name, whatever the identifiers of the entries are.
-/

namespace FrozenDefaults

namespace Listing

inductive Item where
  | message (world : World)
  | readerSize
  | binding (world : World) (ident : String)
  deriving DecidableEq

namespace Item

def name : Item → String
  | message world => messageName world
  | readerSize => readerSizeName
  | binding world ident => bindingName world ident

/-- What stands in front of the name of an item where it is declared. -/
def keyword : Item → String
  | message _ => "static "
  | readerSize => "pub(crate) const "
  | binding _ _ => "pub(crate) static "

/-- The line declares the item. -/
def DeclaredBy (item : Item) (line : String) : Prop :=
  ∃ rest, line = item.keyword ++ item.name ++ ": " ++ rest

/-- The character behind the underscore that every name begins with. -/
def initial : Item → Char
  | message .builder => 'B'
  | message .reader | readerSize => 'R'
  | binding .builder _ => 'b'
  | binding .reader _ => 'r'

theorem toList_bindingName (world : World) (ident : String) :
    (bindingName world ident).toList = (s!"_{world.name}_").toList ++ ident.toList :=
  String.toList_append

theorem initial_eq (item : Item) : item.name.toList[1]? = some item.initial := by
  cases item with
  | message world => cases world <;> rfl
  | readerSize => rfl
  | binding world ident =>
    show (bindingName world ident).toList[1]? = _
    rw [toList_bindingName]
    cases world <;> rfl

/-- The initial tells the items of two worlds and of two kinds apart, but for the reader's message
and its size, which have names of their own. -/
theorem name_injective : Function.Injective name := by
  intro x y h
  have hinitial : x.initial = y.initial := by
    have hx := x.initial_eq
    rw [h, y.initial_eq] at hx
    exact (Option.some.inj hx).symm
  have hident {world : World} {i j : String} (h : bindingName world i = bindingName world j) :
      i = j := by
    have hlist := congrArg String.toList h
    rw [toList_bindingName, toList_bindingName] at hlist
    exact String.toList_inj.1 (List.append_cancel_left hlist)
  have hsize : messageName .reader ≠ readerSizeName := by decide
  rcases x with (_ | _) | _ | ⟨_ | _, i⟩ <;> rcases y with (_ | _) | _ | ⟨_ | _, j⟩
  all_goals simp only [initial, Char.reduceEq] at hinitial
  any_goals rfl
  · exact absurd h hsize
  · exact absurd h.symm hsize
  · rw [hident h]
  · rw [hident h]

end Item

/-- The items of a listing for entries under these identifiers. -/
def items (idents : List String) : List Item :=
  .message .builder :: .message .reader :: .readerSize ::
    (idents.map (.binding .builder) ++ idents.map (.binding .reader))

theorem nodup_items {idents : List String} (h : idents.Nodup) : (items idents).Nodup := by
  have hbindings (world : World) : (idents.map (Item.binding world)).Nodup :=
    h.map fun _ _ he => (Item.binding.inj he).2
  have hworlds : List.Disjoint (idents.map (Item.binding .builder))
      (idents.map (Item.binding .reader)) := by
    intro x hx hx'
    obtain ⟨_, _, rfl⟩ := List.mem_map.1 hx
    obtain ⟨_, _, he⟩ := List.mem_map.1 hx'
    cases he
  simp [items, (hbindings .builder).append (hbindings .reader) hworlds]

/-- A line that begins with a letter declares an item. All other lines of a listing are comments,
attributes, parts of an item that are set in, and ends of items. -/
def isDeclaration (line : String) : Bool := line.toList.head?.any Char.isAlpha

theorem isDeclaration_append {mark : String} {b : Bool}
    (h : mark.toList.head?.map Char.isAlpha = some b) (text : String) :
    isDeclaration (mark ++ text) = b := by
  obtain ⟨c, hc, rfl⟩ := Option.map_eq_some_iff.1 h
  rw [isDeclaration, String.toList_append, List.head?_append, hc, Option.some_or, Option.any_some]

theorem Item.DeclaredBy.isDeclaration {item : Item} {line : String} (h : item.DeclaredBy line) :
    isDeclaration line = true := by
  obtain ⟨rest, rfl⟩ := h
  rw [String.append_assoc, String.append_assoc]
  cases item <;> (rw [Item.keyword]; exact isDeclaration_append rfl _)

/-- The lines declare the items, one each and in this order, and no others. -/
def Declare (lines : List String) (items : List Item) : Prop :=
  List.Forall₂ Item.DeclaredBy items (lines.filter isDeclaration)

theorem Declare.append {lines lines' : List String} {items items' : List Item}
    (h : Declare lines items) (h' : Declare lines' items') :
    Declare (lines ++ lines') (items ++ items') := by
  rw [Declare, List.filter_append]
  exact List.rel_append h h'

theorem declare_singleton {item : Item} {before after : List String} {line : String}
    (hl : item.DeclaredBy line) (hb : ∀ l ∈ before, isDeclaration l = false)
    (ha : ∀ l ∈ after, isDeclaration l = false) : Declare (before ++ line :: after) [item] := by
  have hnone {lines : List String} (h : ∀ l ∈ lines, isDeclaration l = false) :
      lines.filter isDeclaration = [] :=
    List.filter_eq_nil_iff.2 fun l hm => by rw [h l hm]; exact Bool.false_ne_true
  rw [Declare, List.filter_append, hnone hb, List.nil_append,
    List.filter_cons_of_pos hl.isDeclaration, hnone ha]
  exact .cons hl .nil

section Blocks

variable (world : World) (s : Settings)

theorem isDeclaration_of_mem_indented {lines : List (List Char)} {line : String}
    (h : line ∈ indented lines) : isDeclaration line = false := by
  cases lines with
  | nil => cases h
  | cons first rest =>
    rcases List.mem_cons.1 h with rfl | h
    · exact isDeclaration_append rfl _
    · obtain ⟨cs, _, rfl⟩ := List.mem_map.1 h
      exact isDeclaration_append rfl _

theorem declare_messageLines (capacity : Option String) (a : Arena) :
    Declare (messageLines world s capacity a) [.message world] := by
  show Declare ([_] ++ _ :: _) _
  refine declare_singleton ⟨?_, ?_⟩ ?_ ?_
  rotate_left
  · simp only [String.append_assoc]
    rfl
  · intro l hl
    obtain rfl := List.mem_singleton.1 hl
    simp only [String.append_assoc]
    exact isDeclaration_append rfl _
  · intro l hl
    rcases List.mem_cons.1 hl with rfl | hl
    · simp only [String.append_assoc]
      exact isDeclaration_append rfl _
    rcases List.mem_append.1 hl with hl | hl
    · obtain ⟨lines, _, hl⟩ := List.mem_flatMap.1 hl
      exact isDeclaration_of_mem_indented hl
    · simp only [List.mem_cons, List.not_mem_nil, or_false] at hl
      rcases hl with rfl | rfl | rfl
      · rfl
      · simp only [String.append_assoc]
        exact isDeclaration_append rfl _
      · rfl

theorem declare_readerSetupLines (n : Nat) (c : Catalog .reader) :
    Declare (readerSetupLines s n c) [.readerSize, .message .reader] := by
  have hsize : Declare ((readerSetupLines s n c).take 2) [.readerSize] := by
    show Declare ([_] ++ [_]) _
    refine declare_singleton ⟨s!"usize = {n};", ?_⟩ ?_ ?_
    · have hmark : ": usize = " = ": " ++ "usize = " := rfl
      simp only [hmark, String.append_assoc]
      rfl
    · intro l hl
      obtain rfl := List.mem_singleton.1 hl
      simp only [String.append_assoc]
      exact isDeclaration_append rfl _
    · intro l hl
      cases hl
  exact hsize.append (declare_messageLines .reader s _ c.arena)

theorem declare_bindingLines (rt ident : String) (d : Descriptor) :
    Declare (bindingLines world rt ident d) [.binding world ident] := by
  show Declare ([_] ++ _ :: _) _
  refine declare_singleton ⟨?_, ?_⟩ ?_ ?_
  rotate_left
  · simp only [String.append_assoc]
    rfl
  · intro l hl
    obtain rfl := List.mem_singleton.1 hl
    rfl
  · intro l hl
    rcases List.mem_cons.1 hl with rfl | hl
    · simp only [String.append_assoc]
      exact isDeclaration_append rfl _
    rcases List.mem_append.1 hl with hl | hl
    · rw [isDeclaration, Reading.head?_descriptorLines hl]
      rfl
    · obtain rfl := List.mem_singleton.1 hl
      rfl

theorem declare_bindings (c : Catalog world) :
    Declare (bindings s c) ((c.byKind.map Prod.fst).map (.binding world)) := by
  rw [bindings]
  induction c.byKind with
  | nil => exact .nil
  | cons e entries ih =>
    rw [List.flatMap_cons]
    exact (declare_bindingLines world s.runtimePath e.1 e.2).append ih

end Blocks

end Listing

namespace Catalog

variable {world : World} {c : Catalog world}

theorem idents_of_addAll {source : Arena} {entries : List (String × Descriptor)}
    {t : Catalog world} (h : addAll source entries c = .ok t) :
    t.entries.map Prod.fst = c.entries.map Prod.fst ++ entries.map Prod.fst := by
  induction entries generalizing c with
  | nil => rw [← Except.ok.inj h, List.map_nil, List.append_nil]
  | cons e entries ih =>
    by_cases hi : e.1 ∈ c.entries.map Prod.fst
    · rw [addAll, add_of_mem hi] at h
      cases h
    · rw [addAll, add_of_new hi] at h
      split at h <;> rename_i hadd
      · split at hadd
        · obtain ⟨_, rfl⟩ := Prod.mk.inj hadd
          rw [ih h, List.map_append, List.append_assoc]
          rfl
        · cases (Prod.mk.inj hadd).1
      · cases h

theorem idents_toReader {c : Catalog .builder} {r : Catalog .reader} (h : c.toReader = .ok r) :
    (r.byKind.map Prod.fst).Perm (c.byKind.map Prod.fst) := by
  have hidents := idents_of_addAll h
  rw [new, List.map_nil, List.nil_append] at hidents
  rw [← hidents]
  exact r.byKind_perm.map Prod.fst

theorem Assembled.nodup_idents (h : c.Assembled) : (c.entries.map Prod.fst).Nodup := by
  obtain ⟨_, table, _, hs⟩ := h.exists_sealed
  have hidents : c.entries.map Prod.fst = table.map Prod.fst := hs.idents
  rw [hidents]
  exact hs.distinct

end Catalog

namespace Listing

/-- A listing that has entries declares the items for their identifiers. -/
theorem declare_ofCatalog {c : Catalog .builder} {s : Settings} {l : Listing}
    (hl : ofCatalog s c = .ok l) : ∃ declared, Declare l.blocks.flatten declared ∧
      declared.Perm (if c.isEmpty then [] else items (c.entries.map Prod.fst)) := by
  obtain ⟨_, _, hl⟩ := bind_eq_ok_iff.1 hl
  split at hl <;> rename_i hempty
  · rw [← Except.ok.inj hl, if_pos hempty]
    exact ⟨[], .nil, .nil⟩
  · obtain ⟨r, hr, hl⟩ := bind_eq_ok_iff.1 hl
    rw [← Except.ok.inj hl, if_neg hempty]
    have hmessage := declare_messageLines .builder s none c.arena
    have hsetup := declare_readerSetupLines s c.arena.totalSize r
    refine ⟨_, hmessage.append ((declare_bindings .builder s c).append
      (hsetup.append ((declare_bindings .reader s r).append .nil))), ?_⟩
    have hbuilder := c.byKind_perm.map Prod.fst
    have hreader := (Catalog.idents_toReader hr).trans hbuilder
    have hbindings := (hbuilder.map (Item.binding .builder)).append
      (hreader.map (Item.binding .reader))
    rw [List.append_nil]
    refine .cons _ ((List.perm_append_comm_assoc _ [Item.readerSize, .message .reader] _).trans ?_)
    exact ((hbindings.cons _).cons _).trans (.swap _ _ _)

theorem nodup_names {c : Catalog .builder} (h : c.Assembled) {s : Settings} {l : Listing}
    (hl : ofCatalog s c = .ok l) : ∃ declared, Declare l.blocks.flatten declared ∧
      declared.Perm (if c.isEmpty then [] else items (c.entries.map Prod.fst)) ∧
      (declared.map Item.name).Nodup := by
  obtain ⟨declared, hd, hp⟩ := declare_ofCatalog hl
  refine ⟨declared, hd, hp, (hp.nodup_iff.2 ?_).map Item.name_injective⟩
  split
  · exact List.nodup_nil
  · exact nodup_items h.nodup_idents

theorem isFieldName_bindingName (world : World) {node : Nat} {field ident : String}
    (h : Catalog.ident node field = .ok ident) :
    Catalog.IsFieldName (bindingName world ident) ∧
      (bindingName world ident).toList.head? = some '_' := by
  obtain ⟨hfield, rfl⟩ := Catalog.ident_eq_ok_iff.1 h
  have hhead : (bindingName world (s!"default_value_{node}_{field}")).toList.head? = some '_' := by
    rw [Item.toList_bindingName]
    cases world <;> rfl
  refine ⟨Catalog.isFieldName_iff.1 ?_, hhead⟩
  have hdigits : node.repr.toList.all Catalog.isIdentChar = true := by
    rw [Nat.toList_repr, List.all_eq_true]
    intro c hc
    have hdigit : c.isDigit = true := Nat.isDigit_of_mem_toDigits (by omega) (by omega) hc
    rw [Catalog.isIdentChar, Char.isAlphanum, hdigit, Bool.or_true, Bool.true_or]
  have hchars : field.toList.all Catalog.isIdentChar = true :=
    (Bool.and_eq_true_iff.1 (Catalog.isFieldName_iff.2 hfield)).2
  rw [Catalog.isFieldName, Bool.and_eq_true, decide_eq_true_eq]
  constructor
  · intro hempty
    rw [hempty] at hhead
    cases hhead
  · rw [Item.toList_bindingName, Catalog.toList_ident]
    simp only [List.all_append, hdigits, hchars, Bool.and_eq_true]
    exact ⟨by cases world <;> decide, by decide, by decide, by decide, by decide⟩

/-- Names do not collide. The identifier of a field tells its node and its name. Whatever the
identifiers are under which a catalog was filled, the items of its listing have names of their own:
the messages of the two worlds, the size of the reader's, and a binding in each world for every
entry. For identifiers of fields the names of the bindings are plain. -/
theorem names_distinct :
    (∀ {node node' : Nat} {field field' ident : String}, Catalog.ident node field = .ok ident →
      Catalog.ident node' field' = .ok ident → node = node' ∧ field = field') ∧
    (∀ {c : Catalog .builder}, c.Assembled → ∀ {s : Settings} {l : Listing},
      ofCatalog s c = .ok l → ∃ declared, Declare l.blocks.flatten declared ∧
        declared.Perm (if c.isEmpty then [] else items (c.entries.map Prod.fst)) ∧
        (declared.map Item.name).Nodup) ∧
    ∀ (world : World) {node : Nat} {field ident : String}, Catalog.ident node field = .ok ident →
      Catalog.IsFieldName (bindingName world ident) ∧
        (bindingName world ident).toList.head? = some '_' :=
  ⟨Catalog.ident_injective, nodup_names, isFieldName_bindingName⟩

/-- Entries for two fields whose identifiers have the same letters and digits, and an entry whose
identifier is a part of another item's name. -/
def alikeIdents : Catalog .builder :=
  let c := Catalog.new .builder 0 64
  let c := (c.add "default_value_1_2_x" Arena.sample (.pointer ⟨0, 0, 8⟩)).2
  let c := (c.add "default_value_12_x" Arena.sample (.pointer ⟨0, 0, 8⟩)).2
  (c.add "DEFAULTS_MESSAGE" Arena.sample (.pointer ⟨0, 0, 8⟩)).2

theorem names_distinct_sample :
    (Catalog.ident 1 "2_x" = .ok "default_value_1_2_x" ∧
      Catalog.ident 12 "x" = .ok "default_value_12_x" ∧
      ∀ node field, Catalog.ident node field = .ok "default_value_12_x" →
        12 = node ∧ "x" = field) ∧
    (∃ l declared, ofCatalog .default alikeIdents = .ok l ∧ Declare l.blocks.flatten declared ∧
      declared.length = 9 ∧ (declared.map Item.name).Nodup) ∧
    Catalog.IsFieldName "_reader_default_value_12_x" := by
  obtain ⟨hident, hnames, hplain⟩ := names_distinct
  have h : Catalog.ident 12 "x" = .ok "default_value_12_x" := by decide +kernel
  refine ⟨⟨by decide +kernel, h, fun node field => hident h⟩, ?_, (hplain .reader h).1⟩
  have hassembled : alikeIdents.Assembled := .add (.add (.add (.new 0 64) _ _ _) _ _ _) _ _ _
  have hok : (ofCatalog .default alikeIdents).isOk = true := by decide +kernel
  cases hl : ofCatalog .default alikeIdents with
  | error f =>
    rw [hl] at hok
    cases hok
  | ok l =>
    obtain ⟨declared, hd, hp, hn⟩ := hnames hassembled hl
    exact ⟨l, declared, rfl, hd, hp.length_eq.trans (by decide +kernel), hn⟩

end Listing

end FrozenDefaults
