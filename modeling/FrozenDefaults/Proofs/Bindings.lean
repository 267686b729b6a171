import FrozenDefaults.Proofs.Lexing

/-!
# Bindings read back

The descriptor that is bound to an identifier is read from the lines behind the
one that declares it. No identifier with a colon is ever bound, so that the colon
behind an identifier ends it.
-/

namespace FrozenDefaults

namespace Reading

open Listing (bindingName messageName bindingLines descriptorLines descriptorType)

def declaration (world : World) (ident : String) : String :=
  s!"pub(crate) static {bindingName world ident}: "

def declares (world : World) (ident line : String) : Bool :=
  (declaration world ident).toList.isPrefixOf line.toList

/-- The descriptor that is bound to an identifier, if it is bound to the message of its world. -/
def bound? (world : World) (rt ident : String) (block : List String) : Option Descriptor :=
  match block.dropWhile (! declares world ident ·) with
  | _ :: message :: lines =>
    if message = s!"  &{messageName world}," then descriptor? rt lines else none
  | _ => none

variable {world : World} {rt ident i : String}

theorem eq_of_prefix_colon {cs cs' rest rest' : List Char} (h : ':' ∉ cs) (h' : ':' ∉ cs')
    (hp : cs ++ ':' :: rest <+: cs' ++ ':' :: rest') : cs = cs' := by
  obtain ⟨t, ht⟩ := hp
  have htake {us : List Char} (hu : ':' ∉ us) (vs : List Char) :
      (us ++ ':' :: vs).takeWhile (· != ':') = us := by
    have hne : ∀ c ∈ us, (c != ':') = true := by
      intro c hc
      apply bne_iff_ne.2
      rintro rfl
      exact hu hc
    rw [List.takeWhile_append_of_pos hne, List.takeWhile_cons_of_neg (by simp), List.append_nil]
  rw [List.append_assoc, List.cons_append] at ht
  rw [← htake h (rest ++ t), ht, htake h' rest']

theorem toList_declaration (world : World) (ident : String) : (declaration world ident).toList =
    (s!"pub(crate) static _{world.name}_").toList ++ (ident.toList ++ [':', ' ']) := by
  have hname : declaration world ident =
      s!"pub(crate) static _{world.name}_" ++ (ident ++ ": ") := by
    have hmark : "pub(crate) static _" = "pub(crate) static " ++ "_" := rfl
    show "pub(crate) static " ++ ("_" ++ world.name ++ "_" ++ ident) ++ ": " =
      "pub(crate) static _" ++ world.name ++ "_" ++ (ident ++ ": ")
    simp only [hmark, String.append_assoc]
  have hident : (ident ++ ": ").toList = ident.toList ++ [':', ' '] := String.toList_append
  rw [hname, String.toList_append, hident]

theorem declares_declaration (h : ':' ∉ ident.toList) (hi : ':' ∉ i.toList) (rest : String) :
    declares world ident (declaration world i ++ rest) = decide (i = ident) := by
  rw [declares, String.toList_append, toList_declaration, toList_declaration, List.append_assoc]
  by_cases he : i = ident
  · subst he
    rw [decide_eq_true rfl, List.isPrefixOf_iff_prefix, List.prefix_append_right_inj]
    exact List.prefix_append _ _
  · rw [decide_eq_false he, Bool.eq_false_iff]
    intro hp
    have hp := (List.prefix_append_right_inj _).1 (List.isPrefixOf_iff_prefix.1 hp)
    rw [List.append_assoc] at hp
    exact he (String.toList_inj.1 (eq_of_prefix_colon h hi hp)).symm

theorem declares_eq_false {line : String} (h : line.toList.head?.all (· != 'p') = true) :
    declares world ident line = false := by
  refine isPrefixOf_eq_false ?_ h
  rw [toList_declaration]
  simp only [String.toList_append, List.append_assoc]
  rfl

theorem head?_descriptorLines {d : Descriptor} {line : String}
    (h : line ∈ descriptorLines rt d) : line.toList.head? = some ' ' := by
  have hclose : "  \x7d,".toList.head? = some ' ' := rfl
  cases d with
  | struct v =>
    simp only [descriptorLines, List.mem_cons, List.not_mem_nil, or_false] at h
    rcases h with rfl | rfl | rfl | rfl
    all_goals first | (simp only [String.toList_append, List.append_assoc]; rfl) | exact hclose
  | list v =>
    simp only [descriptorLines, List.mem_cons, List.not_mem_nil, or_false] at h
    rcases h with rfl | rfl | rfl | rfl | rfl
    all_goals first | (simp only [String.toList_append, List.append_assoc]; rfl) | exact hclose
  | pointer s =>
    simp only [descriptorLines, List.mem_cons, List.not_mem_nil, or_false] at h
    subst h
    simp only [String.toList_append, List.append_assoc]
    rfl

/-- A binding has one line with a declaration, the second one. -/
theorem bindingLines_cases (world : World) (rt i : String) (d : Descriptor) : ∃ first type rest,
    bindingLines world rt i d = first :: (declaration world i ++ type) :: rest ∧
      rest = s!"  &{messageName world}," :: (descriptorLines rt d ++ [");"]) ∧
      ∀ ident, declares world ident first = false ∧
        ∀ line ∈ rest, declares world ident line = false := by
  have hassoc (x y z w : String) : x ++ y ++ z ++ w = x ++ (y ++ (z ++ w)) := by
    rw [String.append_assoc, String.append_assoc]
  have htype : s!"pub(crate) static {bindingName world i}: {rt}::DefaultValue<" ++
      s!"{rt}::{world.storageName}, {rt}::{descriptorType d}> = {rt}::DefaultValue::new(" =
        declaration world i ++ (rt ++ ("::DefaultValue<" ++
          s!"{rt}::{world.storageName}, {rt}::{descriptorType d}> = {rt}::DefaultValue::new(")) :=
    hassoc (declaration world i) rt "::DefaultValue<" _
  rw [bindingLines, htype, List.append_assoc]
  refine ⟨_, _, _, rfl, rfl, fun ident => ⟨?_, ?_⟩⟩
  · exact declares_eq_false rfl
  · intro line hl
    apply declares_eq_false
    rcases List.mem_append.1 hl with hl | hl
    · obtain rfl := List.mem_singleton.1 hl
      simp only [String.toList_append, List.append_assoc]
      rfl
    · rcases List.mem_append.1 hl with hl | hl
      · rw [head?_descriptorLines hl]
        rfl
      · obtain rfl := List.mem_singleton.1 hl
        rfl

theorem countP_bindingLines (h : ':' ∉ ident.toList) (hi : ':' ∉ i.toList) (d : Descriptor) :
    (bindingLines world rt i d).countP (declares world ident) = if i = ident then 1 else 0 := by
  obtain ⟨first, type, rest, hlines, _, hnone⟩ := bindingLines_cases world rt i d
  obtain ⟨hfirst, hrest⟩ := hnone ident
  have hzero : rest.countP (declares world ident) = 0 :=
    List.countP_eq_zero.2 fun line hl => by simp [hrest line hl]
  rw [hlines, List.countP_cons, List.countP_cons, hfirst, hzero, declares_declaration h hi]
  by_cases he : i = ident
  · simp [he]
  · simp [he]

section Block

variable {entries : List (String × Descriptor)} (hcolon : ∀ e ∈ entries, ':' ∉ e.1.toList)
include hcolon

theorem countP_bindings (h : ':' ∉ ident.toList) :
    (entries.flatMap fun e => bindingLines world rt e.1 e.2).countP (declares world ident) =
      (entries.map Prod.fst).count ident := by
  induction entries with
  | nil => rfl
  | cons e entries ih =>
    have he : (bindingLines world rt e.1 e.2).countP (declares world ident) = _ :=
      countP_bindingLines h (hcolon e List.mem_cons_self) e.2
    rw [List.flatMap_cons, List.countP_append, he,
      ih fun e' he' => hcolon e' (List.mem_cons_of_mem e he'), List.map_cons, List.count_cons,
      Nat.add_comm]
    simp

theorem bound?_bindings (hd : (entries.map Prod.fst).Nodup) {d : Descriptor}
    (hm : (ident, d) ∈ entries) :
    bound? world rt ident (entries.flatMap fun e => bindingLines world rt e.1 e.2) = some d := by
  have hident := hcolon _ hm
  induction entries with
  | nil => cases hm
  | cons e entries ih =>
    obtain ⟨hne, hd⟩ := List.nodup_cons.1 hd
    obtain ⟨first, type, rest, hlines, hrest, hnone⟩ := bindingLines_cases world rt e.1 e.2
    obtain ⟨hfirst, hinner⟩ := hnone ident
    have hdecl : declares world ident (declaration world e.1 ++ type) = decide (e.1 = ident) :=
      declares_declaration hident (hcolon e List.mem_cons_self) type
    rw [List.flatMap_cons, hlines]
    rcases List.mem_cons.1 hm with rfl | hm
    · rw [decide_eq_true rfl] at hdecl
      rw [bound?, List.cons_append, List.cons_append,
        List.dropWhile_cons_of_pos (by simp [hfirst]), List.dropWhile_cons_of_neg (by simp [hdecl]),
        hrest, List.cons_append, List.append_assoc]
      simp only [if_true]
      exact descriptor?_descriptorLines rt d _
    · have hother : e.1 ≠ ident := by
        rintro rfl
        exact hne (List.mem_map.2 ⟨_, hm, rfl⟩)
      rw [decide_eq_false hother] at hdecl
      have hskip : ∀ line ∈ first :: (declaration world e.1 ++ type) :: rest,
          (! declares world ident line) = true := by
        intro line hl
        rcases List.mem_cons.1 hl with rfl | hl
        · rw [hfirst, Bool.not_false]
        · rcases List.mem_cons.1 hl with rfl | hl
          · rw [hdecl, Bool.not_false]
          · rw [hinner line hl, Bool.not_false]
      rw [bound?, List.dropWhile_append_of_pos hskip]
      exact ih (fun e' he' => hcolon e' (List.mem_cons_of_mem e he')) hd hm

end Block

end Reading

end FrozenDefaults
