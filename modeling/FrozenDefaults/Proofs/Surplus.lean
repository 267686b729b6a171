import Mathlib.Data.Nat.Bitwise
import FrozenDefaults.Proofs.Images
import FrozenDefaults.Proofs.Meaning

/-!
# Bits that are no elements

The payload of a bit list is whole bytes, and behind the last element its last
byte has bits that are no elements. A copy takes them along. Images of contents
with the same elements are the same if and only if these surplus bits are, too.
-/

namespace FrozenDefaults

open Arena

namespace Shape

/-- The data of a part with zeros for the bits behind the last element of a bit list. -/
def crop : Shape → List UInt8 → List UInt8
  | .list .bit count, data =>
    data.modify (count.toNat / 8) fun b => UInt8.ofNat (b.toNat % 2 ^ (count.toNat % 8))
  | _, data => data

/-- The bits behind the last element of a bit list, as a number. -/
def surplus : Shape → List UInt8 → Nat
  | .list .bit count, data =>
    (data[count.toNat / 8]?.map fun b => b.toNat / 2 ^ (count.toNat % 8)).getD 0
  | _, _ => 0

end Shape

namespace Value

mutual

/-- The value without the bits that are no elements. -/
def cropped : Value → Value
  | .null => .null
  | .object shape parts => .object shape (croppedParts shape parts)

def croppedParts (shape : Shape) : List (Part Value) → List (Part Value)
  | [] => []
  | ⟨data, slots⟩ :: parts => ⟨shape.crop data, croppedSlots slots⟩ :: croppedParts shape parts

def croppedSlots : List Value → List Value
  | [] => []
  | v :: vs => cropped v :: croppedSlots vs

end

mutual

/-- The bits that are no elements, part after part. -/
def surplus : Value → List Nat
  | .null => []
  | .object shape parts => surplusParts shape parts

def surplusParts (shape : Shape) : List (Part Value) → List Nat
  | [] => []
  | ⟨data, slots⟩ :: parts => shape.surplus data :: (surplusSlots slots ++ surplusParts shape parts)

def surplusSlots : List Value → List Nat
  | [] => []
  | v :: vs => surplus v ++ surplusSlots vs

end

end Value

namespace Content

def cropped : Content → Content
  | .object shape parts => .object shape (Value.croppedParts shape parts)
  | .pointer v => .pointer v.cropped

def surplus : Content → List Nat
  | .object shape parts => Value.surplusParts shape parts
  | .pointer v => v.surplus

end Content

section Data

variable {shape : Shape} {data data' : List UInt8} {count : UInt32}

theorem ofNat_mod_inj {b b' : UInt8} {k : Nat} :
    UInt8.ofNat (b.toNat % 2 ^ k) = UInt8.ofNat (b'.toNat % 2 ^ k) ↔
      b.toNat % 2 ^ k = b'.toNat % 2 ^ k := by
  have hlt (b : UInt8) : b.toNat % 2 ^ k < 256 := (Nat.mod_le _ _).trans_lt b.toNat_lt
  rw [← UInt8.toNat_inj, UInt8.toNat_ofNat_of_lt' (hlt b), UInt8.toNat_ofNat_of_lt' (hlt b')]

theorem getElem?_crop (count : UInt32) (data : List UInt8) (i : Nat) :
    (Shape.crop (.list .bit count) data)[i]? =
      if count.toNat / 8 = i then
        data[i]?.map fun b => UInt8.ofNat (b.toNat % 2 ^ (count.toNat % 8))
      else data[i]? := by
  rw [Shape.crop, List.getElem?_modify]
  split
  · rfl
  · exact Option.map_id'

theorem Shape.eq_of_crop_eq (hc : shape.crop data = shape.crop data')
    (hs : shape.surplus data = shape.surplus data') : data = data' := by
  rcases shape with _ | ⟨_ | _ | _ | _ | _ | _ | _ | _, count⟩
  case list.bit =>
    apply List.ext_getElem?
    intro i
    have hi := congrArg (·[i]?) hc
    simp only [getElem?_crop] at hi
    split at hi
    · rename_i h
      subst h
      rw [Shape.surplus, Shape.surplus] at hs
      cases hb : data[count.toNat / 8]? <;> cases hb' : data'[count.toNat / 8]? <;>
        rw [hb, hb'] at hi hs
      · cases hi
      · cases hi
      · have hlow := ofNat_mod_inj.1 (Option.some.inj hi)
        rw [UInt8.toNat_inj.1 (Nat.ext_div_mod hs hlow)]
    · exact hi
  all_goals exact hc

/-- The element of a bit list with the given index. -/
def bit? (data : List UInt8) (i : Nat) : Option Bool := data[i / 8]?.map (·.toNat.testBit (i % 8))

theorem mod_two_pow_eq_iff {x y k : Nat} :
    x % 2 ^ k = y % 2 ^ k ↔ ∀ i < k, x.testBit i = y.testBit i := by
  constructor
  · intro h i hi
    have hbit := congrArg (·.testBit i) h
    simpa only [Nat.testBit_mod_two_pow, hi, decide_true, Bool.true_and] using hbit
  · intro h
    apply Nat.eq_of_testBit_eq
    intro i
    rw [Nat.testBit_mod_two_pow, Nat.testBit_mod_two_pow]
    by_cases hi : i < k
    · rw [h i hi]
    · simp only [hi, decide_false, Bool.false_and]

theorem eq_of_testBit_eq {b b' : UInt8} (h : ∀ i < 8, b.toNat.testBit i = b'.toNat.testBit i) :
    b = b' := by
  have hmod := mod_two_pow_eq_iff.2 h
  rw [Nat.mod_eq_of_lt b.toNat_lt, Nat.mod_eq_of_lt b'.toNat_lt] at hmod
  exact UInt8.toNat_inj.1 hmod

/-- Payloads are the same but for the surplus bits if and only if they have the same elements. -/
theorem crop_eq_iff (h : data.length = ElementLayout.bit.payloadBytes count)
    (h' : data'.length = ElementLayout.bit.payloadBytes count) :
    (Shape.list .bit count).crop data = (Shape.list .bit count).crop data' ↔
      ∀ i < count.toNat, bit? data i = bit? data' i := by
  have hlen : ElementLayout.bit.payloadBytes count = (count.toNat * 1 + 7) / 8 := rfl
  constructor
  · intro hc i hi
    have hbyte := congrArg (·[i / 8]?) hc
    simp only [getElem?_crop] at hbyte
    rw [bit?, bit?]
    split at hbyte
    · rw [List.getElem?_eq_getElem (by omega), List.getElem?_eq_getElem (by omega)] at hbyte ⊢
      have hlow := ofNat_mod_inj.1 (Option.some.inj hbyte)
      exact congrArg some (mod_two_pow_eq_iff.1 hlow (i % 8) (by omega))
    · rw [hbyte]
  · intro hbits
    have hbit {j m : Nat} (hj : j < data.length) (hj' : j < data'.length) (hm : m < 8)
        (hi : 8 * j + m < count.toNat) : data[j].toNat.testBit m = data'[j].toNat.testBit m := by
      have hb := hbits (8 * j + m) hi
      have hdiv : (8 * j + m) / 8 = j := by omega
      have hmod : (8 * j + m) % 8 = m := by omega
      rw [bit?, bit?, hdiv, hmod, List.getElem?_eq_getElem hj, List.getElem?_eq_getElem hj'] at hb
      exact Option.some.inj hb
    apply List.ext_getElem?
    intro j
    rw [getElem?_crop, getElem?_crop]
    by_cases hj : j < data.length
    · have hj' : j < data'.length := by omega
      rw [List.getElem?_eq_getElem hj, List.getElem?_eq_getElem hj']
      split
      · exact congrArg some (ofNat_mod_inj.2 (mod_two_pow_eq_iff.2 fun m hm =>
          hbit hj hj' (by omega) (by omega)))
      · exact congrArg some (eq_of_testBit_eq fun m hm => hbit hj hj' hm (by omega))
    · rw [List.getElem?_eq_none (by omega), List.getElem?_eq_none (by omega)]

end Data

namespace Value

mutual

/-- With its surplus bits a value can be made again. Lists of these are told apart from what
follows. -/
theorem eq_of_cropped_eq : ∀ (v w : Value) {rest rest' : List Nat}, v.cropped = w.cropped →
    v.surplus ++ rest = w.surplus ++ rest' → v = w ∧ rest = rest'
  | .null, .null, rest, rest', _, hs => ⟨rfl, hs⟩
  | .null, .object shape parts, rest, rest', hc, _ => by
    rw [cropped, cropped] at hc
    cases hc
  | .object shape parts, .null, rest, rest', hc, _ => by
    rw [cropped, cropped] at hc
    cases hc
  | .object shape parts, .object shape' parts', rest, rest', hc, hs => by
    rw [cropped, cropped] at hc
    obtain ⟨rfl, hc⟩ := Value.object.inj hc
    rw [surplus, surplus] at hs
    obtain ⟨rfl, hrest⟩ := eq_of_croppedParts_eq shape parts parts' hc hs
    exact ⟨rfl, hrest⟩

theorem eq_of_croppedParts_eq (shape : Shape) : ∀ (parts parts' : List (Part Value))
    {rest rest' : List Nat}, croppedParts shape parts = croppedParts shape parts' →
    surplusParts shape parts ++ rest = surplusParts shape parts' ++ rest' →
    parts = parts' ∧ rest = rest'
  | [], [], rest, rest', _, hs => ⟨rfl, hs⟩
  | [], ⟨data, slots⟩ :: parts, rest, rest', hc, _ => by
    rw [croppedParts, croppedParts] at hc
    cases hc
  | ⟨data, slots⟩ :: parts, [], rest, rest', hc, _ => by
    rw [croppedParts, croppedParts] at hc
    cases hc
  | ⟨data, slots⟩ :: parts, ⟨data', slots'⟩ :: parts', rest, rest', hc, hs => by
    rw [croppedParts, croppedParts] at hc
    obtain ⟨hpart, hparts⟩ := List.cons.inj hc
    obtain ⟨hdata, hslots⟩ := Part.mk.inj hpart
    rw [surplusParts, surplusParts, List.cons_append, List.cons_append, List.append_assoc,
      List.append_assoc] at hs
    obtain ⟨hhead, htail⟩ := List.cons.inj hs
    obtain ⟨rfl, hbehind⟩ := eq_of_croppedSlots_eq slots slots' hslots htail
    obtain ⟨rfl, hrest⟩ := eq_of_croppedParts_eq shape parts parts' hparts hbehind
    rw [Shape.eq_of_crop_eq hdata hhead]
    exact ⟨rfl, hrest⟩

theorem eq_of_croppedSlots_eq : ∀ (vs ws : List Value) {rest rest' : List Nat},
    croppedSlots vs = croppedSlots ws → surplusSlots vs ++ rest = surplusSlots ws ++ rest' →
    vs = ws ∧ rest = rest'
  | [], [], rest, rest', _, hs => ⟨rfl, hs⟩
  | [], w :: ws, rest, rest', hc, _ => by
    rw [croppedSlots, croppedSlots] at hc
    cases hc
  | v :: vs, [], rest, rest', hc, _ => by
    rw [croppedSlots, croppedSlots] at hc
    cases hc
  | v :: vs, w :: ws, rest, rest', hc, hs => by
    rw [croppedSlots, croppedSlots] at hc
    obtain ⟨hv, hvs⟩ := List.cons.inj hc
    rw [surplusSlots, surplusSlots, List.append_assoc, List.append_assoc] at hs
    obtain ⟨rfl, hbehind⟩ := eq_of_cropped_eq v w hv hs
    obtain ⟨rfl, hrest⟩ := eq_of_croppedSlots_eq vs ws hvs hbehind
    exact ⟨rfl, hrest⟩

end

end Value

namespace Content

variable {x y : Content}

theorem eq_of_cropped_eq (hc : x.cropped = y.cropped) (hs : x.surplus = y.surplus) : x = y := by
  have hs := congrArg (· ++ []) hs
  rcases x with ⟨shape, parts⟩ | v <;> rcases y with ⟨shape', parts'⟩ | w
  · obtain ⟨rfl, hc⟩ := Content.object.inj hc
    rw [(Value.eq_of_croppedParts_eq shape parts parts' hc hs).1]
  · cases hc
  · cases hc
  · rw [(Value.eq_of_cropped_eq v w (Content.pointer.inj hc) hs).1]

theorem home_of_cropped_eq (hc : x.cropped = y.cropped) : x.home = y.home := by
  rcases x with ⟨shape, parts⟩ | v <;> rcases y with ⟨shape', parts'⟩ | w
  · obtain ⟨rfl, _⟩ := Content.object.inj hc
    rfl
  · cases hc
  · cases hc
  · rfl

end Content

theorem eq_of_map_eq {α β γ : Type} {f : α → β} {g : α → γ} {l l' : List α}
    (hf : l.map f = l'.map f) (hg : l.map g = l'.map g)
    (h : ∀ x ∈ l, ∀ y ∈ l', f x = f y → g x = g y → x = y) : l = l' := by
  induction l generalizing l' with
  | nil => exact (List.map_eq_nil_iff.1 hf.symm).symm
  | cons x l ih =>
    cases l' with
    | nil => cases hf
    | cons y l' =>
      obtain ⟨hfx, hf⟩ := List.cons.inj hf
      obtain ⟨hgx, hg⟩ := List.cons.inj hg
      rw [h x List.mem_cons_self y List.mem_cons_self hfx hgx, ih hf hg fun x hx y hy =>
        h x (List.mem_cons_of_mem _ hx) y (List.mem_cons_of_mem _ hy)]

namespace Catalog

variable {world target : World} {c : Catalog world} {c' : Catalog target}
  {table : List (String × Content)}

/-- What the entries describe, by kind. -/
def contents (c : Catalog world) : Except Fault (List (String × Content)) :=
  c.byKind.mapM fun (i, d) => do return (i, ← c.arena.describe c.nestingLimit d)

theorem Sealed.contents (h : Sealed c table) (hs : c.arena.totalSize < 2 ^ 32) :
    c.contents = .ok (inKinds (·.2.kind) table) := by
  refine mapM_eq_ok_iff.2 (h.byKind.imp fun e k hk => ?_)
  show c.arena.describe c.nestingLimit e.2 >>= (fun x => pure (e.1, x)) = _
  rw [hk.described hs _ (.refl _ _), hk.ident]
  rfl

theorem Sealed.fits (h : Sealed c table) (hs : c.arena.totalSize < 2 ^ 32) :
    ∀ k ∈ inKinds (fun k : String × Content => k.2.kind) table,
      k.2.Fits c.nestingLimit ∧ k.2.size < 2 ^ 32 := by
  intro k hk
  obtain ⟨e, _, hk⟩ := Reading.exists_of_mem_right h.kept ((inKinds_contents table).mem_iff.1 hk)
  exact ⟨describe_fits (hk.described hs _ (.refl _ _)), hk.size.trans_lt hs⟩

/-- Two catalogs that additions have filled may differ in bits of bit lists that are no elements.
Their images, which never fail, are the same if and only if these bits are the same, too. -/
theorem images_eq_iff_surplus_eq {capacity capacity' limit limit' : Nat}
    (h : (Catalog.new world capacity limit).Filled c)
    (h' : (Catalog.new target capacity' limit').Filled c') (hs : c.arena.totalSize < 2 ^ 32)
    (hs' : c'.arena.totalSize < 2 ^ 32) :
    ∃ table table' images images', c.contents = .ok table ∧ c'.contents = .ok table' ∧
      c.images = .ok images ∧ c'.images = .ok images' ∧
      (table.map (fun k => (k.1, k.2.cropped)) = table'.map (fun k => (k.1, k.2.cropped)) →
        (images = images' ↔ table.map (·.2.surplus) = table'.map (·.2.surplus))) := by
  obtain ⟨table, hc⟩ := h.exists_sealed (sealed_new world capacity limit)
  obtain ⟨table', hc'⟩ := h'.exists_sealed (sealed_new target capacity' limit')
  refine ⟨_, _, _, _, hc.contents hs, hc'.contents hs', hc.images hs, hc'.images hs',
    fun hcropped => ⟨fun himages => ?_, fun hsurplus => ?_⟩⟩
  · rw [eq_of_map_eq hcropped himages fun x hx y hy hxy hi => ?_]
    obtain ⟨hident, hxy⟩ := Prod.mk.inj hxy
    obtain ⟨hfx, hsx⟩ := hc.fits hs x hx
    obtain ⟨hfy, hsy⟩ := hc'.fits hs' y hy
    exact Prod.ext hident (Content.eq_of_image_eq hfx hfy hsx hsy (Content.home_of_cropped_eq hxy)
      (Prod.mk.inj hi).2)
  · rw [eq_of_map_eq hcropped hsurplus fun x _ y _ hxy hs => ?_]
    obtain ⟨hident, hxy⟩ := Prod.mk.inj hxy
    exact Prod.ext hident (Content.eq_of_cropped_eq hxy hs)

/-- A list of three bits, in place and behind a pointer. -/
def flags (b : UInt8) : List (String × Content) :=
  [("l", .object (.list .bit 3) [⟨[b], []⟩]), ("p", .pointer (.object (.list .bit 3) [⟨[b], []⟩]))]

def flagCatalog (capacity : Nat) (b : UInt8) : Catalog .builder :=
  let source : Arena := ⟨#[⟨((Pointer.ofList 0 .bit 3).toBytes ++ [b, 0, 0, 0, 0, 0, 0, 0]).toArray,
    16⟩], 1024⟩
  let c := Catalog.new .builder capacity 64
  let c := (c.add "p" source (.pointer ⟨0, 0, 8⟩)).2
  (c.add "l" source (.list ⟨⟨0, 8, 8⟩, .bit, 3⟩)).2

theorem filled_flagCatalog (capacity : Nat) (b : UInt8) :
    (Catalog.new .builder capacity 64).Filled (flagCatalog capacity b) :=
  .add (.add .start _ _ _) _ _ _

/-- Images do not depend on the capacity, but they do on the five bits behind the three elements. -/
theorem images_eq_iff_surplus_eq_sample :
    (flagCatalog 64 5).images = (flagCatalog 72 5).images ∧
      (flagCatalog 64 5).images ≠ (flagCatalog 72 0xfd).images := by
  have h64 : (flagCatalog 64 5).contents = .ok (flags 5) := rfl
  have h72 : (flagCatalog 72 5).contents = .ok (flags 5) := rfl
  have h72' : (flagCatalog 72 0xfd).contents = .ok (flags 0xfd) := rfl
  constructor
  · obtain ⟨_, _, images, images', ht, ht', hi, hi', hiff⟩ := images_eq_iff_surplus_eq
      (filled_flagCatalog 64 5) (filled_flagCatalog 72 5) (by decide +kernel) (by decide +kernel)
    obtain rfl := Except.ok.inj (h64.symm.trans ht)
    obtain rfl := Except.ok.inj (h72.symm.trans ht')
    rw [hi, hi', (hiff rfl).2 rfl]
  · obtain ⟨_, _, images, images', ht, ht', hi, hi', hiff⟩ := images_eq_iff_surplus_eq
      (filled_flagCatalog 64 5) (filled_flagCatalog 72 0xfd) (by decide +kernel) (by decide +kernel)
    obtain rfl := Except.ok.inj (h64.symm.trans ht)
    obtain rfl := Except.ok.inj (h72'.symm.trans ht')
    rw [hi, hi']
    intro he
    exact absurd ((hiff rfl).1 (Except.ok.inj he)) (by decide)

/-- Catalogs of the same flags with different images. -/
theorem flagCatalog_images_ne :
    (Catalog.new .builder 64 64).Filled (flagCatalog 64 5) ∧
      (Catalog.new .builder 64 64).Filled (flagCatalog 64 0xfd) ∧
      (flagCatalog 64 5).contents = .ok (flags 5) ∧
      (flagCatalog 64 0xfd).contents = .ok (flags 0xfd) ∧
      (∀ i < 3, bit? [5] i = bit? [0xfd] i) ∧
      (flags 5).map (fun k => (k.1, k.2.cropped)) = (flags 0xfd).map (fun k => (k.1, k.2.cropped)) ∧
      (flagCatalog 64 5).images ≠ (flagCatalog 64 0xfd).images :=
  ⟨filled_flagCatalog 64 5, filled_flagCatalog 64 0xfd, rfl, rfl, by decide, rfl, by decide +kernel⟩

end Catalog

end FrozenDefaults
