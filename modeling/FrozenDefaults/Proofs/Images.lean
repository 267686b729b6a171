import FrozenDefaults.Proofs.FarPointers
import FrozenDefaults.Proofs.Transcription

/-!
# Images stand for contents

The image of a content is the one segment in which the content is stored alone,
without far pointers. It can be read again from there, so that contents of the
same form are the same if their images are.
-/

namespace FrozenDefaults

open Arena

/-- Descriptors of the same kind with the same layout. -/
inductive Descriptor.SameForm : Descriptor → Descriptor → Prop
  | struct {v w : StructView} (data : v.data.length = w.data.length)
      (pointers : v.pointers.length = w.pointers.length) : SameForm (.struct v) (.struct w)
  | list {v w : ListView} (layout : v.layout = w.layout) (count : v.count = w.count) :
      SameForm (.list v) (.list w)
  | pointer (x y : Span) : SameForm (.pointer x) (.pointer y)

namespace Content

/-- Where a content lies that is stored alone. -/
def home : Content → Descriptor
  | .object shape _ => (shape.target ⟨0, 0, shape.footprint⟩).descriptor
  | .pointer _ => .pointer ⟨0, 0, bytesPerWord⟩

variable {content x y : Content} {limit capacity m n : Nat} {a : Arena}

theorem store_alone (h : Alone content.size content.size #[] a) :
    (content.store a).1 = content.home ∧
      ∃ bytes, Alone content.size 0 bytes (content.store a).2 := by
  have ht : Twins content.size (0 + content.size) a a := by
    rw [Nat.zero_add]
    exact ⟨_, h, h⟩
  obtain ⟨bytes, hbytes, _⟩ := (twins_store ht).2
  refine ⟨?_, bytes, hbytes⟩
  cases content with
  | object shape parts =>
    rw [size, Nat.add_comm] at h
    rw [store, (h.alloc shape.footprint_mod).1]
    rfl
  | pointer v =>
    rw [size, Nat.add_comm] at h
    exact congrArg Descriptor.pointer (h.alloc (n := bytesPerWord) rfl).1

theorem alone_store (h : content.size ≤ roundUp capacity) :
    (content.store (.withCapacity capacity)).1 = content.home ∧
      ∃ bytes, Alone content.size 0 bytes (content.store (.withCapacity capacity)).2 := by
  obtain ⟨x, hx, hstore⟩ := store_withCapacity content h
  rw [hstore]
  exact store_alone hx

theorem Fits.farsOf_store (hf : content.Fits limit) (h : content.size ≤ roundUp capacity)
    (hs : content.size < 2 ^ 32) (room : Nat) :
    (content.store (.withCapacity capacity)).2.farsOf room
      (content.store (.withCapacity capacity)).1 = 0 := by
  have ht := tight_withCapacity capacity
  obtain ⟨_, bytes, halone⟩ := alone_store h
  have hle := halone.totalSize_le
  have hcounted := (hf.mono (Nat.le_max_left limit room)).counted ht.toSound
  have htotal := hcounted.back ht.toSound ((hcounted.evolves.tight ht).addressable
    (hle.trans_lt hs)) _ (.refl _ _)
  have hmono := farsOf_mono (content.store (.withCapacity capacity)).2
    (Nat.le_max_right limit room) (content.store (.withCapacity capacity)).1
  rw [totalSize_withCapacity, bytesPerWord] at htotal
  omega

/-- The image of a content can be read as the content again, in whatever segment it stands alone. -/
theorem Fits.describes_home (hf : content.Fits limit) (hs : content.size < 2 ^ 32) {budget k : Nat}
    {bytes : Array UInt8} (ha : Alone budget k bytes a) (hb : content.image = bytes.toList) :
    a.Describes content.home content := by
  have ht := tight_withCapacity (content.size + bytesPerWord)
  have hroom := (Nat.le_add_right content.size bytesPerWord).trans (le_roundUp _)
  obtain ⟨hhome, own, hown⟩ := alone_store hroom
  have hstored := hf.stored ht.toSound
  have hsame : own = bytes := by
    rw [image, hown.toSegments, List.flatten_singleton] at hb
    exact Array.toList_inj.1 hb
  subst hsame
  have hback := hstored.back ht.toSound ((hstored.evolves.tight ht).addressable
    (hown.totalSize_le.trans_lt hs)) a (hown.grows ha)
  rw [hhome] at hback
  exact ⟨limit, hback⟩

theorem home_of_sameForm {b : Arena} {d e : Descriptor} (hf : d.SameForm e)
    (hx : a.describe m d = .ok x) (hy : b.describe n e = .ok y) : x.home = y.home := by
  cases hf with
  | @struct v w hdata hpointers =>
    obtain ⟨_, hd, hx⟩ := bind_eq_ok_iff.1 hx
    obtain ⟨_, hp, hx⟩ := bind_eq_ok_iff.1 hx
    obtain ⟨_, _, hx⟩ := bind_eq_ok_iff.1 hx
    obtain ⟨_, _, hx⟩ := bind_eq_ok_iff.1 hx
    obtain ⟨_, hd', hy⟩ := bind_eq_ok_iff.1 hy
    obtain ⟨_, hp', hy⟩ := bind_eq_ok_iff.1 hy
    obtain ⟨_, _, hy⟩ := bind_eq_ok_iff.1 hy
    obtain ⟨_, _, hy⟩ := bind_eq_ok_iff.1 hy
    obtain rfl := Except.ok.inj hx
    obtain rfl := Except.ok.inj hy
    rw [(Span.wordCount_eq_ok_iff.1 hd).2, (Span.wordCount_eq_ok_iff.1 hp).2,
      (Span.wordCount_eq_ok_iff.1 hd').2, (Span.wordCount_eq_ok_iff.1 hp').2, hdata, hpointers]
    rfl
  | @list v w hlayout hcount =>
    obtain ⟨_, _, hx⟩ := bind_eq_ok_iff.1 hx
    obtain ⟨_, _, hx⟩ := bind_eq_ok_iff.1 hx
    obtain ⟨_, _, hy⟩ := bind_eq_ok_iff.1 hy
    obtain ⟨_, _, hy⟩ := bind_eq_ok_iff.1 hy
    obtain rfl := Except.ok.inj hx
    obtain rfl := Except.ok.inj hy
    rw [hlayout, hcount]
    rfl
  | pointer _ _ =>
    obtain ⟨_, _, rfl⟩ := map_eq_ok_iff.1 hx
    obtain ⟨_, _, rfl⟩ := map_eq_ok_iff.1 hy
    rfl

theorem eq_of_image_eq (hx : x.Fits m) (hy : y.Fits n) (hsx : x.size < 2 ^ 32)
    (hsy : y.size < 2 ^ 32) (hhome : x.home = y.home) (h : x.image = y.image) : x = y := by
  have hroom := (Nat.le_add_right x.size bytesPerWord).trans (le_roundUp _)
  obtain ⟨_, bytes, halone⟩ := alone_store hroom
  have hbytes : x.image = bytes.toList := by
    rw [image, halone.toSegments, List.flatten_singleton]
  have hdx := hx.describes_home hsx halone hbytes
  have hdy := hy.describes_home hsy halone (h ▸ hbytes)
  rw [← hhome] at hdy
  exact hdx.unique hdy

end Content

end FrozenDefaults
