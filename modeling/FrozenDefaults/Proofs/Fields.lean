import FrozenDefaults.Proofs.Codec

/-!
# The fields of pointer words

A word of a given form is made of its fields and of nothing else: what is read
off a word makes the word again. What a word was made of is read off it again if
and only if every field fits its bits, since a field that does not fit is cut,
or runs over into the next one.
-/

namespace FrozenDefaults

namespace PointerKind

def code : PointerKind → BitVec 2
  | struct => 0b00
  | list => 0b01
  | far => 0b10
  | capability => 0b11

end PointerKind

namespace Pointer

open BitVec

/-- The fields of a pointer word, by the form in which the word is read. -/
inductive Fields where
  | struct (offset : Int) (dataWords pointerWords : UInt16)
  | tag (count : UInt32) (dataWords pointerWords : UInt16)
  | list (offset : Int) (size : ElementSize) (count : UInt32)
  | far (double : Bool) (pad : Nat) (segment : UInt32)
  deriving DecidableEq

/-- An offset of 32 bits moved behind the kind, where its two highest bits are lost. -/
def packedOffset (offset : Int) : Word := (BitVec.ofInt 32 offset <<< 2).setWidth 64

namespace Fields

def word : Fields → Word
  | struct offset d p => ofStruct offset d p
  | tag count d p => ofTag count d p
  | list offset size count => ofList offset size count
  | far double pad segment => ofFar double pad segment

/-- The word as it is put together by shifts, each field over those below it. -/
def packed : Fields → Word
  | struct offset d p =>
    packedOffset offset ||| d.toBitVec.setWidth 64 <<< 32 ||| p.toBitVec.setWidth 64 <<< 48
  | tag count d p =>
    count.toBitVec.setWidth 64 <<< 2 ||| d.toBitVec.setWidth 64 <<< 32 |||
      p.toBitVec.setWidth 64 <<< 48
  | list offset size count =>
    packedOffset offset ||| 1#64 ||| size.code.setWidth 64 <<< 32 |||
      count.toBitVec.setWidth 64 <<< 35
  | far double pad segment =>
    (BitVec.ofNat 64 pad &&& 0x1fffffff#64) <<< 3 ||| (BitVec.ofBool double).setWidth 64 <<< 2 |||
      2#64 ||| segment.toBitVec.setWidth 64 <<< 32

/-- The word is of this form and has these fields. -/
def ReadOff (w : Word) : Fields → Prop
  | struct o d p => kind w = .struct ∧ offset w = o ∧ dataWords w = d ∧ pointerWords w = p
  | tag n d p => kind w = .struct ∧ tagCount w = n ∧ dataWords w = d ∧ pointerWords w = p
  | list o s n => kind w = .list ∧ offset w = o ∧ elementSize w = s ∧ elementCount w = n
  | far b n s => kind w = .far ∧ isDouble w = b ∧ padWord w = n ∧ Pointer.segment w = s.toNat

instance (w : Word) : (f : Fields) → Decidable (f.ReadOff w)
  | struct _ _ _ | tag _ _ _ | list _ _ _ | far _ _ _ => inferInstanceAs (Decidable (_ ∧ _))

def InRange (offset : Int) : Prop := -2 ^ 29 ≤ offset ∧ offset < 2 ^ 29

instance (offset : Int) : Decidable (InRange offset) := inferInstanceAs (Decidable (_ ∧ _))

/-- No field is larger than its bits. -/
def Fits : Fields → Prop
  | struct offset _ _ => InRange offset
  | tag count _ _ => count.toNat < 2 ^ 30
  | list offset _ count => InRange offset ∧ count.toNat < 2 ^ 29
  | far _ pad _ => pad < 2 ^ 29

instance : (f : Fields) → Decidable f.Fits
  | struct _ _ _ | list _ _ _ => inferInstanceAs (Decidable (_ ∧ _))
  | tag _ _ _ | far _ _ _ => inferInstanceAs (Decidable (_ < _))

end Fields

variable {w : Word}

section Words

theorem extract_kind (w : Word) : w.extractLsb' 0 2 = (kind w).code := by
  rw [kind]
  generalize w.extractLsb' 0 2 = c
  revert c
  decide

theorem append_extracts (w : Word) (k l m n : Nat) :
    w.extractLsb' (n + m + l) k ++ w.extractLsb' (n + m) l ++ w.extractLsb' n m ++
      w.extractLsb' 0 n = w.extractLsb' 0 (k + l + m + n) := by
  rw [extractLsb'_append_extractLsb'_eq_extractLsb' rfl,
    extractLsb'_append_extractLsb'_eq_extractLsb' rfl,
    extractLsb'_append_extractLsb'_eq_extractLsb' (Nat.zero_add n).symm]

theorem ofStruct_fields (h : kind w = .struct) :
    ofStruct (offset w) (dataWords w) (pointerWords w) = w := by
  have hkind : w.extractLsb' 0 2 = 0b00#2 := by rw [extract_kind, h]; rfl
  rw [ofStruct, offset, BitVec.ofInt_toInt, dataWords, pointerWords, ← hkind]
  exact (append_extracts w 16 16 30 2).trans extractLsb'_eq_self

theorem ofTag_fields (h : kind w = .struct) :
    ofTag (tagCount w) (dataWords w) (pointerWords w) = w := by
  have hcount : BitVec.ofInt 30 ((tagCount w).toNat : Int) = BitVec.ofInt 30 (offset w) := by
    rw [BitVec.ofInt_natCast, offset, BitVec.ofInt_toInt, tagCount, UInt32.toNat, toNat_setWidth]
    apply BitVec.eq_of_toNat_eq
    simp
  rw [ofTag_eq_ofStruct (tagCount_lt w), ofStruct, hcount]
  exact ofStruct_fields h

theorem ofList_fields (h : kind w = .list) :
    ofList (offset w) (elementSize w) (elementCount w) = w := by
  have hkind : w.extractLsb' 0 2 = 0b01#2 := by rw [extract_kind, h]; rfl
  have hcount : (elementCount w).toBitVec.setWidth 29 = w.extractLsb' 35 29 := by
    rw [elementCount]
    exact setWidth_setWidth_of_le _ (by decide)
  rw [ofList, offset, BitVec.ofInt_toInt, elementSize, ElementSize.code_ofCode, hcount, ← hkind]
  exact (append_extracts w 29 3 30 2).trans extractLsb'_eq_self

theorem ofFar_fields (h : kind w = .far) {s : UInt32} (hs : segment w = s.toNat) :
    ofFar (isDouble w) (padWord w) s = w := by
  have hkind : w.extractLsb' 0 2 = 0b10#2 := by rw [extract_kind, h]; rfl
  have hdouble : BitVec.ofBool (isDouble w) = w.extractLsb' 2 1 := by
    apply BitVec.eq_of_getLsbD_eq
    intro i hi
    obtain rfl : i = 0 := by omega
    simp [isDouble]
  have hpad : BitVec.ofNat 29 (padWord w) = w.extractLsb' 3 29 := by
    rw [padWord, BitVec.ofNat_toNat, setWidth_eq]
  have hsegment : s.toBitVec = w.extractLsb' 32 32 := BitVec.eq_of_toNat_eq hs.symm
  rw [ofFar, hdouble, hpad, hsegment, ← hkind]
  exact (append_extracts w 32 29 1 2).trans extractLsb'_eq_self

/-- A word has no other bits than those of its fields. -/
theorem Fields.ReadOff.word_eq {f : Fields} (h : f.ReadOff w) : f.word = w := by
  cases f with
  | struct o d p =>
    obtain ⟨hk, rfl, rfl, rfl⟩ := h
    exact ofStruct_fields hk
  | tag n d p =>
    obtain ⟨hk, rfl, rfl, rfl⟩ := h
    exact ofTag_fields hk
  | list o s n =>
    obtain ⟨hk, rfl, rfl, rfl⟩ := h
    exact ofList_fields hk
  | far b n s =>
    obtain ⟨hk, rfl, rfl, hs⟩ := h
    exact ofFar_fields hk hs

theorem exists_readOff (h : kind w ≠ .capability) : ∃ f : Fields, f.ReadOff w := by
  cases hk : kind w with
  | struct => exact ⟨.struct _ _ _, hk, rfl, rfl, rfl⟩
  | list => exact ⟨.list _ _ _, hk, rfl, rfl, rfl⟩
  | far =>
    have hs : segment w = (UInt32.ofNat (segment w)).toNat :=
      (UInt32.toNat_ofNat_of_lt' (w.extractLsb' 32 32).isLt).symm
    exact ⟨.far _ _ _, hk, rfl, rfl, hs⟩
  | capability => exact absurd hk h

end Words

section Ranges

theorem ofInt_toInt_iff (offset : Int) :
    (BitVec.ofInt 30 offset).toInt = offset ↔ Fields.InRange offset := by
  constructor
  · intro h
    have hlow := (BitVec.ofInt 30 offset).le_toInt
    have hhigh := (BitVec.ofInt 30 offset).toInt_lt
    rw [h] at hlow hhigh
    exact ⟨hlow, hhigh⟩
  · rintro ⟨hlow, hhigh⟩
    exact Pointer.ofInt_toInt hlow hhigh

/-- What a word was made of is read off it if and only if every field fits. -/
theorem readOff_word_iff (f : Fields) : f.ReadOff f.word ↔ f.Fits := by
  cases f with
  | struct o d p =>
    simp only [Fields.ReadOff, Fields.word, Fields.Fits, kind_ofStruct, dataWords_ofStruct,
      pointerWords_ofStruct, offset, extract_offset_ofStruct, ofInt_toInt_iff, true_and, and_true]
  | tag n d p =>
    constructor
    · rintro ⟨_, hn, _⟩
      exact hn ▸ tagCount_lt _
    · intro h
      have hword : (Fields.tag n d p).word = ofStruct n.toNat d p := ofTag_eq_ofStruct h d p
      rw [hword]
      exact ⟨kind_ofStruct, tagCount_ofStruct h d p, dataWords_ofStruct, pointerWords_ofStruct⟩
  | list o s n =>
    have hcount : elementCount (ofList o s n) = n ↔ n.toNat < 2 ^ 29 :=
      ⟨fun h => h ▸ elementCount_lt _, elementCount_ofList⟩
    simp only [Fields.ReadOff, Fields.word, Fields.Fits, kind_ofList, elementSize_ofList, offset,
      extract_offset_ofList, ofInt_toInt_iff, hcount, true_and]
  | far b n s =>
    have hpad : padWord (ofFar b n s) = n ↔ n < 2 ^ 29 :=
      ⟨fun h => h ▸ padWord_lt _, padWord_ofFar⟩
    simp only [Fields.ReadOff, Fields.word, Fields.Fits, kind_ofFar, isDouble_ofFar, segment_ofFar,
      hpad, true_and, and_true]

end Ranges

section Shifts

theorem packedOffset_eq (offset : Int) :
    packedOffset offset = 0#32 ++ BitVec.ofInt 30 offset ++ 0b00#2 := by
  have hcut : BitVec.ofInt 30 offset = (BitVec.ofInt 32 offset).setWidth 30 := by
    apply BitVec.eq_of_toNat_eq
    simp only [toNat_ofInt, toNat_setWidth, Nat.reducePow, Int.cast_ofNat_Int]
    omega
  apply eq_of_getLsbD_eq
  intro i hi
  rw [hcut]
  simp only [packedOffset, getLsbD_append, getLsbD_setWidth, getLsbD_shiftLeft, getLsbD_zero]
  grind

theorem word_eq_packed (f : Fields) : f.word = f.packed := by
  cases f with
  | tag n d p => rfl
  | struct o d p =>
    have hd (i : Nat) : 16 ≤ i → d.toBitVec.getLsbD i = false := getLsbD_of_ge _ _
    apply eq_of_getLsbD_eq
    intro i hi
    simp only [Fields.word, Fields.packed, packedOffset_eq, ofStruct, getLsbD_append, getLsbD_or,
      getLsbD_shiftLeft, getLsbD_setWidth, getLsbD_zero]
    grind
  | list o s n =>
    have hs (i : Nat) : 3 ≤ i → s.code.getLsbD i = false := getLsbD_of_ge _ _
    have h1 (i : Nat) : (1#64).getLsbD i = decide (i = 0) := by
      simp
    apply eq_of_getLsbD_eq
    intro i hi
    simp only [Fields.word, Fields.packed, packedOffset_eq, ofList, getLsbD_append, getLsbD_or,
      getLsbD_shiftLeft, getLsbD_setWidth, getLsbD_zero, h1]
    grind
  | far b n s =>
    have hmask : 0x1fffffff#64 = (allOnes 29).setWidth 64 := rfl
    have hkind : 2#64 = 0#62 ++ 0b10#2 := rfl
    apply eq_of_getLsbD_eq
    intro i hi
    simp only [Fields.word, Fields.packed, ofFar, hmask, hkind, getLsbD_append, getLsbD_or,
      getLsbD_and, getLsbD_shiftLeft, getLsbD_setWidth, getLsbD_allOnes, getLsbD_ofNat,
      getLsbD_ofBool]
    grind

theorem withOffset_eq_packed (w : Word) (o : Int) :
    withOffset w o = w &&& 0xffffffff00000003#64 ||| packedOffset o := by
  have hmask : 0xffffffff00000003#64 = allOnes 32 ++ 0#30 ++ allOnes 2 := rfl
  apply eq_of_getLsbD_eq
  intro i hi
  simp only [withOffset, hmask, packedOffset_eq, getLsbD_append, getLsbD_or, getLsbD_and,
    getLsbD_extractLsb', getLsbD_zero, getLsbD_allOnes]
  grind

theorem offset_eq_shifted (w : Word) : offset w = ((w.setWidth 32).sshiftRight 2).toInt := by
  have hext : (w.setWidth 32).sshiftRight 2 = (w.extractLsb' 2 30).signExtend 32 := by
    apply eq_of_getLsbD_eq
    intro i hi
    simp only [getLsbD_sshiftRight, getLsbD_signExtend, getLsbD_setWidth, getLsbD_extractLsb',
      msb_eq_getLsbD_last]
    grind
  rw [hext, toInt_signExtend_of_le (by decide), offset]

end Shifts

section Moves

theorem Fields.ReadOff.move_struct {o : Int} {d p : UInt16} (h : (Fields.struct o d p).ReadOff w)
    (o' : Int) : (Fields.struct (o'.bmod (2 ^ 30)) d p).ReadOff (withOffset w o') := by
  have hw : withOffset w o' = ofStruct o' d p := by
    rw [← h.word_eq]
    exact withOffset_ofStruct o'
  rw [hw]
  refine ⟨kind_ofStruct, ?_, dataWords_ofStruct, pointerWords_ofStruct⟩
  rw [offset, extract_offset_ofStruct, toInt_ofInt]

theorem Fields.ReadOff.move_list {o : Int} {s : ElementSize} {n : UInt32}
    (h : (Fields.list o s n).ReadOff w) (o' : Int) :
    (Fields.list (o'.bmod (2 ^ 30)) s n).ReadOff (withOffset w o') := by
  have hn : n.toNat < 2 ^ 29 := h.2.2.2 ▸ elementCount_lt w
  have hw : withOffset w o' = ofList o' s n := by
    rw [← h.word_eq]
    exact withOffset_ofList o'
  rw [hw]
  refine ⟨kind_ofList, ?_, elementSize_ofList, elementCount_ofList hn⟩
  rw [offset, extract_offset_ofList, toInt_ofInt]

theorem offset_withOffset (w : Word) (o : Int) :
    offset (withOffset w o) = (BitVec.ofInt 30 o).toInt := by
  rw [offset, withOffset, extractLsb'_append_eq_of_le (by omega),
    extractLsb'_append_eq_of_add_le (by omega), extractLsb'_eq_self]

/-- Between two places of a segment that a landing pad can name lies an offset that fits. -/
theorem inRange_of_lt {home t : Nat} (hh : home < 2 ^ 29) (ht : t < 2 ^ 29) :
    Fields.InRange (t - home - 1) := ⟨by omega, by omega⟩

end Moves

/-- Pointer words are lossless. A word of each form has fields, and these make the word again. What
a word was made of is read off it if and only if the offset, the count or the landing pad fits its
bits. The words are those that shifts put together, and offsets are signed. A pointer that is moved
keeps all fields but the offset, and among the first `2 ^ 29` words of a segment a pointer leads
wherever it is meant to. -/
theorem codec_lossless :
    (∀ w : Word, kind w ≠ .capability → ∃ f : Fields, f.ReadOff w) ∧
    (∀ w : Word, kind w = .struct →
      (Fields.tag (tagCount w) (dataWords w) (pointerWords w)).ReadOff w) ∧
    (∀ (w : Word) (f : Fields), f.ReadOff w → f.word = w) ∧
    (∀ f : Fields, f.ReadOff f.word ↔ f.Fits) ∧
    (∀ f : Fields, f.word = f.packed) ∧
    (∀ w : Word, offset w = ((w.setWidth 32).sshiftRight 2).toInt) ∧
    (∀ (w : Word) (o' : Int),
      withOffset w o' = w &&& 0xffffffff00000003#64 ||| packedOffset o' ∧
      (∀ o d p, (Fields.struct o d p).ReadOff w →
        (Fields.struct (o'.bmod (2 ^ 30)) d p).ReadOff (withOffset w o')) ∧
      ∀ o s n, (Fields.list o s n).ReadOff w →
        (Fields.list (o'.bmod (2 ^ 30)) s n).ReadOff (withOffset w o')) ∧
    ∀ home t : Nat, home < 2 ^ 29 → t < 2 ^ 29 →
      (∀ d p, target? (ofStruct (t - home - 1) d p) home = some t) ∧
      (∀ s n, target? (ofList (t - home - 1) s n) home = some t) ∧
      ∀ w : Word, target? (withOffset w (t - home - 1)) home = some t := by
  refine ⟨fun _ => exists_readOff, fun w h => ⟨h, rfl, rfl, rfl⟩, fun _ _ => Fields.ReadOff.word_eq,
    readOff_word_iff, word_eq_packed, offset_eq_shifted, fun w o' => ?_, fun home t hh ht => ?_⟩
  · exact ⟨withOffset_eq_packed w o', fun _ _ _ h => h.move_struct o',
      fun _ _ _ h => h.move_list o'⟩
  · obtain ⟨hlow, hhigh⟩ := inRange_of_lt hh ht
    have hplace : t < 2 ^ 63 := by omega
    refine ⟨fun d p => target?_of_offset (offset_ofStruct hlow hhigh d p) hplace,
      fun s n => target?_of_offset (offset_ofList hlow hhigh s n) hplace,
      fun w => target?_of_offset ?_ hplace⟩
    rw [offset_withOffset, Pointer.ofInt_toInt hlow hhigh]

/-- A list pointer that leads back is read, made again and moved. An offset of `2 ^ 29` and a count
of `2 ^ 30` are not read again. The last word that a pad can name leads to the first one. -/
theorem codec_lossless_sample :
    (∃ f : Fields, f.ReadOff 0x3ffffffff5#64) ∧
    (Fields.list (-3) .composite 7).word = 0x3ffffffff5#64 ∧
    (Fields.list 5 .composite 7).ReadOff (withOffset 0x3ffffffff5#64 5) ∧
    (Fields.tag 0x3ffffffd 0 0).word = 0xfffffff4#64 ∧
    (Fields.struct 5 0 0).ReadOff (withOffset 0xfffffff4#64 5) ∧
    ¬ (Fields.struct (2 ^ 29) 1 2).ReadOff (Fields.struct (2 ^ 29) 1 2).word ∧
    ¬ (Fields.tag 0x40000000 1 2).ReadOff (Fields.tag 0x40000000 1 2).word ∧
    target? (ofStruct (-2 ^ 29) 1 2) (2 ^ 29 - 1) = some 0 := by
  have hlist : (Fields.list (-3) .composite 7).ReadOff 0x3ffffffff5#64 := by decide
  have hstruct : (Fields.struct (-3) 0 0).ReadOff 0xfffffff4#64 := by decide
  obtain ⟨hread, htag, hword, hiff, _, _, hmove, htarget⟩ := codec_lossless
  have htag := hword _ _ (htag 0xfffffff4#64 hstruct.1)
  obtain ⟨_, hstructs, _⟩ := hmove 0xfffffff4#64 5
  obtain ⟨_, _, hlists⟩ := hmove 0x3ffffffff5#64 5
  obtain ⟨hback, _⟩ := htarget (2 ^ 29 - 1) 0 (by decide) (by decide)
  refine ⟨hread _ (by decide), hword _ _ hlist, hlists _ _ _ hlist, htag, hstructs _ _ _ hstruct,
    fun h => ?_, fun h => ?_, hback 1 2⟩
  · exact absurd ((hiff (.struct (2 ^ 29) 1 2)).1 h) (by decide)
  · exact absurd ((hiff (.tag 0x40000000 1 2)).1 h) (by decide)

end Pointer

end FrozenDefaults
