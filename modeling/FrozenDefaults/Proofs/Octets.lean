import FrozenDefaults.Text.Hex

/-!
# Texts read octet by octet

A text is held in UTF-8. Taken for the characters with their numbers, its octets
are the text itself if that is ASCII; otherwise a character is among them that is
not ASCII either. So a reader that accepts ASCII alone reads the octets as it
reads the text.
-/

namespace FrozenDefaults

namespace Text

/-- The character with the number of the octet. -/
def ofOctet (b : UInt8) : Char := Char.ofNat b.toNat

/-- The octets of a text in UTF-8, each for a character. -/
def recast (cs : List Char) : List Char := (cs.flatMap String.utf8EncodeChar).map ofOctet

def IsAscii (cs : List Char) : Prop := ∀ c ∈ cs, c.toNat < 128

theorem toNat_ofOctet (b : UInt8) : (ofOctet b).toNat = b.toNat := by
  have hb := b.toNat_lt
  have hvalid : b.toNat.isValidChar := .inl (by omega)
  rw [ofOctet, Char.ofNat, dif_pos hvalid]
  rfl

theorem ofOctet_injective {b c : UInt8} (h : ofOctet b = ofOctet c) : b = c :=
  UInt8.toNat_inj.1 (by rw [← toNat_ofOctet, h, toNat_ofOctet])

theorem toList_loop (bs : ByteArray) (i : Nat) (front : List UInt8) :
    ByteArray.toList.loop bs i front = front.reverse ++ bs.data.toList.drop i := by
  fun_induction ByteArray.toList.loop bs i front with
  | case1 i front hi ih =>
    have hlen : i < bs.data.toList.length := hi
    have hget : bs.get! i = bs.data.toList[i] := getElem!_pos bs.data i hi
    rw [ih, List.drop_eq_getElem_cons hlen, hget, List.reverse_cons, List.append_assoc]
    rfl
  | case2 i front hi =>
    rw [List.drop_eq_nil_of_le (Nat.le_of_not_lt hi), List.append_nil]

theorem toList_toUTF8 (t : String) :
    t.toUTF8.toList = t.toList.flatMap String.utf8EncodeChar := by
  rw [ByteArray.toList, toList_loop, String.toUTF8_eq_toByteArray, ← String.utf8Encode_toList,
    List.utf8Encode, List.toList_data_toByteArray]
  rfl

theorem map_ofOctet_toUTF8 (t : String) : t.toUTF8.toList.map ofOctet = recast t.toList := by
  rw [toList_toUTF8, recast]

theorem recast_cons (c : Char) (cs : List Char) : recast (c :: cs) = recast [c] ++ recast cs := by
  rw [recast, List.flatMap_cons, List.map_append, recast, recast, List.flatMap_singleton]

theorem recast_singleton {c : Char} (h : c.toNat < 128) : recast [c] = [c] := by
  have hle : c.val.toNat ≤ 127 := Nat.le_of_lt_succ h
  have hoctet : (UInt8.ofNat c.val.toNat).toNat = c.toNat :=
    UInt8.toNat_ofNat_of_lt' (Nat.lt_of_le_of_lt hle (by decide))
  rw [recast, List.flatMap_singleton, String.utf8EncodeChar, if_pos hle, List.map_singleton,
    ofOctet, hoctet, Char.ofNat_toNat]

/-- The first octet of a character that is not ASCII is none of ASCII either. -/
theorem exists_mem_recast_singleton {c : Char} (h : 128 ≤ c.toNat) :
    ∃ d ∈ recast [c], 128 ≤ d.toNat := by
  obtain ⟨b, rest, hoctets, hb⟩ : ∃ b rest, String.utf8EncodeChar c = b :: rest ∧
      128 ≤ b.toNat := by
    have hone : ¬ c.val.toNat ≤ 127 := Nat.not_le.2 h
    have hhigh {n : Nat} (hn : 128 ≤ n) (hn' : n < 256) : 128 ≤ (UInt8.ofNat n).toNat := by
      rw [UInt8.toNat_ofNat_of_lt' hn']
      exact hn
    rw [String.utf8EncodeChar, if_neg hone]
    split
    · exact ⟨_, _, rfl, hhigh (by omega) (by omega)⟩
    · split
      · exact ⟨_, _, rfl, hhigh (by omega) (by omega)⟩
      · exact ⟨_, _, rfl, hhigh (by omega) (by omega)⟩
  refine ⟨ofOctet b, ?_, by rw [toNat_ofOctet]; exact hb⟩
  rw [recast, List.flatMap_singleton, hoctets]
  exact List.mem_cons_self

theorem recast_of_isAscii {cs : List Char} (h : IsAscii cs) : recast cs = cs := by
  induction cs with
  | nil => rfl
  | cons c cs ih =>
    obtain ⟨hc, hcs⟩ := List.forall_mem_cons.1 h
    rw [recast_cons, recast_singleton hc, ih hcs, List.singleton_append]

theorem isAscii_of_recast {cs : List Char} (h : IsAscii (recast cs)) : IsAscii cs := by
  intro c hc
  refine Nat.lt_of_not_le fun hn => ?_
  obtain ⟨d, hd, hge⟩ := exists_mem_recast_singleton hn
  obtain ⟨front, back, rfl⟩ := List.append_of_mem hc
  have hmem : d ∈ recast (front ++ c :: back) := by
    rw [recast, List.flatMap_append, List.map_append, ← recast, ← recast, recast_cons c back]
    exact List.mem_append_right _ (List.mem_append_left _ hd)
  exact absurd (h d hmem) (Nat.not_lt.2 hge)

/-- A reader that accepts ASCII alone reads the octets of a text as it reads the text. -/
theorem read_recast {α : Type} {read : List Char → Option α}
    (hread : ∀ {cs x}, read cs = some x → IsAscii cs) (cs : List Char) :
    read (recast cs) = read cs := by
  by_cases hcs : IsAscii cs
  · rw [recast_of_isAscii hcs]
  · have hnone {ds : List Char} (hds : ¬ IsAscii ds) : read ds = none :=
      Option.eq_none_iff_forall_ne_some.2 fun x hx => hds (hread hx)
    rw [hnone hcs, hnone fun h => hcs (isAscii_of_recast h)]

end Text

end FrozenDefaults
