/-!
# Words

The unit of layout is a word of eight bytes, the least significant byte first.
-/

namespace FrozenDefaults

abbrev Word := BitVec 64

def bytesPerWord : Nat := 8

/-- The least whole number of words, in bytes, that holds `n` bytes. Sizes are not bounded here;
this one can be named for `n` up to `2 ^ 64 - 8`. -/
def roundUp (n : Nat) : Nat := (n + 7) / bytesPerWord * bytesPerWord

theorem le_roundUp (n : Nat) : n ≤ roundUp n := by
  unfold roundUp bytesPerWord; omega

theorem roundUp_mod (n : Nat) : roundUp n % 8 = 0 := by
  unfold roundUp bytesPerWord; omega

theorem roundUp_eq_self {n : Nat} (h : n % 8 = 0) : roundUp n = n := by
  unfold roundUp bytesPerWord; omega

namespace Word

def ofBytes (bs : List UInt8) : Word :=
  BitVec.ofNat 64 (bs.foldr (fun b n => b.toNat + 256 * n) 0)

def byteAt (w : Word) (i : Nat) : UInt8 := ⟨w.extractLsb' (8 * i) 8⟩

def toBytes (w : Word) : List UInt8 := (List.range bytesPerWord).map (byteAt w)

theorem toNat_byteAt (w : Word) (i : Nat) : (byteAt w i).toNat = w.toNat >>> (8 * i) % 256 := by
  show (w.extractLsb' (8 * i) 8).toNat = _
  simp

@[simp] theorem length_toBytes (w : Word) : (toBytes w).length = bytesPerWord := by
  simp [toBytes]

theorem ofBytes_toBytes (w : Word) : ofBytes (toBytes w) = w := by
  apply BitVec.eq_of_toNat_eq
  have h := w.isLt
  simp only [toBytes, bytesPerWord, ofBytes, List.range, List.range.loop, List.map_cons,
    List.map_nil, List.foldr_cons, List.foldr_nil, toNat_byteAt, BitVec.toNat_ofNat,
    Nat.shiftRight_eq_div_pow]
  omega

end Word

end FrozenDefaults
