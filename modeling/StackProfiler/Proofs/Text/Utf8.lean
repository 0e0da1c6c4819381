import StackProfiler.Proofs.Text.Pieces

/-!
# Lines of bytes

The bytes of a text are those of its characters, one after the other (`toList_data_toUTF8`). A
character of the ASCII range is one byte, and that byte occurs in no other character
(`spelledBy_utf8EncodeChar`). So the bytes of a text are cut into the bytes of its lines
(`lines_toUTF8`), and each of these is decoded again (`fromUTF8?_utf8Bytes`).
-/

namespace StackProfiler.Text

/-- The bytes of some characters. -/
def utf8Bytes (cs : List Char) : List UInt8 :=
  cs.flatMap String.utf8EncodeChar

theorem utf8Encode_eq (cs : List Char) : cs.utf8Encode = ⟨(utf8Bytes cs).toArray⟩ := by
  apply ByteArray.ext
  apply Array.toList_inj.mp
  rw [List.utf8Encode, List.toList_data_toByteArray, utf8Bytes]

theorem toList_data_toUTF8 (text : String) : text.toUTF8.data.toList = utf8Bytes text.toList := by
  rw [String.toUTF8_eq_toByteArray, ← String.utf8Encode_toList, utf8Encode_eq]

/-- Bytes that encode characters are decoded. -/
theorem fromUTF8?_utf8Bytes (cs : List Char) :
    String.fromUTF8? ⟨(utf8Bytes cs).toArray⟩ = some (String.ofList cs) := by
  have hvalid : ByteArray.IsValidUTF8 ⟨(utf8Bytes cs).toArray⟩ := ⟨cs, (utf8Encode_eq cs).symm⟩
  rw [String.fromUTF8?, dif_pos hvalid]
  congr 1
  apply String.toByteArray_inj.mp
  rw [String.toByteArray_ofList, utf8Encode_eq]
  rfl

/-- A character of the ASCII range is its own byte; the bytes of all others are larger. -/
theorem utf8EncodeChar_cases (c : Char) :
    c.toNat < 128 ∧ String.utf8EncodeChar c = [UInt8.ofNat c.toNat] ∨
      128 ≤ c.toNat ∧ ∀ b ∈ String.utf8EncodeChar c, 128 ≤ b.toNat := by
  by_cases hascii : c.toNat < 128
  · left
    refine ⟨hascii, ?_⟩
    have hle : c.val.toNat ≤ 127 := Nat.le_of_lt_succ hascii
    rw [String.utf8EncodeChar, if_pos hle]
    rfl
  · right
    refine ⟨Nat.le_of_not_lt hascii, ?_⟩
    have hlarge : ¬c.val.toNat ≤ 127 := fun hle => hascii (Nat.lt_succ_of_le hle)
    intro b hb
    rw [String.utf8EncodeChar, if_neg hlarge] at hb
    -- every byte of a longer sequence has its marks added, which leave it below 256
    split at hb <;> [skip; split at hb]
    all_goals
      simp only [List.mem_cons, List.not_mem_nil, or_false] at hb
      rcases hb with rfl | rfl | rfl | rfl <;> simp only [UInt8.toNat_ofNat'] <;> omega

/-- **A character of the ASCII range** is known by its byte. -/
theorem spelledBy_utf8EncodeChar {c : Char} (h : c.toNat < 128) :
    SpelledBy String.utf8EncodeChar c (UInt8.ofNat c.toNat) := by
  have hbyte : (UInt8.ofNat c.toNat).toNat = c.toNat := by
    rw [UInt8.toNat_ofNat']
    exact Nat.mod_eq_of_lt (by omega)
  rcases utf8EncodeChar_cases c with ⟨-, hc⟩ | ⟨hlarge, -⟩
  · refine ⟨hc, fun c' hne hmem => ?_⟩
    rcases utf8EncodeChar_cases c' with ⟨hascii, hc'⟩ | ⟨-, hbytes⟩
    · rw [hc', List.mem_singleton] at hmem
      have hnat := congrArg UInt8.toNat hmem
      rw [hbyte, UInt8.toNat_ofNat', Nat.mod_eq_of_lt (by omega)] at hnat
      exact hne (Char.toNat_inj.mp hnat.symm)
    · have hle := hbytes _ hmem
      omega
  · omega

/-- **The lines of the bytes** of a text are the bytes of its lines. -/
theorem lines_toUTF8 (text : String) :
    lines 0x0a 0x0d text.toUTF8.data.toList = (lines '\n' '\r' text.toList).map utf8Bytes := by
  rw [toList_data_toUTF8]
  exact lines_flatMap_spell (spelledBy_utf8EncodeChar (c := '\n') (by decide))
    (spelledBy_utf8EncodeChar (c := '\r') (by decide)) (fun _ => String.utf8EncodeChar_ne_nil) _

end StackProfiler.Text
