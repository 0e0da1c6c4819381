import StackProfiler.Proofs.Ring.Bounds

/-!
# Bytes read back from a ring

Reader and writer of a ring find their bytes by different arithmetic. The writer stores one byte
after the other, each at its position modulo the size; the reader masks the position, reads up to
the end of the data area and goes on at its start. Both mean the same place for the same position,
so what was written is read back, wherever it wraps, and nothing else changes.

- **reading**: `getElem?_window`, the bytes of a window as entries of the data area;
- **writing**: `Stored.readBytes_eq` and `Stored.getElem?_data_eq`, a ring after a write;
- **main statement**: `readBytes_modular`.
-/

namespace StackProfiler

namespace Ring

variable {r r' : Ring} {position : Nat} {bytes : List UInt8}

/-! ## Section 1: Entries of the data area -/

/-- A residue stands for the entry of the data area at this offset. -/
theorem getElem?_data (r : Ring) (position : Nat) :
    r.data[position % r.size]? = some (r.byteAt position) := by
  have hin : position % r.size < r.data.size := Nat.mod_lt _ r.size_pos
  simp [byteAt, Array.getD_eq_getD_getElem?, hin]

/-- A byte of a window is the entry of the data area at its position modulo the size. -/
theorem getElem?_window (r : Ring) (position : Nat) {length i : Nat} (h : i < length) :
    (r.window position length)[i]? = r.data[(position + i) % r.size]? := by
  rw [getElem?_data]
  simp [window, h]

/-! ## Section 2: A ring after a write -/

/-- What was stored is read back, if it does not lap itself. -/
theorem Stored.readBytes_eq (h : Stored r r' position bytes) (hfits : bytes.length ≤ r.size) :
    r'.readBytes position bytes.length = .ok bytes := by
  have hfits' : bytes.length ≤ r'.size := by rwa [h.size_eq]
  rw [readBytes_eq_window hfits', h.window_eq hfits]

/-- An entry of the data area is unchanged if no byte was stored at its offset. -/
theorem Stored.getElem?_data_eq (h : Stored r r' position bytes) {offset : Nat}
    (hoffset : offset < r.size)
    (hother : ∀ i < bytes.length, (position + i) % r.size ≠ offset) :
    r'.data[offset]? = r.data[offset]? := by
  have hmod : offset % r.size = offset := Nat.mod_eq_of_lt hoffset
  have hmod' : offset % r'.size = offset := by rw [h.size_eq, hmod]
  have hold := r.getElem?_data offset
  have hnew := r'.getElem?_data offset
  rw [hmod] at hold
  rw [hmod'] at hnew
  rw [hold, hnew, h.byteAt_eq offset (by rwa [hmod])]

/-! ## Section 3: Reading and writing -/

/-- **Two-span reads are modular reads.** Of a ring of any size that is a power of two, a run of
bytes no longer than the data area is read without leaving it, and each byte comes from its position
modulo the size. After as many bytes were written at the position, they are what is read there, and
the data area is unchanged at all other residues. -/
theorem readBytes_modular (r : Ring) (position length : Nat) (hlength : length ≤ r.size)
    (hword : position + length ≤ wordLimit 64) :
    r.ReadsWithin position length ∧
      (∃ bytes, r.readBytes position length = .ok bytes ∧ bytes.length = length ∧
        ∀ i < length, bytes[i]? = r.data[(position + i) % r.size]?) ∧
      ∀ bytes : List UInt8, bytes.length = length →
        ∃ r', r.writeAt position bytes = .ok r' ∧ r'.readBytes position length = .ok bytes ∧
          r'.size = r.size ∧ r'.head = r.head ∧ r'.tail = r.tail ∧
          ∀ offset < r.size, (∀ i < length, (position + i) % r.size ≠ offset) →
            r'.data[offset]? = r.data[offset]? := by
  have hoffset : position % r.size < r.size := Nat.mod_lt _ r.size_pos
  refine ⟨readsWithin_iff.mpr (by omega), ?_, ?_⟩
  · exact ⟨r.window position length, readBytes_eq_window hlength, length_window .., fun i hi =>
      r.getElem?_window position hi⟩
  · rintro bytes rfl
    obtain ⟨r', hrun, hstored⟩ := exists_writeAt (r := r) hword
    exact ⟨r', hrun, hstored.readBytes_eq hlength, hstored.size_eq, hstored.head_eq,
      hstored.tail_eq, fun offset hin hother => hstored.getElem?_data_eq hin hother⟩

/-- Five bytes at a position close to the end of its word, which wrap after two of them. -/
theorem readBytes_modular_wrapping :
    ∃ r, ofData #[1, 2, 3, 4, 5, 6, 7, 8] 0 0 = .ok r ∧ 5 ≤ r.size ∧
      0xfffffffffffffff6 + 5 ≤ wordLimit 64 ∧
      r.readBytes 0xfffffffffffffff6 5 = .ok [7, 8, 1, 2, 3] ∧
      ∃ r', r.writeAt 0xfffffffffffffff6 [10, 20, 30, 40, 50] = .ok r' ∧
        r'.readBytes 0xfffffffffffffff6 5 = .ok [10, 20, 30, 40, 50] ∧
        r'.data[3]? = some 4 ∧ r'.data[5]? = some 6 := by
  let r : Ring := ⟨#[1, 2, 3, 4, 5, 6, 7, 8], 0, 0, by decide⟩
  have hring : ofData #[1, 2, 3, 4, 5, 6, 7, 8] 0 0 = .ok r := rfl
  have hsize : 5 ≤ r.size := by decide
  have hword : 0xfffffffffffffff6 + 5 ≤ wordLimit 64 := by decide
  obtain ⟨-, ⟨bytes, hread, hlength, hbytes⟩, hwrite⟩ := readBytes_modular r _ _ hsize hword
  have heq : bytes = [7, 8, 1, 2, 3] := by
    apply List.ext_getElem?
    intro i
    by_cases hi : i < 5
    · rw [hbytes i hi]
      revert i
      decide
    · rw [List.getElem?_eq_none (by omega), List.getElem?_eq_none (by simpa using hi)]
  obtain ⟨r', hrun, hback, -, -, -, hother⟩ := hwrite [10, 20, 30, 40, 50] rfl
  exact ⟨r, hring, hsize, hword, heq ▸ hread, r', hrun, hback,
    hother 3 (by decide) (by decide), hother 5 (by decide) (by decide)⟩

end Ring

end StackProfiler
