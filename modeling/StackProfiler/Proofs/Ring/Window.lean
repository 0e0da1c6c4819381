import Mathlib.Data.List.Basic
import StackProfiler.Ring.Drain

/-!
# The bytes at a run of cursor positions

A cursor position stands for the byte at its value modulo the size of the data area. Under this
reading, `window` lists the bytes at a run of positions, and the two accesses to the data area
become statements about windows:

- `readBytes_eq_window`: the masked read in at most two spans yields the window;
- `exists_writeAt`: storing bytes makes them the window at that position and leaves the byte at
  every other residue alone.
-/

namespace StackProfiler

namespace Ring

/-! ## Section 1: Sizes that are powers of two -/

theorem isPowerOfTwo_iff {n : Nat} : isPowerOfTwo n = true ↔ n.isPowerOfTwo := by
  rw [← Nat.ne_zero_and_sub_one_eq_zero_iff_isPowerOfTwo]
  simp [isPowerOfTwo]

/-- The size of a ring is positive, so that a residue is an offset in the data area. -/
theorem size_pos (r : Ring) : 0 < r.size :=
  Nat.pos_of_isPowerOfTwo (isPowerOfTwo_iff.mp r.size_isPowerOfTwo)

/-- A position is masked with a power of two less one, which leaves its residue. -/
theorem masked_eq_mod (r : Ring) (position : Nat) :
    position &&& (r.size - 1) = position % r.size := by
  obtain ⟨k, hk⟩ := isPowerOfTwo_iff.mp r.size_isPowerOfTwo
  have hsize : r.size = 2 ^ k := hk
  rw [hsize]
  exact Nat.and_two_pow_sub_one_eq_mod position k

/-! ## Section 2: Windows -/

/-- The byte that a cursor position stands for. -/
def byteAt (r : Ring) (position : Nat) : UInt8 :=
  r.data.getD (position % r.size) 0

/-- The bytes at so many cursor positions. -/
def window (r : Ring) (position length : Nat) : List UInt8 :=
  (List.range length).map fun i => r.byteAt (position + i)

@[simp]
theorem length_window (r : Ring) (position length : Nat) :
    (r.window position length).length = length := by
  simp [window]

/-- Windows that follow each other join up. -/
theorem window_add (r : Ring) (position m n : Nat) :
    r.window position (m + n) = r.window position m ++ r.window (position + m) n := by
  simp [window, List.range_add, Function.comp_def, Nat.add_assoc]

/-- The part of a window that begins `m` bytes behind its start. -/
theorem window_of_append {r : Ring} {position n : Nat} {front back : List UInt8}
    (h : r.window position (front.length + n) = front ++ back) :
    r.window position front.length = front ∧ r.window (position + front.length) n = back := by
  rw [window_add] at h
  exact List.append_inj h (length_window r position front.length)

/-- A part of a window is a window. -/
theorem take_drop_window (r : Ring) (position : Nat) {length skipped taken : Nat}
    (h : skipped + taken ≤ length) :
    ((r.window position length).drop skipped).take taken =
      r.window (position + skipped) taken := by
  obtain ⟨rest, rfl⟩ := Nat.exists_eq_add_of_le h
  rw [window_add, window_add]
  simp

/-- A window depends on the bytes at its own positions only. -/
theorem window_congr {r r' : Ring} {position length : Nat}
    (h : ∀ i < length, r'.byteAt (position + i) = r.byteAt (position + i)) :
    r'.window position length = r.window position length := by
  apply List.map_congr_left
  intro i hi
  exact h i (List.mem_range.mp hi)

/-- Positions with the same residue stand for the same bytes. -/
theorem window_eq_of_mod_eq {r : Ring} {p q : Nat} (h : p % r.size = q % r.size) (length : Nat) :
    r.window p length = r.window q length := by
  apply List.map_congr_left
  intro i _
  simp only [byteAt]
  rw [Nat.add_mod p, h, ← Nat.add_mod q]

/-! ## Section 3: Reading -/

/-- A span inside the data area is the window at its offset. -/
theorem readSpan_eq_window {r : Ring} {offset length : Nat} (h : offset + length ≤ r.size) :
    r.readSpan offset length = .ok (r.window offset length) := by
  have hsize : r.data.size = r.size := rfl
  rw [readSpan, if_pos h]
  congr 1
  apply List.ext_getElem
  · simp only [Array.length_toList, Array.size_extract, length_window]
    omega
  · intro i hi hi'
    have hlt : i < length := by simpa using hi'
    have hin : offset + i < r.data.size := by omega
    have hres : (offset + i) % r.size = offset + i := Nat.mod_eq_of_lt hin
    simp [window, byteAt, hres, hin]

/-- A run of bytes is read as the window at its position, if what is left of it behind the end of
the data area fits in the data area again. -/
theorem readBytes_eq_window_of_le {r : Ring} {position length : Nat}
    (h : position % r.size + length ≤ 2 * r.size) :
    r.readBytes position length = .ok (r.window position length) := by
  have hoff : position % r.size < r.size := Nat.mod_lt _ r.size_pos
  have hwhole : r.window (position % r.size) length = r.window position length :=
    window_eq_of_mod_eq (Nat.mod_mod _ _) length
  -- both spans are given by the residue of the position
  rw [← hwhole]
  simp only [readBytes, spans, masked_eq_mod]
  generalize position % r.size = offset at hoff h
  by_cases hwrap : length ≤ r.size - offset
  · -- the run ends before the data area does
    have hfirst : r.readSpan offset length = .ok (r.window offset length) :=
      readSpan_eq_window (by omega)
    rw [Nat.min_eq_left hwrap, if_neg (Nat.lt_irrefl _)]
    simp [hfirst, bind, Except.bind, pure, Except.pure]
  · -- the run crosses the end and goes on at offset zero
    obtain ⟨rest, hrest⟩ : ∃ rest, length = (r.size - offset) + rest :=
      Nat.exists_eq_add_of_le (by omega)
    have hfirst : r.readSpan offset (r.size - offset) = .ok (r.window offset (r.size - offset)) :=
      readSpan_eq_window (by omega)
    have hsecond : r.readSpan 0 rest = .ok (r.window 0 rest) :=
      readSpan_eq_window (by omega)
    have hback : r.window (offset + (r.size - offset)) rest = r.window 0 rest := by
      have hend : offset + (r.size - offset) = r.size := by omega
      exact window_eq_of_mod_eq (by simp [hend]) rest
    have hmin : min length (r.size - offset) = r.size - offset := Nat.min_eq_right (by omega)
    rw [hmin, if_pos (by omega), show length - (r.size - offset) = rest by omega, hrest,
      window_add, hback]
    simp [hfirst, hsecond, bind, Except.bind, pure, Except.pure]

/-- **Two-span reads are modular reads**: a run of bytes no longer than the data area is read as
the window at its position, wherever it wraps. -/
theorem readBytes_eq_window {r : Ring} {position length : Nat} (h : length ≤ r.size) :
    r.readBytes position length = .ok (r.window position length) := by
  have hoff : position % r.size < r.size := Nat.mod_lt _ r.size_pos
  exact readBytes_eq_window_of_le (by omega)

/-! ## Section 4: Writing -/

/-- The ring after storing bytes from a position on: the cursors stay, the bytes stand at the
position as long as they do not lap themselves, and no other residue is touched. -/
structure Stored (r r' : Ring) (position : Nat) (bytes : List UInt8) : Prop where
  head_eq : r'.head = r.head
  tail_eq : r'.tail = r.tail
  size_eq : r'.size = r.size
  window_eq : bytes.length ≤ r.size → r'.window position bytes.length = bytes
  byteAt_eq : ∀ q, (∀ i < bytes.length, (position + i) % r.size ≠ q % r.size) →
    r'.byteAt q = r.byteAt q

private theorem residue_ne_of_lt {size p i : Nat} (hi : 0 < i) (hsize : i < size) :
    (p + i) % size ≠ p % size := by
  intro h
  have hzero : (p + i - p) % size = 0 := Nat.sub_mod_eq_zero_of_mod_eq h
  rw [Nat.add_sub_cancel_left, Nat.mod_eq_of_lt hsize] at hzero
  omega

/-- Storing one byte. -/
private theorem byteAt_store (r : Ring) (position q : Nat) (b : UInt8) (h) :
    byteAt { r with data := r.data.setIfInBounds (position % r.size) b, size_isPowerOfTwo := h } q =
      if position % r.size = q % r.size then b else r.byteAt q := by
  have hin : q % r.data.size < r.data.size := Nat.mod_lt _ r.size_pos
  simp only [byteAt, size, Array.size_setIfInBounds, Array.getD_eq_getD_getElem?,
    Array.getElem?_setIfInBounds]
  split <;> simp [*]

/-- Bytes can be stored wherever the cursor positions fit in a word. -/
theorem exists_writeAt {r : Ring} {position : Nat} {bytes : List UInt8}
    (hfit : position + bytes.length ≤ wordLimit 64) :
    ∃ r', r.writeAt position bytes = .ok r' ∧ Stored r r' position bytes := by
  induction bytes generalizing r position with
  | nil =>
    exact ⟨r, rfl, rfl, rfl, rfl, fun _ => rfl, fun _ _ => rfl⟩
  | cons b bs ih =>
    rw [List.length_cons] at hfit
    -- the ring with the first byte stored, to which the induction hypothesis is applied
    have hword : Checked.fit 64 position = .ok position :=
      Checked.fit_eq_ok_iff.mpr ⟨rfl, by omega⟩
    let r₁ : Ring :=
      { r with
        data := r.data.setIfInBounds (position % r.size) b
        size_isPowerOfTwo := by rw [Array.size_setIfInBounds]; exact r.size_isPowerOfTwo }
    have hsize₁ : r₁.size = r.size := Array.size_setIfInBounds
    have hbyte₁ : ∀ q, r₁.byteAt q = if position % r.size = q % r.size then b else r.byteAt q :=
      fun q => byteAt_store r position q b _
    have hfit₁ : position + 1 + bs.length ≤ wordLimit 64 := by omega
    obtain ⟨r', hrun, hstored⟩ := ih (r := r₁) hfit₁
    refine ⟨r', ?_, hstored.head_eq, hstored.tail_eq, hstored.size_eq.trans hsize₁, ?_, ?_⟩
    · simp only [writeAt, hword]
      exact hrun
    · intro hlen
      rw [List.length_cons] at hlen ⊢
      -- the first byte survives the rest, which does not reach round to it
      have hfirst : r'.byteAt position = b := by
        rw [hstored.byteAt_eq position, hbyte₁, if_pos rfl]
        intro i hi
        rw [hsize₁, Nat.add_assoc]
        exact residue_ne_of_lt (by omega) (by omega)
      have hrest : r'.window (position + 1) bs.length = bs := by
        apply hstored.window_eq
        omega
      rw [Nat.add_comm bs.length 1, window_add, hrest]
      simp [window, hfirst]
    · -- a residue that no byte was stored at differs from that of the first one, too
      intro q hq
      rw [hstored.byteAt_eq q, hbyte₁, if_neg]
      · simpa using hq 0 (by simp)
      · intro i hi
        have := hq (i + 1) (by simpa using hi)
        rwa [hsize₁, Nat.add_assoc, Nat.add_comm 1 i]

/-- A window in front of the stored bytes is unchanged if they do not reach round to it. -/
theorem Stored.window_eq_of_le {r r' : Ring} {position : Nat} {bytes : List UInt8}
    (h : Stored r r' position bytes) {q length : Nat} (hbefore : q + length ≤ position)
    (hlap : position + bytes.length ≤ q + r.size) :
    r'.window q length = r.window q length := by
  apply window_congr
  intro i hi
  apply h.byteAt_eq
  intro j hj
  -- less than a lap lies between the two positions
  rw [show position + j = (q + i) + (position + j - (q + i)) by omega]
  exact residue_ne_of_lt (by omega) (by omega)

/-- Storing two runs of bytes one behind the other is storing them in one go. -/
theorem writeAt_append (r : Ring) (position : Nat) (front back : List UInt8) :
    r.writeAt position (front ++ back) =
      (r.writeAt position front).bind fun r => r.writeAt (position + front.length) back := by
  induction front generalizing r position with
  | nil => rfl
  | cons b bs ih =>
    rw [List.cons_append, writeAt, writeAt]
    cases hfit : Checked.fit 64 position with
    | error fault => rfl
    | ok position' =>
      obtain ⟨rfl, -⟩ := Checked.fit_eq_ok_iff.mp hfit
      simp only [bind, Except.bind] at ih ⊢
      rw [ih, List.length_cons, Nat.add_assoc, Nat.add_comm 1]

end Ring

end StackProfiler
