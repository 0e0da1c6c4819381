import Mathlib.Tactic.ByContra
import StackProfiler.Proofs.Symbol.Overflow
import StackProfiler.Proofs.Text.Hexadecimal
import StackProfiler.Symbol.AddressTool

/-!
# What the external program is asked

Two sources name the function at an offset in a file. An image is asked about the address that the
linker gave to the offset. The external program takes an address of this kind as well, in
hexadecimal digits, as its last argument (`AddressTool.addressIn?`).

What a lookup asks the program is found by varying the program: its answer to certain arguments is
the answer of the lookup (`AddressTool.Asks`). The address in these arguments is the offset itself
(`AddressTool.asks_iff`), whatever segments the file has. So the two sources ask about the same code
exactly if the segment was linked at its place in the file; the main statement is
`AddressTool.asks_linked_address_iff`.
-/

namespace StackProfiler

namespace Text

/-- A number is written in hexadecimal digits and read back. -/
theorem unsigned?_hex {n limit : Nat} (h : n < limit) :
    unsigned? 16 limit (hex n).toList = some n := by
  have hdigits : hexPadded 0 n = hex n := by
    simp [hexPadded, hex]
  rw [unsigned?_sixteen_eq_some_iff, ← hdigits]
  exact ⟨isHexNumeral_hexPadded 0 n, h⟩

end Text

namespace AddressTool

/-! ## Section 1: Arguments -/

/-- The address that arguments are about: the last one, in hexadecimal digits behind `0x`. -/
def addressIn? (arguments : List String) : Option UInt64 :=
  match arguments.getLast?.map String.toList with
  | some ('0' :: 'x' :: digits) => (Text.unsigned? 16 (wordLimit 64) digits).map UInt64.ofNat
  | _ => none

/-- The address in the arguments for a lookup is the one that they were made for. -/
theorem addressIn?_arguments (path : String) (address : UInt64) :
    addressIn? (arguments path address) = some address := by
  have hread : Text.unsigned? 16 (wordLimit 64) (Text.hex address.toNat).toList =
      some address.toNat := Text.unsigned?_hex address.toNat_lt
  have hlast : (arguments path address).getLast?.map String.toList =
      some ('0' :: 'x' :: (Text.hex address.toNat).toList) := by
    simp [arguments]
  rw [addressIn?, hlast]
  simp only [hread, Option.map_some, UInt64.ofNat_toNat]

/-! ## Section 2: Lookups -/

/-- For an offset in a file, a lookup asks the program about an address: whatever program it is, the
lookup answers what the program prints for certain arguments, and these are about the address. -/
def Asks (path : String) (offset address : UInt64) : Prop :=
  ∃ arguments, addressIn? arguments = some address ∧
    ∀ run tool, tool.unavailable = false →
      ∃ tool', (source run).lookup tool path offset =
        .ok ((run tool.program arguments).toOption.bind nameIn, tool')

/-- The answer of a lookup is what the program prints for the offset. -/
theorem lookup_eq (run : String → List String → Except IoError (List UInt8)) {tool : AddressTool}
    (h : tool.unavailable = false) (path : String) (offset : UInt64) :
    ∃ tool', (source run).lookup tool path offset =
      .ok ((run tool.program (arguments path offset)).toOption.bind nameIn, tool') := by
  simp only [source, h]
  cases run tool.program (arguments path offset) with
  | error e => exact ⟨_, rfl⟩
  | ok printed =>
    cases hname : nameIn printed with
    | some name => exact ⟨tool, by simp [hname, Except.toOption]⟩
    | none => exact ⟨_, by simp [hname, Except.toOption]; rfl⟩

/-- A program that names one thing only. -/
private def naming (wanted : List String) (_program : String) (arguments : List String) :
    Except IoError (List UInt8) :=
  if arguments = wanted then .ok [102] else .error (.system .noSuchFile)

/-- **What a lookup asks** about is the offset. -/
theorem asks_iff {path : String} {offset address : UInt64} :
    Asks path offset address ↔ address = offset := by
  constructor
  · rintro ⟨asked, haddress, hlookup⟩
    -- a program that names the offset only is asked about the offset
    have hunused : ({} : AddressTool).unavailable = false := rfl
    obtain ⟨tool₁, h₁⟩ := hlookup (naming (arguments path offset)) {} hunused
    obtain ⟨tool₂, h₂⟩ := lookup_eq (naming (arguments path offset)) hunused path offset
    have hsame : asked = arguments path offset := by
      by_contra hne
      rw [h₁] at h₂
      have hname : nameIn [102] = some "f" := rfl
      simp [naming, hne, hname, Except.toOption] at h₂
    rw [hsame, addressIn?_arguments] at haddress
    exact (Option.some.inj haddress).symm
  · rintro rfl
    exact ⟨arguments path address, addressIn?_arguments path address,
      fun run tool h => lookup_eq run h path address⟩

/-! ## Section 3: The address of an offset -/

/-- An offset in a segment has the address that lies as far behind the segment's address as the
offset lies behind the segment's place in the file. -/
theorem exists_segment_of_addressOf {image : Image} {offset address : UInt64}
    (hheld : ∃ s ∈ image.segments, s.Holds offset)
    (haddress : image.addressOf offset = .ok address) :
    ∃ s, image.segments.find? (·.Holds offset) = some s ∧ s.Holds offset ∧
      address.toNat = s.address.toNat + (offset.toNat - s.fileOffset.toNat) := by
  obtain ⟨s, hfind⟩ : ∃ s, image.segments.find? (·.Holds offset) = some s := by
    obtain ⟨s, hs, hholds⟩ := hheld
    exact Option.isSome_iff_exists.mp (List.find?_isSome.mpr ⟨s, hs, decide_eq_true hholds⟩)
  have hholds : s.Holds offset := by simpa using List.find?_some hfind
  refine ⟨s, hfind, hholds, ?_⟩
  have hlinked : linkedAddress offset image.segments =
      s.address.toNat + (offset.toNat - s.fileOffset.toNat) := by
    rw [linkedAddress, hfind]
  have hsums := Image.succeedsIff_addressBy offset image.segments
  rw [Image.addressOf] at haddress
  rw [haddress, hlinked] at hsums
  cases hsums with
  | answer hfits hvalue => rw [hvalue, UInt64.toNat_ofNat_of_lt' hfits.2]

/--
**When both sources ask about the same code.** An offset lies in a segment of a file, and its
address is a word. A lookup through the external program asks about the offset and nothing else. So
it asks about the address, by which the file itself is asked, exactly if the first segment that
holds the offset was linked at its place in the file.
-/
theorem asks_linked_address_iff {image : Image} {offset address : UInt64}
    (hheld : ∃ s ∈ image.segments, s.Holds offset) (haddress : image.addressOf offset = .ok address)
    (path : String) :
    ∃ s, image.segments.find? (·.Holds offset) = some s ∧
      address.toNat = s.address.toNat + (offset.toNat - s.fileOffset.toNat) ∧
      (∀ asked, Asks path offset asked ↔ asked = offset) ∧
      (Asks path offset address ↔ s.address = s.fileOffset) := by
  obtain ⟨s, hfind, ⟨hstart, -⟩, hvalue⟩ := exists_segment_of_addressOf hheld haddress
  refine ⟨s, hfind, hvalue, fun asked => asks_iff, ?_⟩
  rw [asks_iff, ← UInt64.toNat_inj, ← UInt64.toNat_inj]
  omega

/-- An executable of one segment, which was linked far from its place in the file. -/
private def linkedFar : Image where
  segments := [{ fileOffset := 0, fileSize := 0x90, address := 0x400000 }]
  debug := { framesAt := fun _ => .ok (.ok []) }
  symbols := { symbols := [] }

/-- Of the byte at `0x78` the file is asked by its address, and the program by its offset. -/
theorem asks_linked_address_iff_far :
    linkedFar.addressOf 0x78 = .ok 0x400078 ∧
      Asks "/bin/x" 0x78 0x78 ∧ ¬Asks "/bin/x" 0x78 0x400078 := by
  have haddress : linkedFar.addressOf 0x78 = .ok 0x400078 := rfl
  have hheld : ∃ s ∈ linkedFar.segments, s.Holds 0x78 := by decide
  obtain ⟨s, hfind, -, hasked, hlinked⟩ := asks_linked_address_iff hheld haddress "/bin/x"
  have hfar : s.address ≠ s.fileOffset := by
    cases hfind
    decide
  exact ⟨haddress, (hasked 0x78).mpr rfl, mt hlinked.mp hfar⟩

end AddressTool

end StackProfiler
