import StackProfiler.Proofs.Symbol.Naming
import StackProfiler.Symbol.ImageStore

/-!
# Sums on the way to a name

Looking an address up adds numbers of the listing and of the file that are bounded only by their
words: where in the file a region starts, where a segment ends and which address it has, and where
a function ends. A name is found, or given by default, exactly if all sums that are formed are
words (`Resolver.SumsFit`); otherwise the lookup is stopped by an overflow. Which sums are formed
does not depend on the cache: a name that is remembered was found with sums that fit. Of the readers
of binaries it is assumed that they stop no search (`BinaryTools.IsTotal`).

- **one sum**: `Region.succeedsIff_fileOffset`, `Image.succeedsIff_holds`,
  `TextSymbol.succeedsIff_covers`;
- **one file**: `Image.succeedsIff_functionAt?`;
- **one lookup, and any run of lookups**: `Resolver.Reflects.resolve` and
  `Resolver.Reflects.resolveAll`;
- **main statement**: `Resolver.named_or_overflow`.
-/

namespace StackProfiler

namespace Checked

/-! ## Section 1: Computations that may overflow -/

/-- The computation has an answer under a condition, and a property holds of it; without the
condition it overflows. -/
inductive SucceedsIff {α : Type} (fits : Prop) (post : α → Prop) : Checked α → Prop where
  | answer {a : α} : fits → post a → SucceedsIff fits post (.ok a)
  | overflow : ¬fits → SucceedsIff fits post (.error .overflow)

namespace SucceedsIff

variable {α β : Type} {p q : Prop} {P : α → Prop} {Q : β → Prop} {x : Checked α}
  {f : α → Checked β}

/-- A computation without sums. -/
theorem pure {a : α} (h : P a) : SucceedsIff True P (.ok a) :=
  .answer trivial h

theorem of_iff (hx : SucceedsIff p P x) {p' : Prop} (hp : p ↔ p') : SucceedsIff p' P x := by
  rwa [propext hp] at hx

/-- Of two computations in a row, both have to fit. -/
theorem bind (hx : SucceedsIff p P x) (hf : ∀ a, p → P a → SucceedsIff q Q (f a)) :
    SucceedsIff (p ∧ q) Q (x >>= f) := by
  cases hx with
  | overflow hp => exact .overflow fun h => hp h.1
  | @answer a hp hP =>
    show SucceedsIff (p ∧ q) Q (f a)
    exact (hf a hp hP).of_iff (and_iff_right hp).symm

/-- If the only possible answer is known, the second computation starts from it. -/
theorem bind_eq {a : α} (hx : SucceedsIff p (· = a) x) (hf : SucceedsIff q Q (f a)) :
    SucceedsIff (p ∧ q) Q (x >>= f) :=
  hx.bind fun _ _ ha => ha ▸ hf

/-- What is done to the answer without further sums needs no condition of its own. -/
theorem map (hx : SucceedsIff p P x) (hf : ∀ a, p → P a → ∃ b, f a = .ok b ∧ Q b) :
    SucceedsIff p Q (x >>= f) := by
  refine (hx.bind (q := True) fun a hp ha => ?_).of_iff (and_iff_left trivial)
  obtain ⟨b, hb, hQ⟩ := hf a hp ha
  exact hb ▸ .pure hQ

end SucceedsIff

theorem succeedsIff_add (bits a b : Nat) :
    SucceedsIff (a + b < wordLimit bits) (· = a + b) (add bits a b) := by
  unfold add fit
  split
  case isTrue h => exact .answer h rfl
  case isFalse h => exact .overflow h

end Checked

open Checked (SucceedsIff succeedsIff_add)

/-! ## Section 2: The address that the linker gave to an offset -/

/-- An address of a region has an offset if its distance from the start can be added. -/
theorem Region.succeedsIff_fileOffset {r : Region} {address : UInt64}
    (h : r.contains address = true) :
    SucceedsIff (r.offsetOf address < wordLimit 64) (· = UInt64.ofNat (r.offsetOf address))
      (r.fileOffset address) := by
  rw [Region.fileOffset, Checked.sub_eq_ok_iff.mpr ⟨Region.start_le_of_contains h, rfl⟩]
  exact (succeedsIff_add ..).map fun _ _ hsum => ⟨_, rfl, congrArg _ hsum⟩

/-- The offset lies in the part of the file that the segment maps. -/
def Segment.Holds (s : Segment) (offset : UInt64) : Prop :=
  s.fileOffset.toNat ≤ offset.toNat ∧ offset.toNat < s.fileOffset.toNat + s.fileSize.toNat

instance (s : Segment) (offset : UInt64) : Decidable (s.Holds offset) :=
  inferInstanceAs (Decidable (_ ∧ _))

/-- The end of a segment is a word, if it is computed; for an offset before the segment it is
not. -/
def Segment.EndFits (s : Segment) (offset : UInt64) : Prop :=
  s.fileOffset.toNat ≤ offset.toNat → s.fileOffset.toNat + s.fileSize.toNat < wordLimit 64

/-- The segments that are looked at for an offset: all up to the first that holds it. -/
def segmentsTried (offset : UInt64) (segments : List Segment) : List Segment :=
  segments.take (segments.findIdx (·.Holds offset) + 1)

/-- The address that the linker gave to an offset; it need not be a word. -/
def linkedAddress (offset : UInt64) (segments : List Segment) : Nat :=
  match segments.find? (·.Holds offset) with
  | some s => s.address.toNat + (offset.toNat - s.fileOffset.toNat)
  | none => offset.toNat

namespace Image

theorem succeedsIff_holds (s : Segment) (offset : UInt64) :
    SucceedsIff (s.EndFits offset) (· = decide (s.Holds offset)) (holds s offset) := by
  unfold holds
  split
  case isTrue h =>
    have hle : s.fileOffset.toNat ≤ offset.toNat := UInt64.le_iff_toNat_le.mp h
    have hend : s.fileOffset.toNat + s.fileSize.toNat < wordLimit 64 ↔ s.EndFits offset :=
      ⟨fun h _ => h, fun h => h hle⟩
    refine ((succeedsIff_add ..).map ?_).of_iff hend
    rintro _ - rfl
    exact ⟨_, rfl, decide_eq_decide.mpr (and_iff_right hle).symm⟩
  case isFalse h =>
    have hlt : ¬s.fileOffset.toNat ≤ offset.toNat := mt UInt64.le_iff_toNat_le.mpr h
    exact .answer (fun hle => absurd hle hlt) (decide_eq_false fun hholds => hlt hholds.1).symm

/-- The sums are the ends of the segments that are looked at, and the address itself. -/
theorem succeedsIff_addressBy (offset : UInt64) (segments : List Segment) :
    SucceedsIff
      ((∀ s ∈ segmentsTried offset segments, s.EndFits offset) ∧
        linkedAddress offset segments < wordLimit 64)
      (· = UInt64.ofNat (linkedAddress offset segments)) (addressBy offset segments) := by
  induction segments with
  | nil => exact .answer ⟨nofun, offset.toNat_lt⟩ UInt64.ofNat_toNat.symm
  | cons s rest ih =>
    unfold addressBy
    by_cases hholds : s.Holds offset
    · have htried : segmentsTried offset (s :: rest) = [s] := by
        simp [segmentsTried, List.findIdx_cons, hholds]
      have hlinked : linkedAddress offset (s :: rest) =
          s.address.toNat + (offset.toNat - s.fileOffset.toNat) := by
        simp [linkedAddress, hholds]
      rw [htried, hlinked, List.forall_mem_singleton]
      refine (succeedsIff_holds s offset).bind_eq ?_
      rw [if_pos (decide_eq_true hholds)]
      exact (succeedsIff_add ..).map fun _ _ hsum => ⟨_, rfl, congrArg _ hsum⟩
    · have htried : segmentsTried offset (s :: rest) = s :: segmentsTried offset rest := by
        simp [segmentsTried, List.findIdx_cons, hholds]
      have hlinked : linkedAddress offset (s :: rest) = linkedAddress offset rest := by
        simp [linkedAddress, hholds]
      rw [htried, hlinked, List.forall_mem_cons, and_assoc]
      refine (succeedsIff_holds s offset).bind_eq ?_
      rw [if_neg (mt of_decide_eq_true hholds)]
      exact ih

end Image

/-! ## Section 3: The name that an image gives to an offset -/

/-- The end of the function nearest to an address is a word, if it is computed. -/
def SymbolTable.EndFits (t : SymbolTable) (address : UInt64) : Prop :=
  ∀ s ∈ t.nearest? address, s.size ≠ 0 → s.address.toNat + s.size.toNat < wordLimit 64

/-- The name of the nearest function, if it reaches as far as the address. -/
def SymbolTable.nameAt (t : SymbolTable) (demangle : String → String) (address : UInt64) :
    Option String :=
  (t.nearest? address).bind fun s =>
    if s.size = 0 ∨ address.toNat < s.address.toNat + s.size.toNat then some (demangle s.name)
    else none

theorem TextSymbol.succeedsIff_covers (s : TextSymbol) (address : UInt64) :
    SucceedsIff (s.size ≠ 0 → s.address.toNat + s.size.toNat < wordLimit 64)
      (· = decide (s.size = 0 ∨ address.toNat < s.address.toNat + s.size.toNat))
      (s.covers address) := by
  unfold covers
  split
  case isTrue hsize =>
    exact .answer (fun h => absurd hsize h) (decide_eq_true (.inl hsize)).symm
  case isFalse hsize =>
    have hend : s.address.toNat + s.size.toNat < wordLimit 64 ↔
        (s.size ≠ 0 → s.address.toNat + s.size.toNat < wordLimit 64) :=
      ⟨fun h _ => h, fun h => h hsize⟩
    refine ((succeedsIff_add ..).map ?_).of_iff hend
    rintro _ - rfl
    exact ⟨_, rfl, decide_eq_decide.mpr (or_iff_right hsize).symm⟩

theorem SymbolTable.succeedsIff_functionAt? (t : SymbolTable) (demangle : String → String)
    (address : UInt64) :
    SucceedsIff (t.EndFits address) (· = t.nameAt demangle address)
      (t.functionAt? demangle address) := by
  unfold SymbolTable.functionAt? SymbolTable.EndFits SymbolTable.nameAt
  cases t.nearest? address with
  | none => exact .answer nofun rfl
  | some s =>
    simp only [Option.mem_def, Option.some.injEq, forall_eq', Option.bind_some]
    refine (s.succeedsIff_covers address).map ?_
    rintro _ - rfl
    exact ⟨_, rfl, by simp only [decide_eq_true_eq]⟩

/-- No search in the debug information is stopped. -/
def DebugInfo.IsTotal (debug : DebugInfo) : Prop :=
  ∀ address, ∃ found, debug.framesAt address = .ok found

/-- No search in debug information that the tools load is stopped. -/
def BinaryTools.IsTotal (tools : BinaryTools) : Prop :=
  ∀ isLittleEndian sectionData debug, tools.loadDebug isLittleEndian sectionData = .ok debug →
    debug.IsTotal

/-- The name of the innermost function at an address that has a name, if it can be found. -/
def DebugInfo.nameAt (debug : DebugInfo) (address : UInt64) : Option String :=
  match debug.framesAt address with
  | .ok (.ok frames) => firstName frames
  | _ => none

theorem DebugInfo.IsTotal.succeedsIff_functionAt? {debug : DebugInfo} (h : debug.IsTotal)
    (address : UInt64) :
    SucceedsIff True (· = debug.nameAt address) (debug.functionAt? address) := by
  obtain ⟨found, hfound⟩ := h address
  unfold DebugInfo.functionAt? DebugInfo.nameAt
  rw [hfound]
  cases found <;> exact .pure rfl

namespace Image

theorem debug_isTotal_of_parse {tools : BinaryTools} (h : tools.IsTotal) {bytes : ByteArray}
    {image : Image} (hparse : parse tools bytes = .ok image) : image.debug.IsTotal := by
  unfold parse at hparse
  split at hparse
  case h_1 => cases hparse
  case h_2 file _ =>
    split at hparse
    case h_1 => cases hparse
    case h_2 debug hdebug =>
      cases hparse
      exact h _ _ _ hdebug

/-- The name that an image gives to an offset: that of the debug information, or of a symbol. -/
def nameAt (image : Image) (demangle : String → String) (offset : UInt64) : Option String :=
  let address := UInt64.ofNat (linkedAddress offset image.segments)
  ((image.debug.nameAt address).map demangle).or (image.symbols.nameAt demangle address)

/-- All sums on the way from an offset to its name are words. -/
structure SumsFit (image : Image) (offset : UInt64) : Prop where
  segmentEnds : ∀ s ∈ segmentsTried offset image.segments, s.EndFits offset
  address : linkedAddress offset image.segments < wordLimit 64
  /-- The symbols are asked if the debug information has no name. -/
  symbolEnd :
    image.debug.nameAt (UInt64.ofNat (linkedAddress offset image.segments)) = none →
      image.symbols.EndFits (UInt64.ofNat (linkedAddress offset image.segments))

theorem succeedsIff_nameOfAddress {image : Image} (hdebug : image.debug.IsTotal)
    (demangle : String → String) (address : UInt64) :
    SucceedsIff (image.debug.nameAt address = none → image.symbols.EndFits address)
      (· = ((image.debug.nameAt address).map demangle).or (image.symbols.nameAt demangle address))
      (do
        match ← image.debug.functionAt? address with
        | some name => return some (demangle name)
        | none => image.symbols.functionAt? demangle address) := by
  refine ((hdebug.succeedsIff_functionAt? address).bind_eq ?_).of_iff (and_iff_right trivial)
  cases image.debug.nameAt address with
  | some name => exact .answer nofun rfl
  | none =>
    rw [Option.map_none, Option.none_or]
    exact (image.symbols.succeedsIff_functionAt? demangle address).of_iff
      ⟨fun h _ => h, fun h => h rfl⟩

/-- **One file**: an offset gets its name, or no name, if all sums fit. -/
theorem succeedsIff_functionAt? {image : Image} (hdebug : image.debug.IsTotal)
    (demangle : String → String) (offset : UInt64) :
    SucceedsIff (image.SumsFit offset) (· = image.nameAt demangle offset)
      (image.functionAt? demangle offset) := by
  have haddress := succeedsIff_addressBy offset image.segments
  have hnamed := succeedsIff_nameOfAddress hdebug demangle
    (UInt64.ofNat (linkedAddress offset image.segments))
  refine (haddress.bind_eq hnamed).of_iff ⟨?_, ?_⟩
  · rintro ⟨⟨hends, hfits⟩, hsymbol⟩
    exact ⟨hends, hfits, hsymbol⟩
  · intro h
    exact ⟨⟨h.segmentEnds, h.address⟩, h.symbolEnd⟩

end Image

/-! ## Section 4: Images read from files -/

section Files

-- the readers of binaries, and what the file at a path holds; a path is known by its components
variable {tools : BinaryTools} {files : List String → Except IoError ByteArray}

/-- The image of the file at a path, if there is one that can be read. -/
def imageAt (tools : BinaryTools) (files : List String → Except IoError ByteArray)
    (path : String) : Option Image :=
  (Image.load tools (files (Path.components path))).toOption

theorem debug_isTotal_of_imageAt (h : tools.IsTotal) {path : String} {image : Image}
    (himage : imageAt tools files path = some image) : image.debug.IsTotal := by
  unfold imageAt Image.load at himage
  split at himage
  case h_1 => cases himage
  case h_2 bytes _ =>
    cases hparse : Image.parse tools bytes with
    | error _ => simp [hparse, Except.toOption] at himage
    | ok parsed =>
      obtain rfl : parsed = image := by simpa [hparse, Except.toOption] using himage
      exact Image.debug_isTotal_of_parse h hparse

/-- What the files say about an offset in one of them. -/
def nameIn (tools : BinaryTools) (files : List String → Except IoError ByteArray) (path : String)
    (offset : UInt64) : Option String :=
  (imageAt tools files path).bind (·.nameAt tools.demangle offset)

/-- The images in a store are those of the files. -/
def ImageStore.Reflects (store : ImageStore) (tools : BinaryTools)
    (files : List String → Except IoError ByteArray) : Prop :=
  ∀ entry ∈ store.images, entry.2 = (Image.load tools (files entry.1)).toOption

/-- The source of names over the files. -/
def sourceOf (tools : BinaryTools) (files : List String → Except IoError ByteArray) :
    NameSource ImageStore :=
  ImageStore.source tools fun path => files (Path.components path)

namespace ImageStore.Reflects

theorem empty : ImageStore.Reflects {} tools files :=
  nofun

/-- A file has the same image whether it is read now or was read before. -/
theorem imageOf {store : ImageStore} (h : store.Reflects tools files) (path : String) :
    ∃ store', store.imageOf tools (fun path => files (Path.components path)) path =
        (imageAt tools files path, store') ∧ store'.Reflects tools files := by
  unfold ImageStore.imageOf
  cases hfind : store.images.find? (·.1 == Path.components path) with
  | some entry =>
    have hkey : entry.1 = Path.components path := by simpa using List.find?_some hfind
    have himage : entry.2 = imageAt tools files path := by
      rw [h entry (List.mem_of_find?_eq_some hfind), hkey, imageAt]
    exact ⟨store, by rw [← himage]; simp only [hfind], h⟩
  | none =>
    simp only [hfind]
    -- an image, or that there is none, is remembered
    cases hload : Image.load tools (files (Path.components path)) <;>
    · refine ⟨_, by rw [imageAt, hload]; rfl, fun entry hentry => ?_⟩
      rcases List.mem_append.mp hentry with hold | hnew
      · exact h entry hold
      · rw [List.mem_singleton.mp hnew, hload]
        rfl

theorem lookup {store : ImageStore} (h : store.Reflects tools files) (htools : tools.IsTotal)
    (path : String) (offset : UInt64) :
    SucceedsIff (∀ image ∈ imageAt tools files path, image.SumsFit offset)
      (fun found => found.1 = nameIn tools files path offset ∧ found.2.Reflects tools files)
      ((sourceOf tools files).lookup store path offset) := by
  obtain ⟨store', hstore, h'⟩ := h.imageOf path
  unfold sourceOf ImageStore.source nameIn
  simp only [hstore]
  cases himage : imageAt tools files path with
  | none => exact .answer nofun ⟨rfl, h'⟩
  | some image =>
    have hdebug := debug_isTotal_of_imageAt htools himage
    simp only [Option.mem_def, Option.some.injEq, forall_eq', Option.bind_some]
    exact (Image.succeedsIff_functionAt? hdebug tools.demangle offset).map
      fun _ _ hname => ⟨_, rfl, hname, h'⟩

end ImageStore.Reflects

namespace Resolver

/-! ## Section 5: Lookups -/

/-- All sums on the way from an address to its name are words: the offset of the address in the
file of its region, and the sums in that file. For zero there are none. -/
def SumsFit (regions : List Region) (tools : BinaryTools)
    (files : List String → Except IoError ByteArray) (address : UInt64) : Prop :=
  address ≠ 0 → ∀ region ∈ regions.find? (·.contains address),
    region.offsetOf address < wordLimit 64 ∧
      ∀ image ∈ imageAt tools files region.path,
        image.SumsFit (UInt64.ofNat (region.offsetOf address))

/-- The resolver names addresses by the regions and the files. What it has remembered was found
with sums that fit. -/
structure Reflects (r : Resolver ImageStore) (regions : List Region) (tools : BinaryTools)
    (files : List String → Except IoError ByteArray) : Prop where
  regions_eq : r.regions = regions
  source_eq : r.source = sourceOf tools files
  images : r.state.Reflects tools files
  cached : ∀ entry, r.cache.Stores entry →
    SumsFit regions tools files entry.address ∧
      entry.name = nameOf regions (nameIn tools files) entry.address

namespace Reflects

variable {r : Resolver ImageStore} {regions : List Region}

theorem ofRegions {config : CacheConfig}
    (h : Resolver.ofRegions regions (sourceOf tools files) {} config = .ok r) :
    r.Reflects regions tools files := by
  obtain ⟨cache, hcache, h⟩ := Checked.bind_eq_ok_iff.mp h
  cases h
  exact ⟨rfl, rfl, .empty, fun entry hentry =>
    absurd hentry (SymbolCache.not_stores_of_ofConfig hcache)⟩

theorem withStats (h : r.Reflects regions tools files) (stats : ResolverStats) :
    Reflects { r with stats } regions tools files :=
  ⟨h.regions_eq, h.source_eq, h.images, h.cached⟩

theorem ask (h : r.Reflects regions tools files) (htools : tools.IsTotal) {address : UInt64}
    (hzero : address ≠ 0) :
    SucceedsIff (SumsFit regions tools files address)
      (fun found => found.1 = answerFor regions (nameIn tools files) address ∧
        found.2.Reflects regions tools files) (r.ask address) := by
  unfold Resolver.ask answerFor SumsFit
  rw [h.regions_eq, h.source_eq]
  cases hfind : regions.find? (·.contains address) with
  | none => exact .answer nofun ⟨rfl, h⟩
  | some region =>
    have hcontains : region.contains address = true := by simpa using List.find?_some hfind
    have hlookup := h.images.lookup htools region.path (UInt64.ofNat (region.offsetOf address))
    simp only [Option.mem_def, Option.some.injEq, forall_eq', Option.bind_some, ne_eq, hzero,
      not_false_eq_true, forall_const]
    refine (Region.succeedsIff_fileOffset hcontains).bind_eq ?_
    refine hlookup.map ?_
    rintro ⟨name?, state⟩ - ⟨hname, hstate⟩
    exact ⟨_, rfl, hname, rfl, rfl, hstate, h.cached⟩

theorem resolveUncached (h : r.Reflects regions tools files) (htools : tools.IsTotal)
    {address : UInt64} (hzero : address ≠ 0) :
    SucceedsIff (SumsFit regions tools files address)
      (fun found => found.1 = nameOf regions (nameIn tools files) address ∧
        found.2.Reflects regions tools files) (r.resolveUncached address) := by
  unfold Resolver.resolveUncached nameOf
  rw [if_neg hzero]
  refine (h.ask htools hzero).map ?_
  rintro ⟨name?, r'⟩ - ⟨rfl, h'⟩
  cases answerFor regions (nameIn tools files) address with
  | none => exact ⟨_, rfl, rfl, h'.withStats _⟩
  | some name => exact ⟨_, rfl, rfl, h'⟩

/-- A name that was found may be remembered. -/
theorem fill (h : r.Reflects regions tools files) (slot : Nat) {address : UInt64}
    (hfits : SumsFit regions tools files address) :
    let name := nameOf regions (nameIn tools files) address
    Reflects { r with cache := r.cache.fill slot address name } regions tools files := by
  refine ⟨h.regions_eq, h.source_eq, h.images, fun entry hentry => ?_⟩
  rcases SymbolCache.eq_or_stores_of_stores_fill hentry with rfl | hentry
  · exact ⟨hfits, rfl⟩
  · exact h.cached entry hentry

/-- **One lookup**: an address gets its name if all sums fit, whatever is remembered. -/
theorem resolve (h : r.Reflects regions tools files) (htools : tools.IsTotal) (address : UInt64) :
    SucceedsIff (SumsFit regions tools files address)
      (fun found => found.1 = nameOf regions (nameIn tools files) address ∧
        found.2.Reflects regions tools files) (r.resolve address) := by
  unfold Resolver.resolve
  by_cases hzero : address = 0
  · rw [if_pos hzero]
    exact .answer (absurd hzero) ⟨by rw [nameOf, if_pos hzero], h.withStats _⟩
  · simp only [if_neg hzero]
    cases hprobe : r.cache.probe address with
    | hit name =>
      -- what is remembered was found with sums that fit
      obtain ⟨hfits, hname⟩ := h.cached _ (SymbolCache.stores_of_probe_eq_hit hprobe)
      exact .answer hfits ⟨hname, h.withStats _⟩
    | vacant slot =>
      refine ((h.withStats _).resolveUncached htools hzero).map ?_
      rintro ⟨name, r'⟩ hfits ⟨rfl, h'⟩
      exact ⟨_, rfl, rfl, h'.fill slot hfits⟩
    | contended => exact (h.withStats _).resolveUncached htools hzero

/-- A run of lookups that has not been stopped leaves a resolver of the same names. -/
theorem resolveAll (h : r.Reflects regions tools files) (htools : tools.IsTotal)
    {addresses : List UInt64} {names : List String} {r' : Resolver ImageStore}
    (hrun : r.resolveAll addresses = .ok (names, r')) :
    r'.Reflects regions tools files := by
  induction addresses generalizing r names with
  | nil =>
    cases hrun
    exact h
  | cons address addresses ih =>
    simp only [Resolver.resolveAll, Checked.bind_eq_ok_iff] at hrun
    obtain ⟨⟨name, r₁⟩, hfirst, ⟨rest, r₂⟩, hrest, hlast⟩ := hrun
    cases hlast
    have hfound := h.resolve htools address
    rw [hfirst] at hfound
    cases hfound with
    | answer _ h₁ => exact ih h₁.2 hrest

end Reflects

/-- **Named or stopped**: a resolver for a listing of regions, which reads the files that the
listing names by tools that stop no search, is asked for an address after any other lookups. If
all sums on the way to the name of the address are words, it answers with that name: the name of
zero, a name that was found in a file, or a name by default. Otherwise, and only then, an overflow
stops it. -/
theorem named_or_overflow (htools : tools.IsTotal) {text : String} {config : CacheConfig}
    {r r' : Resolver ImageStore}
    (hnew : Resolver.ofRegions (MemoryMap.parse text) (sourceOf tools files) {} config = .ok r)
    {earlier : List UInt64} {names : List String} (hrun : r.resolveAll earlier = .ok (names, r'))
    (address : UInt64) :
    (SumsFit (MemoryMap.parse text) tools files address ∧
      ∃ r'', r'.resolve address =
        .ok (nameOf (MemoryMap.parse text) (nameIn tools files) address, r'')) ∨
      (¬SumsFit (MemoryMap.parse text) tools files address ∧
        r'.resolve address = .error .overflow) := by
  have hfound := ((Reflects.ofRegions hnew).resolveAll htools hrun).resolve htools address
  generalize r'.resolve address = found at hfound
  cases hfound with
  | @answer found hfits hpost =>
    obtain ⟨hname, -⟩ := hpost
    exact .inl ⟨hfits, found.2, by rw [← hname]⟩
  | overflow hfits => exact .inr ⟨hfits, rfl⟩

/-- A region whose offset in its file is the largest word. -/
private def farRegion : String :=
  "1000-2000 r-xp ffffffffffffffff fd:01 1 /bin/x"

private def emptyFiles : List String → Except IoError ByteArray :=
  fun _ => .ok .empty

/-- What readers say of files without content. -/
private def emptyFileTools : BinaryTools :=
  { BinaryTools.unknowing with parseObject := fun _ => .error "Could not read file magic" }

private theorem emptyFileTools_isTotal : emptyFileTools.IsTotal := by
  rintro _ _ debug hload address
  cases hload
  exact ⟨.ok [], rfl⟩

private def farResolver : Resolver ImageStore where
  regions := MemoryMap.parse farRegion
  source := sourceOf emptyFileTools emptyFiles
  state := {}
  cache := { entries := #[none], probes := 1 }

private theorem ofRegions_farResolver :
    Resolver.ofRegions (MemoryMap.parse farRegion) (sourceOf emptyFileTools emptyFiles) {}
      { slots := 1, probes := 1 } = .ok farResolver := by
  have hslots : Nat.nextPowerOfTwo 1 = 1 := by decide +kernel
  simp [Resolver.ofRegions, SymbolCache.ofConfig, hslots, Checked.fit, wordLimit, farResolver, bind,
    Except.bind, pure, Except.pure]

/-- The first address of the region has an offset, and is named by default since its file tells
nothing; an address behind it stops the resolver. -/
theorem named_or_overflow_far :
    ∃ r, farResolver.resolveAll [0x1000] = .ok (["[unknown]"], r) ∧
      r.resolve 0x1500 = .error .overflow := by
  obtain ⟨r, hrun⟩ : ∃ r, farResolver.resolveAll [0x1000] = .ok (["[unknown]"], r) := ⟨_, rfl⟩
  refine ⟨r, hrun, ?_⟩
  have hfits : ¬SumsFit (MemoryMap.parse farRegion) emptyFileTools emptyFiles 0x1500 := by
    intro h
    have hoffset := (h (by decide) _ rfl).1
    exact absurd hoffset (by decide)
  have hanswer := named_or_overflow emptyFileTools_isTotal ofRegions_farResolver hrun 0x1500
  exact (hanswer.resolve_left fun h => hfits h.1).2

end Resolver

end Files

end StackProfiler
