import Mathlib.Data.List.Find
import Mathlib.Data.List.Sort
import StackProfiler.Proofs.Symbol.Overflow

/-!
# The nearest symbol

A symbol table is sorted, has one symbol for each address, and is searched for the last symbol that
does not start above an address. The symbol that this finds can be told without a table: it is the
first, in the order of the file, of those that have the greatest address not above the given one
(`nearestAmong`).

- **the table**: `mem_ofSymbols_iff` and `ascending_ofSymbols`;
- **the search**: `nearest?_ofSymbols`;
- **main statements**: `named_by_nearest`, and `covered_named_by_nearest`, which says when an
  address inside a function is named.
-/

namespace StackProfiler

/-! ## Section 1: Names told without a table -/

namespace TextSymbol

/-- The function that a symbol stands for: it is code, and has a name that is text. -/
def named? (s : ObjectSymbol) : Option TextSymbol := do
  guard s.isText
  let name ← s.name
  return { address := s.address, size := s.size, name }

theorem address_of_named? {s : ObjectSymbol} {t : TextSymbol} (h : named? s = some t) :
    t.address = s.address := by
  simp only [named?, Option.bind_eq_bind, Option.bind_eq_some_iff] at h
  obtain ⟨-, -, name, -, h⟩ := h
  cases h
  rfl

/-- The symbols that a table takes are those that have an address. -/
theorem ofObject?_eq (s : ObjectSymbol) : ofObject? s = (named? s).filter (·.address ≠ 0) := by
  unfold ofObject? named?
  by_cases htext : s.isText = true
  · cases s.name with
    | none => by_cases hzero : s.address = 0 <;> simp [htext, hzero]
    | some name => by_cases hzero : s.address = 0 <;> simp [htext, hzero, Option.filter]
  · simp [htext]

/-- The symbol ends behind the address, or it is not known where it ends. -/
def Reaches (s : TextSymbol) (address : UInt64) : Prop :=
  s.size = 0 ∨ address.toNat < s.address.toNat + s.size.toNat

instance (s : TextSymbol) (address : UInt64) : Decidable (s.Reaches address) :=
  inferInstanceAs (Decidable (_ ∨ _))

/-- The address lies in the symbol. -/
def Covers (s : TextSymbol) (address : UInt64) : Prop :=
  s.address ≤ address ∧ address.toNat < s.address.toNat + s.size.toNat

instance (s : TextSymbol) (address : UInt64) : Decidable (s.Covers address) :=
  inferInstanceAs (Decidable (_ ∧ _))

end TextSymbol

/-- The functions that symbols stand for, in the same order. -/
def textSymbols (symbols : List ObjectSymbol) : List TextSymbol :=
  symbols.filterMap TextSymbol.named?

/-- The end of every symbol is a word. -/
def EndsFit (symbols : List TextSymbol) : Prop :=
  ∀ s ∈ symbols, s.address.toNat + s.size.toNat < wordLimit 64

instance (symbols : List TextSymbol) : Decidable (EndsFit symbols) :=
  inferInstanceAs (Decidable (∀ s ∈ symbols, _ < _))

/-- The first of those symbols that have the greatest address not above the given one. Symbols
without an address do not count. -/
def nearestAmong (symbols : List TextSymbol) (address : UInt64) : Option TextSymbol :=
  let below := symbols.filter fun s => s.address ≠ 0 ∧ s.address ≤ address
  below.find? fun s => ∀ t ∈ below, t.address ≤ s.address

/-- The name of the nearest symbol, if that reaches as far as the address. -/
def nameAmong (demangle : String → String) (symbols : List TextSymbol) (address : UInt64) :
    Option String :=
  (nearestAmong symbols address).bind fun s =>
    if s.Reaches address then some (demangle s.name) else none

namespace SymbolTable

variable {demangle : String → String} {symbols : List TextSymbol} {s t : TextSymbol}
  {address : UInt64}

/-! ## Section 2: One symbol for each address -/

theorem firstOfEach_sublist (symbols : List TextSymbol) :
    (firstOfEach symbols).Sublist symbols := by
  induction symbols using firstOfEach.induct with
  | case1 => rw [firstOfEach]
  | case2 s => rw [firstOfEach]
  | case3 s t rest hsame ih =>
    rw [firstOfEach, if_pos hsame]
    exact ih.trans ((List.sublist_cons_self t rest).cons_cons s)
  | case4 s t rest hother ih =>
    rw [firstOfEach, if_neg hother]
    exact ih.cons_cons s

/-- In a sorted list, what follows another address lies above the first one. -/
theorem lt_of_pairwise_cons {rest : List TextSymbol}
    (hsorted : (s :: t :: rest).Pairwise (·.address ≤ ·.address)) (hother : s.address ≠ t.address) :
    ∀ u ∈ t :: rest, s.address < u.address := by
  obtain ⟨hfirst, hrest⟩ := List.pairwise_cons.mp hsorted
  have hlt : s.address < t.address := UInt64.lt_of_le_of_ne (hfirst t List.mem_cons_self) hother
  intro u hu
  rcases List.mem_cons.mp hu with rfl | hu
  · exact hlt
  · exact UInt64.lt_of_lt_of_le hlt (List.rel_of_pairwise_cons hrest hu)

/-- **Of a sorted list**, the first symbol of each address is kept, and no other. -/
theorem mem_firstOfEach_iff (hsorted : symbols.Pairwise (·.address ≤ ·.address)) :
    s ∈ firstOfEach symbols ↔ symbols.find? (·.address = s.address) = some s := by
  induction symbols using firstOfEach.induct with
  | case1 => simp [firstOfEach]
  | case2 u =>
    rw [firstOfEach, List.mem_singleton, List.find?_singleton]
    by_cases h : u.address = s.address
    · simp [h, eq_comm]
    · have hne : s ≠ u := fun heq => h (heq ▸ rfl)
      simp [h, hne]
  | case3 u t rest hsame ih =>
    rw [firstOfEach, if_pos hsame,
      ih (hsorted.sublist ((List.sublist_cons_self t rest).cons_cons u))]
    by_cases h : u.address = s.address
    · simp [h]
    · have ht : t.address ≠ s.address := hsame ▸ h
      simp [h, ht]
  | case4 u t rest hother ih =>
    have hlt := lt_of_pairwise_cons hsorted hother
    rw [firstOfEach, if_neg hother, List.mem_cons, ih (List.pairwise_cons.mp hsorted).2]
    by_cases h : u.address = s.address
    · -- no symbol behind the first has its address
      have hnone : (t :: rest).find? (·.address = s.address) = none := by
        rw [List.find?_eq_none]
        intro v hv hsame
        have habove := hlt v hv
        rw [h, of_decide_eq_true hsame] at habove
        exact UInt64.lt_irrefl _ habove
      rw [hnone]
      simp [h, eq_comm]
    · have hne : s ≠ u := fun heq => h (heq ▸ rfl)
      simp [h, hne]

theorem ascending_firstOfEach (hsorted : symbols.Pairwise (·.address ≤ ·.address)) :
    (firstOfEach symbols).Pairwise (·.address < ·.address) := by
  induction symbols using firstOfEach.induct with
  | case1 => simp [firstOfEach]
  | case2 s => simp [firstOfEach]
  | case3 s t rest hsame ih =>
    rw [firstOfEach, if_pos hsame]
    exact ih (hsorted.sublist ((List.sublist_cons_self t rest).cons_cons s))
  | case4 s t rest hother ih =>
    rw [firstOfEach, if_neg hother, List.pairwise_cons]
    have hlt := lt_of_pairwise_cons hsorted hother
    exact ⟨fun u hu => hlt u ((firstOfEach_sublist _).mem hu),
      ih (List.pairwise_cons.mp hsorted).2⟩

/-! ## Section 3: Sorting keeps the order at each address -/

theorem le_trans_address (s t u : TextSymbol) (hst : decide (s.address ≤ t.address) = true)
    (htu : decide (t.address ≤ u.address) = true) : decide (s.address ≤ u.address) = true :=
  decide_eq_true (UInt64.le_trans (of_decide_eq_true hst) (of_decide_eq_true htu))

theorem le_total_address (s t : TextSymbol) :
    (decide (s.address ≤ t.address) || decide (t.address ≤ s.address)) = true := by
  rw [Bool.or_eq_true, decide_eq_true_iff, decide_eq_true_iff]
  exact UInt64.le_total s.address t.address

theorem pairwise_sorted (symbols : List TextSymbol) :
    (symbols.mergeSort fun s t => s.address ≤ t.address).Pairwise (·.address ≤ ·.address) :=
  (List.pairwise_mergeSort le_trans_address le_total_address symbols).imp of_decide_eq_true

/-- The symbols at one address stand in the sorted list as they stand in the file. -/
theorem filter_sorted (symbols : List TextSymbol) (x : UInt64) :
    (symbols.mergeSort fun s t => s.address ≤ t.address).filter (·.address = x) =
      symbols.filter (·.address = x) := by
  -- they are in order, so the sort, which is stable, does not rearrange them
  have hequal : (symbols.filter (·.address = x)).Pairwise
      fun s t => decide (s.address ≤ t.address) = true := by
    refine List.pairwise_of_forall_mem_list fun s hs t ht => ?_
    have hsx : s.address = x := of_decide_eq_true (List.mem_filter.mp hs).2
    have htx : t.address = x := of_decide_eq_true (List.mem_filter.mp ht).2
    simp [hsx, htx]
  have hsub := (List.sublist_mergeSort le_trans_address le_total_address hequal
    List.filter_sublist).filter (·.address = x)
  rw [List.filter_filter] at hsub
  simp only [Bool.and_self] at hsub
  have hperm := (List.mergeSort_perm symbols fun s t => decide (s.address ≤ t.address)).filter
    (·.address = x)
  exact (hsub.eq_of_length hperm.length_eq.symm).symm

/-- **The table** has the first symbol of each address, in the order of the file, and no other. -/
theorem mem_ofSymbols_iff :
    s ∈ (ofSymbols symbols).symbols ↔ symbols.find? (·.address = s.address) = some s := by
  rw [ofSymbols, mem_firstOfEach_iff (pairwise_sorted symbols), ← List.head?_filter,
    filter_sorted, List.head?_filter]

theorem ascending_ofSymbols (symbols : List TextSymbol) :
    (ofSymbols symbols).symbols.Pairwise (·.address < ·.address) :=
  ascending_firstOfEach (pairwise_sorted symbols)

/-- The table has a symbol at every address at which there is one. -/
theorem exists_mem_ofSymbols (h : s ∈ symbols) :
    ∃ t ∈ (ofSymbols symbols).symbols, t.address = s.address := by
  have hfound : (symbols.find? (·.address = s.address)).isSome = true :=
    List.find?_isSome.mpr ⟨s, h, decide_eq_true rfl⟩
  obtain ⟨t, ht⟩ := Option.isSome_iff_exists.mp hfound
  have hsame : t.address = s.address := by simpa using List.find?_some ht
  exact ⟨t, mem_ofSymbols_iff.mpr (hsame ▸ ht), hsame⟩

/-! ## Section 4: The nearest symbol -/

/-- The symbol is the first at its address, and none lies between it and the given address. -/
structure IsNearest (symbols : List TextSymbol) (address : UInt64) (s : TextSymbol) : Prop where
  first : symbols.find? (·.address = s.address) = some s
  le : s.address ≤ address
  greatest : ∀ t ∈ symbols, t.address ≤ address → t.address ≤ s.address

/-- What the search goes over are the symbols that do not start above the address. -/
theorem takeWhile_of_ascending (h : symbols.Pairwise (·.address < ·.address)) :
    symbols.takeWhile (·.address ≤ address) = symbols.filter (·.address ≤ address) := by
  induction symbols with
  | nil => rfl
  | cons s rest ih =>
    obtain ⟨hfirst, hrest⟩ := List.pairwise_cons.mp h
    by_cases hle : s.address ≤ address
    · simp [hle, ih hrest]
    · -- behind a symbol that starts above the address, all do
      have hnone : rest.filter (·.address ≤ address) = [] := by
        rw [List.filter_eq_nil_iff]
        intro t ht hbelow
        exact hle (UInt64.le_trans (UInt64.le_of_lt (hfirst t ht)) (of_decide_eq_true hbelow))
      simp [hle, hnone]

theorem IsNearest.unique (hs : IsNearest symbols address s) (ht : IsNearest symbols address t) :
    s = t := by
  have hsame : s.address = t.address :=
    UInt64.le_antisymm (ht.greatest s (List.mem_of_find?_eq_some hs.first) hs.le)
      (hs.greatest t (List.mem_of_find?_eq_some ht.first) ht.le)
  have hfirst := hs.first
  rw [hsame, ht.first] at hfirst
  exact (Option.some.inj hfirst).symm

/-- The symbol that the search in the table finds is the nearest. -/
theorem isNearest_of_nearest? (h : (ofSymbols symbols).nearest? address = some s) :
    IsNearest symbols address s := by
  rw [nearest?, takeWhile_of_ascending (ascending_ofSymbols symbols)] at h
  obtain ⟨front, hfront⟩ := List.getLast?_eq_some_iff.mp h
  have hascending := (ascending_ofSymbols symbols).filter (·.address ≤ address)
  rw [hfront] at hascending
  obtain ⟨hs, hle⟩ := List.mem_filter.mp (List.mem_of_getLast? h)
  refine ⟨mem_ofSymbols_iff.mp hs, of_decide_eq_true hle, fun t ht htle => ?_⟩
  obtain ⟨u, hu, hsame⟩ := exists_mem_ofSymbols ht
  have hmem : u ∈ front ++ [s] := by
    rw [← hfront, List.mem_filter, hsame]
    exact ⟨hu, decide_eq_true htle⟩
  rw [← hsame]
  rcases List.mem_append.mp hmem with hbefore | hlast
  · exact UInt64.le_of_lt
      ((List.pairwise_append.mp hascending).2.2 u hbefore s (List.mem_singleton_self s))
  · rw [List.mem_singleton.mp hlast]
    exact UInt64.le_refl _

/-- The search finds something if there is a symbol that does not start above the address. -/
theorem exists_nearest? (h : s ∈ symbols) (hle : s.address ≤ address) :
    ∃ t, (ofSymbols symbols).nearest? address = some t := by
  cases hfound : (ofSymbols symbols).nearest? address with
  | some t => exact ⟨t, rfl⟩
  | none =>
    rw [nearest?, takeWhile_of_ascending (ascending_ofSymbols symbols),
      List.getLast?_eq_none_iff, List.filter_eq_nil_iff] at hfound
    obtain ⟨t, ht, hsame⟩ := exists_mem_ofSymbols h
    exact absurd (decide_eq_true (hsame ▸ hle)) (hfound t ht)

theorem nearest?_eq_some_iff :
    (ofSymbols symbols).nearest? address = some s ↔ IsNearest symbols address s := by
  refine ⟨isNearest_of_nearest?, fun h => ?_⟩
  obtain ⟨t, ht⟩ := exists_nearest? (List.mem_of_find?_eq_some h.first) h.le
  rw [ht, h.unique (isNearest_of_nearest? ht)]

/-- If a symbol has the greatest address, looking for that is looking for the address. -/
theorem nearestAmong_of_greatest (hle : s.address ≤ address)
    (hmem : s ∈ symbols.filter (·.address ≠ 0))
    (hgreatest : ∀ t ∈ symbols.filter (·.address ≠ 0), t.address ≤ address →
      t.address ≤ s.address) :
    nearestAmong symbols address =
      (symbols.filter (·.address ≠ 0)).find? (·.address = s.address) := by
  have hbelow : symbols.filter (fun t => t.address ≠ 0 ∧ t.address ≤ address) =
      (symbols.filter (·.address ≠ 0)).filter (·.address ≤ address) := by
    simp [List.filter_filter, Bool.and_comm]
  unfold nearestAmong
  rw [hbelow]
  generalize symbols.filter (·.address ≠ 0) = counted at *
  have hs : s ∈ counted.filter (·.address ≤ address) :=
    List.mem_filter.mpr ⟨hmem, decide_eq_true hle⟩
  calc
    _ = (counted.filter (·.address ≤ address)).find? (·.address = s.address) := by
      refine List.find?_congr fun t ht => decide_eq_decide.mpr ⟨fun hall => ?_, fun hsame => ?_⟩
      · obtain ⟨htmem, htle⟩ := List.mem_filter.mp ht
        exact UInt64.le_antisymm (hgreatest t htmem (of_decide_eq_true htle)) (hall s hs)
      · intro u hu
        obtain ⟨humem, hule⟩ := List.mem_filter.mp hu
        rw [hsame]
        exact hgreatest u humem (of_decide_eq_true hule)
    _ = counted.find? (·.address = s.address) := by
      rw [List.find?_filter]
      refine List.find?_congr fun t _ => decide_eq_decide.mpr ?_
      simp only [decide_eq_true_eq, and_iff_right_iff_imp]
      rintro hsame
      rwa [hsame]

/-- Of the symbols that have an address, the one that is found without a table is the nearest. -/
theorem nearestAmong_eq_some_iff :
    nearestAmong symbols address = some s ↔
      IsNearest (symbols.filter (·.address ≠ 0)) address s := by
  constructor
  · intro h
    unfold nearestAmong at h
    have hall := List.find?_some h
    have hs := List.mem_of_find?_eq_some h
    simp only [List.mem_filter, decide_eq_true_eq] at hs hall
    obtain ⟨hmem, hzero, hle⟩ := hs
    have hcounted : s ∈ symbols.filter (·.address ≠ 0) := by simp [hmem, hzero]
    have hgreatest : ∀ t ∈ symbols.filter (·.address ≠ 0), t.address ≤ address →
        t.address ≤ s.address := by
      intro t ht htle
      obtain ⟨ht, htzero⟩ := List.mem_filter.mp ht
      exact hall t ⟨ht, of_decide_eq_true htzero, htle⟩
    exact ⟨(nearestAmong_of_greatest hle hcounted hgreatest).symm.trans h, hle, hgreatest⟩
  · intro h
    rw [nearestAmong_of_greatest h.le (List.mem_of_find?_eq_some h.first) h.greatest, h.first]

/-- **The search** finds the symbol that is nearest among those that have an address. -/
theorem nearest?_ofSymbols (symbols : List TextSymbol) (address : UInt64) :
    (ofSymbols (symbols.filter (·.address ≠ 0))).nearest? address =
      nearestAmong symbols address := by
  apply Option.ext
  intro s
  rw [nearest?_eq_some_iff, nearestAmong_eq_some_iff]

/-- The table names an address as its nearest symbol does. -/
theorem functionAt?_ofSymbols (hfits : EndsFit symbols) (address : UInt64) :
    (ofSymbols (symbols.filter (·.address ≠ 0))).functionAt? demangle address =
      .ok (nameAmong demangle symbols address) := by
  have hname := succeedsIff_functionAt? (ofSymbols (symbols.filter (·.address ≠ 0))) demangle
    address
  have hend : (ofSymbols (symbols.filter (·.address ≠ 0))).EndFits address := by
    intro s hs _
    rw [Option.mem_def, nearest?_eq_some_iff] at hs
    exact hfits s (List.mem_filter.mp (List.mem_of_find?_eq_some hs.first)).1
  generalize (ofSymbols (symbols.filter (·.address ≠ 0))).functionAt? demangle address = found
    at hname
  cases hname with
  | overflow hno => exact absurd hend hno
  | answer _ heq =>
    rw [heq, SymbolTable.nameAt, nearest?_ofSymbols]
    rfl

/-! ## Section 5: The symbols of a file -/

theorem ofObject_eq (symbols : List ObjectSymbol) :
    ofObject symbols = ofSymbols ((textSymbols symbols).filter (·.address ≠ 0)) := by
  rw [ofObject, textSymbols, List.filter_filterMap]
  exact congrArg ofSymbols (List.filterMap_congr fun s _ => TextSymbol.ofObject?_eq s)

/-- The table of an image is that of the symbols in the file, those of both its tables. -/
theorem symbols_of_parse {tools : BinaryTools} {bytes : ByteArray} {image : Image}
    (h : Image.parse tools bytes = .ok image) :
    ∃ file, tools.parseObject bytes = .ok file ∧
      image.symbols = ofObject (file.symbols ++ file.dynamicSymbols) := by
  unfold Image.parse at h
  cases hparse : tools.parseObject bytes with
  | error e => simp [hparse] at h
  | ok file =>
    rw [hparse] at h
    dsimp only at h
    split at h
    · cases h
    · cases h
      exact ⟨file, rfl, rfl⟩

/-- What stands at an address comes from the symbols with that address. -/
theorem filter_textSymbols (symbols : List ObjectSymbol) (x : UInt64) :
    (textSymbols symbols).filter (·.address = x) =
      textSymbols (symbols.filter (·.address = x)) := by
  rw [textSymbols, textSymbols, List.filter_filterMap, List.filterMap_filter]
  refine List.filterMap_congr fun s _ => ?_
  cases hnamed : TextSymbol.named? s with
  | none => simp
  | some t => simp [Option.filter, TextSymbol.address_of_named? hnamed]

/-- **The order does not matter** between symbols at different addresses. -/
theorem ofSymbols_congr {symbols' : List TextSymbol}
    (h : ∀ x, symbols'.filter (·.address = x) = symbols.filter (·.address = x)) :
    ofSymbols symbols' = ofSymbols symbols := by
  have hmem : ∀ s, s ∈ (ofSymbols symbols').symbols ↔ s ∈ (ofSymbols symbols).symbols := by
    intro s
    rw [mem_ofSymbols_iff, mem_ofSymbols_iff, ← List.head?_filter, ← List.head?_filter, h]
  have hirrefl : ∀ s : TextSymbol, ¬s.address < s.address := fun s => UInt64.lt_irrefl _
  have hnodup (symbols : List TextSymbol) : (ofSymbols symbols).symbols.Nodup := by
    refine (ascending_ofSymbols symbols).imp ?_
    rintro s t hlt rfl
    exact hirrefl s hlt
  -- two ascending lists of the same symbols are the same list
  have hperm := (List.perm_ext_iff_of_nodup (hnodup symbols') (hnodup symbols)).mpr hmem
  have hlists : (ofSymbols symbols').symbols = (ofSymbols symbols).symbols :=
    hperm.eq_of_pairwise
      (fun s t _ _ hst hts => absurd (UInt64.lt_trans hst hts) (hirrefl s))
      (ascending_ofSymbols symbols') (ascending_ofSymbols symbols)
  exact congrArg SymbolTable.mk hlists

/-- The symbols of a file may as well stand in another order, as long as those at one address keep
theirs. -/
theorem ofObject_congr {symbols symbols' : List ObjectSymbol}
    (h : ∀ x, symbols'.filter (·.address = x) = symbols.filter (·.address = x)) :
    ofObject symbols' = ofObject symbols := by
  rw [ofObject_eq, ofObject_eq]
  refine ofSymbols_congr fun x => ?_
  rw [List.filter_comm, filter_textSymbols, h, ← filter_textSymbols, List.filter_comm]

/-- An address has the name of the nearest symbol in the file. -/
theorem functionAt?_ofObject {symbols : List ObjectSymbol}
    (hfits : EndsFit (textSymbols symbols)) (address : UInt64) :
    (ofObject symbols).functionAt? demangle address =
      .ok (nameAmong demangle (textSymbols symbols) address) := by
  rw [ofObject_eq]
  exact functionAt?_ofSymbols hfits address

/--
**The nearest symbol names an address.** Let a file have any symbols, in any order, and let each end
at a word. Then an address has the name of the first of those symbols that have the greatest address
not above it, if that symbol reaches as far; it has no name if that symbol ends before, or if there
is none. So nothing depends on the order of symbols at different addresses. The images of files have
the tables of all symbols in the files.
-/
theorem named_by_nearest (demangle : String → String) {symbols : List ObjectSymbol}
    (hfits : EndsFit (textSymbols symbols)) :
    (∀ address, (ofObject symbols).functionAt? demangle address =
      .ok (nameAmong demangle (textSymbols symbols) address)) ∧
    (∀ symbols' : List ObjectSymbol,
      (∀ x, symbols'.filter (·.address = x) = symbols.filter (·.address = x)) → ∀ address,
        (ofObject symbols').functionAt? demangle address =
          (ofObject symbols).functionAt? demangle address) ∧
    ∀ (tools : BinaryTools) (bytes : ByteArray) (image : Image),
      Image.parse tools bytes = .ok image →
      ∃ file, tools.parseObject bytes = .ok file ∧
        image.symbols = ofObject (file.symbols ++ file.dynamicSymbols) :=
  ⟨functionAt?_ofObject hfits, fun _ hsame _ => by rw [ofObject_congr hsame],
    fun _ _ _ => symbols_of_parse⟩

private def codeSymbol (name : String) (address size : UInt64) : ObjectSymbol where
  name := some name
  isText := true
  address
  size

/-- Symbols in no order: two at one address, one without an address, and one that is no code. -/
private def scatteredSymbols : List ObjectSymbol :=
  [codeSymbol "late" 0x30 0x10, codeSymbol "early" 0x10 0x10, codeSymbol "alias" 0x30 0x40,
   codeSymbol "absent" 0 0x100, { codeSymbol "data" 0x38 0x8 with isText := false },
   codeSymbol "open" 0x50 0]

/-- Of two symbols at one address the first in the file counts, a symbol that is no code hides
nothing, and between two symbols there is no name. -/
theorem named_by_nearest_scattered :
    (ofObject scatteredSymbols).functionAt? id 0x3c = .ok (some "late") ∧
      (ofObject scatteredSymbols).functionAt? id 0x24 = .ok none ∧
      (ofObject scatteredSymbols).functionAt? id 0x8 = .ok none ∧
      (ofObject scatteredSymbols).functionAt? id 0x9999 = .ok (some "open") := by
  have hfits : EndsFit (textSymbols scatteredSymbols) := by decide +kernel
  have hnames := (named_by_nearest id hfits).1
  refine ⟨(hnames 0x3c).trans ?_, (hnames 0x24).trans ?_, (hnames 0x8).trans ?_,
    (hnames 0x9999).trans ?_⟩ <;> decide +kernel

/-! ## Section 6: Addresses inside functions -/

/-- Above the start of a symbol that counts there is a nearest symbol, which starts no lower. -/
theorem exists_nearestAmong (hs : s ∈ symbols) (hzero : s.address ≠ 0) (hle : s.address ≤ address) :
    ∃ t ∈ symbols, nearestAmong symbols address = some t ∧ s.address ≤ t.address ∧
      t.address ≤ address := by
  have hcounted : s ∈ symbols.filter (·.address ≠ 0) := by simp [hs, hzero]
  obtain ⟨t, ht⟩ := exists_nearest? hcounted hle
  have hnearest := isNearest_of_nearest? ht
  have hmem := List.mem_filter.mp (List.mem_of_find?_eq_some hnearest.first)
  exact ⟨t, hmem.1, nearestAmong_eq_some_iff.mpr hnearest, hnearest.greatest s hcounted hle,
    hnearest.le⟩

/--
**When an address inside a function is named.** An address that some symbol covers has a nearest
symbol, which starts no lower than the covering one. The address has the name of the nearest symbol
if that reaches as far, and no name if that ends before, whatever the covering symbol is. So the
address has the name of a symbol that covers it if all symbols do that start between the covering
one and the address.
-/
theorem covered_named_by_nearest (demangle : String → String) {symbols : List ObjectSymbol}
    (hfits : EndsFit (textSymbols symbols)) {c : TextSymbol} (hc : c ∈ textSymbols symbols)
    (hzero : c.address ≠ 0) {address : UInt64} (hcovers : c.Covers address) :
    (∃ s ∈ textSymbols symbols, nearestAmong (textSymbols symbols) address = some s ∧
      c.address ≤ s.address ∧
      (ofObject symbols).functionAt? demangle address =
        .ok (if s.Reaches address then some (demangle s.name) else none)) ∧
    ((∀ t ∈ textSymbols symbols, c.address ≤ t.address → t.address ≤ address →
        t.Covers address) →
      ∃ s ∈ textSymbols symbols, s.Covers address ∧
        (ofObject symbols).functionAt? demangle address = .ok (some (demangle s.name))) := by
  obtain ⟨s, hs, hnearest, hlow, hle⟩ := exists_nearestAmong hc hzero hcovers.1
  have hname : (ofObject symbols).functionAt? demangle address =
      .ok (if s.Reaches address then some (demangle s.name) else none) := by
    rw [functionAt?_ofObject hfits, nameAmong, hnearest]
    rfl
  refine ⟨⟨s, hs, hnearest, hlow, hname⟩, fun hall => ?_⟩
  have hreaches := hall s hs hlow hle
  refine ⟨s, hs, hreaches, ?_⟩
  rw [hname, if_pos (.inr hreaches.2)]

/-- A function with another one inside it. -/
private def nestedSymbols : List ObjectSymbol :=
  [codeSymbol "outer" 0x10 0x20, codeSymbol "inner" 0x14 0x4]

/-- Behind the end of the inner function the outer one is not named, although the address lies in
it. In front of the inner function it is. -/
theorem covered_named_by_nearest_nested :
    (⟨0x10, 0x20, "outer"⟩ : TextSymbol).Covers 0x20 ∧
      (ofObject nestedSymbols).functionAt? id 0x20 = .ok none ∧
      (ofObject nestedSymbols).functionAt? id 0x12 = .ok (some "outer") := by
  have hfits : EndsFit (textSymbols nestedSymbols) := by decide +kernel
  have hmem : (⟨0x10, 0x20, "outer"⟩ : TextSymbol) ∈ textSymbols nestedSymbols := by
    decide +kernel
  have hcovers : (⟨0x10, 0x20, "outer"⟩ : TextSymbol).Covers 0x20 := by decide
  have hcovers' : (⟨0x10, 0x20, "outer"⟩ : TextSymbol).Covers 0x12 := by decide
  refine ⟨hcovers, ?_, ?_⟩
  · obtain ⟨s, -, hnearest, -, hname⟩ :=
      (covered_named_by_nearest id hfits hmem (by decide) hcovers).1
    have hinner : nearestAmong (textSymbols nestedSymbols) 0x20 = some ⟨0x14, 0x4, "inner"⟩ := by
      decide +kernel
    rw [hinner] at hnearest
    cases hnearest
    rw [hname, if_neg (by decide)]
  · obtain ⟨s, hs, hcover, hname⟩ :=
      (covered_named_by_nearest id hfits hmem (by decide) hcovers').2 (by decide +kernel)
    have houter : ∀ s ∈ textSymbols nestedSymbols, s.Covers 0x12 → s.name = "outer" := by
      decide +kernel
    rw [hname, id, houter s hs hcover]

end SymbolTable

end StackProfiler
