import StackProfiler.Proofs.Text.Numeral
import StackProfiler.Proofs.Text.Pieces
import StackProfiler.Svg.Document

/-!
# Reading markup

A document is read by cutting it at every `<`: up to the first `>` a piece is a tag, and behind it
stands a text, in which entities stand for characters. The reader knows nothing of who wrote the
document, so whatever could end a text or a tag too early would show in what it reads.

- **texts**: `unescape_escape` and `lt_notMem_escape`;
- **numbers and colours**: `plain_toString`, `plain_oneDecimal` and `plain_text`;
- **composition**: `readTags_append`;
- **elements**: `readTags_emptyElement` and `readTags_textElement`.
-/

namespace StackProfiler.Svg

/-! ## Section 1: The reader -/

/-- A text inside markup with its entities replaced by the characters that they stand for. -/
def unescapeChars : List Char → List Char
  | '&' :: 'a' :: 'm' :: 'p' :: ';' :: cs => '&' :: unescapeChars cs
  | '&' :: 'l' :: 't' :: ';' :: cs => '<' :: unescapeChars cs
  | '&' :: 'g' :: 't' :: ';' :: cs => '>' :: unescapeChars cs
  | '&' :: 'q' :: 'u' :: 'o' :: 't' :: ';' :: cs => '"' :: unescapeChars cs
  | '&' :: 'a' :: 'p' :: 'o' :: 's' :: ';' :: cs => '\'' :: unescapeChars cs
  | c :: cs => c :: unescapeChars cs
  | [] => []

def unescape (text : String) : String :=
  String.ofList (unescapeChars text.toList)

/-- A tag of a document and the text between it and the next one. -/
structure Tag where
  /-- What stands between the brackets: the name of an element and its attributes. -/
  inside : String
  text : String
deriving DecidableEq, Repr

/-- The tag at the beginning of a piece, whose `<` has been cut off. -/
def Tag.ofPiece (piece : List Char) : Tag :=
  match Text.cutFirst? '>' piece with
  | some (inside, text) => { inside := String.ofList inside, text := unescape (String.ofList text) }
  | none => { inside := String.ofList piece, text := "" }

/-- The tags of a document, if it starts with one. -/
def readTags (doc : String) : Option (List Tag) :=
  match Text.pieces '<' doc.toList with
  | [] :: pieces => some (pieces.map Tag.ofPiece)
  | _ => none

/-! ## Section 2: Escaped texts -/

theorem unescapeChars_escapeChar_append (c : Char) (cs : List Char) :
    unescapeChars (escapeChar c ++ cs) = c :: unescapeChars cs := by
  unfold escapeChar
  split
  case h_6 hamp _ _ _ _ =>
    -- no entity starts with the character
    rw [List.singleton_append, unescapeChars] <;> exact fun _ heq _ => hamp heq
  all_goals rfl

theorem unescapeChars_flatMap (cs : List Char) :
    unescapeChars (cs.flatMap escapeChar) = cs := by
  induction cs with
  | nil => rfl
  | cons c cs ih => rw [List.flatMap_cons, unescapeChars_escapeChar_append, ih]

/-- **Texts are read back**: every character that was replaced is put back. -/
theorem unescape_escape (text : String) : unescape (escape text) = text := by
  rw [unescape, escape, String.toList_ofList, unescapeChars_flatMap, String.ofList_toList]

theorem lt_notMem_escapeChar (c : Char) : '<' ∉ escapeChar c := by
  unfold escapeChar
  split
  case h_6 hlt _ _ _ => simpa using Ne.symm hlt
  all_goals decide

theorem lt_notMem_escape (text : String) : '<' ∉ (escape text).toList := by
  rw [escape, String.toList_ofList, List.mem_flatMap]
  rintro ⟨c, -, hc⟩
  exact lt_notMem_escapeChar c hc

/-! ## Section 3: What stands inside a tag -/

/-- The text neither starts nor ends a tag. -/
def Plain (s : String) : Prop :=
  ∀ c ∈ s.toList, c ≠ '<' ∧ c ≠ '>'

instance (s : String) : Decidable (Plain s) :=
  List.decidableBAll (fun c => c ≠ '<' ∧ c ≠ '>') s.toList

@[simp] theorem plain_append {a b : String} : Plain (a ++ b) ↔ Plain a ∧ Plain b := by
  simp only [Plain, String.toList_append, List.forall_mem_append]

theorem plain_join {parts : List String} : Plain (String.join parts) ↔ ∀ s ∈ parts, Plain s := by
  simp only [Plain, String.toList_join, List.mem_flatMap]
  exact ⟨fun h s hs c hc => h c ⟨s, hs, hc⟩, fun h c ⟨s, hs, hc⟩ => h s hs c hc⟩

theorem plain_of_isDigit {s : String} (h : ∀ c ∈ s.toList, c.isDigit = true) : Plain s := by
  intro c hc
  constructor <;>
  · rintro rfl
    exact absurd (h _ hc) (by decide)

@[simp] theorem plain_toString (n : Nat) : Plain (toString n) := by
  apply plain_of_isDigit
  intro c hc
  exact Text.isDigit_of_mem_toDigits (Nat.toList_repr ▸ hc)

theorem plain_padded (length n : Nat) : Plain (Decimal.padded length n) := by
  apply plain_of_isDigit
  intro c hc
  rw [Decimal.padded, String.toList_ofList, List.mem_append] at hc
  rcases hc with hzero | hdigit
  · rw [List.eq_of_mem_replicate hzero]
    rfl
  · exact Text.isDigit_of_mem_toDigits hdigit

theorem plain_sign (negative : Bool) : Plain (Decimal.sign negative) := by
  cases negative <;> decide

/-- **Decimal numbers** are digits, a sign and a point, or the name of what is no number. -/
@[simp] theorem plain_oneDecimal (x : Float) : Plain (Decimal.oneDecimal x) := by
  unfold Decimal.oneDecimal Decimal.fixed
  split
  · decide
  · exact plain_append.mpr ⟨plain_sign _, by decide⟩
  · simp only [plain_append, plain_sign, plain_toString, plain_padded, and_true, true_and]
    decide

@[simp] theorem plain_text (c : Rgb) : Plain c.text := by
  simp only [Rgb.text, plain_append, plain_toString, and_true]
  decide

/-- What stands inside the tag that starts an element. -/
def startTag (name : String) (attributes : List (String × String)) : String :=
  name ++ String.join (attributes.map fun (n, v) => attr n v)

theorem plain_startTag {name : String} {attributes : List (String × String)} (hname : Plain name)
    (hattributes : ∀ a ∈ attributes, Plain a.1 ∧ Plain a.2) : Plain (startTag name attributes) := by
  rw [startTag, plain_append, plain_join]
  refine ⟨hname, fun s hs => ?_⟩
  obtain ⟨a, ha, rfl⟩ := List.mem_map.mp hs
  obtain ⟨hn, hv⟩ := hattributes a ha
  simp only [attr, plain_append, hn, hv]
  decide

/-! ## Section 4: Documents in parts -/

theorem exists_pieces_of_readTags {doc : String} {tags : List Tag}
    (h : readTags doc = some tags) :
    ∃ pieces, Text.pieces '<' doc.toList = [] :: pieces ∧ pieces.map Tag.ofPiece = tags := by
  unfold readTags at h
  split at h
  case h_1 pieces hpieces => exact ⟨pieces, hpieces, Option.some.inj h⟩
  case h_2 => contradiction

/-- A sequence whose first piece is empty starts with the separator, unless it is empty. -/
theorem eq_nil_or_cons_of_pieces {sep : Char} {xs : List Char} {ps : List (List Char)}
    (h : Text.pieces sep xs = [] :: ps) :
    (xs = [] ∧ ps = []) ∨ ∃ rest, xs = sep :: rest ∧ Text.pieces sep rest = ps := by
  cases xs with
  | nil =>
    cases h
    exact .inl ⟨rfl, rfl⟩
  | cons x xs =>
    rw [Text.pieces, List.foldr_cons, ← Text.pieces] at h
    unfold Text.addPiece at h
    split at h
    case isTrue hx =>
      cases h
      exact .inr ⟨xs, by rw [beq_iff_eq.mp hx], rfl⟩
    case isFalse => split at h <;> simp at h

theorem exists_readTags_of_lt (rest : String) : ∃ tags, readTags ("<" ++ rest) = some tags := by
  have hpieces : Text.pieces '<' ("<" ++ rest).toList = [] :: Text.pieces '<' rest.toList := by
    have hchars : ("<" ++ rest).toList = [] ++ '<' :: rest.toList := by simp
    rw [hchars, Text.pieces_eq_splitOn, Text.pieces_eq_splitOn,
      List.splitOn_append_cons_self_of_not_mem List.not_mem_nil]
  exact ⟨_, by simp only [readTags, hpieces]; rfl⟩

/-- What stands inside a tag stands in the document. -/
theorem inside_sublist_of_readTags {doc : String} {tags : List Tag}
    (h : readTags doc = some tags) {t : Tag} (ht : t ∈ tags) :
    t.inside.toList.Sublist doc.toList := by
  obtain ⟨pieces, hpieces, rfl⟩ := exists_pieces_of_readTags h
  obtain ⟨piece, hpiece, rfl⟩ := List.mem_map.mp ht
  have hmem : piece ∈ Text.pieces '<' doc.toList := hpieces ▸ List.mem_cons_of_mem _ hpiece
  have hsub : piece.Sublist doc.toList := Text.sublist_of_mem_pieces hmem
  refine List.Sublist.trans ?_ hsub
  unfold Tag.ofPiece
  split
  case h_1 inside text hcut =>
    rw [String.toList_ofList, Text.eq_append_of_cutFirst? hcut]
    exact List.sublist_append_left inside _
  case h_2 => rw [String.toList_ofList]

/-- **Composition**: what starts with a tag can be written behind any document. -/
theorem readTags_append {front back : String} {tags tags' : List Tag}
    (hfront : readTags front = some tags) (hback : readTags back = some tags') :
    readTags (front ++ back) = some (tags ++ tags') := by
  obtain ⟨pieces, hpieces, rfl⟩ := exists_pieces_of_readTags hfront
  obtain ⟨pieces', hpieces', rfl⟩ := exists_pieces_of_readTags hback
  have hall : Text.pieces '<' (front ++ back).toList = [] :: (pieces ++ pieces') := by
    rw [String.toList_append]
    rcases eq_nil_or_cons_of_pieces hpieces' with ⟨hnil, rfl⟩ | ⟨rest, hcons, rfl⟩
    · rw [hnil, List.append_nil, List.append_nil, hpieces]
    · rw [Text.pieces_eq_splitOn] at *
      rw [hcons, List.splitOn_append_cons_self, hpieces, Text.pieces_eq_splitOn, List.cons_append]
  simp only [readTags, hall, List.map_append]

/-- Lines that start with tags can be written one behind the other. -/
theorem readTags_ofLines_append {front back : List String} {tags tags' : List Tag}
    (hfront : readTags (ofLines front) = some tags)
    (hback : readTags (ofLines back) = some tags') :
    readTags (ofLines (front ++ back)) = some (tags ++ tags') := by
  rw [ofLines, List.map_append, String.join_append]
  exact readTags_append hfront hback

theorem readTags_ofLines_cons {line : String} {lines : List String} {tags tags' : List Tag}
    (hline : readTags (line ++ "\n") = some tags)
    (hlines : readTags (ofLines lines) = some tags') :
    readTags (ofLines (line :: lines)) = some (tags ++ tags') := by
  rw [ofLines, List.map_cons, String.join_cons]
  exact readTags_append hline hlines

theorem readTags_ofLines_nil : readTags (ofLines []) = some [] := rfl

theorem readTags_ofLines_singleton {line : String} {tags : List Tag}
    (h : readTags (line ++ "\n") = some tags) : readTags (ofLines [line]) = some tags := by
  rw [← List.append_nil tags]
  exact readTags_ofLines_cons h readTags_ofLines_nil

/-- The tags of a list of parts are those of each part in order. -/
theorem readTags_ofLines_flatMap {α : Type} (parts : List α) {lines : α → List String}
    {tags : α → List Tag} (h : ∀ part ∈ parts, readTags (ofLines (lines part)) = some (tags part)) :
    readTags (ofLines (parts.flatMap lines)) = some (parts.flatMap tags) := by
  induction parts with
  | nil => rfl
  | cons part parts ih =>
    obtain ⟨hfirst, hrest⟩ := List.forall_mem_cons.mp h
    rw [List.flatMap_cons, List.flatMap_cons]
    exact readTags_ofLines_append hfirst (ih hrest)

/-! ## Section 5: Elements -/

/-- A tag is read up to its end, and the text behind it up to the next tag. -/
theorem readTags_tag {inside text : String} (hinside : Plain inside) (htext : '<' ∉ text.toList) :
    readTags ("<" ++ inside ++ ">" ++ text) = some [⟨inside, unescape text⟩] := by
  have hchars : ("<" ++ inside ++ ">" ++ text).toList =
      [] ++ '<' :: (inside.toList ++ '>' :: text.toList) := by
    simp
  have hlt : '<' ∉ inside.toList ++ '>' :: text.toList := by
    simpa [htext] using fun h => (hinside _ h).1 rfl
  have hgt : '>' ∉ inside.toList := fun h => (hinside _ h).2 rfl
  have hpieces : Text.pieces '<' ("<" ++ inside ++ ">" ++ text).toList =
      [[], inside.toList ++ '>' :: text.toList] := by
    rw [Text.pieces_eq_splitOn, hchars, List.splitOn_append_cons_self_of_not_mem List.not_mem_nil,
      List.splitOn_eq_singleton hlt]
  simp only [readTags, hpieces, List.map_cons, List.map_nil, Tag.ofPiece,
    Text.cutFirst?_append hgt, String.ofList_toList]

/-- The tags of an element that holds no text, on a line of its own. -/
def emptyTags (name : String) (attributes : List (String × String)) : List Tag :=
  [⟨startTag name attributes ++ " /", "\n"⟩]

/-- The tags of an element that holds a text, on a line of its own. -/
def textTags (name : String) (attributes : List (String × String)) (text : String) : List Tag :=
  [⟨startTag name attributes, text⟩, ⟨"/" ++ name, "\n"⟩]

/-- A tag on a line of its own. -/
theorem readTags_lineTag {inside : String} (hinside : Plain inside) :
    readTags ("<" ++ inside ++ ">" ++ "\n") = some [⟨inside, "\n"⟩] :=
  readTags_tag hinside (by decide)

theorem readTags_emptyElement {name : String} {attributes : List (String × String)}
    (hname : Plain name) (hattributes : ∀ a ∈ attributes, Plain a.1 ∧ Plain a.2) :
    readTags (emptyElement name attributes ++ "\n") = some (emptyTags name attributes) := by
  have hinside : Plain (startTag name attributes ++ " /") :=
    plain_append.mpr ⟨plain_startTag hname hattributes, by decide⟩
  have hline : emptyElement name attributes ++ "\n" =
      "<" ++ (startTag name attributes ++ " /") ++ ">" ++ "\n" := by
    simp only [emptyElement, startTag, String.append_assoc]
    rfl
  rw [hline, readTags_lineTag hinside, emptyTags]

/-- **Texts in elements**: the text is read back as it was before it was escaped. -/
theorem readTags_textElement {name : String} {attributes : List (String × String)} (text : String)
    (hname : Plain name) (hattributes : ∀ a ∈ attributes, Plain a.1 ∧ Plain a.2) :
    readTags (textElement name attributes text ++ "\n") =
      some (textTags name attributes text) := by
  have hend : Plain ("/" ++ name) := plain_append.mpr ⟨by decide, hname⟩
  have hline : textElement name attributes text ++ "\n" =
      ("<" ++ startTag name attributes ++ ">" ++ escape text) ++
        ("<" ++ ("/" ++ name) ++ ">" ++ "\n") := by
    simp only [textElement, startTag, String.append_assoc]
    rfl
  have hstart := readTags_tag (plain_startTag hname hattributes) (lt_notMem_escape text)
  rw [hline, readTags_append hstart (readTags_lineTag hend), unescape_escape]
  rfl

end StackProfiler.Svg
