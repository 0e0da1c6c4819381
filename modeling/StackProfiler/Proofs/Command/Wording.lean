import StackProfiler.Command.Run
import StackProfiler.Proofs.Text.Numeral
import StackProfiler.Proofs.Text.Phrase

/-!
# The wording of messages

The exit code of a failure is found in part by looking for two phrases in a message. Messages quote
texts, so a phrase may be found in a quoted text. Here it is shown for the ways to build a message
that a phrase is found in no other place.

- **texts**: `Says`, and `ofTexts`, the code that texts ask for;
- **messages**: `Quotes`, what a message says by quoting, with a rule for each way to build one;
- **numbers and system errors**: `LacksLetter`, `says_message_iff`.
-/

namespace StackProfiler.ExitCode

/-! ## Section 1: What texts say -/

/-- The phrases that the wording of a failure is searched for. -/
inductive Phrase where
  | permissionDenied
  | missingArgument
deriving DecidableEq, Repr

def Phrase.letters : Phrase → List Char
  | permissionDenied =>
    ['p', 'e', 'r', 'm', 'i', 's', 's', 'i', 'o', 'n', ' ', 'd', 'e', 'n', 'i', 'e', 'd']
  | missingArgument =>
    ['m', 'i', 's', 's', 'i', 'n', 'g', ' ', 'r', 'e', 'q', 'u', 'i', 'r', 'e', 'd', ' ',
     'a', 'r', 'g', 'u', 'm', 'e', 'n', 't']

/-- A text says a phrase, in letters of either case. -/
def Says (text : String) (phrase : Phrase) : Prop :=
  phrase.letters <:+: text.toList.map Char.toLower

instance (text : String) (phrase : Phrase) : Decidable (Says text phrase) :=
  inferInstanceAs (Decidable (_ <:+: _))

/-- The code that some texts ask for together. -/
def ofTexts (texts : List String) : Nat :=
  if ∃ text ∈ texts, Says text .permissionDenied then noPermission
  else if ∃ text ∈ texts, Says text .missingArgument then usage
  else failure

theorem ofTexts_eq_noPermission_iff {texts : List String} :
    ofTexts texts = noPermission ↔ ∃ text ∈ texts, Says text .permissionDenied := by
  unfold ofTexts
  split
  · next h => exact iff_of_true rfl h
  · next h =>
    refine iff_of_false ?_ h
    split <;> decide

theorem ofTexts_eq_failure_iff {texts : List String} :
    ofTexts texts = failure ↔ ∀ text ∈ texts, ∀ phrase, ¬Says text phrase := by
  unfold ofTexts
  split
  · next h =>
    obtain ⟨text, hmem, hphrase⟩ := h
    exact iff_of_false (by decide) fun hnone => hnone text hmem _ hphrase
  · next hdenied =>
    split
    · next h =>
      obtain ⟨text, hmem, hphrase⟩ := h
      exact iff_of_false (by decide) fun hnone => hnone text hmem _ hphrase
    · next hmissing =>
      refine iff_of_true rfl fun text hmem phrase hphrase => ?_
      cases phrase with
      | permissionDenied => exact hdenied ⟨text, hmem, hphrase⟩
      | missingArgument => exact hmissing ⟨text, hmem, hphrase⟩

theorem says_append_right {after : String} {phrase : Phrase} (h : Says after phrase)
    (before : String) : Says (before ++ after) phrase := by
  rw [Says, String.toList_append, List.map_append]
  exact h.trans (List.suffix_append _ _).isInfix

/-! ## Section 2: What messages quote -/

/-- The text says a phrase exactly if one of the quoted texts does. -/
def Quotes (text : String) (quoted : List String) : Prop :=
  ∀ phrase, Says text phrase ↔ ∃ q ∈ quoted, Says q phrase

theorem ofText_eq_ofTexts {text : String} {quoted : List String} (h : Quotes text quoted) :
    ofText text = ofTexts quoted := by
  have hsearch : ∀ phrase : Phrase, Text.holds phrase.letters text.toLower.toList = true ↔
      ∃ q ∈ quoted, Says q phrase := by
    intro phrase
    have hlower : text.toLower.toList = text.toList.map Char.toLower := String.toList_map
    rw [Text.holds_iff_isInfix, hlower]
    exact h phrase
  have hdenied : "permission denied".toList = Phrase.permissionDenied.letters := by
    simp [Phrase.letters]
  have hmissing : "missing required argument".toList = Phrase.missingArgument.letters := by
    simp [Phrase.letters]
  simp only [ofText, ofTexts, hdenied, hmissing, hsearch]

theorem quotes_singleton (text : String) : Quotes text [text] := by
  intro phrase
  simp

/-- A part of a message that no phrase stands in or reaches into. -/
def Plain (part : String) : Prop :=
  ∀ phrase : Phrase, Text.Fences (part.toList.map Char.toLower) phrase.letters ∧ ¬Says part phrase

/-- Whether a part is plain is computed from its letters. -/
theorem plain_ofList {letters : List Char}
    (h : ∀ phrase ∈ [Phrase.permissionDenied, .missingArgument],
      Text.Fences (letters.map Char.toLower) phrase.letters ∧
        ¬phrase.letters <:+: letters.map Char.toLower) : Plain (String.ofList letters) := by
  intro phrase
  rw [Says, String.toList_ofList]
  apply h
  cases phrase <;> simp

theorem says_append_append_iff {part : String} (h : Plain part) (before after : String)
    (phrase : Phrase) :
    Says (before ++ part ++ after) phrase ↔ Says before phrase ∨ Says after phrase := by
  have hsplit := (h phrase).1.infix_append_append_iff (before.toList.map Char.toLower)
    (after.toList.map Char.toLower)
  have hsilent : ¬phrase.letters <:+: part.toList.map Char.toLower := (h phrase).2
  simp only [Says, String.toList_append, List.map_append, List.append_assoc, hsplit, hsilent,
    false_or]

variable {text after part : String} {quoted quoted' : List String}

/-- A message goes on with a plain part and another text. -/
theorem Quotes.append_append (h : Quotes text quoted) (hpart : Plain part)
    (h' : Quotes after quoted') :
    Quotes (text ++ part ++ after) (quoted ++ quoted') := by
  intro phrase
  rw [says_append_append_iff hpart, h phrase, h' phrase]
  simp only [List.mem_append, or_and_right, exists_or]

theorem Quotes.empty : Quotes "" [] := by
  intro phrase
  cases phrase <;> decide

theorem Plain.quotes_append (hpart : Plain part) (h : Quotes after quoted) :
    Quotes (part ++ after) quoted := by
  simpa using Quotes.empty.append_append hpart h

theorem Quotes.append_plain (h : Quotes text quoted) (hpart : Plain part) :
    Quotes (text ++ part) quoted := by
  simpa using h.append_append hpart .empty

theorem Plain.quotes (hpart : Plain part) : Quotes part [] := by
  simpa using hpart.quotes_append .empty

/-- The text lacks a letter that both phrases have. -/
def LacksLetter (text : String) : Prop :=
  'i' ∉ text.toList.map Char.toLower

instance (text : String) : Decidable (LacksLetter text) :=
  inferInstanceAs (Decidable (_ ∉ _))

theorem LacksLetter.append (h : LacksLetter text) (h' : LacksLetter after) :
    LacksLetter (text ++ after) := by
  rw [LacksLetter, String.toList_append, List.map_append, List.mem_append]
  exact not_or.mpr ⟨h, h'⟩

theorem LacksLetter.quotes (h : LacksLetter text) : Quotes text [] := by
  intro phrase
  have hletter : 'i' ∈ phrase.letters := by cases phrase <;> decide
  simp only [List.not_mem_nil, false_and, exists_false, iff_false]
  exact fun hphrase => h (hphrase.subset hletter)

/-- A list of lines quotes what its lines quote. -/
theorem quotes_intercalate {α : Type} {line command : α → String}
    (h : ∀ a, Quotes (line a) [command a]) (as : List α) :
    Quotes ("\n".intercalate (as.map line)) (as.map command) := by
  have hnewline : Plain "\n" := plain_ofList (by decide)
  induction as with
  | nil => exact .empty
  | cons a as ih =>
    cases as with
    | nil => simpa using h a
    | cons b bs =>
      rw [List.map_cons, List.map_cons, String.intercalate_cons_cons]
      exact (h a).append_append hnewline ih

/-! ## Section 3: Numbers and system errors in messages -/

theorem toLower_ne_of_isDigit {c : Char} (h : c.isDigit = true) : c.toLower ≠ 'i' := by
  simp only [Char.isDigit, Bool.and_eq_true, decide_eq_true_eq] at h
  have hlower : c.toLower = c := by
    apply dif_neg
    rintro ⟨hle, -⟩
    exact absurd (UInt32.le_trans hle h.2) (by decide)
  rw [hlower]
  rintro rfl
  exact absurd h.2 (by decide)

theorem lacksLetter_toString (n : Nat) : LacksLetter (toString n) := by
  intro hmem
  obtain ⟨c, hc, hlower⟩ := List.mem_map.mp hmem
  rw [Nat.toString_eq_repr, Nat.toList_repr] at hc
  exact toLower_ne_of_isDigit (Text.isDigit_of_mem_toDigits hc) hlower

theorem lacksLetter_toString_int (n : Int) : LacksLetter (toString n) := by
  rw [Int.toString_eq_repr, Int.repr_eq_if]
  split
  · exact lacksLetter_toString n.toNat
  · have hsign : LacksLetter "-" := by decide
    exact hsign.append (lacksLetter_toString (-n).toNat)

theorem says_text_iff (errno : Errno) (phrase : Phrase) :
    Says errno.text phrase ↔ errno = .permissionDenied ∧ phrase = .permissionDenied := by
  cases errno
  all_goals
    rw [Says, Errno.text, String.toList_ofList]
    cases phrase <;> decide

/-- A system error says that permission was denied only if its number says so; that something is not
permitted is told in other words. -/
theorem says_message_iff (e : IoError) (phrase : Phrase) :
    Says e.message phrase ↔ e = .system .permissionDenied ∧ phrase = .permissionDenied := by
  -- an error without a number has a text of its own
  have htold : Plain e.message → (∀ errno, e ≠ .system errno) →
      (Says e.message phrase ↔ e = .system .permissionDenied ∧ phrase = .permissionDenied) :=
    fun hplain hnumber => iff_of_false (hplain phrase).2 fun h => hnumber _ h.1
  cases e with
  | invalidUtf8 => exact htold (plain_ofList (by decide)) nofun
  | nothingTaken => exact htold (plain_ofList (by decide)) nofun
  | nullMapping => exact htold (plain_ofList (by decide)) nofun
  | system errno =>
    have hopen : Plain " (os error " := plain_ofList (by decide)
    have hclose : Plain ")" := plain_ofList (by decide)
    have hquotes : Quotes (IoError.message (.system errno)) ([errno.text] ++ []) :=
      ((quotes_singleton errno.text).append_append hopen
        (lacksLetter_toString errno.code).quotes).append_plain hclose
    rw [hquotes phrase]
    simpa using says_text_iff errno phrase

/-- A system error in a message counts only if its own text is that of the phrase. -/
theorem ofTexts_message (e : IoError) :
    ofTexts [e.message] = if e = .system .permissionDenied then noPermission else failure := by
  split
  · next he =>
    rw [ofTexts_eq_noPermission_iff]
    exact ⟨_, List.mem_singleton_self _, (says_message_iff e _).mpr ⟨he, rfl⟩⟩
  · next he =>
    rw [ofTexts_eq_failure_iff]
    intro text hmem phrase hphrase
    rw [List.mem_singleton.mp hmem, says_message_iff] at hphrase
    exact he hphrase.1

end StackProfiler.ExitCode
