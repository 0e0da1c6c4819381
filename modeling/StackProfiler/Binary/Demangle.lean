import StackProfiler.Text.Numeral

/-!
# Demangling symbol names

A mangled name is `_ZN`, `ZN` or `__ZN`, a sequence of parts each preceded by its length, and `E`.
The parts are joined by `::`; in a part `..` stands for `::`, and text between dollar signs stands
for a character. A last part that is `h` and hexadecimal digits only tells versions apart and is
left out. A compiler's marker `.llvm.` with what follows it is removed first; other text after the
`E` is kept if it starts with a dot and is printable. Every other name stays as it is.
-/

namespace StackProfiler.Demangle

/-- The marker that a compiler appends to names it renames. -/
def renameMarker : List Char := ".llvm.".toList

/-- Whether a character may follow the marker. -/
def isRenameChar (c : Char) : Bool :=
  ('A' ≤ c && c ≤ 'F') || c.isDigit || c == '@'

/-- The name without the first marker, if nothing but its digits follows. -/
def withoutMarker : List Char → List Char
  | [] => []
  | c :: cs =>
    if renameMarker.isPrefixOf (c :: cs) then
      if ((c :: cs).drop renameMarker.length).all isRenameChar then [] else c :: cs
    else c :: withoutMarker cs

/-- What follows the opening of a mangled name. -/
def body? (cs : List Char) : Option (List Char) :=
  match cs with
  | '_' :: 'Z' :: 'N' :: rest => some rest
  | 'Z' :: 'N' :: rest => some rest
  | '_' :: '_' :: 'Z' :: 'N' :: rest => some rest
  | _ => none

/-- The parts up to the `E`, and what follows it. There is at least one character after a part. -/
def parts? (cs : List Char) : Option (List (List Char) × List Char) :=
  if cs.head? = some 'E' then some ([], cs.tail)
  else
    let digits := cs.takeWhile Char.isDigit
    let rest := cs.drop digits.length
    match _h : Text.digitsValue 10 digits with
    | none => none
    | some n =>
      if n < wordLimit 64 ∧ n < rest.length then
        (parts? (rest.drop n)).map fun (parts, after) => (rest.take n :: parts, after)
      else none
termination_by cs.length
decreasing_by
  have hd : digits ≠ [] := by
    intro hnil
    simp [hnil, Text.digitsValue] at _h
  have hpos : 0 < (cs.takeWhile Char.isDigit).length := List.length_pos_iff.2 hd
  have hle : (cs.takeWhile Char.isDigit).length ≤ cs.length := (List.takeWhile_prefix _).length_le
  simp only [List.drop_drop, List.length_drop]
  omega

/-- Whether a part only tells versions apart. -/
def isHash (part : List Char) : Bool :=
  part.head? == some 'h' && part.tail.all fun c => (Text.digitBelow 16 c).isSome

/-- The character that a text between dollar signs stands for. -/
def escaped? (name : List Char) : Option Char :=
  match name with
  | ['S', 'P'] => some '@'
  | ['B', 'P'] => some '*'
  | ['R', 'F'] => some '&'
  | ['L', 'T'] => some '<'
  | ['G', 'T'] => some '>'
  | ['L', 'P'] => some '('
  | ['R', 'P'] => some ')'
  | ['C'] => some ','
  | 'u' :: digits => do
    guard (digits.all fun c => c.isDigit || ('a' ≤ c && c ≤ 'f'))
    let n ← Text.digitsValue 16 digits
    guard (n.isValidChar ∧ ¬ (n < 0x20 ∨ (0x7f ≤ n ∧ n < 0xa0)))
    return Char.ofNat n
  | _ => none

/-- A part with its escapes decoded, as far as they are sound; the rest is kept. -/
def decodePart (cs : List Char) : List Char :=
  match cs with
  | [] => []
  | '.' :: '.' :: rest => ':' :: ':' :: decodePart rest
  | '.' :: rest => '.' :: decodePart rest
  | '$' :: rest =>
    let name := rest.takeWhile (· != '$')
    match rest.drop name.length with
    | [] => '$' :: rest
    | _ :: _ =>
      match escaped? name with
      | some c => c :: decodePart (rest.drop (name.length + 1))
      | none => '$' :: rest
  | c :: rest => c :: decodePart rest
termination_by cs.length

/-- A part as it is shown; an underscore in front of a dollar sign is dropped. -/
def showPart (part : List Char) : List Char :=
  match part with
  | '_' :: '$' :: rest => decodePart ('$' :: rest)
  | _ => decodePart part

/-- Whether a text may follow the `E`. -/
def isSuffix (cs : List Char) : Bool :=
  cs.isEmpty || (cs.head? == some '.' && cs.all fun c => '!' ≤ c && c ≤ '~')

/-- The name behind a mangled one, if it is one. -/
def demangle? (cs : List Char) : Option (List Char) := do
  let body ← body? cs
  guard (body.all fun c => c.toNat < 0x80)
  let (parts, after) ← parts? body
  guard (isSuffix after)
  let shown := if (parts.getLast?.map isHash).getD false then parts.dropLast else parts
  return [':', ':'].intercalate (shown.map showPart) ++ after

def demangle (symbol : String) : String :=
  let cs := withoutMarker symbol.toList
  String.ofList ((demangle? cs).getD cs)

end StackProfiler.Demangle
