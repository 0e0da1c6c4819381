/-!
# Cutting a sequence at a separator

`pieces` cuts at every separator, `cutFirst?` and `cutLast?` at one of them, `lines` cuts a text
into its lines, and `holds` looks for a part. All are stated for any element type, because lines of
bytes and lines of characters are cut the same way.
-/

namespace StackProfiler.Text

variable {α : Type} [BEq α]

/-- One more element in front of the pieces of what follows it. -/
def addPiece (sep x : α) (ps : List (List α)) : List (List α) :=
  if x == sep then [] :: ps
  else match ps with
    | [] => [[x]]
    | p :: rest => (x :: p) :: rest

/-- The maximal runs without the separator; there is always at least one, possibly empty. -/
def pieces (sep : α) (xs : List α) : List (List α) :=
  xs.foldr (addPiece sep) [[]]

/-- What stands before and after the first separator. -/
def cutFirst? (sep : α) (xs : List α) : Option (List α × List α) :=
  match xs.dropWhile (· != sep) with
  | [] => none
  | _ :: rest => some (xs.takeWhile (· != sep), rest)

/-- What stands before and after the last separator. -/
def cutLast? (sep : α) (xs : List α) : Option (List α × List α) :=
  (cutFirst? sep xs.reverse).map fun (after, before) => (before.reverse, after.reverse)

def holds (part : List α) : List α → Bool
  | [] => part.isEmpty
  | x :: xs => part.isPrefixOf (x :: xs) || holds part xs

/-- `xs` without one final `x`. -/
def dropFinal (x : α) (xs : List α) : List α :=
  if xs.getLast? == some x then xs.dropLast else xs

/--
The lines of a sequence: `newline` ends a line and takes one `ret` before it along. What follows
the last `newline` is a line only if it is not empty, and keeps its `ret`.
-/
def lines (newline ret : α) (xs : List α) : List (List α) :=
  let ps := pieces newline xs
  ps.dropLast.map (dropFinal ret) ++ ps.getLast?.toList.filter (!·.isEmpty)

end StackProfiler.Text
