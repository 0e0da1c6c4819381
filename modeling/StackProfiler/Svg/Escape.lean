/-!
# Text inside markup

The five characters that are structural in markup are written as entities, so that no text can end
the element or the attribute it stands in.
-/

namespace StackProfiler.Svg

/-- How one character is written inside markup. -/
def escapeChar : Char → List Char
  | '&' => "&amp;".toList
  | '<' => "&lt;".toList
  | '>' => "&gt;".toList
  | '"' => "&quot;".toList
  | '\'' => "&apos;".toList
  | c => [c]

/-- A text as it is written inside markup. -/
def escape (text : String) : String :=
  String.ofList (text.toList.flatMap escapeChar)

end StackProfiler.Svg
