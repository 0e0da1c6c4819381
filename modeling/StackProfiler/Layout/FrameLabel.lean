import StackProfiler.Layout.Basic

/-!
# Frame labels

A frame shows its whole name if it is wider than the name with some room at the sides; otherwise,
if it is wider than twenty pixels, as much of the name as fits, followed by `..`; otherwise nothing.
-/

namespace StackProfiler

/-- The text shown in a frame of the given width. -/
def fitLabel {R : Type} [Scalar R] (config : LayoutConfig R) (name : String) (width : R) :
    Option String :=
  if Scalar.ofNat name.length * config.charWidth + Scalar.ofNat 6 < width then some name
  else if width ≤ Scalar.ofNat 20 then none
  else
    match Scalar.truncate ((width - Scalar.ofNat 6) / config.charWidth) with
    | 0 => none
    | fitting => some (String.ofList (name.toList.take fitting) ++ "..")

end StackProfiler
