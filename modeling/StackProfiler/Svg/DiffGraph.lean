import StackProfiler.Layout.Weights
import StackProfiler.Svg.Document

/-!
# The flame graph of a change

Every frame shows its samples and shares before and after; its colour says how its share changed.
There is a legend above the frames, so the space there has a least height.
-/

namespace StackProfiler.Svg

/-- Least space above the frames, which leaves room for the legend. -/
def diffHeader : Nat := 100

/-- The baseline of the legend. -/
def legendY : Nat := 52

def legendEntry (x : Nat) (fill text : String) : List String :=
  [emptyElement "rect"
     [("x", toString x), ("y", toString (legendY - 10)), ("width", "16"), ("height", "12"),
      ("fill", fill), ("rx", "2")],
   textElement "text"
     [("x", toString (x + 20)), ("y", toString legendY), ("font-size", "11"),
      ("font-family", "sans-serif"), ("fill", "#333")] text]

/-- What the colours mean. -/
def legendLines (center : Nat) : List String :=
  legendEntry (center - 160) "rgb(100,120,255)" "Improvement (less CPU)"
  ++ legendEntry (center + 40) "rgb(255,80,80)" "Regression (more CPU)"

/-- The tooltip of a frame: samples and shares on both sides, and the change in points. -/
def diffTooltip (name : String) (counts : DiffCounts) (beforeTotal afterTotal : Nat) : String :=
  let before := percent counts.before beforeTotal
  let after := percent counts.after afterTotal
  let delta := after - before
  let plus := if 0.0 ≤ delta then "+" else ""
  name ++ " (before: " ++ toString counts.before ++ " [" ++ Decimal.oneDecimal before
    ++ "%], after: " ++ toString counts.after ++ " [" ++ Decimal.oneDecimal after
    ++ "%], delta: " ++ plus ++ Decimal.oneDecimal delta ++ "%)"

def diffGraphLines (title : String) (config : LayoutConfig Float) (tree : DiffTree)
    (layout : Layout DiffCounts Float) : List String :=
  let subtitle :=
    "Before: " ++ toString tree.beforeTotal ++ " samples, After: " ++ toString tree.afterTotal
      ++ " samples. Ctrl+F to search."
  headerLines layout.width layout.height title subtitle
  ++ legendLines (layout.width / 2)
  ++ [detailsLine layout.height]
  ++ layout.rects.flatMap (fun rect =>
    frameLines config rect
      (diffTooltip rect.name rect.label tree.beforeTotal tree.afterTotal)
      (if rect.depth = 0 then .neutral
       else deltaColor (share rect.label.before tree.beforeTotal)
         (share rect.label.after tree.afterTotal)))
  ++ footerLines

/-- The flame graph of a change; both sides need samples. -/
def renderDiff (tree : DiffTree) (options : SvgOptions) : Checked (Except RenderError String) :=
  if tree.beforeTotal = 0 ∨ tree.afterTotal = 0 then .ok (.error .noSamples)
  else do
    let config := { options.layout with header := max options.layout.header diffHeader }
    let layout ← tree.layout config
    return layout.map fun layout => ofLines (diffGraphLines options.title config tree layout)

end StackProfiler.Svg
