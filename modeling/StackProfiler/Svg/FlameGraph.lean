import StackProfiler.Layout.Weights
import StackProfiler.Svg.Document

/-!
# The flame graph of a profile

Every frame shows its name, its samples and its share of all samples; its colour is chosen by its
name. The document is a function of the tree and the options alone.
-/

namespace StackProfiler.Svg

/-- The tooltip of a frame: samples, share, and the share that ends in the frame itself. -/
def frameTooltip (name : String) (counts : FrameCounts) (total : Nat) : String :=
  let selfShare :=
    if counts.selfCount = 0 then ""
    else ", self: " ++ Decimal.oneDecimal (percent counts.selfCount total) ++ "%"
  name ++ " (" ++ toString counts.inclusive ++ " samples, "
    ++ Decimal.oneDecimal (percent counts.inclusive total) ++ "%" ++ selfShare ++ ")"

def flameGraphLines (options : SvgOptions) (total : Nat) (layout : Layout FrameCounts Float) :
    List String :=
  let subtitle := toString total ++ " samples. Ctrl+F to search, Esc to reset."
  headerLines layout.width layout.height options.title subtitle
  ++ [detailsLine layout.height]
  ++ layout.rects.flatMap (fun rect =>
    frameLines options.layout rect (frameTooltip rect.name rect.label total)
      (if rect.depth = 0 then .neutral else warmColor rect.name))
  ++ footerLines

def renderFlameGraph (tree : FrameTree) (options : SvgOptions) :
    Checked (Except RenderError String) := do
  let layout ← tree.layout options.layout
  return layout.map fun layout => ofLines (flameGraphLines options tree.totalSamples layout)

end StackProfiler.Svg
