import StackProfiler.Color
import StackProfiler.Decimal.Fixed
import StackProfiler.Layout.FrameLabel
import StackProfiler.Svg.Escape
import StackProfiler.Svg.Script

/-!
# Flame graph documents

A document is a list of lines: a prologue fixed by the canvas and the titles, a group of lines for
each visible frame, and an epilogue that is always the same. Titles, tooltips and labels are
escaped; everything else in a line is a number, a colour or fixed text.
-/

namespace StackProfiler

/-- The title and the geometry of a rendered graph. -/
structure SvgOptions where
  title : String := "Flame Graph"
  layout : LayoutConfig Float := .standard

namespace Svg

def attr (name value : String) : String :=
  " " ++ name ++ "=\"" ++ value ++ "\""

def emptyElement (name : String) (attributes : List (String × String)) : String :=
  "<" ++ name ++ String.join (attributes.map fun (n, v) => attr n v) ++ " />"

def textElement (name : String) (attributes : List (String × String)) (text : String) : String :=
  "<" ++ name ++ String.join (attributes.map fun (n, v) => attr n v) ++ ">" ++ escape text
    ++ "</" ++ name ++ ">"

/-- A centred line of text above the frames. -/
def heading (center y fontSize : Nat) (fill text : String) : String :=
  textElement "text"
    [("x", toString center), ("y", toString y), ("font-size", toString fontSize),
     ("font-family", "sans-serif"), ("text-anchor", "middle"), ("fill", fill)] text

/-- The opening of a document: canvas, background, title and subtitle. -/
def headerLines (width height : Nat) (title subtitle : String) : List String :=
  ["<?xml version=\"1.0\" standalone=\"no\"?>",
   "<svg xmlns=\"http://www.w3.org/2000/svg\"" ++ attr "width" (toString width)
     ++ attr "height" (toString height)
     ++ attr "viewBox" ("0 0 " ++ toString width ++ " " ++ toString height) ++ ">",
   emptyElement "rect" [("width", "100%"), ("height", "100%"), ("fill", "#f8f8f8")],
   heading (width / 2) 20 16 "#333" title,
   heading (width / 2) 36 11 "#888" subtitle]

/-- The line near the lower edge that shows the tooltip of the frame under the pointer. -/
def detailsLine (height : Nat) : String :=
  textElement "text"
    [("id", "details"), ("x", "4"), ("y", toString (height - 6)), ("font-size", "11"),
     ("font-family", "monospace"), ("fill", "#333")] ""

/-- The group of lines for one frame. -/
def frameLines {α : Type} (config : LayoutConfig Float) (rect : FrameRect α Float)
    (tooltip : String) (fill : Rgb) : List String :=
  ["<g>",
   textElement "title" [] tooltip,
   emptyElement "rect"
     [("x", Decimal.oneDecimal rect.x), ("y", Decimal.oneDecimal rect.y),
      ("width", Decimal.oneDecimal rect.width), ("height", toString (config.rowHeight - 1)),
      ("fill", fill.text), ("rx", "1"), ("ry", "1"), ("class", "frame")]]
  ++ ((fitLabel config rect.name rect.width).map fun label =>
    textElement "text"
      [("x", Decimal.oneDecimal (rect.x + 3.0)),
       ("y", Decimal.oneDecimal (rect.y + Scalar.ofNat config.rowHeight - 4.0)),
       ("font-size", toString config.fontSize), ("font-family", "monospace"), ("fill", "#000")]
      label).toList
  ++ ["</g>"]

def footerLines : List String :=
  scriptLines ++ ["</svg>"]

/-- The text of a list of lines, each of them ended. -/
def ofLines (lines : List String) : String :=
  String.join (lines.map (· ++ "\n"))

/-- A part of a total in percent; nothing is no part of anything. -/
def percent (part total : Nat) : Float :=
  if total = 0 then 0.0 else 100.0 * Scalar.ofNat part / Scalar.ofNat total

end Svg

end StackProfiler
