import StackProfiler.Proofs.Svg.Markup
import StackProfiler.Svg.DiffGraph
import StackProfiler.Svg.FlameGraph

/-!
# What is read from a document

A flame graph, or the flame graph of a change, is read back as the tags that were meant: those of
the opening, the tags of one group for each rectangle of the layout in order, and those of the
closing. What stands inside the tags depends on numbers and colours only. Names and titles stand in
the texts, and are read as they are, whatever their characters.

- **lines**: one lemma for each writer, such as `readTags_frameLines`;
- **frames**: `countP_isFrame_frameTags`;
- **main statement**: `documents_read_back`.
-/

namespace StackProfiler.Svg

/-! ## Section 1: The tags that are meant -/

/-- The attributes of the canvas. -/
def canvasAttributes (width height : Nat) : List (String × String) :=
  [("xmlns", "http://www.w3.org/2000/svg"), ("width", toString width), ("height", toString height),
   ("viewBox", "0 0 " ++ toString width ++ " " ++ toString height)]

/-- The tags of a centred line of text. -/
def headingTags (center y fontSize : Nat) (fill text : String) : List Tag :=
  textTags "text"
    [("x", toString center), ("y", toString y), ("font-size", toString fontSize),
     ("font-family", "sans-serif"), ("text-anchor", "middle"), ("fill", fill)] text

/-- The tags of the opening. The size of the canvas determines what stands inside them. -/
def headerTags (width height : Nat) (title subtitle : String) : List Tag :=
  [⟨"?xml version=\"1.0\" standalone=\"no\"?", "\n"⟩]
  ++ [⟨startTag "svg" (canvasAttributes width height), "\n"⟩]
  ++ emptyTags "rect" [("width", "100%"), ("height", "100%"), ("fill", "#f8f8f8")]
  ++ headingTags (width / 2) 20 16 "#333" title
  ++ headingTags (width / 2) 36 11 "#888" subtitle

def legendEntryTags (x : Nat) (fill text : String) : List Tag :=
  emptyTags "rect"
    [("x", toString x), ("y", toString (legendY - 10)), ("width", "16"), ("height", "12"),
     ("fill", fill), ("rx", "2")]
  ++ textTags "text"
    [("x", toString (x + 20)), ("y", toString legendY), ("font-size", "11"),
     ("font-family", "sans-serif"), ("fill", "#333")] text

def legendTags (center : Nat) : List Tag :=
  legendEntryTags (center - 160) "rgb(100,120,255)" "Improvement (less CPU)"
  ++ legendEntryTags (center + 40) "rgb(255,80,80)" "Regression (more CPU)"

def detailsTags (height : Nat) : List Tag :=
  textTags "text"
    [("id", "details"), ("x", "4"), ("y", toString (height - 6)), ("font-size", "11"),
     ("font-family", "monospace"), ("fill", "#333")] ""

/-- The attributes of the rectangle of a frame but its class. -/
def frameAttributes {α : Type} (config : LayoutConfig Float) (rect : FrameRect α Float)
    (fill : Rgb) : List (String × String) :=
  [("x", Decimal.oneDecimal rect.x), ("y", Decimal.oneDecimal rect.y),
   ("width", Decimal.oneDecimal rect.width), ("height", toString (config.rowHeight - 1)),
   ("fill", fill.text), ("rx", "1"), ("ry", "1")]

/-- The tags of one frame: a group that holds the tooltip, the rectangle, and the label if there
is one. -/
def frameTags {α : Type} (config : LayoutConfig Float) (rect : FrameRect α Float)
    (tooltip : String) (fill : Rgb) : List Tag :=
  [⟨"g", "\n"⟩]
  ++ textTags "title" [] tooltip
  ++ emptyTags "rect" (frameAttributes config rect fill ++ [("class", "frame")])
  ++ (match fitLabel config rect.name rect.width with
    | none => []
    | some label =>
      textTags "text"
        [("x", Decimal.oneDecimal (rect.x + 3.0)),
         ("y", Decimal.oneDecimal (rect.y + Scalar.ofNat config.rowHeight - 4.0)),
         ("font-size", toString config.fontSize), ("font-family", "monospace"), ("fill", "#000")]
        label)
  ++ [⟨"/g", "\n"⟩]

/-- The tags of the closing, which are the same in every document. -/
def footerTags : List Tag :=
  (readTags (ofLines footerLines)).getD []

/-- The tags of a document: the opening with a legend, the frames in order, and the closing. -/
def documentTags {α : Type} (config : LayoutConfig Float) (layout : Layout α Float)
    (title subtitle : String) (legend : List Tag) (tooltip : FrameRect α Float → String)
    (fill : FrameRect α Float → Rgb) : List Tag :=
  headerTags layout.width layout.height title subtitle
  ++ legend
  ++ detailsTags layout.height
  ++ layout.rects.flatMap (fun rect => frameTags config rect (tooltip rect) (fill rect))
  ++ footerTags

/-- The tags of the flame graph of a profile. -/
def flameGraphTags (options : SvgOptions) (total : Nat) (layout : Layout FrameCounts Float) :
    List Tag :=
  documentTags options.layout layout options.title
    (toString total ++ " samples. Ctrl+F to search, Esc to reset.") []
    (fun rect => frameTooltip rect.name rect.label total)
    (fun rect => if rect.depth = 0 then .neutral else warmColor rect.name)

/-- The tags of the flame graph of a change. -/
def diffGraphTags (title : String) (config : LayoutConfig Float) (tree : DiffTree)
    (layout : Layout DiffCounts Float) : List Tag :=
  documentTags config layout title
    ("Before: " ++ toString tree.beforeTotal ++ " samples, After: " ++ toString tree.afterTotal
      ++ " samples. Ctrl+F to search.")
    (legendTags (layout.width / 2))
    (fun rect => diffTooltip rect.name rect.label tree.beforeTotal tree.afterTotal)
    (fun rect =>
      if rect.depth = 0 then .neutral
      else deltaColor (share rect.label.before tree.beforeTotal)
        (share rect.label.after tree.afterTotal))

/-- How the tag of the rectangle of a frame ends: with the class of frames. -/
def frameEnd : String := attr "class" "frame" ++ " /"

def Tag.isFrame (t : Tag) : Bool :=
  frameEnd.toList.isSuffixOf t.inside.toList

/-! ## Section 2: The lines of a document -/

theorem readTags_heading (center y fontSize : Nat) {fill : String} (hfill : Plain fill)
    (text : String) :
    readTags (heading center y fontSize fill text ++ "\n") =
      some (headingTags center y fontSize fill text) := by
  apply readTags_textElement text (by decide)
  simp only [List.forall_mem_cons, plain_toString, hfill, and_true]
  decide

/-- The line that opens the canvas. -/
theorem readTags_canvasLine (width height : Nat) :
    readTags ("<svg xmlns=\"http://www.w3.org/2000/svg\"" ++ attr "width" (toString width)
        ++ attr "height" (toString height)
        ++ attr "viewBox" ("0 0 " ++ toString width ++ " " ++ toString height) ++ ">" ++ "\n") =
      some [⟨startTag "svg" (canvasAttributes width height), "\n"⟩] := by
  have hinside : Plain (startTag "svg" (canvasAttributes width height)) := by
    apply plain_startTag (by decide)
    simp only [canvasAttributes, List.forall_mem_cons, plain_append, plain_toString, and_true]
    decide
  have hname : "<svg xmlns=\"http://www.w3.org/2000/svg\"" =
      "<" ++ "svg" ++ attr "xmlns" "http://www.w3.org/2000/svg" := rfl
  have hline := readTags_lineTag hinside
  rw [hname]
  simpa only [startTag, canvasAttributes, List.map_cons, List.map_nil, String.join_cons,
    String.join_nil, String.append_empty, String.append_assoc] using hline

theorem readTags_headerLines (width height : Nat) (title subtitle : String) :
    readTags (ofLines (headerLines width height title subtitle)) =
      some (headerTags width height title subtitle) := by
  have hxml : readTags ("<?xml version=\"1.0\" standalone=\"no\"?>" ++ "\n") =
      some [⟨"?xml version=\"1.0\" standalone=\"no\"?", "\n"⟩] :=
    readTags_lineTag (by decide : Plain "?xml version=\"1.0\" standalone=\"no\"?")
  have hbackground : readTags (emptyElement "rect"
      [("width", "100%"), ("height", "100%"), ("fill", "#f8f8f8")] ++ "\n") =
        some (emptyTags "rect" [("width", "100%"), ("height", "100%"), ("fill", "#f8f8f8")]) :=
    readTags_emptyElement (by decide) (by decide)
  have htitle := readTags_heading (width / 2) 20 16 (by decide : Plain "#333") title
  have hsubtitle := readTags_heading (width / 2) 36 11 (by decide : Plain "#888") subtitle
  simp only [headerTags, List.append_assoc]
  exact readTags_ofLines_cons hxml <|
    readTags_ofLines_cons (readTags_canvasLine width height) <|
    readTags_ofLines_cons hbackground <|
    readTags_ofLines_cons htitle <|
    readTags_ofLines_singleton hsubtitle

theorem readTags_detailsLine (height : Nat) :
    readTags (detailsLine height ++ "\n") = some (detailsTags height) := by
  apply readTags_textElement "" (by decide)
  simp only [List.forall_mem_cons, plain_toString, and_true]
  decide

theorem readTags_legendEntry (x : Nat) {fill : String} (hfill : Plain fill) (text : String) :
    readTags (ofLines (legendEntry x fill text)) = some (legendEntryTags x fill text) := by
  refine readTags_ofLines_cons (readTags_emptyElement (by decide) ?_)
    (readTags_ofLines_singleton (readTags_textElement text (by decide) ?_))
  all_goals
    simp only [List.forall_mem_cons, plain_toString, hfill, and_true]
    decide

theorem readTags_legendLines (center : Nat) :
    readTags (ofLines (legendLines center)) = some (legendTags center) :=
  readTags_ofLines_append (readTags_legendEntry _ (by decide) _)
    (readTags_legendEntry _ (by decide) _)

/-- **One frame**: its lines are read as its tags, with the tooltip and the label as they were. -/
theorem readTags_frameLines {α : Type} (config : LayoutConfig Float) (rect : FrameRect α Float)
    (tooltip : String) (fill : Rgb) :
    readTags (ofLines (frameLines config rect tooltip fill)) =
      some (frameTags config rect tooltip fill) := by
  have hopen : readTags ("<g>" ++ "\n") = some [⟨"g", "\n"⟩] :=
    readTags_lineTag (by decide : Plain "g")
  have hclose : readTags ("</g>" ++ "\n") = some [⟨"/g", "\n"⟩] :=
    readTags_lineTag (by decide : Plain "/g")
  have htitle : readTags (textElement "title" [] tooltip ++ "\n") =
      some (textTags "title" [] tooltip) :=
    readTags_textElement tooltip (by decide) nofun
  unfold frameLines frameTags
  refine readTags_ofLines_append (readTags_ofLines_append ?rect ?label)
    (readTags_ofLines_singleton hclose)
  case rect =>
    rw [List.append_assoc]
    refine readTags_ofLines_cons hopen <| readTags_ofLines_cons htitle <|
      readTags_ofLines_singleton <| readTags_emptyElement (by decide) ?_
    simp only [List.forall_mem_cons, plain_oneDecimal, plain_toString, plain_text, and_true]
    decide
  case label =>
    cases fitLabel config rect.name rect.width with
    | none => rfl
    | some label =>
      refine readTags_ofLines_singleton <| readTags_textElement label (by decide) ?_
      simp only [List.forall_mem_cons, plain_oneDecimal, plain_toString, and_true]
      decide

theorem readTags_footerLines : readTags (ofLines footerLines) = some footerTags := by
  have hfirst : ofLines footerLines = "<" ++ ("script type='text/javascript'><![CDATA[\n" ++
      ofLines footerLines.tail) := by
    rw [← String.append_assoc]
    rfl
  obtain ⟨tags, htags⟩ := exists_readTags_of_lt
    ("script type='text/javascript'><![CDATA[\n" ++ ofLines footerLines.tail)
  rw [footerTags, hfirst, htags, Option.getD_some]

/-! ## Section 3: Counting frames -/

theorem startTag_append (name : String) (front back : List (String × String)) :
    startTag name (front ++ back) = startTag name front ++ startTag "" back := by
  simp only [startTag, List.map_append, String.join_append, String.append_assoc,
    String.empty_append]

/-- The last attributes of an element without a text tell whether it is the rectangle of a
frame. -/
theorem countP_isFrame_emptyTags (name : String) (front : List (String × String))
    {back : List (String × String)} {count : Nat}
    (hlength : frameEnd.toList.length ≤ (startTag "" back ++ " /").toList.length)
    (hback : (emptyTags "" back).countP Tag.isFrame = count) :
    (emptyTags name (front ++ back)).countP Tag.isFrame = count := by
  have hinside : startTag name (front ++ back) ++ " /" =
      startTag name front ++ (startTag "" back ++ " /") := by
    rw [startTag_append, String.append_assoc]
  have hsame : Tag.isFrame ⟨startTag name (front ++ back) ++ " /", "\n"⟩ =
      Tag.isFrame ⟨startTag "" back ++ " /", "\n"⟩ := by
    rw [hinside, Bool.eq_iff_iff, Tag.isFrame, Tag.isFrame, List.isSuffixOf_iff_suffix,
      List.isSuffixOf_iff_suffix, String.toList_append]
    have hend := List.suffix_append (startTag name front).toList (startTag "" back ++ " /").toList
    exact ⟨fun h => List.suffix_of_suffix_length_le h hend hlength, fun h => h.trans hend⟩
  rw [← hback, emptyTags, emptyTags, List.countP_singleton, List.countP_singleton, hsame]

/-- The tag that starts an element with a text ends with the last of its attributes. -/
theorem isFrame_startTag (name : String) {attributes : List (String × String)}
    (hne : attributes ≠ []) (text : String) :
    Tag.isFrame ⟨startTag name attributes, text⟩ = false := by
  rw [Bool.eq_false_iff, ne_eq, Tag.isFrame, List.isSuffixOf_iff_suffix]
  intro hsuffix
  have hslash : (startTag name attributes).toList.getLast? = some '/' := by
    obtain ⟨front, hfront⟩ := hsuffix
    rw [← hfront, List.getLast?_append_of_ne_nil _ (by decide)]
    decide
  have hquote : (startTag name attributes).toList.getLast? = some '"' := by
    rw [← List.dropLast_append_getLast hne, startTag_append]
    simp only [startTag, List.map_cons, List.map_nil, String.join_cons, String.join_nil,
      String.append_empty, attr, String.toList_append, ← List.append_assoc]
    rw [List.getLast?_append_of_ne_nil _ (by decide)]
    decide
  rw [hslash] at hquote
  contradiction

theorem countP_isFrame_textTags {attributes : List (String × String)} (hne : attributes ≠ [])
    (text : String) : (textTags "text" attributes text).countP Tag.isFrame = 0 := by
  have hend : Tag.isFrame ⟨"/" ++ "text", "\n"⟩ = false := by decide
  rw [textTags, List.countP_cons, isFrame_startTag _ hne, List.countP_singleton, hend]
  rfl

theorem countP_isFrame_headerTags (width height : Nat) (title subtitle : String) :
    (headerTags width height title subtitle).countP Tag.isFrame = 0 := by
  have hxml : [Tag.mk "?xml version=\"1.0\" standalone=\"no\"?" "\n"].countP Tag.isFrame = 0 := by
    decide
  have hsvg : [Tag.mk (startTag "svg" (canvasAttributes width height)) "\n"].countP Tag.isFrame =
      0 := by
    have hne : canvasAttributes width height ≠ [] := List.cons_ne_nil _ _
    rw [List.countP_singleton, isFrame_startTag "svg" hne]
    rfl
  have hbackground : (emptyTags "rect"
      [("width", "100%"), ("height", "100%"), ("fill", "#f8f8f8")]).countP Tag.isFrame = 0 := by
    decide
  simp only [headerTags, headingTags, List.countP_append, hxml, hsvg, hbackground,
    countP_isFrame_textTags (List.cons_ne_nil _ _)]

theorem countP_isFrame_legendEntryTags (x : Nat) {fill : String}
    (hlength : frameEnd.toList.length ≤
      (startTag "" [("fill", fill), ("rx", "2")] ++ " /").toList.length)
    (hfill : (emptyTags "" [("fill", fill), ("rx", "2")]).countP Tag.isFrame = 0) (text : String) :
    (legendEntryTags x fill text).countP Tag.isFrame = 0 := by
  have hrect := countP_isFrame_emptyTags "rect"
    [("x", toString x), ("y", toString (legendY - 10)), ("width", "16"), ("height", "12")]
    hlength hfill
  rw [legendEntryTags, List.countP_append, countP_isFrame_textTags (List.cons_ne_nil _ _),
    Nat.add_zero]
  exact hrect

theorem countP_isFrame_legendTags (center : Nat) :
    (legendTags center).countP Tag.isFrame = 0 := by
  have hlower : (legendEntryTags (center - 160) "rgb(100,120,255)" "Improvement (less CPU)").countP
      Tag.isFrame = 0 :=
    countP_isFrame_legendEntryTags _ (by decide) (by decide) _
  have hhigher : (legendEntryTags (center + 40) "rgb(255,80,80)" "Regression (more CPU)").countP
      Tag.isFrame = 0 :=
    countP_isFrame_legendEntryTags _ (by decide) (by decide) _
  rw [legendTags, List.countP_append, hlower, hhigher]

theorem countP_isFrame_detailsTags (height : Nat) :
    (detailsTags height).countP Tag.isFrame = 0 :=
  countP_isFrame_textTags (List.cons_ne_nil _ _) _

/-- A group holds one rectangle of a frame, whether it has a label or not. -/
theorem countP_isFrame_frameTags {α : Type} (config : LayoutConfig Float)
    (rect : FrameRect α Float) (tooltip : String) (fill : Rgb) :
    (frameTags config rect tooltip fill).countP Tag.isFrame = 1 := by
  have hopen : [Tag.mk "g" "\n"].countP Tag.isFrame = 0 := by decide
  have hclose : [Tag.mk "/g" "\n"].countP Tag.isFrame = 0 := by decide
  have htitle : (textTags "title" [] tooltip).countP Tag.isFrame = 0 := by
    have hstart : Tag.isFrame ⟨startTag "title" [], tooltip⟩ = false :=
      show frameEnd.toList.isSuffixOf (startTag "title" []).toList = false by decide
    have hend : Tag.isFrame ⟨"/" ++ "title", "\n"⟩ = false := by decide
    rw [textTags, List.countP_cons, hstart, List.countP_singleton, hend]
    rfl
  have hrect : (emptyTags "rect" (frameAttributes config rect fill ++ [("class", "frame")])).countP
      Tag.isFrame = 1 :=
    countP_isFrame_emptyTags "rect" _ (by decide) (by decide)
  unfold frameTags
  cases fitLabel config rect.name rect.width with
  | none => simp only [List.countP_append, hopen, htitle, hrect, hclose, List.countP_nil]
  | some label =>
    simp only [List.countP_append, hopen, htitle, hrect, hclose,
      countP_isFrame_textTags (List.cons_ne_nil _ _)]

theorem countP_isFrame_rects {α : Type} (rects : List (FrameRect α Float))
    (config : LayoutConfig Float) (tooltip : FrameRect α Float → String)
    (fill : FrameRect α Float → Rgb) :
    (rects.flatMap fun rect => frameTags config rect (tooltip rect) (fill rect)).countP
      Tag.isFrame = rects.length := by
  induction rects with
  | nil => rfl
  | cons rect rects ih =>
    rw [List.flatMap_cons, List.countP_append, countP_isFrame_frameTags, ih, List.length_cons,
      Nat.add_comm]

theorem notMem_toList_of_elem {c : Char} {cs : List Char} (h : cs.elem c = false) :
    c ∉ (String.ofList cs).toList := by
  rw [String.toList_ofList, ← List.elem_iff, h]
  exact Bool.false_ne_true

theorem quote_notMem_of_mem_footerLines : ∀ line ∈ footerLines, '"' ∉ line.toList := by
  unfold footerLines scriptLines
  repeat refine List.forall_mem_cons.mpr ⟨notMem_toList_of_elem rfl, ?_⟩
  exact nofun

/-- The closing has no frames: nothing in it is quoted in the way of attributes. -/
theorem countP_isFrame_footerTags : footerTags.countP Tag.isFrame = 0 := by
  rw [List.countP_eq_zero]
  intro t ht hframe
  have hquote : '"' ∈ (ofLines footerLines).toList := by
    rw [Tag.isFrame, List.isSuffixOf_iff_suffix] at hframe
    have hinside := inside_sublist_of_readTags readTags_footerLines ht
    exact hinside.mem (hframe.mem (by decide))
  rw [ofLines, String.toList_join, List.mem_flatMap] at hquote
  obtain ⟨ended, hended, hmem⟩ := hquote
  obtain ⟨line, hline, rfl⟩ := List.mem_map.mp hended
  rw [String.toList_append, List.mem_append] at hmem
  rcases hmem with hmem | hmem
  · exact quote_notMem_of_mem_footerLines line hline hmem
  · exact absurd hmem (by decide)

/-- There is one rectangle with the class of frames for each rectangle of the layout. -/
theorem countP_isFrame_documentTags {α : Type} (config : LayoutConfig Float)
    (layout : Layout α Float) (title subtitle : String) {legend : List Tag}
    (hlegend : legend.countP Tag.isFrame = 0) (tooltip : FrameRect α Float → String)
    (fill : FrameRect α Float → Rgb) :
    (documentTags config layout title subtitle legend tooltip fill).countP Tag.isFrame =
      layout.rects.length := by
  simp only [documentTags, List.countP_append, countP_isFrame_headerTags, hlegend,
    countP_isFrame_detailsTags, countP_isFrame_rects, countP_isFrame_footerTags, Nat.zero_add,
    Nat.add_zero]

/-! ## Section 4: Whole documents -/

/-- **Any document**: its lines are read as its tags, if those of its legend are. -/
theorem readTags_documentLines {α : Type} (config : LayoutConfig Float) (layout : Layout α Float)
    (title subtitle : String) {legendLines : List String} {legend : List Tag}
    (hlegend : readTags (ofLines legendLines) = some legend)
    (tooltip : FrameRect α Float → String) (fill : FrameRect α Float → Rgb) :
    readTags (ofLines
        (headerLines layout.width layout.height title subtitle
          ++ legendLines
          ++ [detailsLine layout.height]
          ++ layout.rects.flatMap (fun rect => frameLines config rect (tooltip rect) (fill rect))
          ++ footerLines)) =
      some (documentTags config layout title subtitle legend tooltip fill) := by
  have hheader := readTags_headerLines layout.width layout.height title subtitle
  have hdetails := readTags_ofLines_singleton (readTags_detailsLine layout.height)
  have hframes := readTags_ofLines_flatMap layout.rects fun rect _ =>
    readTags_frameLines config rect (tooltip rect) (fill rect)
  have hopening := readTags_ofLines_append (readTags_ofLines_append hheader hlegend) hdetails
  exact readTags_ofLines_append (readTags_ofLines_append hopening hframes) readTags_footerLines

theorem readTags_flameGraphLines (options : SvgOptions) (total : Nat)
    (layout : Layout FrameCounts Float) :
    readTags (ofLines (flameGraphLines options total layout)) =
      some (flameGraphTags options total layout) := by
  have h := readTags_documentLines options.layout layout options.title
    (toString total ++ " samples. Ctrl+F to search, Esc to reset.") readTags_ofLines_nil
    (fun rect => frameTooltip rect.name rect.label total)
    (fun rect => if rect.depth = 0 then .neutral else warmColor rect.name)
  rwa [List.append_nil] at h

theorem readTags_diffGraphLines (title : String) (config : LayoutConfig Float) (tree : DiffTree)
    (layout : Layout DiffCounts Float) :
    readTags (ofLines (diffGraphLines title config tree layout)) =
      some (diffGraphTags title config tree layout) :=
  readTags_documentLines config layout title _ (readTags_legendLines _) _ _

/-- A flame graph is drawn from the layout of its tree. -/
theorem exists_layout_of_renderFlameGraph {tree : FrameTree} {options : SvgOptions} {doc : String}
    (h : renderFlameGraph tree options = .ok (.ok doc)) :
    ∃ layout, tree.layout options.layout = .ok (.ok layout) ∧
      doc = ofLines (flameGraphLines options tree.totalSamples layout) := by
  obtain ⟨drawn, hdrawn, h⟩ := Checked.bind_eq_ok_iff.mp h
  cases drawn with
  | error e => cases h
  | ok layout =>
    cases h
    exact ⟨layout, hdrawn, rfl⟩

/-- The geometry of the flame graph of a change, which leaves room for the legend. -/
def diffConfig (options : SvgOptions) : LayoutConfig Float :=
  { options.layout with header := max options.layout.header diffHeader }

theorem exists_layout_of_renderDiff {tree : DiffTree} {options : SvgOptions} {doc : String}
    (h : renderDiff tree options = .ok (.ok doc)) :
    ∃ layout, tree.layout (diffConfig options) = .ok (.ok layout) ∧
      doc = ofLines (diffGraphLines options.title (diffConfig options) tree layout) := by
  unfold renderDiff at h
  split at h
  · cases h
  · obtain ⟨drawn, hdrawn, h⟩ := Checked.bind_eq_ok_iff.mp h
    cases drawn with
    | error e => cases h
    | ok layout =>
      cases h
      exact ⟨layout, hdrawn, rfl⟩

/--
**Names and titles cannot alter the markup.** Whatever characters the names of the frames and the
title have, a document that is rendered, be it of a profile or of a change, is read as the tags
that were meant for the layout of its tree: what stands inside the tags of the opening depends on
the size of the canvas alone, every rectangle of the layout has one group with its tooltip and its
label, and the closing is fixed. So there are as many frames as there are rectangles.
-/
theorem documents_read_back :
    (∀ (tree : FrameTree) (options : SvgOptions) (doc : String),
      renderFlameGraph tree options = .ok (.ok doc) →
      ∃ layout, tree.layout options.layout = .ok (.ok layout) ∧
        readTags doc = some (flameGraphTags options tree.totalSamples layout) ∧
        (flameGraphTags options tree.totalSamples layout).countP Tag.isFrame =
          layout.rects.length) ∧
    ∀ (tree : DiffTree) (options : SvgOptions) (doc : String),
      renderDiff tree options = .ok (.ok doc) →
      ∃ layout, tree.layout (diffConfig options) = .ok (.ok layout) ∧
        readTags doc = some (diffGraphTags options.title (diffConfig options) tree layout) ∧
        (diffGraphTags options.title (diffConfig options) tree layout).countP Tag.isFrame =
          layout.rects.length := by
  constructor
  · intro tree options doc hdoc
    obtain ⟨layout, hlayout, rfl⟩ := exists_layout_of_renderFlameGraph hdoc
    exact ⟨layout, hlayout, readTags_flameGraphLines options _ layout,
      countP_isFrame_documentTags _ layout _ _ rfl _ _⟩
  · intro tree options doc hdoc
    obtain ⟨layout, hlayout, rfl⟩ := exists_layout_of_renderDiff hdoc
    exact ⟨layout, hlayout, readTags_diffGraphLines options.title _ tree layout,
      countP_isFrame_documentTags _ layout _ _ (countP_isFrame_legendTags _) _ _⟩

private def hostileName : String := "</title><g>&lt;\"'"

private def hostileOptions : SvgOptions where
  title := "]]></svg>"

private def hostileTree : FrameTree where
  root := .node rootName { index := 0, depth := 0, inclusive := 4, selfCount := 1 }
    [.node hostileName { index := 1, depth := 1, inclusive := 3, selfCount := 3 } []]
  growth := { size := 2, maxDepth := 1 }

private def hostileChange : DiffTree where
  nodes :=
    #[{ depth := 0, before := 4, after := 2, name := rootName,
        children := (∅ : Std.ExtTreeMap String Nat compare).insert hostileName 1 },
      { depth := 1, before := 3, after := 0, name := hostileName }]
  beforeTotal := 4
  afterTotal := 2
  maxDepth := 1

/-- The drawing of a frame that carries one other frame. -/
private theorem rectangles_of_two {α : Type} {canvas : Layout.Canvas α Float}
    {lower upper : Layout.Box α Float} (hlower : ¬lower.width < canvas.minWidth)
    (habove : canvas.above lower = [upper]) (hupper : ¬upper.width < canvas.minWidth)
    (htop : canvas.above upper = []) :
    (canvas.rectangles [lower] #[]).toList = [canvas.rect lower, canvas.rect upper] := by
  rw [Layout.Canvas.rectangles, if_neg hlower, habove, List.append_nil, Layout.Canvas.rectangles,
    if_neg hupper, htop, List.append_nil, Layout.Canvas.rectangles]
  rfl

/-- A name that looks like the markup around it, and a title that looks like the end of the
document, change nothing: two frames are read. -/
theorem documents_read_back_hostile :
    (∃ doc tags, renderFlameGraph hostileTree hostileOptions = .ok (.ok doc) ∧
      readTags doc = some tags ∧ tags.countP Tag.isFrame = 2) ∧
    ∃ doc tags, renderDiff hostileChange hostileOptions = .ok (.ok doc) ∧
      readTags doc = some tags ∧ tags.countP Tag.isFrame = 2 := by
  constructor
  · obtain ⟨doc, hdoc⟩ : ∃ doc, renderFlameGraph hostileTree hostileOptions = .ok (.ok doc) :=
      ⟨_, rfl⟩
    obtain ⟨layout, hlayout, htags, hcount⟩ := documents_read_back.1 _ _ _ hdoc
    obtain rfl := Except.ok.inj (Except.ok.inj hlayout)
    refine ⟨doc, _, hdoc, htags, hcount.trans ?_⟩
    exact congrArg List.length (rectangles_of_two (by decide) rfl (by decide) rfl)
  · obtain ⟨doc, hdoc⟩ : ∃ doc, renderDiff hostileChange hostileOptions = .ok (.ok doc) :=
      ⟨_, rfl⟩
    obtain ⟨layout, hlayout, htags, hcount⟩ := documents_read_back.2 _ _ _ hdoc
    obtain rfl := Except.ok.inj (Except.ok.inj hlayout)
    refine ⟨doc, _, hdoc, htags, hcount.trans ?_⟩
    exact congrArg List.length (rectangles_of_two (by decide) rfl (by decide) rfl)

end StackProfiler.Svg
