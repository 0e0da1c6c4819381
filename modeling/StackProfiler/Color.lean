/-!
# Frame colours

Colours are functions of what they stand for, so a function has one colour in every graph. A name
gets a warm colour by its hash; a change gets red or blue by its size.
-/

namespace StackProfiler

/-- A colour with eight bits for each part. -/
structure Rgb where
  red : UInt8
  green : UInt8
  blue : UInt8
deriving DecidableEq, Repr

namespace Rgb

/-- The colour as it is written in a document. -/
def text (c : Rgb) : String :=
  "rgb(" ++ toString c.red.toNat ++ "," ++ toString c.green.toNat ++ "," ++ toString c.blue.toNat
    ++ ")"

/-- The colour of roots and of unchanged frames. -/
def neutral : Rgb := ⟨200, 200, 200⟩

end Rgb

/-- The djb2 hash of a name's bytes: times 33 plus the byte, from 5381 on. -/
def nameHash (name : String) : UInt32 :=
  name.toUTF8.data.foldl (fun h b => (h <<< 5) + h + b.toUInt32) 5381

/--
The warm colour of a name: the hash chooses hue, saturation and brightness from red to yellow,
with a little blue.
-/
def warmColor (name : String) : Rgb :=
  let hash := nameHash name
  let hue := (hash % 60).toFloat / 60.0
  let middle : UInt32 := hash >>> 8
  let upper : UInt32 := hash >>> 16
  let saturation := (160 + middle % 55).toFloat / 255.0
  let value := (200 + upper % 56).toFloat / 255.0
  let chroma := value * saturation
  let x := chroma * hue
  let m := value - chroma
  ⟨((chroma + m) * 255.0).toUInt8, ((x + m) * 255.0).toUInt8, (m * 55.0 + 30.0).toUInt8⟩

/-- Changes of share smaller than this are not coloured. -/
def deltaEpsilon : Float := 0.001

/-- Changes of share from this size on have the full colour. -/
def deltaSaturation : Float := 0.3

/-- Red for a share that grew, blue for one that shrank, the stronger the larger the change. -/
def deltaColor (before after : Float) : Rgb :=
  let delta := after - before
  if delta.abs < deltaEpsilon then .neutral
  else
    let quotient := delta.abs / deltaSaturation
    -- the colour does not get stronger than full
    let intensity := if quotient < 1.0 then quotient else 1.0
    let scale (amount : Float) : UInt8 := (amount * intensity).toUInt8
    if 0.0 < delta then ⟨200 + scale 55.0, 200 - scale 140.0, 200 - scale 140.0⟩
    else ⟨200 - scale 140.0, 200 - scale 80.0, 200 + scale 55.0⟩

end StackProfiler
