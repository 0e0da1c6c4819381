import StackProfiler.Bytes.Endian
import StackProfiler.Sample.Basic

/-!
# Records of the sampling ring

A record is an eight-byte header, which states the kind and the whole size, and a body. A sample's
body is a count and that many addresses; a notice of lost records has an identifier and a count.
-/

namespace StackProfiler

/-- The header of a record. -/
structure RecordHeader where
  kind : UInt32
  misc : UInt16
  /-- Size of the whole record in bytes, the header included. -/
  size : UInt16
deriving DecidableEq, Repr

namespace RecordHeader

/-- Number of bytes of a header. -/
def length : Nat := 8

def toBytes (h : RecordHeader) : List UInt8 :=
  Bytes.littleEndian 4 h.kind.toNat ++ Bytes.littleEndian 2 h.misc.toNat
    ++ Bytes.littleEndian 2 h.size.toNat

/-- The header in eight bytes. -/
def ofBytes (bs : List UInt8) : RecordHeader where
  kind := UInt32.ofNat (Bytes.ofLittleEndian (bs.take 4))
  misc := UInt16.ofNat (Bytes.ofLittleEndian ((bs.drop 4).take 2))
  size := UInt16.ofNat (Bytes.ofLittleEndian ((bs.drop 6).take 2))

end RecordHeader

namespace Record

/-- The kind of a notice of lost records. -/
def lostKind : UInt32 := 2

def sampleKind : UInt32 := 9

def wordBytes (w : UInt64) : List UInt8 :=
  Bytes.littleEndian 8 w.toNat

def sampleBody (addresses : List UInt64) : List UInt8 :=
  wordBytes (UInt64.ofNat addresses.length) ++ addresses.flatMap wordBytes

/-- The body of a notice of lost records. -/
def lostBody (lost : UInt64) : List UInt8 :=
  wordBytes 0 ++ wordBytes lost

end Record

end StackProfiler
