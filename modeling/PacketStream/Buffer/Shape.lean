import PacketStream.Buffer.Get
import PacketStream.Buffer.Put

/-!
# Shapes of single values

`Shape` lists the encodings of single values. Each has a type of values, a way to write one and a
way to read it, so that statements about writing and reading can range over all encodings.

Floating-point numbers are kept as bit patterns: nothing is computed with them, and every pattern,
those of all NaNs included, is a value of its own.
-/

namespace PacketStream

/-- A number of 32-bit floating point, as its bit pattern. -/
structure Single where
  bits : UInt32
deriving DecidableEq, Repr

/-- A number of 64-bit floating point, as its bit pattern. -/
structure Double where
  bits : UInt64
deriving DecidableEq, Repr

/-- An encoding of single values. -/
inductive Shape where
  | bool
  | u8
  | i8
  | u16
  | i16
  | u32
  | i32
  | u64
  | i64
  | single
  | double
  | varshort
  | varint
  | varlong
  | varuint (bits : Nat)
  | text
  | ascii
  | byteArray
  | optional (inner : Shape)
deriving DecidableEq, Repr

namespace Shape

/-- The values of a shape. -/
@[reducible] def Value : Shape → Type
  | bool => Bool
  | u8 => UInt8
  | i8 => Int8
  | u16 => UInt16
  | i16 => Int16
  | u32 => UInt32
  | i32 => Int32
  | u64 => UInt64
  | i64 => Int64
  | single => Single
  | double => Double
  | varshort => Int16
  | varint => Int32
  | varlong => Int64
  | varuint _ => UInt64
  | text => String
  | ascii => String
  | byteArray => List UInt8
  | optional inner => Option inner.Value

/-- Writes a value of a shape. -/
def put : (s : Shape) → s.Value → Put
  | bool, v => Put.bool v
  | u8, v => Put.bigEndian 1 v.toNat
  | i8, v => Put.bigEndian 1 v.toUInt8.toNat
  | u16, v => Put.bigEndian 2 v.toNat
  | i16, v => Put.bigEndian 2 v.toUInt16.toNat
  | u32, v => Put.bigEndian 4 v.toNat
  | i32, v => Put.bigEndian 4 v.toUInt32.toNat
  | u64, v => Put.bigEndian 8 v.toNat
  | i64, v => Put.bigEndian 8 v.toUInt64.toNat
  | single, v => Put.bigEndian 4 v.bits.toNat
  | double, v => Put.bigEndian 8 v.bits.toNat
  | varshort, v => Put.varshort v
  | varint, v => Put.varint v
  | varlong, v => Put.varlong v
  | varuint bits, v => Put.varuint bits v
  | text, v => Put.text v
  | ascii, v => Put.ascii v
  | byteArray, v => Put.byteArray v
  | optional inner, v => Put.optional inner.put v

/-- Reads a value of a shape. -/
def get : (s : Shape) → Get s.Value
  | bool => Get.bool
  | u8 => Get.byte
  | i8 => return (← Get.byte).toInt8
  | u16 => return (← Get.bigEndian 2).toUInt16
  | i16 => return (← Get.bigEndian 2).toUInt16.toInt16
  | u32 => return (← Get.bigEndian 4).toUInt32
  | i32 => return (← Get.bigEndian 4).toUInt32.toInt32
  | u64 => return (← Get.bigEndian 8).toUInt64
  | i64 => return (← Get.bigEndian 8).toUInt64.toInt64
  | single => return { bits := (← Get.bigEndian 4).toUInt32 }
  | double => return { bits := (← Get.bigEndian 8).toUInt64 }
  | varshort => Get.varshort
  | varint => Get.varint
  | varlong => Get.varlong
  | varuint bits => Get.varuint bits
  | text => Get.text
  | ascii => Get.ascii
  | byteArray => Get.byteArray
  | optional inner => Get.optional inner.get

end Shape

end PacketStream
