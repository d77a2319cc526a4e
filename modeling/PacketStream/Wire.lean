import PacketStream.Buffer.Shape

/-!
# Types with an encoding

`Wire α` says how values of `α` are written and read, and which of them are valid. Reading never
checks validity: a value from a peer is checked by whoever wants a valid one, and a value to be
sent is checked before it is framed.
-/

namespace PacketStream

/-- Types whose values can be written, read and checked. -/
class Wire (α : Type) where
  put : α → Put
  get : Get α
  validate : α → Except ValidationFault Unit := fun _ => .ok ()

namespace Wire

/-- The encoding of a single value, every one of which is valid. -/
@[reducible] def ofShape (s : Shape) : Wire s.Value where
  put := s.put
  get := s.get

instance : Wire Bool := ofShape .bool
instance : Wire UInt8 := ofShape .u8
instance : Wire Int8 := ofShape .i8
instance : Wire UInt16 := ofShape .u16
instance : Wire Int16 := ofShape .i16
instance : Wire UInt32 := ofShape .u32
instance : Wire Int32 := ofShape .i32
instance : Wire UInt64 := ofShape .u64
instance : Wire Int64 := ofShape .i64
instance : Wire Single := ofShape .single
instance : Wire Double := ofShape .double
instance : Wire String := ofShape .text

/-- The encoding of a value in a buffer of its own, under the usual limit for strings. -/
def encode {α : Type} [Wire α] (v : α) : Except Fault (List UInt8) := (Wire.put v).run

end Wire

/-- A 32-bit number that is encoded as a varint. -/
structure VarInt where
  value : Int32
deriving DecidableEq, Repr

/-- A 64-bit number that is encoded as a varint. -/
structure VarLong where
  value : Int64
deriving DecidableEq, Repr

instance : Wire VarInt where
  put v := Put.varint v.value
  get := return { value := (← Get.varint) }

instance : Wire VarLong where
  put v := Put.varlong v.value
  get := return { value := (← Get.varlong) }

end PacketStream
