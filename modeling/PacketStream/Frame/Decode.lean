import PacketStream.Frame.Basic

/-!
# Reading frames

`decode` reads the contents of a frame that has arrived as a whole. A frame that ends inside one of
its own fields is therefore malformed, and no reason to wait for more.
-/

namespace PacketStream.Framing

/-- Reads a varint of a frame. -/
def getField (field : String) : Get Int32 := fun b =>
  match Get.varint b with
  | (.error (.insufficientData offset _ available), after) =>
    (.error (.malformed (.frameEndsInside field after.length offset available)), after)
  | result => result

/-- Inflates a body whose length is announced. -/
def inflateBody (f : Framing) (announced : Nat) (compressed : List UInt8) :
    Checked (List UInt8) := do
  if f.config.uncompressedLength < announced then do
    Checked.report (.declaredTooLong announced f.config.uncompressedLength)
    throw (.sizeLimit f.config.uncompressedLength announced)
  else do
    let body ← Compression.decompress announced compressed
    if body.length ≠ announced then throw (.malformed (.inflatedLength body.length announced))
    else do
      Checked.report (.inflated compressed.length announced)
      return body

/-- The body of a frame with the given contents. -/
def bodyOf (f : Framing) (contents : List UInt8) : Checked (List UInt8) :=
  match f.threshold with
  | none => return contents
  | some _ =>
    match (Buffer.ofBytes contents).get (getField "data length") with
    | (.error e, _) => throw e
    | (.ok dataLength, after) =>
      if dataLength < 0 then throw (.malformed (.negativeDataLength dataLength.toInt))
      else if dataLength = 0 then return after.unread
      else f.inflateBody dataLength.toInt.toNat after.unread

/-- The packet in a frame with the given contents. -/
def decode (f : Framing) (contents : List UInt8) : Checked Message := do
  let body ← f.bodyOf contents
  match ((Buffer.ofBytes body).withTextLimit f.config.textLength).get (getField "packet id") with
  | (.error e, _) => throw e
  | (.ok id, payload) =>
    if id < 0 then throw (.malformed (.negativePacketId id.toInt))
    else do
      Checked.report (.decoded id payload.remaining)
      return { id, payload }

end PacketStream.Framing
