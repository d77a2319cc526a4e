import PacketStream.Fault

/-!
# Events

What the library reports beside its results. An operation that reports events returns them with
its value, in the order in which they happened: `Traced α` is a value with events, `Checked α` may
fail and reports events either way.

`value_bind` and `events_bind` say that events never influence a value.
-/

namespace PacketStream

/-- How loud an event is. -/
inductive Severity where
  | trace
  | debug
  | info
  | warn
deriving DecidableEq, Repr

/-- The severity's name in a log. -/
def Severity.text : Severity → String
  | trace => "TRACE"
  | debug => "DEBUG"
  | info => "INFO"
  | warn => "WARN"

/-- Something worth reporting. -/
inductive Event where
  /-- A frame was not sent because of its length. -/
  | outboundTooLong (length limit : Nat)
  | framed (body frame : Nat) (compressed : Bool)
  /-- A peer announced a frame that is too long. -/
  | inboundTooLong (length limit : Nat)
  | declaredTooLong (declared limit : Nat)
  | inflatedTooLong (limit compressed : Nat)
  | inflated (compressed length : Nat)
  | decoded (id : Int32) (payload : Nat)
  | unknownPacket (direction : Direction) (id : Int32) (state : GameState)
  | compressionOn (threshold : UInt32)
  | compressionStaysOff (threshold : Int32)
  | streamThreshold (threshold : Option UInt32)
  | unknownOption (key value : String)
  | configLoaded (path : String)
  | configShown
  | textLengthShown (length : Nat)
  | frameLengthShown (length : Nat)
  | uncompressedLengthShown (length : Nat)
  | levelShown (level : Nat)
deriving DecidableEq, Repr

namespace Event

def severity : Event → Severity
  | framed .. | inflated .. | decoded .. => .trace
  | unknownPacket .. | compressionOn _ | compressionStaysOff _ | streamThreshold _ => .debug
  | configLoaded _ | configShown | textLengthShown _ | frameLengthShown _
  | uncompressedLengthShown _ | levelShown _ => .info
  | outboundTooLong .. | inboundTooLong .. | declaredTooLong .. | inflatedTooLong ..
  | unknownOption .. => .warn

def message : Event → String
  | outboundTooLong length limit =>
    s!"Outbound frame of {length} bytes exceeds limit of {limit} bytes"
  | framed body frame compressed =>
    s!"Framed body of {body} bytes into {frame} bytes (compressed: {compressed})"
  | inboundTooLong length limit => s!"Frame length {length} exceeds limit of {limit} bytes"
  | declaredTooLong declared limit =>
    s!"Declared data length {declared} exceeds limit of {limit} bytes"
  | inflatedTooLong limit compressed =>
    s!"Decompressed payload exceeds limit of {limit} bytes (compressed size {compressed})"
  | inflated compressed length =>
    s!"Decompressed frame body from {compressed} to {length} bytes"
  | decoded id payload => "Decoded packet " ++ hexId id ++ s!" with {payload} payload bytes"
  | unknownPacket direction id state =>
    "Unknown " ++ direction.tag ++ "Packet packet id " ++ hexId id ++ " in state " ++ state.text
  | compressionOn threshold => s!"Compression enabled for packets of {threshold} bytes or more"
  | compressionStaysOff threshold => s!"Peer sent threshold {threshold}, compression stays off"
  | streamThreshold none => "Codec compression threshold set to None"
  | streamThreshold (some threshold) => s!"Codec compression threshold set to Some({threshold})"
  | unknownOption key value => s!"Unknown config option: {key} = {value}"
  | configLoaded path => s!"Loaded codec configuration from {path}"
  | configShown => "Codec configuration:"
  | textLengthShown length => s!"    Max string length: {length} chars"
  | frameLengthShown length => s!"    Max frame length: {length} bytes"
  | uncompressedLengthShown length => s!"    Max uncompressed length: {length} bytes"
  | levelShown level => s!"    Compression level: {level}"

end Event

/-- A value and the events on the way to it. -/
structure Traced (α : Type) where
  value : α
  events : List Event := []

namespace Traced

instance : Monad Traced where
  pure a := { value := a }
  bind x f :=
    let y := f x.value
    { value := y.value, events := x.events ++ y.events }

/-- Reports one event. -/
def report (e : Event) : Traced Unit := { value := (), events := [e] }

variable {α β : Type}

@[simp] theorem value_pure (a : α) : (pure a : Traced α).value = a := rfl

@[simp] theorem events_pure (a : α) : (pure a : Traced α).events = [] := rfl

@[simp] theorem value_bind (x : Traced α) (f : α → Traced β) :
    (x >>= f).value = (f x.value).value := rfl

@[simp] theorem events_bind (x : Traced α) (f : α → Traced β) :
    (x >>= f).events = x.events ++ (f x.value).events := rfl

end Traced

/-- A computation that may fail and reports events whether it fails or not. -/
abbrev Checked (α : Type) := ExceptT Fault Traced α

namespace Checked

/-- Reports one event. -/
def report (e : Event) : Checked Unit := ExceptT.lift (Traced.report e)

/-- A computation that reports nothing. -/
def ofExcept {α : Type} (x : Except Fault α) : Checked α := ExceptT.mk (pure x)

/-- The outcome, without the events. -/
def outcome {α : Type} (x : Checked α) : Except Fault α := x.run.value

end Checked

end PacketStream
