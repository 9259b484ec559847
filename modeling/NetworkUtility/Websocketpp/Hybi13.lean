import NetworkUtility.Lib.Blocks
import NetworkUtility.Websocketpp.Frame
import NetworkUtility.Websocketpp.Utf8

/-! The processor `hybi13` of websocketpp and the loop of `handle_read_frame` around it. The extension
`permessage_deflate` is the disabled one, as in every configuration of the program. -/
namespace NetworkUtility.Websocketpp

/-- The values of `processor::error`. -/
inductive ErrorCode
  | general
  | invalidOpcode
  | controlTooBig
  | invalidRsvBit
  | fragmentedControl
  | invalidContinuation
  | maskingRequired
  | maskingForbidden
  | nonMinimalEncoding
  | messageTooBig
  | invalidUtf8
  | invalidPayload
  | reservedCloseCode
  | invalidCloseCode
  | reasonRequiresCode
  deriving DecidableEq, Repr

/-- `message_buffer::message`. -/
structure Message where
  opcode : Opcode
  payload : Bytes
  fin : Bool
  header : Bytes
  deriving DecidableEq, Repr

/-- `get_message` of the message manager. -/
def Message.empty (op : Opcode) : Message := ⟨op, [], true, []⟩

/-- `msg_metadata`. -/
structure Metadata where
  msgPtr : Option Message
  preparedKey : Nat
  validator : Validator
  deriving DecidableEq, Repr

def Metadata.ofMessage (m : Message) (key : Nat) : Metadata :=
  ⟨some m, prepareMaskingKey key, .init⟩

inductive ReadState
  | headerBasic
  | headerExtended
  | extension
  | application
  | ready
  | fatalError
  deriving DecidableEq, Repr

/-- `hybi13`. `m_current_msg` points to the metadata of the control message iff `currentControl`; it is
set before it is read. -/
structure Processor where
  host : ByteOrder
  server : Bool
  maxMessageSize : Nat
  basicHeader : BasicHeader
  bytesNeeded : Nat
  cursor : Nat
  dataMsg : Metadata
  controlMsg : Metadata
  currentControl : Bool
  extendedHeader : ExtendedHeader
  state : ReadState
  deriving DecidableEq, Repr

namespace Processor

def resetHeaders (p : Processor) : Processor :=
  { p with
    state := .headerBasic
    bytesNeeded := basicHeaderLength
    basicHeader := ⟨0x00, 0x00⟩
    extendedHeader := .empty }

/-- The constructor. -/
def start (host : ByteOrder) (server : Bool) (maxMessageSize : Nat) : Processor :=
  resetHeaders {
    host, server, maxMessageSize
    basicHeader := ⟨0x00, 0x00⟩
    bytesNeeded := 0
    cursor := 0
    dataMsg := ⟨none, 0, .init⟩
    controlMsg := ⟨none, 0, .init⟩
    currentControl := false
    extendedHeader := .empty
    state := .headerBasic }

def currentMsg (p : Processor) : Metadata := if p.currentControl then p.controlMsg else p.dataMsg

def setCurrentMsg (p : Processor) (m : Metadata) : Processor :=
  if p.currentControl then { p with controlMsg := m } else { p with dataMsg := m }

/-- The bytes of `buf` that are taken are counted in the result. -/
def copyBasicHeaderBytes (p : Processor) (buf : Bytes) : Processor × Nat :=
  if p.bytesNeeded = 0 then (p, 0)
  else
    match buf with
    | [] => (p, 0)
    | [c] =>
      if p.bytesNeeded = 2 then
        ({ p with basicHeader.b0 := c, bytesNeeded := p.bytesNeeded - 1 }, 1)
      else ({ p with basicHeader.b1 := c, bytesNeeded := p.bytesNeeded - 1 }, 1)
    | c :: d :: _ =>
      if p.bytesNeeded = 2 then ({ p with basicHeader := ⟨c, d⟩, bytesNeeded := p.bytesNeeded - 2 }, 2)
      else ({ p with basicHeader.b1 := c, bytesNeeded := p.bytesNeeded - 1 }, 1)

def copyExtendedHeaderBytes (p : Processor) (buf : Bytes) : Processor × Nat :=
  let bytesToRead := min p.bytesNeeded buf.length
  ({ p with
      extendedHeader := copyInto p.extendedHeader p.cursor (buf.take bytesToRead)
      cursor := p.cursor + bytesToRead
      bytesNeeded := p.bytesNeeded - bytesToRead }, bytesToRead)

/-- `buf` has the `len` bytes that are to be processed. -/
def processPayloadBytes (p : Processor) (buf : Bytes) : Except ErrorCode Processor :=
  let m := p.currentMsg
  let r := if p.basicHeader.getMasked then byteMaskCirc p.host buf m.preparedKey
    else (buf, m.preparedKey)
  match m.msgPtr with
  | none => .ok p -- not reached: the message is there from the header on
  | some msg =>
    let v := if msg.opcode = .text then m.validator.decode r.1 else (m.validator, true)
    if v.2 then
      .ok { p.setCurrentMsg ⟨some { msg with payload := msg.payload ++ r.1 }, r.2, v.1⟩ with
        bytesNeeded := p.bytesNeeded - buf.length }
    else .error .invalidUtf8

def validateIncomingBasicHeader (h : BasicHeader) (isServer newMsg : Bool) : Option ErrorCode :=
  let op := h.getOpcode
  if op.isControl ∧ payloadSizeBasic < h.getBasicSize then some .controlTooBig
  else if h.getRsv1 then some .invalidRsvBit
  else if h.getRsv2 ∨ h.getRsv3 then some .invalidRsvBit
  else if op.reserved then some .invalidOpcode
  else if op.invalid then some .invalidOpcode
  else if op.isControl ∧ ¬ h.getFin then some .fragmentedControl
  else if newMsg ∧ op = .continuation then some .invalidContinuation
  else if ¬ newMsg ∧ ¬ op.isControl ∧ op ≠ .continuation then some .invalidContinuation
  else if isServer ∧ ¬ h.getMasked then some .maskingRequired
  else if ¬ isServer ∧ h.getMasked then some .maskingForbidden
  else none

def validateIncomingExtendedHeader (o : ByteOrder) (h : BasicHeader) (e : ExtendedHeader) :
    Option ErrorCode :=
  let basicSize := h.getBasicSize
  let payloadSize := getPayloadSize o h e
  if basicSize = payloadSizeCode16bit ∧ payloadSize ≤ payloadSizeBasic then some .nonMinimalEncoding
  else if basicSize = payloadSizeCode64bit ∧ payloadSize ≤ payloadSizeExtended then
    some .nonMinimalEncoding
  else none

/-- `finalize_message`: the test is on the opcode of the frame, not on that of the message. -/
def finalizeMessage (p : Processor) : Except ErrorCode Processor :=
  if p.basicHeader.getOpcode = .text ∧ ¬ p.currentMsg.validator.complete then .error .invalidUtf8
  else .ok { p with state := .ready }

def ready (p : Processor) : Bool := p.state = .ready

def getMessage (p : Processor) : Option Message × Processor :=
  if p.ready then
    let ret := p.currentMsg.msgPtr
    let p := p.setCurrentMsg { p.currentMsg with msgPtr := none }
    let p :=
      if (ret.map fun m => m.opcode.isControl).getD false then
        { p with controlMsg.msgPtr := none }
      else { p with dataMsg.msgPtr := none }
    (ret, p.resetHeaders)
  else (none, p)

/-- In `consume`, when the two bytes of the basic header are there. -/
def basicHeaderRead (p : Processor) : Except ErrorCode Processor :=
  match validateIncomingBasicHeader p.basicHeader p.server (p.dataMsg.msgPtr = none) with
  | some ec => .error ec
  | none => .ok { p with
      state := .headerExtended
      cursor := 0
      bytesNeeded := p.basicHeader.getHeaderLen - basicHeaderLength }

/-- In `consume`, when the header is there: the metadata of the message that the payload goes to. -/
def extendedHeaderRead (p : Processor) : Except ErrorCode Processor :=
  match validateIncomingExtendedHeader p.host p.basicHeader p.extendedHeader with
  | some ec => .error ec
  | none =>
    let size := getPayloadSize p.host p.basicHeader p.extendedHeader
    let key := getMaskingKey p.host p.basicHeader p.extendedHeader
    let op := p.basicHeader.getOpcode
    let p := { p with state := .application, bytesNeeded := size }
    if op.isControl then
      .ok { p with controlMsg := .ofMessage (.empty op) key, currentControl := true }
    else
      match p.dataMsg.msgPtr with
      | none =>
        if p.maxMessageSize < size then .error .messageTooBig
        else .ok { p with dataMsg := .ofMessage (.empty op) key, currentControl := false }
      | some out =>
        -- a sum of two `size_t`
        if p.maxMessageSize < (out.payload.length + size) % 2 ^ 64 then .error .messageTooBig
        else .ok { p with dataMsg.preparedKey := prepareMaskingKey key, currentControl := false }

/-- In `consume`, when the payload of a frame is there. -/
def payloadRead (p : Processor) : Except ErrorCode Processor :=
  if p.basicHeader.getFin then p.finalizeMessage else .ok p.resetHeaders

/-- One round of the loop of `consume`, with what is left of the buffer. -/
def round (p : Processor) (buf : Bytes) : Except ErrorCode (Processor × Bytes) :=
  match p.state with
  | .headerBasic =>
    let r := p.copyBasicHeaderBytes buf
    if 0 < r.1.bytesNeeded then .ok (r.1, buf.drop r.2)
    else r.1.basicHeaderRead.map fun p => (p, buf.drop r.2)
  | .headerExtended =>
    let r := p.copyExtendedHeaderBytes buf
    if 0 < r.1.bytesNeeded then .ok (r.1, buf.drop r.2)
    else r.1.extendedHeaderRead.map fun p => (p, buf.drop r.2)
  | .extension => .ok ({ p with state := .application }, buf)
  | .application =>
    let bytesToProcess := min p.bytesNeeded buf.length
    let r := if 0 < bytesToProcess then p.processPayloadBytes (buf.take bytesToProcess) else .ok p
    r.bind fun p =>
      if 0 < p.bytesNeeded then .ok (p, buf.drop bytesToProcess)
      else p.payloadRead.map fun p => (p, buf.drop bytesToProcess)
  | .ready => .error .general
  | .fatalError => .error .general

/-- The loop of `consume`; every round takes a byte or goes on to the next part of the frame. -/
def consumeLoop : Nat → Processor → Bytes → Except ErrorCode (Processor × Bytes)
  | 0, p, buf => .ok (p, buf)
  | fuel + 1, p, buf =>
    if p.state ≠ .ready ∧ p.state ≠ .fatalError ∧ (buf ≠ [] ∨ p.bytesNeeded = 0) then
      (p.round buf).bind fun r => consumeLoop fuel r.1 r.2
    else .ok (p, buf)

def consume (p : Processor) (buf : Bytes) : Except ErrorCode (Processor × Bytes) :=
  consumeLoop (4 * buf.length + 3) p buf

open Blocks in
/-- The loop of `handle_read_frame`: the messages that are dispatched. After an error the connection
is closed and nothing more is read. -/
def readLoop : Nat → Processor → Bytes → Outcome Processor Message ErrorCode
  | 0, p, _ => ([], .ok p)
  | fuel + 1, p, buf =>
    if buf = [] then ([], .ok p)
    else
      match p.consume buf with
      | .error ec => ([], .error ec)
      | .ok (p, rest) =>
        if p.ready then
          Outcome.andThen (p.getMessage.1.toList, .ok p.getMessage.2) fun p => readLoop fuel p rest
        else readLoop fuel p rest

def handleReadFrame (p : Processor) (buf : Bytes) : Blocks.Outcome Processor Message ErrorCode :=
  readLoop buf.length p buf

open Blocks in
/-- One read after the other. -/
def handleReads : Processor → List Bytes → Outcome Processor Message ErrorCode
  | p, [] => ([], .ok p)
  | p, buf :: bufs => (p.handleReadFrame buf).andThen fun p => handleReads p bufs

/-! ### Sending -/

/-- The header and the masked payload in a message of the manager; `rng` is what the generator
gives. The fin bit goes into the header only. -/
def prepared (p : Processor) (rng : Nat) (op : Opcode) (fin : Bool) (payload : Bytes) : Message :=
  if p.server then
    { Message.empty op with
      payload
      header := prepareHeader (.make op payload.length fin false) (.ofSize p.host payload.length) }
  else
    { Message.empty op with
      payload := byteMask (p.host.store 4 rng) 0 payload
      header := prepareHeader (.make op payload.length fin true)
        (.ofSizeKey p.host payload.length rng) }

def prepareDataFrame (p : Processor) (rng : Nat) (m : Message) : Except ErrorCode Message :=
  if m.opcode.isControl then .error .invalidOpcode
  else if m.opcode = .text ∧ ¬ validate m.payload then .error .invalidPayload
  else .ok (p.prepared rng m.opcode m.fin m.payload)

def prepareControl (p : Processor) (rng : Nat) (op : Opcode) (payload : Bytes) :
    Except ErrorCode Message :=
  if ¬ op.isControl then .error .invalidOpcode
  else if payloadSizeBasic < payload.length then .error .controlTooBig
  else .ok (p.prepared rng op true payload)

def preparePing (p : Processor) (rng : Nat) (payload : Bytes) : Except ErrorCode Message :=
  p.prepareControl rng .ping payload

def preparePong (p : Processor) (rng : Nat) (payload : Bytes) : Except ErrorCode Message :=
  p.prepareControl rng .pong payload

end Processor

/-- `close::status`. -/
def closeReserved (code : Nat) : Bool := (1016 ≤ code && code ≤ 2999) || code == 1004

def closeInvalid (code : Nat) : Bool :=
  code ≤ 999 || 5000 ≤ code || code == 1005 || code == 1006 || code == 1015

def Processor.prepareClose (p : Processor) (rng code : Nat) (reason : Bytes) :
    Except ErrorCode Message :=
  if closeReserved code then .error .reservedCloseCode
  else if closeInvalid code ∧ code ≠ 1005 then .error .invalidCloseCode
  else if code = 1005 ∧ reason ≠ [] then .error .reasonRequiresCode
  else if payloadSizeBasic - 2 < reason.length then .error .controlTooBig
  else
    let payload := if code ≠ 1005 then p.host.store 2 (networkOrder p.host 2 code) ++ reason else []
    p.prepareControl rng .close payload

end NetworkUtility.Websocketpp
