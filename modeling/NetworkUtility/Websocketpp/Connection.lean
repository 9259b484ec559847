import NetworkUtility.Lib.Machine
import NetworkUtility.Websocketpp.Messages

/-! One end of an open connection: the calls of the program's threads, the handlers, which its strand
runs one at a time, and the closing handshake. A step of a thread goes from one access of shared state
to the next; what is done under `m_write_lock` is one step. -/
namespace NetworkUtility.Websocketpp

/-- `session::state`, from the open handshake on. -/
inductive SessionState
  | opened
  | closing
  | closed
  deriving DecidableEq, Repr

/-- A message of `m_send_queue`. What it was prepared from is for the reader only. -/
structure Queued where
  send : Send
  message : Message
  terminal : Bool

def Queued.bytes (q : Queued) : Bytes := q.message.header ++ q.message.payload

/-! ### Close codes -/

/-- `close::status::terminal`. -/
def closeTerminal (code : Nat) : Bool :=
  code == 1002 || code == 1007 || code == 1008 || code == 1009 || code == 1011

/-- `extract_code`: the code and whether there is an error. -/
def extractCode (host : ByteOrder) : Bytes → Nat × Bool
  | [] => (1005, false)
  | [_] => (1002, true)
  | b :: c :: _ =>
    let code := networkOrder host 2 (host.load [b, c])
    (code, closeInvalid code || closeReserved code)

/-- `extract_reason`. -/
def extractReason (payload : Bytes) : Bytes × Bool :=
  let reason := payload.drop 2
  (reason, !validate reason)

/-- `message` of the category of the processor's errors. -/
def ErrorCode.message : ErrorCode → String
  | general => "Generic processor error"
  | invalidOpcode => "invalid opcode"
  | controlTooBig => "Control messages are limited to fewer than 125 characters"
  | invalidRsvBit => "Invalid use of reserved bits"
  | fragmentedControl => "Control messages cannot be fragmented"
  | invalidContinuation => "Invalid message continuation"
  | maskingRequired => "Clients may not send unmasked frames"
  | maskingForbidden => "Servers may not send masked frames"
  | nonMinimalEncoding => "Payload length was not minimally encoded"
  | messageTooBig => "A message was too large"
  | invalidUtf8 => "Invalid UTF8 encoding"
  | invalidPayload => "A payload contained invalid data"
  | reservedCloseCode => "Reserved close code used"
  | invalidCloseCode => "Invalid close code used"
  | reasonRequiresCode => "Using a close reason requires a valid close code"

/-- `to_ws`. -/
def ErrorCode.toWs : ErrorCode → Nat
  | controlTooBig | invalidOpcode | invalidRsvBit | fragmentedControl | invalidContinuation
  | maskingRequired | maskingForbidden | reservedCloseCode | invalidCloseCode => 1002
  | invalidPayload | invalidUtf8 => 1007
  | messageTooBig => 1009
  | _ => 1011

def text (s : String) : Bytes := s.toUTF8.toList

/-! ### The queue of a connection -/

/-- `writing` has what is left of each outstanding `async_write`, and `posted` counts the `write_frame`
that are dispatched. `pushed`, `popped` and `written` are history: what has gone into the queue and out
of it, and the bytes that the socket has taken. -/
structure Writer where
  sendQueue : List Queued
  sendBufferSize : Nat
  writeFlag : Bool
  currentMsgs : List Queued
  writing : List Bytes
  posted : Nat
  pushed : List Queued
  popped : List Queued
  written : Bytes

namespace Writer

def start : Writer := ⟨[], 0, false, [], [], 0, [], [], []⟩

/-- `write_push`, and what is dispatched behind it. -/
def push (w : Writer) (q : Queued) : Writer :=
  { w with
    sendQueue := w.sendQueue ++ [q]
    sendBufferSize := w.sendBufferSize + q.message.payload.length
    posted := if w.writeFlag then w.posted else w.posted + 1
    pushed := w.pushed ++ [q] }

/-- The loop of `write_pop`, which stops behind a terminal message: what is taken, and what is left. -/
def popLoop : List Queued → List Queued × List Queued
  | [] => ([], [])
  | q :: more => if q.terminal then ([q], more) else (q :: (popLoop more).1, (popLoop more).2)

/-- The sizes of the payloads. -/
def bufferSize (l : List Queued) : Nat := (l.map fun q => q.message.payload.length).sum

def writeFrame (w : Writer) : Writer :=
  if w.writeFlag then w
  else
    let r := popLoop w.sendQueue
    let w := { w with
      sendQueue := r.2
      sendBufferSize := w.sendBufferSize - bufferSize r.1
      currentMsgs := w.currentMsgs ++ r.1
      popped := w.popped ++ r.1 }
    if w.currentMsgs = [] then w
    else { w with
      writeFlag := true
      writing := w.writing ++ [w.currentMsgs.flatMap Queued.bytes] }

/-- The socket takes `n` bytes of a write. -/
def transfer (w : Writer) (i n : Nat) : Option Writer :=
  (w.writing[i]?).bind fun rest =>
    if n ≤ rest.length then
      some { w with writing := w.writing.set i (rest.drop n), written := w.written ++ rest.take n }
    else none

/-- `handle_write_frame`, and whether it terminates the connection. A write completes without an error
when nothing is left of it. -/
def handleWriteFrame (w : Writer) (i : Nat) (err : Bool) : Option (Writer × Bool) :=
  (w.writing[i]?).bind fun rest =>
    if err = false ∧ rest ≠ [] then none
    else
      let terminal := (w.currentMsgs.getLast?.map Queued.terminal).getD false
      let w := { w with currentMsgs := [], writing := w.writing.eraseIdx i }
      if err ∨ terminal then some (w, true)
      else some ({ w with
        writeFlag := false
        posted := if w.sendQueue = [] then w.posted else w.posted + 1 }, false)

end Writer

/-! ### The connection -/

/-- A call of `close` of one of the program's threads, which holds `m_connection_state_lock`. -/
inductive Closer
  | send (code : Nat) (reason : Bytes)
  | push (q : Queued)

/-- Where the strand is: between two handlers, or in `handle_read_frame` with the rest of the buffer: in
its loop, with a control frame, in `pong`, behind the codes of a close frame, in `send_close_ack`, in
front of a `write_push`; or with an error of `consume`, and in the `close` that follows. -/
inductive Strand
  | idle
  | frames (rest : Bytes)
  | control (m : Message) (rest : Bytes)
  | pong (payload rest : Bytes)
  | close (rest : Bytes)
  | ack (code : Nat) (reason rest : Bytes)
  | push (q : Queued) (rest : Bytes)
  | failed (ec : ErrorCode)
  | failedSend (code : Nat) (reason : Bytes)
  | failedPush (q : Queued)

/-- The part of the buffer that has not been consumed. -/
def Strand.rest : Strand → Bytes
  | frames rest | control _ rest | pong _ rest | close rest | ack _ _ rest | push _ rest => rest
  | _ => []

/-- The call of `close` behind an error holds `m_connection_state_lock`. -/
def Strand.locks : Strand → Bool
  | failedSend _ _ | failedPush _ => true
  | _ => false

/-- `calls` are the calls of `send`, `ping` and `pong` that have found the connection open. `reading`
says that there is an `async_read` and `shutdowns` counts the `async_shutdown`; `handshakeTimer` says that
the timer runs, and `oldTimers` counts those that run although another has taken their place. The rest is
history: the bytes `taken`, the messages `processed` and those `handed` to the message handler, and
`graceful`, that a close frame has found the connection open. -/
structure Connection extends Writer where
  processor : Processor
  state : SessionState
  localClose : Nat × Bytes
  remoteClose : Nat × Bytes
  wasClean : Bool
  handshakeTimer : Bool
  oldTimers : Nat
  closer : Option Closer
  calls : List Send
  strand : Strand
  reading : Bool
  shutdowns : Nat
  taken : Bytes
  processed : List Message
  handed : List Message
  graceful : Bool

namespace Connection

/-- Behind the opening handshake, with the first read of frames. -/
def start (host : ByteOrder) (server : Bool) (maxMessageSize : Nat) : Connection where
  processor := .start host server maxMessageSize
  state := .opened
  toWriter := .start
  localClose := (1006, [])
  remoteClose := (1006, [])
  wasClean := false
  handshakeTimer := false
  oldTimers := 0
  closer := none
  calls := []
  strand := .idle
  reading := true
  shutdowns := 0
  taken := []
  processed := []
  handed := []
  graceful := false

/-- `m_connection_state_lock` is held by a call of `close`. -/
def locked (c : Connection) : Bool := c.closer.isSome || c.strand.locks

/-- `terminate`, with the message of the error if there is one. -/
def terminate (err : Option Bytes) (c : Connection) : Connection :=
  let c := { c with
    handshakeTimer := false
    localClose := (err.map fun message => (1006, message)).getD c.localClose }
  if c.state = .closed then c else { c with state := .closed, shutdowns := c.shutdowns + 1 }

def push (c : Connection) (q : Queued) : Connection := { c with toWriter := c.toWriter.push q }

/-! ### Closing -/

/-- The code and the reason that `send_close_frame` sends; 0 is `blank`. -/
def closeWith (c : Connection) (code : Nat) (reason : Bytes) (ack : Bool) : Nat × Bytes :=
  if code ≠ 0 then (code, reason)
  else if ack = false then (1005, [])
  else if c.remoteClose.1 = 1005 then (1000, [])
  else c.remoteClose

/-- `send_close_frame` up to its `write_push`: the message, or why it cannot be prepared. -/
def sendCloseFrame (c : Connection) (rng code : Nat) (reason : Bytes) (ack terminal : Bool) :
    Except ErrorCode Queued × Connection :=
  let l := c.closeWith code reason ack
  match c.processor.prepareClose rng l.1 l.2 with
  | .error ec => (.error ec, { c with localClose := l })
  | .ok m => (.ok ⟨.close rng l.1 l.2, m, terminal⟩, { c with
      localClose := l
      state := .closing
      wasClean := c.wasClean || ack
      handshakeTimer := true
      oldTimers := if c.handshakeTimer then c.oldTimers + 1 else c.oldTimers })

/-! ### Reading -/

/-- A round of the loop of `handle_read_frame`, or its end. -/
def readRound (c : Connection) (rest : Bytes) : Connection :=
  if rest = [] then { c with strand := .idle, reading := true }
  else
    match c.processor.consume rest with
    | .error ec => { c with strand := .failed ec }
    | .ok (p, rest) =>
      match p.getMessage with
      | (none, p) => { c with processor := p, strand := .frames rest }
      | (some m, p) =>
        if m.opcode.isControl then
          { c with processor := p, strand := .control m rest, processed := c.processed ++ [m] }
        else
          { c with
            processor := p
            strand := .frames rest
            processed := c.processed ++ [m]
            handed := if c.state = .opened then c.handed ++ [m] else c.handed }

/-- `process_control_frame` up to what it does about the frame. There is no ping handler. -/
def processControlFrame (c : Connection) (m : Message) (rest : Bytes) : Connection :=
  if c.state = .closed ∨ m.opcode ≠ .close ∧ c.state ≠ .opened then { c with strand := .frames rest }
  else
    match m.opcode with
    | .ping => { c with strand := .pong m.payload rest }
    | .close =>
      let code := extractCode c.processor.host m.payload
      if code.2 then
        { c with
          remoteClose := (code.1, c.remoteClose.2)
          strand := .ack 1002 (text "Invalid close code") rest }
      else
        let reason := extractReason m.payload
        { c with
          remoteClose := (code.1, reason.1)
          strand := if reason.2 then .ack 1002 (text "Invalid close reason") rest else .close rest }
    | _ => { c with strand := .frames rest }

/-- Behind the codes of a close frame: it asks for an answer, or it is one. -/
def closeReceived (c : Connection) (rest : Bytes) : Connection :=
  if c.state = .opened then { c with strand := .ack 0 [] rest, graceful := true }
  else if c.state = .closing ∧ c.wasClean = false then
    let c := { c with wasClean := true, strand := .frames rest }
    if c.processor.server then c.terminate none else c
  else { c with strand := .frames rest }

/-- The next step of the handler that the strand is in; `rng` is what the generator gives. -/
def strandStep (c : Connection) (rng : Nat) : Option Connection :=
  match c.strand with
  | .idle => none
  | .frames rest => some (c.readRound rest)
  | .control m rest => some (c.processControlFrame m rest)
  | .pong payload rest =>
    if c.locked then none
    else if c.state ≠ .opened then some { c with strand := .frames rest }
    else
      match c.processor.preparePong rng payload with
      | .error _ => some { c with strand := .frames rest }
      | .ok m => some { c with strand := .push ⟨.pong rng payload, m, false⟩ rest }
  | .close rest => some (c.closeReceived rest)
  | .ack code reason rest =>
    match c.sendCloseFrame rng code reason true c.processor.server with
    | (.error _, c) => some { c with strand := .frames rest }
    | (.ok q, c) => some { c with strand := .push q rest }
  | .push q rest => some { c.push q with strand := .frames rest }
  | .failed ec =>
    if c.locked then none
    else if c.state ≠ .opened then some { c.terminate (some (text "invalid state")) with strand := .idle }
    else some { c with strand := .failedSend ec.toWs (text ec.message) }
  | .failedSend code reason =>
    match c.sendCloseFrame rng code (reason.take 123) false (closeTerminal code) with
    | (.error ec, c) => some { c.terminate (some (text ec.message)) with strand := .idle }
    | (.ok q, c) => some { c with strand := .failedPush q }
  | .failedPush q => some { c.push q with strand := .idle }

/-- `handle_read_frame` with an error. -/
def readError (eof : Bool) (message : Bytes) (c : Connection) : Connection :=
  let c := { c with reading := false }
  if eof ∧ c.state = .closed then c
  else if eof ∧ c.state = .closing ∧ c.processor.server = false then c.terminate none
  else c.terminate (some message)

end Connection

/-- What happens at one end: a call of `send`, `ping` or `pong` finds the connection open and then
pushes its message; one of `close` finds it open, prepares its frame and pushes it; `terminate` is
called; a read completes; the strand takes a step, or starts a `write_frame` or another handler; the
socket takes some bytes of a write. -/
inductive Action
  | call (s : Send)
  | push (i : Nat)
  | callClose (code : Nat) (reason : Bytes)
  | closeSend (rng : Nat)
  | closePush
  | terminate (err : Option Bytes)
  | read (data : Bytes)
  | readError (eof : Bool) (message : Bytes)
  | strand (rng : Nat)
  | writeFrame
  | transfer (i n : Nat)
  | written (i : Nat) (err : Option Bytes)
  | timeout (old : Bool)
  | shutdown

def Send.isClose : Send → Bool
  | close _ _ _ => true
  | _ => false

namespace Connection

/-- The strand is between two handlers. -/
def idle (c : Connection) : Bool :=
  match c.strand with
  | .idle => true
  | _ => false

/-- Calls that fail change nothing and are no steps. -/
def step (c : Connection) : Action → Option Connection
  | .call s =>
    if c.locked = false ∧ c.state = .opened ∧ s.isClose = false then
      some { c with calls := c.calls ++ [s] }
    else none
  | .push i =>
    (c.calls[i]?).map fun s =>
      let c := { c with calls := c.calls.eraseIdx i }
      match s.prepare c.processor with
      | .error _ => c
      | .ok m => c.push ⟨s, m, false⟩
  | .callClose code reason =>
    if c.locked = false ∧ c.state = .opened then
      some { c with closer := some (.send code (reason.take 123)) }
    else none
  | .closeSend rng =>
    match c.closer with
    | some (.send code reason) =>
      match c.sendCloseFrame rng code reason false (closeTerminal code) with
      | (.error _, c) => some { c with closer := none }
      | (.ok q, c) => some { c with closer := some (.push q) }
    | _ => none
  | .closePush =>
    match c.closer with
    | some (.push q) => some { c.push q with closer := none }
    | _ => none
  | .terminate err => some (c.terminate err)
  | .read data =>
    if c.idle ∧ c.reading ∧ data ≠ [] then
      some { c with strand := .frames data, reading := false, taken := c.taken ++ data }
    else none
  | .readError eof message => if c.idle ∧ c.reading then some (c.readError eof message) else none
  | .strand rng => c.strandStep rng
  | .writeFrame =>
    if c.idle ∧ 0 < c.posted then
      some { c with toWriter := { c.toWriter with posted := c.posted - 1 }.writeFrame }
    else none
  | .transfer i n => (c.toWriter.transfer i n).map fun w => { c with toWriter := w }
  | .written i err =>
    if c.idle then
      (c.toWriter.handleWriteFrame i err.isSome).map fun r =>
        if r.2 then { c with toWriter := r.1 }.terminate err else { c with toWriter := r.1 }
    else none
  | .timeout old =>
    let message := text "The closing handshake timed out"
    if old then
      if c.idle ∧ 0 < c.oldTimers then
        some ({ c with oldTimers := c.oldTimers - 1 }.terminate (some message))
      else none
    else if c.idle ∧ c.handshakeTimer then some (c.terminate (some message))
    else none
  | .shutdown => if c.idle ∧ 0 < c.shutdowns then some { c with shutdowns := c.shutdowns - 1 } else none

end Connection

end NetworkUtility.Websocketpp
