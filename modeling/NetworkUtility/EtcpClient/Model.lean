import Mathlib.Logic.Function.Basic
import NetworkUtility.Lib.Machine
import NetworkUtility.Lib.Scan
import NetworkUtility.Etcp.Message

/-! `EtcpClientImpl` with its io_context, its socket and the network. A handler runs to its end on
the io thread; what a callback posts is the same as what a thread posts right before or after the
handler. The sink is not null: without one there are no callbacks to speak of. -/
namespace NetworkUtility.EtcpClient

open Etcp Scan

inductive Error
  | aborted
  | badDescriptor
  | eof
  | other (code : Nat)
  deriving DecidableEq, Repr

/-- The operations of the source: `async_connect`, the `async_write` and `async_read_until` of
`do_proxy`, the `async_write` of `do_write`, and the two `async_read` of `do_read`. -/
inductive Op
  | connect
  | proxyWrite
  | proxyRead
  | write
  | readHead
  | readBody
  deriving DecidableEq, Repr

/-- The calls of `async_write`. -/
def Op.writes (op : Op) : Bool := op == .proxyWrite || op == .write

inductive Result
  | success (len : Nat)
  | failure (err : Error)
  deriving DecidableEq, Repr

/-- What the io thread can run. A ticket numbers the calls of `asio::post`; `conn` is the socket
that the operation was started on, by the `real_connect` that opened it. No code reads either. -/
inductive Handler
  | doConnect (ticket : Nat)
  | doClose (ticket : Nat)
  | sendMessage (ticket : Nat) (pack : Bytes)
  | complete (conn : Nat) (op : Op) (res : Result)
  deriving DecidableEq, Repr

/-- An operation that waits in the reactor: what a write has still to send, and how many bytes the
operation has moved. The composed operations of asio move their bytes in parts, each queued by
itself; between two parts the operation counts as waiting. -/
structure Pending where
  op : Op
  data : Bytes
  done : Nat
  deriving DecidableEq, Repr

/-- A call of the interface that has read `is_connected()` and has posts left to make. -/
inductive Call
  | closeAndConnect
  | connect
  | close
  | send (pack : Bytes)
  deriving DecidableEq, Repr

inductive Callback
  | connect
  | close
  | error (action message : String)
  | recv (packet : Bytes)
  deriving DecidableEq, Repr

/-- `m_socket`. Only `isOpen` is the code's; `conn` counts the sockets, `established` is TCP's,
and the last two are history: the 2xx response was read, a write failed by itself. -/
structure Socket where
  conn : Nat
  isOpen : Bool
  established : Bool
  tunneled : Bool
  broken : Bool
  deriving DecidableEq, Repr

/-- What closing a socket does to completions of its operations that are queued already: they run
as they are, or get operation_aborted, in their place or at the end of the queue. -/
inductive Closing
  | keep
  | revoke
  | requeue
  deriving DecidableEq, Repr

structure Env where
  order : ByteOrder
  closing : Closing
  message : Error → String

/-- The members of the class, then the io_context, then history: the ticket of each `real_connect`,
the connection whose handler last cleared `m_closed`, the packets accepted, the bytes each
connection sent and received, those handed to `async_write` on it, the callbacks with the
connection they are about, and the handlers of operations that were aborted between two parts. -/
structure State where
  running : Bool
  closed : Bool
  request : Bytes
  response : Bytes
  socket : Socket
  recvHead : Bytes
  recvData : Bytes
  sendDataList : List Bytes
  calls : List Call
  tickets : Nat
  ready : List Handler
  pending : List Pending
  born : Nat → Nat
  owner : Nat
  accepted : List (Nat × Bytes)
  sent : Nat → Bytes
  received : Nat → Bytes
  handed : Nat → Bytes
  log : List (Nat × Callback)
  torn : List Handler

/-- After a successful `init`. -/
def initial (request : Bytes) : State where
  running := true
  closed := true
  request := request
  response := []
  socket := ⟨0, false, false, false, false⟩
  recvHead := List.replicate 6 0
  recvData := []
  sendDataList := []
  calls := []
  tickets := 1
  ready := []
  pending := []
  born := fun _ => 0
  owner := 0
  accepted := []
  sent := fun _ => []
  received := fun _ => []
  handed := fun _ => []
  log := []
  torn := []

/-- `sscanf(data, "HTTP/%f %d", ..)`: what stands behind the data is taken to be no digit. -/
def httpStatus (data : Bytes) : Int :=
  match scanLiteral [72, 84, 84, 80, 47] data with
  | none => 0
  | some rest =>
    match scanFloat rest with
    | none => 0
    | some rest =>
      match scanInt rest with
      | none => 0
      | some (status, _) => status

def succeeded (status : Int) : Bool := status.tdiv 100 == 2

namespace Handler

/-- The completion belongs to connection `k`. -/
def isOf (k : Nat) : Handler → Bool
  | .complete conn _ _ => conn == k
  | _ => false

def revoked (k : Nat) : Handler → Handler
  | .complete conn op res => .complete conn op (if conn = k then .failure .aborted else res)
  | h => h

end Handler

def Closing.settle (c : Closing) (k : Nat) (ready : List Handler) : List Handler :=
  match c with
  | .keep => ready
  | .revoke => ready.map (Handler.revoked k)
  | .requeue =>
    ready.filter (! Handler.isOf k ·) ++ (ready.filter (Handler.isOf k)).map (Handler.revoked k)

namespace State

/-- An operation on a closed socket fails at once, through the queue. -/
def start (s : State) (op : Op) (data : Bytes) : State :=
  { s with
    pending := if s.socket.isOpen then s.pending ++ [⟨op, data, 0⟩] else s.pending
    ready :=
      if s.socket.isOpen then s.ready
      else s.ready ++ [.complete s.socket.conn op (.failure .badDescriptor)] }

/-- An open socket is closed: what waits on it is aborted and queued. An operation that has moved a
part is aborted whole, and noted: the success of the part, if it is queued by now, does not go on
as long as the socket stays closed. -/
def release (c : Closing) (s : State) : State :=
  { s with
    torn :=
      if s.socket.isOpen then
        s.torn ++ (s.pending.filter (·.done ≠ 0)).map fun p =>
          .complete s.socket.conn p.op (.failure .aborted)
      else s.torn
    ready :=
      if s.socket.isOpen then
        c.settle s.socket.conn s.ready ++
          s.pending.map fun p => .complete s.socket.conn p.op (.failure .aborted)
      else s.ready
    pending := if s.socket.isOpen then [] else s.pending
    socket := { s.socket with isOpen := false } }

def onConnect (s : State) (conn : Nat) : State := { s with log := s.log ++ [(conn, .connect)] }

def onClose (s : State) : State :=
  { s with
    log := if s.closed then s.log else s.log ++ [(s.owner, .close)]
    closed := true }

def onError (s : State) (conn : Nat) (action message : String) : State :=
  { s with log := s.log ++ [(conn, .error action message)] }

def isConnected (s : State) : Bool := s.socket.isOpen

def realClose (e : Env) (s : State) : State := s.release e.closing

/-- The assignment to `m_socket` closes the old socket. -/
def realConnect (e : Env) (s : State) (ticket : Nat) : State :=
  let s := s.release e.closing
  let s := { s with
    socket := ⟨s.socket.conn + 1, true, false, false, false⟩
    born := Function.update s.born (s.socket.conn + 1) ticket }
  s.start .connect []

def doRead (s : State) : State := s.start .readHead []

/-- An `async_write` of the whole buffer. -/
def startWrite (s : State) (op : Op) (data : Bytes) : State :=
  let handed := s.handed s.socket.conn ++ data
  { s with handed := Function.update s.handed s.socket.conn handed }.start op data

def doWrite (s : State) : State :=
  match s.sendDataList with
  | [] => s
  | data :: _ => s.startWrite .write data

def doProxy (s : State) : State := s.startWrite .proxyWrite s.request

/-- `async_read_until` first searches what `m_response` already holds. -/
def readUntil (s : State) : State :=
  match endOfHead s.response with
  | some len =>
    { s with ready := s.ready ++ [.complete s.socket.conn .proxyRead (.success len)] }
  | none => s.start .proxyRead []

/-- The lambda of `do_close`. -/
def runClose (e : Env) (s : State) : State :=
  if s.isConnected then (s.realClose e).onClose else s

/-- The lambda of `send_message`. -/
def runSend (e : Env) (s : State) (pack : Bytes) : State :=
  if s.socket.isOpen then
    let s := { s with sendDataList := pushMessage e.order s.sendDataList pack }
    if 2 = s.sendDataList.length then s.doWrite else s
  else s

def onConnected (e : Env) (s : State) (conn : Nat) (res : Result) : State :=
  let s := { s with closed := false, owner := conn }
  match res with
  | .failure err => (s.onError conn "connect" (e.message err)).onClose
  | .success _ => if s.request ≠ [] then s.doProxy else s.doRead.onConnect conn

def onProxyWritten (e : Env) (s : State) (conn : Nat) : Result → State
  | .failure err =>
    ((s.onError conn "connect" ("http proxy send request error: " ++ e.message err)).realClose e).onClose
  | .success _ => s.readUntil

def onProxyRead (e : Env) (s : State) (conn : Nat) : Result → State
  | .failure err =>
    ((s.onError conn "connect" ("http proxy recv request error: " ++ e.message err)).realClose e).onClose
  | .success len =>
    let status := httpStatus s.response
    let s := { s with response := s.response.drop len }
    if succeeded status then
      { s with socket := { s.socket with tunneled := true } }.doRead.onConnect conn
    else
      ((s.onError conn "connect" ("http proxy recv response status: " ++ toString status)).realClose
        e).onClose

def onWritten (s : State) : Result → State
  | .failure _ => { s with sendDataList := [] }
  | .success _ =>
    let s := { s with sendDataList := s.sendDataList.tail }
    if s.sendDataList ≠ [] then s.doWrite else s

def onReadHead (e : Env) (s : State) (conn : Nat) : Result → State
  | .failure _ => s.onClose
  | .success _ =>
    let s' := { s with recvHead := EtcpHeader.decode e.order s.recvHead }
    match checkHead e.order s.recvHead with
    | .badSign => ((s'.onError conn "recv" "protocol sign check failed").realClose e).onClose
    | .empty => s'.doRead
    | .body n => { s' with recvData := resize s.recvData n }.start .readBody []

/-- The sink takes the packet out of `m_recv_data`. -/
def onReadBody (s : State) (conn : Nat) : Result → State
  | .failure _ => s.onClose
  | .success len =>
    let packet := if s.recvData.length ≠ len then resize s.recvData len else s.recvData
    { s.doRead with recvData := [], log := s.log ++ [(conn, .recv packet)] }

def onComplete (e : Env) (s : State) (conn : Nat) (op : Op) (res : Result) : State :=
  match op with
  | .connect => s.onConnected e conn res
  | .proxyWrite => s.onProxyWritten e conn res
  | .proxyRead => s.onProxyRead e conn res
  | .write => s.onWritten res
  | .readHead => s.onReadHead e conn res
  | .readBody => s.onReadBody conn res

def runHandler (e : Env) (s : State) : Handler → State
  | .doConnect ticket => s.realConnect e ticket
  | .doClose _ => s.runClose e
  | .sendMessage _ pack => s.runSend e pack
  | .complete conn op res => s.onComplete e conn op res

def post (s : State) (h : Nat → Handler) : State :=
  { s with ready := s.ready ++ [h s.tickets], tickets := s.tickets + 1 }

/-- The reactor has completed an operation of the socket: its handler is queued. -/
def finish (s : State) (i : Nat) (op : Op) (res : Result) : State :=
  { s with
    pending := s.pending.eraseIdx i
    ready := s.ready ++ [.complete s.socket.conn op res] }

/-- The operation goes on, or is complete when nothing is left to move. -/
def progress (s : State) (i : Nat) (p : Pending) (whole : Option Nat) : State :=
  match whole with
  | some len => s.finish i p.op (.success len)
  | none => { s with pending := s.pending.set i p }

end State

inductive Action
  | callConnect
  | callClose
  | callSend (pack : Bytes)
  | post (i : Nat)
  | run
  | connected (i : Nat)
  | transfer (i n : Nat)
  | receive (i : Nat) (bytes : Bytes)
  | fail (i : Nat) (err : Error)
  deriving Repr

namespace State

/-- The next `asio::post` of a call. -/
def stepCall (s : State) (i : Nat) : Call → State
  | .closeAndConnect => { s with calls := s.calls.set i .connect }.post .doClose
  | .connect => { s with calls := s.calls.eraseIdx i }.post .doConnect
  | .close => { s with calls := s.calls.eraseIdx i }.post .doClose
  | .send pack =>
    { s with
      calls := s.calls.eraseIdx i
      accepted := s.accepted ++ [(s.tickets, pack)] }.post (.sendMessage · pack)

/-- The network takes the next bytes of a write. -/
def transfer (s : State) (i : Nat) (p : Pending) (n : Nat) : State :=
  let bytes := p.data.take n
  let p' : Pending := { p with data := p.data.drop n, done := p.done + bytes.length }
  { s with sent := Function.update s.sent s.socket.conn (s.sent s.socket.conn ++ bytes) }.progress i p'
    (if p'.data = [] then some p'.done else none)

/-- The network brings bytes for a read. -/
def receive (s : State) (i : Nat) (p : Pending) (bytes : Bytes) : Option State :=
  let p' : Pending := { p with done := p.done + bytes.length }
  let s := { s with
    received := Function.update s.received s.socket.conn (s.received s.socket.conn ++ bytes) }
  match p.op with
  | .readHead =>
    if p'.done ≤ s.recvHead.length then
      some ({ s with recvHead := fill s.recvHead p.done bytes }.progress i p'
        (if p'.done = s.recvHead.length then some p'.done else none))
    else none
  | .readBody =>
    if p'.done ≤ s.recvData.length then
      some ({ s with recvData := fill s.recvData p.done bytes }.progress i p'
        (if p'.done = s.recvData.length then some p'.done else none))
    else none
  | .proxyRead =>
    some ({ s with response := s.response ++ bytes }.progress i p' (endOfHead (s.response ++ bytes)))
  | _ => none

end State

/-- One step of a caller, of the io thread or of the network. -/
def step (e : Env) (s : State) : Action → Option State
  | .callConnect =>
    if s.running then
      some { s with calls := s.calls ++ [if s.isConnected then .closeAndConnect else .connect] }
    else none
  | .callClose => if s.running then some { s with calls := s.calls ++ [.close] } else none
  | .callSend pack =>
    if s.running ∧ s.isConnected ∧ pack ≠ [] then some { s with calls := s.calls ++ [.send pack] }
    else none
  | .post i => (s.calls[i]?).map (s.stepCall i)
  | .run =>
    match s.ready with
    | [] => none
    | h :: rest => some ({ s with ready := rest }.runHandler e h)
  | .connected i =>
    match s.pending[i]? with
    | some p =>
      if p.op = .connect then
        some ({ s with socket := { s.socket with established := true } }.finish i .connect (.success 0))
      else none
    | none => none
  | .transfer i n =>
    match s.pending[i]? with
    | some p =>
      if p.op.writes ∧ s.socket.established ∧ p.data.take n ≠ [] then some (s.transfer i p n)
      else none
    | none => none
  | .receive i bytes =>
    match s.pending[i]? with
    | some p => if s.socket.established ∧ bytes ≠ [] then s.receive i p bytes else none
    | none => none
  | .fail i err =>
    match s.pending[i]? with
    | some p =>
      some ({ s with socket := { s.socket with broken := s.socket.broken || p.op == Op.write } }.finish i
        p.op (.failure err))
    | none => none

end NetworkUtility.EtcpClient
