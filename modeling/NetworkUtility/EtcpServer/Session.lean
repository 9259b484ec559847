import NetworkUtility.Lib.Machine
import NetworkUtility.Etcp.Message

/-! `EtcpSession` with the tasks of its own io_context, the accept handler of the server and the
network. The accept handler and the tasks are on different threads, if there is more than one; what
the io_context has queued may run in any order. The sink is not null. -/
namespace NetworkUtility.EtcpServer

open Etcp

inductive Error
  | aborted
  | badDescriptor
  | eof
  | other (code : Nat)
  deriving DecidableEq, Repr

/-- The operations of the source: the `async_write` of `do_write` and the two `async_read` of
`do_read`. -/
inductive Op
  | write
  | readHead
  | readBody
  deriving DecidableEq, Repr

def Op.reads (op : Op) : Bool := op != .write

inductive Result
  | success (len : Nat)
  | failure (err : Error)
  deriving DecidableEq, Repr

/-- What the thread of the session's io_context can run. -/
inductive Task
  | doClose
  | sendMessage (pack : Bytes)
  | complete (op : Op) (res : Result)
  deriving DecidableEq, Repr

/-- An operation that waits in the reactor: what a write has still to send, and how many bytes the
operation has moved. -/
structure Pending where
  op : Op
  data : Bytes
  done : Nat
  deriving DecidableEq, Repr

/-- A call of a user that has passed its test and has a post left to make. -/
inductive Call
  | close
  | send (pack : Bytes)
  deriving DecidableEq, Repr

inductive Callback
  | accept
  | close
  | error (action message : String)
  | recv (packet : Bytes)
  deriving DecidableEq, Repr

/-- Where the accept handler is: the operation is outstanding, has completed, or the handler is about
to call `on_etcp_accept`, to append the session, to call `do_read` or to call `do_accept`. While
`on_etcp_accept` is running the handler is at `append`. -/
inductive Accept
  | waiting
  | completed (ok : Bool)
  | callback
  | append
  | read
  | again
  | finished
  deriving DecidableEq, Repr

/-- Where `on_close` is, behind the test of `m_closed`: about to call `on_etcp_close` or to remove the
session. -/
inductive Closing
  | idle
  | callback
  | remove
  deriving DecidableEq, Repr

/-- The members of the class, then the threads, then the users' pointers and calls, the io_context and
the reactor, then history: close() has posted a task, the packets queued, the bytes written and the
callbacks. -/
structure Session where
  closed : Bool
  isOpen : Bool
  recvHead : Bytes
  recvData : Bytes
  sendDataList : List Bytes
  accept : Accept
  closing : Closing
  kept : Bool
  calls : List Call
  ready : List Task
  pending : List Pending
  told : Bool
  queued : List Bytes
  written : Bytes
  log : List Callback
  deriving DecidableEq, Repr

namespace Session

/-- After the constructor, with `async_accept` outstanding. -/
def initial : Session where
  closed := true
  isOpen := false
  recvHead := List.replicate 6 0
  recvData := []
  sendDataList := []
  accept := .waiting
  closing := .idle
  kept := false
  calls := []
  ready := []
  pending := []
  told := false
  queued := []
  written := []
  log := []

/-- An operation on a closed socket fails at once, through the queue. -/
def start (s : Session) (op : Op) (data : Bytes) : Session :=
  { s with
    pending := if s.isOpen then s.pending ++ [⟨op, data, 0⟩] else s.pending
    ready := if s.isOpen then s.ready else s.ready ++ [.complete op (.failure .badDescriptor)] }

/-- An open socket is closed: what waits on it is aborted and queued, and what is queued runs as it
is. -/
def release (s : Session) : Session :=
  { s with
    ready :=
      if s.isOpen then s.ready ++ s.pending.map fun p => .complete p.op (.failure .aborted)
      else s.ready
    pending := if s.isOpen then [] else s.pending
    isOpen := false }

/-- The post of `do_close`. -/
def doClose (s : Session) : Session := { s with ready := s.ready ++ [.doClose], told := true }

/-- `close` when nothing comes between its test and its post. -/
def close (s : Session) : Session := if s.closed then s else s.doClose

/-- `send_message`, which also posts a task when it returns true. -/
def sendMessage (s : Session) (pack : Bytes) : Bool := s.isOpen && pack ≠ []

/-- The first half of `on_accept`. -/
def onAccept (s : Session) : Session :=
  { s with closed := false, accept := if s.closed then .callback else .read }

/-- The test of `on_close`. -/
def onClose (s : Session) : Session :=
  { s with closed := true, closing := if s.closed then s.closing else .callback }

def onError (s : Session) (action message : String) : Session :=
  { s with log := s.log ++ [.error action message] }

def doRead (s : Session) : Session := s.start .readHead []

def doWrite (s : Session) : Session :=
  match s.sendDataList with
  | [] => s
  | data :: _ => s.start .write data

/-- The lambda of `do_close`, up to the test of `on_close`. -/
def runClose (s : Session) : Session := s.release.onClose

/-- The lambda of `send_message`. -/
def runSend (o : ByteOrder) (s : Session) (pack : Bytes) : Session :=
  if s.isOpen then
    let s := { s with
      sendDataList := pushMessage o s.sendDataList pack
      queued := s.queued ++ [pack] }
    if 2 = s.sendDataList.length then s.doWrite else s
  else s

def onWritten (s : Session) : Result → Session
  | .failure _ => { s with sendDataList := [] }
  | .success _ =>
    let s := { s with sendDataList := s.sendDataList.tail }
    if s.sendDataList ≠ [] then s.doWrite else s

def onReadHead (o : ByteOrder) (s : Session) : Result → Session
  | .failure _ => s.onClose
  | .success _ =>
    let s' := { s with recvHead := EtcpHeader.decode o s.recvHead }
    match checkHead o s.recvHead with
    | .badSign => (s'.onError "recv" "protocol sign check failed").doClose
    | .empty => s'.doRead
    | .body n => { s' with recvData := resize s.recvData n }.start .readBody []

/-- The sink takes the packet out of `m_recv_data`. -/
def onReadBody (s : Session) : Result → Session
  | .failure _ => s.onClose
  | .success len =>
    let packet := if s.recvData.length ≠ len then resize s.recvData len else s.recvData
    { s.doRead with recvData := [], log := s.log ++ [.recv packet] }

def runTask (o : ByteOrder) (s : Session) : Task → Session
  | .doClose => s.runClose
  | .sendMessage pack => s.runSend o pack
  | .complete .write res => s.onWritten res
  | .complete .readHead res => s.onReadHead o res
  | .complete .readBody res => s.onReadBody res

/-- The thread takes a task out of the queue. -/
def dequeue (s : Session) (i : Nat) : Session := { s with ready := s.ready.eraseIdx i }

/-- The reactor has completed an operation: its handler is queued. -/
def finish (s : Session) (i : Nat) (op : Op) (res : Result) : Session :=
  { s with
    pending := s.pending.eraseIdx i
    ready := s.ready ++ [.complete op res] }

/-- The operation goes on, or is complete when nothing is left to move. -/
def progress (s : Session) (i : Nat) (p : Pending) (whole : Bool) : Session :=
  if whole then s.finish i p.op (.success p.done) else { s with pending := s.pending.set i p }

/-- The network takes the next bytes of a write. -/
def transfer (s : Session) (i : Nat) (p : Pending) (n : Nat) : Option Session :=
  let bytes := p.data.take n
  let p' : Pending := { p with data := p.data.drop n, done := p.done + bytes.length }
  if p.op = .write ∧ bytes ≠ [] then
    some ({ s with written := s.written ++ bytes }.progress i p' (p'.data = []))
  else none

/-- The network brings bytes for a read. -/
def receive (s : Session) (i : Nat) (p : Pending) (bytes : Bytes) : Option Session :=
  let p' : Pending := { p with done := p.done + bytes.length }
  match p.op with
  | .readHead =>
    if bytes ≠ [] ∧ p'.done ≤ s.recvHead.length then
      some ({ s with recvHead := fill s.recvHead p.done bytes }.progress i p'
        (p'.done = s.recvHead.length))
    else none
  | .readBody =>
    if bytes ≠ [] ∧ p'.done ≤ s.recvData.length then
      some ({ s with recvData := fill s.recvData p.done bytes }.progress i p'
        (p'.done = s.recvData.length))
    else none
  | .write => none

/-- Something still refers to the session: the accept handler, a task or an operation, or a user. -/
def Held (s : Session) : Prop :=
  s.accept ≠ .finished ∨ s.closing ≠ .idle ∨ s.kept ∨ s.calls ≠ [] ∨ s.ready ≠ [] ∨ s.pending ≠ []

instance (s : Session) : Decidable s.Held := inferInstanceAs (Decidable (_ ∨ _))

/-- The accept operation and its handler; what users do with the session; `close` as
`clear_sessions` calls it; the thread of the io_context; the network. -/
inductive Action
  | accepted (ok : Bool)
  | acceptStart
  | acceptCallback
  | acceptAppend
  | acceptRead
  | acceptAgain
  | keep (kept : Bool)
  | callClose
  | callSend (pack : Bytes)
  | post (i : Nat)
  | close
  | run (i : Nat)
  | closeCallback
  | closeRemove
  | transfer (i n : Nat)
  | receive (i : Nat) (bytes : Bytes)
  | fail (i : Nat) (err : Error)
  deriving DecidableEq, Repr

def step (o : ByteOrder) (s : Session) : Action → Option Session
  | .accepted ok =>
    if s.accept = .waiting then some { s with accept := .completed ok, isOpen := ok } else none
  | .acceptStart =>
    match s.accept with
    | .completed true => some s.onAccept
    | .completed false => some { s with accept := .again }
    | _ => none
  | .acceptCallback =>
    if s.accept = .callback then
      some { s with accept := .append, kept := true, log := s.log ++ [.accept] }
    else none
  | .acceptAppend => if s.accept = .append then some { s with accept := .read } else none
  | .acceptRead => if s.accept = .read then some { s.doRead with accept := .again } else none
  | .acceptAgain => if s.accept = .again then some { s with accept := .finished } else none
  | .keep kept => if .accept ∈ s.log ∧ s.Held then some { s with kept := kept } else none
  | .callClose =>
    if s.kept ∧ s.closed = false then some { s with calls := s.calls ++ [.close] } else none
  | .callSend pack =>
    if s.kept ∧ s.sendMessage pack then some { s with calls := s.calls ++ [.send pack] } else none
  | .post i =>
    match s.calls[i]? with
    | some .close => some { s with calls := s.calls.eraseIdx i }.doClose
    | some (.send pack) =>
      some { s with calls := s.calls.eraseIdx i, ready := s.ready ++ [.sendMessage pack] }
    | none => none
  | .close => if .accept ∈ s.log ∧ s.Held then some s.close else none
  | .run i =>
    match s.ready[i]? with
    | some task =>
      if s.closing = .idle then some ((s.dequeue i).runTask o task) else none
    | none => none
  | .closeCallback =>
    if s.closing = .callback then some { s with closing := .remove, log := s.log ++ [.close] }
    else none
  | .closeRemove => if s.closing = .remove then some { s with closing := .idle } else none
  | .transfer i n => (s.pending[i]?).bind fun p => s.transfer i p n
  | .receive i bytes => (s.pending[i]?).bind fun p => s.receive i p bytes
  | .fail i err => (s.pending[i]?).map fun p => s.finish i p.op (.failure err)

end Session

end NetworkUtility.EtcpServer
