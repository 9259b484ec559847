import NetworkUtility.Base.ByteOrder
import NetworkUtility.Lib.Relay

/-! `TcpForwardSession` and `TcpGatewaySession`, the same class but for its log texts: one relay loop
for each direction between a local and a remote socket. -/
namespace NetworkUtility.Tcp

open Relay

/-- `m_local_buffer(32 * 1024)`, `m_remote_buffer(32 * 1024)`. -/
def bufferSize : Nat := 32 * 1024

/-- The loops of the two `do_recv`, by the socket that they read; `closed` when `stop` has closed
both sockets. -/
structure Session where
  localSocket : Socket UInt8
  remoteSocket : Socket UInt8
  localRecv : Loop UInt8
  remoteRecv : Loop UInt8
  closed : Bool
  deriving DecidableEq, Repr

namespace Session

/-- Before `start`. -/
def fresh : Session := ⟨.fresh, .fresh, .idle, .idle, false⟩

/-- The handshake takes place on the remote socket. -/
def receive (s : Session) (data : Bytes) : Session :=
  { s with remoteSocket := s.remoteSocket.receive data }

def send (s : Session) (data : Bytes) : Session :=
  { s with remoteSocket := s.remoteSocket.send data }

def start (s : Session) : Session := { s with localRecv := .reading, remoteRecv := .reading }

/-- `do_recv` and its handlers. An error of either operation stops the session. -/
def step (s : Session) (localRecv : Bool) (op : Op UInt8) : Option Session :=
  if localRecv then
    (s.localRecv.step (!s.closed) bufferSize op).map fun (loop, got, put) =>
      { s with
        localSocket := s.localSocket.receive got
        remoteSocket := s.remoteSocket.send put
        localRecv := loop
        closed := s.closed || op = .error }
  else
    (s.remoteRecv.step (!s.closed) bufferSize op).map fun (loop, got, put) =>
      { s with
        remoteSocket := s.remoteSocket.receive got
        localSocket := s.localSocket.send put
        remoteRecv := loop
        closed := s.closed || op = .error }

/-- Before `start`: nothing has gone through the local socket, and a handshake through the remote
one. -/
structure Handshake (s : Session) (received sent : Bytes) : Prop where
  localSocket : s.localSocket = .fresh
  received : s.remoteSocket.received = received
  sent : s.remoteSocket.sent = sent
  loops : s.localRecv = .idle ∧ s.remoteRecv = .idle

/-- The session was started on a local socket that had not been used, and on a remote socket with
`k` bytes received and `j` bytes sent. -/
structure Relays (s : Session) (k j : Nat) : Prop where
  localRecv : s.localRecv.Joins 0 s.localSocket.received j s.remoteSocket.sent
  remoteRecv : s.remoteRecv.Joins k s.remoteSocket.received 0 s.localSocket.sent
  going : s.closed = false → s.localRecv ≠ .idle ∧ s.remoteRecv ≠ .idle

variable {s t : Session} {localRecv : Bool} {op : Op UInt8} {k j : Nat} {received sent head : Bytes}

theorem handshake_fresh : fresh.Handshake [] [] := ⟨rfl, rfl, rfl, rfl, rfl⟩

theorem Handshake.receive (h : s.Handshake received sent) (data : Bytes) :
    (s.receive data).Handshake (received ++ data) sent :=
  ⟨h.localSocket, congrArg (· ++ data) h.received, h.sent, h.loops⟩

theorem Handshake.send (h : s.Handshake received sent) (data : Bytes) :
    (s.send data).Handshake received (sent ++ data) :=
  ⟨h.localSocket, h.received, congrArg (· ++ data) h.sent, h.loops⟩

theorem Handshake.relays_start (h : s.Handshake received sent) :
    s.start.Relays received.length sent.length := by
  have hr : s.localSocket.received.length = 0 := by simp [h.localSocket]
  have hs : s.localSocket.sent.length = 0 := by simp [h.localSocket]
  have hk := congrArg List.length h.received
  have hj := congrArg List.length h.sent
  exact ⟨Loop.joins_start rfl hr hj, Loop.joins_start rfl hk hs, fun _ => ⟨nofun, nofun⟩⟩

theorem step_local (h : s.step true op = some t) :
    ∃ loop got put, s.localRecv.step (!s.closed) bufferSize op = some (loop, got, put) ∧
      t = { s with
        localSocket := s.localSocket.receive got
        remoteSocket := s.remoteSocket.send put
        localRecv := loop
        closed := s.closed || op = .error } := by
  obtain ⟨⟨loop, got, put⟩, hloop, rfl⟩ := Option.map_eq_some_iff.mp h
  exact ⟨loop, got, put, hloop, rfl⟩

theorem step_remote (h : s.step false op = some t) :
    ∃ loop got put, s.remoteRecv.step (!s.closed) bufferSize op = some (loop, got, put) ∧
      t = { s with
        remoteSocket := s.remoteSocket.receive got
        localSocket := s.localSocket.send put
        remoteRecv := loop
        closed := s.closed || op = .error } := by
  obtain ⟨⟨loop, got, put⟩, hloop, rfl⟩ := Option.map_eq_some_iff.mp h
  exact ⟨loop, got, put, hloop, rfl⟩

/-- Each direction keeps its account, whatever the other one does. -/
theorem relays_step (hs : s.Relays k j) (h : s.step localRecv op = some t) : t.Relays k j := by
  obtain ⟨hlocal, hremote, hgoing⟩ := hs
  cases localRecv with
  | true =>
    obtain ⟨loop, got, put, hloop, rfl⟩ := step_local h
    refine ⟨hlocal.step hloop, hremote, fun hopen => ?_⟩
    simp only [Bool.or_eq_false_iff, decide_eq_false_iff_not] at hopen
    obtain ⟨-, -, hne, -⟩ | ⟨-, -, -, herr⟩ := Loop.step_cases hloop
    · exact ⟨hne, (hgoing hopen.1).2⟩
    · exact absurd herr hopen.2
  | false =>
    obtain ⟨loop, got, put, hloop, rfl⟩ := step_remote h
    refine ⟨hlocal, hremote.step hloop, fun hopen => ?_⟩
    simp only [Bool.or_eq_false_iff, decide_eq_false_iff_not] at hopen
    obtain ⟨-, -, hne, -⟩ | ⟨-, -, -, herr⟩ := Loop.step_cases hloop
    · exact ⟨(hgoing hopen.1).1, hne⟩
    · exact absurd herr hopen.2

theorem closed_step (hop : op ≠ .error) (h : s.step localRecv op = some t) : t.closed = s.closed := by
  cases localRecv with
  | true =>
    obtain ⟨loop, got, put, -, rfl⟩ := step_local h
    simp [hop]
  | false =>
    obtain ⟨loop, got, put, -, rfl⟩ := step_remote h
    simp [hop]

/-- What the sockets have sent only grows, and they have received what the reads handed over. -/
theorem step_sockets (h : s.step localRecv op = some t) :
    s.localSocket.sent <+: t.localSocket.sent ∧ s.remoteSocket.sent <+: t.remoteSocket.sent ∧
      t.localSocket.received = s.localSocket.received ++ (if localRecv then op.data else []) ∧
      t.remoteSocket.received = s.remoteSocket.received ++ (if localRecv then [] else op.data) := by
  cases localRecv with
  | true =>
    obtain ⟨loop, got, put, hloop, rfl⟩ := step_local h
    obtain rfl := Loop.step_got hloop
    simp
  | false =>
    obtain ⟨loop, got, put, hloop, rfl⟩ := step_remote h
    obtain rfl := Loop.step_got hloop
    simp

/-! ### A session and the handshake before it -/

/-- A step of the handshake touches the remote socket only. -/
inductive Shakes (s : Session) (op : Op UInt8) : Session → Prop
  | keep : op.data = [] → Shakes s op s
  | receive (data : Bytes) : op.data = data → Shakes s op (s.receive data)
  | send (data : Bytes) : op.data = [] → Shakes s op (s.send data)
  | start : op.data = [] → Shakes s op s.start

theorem Shakes.sockets (h : s.Shakes op t) :
    s.localSocket = t.localSocket ∧ s.remoteSocket.sent <+: t.remoteSocket.sent ∧
      t.remoteSocket.received = s.remoteSocket.received ++ op.data := by
  cases h with
  | keep hop => simp [hop]
  | receive data hop => simp [hop, Session.receive]
  | send data hop => simp [hop, Session.send]
  | start hop => simp [hop, Session.start]

/-- The sockets have sent more or the same, and have received what the operation hands over. -/
theorem Shakes.step_sockets (h : s.Shakes op t) :
    s.localSocket.sent <+: t.localSocket.sent ∧ s.remoteSocket.sent <+: t.remoteSocket.sent ∧
      t.localSocket.received = s.localSocket.received ++ [] ∧
      t.remoteSocket.received = s.remoteSocket.received ++ op.data := by
  obtain ⟨hlocal, hsent, hreceived⟩ := h.sockets
  have hall : s.localSocket.sent <+: t.localSocket.sent := hlocal ▸ List.prefix_rfl
  refine ⟨hall, hsent, ?_, hreceived⟩
  rw [hlocal, List.append_nil]

theorem Shakes.closed (h : s.Shakes op t) : t.closed = s.closed := by
  cases h <;> rfl

/-- The handshake takes `k` bytes and gives `head`; from there on both directions are relayed. -/
inductive Opened (s : Session) (k : Nat) (head : Bytes) : Prop
  | before (received sent : Bytes) : s.Handshake received sent → received.length ≤ k →
      sent <+: head → Opened s k head
  | started : s.Relays k head.length → head <+: s.remoteSocket.sent → Opened s k head

/-- Behind the handshake, what goes out at one socket is a prefix of what came in at the other. -/
theorem Opened.order (h : s.Opened k head) :
    s.localSocket.sent <+: s.remoteSocket.received.drop k ∧
      s.remoteSocket.sent <+: head ++ s.localSocket.received := by
  cases h with
  | before received sent hhand hlen hsent =>
    refine ⟨?_, ?_⟩
    · rw [hhand.localSocket]
      exact List.nil_prefix
    · rw [hhand.sent]
      exact hsent.trans (List.prefix_append _ _)
  | started hrelays hhead =>
    have hlocal := hrelays.remoteRecv.carries.order
    have hremote := hrelays.localRecv.carries.order
    rw [List.drop_zero] at hlocal hremote
    refine ⟨hlocal, ?_⟩
    obtain ⟨rest, hrest⟩ := hhead
    rw [← hrest, List.drop_left] at hremote
    rw [← hrest]
    exact List.prefix_append_right_inj head |>.mpr hremote

/-- No byte is lost while there is no error. -/
theorem Opened.whole (h : s.Opened k head) (hopen : s.closed = false) :
    s.remoteSocket.received.drop k = s.localSocket.sent ++ s.remoteRecv.buffer ∧
      s.localSocket.received = s.remoteSocket.sent.drop head.length ++ s.localRecv.buffer := by
  cases h with
  | before received sent hhand hlen hsent =>
    obtain ⟨hfresh, rfl, rfl, hlocal, hremote⟩ := hhand
    rw [hfresh, hlocal, hremote, List.drop_of_length_le hlen, List.drop_of_length_le hsent.length_le]
    exact ⟨rfl, rfl⟩
  | started hrelays hhead =>
    obtain ⟨hlocal, hremote⟩ := hrelays.going hopen
    have hin := hrelays.remoteRecv.carries.whole hremote
    have hout := hrelays.localRecv.carries.whole hlocal
    rw [List.drop_zero] at hin hout
    exact ⟨hin, hout⟩

end Session

/-- What happens to the connection of a process: to the operation outstanding before the session has
started, or to one of the session. -/
inductive Progress
  | handshake (op : Op UInt8)
  | relay (localRecv : Bool) (op : Op UInt8)
  deriving DecidableEq, Repr

namespace Progress

def op : Progress → Op UInt8
  | handshake op => op
  | relay _ op => op

/-- What is read from the local socket. -/
def localData : Progress → Bytes
  | relay true op => op.data
  | _ => []

/-- What is read from the remote socket, which the handshake takes place on. -/
def remoteData : Progress → Bytes
  | relay false op => op.data
  | relay true _ => []
  | handshake op => op.data

end Progress

end NetworkUtility.Tcp
