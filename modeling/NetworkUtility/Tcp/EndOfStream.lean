import NetworkUtility.Lib.Machine
import NetworkUtility.Tcp.Session

/-! The end of the stream in one direction of a session. -/
namespace NetworkUtility.Tcp.Session

open Relay Machine

def next (s : Session) (p : Bool × Op UInt8) : Option Session := s.step p.1 p.2

def loop (s : Session) : Bool → Loop UInt8
  | true => s.localRecv
  | false => s.remoteRecv

/-- What the loop has read, when `k` bytes had been received on the remote socket before it. -/
def taken (s : Session) (k : Nat) : Bool → Bytes
  | true => s.localSocket.received
  | false => s.remoteSocket.received.drop k

/-- What the loop has written, when `j` bytes had been sent on the remote socket before it. -/
def given (s : Session) (j : Nat) : Bool → Bytes
  | true => s.remoteSocket.sent.drop j
  | false => s.localSocket.sent

/-- A direction that ends takes no byte of the other one with it. -/
def KeepsOther : Prop :=
  ∀ s₀ received sent as s side t, Handshake s₀ received sent → Run next Free s₀.start as s →
    s.closed = false → s.loop side = .reading → s.step side .error = some t →
      t.taken received.length (!side) = t.given sent.length (!side)

variable {s t u : Session} {side : Bool} {op : Op UInt8} {k j : Nat} {as : List (Bool × Op UInt8)}
  {received sent : Bytes}

theorem carries_of_relays (hs : s.Relays k j) (side : Bool) :
    (s.loop side).Carries (s.taken k side) (s.given j side) := by
  cases side with
  | true => exact hs.localRecv.carries
  | false => exact hs.remoteRecv.carries

/-- The next state of one loop; the other loop stays. -/
theorem loops_of_step (h : s.step side op = some t) :
    (∃ got put, (s.loop side).step (!s.closed) bufferSize op = some (t.loop side, got, put)) ∧
      t.loop (!side) = s.loop (!side) := by
  cases side with
  | true =>
    obtain ⟨loop, got, put, hloop, rfl⟩ := step_local h
    exact ⟨⟨got, put, hloop⟩, rfl⟩
  | false =>
    obtain ⟨loop, got, put, hloop, rfl⟩ := step_remote h
    exact ⟨⟨got, put, hloop⟩, rfl⟩

theorem buffer_le_step (hs : ∀ side, (s.loop side).buffer.length ≤ bufferSize)
    (h : s.step side op = some t) (other : Bool) : (t.loop other).buffer.length ≤ bufferSize := by
  obtain ⟨⟨got, put, hloop⟩, hkeep⟩ := loops_of_step h
  by_cases hside : other = side
  · subst hside
    exact Loop.buffer_le_step (hs other) hloop
  · obtain rfl : other = !side := by cases other <;> cases side <;> simp_all
    rw [hkeep]
    exact hs _

theorem relays_of_run (hhand : s.Handshake received sent) (hrun : Run next Free s.start as t) :
    t.Relays received.length sent.length ∧
      ∀ side, (t.loop side).buffer.length ≤ bufferSize := by
  refine hrun.invariant (fun t => t.Relays received.length sent.length ∧
    ∀ side, (t.loop side).buffer.length ≤ bufferSize) ?_ ⟨hhand.relays_start, ?_⟩
  · exact fun s p t hs _ hst => ⟨relays_step hs.1 hst, buffer_le_step hs.2 hst⟩
  · intro side
    cases side <;> exact Nat.zero_le _

/-- `stop` closes both sockets, whichever loop it is called from. -/
theorem closed_of_error (h : s.step side .error = some t) :
    t.closed = true ∧ t.localSocket = s.localSocket ∧ t.remoteSocket = s.remoteSocket := by
  cases side with
  | true =>
    obtain ⟨loop, got, put, hloop, rfl⟩ := step_local h
    obtain ⟨-, rfl, rfl⟩ := Loop.step_error hloop
    simp [Socket.send, Socket.receive]
  | false =>
    obtain ⟨loop, got, put, hloop, rfl⟩ := step_remote h
    obtain ⟨-, rfl, rfl⟩ := Loop.step_error hloop
    simp [Socket.send, Socket.receive]

theorem silent_step (hs : s.closed = true) (h : s.step side op = some t) :
    t.closed = true ∧ t.localSocket = s.localSocket ∧ t.remoteSocket = s.remoteSocket := by
  cases side with
  | true =>
    obtain ⟨loop, got, put, hloop, rfl⟩ := step_local h
    rw [hs] at hloop
    obtain ⟨rfl, rfl⟩ := Loop.step_closed hloop
    simp [hs, Socket.send, Socket.receive]
  | false =>
    obtain ⟨loop, got, put, hloop, rfl⟩ := step_remote h
    rw [hs] at hloop
    obtain ⟨rfl, rfl⟩ := Loop.step_closed hloop
    simp [hs, Socket.send, Socket.receive]

/-- Behind `stop` nothing is relayed in either direction. -/
theorem silent_run (hs : s.closed = true) (hrun : Run next Free s as t) :
    t.localSocket = s.localSocket ∧ t.remoteSocket = s.remoteSocket := by
  refine (hrun.invariant (fun t => t.closed = true ∧ t.localSocket = s.localSocket ∧
    t.remoteSocket = s.remoteSocket) ?_ ⟨hs, rfl, rfl⟩).2
  rintro s p t ⟨hclosed, hlocal, hremote⟩ - hst
  obtain ⟨hclosed', hlocal', hremote'⟩ := silent_step hclosed hst
  exact ⟨hclosed', hlocal'.trans hlocal, hremote'.trans hremote⟩

/-- The direction that ends has been relayed to its last byte. The other one ends with it: what its
loop holds is lost, and nothing else of what it has read. -/
theorem eof_ends_both {s₀ : Session} (hhand : s₀.Handshake received sent)
    (hrun : Run next Free s₀.start as s) (hopen : s.closed = false)
    (hreading : s.loop side = .reading) (h : s.step side .error = some t) :
    t.closed = true ∧
    t.given sent.length side = t.taken received.length side ∧
    t.taken received.length (!side) =
      t.given sent.length (!side) ++ (s.loop (!side)).buffer ∧
    (s.loop (!side)).buffer.length ≤ bufferSize ∧
    ∀ bs u, Run next Free t bs u →
      u.localSocket = t.localSocket ∧ u.remoteSocket = t.remoteSocket := by
  obtain ⟨hrelays, hbuffer⟩ := relays_of_run hhand hrun
  obtain ⟨hclosed, hlocal, hremote⟩ := closed_of_error h
  have htaken : ∀ side, t.taken received.length side = s.taken received.length side := by
    intro side
    cases side <;> simp [taken, hlocal, hremote]
  have hgiven : ∀ side, t.given sent.length side = s.given sent.length side := by
    intro side
    cases side <;> simp [given, hlocal, hremote]
  have hgoing : ∀ side, s.loop side ≠ .idle := by
    intro side
    cases side with
    | true => exact (hrelays.going hopen).1
    | false => exact (hrelays.going hopen).2
  have hthis := (carries_of_relays hrelays side).whole (hgoing side)
  have hother := (carries_of_relays hrelays (!side)).whole (hgoing (!side))
  rw [hreading, Loop.buffer, List.append_nil] at hthis
  refine ⟨hclosed, ?_, ?_, hbuffer (!side), ?_⟩
  · rw [hgiven, htaken, hthis]
  · rw [hgiven, htaken, hother]
  · exact fun bs u hrun => silent_run hclosed hrun

/-- The local side ends while a byte of the remote side is to be written. -/
theorem eof_ends_both_example :
    ∃ s t : Session, s.loop false = .received [1] ∧ s.step true .error = some t ∧
      t.taken 0 false = t.given 0 false ++ [1] := by
  have hrun : Run next Free fresh.start [(false, .read [1])]
      ⟨.fresh, ⟨[], [1]⟩, .reading, .received [1], false⟩ :=
    .cons trivial rfl (.nil _)
  have hst : step ⟨.fresh, ⟨[], [1]⟩, .reading, .received [1], false⟩ true .error = some _ := rfl
  exact ⟨_, _, rfl, hst, (eof_ends_both handshake_fresh hrun rfl rfl hst).2.2.1⟩

/-- The byte that the session holds when the other side ends its stream is not written any more. -/
theorem held_byte_lost : ¬ KeepsOther := by
  intro h
  have hrun : Run next Free fresh.start [(false, .read [1])] _ :=
    .cons trivial rfl (.nil _)
  have hlost := h fresh [] [] _ _ true _ handshake_fresh hrun rfl rfl rfl
  exact absurd hlost (by decide)

end NetworkUtility.Tcp.Session
