import NetworkUtility.EtcpServer.Accepts
import NetworkUtility.Lib.AcceptLoop
import NetworkUtility.Tcp.Forward
import NetworkUtility.Tcp.Gateway

/-! The accept loops of `TcpGatewayServerImpl` and `TcpForwardAcceptor`. -/
namespace NetworkUtility.Tcp

open Relay Machine AcceptLoop

/-- The handler of `do_accept` returns in front of the next `do_accept` when it is given an error. -/
def Progress.rearms (p : Progress) : Bool := p.op != .error

/-! ### `TcpGatewayServerImpl` -/

namespace Gateway

variable {o : ByteOrder} {resolve : Resolver} {g g' : Gateway} {p : Progress} {op : Op UInt8}

def accepting (g : Gateway) : Bool :=
  match g.phase with
  | .accept _ => true
  | _ => false

def outstanding (g : Gateway) : Bool := g.phase = .accept false

/-- The accept has completed and its handler runs, or it fails and its handler runs with the error. -/
def handlesAccept (g : Gateway) (p : Progress) : Bool :=
  g.phase = .accept true ∧ p = .handshake .run ∨ g.phase = .accept false ∧ p = .handshake .error

theorem accepting_of_outstanding (h : g.outstanding = true) : g.accepting = true := by
  have hph : g.phase = .accept false := by simpa [outstanding] using h
  rw [accepting, hph]

theorem accepting_of_handlesAccept (h : g.handlesAccept p = true) : g.accepting = true := by
  have hph : g.phase = .accept true ∧ p = .handshake .run ∨
      g.phase = .accept false ∧ p = .handshake .error := by simpa [handlesAccept] using h
  obtain ⟨hph, -⟩ | ⟨hph, -⟩ := hph <;> rw [accepting, hph]

theorem accepting_headReceived (request : Bytes) :
    (g.headReceived o request).accepting = false := by
  unfold headReceived
  split <;> rfl

/-- Only the handler of the accept leaves it, and nothing comes back to it. -/
theorem accepting_step (h : g.step o resolve p = some g') :
    g'.accepting = (g.accepting && !g.handlesAccept p) := by
  cases p with
  | relay localRecv op =>
    obtain ⟨hph, session, -, rfl⟩ := relays_of_step h
    simp [accepting, hph]
  | handshake op =>
    cases moves_of_stepHandshake h with
    | accepted hph => simp [accepting, handlesAccept, hph, enter]
    | begins hph => simp [accepting, handlesAccept, hph, enter]
    | acceptFails hph => simp [accepting, handlesAccept, hph, enter]
    | headDone hph _ =>
      rw [accepting_headReceived]
      simp [accepting, hph]
    | readsHead hph _ => simp [accepting, hph, enter]
    | readsBody hph _ => simp [accepting, hph, enter]
    | bodyDone hph _ => simp [accepting, hph, enter, doSendResult]
    | sends hph => simp [accepting, hph, enter]
    | refuses hph => simp [accepting, hph, enter]
    | connects hph => simp [accepting, hph, enter]
    | connected hph => simp [accepting, hph, enter]
    | starts hph => simp [accepting, hph, startSession]
    | headFails hph => simp [accepting, hph, enter]
    | bodyFails hph => simp [accepting, hph, enter]
    | sendFails hph => simp [accepting, hph, enter]
    | connectFails hph => simp [accepting, hph, enter]

/-- `TcpGatewayServerImpl::do_accept`: it returns when `m_acceptor` is gone. -/
def acceptLoop (o : ByteOrder) (resolve : Resolver) : Kind Gateway Progress where
  initial := .initial
  next := Gateway.step o resolve
  accepting := Gateway.accepting
  outstanding := Gateway.outstanding
  handles := Gateway.handlesAccept
  rearms := Progress.rearms
  unchecked := false
  outstanding_initial := rfl
  accepting_of_outstanding _ := accepting_of_outstanding
  accepting_of_handles _ _ := accepting_of_handlesAccept
  accepting_next _ _ _ := accepting_step

end Gateway

/-! ### `TcpForwardAcceptor` -/

namespace Forward

variable {f f' : Forward} {p : Progress} {op : Op UInt8}

def accepting (f : Forward) : Bool :=
  match f.phase with
  | .accept _ => true
  | _ => false

def outstanding (f : Forward) : Bool := f.phase = .accept false

def handlesAccept (f : Forward) (p : Progress) : Bool :=
  f.phase = .accept true ∧ p = .handshake .run ∨ f.phase = .accept false ∧ p = .handshake .error

theorem accepting_of_outstanding (h : f.outstanding = true) : f.accepting = true := by
  have hph : f.phase = .accept false := by simpa [outstanding] using h
  rw [accepting, hph]

theorem accepting_of_handlesAccept (h : f.handlesAccept p = true) : f.accepting = true := by
  have hph : f.phase = .accept true ∧ p = .handshake .run ∨
      f.phase = .accept false ∧ p = .handshake .error := by simpa [handlesAccept] using h
  obtain ⟨hph, -⟩ | ⟨hph, -⟩ := hph <;> rw [accepting, hph]

/-- Behind the accept no phase is an accept. -/
theorem accepting_stepHandshake (hno : f.accepting = false)
    (h : f.stepHandshake op = some f') : f'.accepting = false := by
  cases moves_of_stepHandshake h with
  | accepted hph => rw [accepting, hph] at hno; cases hno
  | _ => rfl

theorem accepting_step (h : f.step p = some f') :
    f'.accepting = (f.accepting && !f.handlesAccept p) := by
  cases p with
  | relay localRecv op =>
    obtain ⟨hph, session, -, rfl⟩ := relays_of_step h
    simp [accepting, hph]
  | handshake op =>
    cases hno : f.accepting with
    | false =>
      rw [accepting_stepHandshake hno h]
      rfl
    | true =>
      cases moves_of_stepHandshake h with
      | accepted hph => simp [accepting, handlesAccept, hph, enter]
      | connects hph => simp [accepting, handlesAccept, hph, enter]
      | fails hph =>
        rcases hph with hph | hph | ⟨b, rest, hph⟩ | hph
        · simp [accepting, handlesAccept, hph, enter]
        · simp [accepting, hph] at hno
        · simp [accepting, hph] at hno
        · simp [accepting, hph] at hno
      | connected hph => simp [accepting, hph] at hno
      | writes hph => simp [accepting, hph] at hno
      | sends hph _ _ => simp [accepting, hph] at hno
      | reads hph => simp [accepting, hph] at hno
      | receives _ hph => simp [accepting, hph] at hno
      | refused hph => simp [accepting, hph] at hno
      | starts hph _ => simp [accepting, hph] at hno

/-- `TcpForwardAcceptor::do_accept`: the acceptor is a member and is not looked at. -/
def acceptLoop (message : Bytes) : Kind Forward Progress where
  initial := .initial message
  next := Forward.step
  accepting := Forward.accepting
  outstanding := Forward.outstanding
  handles := Forward.handlesAccept
  rearms := Progress.rearms
  unchecked := true
  outstanding_initial := rfl
  accepting_of_outstanding _ := accepting_of_outstanding
  accepting_of_handles _ _ := accepting_of_handlesAccept
  accepting_next _ _ _ := accepting_step

end Forward

/-! ### All three loops -/

/-- Whatever its handler is given, an accept is outstanding when it has run. -/
def Rearms {κ : Type} (kind : Kind κ Progress) : Prop :=
  ∀ as l i p l' c, Run kind.step Free kind.start as l → kind.step l (.connection i p) = some l' →
    l.connections[i]? = some c → kind.handles c p = true → l'.isOpen = true →
      l'.connections.countP kind.outstanding = 1

theorem rearms_iff {κ : Type} (kind : Kind κ Progress) (hkind : kind.rearms = Progress.rearms)
    {as : List (AcceptLoop.Action Progress)} {l l' : Listener κ} {i : Nat} {p : Progress} {c : κ}
    (h : Run kind.step Free kind.start as l) (hst : kind.step l (.connection i p) = some l')
    (hc : l.connections[i]? = some c) (hh : kind.handles c p = true) (hopen : l'.isOpen = true) :
    l'.connections.countP kind.outstanding = 1 ↔ p.op ≠ .error := by
  rw [kind.outstanding_of_handler h hst hc hh hopen, hkind]
  by_cases hp : p.op = .error <;> simp [Progress.rearms, hp]

/-- The handlers of `EtcpServerImpl` always leave one accept outstanding, those of the other two when
they are not given an error. -/
theorem accepts_go_on (o : ByteOrder) (resolve : Resolver) (message : Bytes) :
    (∀ threadCount as s k t,
      Run (EtcpServer.Server.step o) Free (EtcpServer.Server.initial threadCount) as s →
      EtcpServer.Server.step o s (.session k .acceptAgain) = some t → t.acceptor = true →
        t.outstanding = 1) ∧
    (∀ as l i p l' c, Run (Gateway.acceptLoop o resolve).step Free
        (Gateway.acceptLoop o resolve).start as l →
      (Gateway.acceptLoop o resolve).step l (.connection i p) = some l' →
      l.connections[i]? = some c → c.handlesAccept p = true → l'.isOpen = true →
        (l'.connections.countP Gateway.outstanding = 1 ↔ p.op ≠ .error)) ∧
    (∀ as l i p l' c, Run (Forward.acceptLoop message).step Free
        (Forward.acceptLoop message).start as l →
      (Forward.acceptLoop message).step l (.connection i p) = some l' →
      l.connections[i]? = some c → c.handlesAccept p = true → l'.isOpen = true →
        (l'.connections.countP Forward.outstanding = 1 ↔ p.op ≠ .error)) := by
  refine ⟨?_, ?_, ?_⟩
  · intro threadCount as s k t hrun hst hacceptor
    exact EtcpServer.Server.outstanding_of_handler hrun hst hacceptor
  · intro as l i p l' c hrun hst hc hh hopen
    exact rearms_iff (Gateway.acceptLoop o resolve) rfl hrun hst hc hh hopen
  · intro as l i p l' c hrun hst hc hh hopen
    exact rearms_iff (Forward.acceptLoop message) rfl hrun hst hc hh hopen

def failedAccept : EtcpServer.Server :=
  (exec (EtcpServer.Server.step .little) Free (EtcpServer.Server.initial 1)
    [.session 0 (.accepted false), .session 0 .acceptStart]).getD (.initial 1)

theorem failedAccept_run : Run (EtcpServer.Server.step .little) Free (.initial 1)
    [.session 0 (.accepted false), .session 0 .acceptStart] failedAccept :=
  run_exec _ Free _ _ (by decide)

theorem failedAccept_again :
    (EtcpServer.Server.step .little failedAccept (.session 0 .acceptAgain)).isSome := by
  decide

/-- After a first accept that fails the etcp server accepts again and the other two do not. -/
theorem accepts_go_on_example :
    (∃ s t, EtcpServer.Server.step .little s (.session 0 .acceptAgain) = some t ∧
      t.outstanding = 1) ∧
    (∃ l', (Gateway.acceptLoop .little fun _ _ => none).step
        (Gateway.acceptLoop .little fun _ _ => none).start
        (.connection 0 (.handshake .error)) = some l' ∧
      ¬ l'.connections.countP Gateway.outstanding = 1) ∧
    (∃ l', (Forward.acceptLoop []).step (Forward.acceptLoop []).start
        (.connection 0 (.handshake .ready)) = some l' ∧ l'.isOpen = true) := by
  have h := accepts_go_on .little (fun _ _ => none) []
  have hst := (Option.some_get failedAccept_again).symm
  refine ⟨⟨_, _, hst, h.1 1 _ _ 0 _ failedAccept_run hst (by decide)⟩, ⟨_, rfl, ?_⟩, ⟨_, rfl, rfl⟩⟩
  exact fun hone => (h.2.1 [] _ 0 (.handshake .error) _ .initial (.nil _) rfl rfl rfl rfl).mp hone rfl

/-- One failed accept, and nothing is accepted any more. -/
theorem gateway_deaf : ¬ Rearms (Gateway.acceptLoop .little fun _ _ => none) := by
  intro h
  have hone := h [] _ 0 (.handshake .error) _ .initial (.nil _) rfl rfl rfl rfl
  exact absurd hone (by decide)

end NetworkUtility.Tcp
