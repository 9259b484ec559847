import NetworkUtility.Tcp.Request
import NetworkUtility.Tcp.Session

/-! A connection of `TcpGatewayServerImpl`, from its accept to its `TcpGatewaySession`. -/
namespace NetworkUtility.Tcp

open Relay Scan

/-- The operation of the connection that is outstanding. -/
inductive Gateway.Phase
  | accept (ready : Bool)
  | recvHead (request : Bytes)
  | recvBody (request : Bytes)
  | sendResult (rest : Bytes) (result : Bool) (endpoint : Option Endpoint)
  | connect (endpoint : Endpoint) (ready : Bool)
  | session
  | dropped
  deriving DecidableEq, Repr

/-- `host_socket` and `peer_socket` are the local and the remote socket of the session to be. When
the connection is dropped both are closed. -/
structure Gateway where
  phase : Gateway.Phase
  session : Session
  deriving DecidableEq, Repr

namespace Gateway

def initial : Gateway := ⟨.accept false, .fresh⟩

abbrev hostSocket (g : Gateway) : Socket UInt8 := g.session.localSocket

abbrev peerSocket (g : Gateway) : Socket UInt8 := g.session.remoteSocket

def enter (g : Gateway) (phase : Phase) : Gateway := { g with phase := phase }

def receive (g : Gateway) (data : Bytes) : Gateway := { g with session := g.session.receive data }

def send (g : Gateway) (data : Bytes) : Gateway := { g with session := g.session.send data }

def doSendResult (g : Gateway) (answer : Answer) : Gateway :=
  g.enter (.sendResult answer.response answer.result answer.endpoint)

/-- The handler of `do_recv_head`. -/
def headReceived (o : ByteOrder) (g : Gateway) (request : Bytes) : Gateway :=
  if request = connectWord then g.enter (.recvBody []) else g.doSendResult (binaryAnswer o request)

/-- The handler of `do_send_result`. Without an endpoint `*endpoint` is not defined. -/
def resultSent (g : Gateway) : Bool → Option Endpoint → Option Gateway
  | false, _ => some (g.enter .dropped)
  | true, none => none
  | true, some endpoint => some (g.enter (.connect endpoint false))

def startSession (g : Gateway) : Gateway := { phase := .session, session := g.session.start }

/-- `do_accept`, `do_recv_head`, `do_recv_body` and `do_send_result`. -/
def stepHandshake (o : ByteOrder) (resolve : Resolver) (g : Gateway) (op : Op UInt8) :
    Option Gateway :=
  match g.phase, op with
  | .accept false, .ready => some (g.enter (.accept true))
  | .accept true, .run => some (g.enter (.recvHead []))
  | .accept false, .error => some (g.enter .dropped)
  | .recvHead request, .read data =>
    if data ≠ [] ∧ request.length + data.length ≤ requestSize then
      some ((g.receive data).enter (.recvHead (request ++ data)))
    else none
  | .recvHead request, .run =>
    if request.length = requestSize then some (g.headReceived o request) else none
  | .recvHead request, .error =>
    if request.length < requestSize then some (g.enter .dropped) else none
  | .recvBody request, .read data =>
    if data ≠ [] ∧ endOfHead request = none then
      some ((g.receive data).enter (.recvBody (request ++ data)))
    else none
  | .recvBody request, .run =>
    if (endOfHead request).isSome then (connectAnswer resolve request).map g.doSendResult else none
  | .recvBody request, .error =>
    if endOfHead request = none then some (g.enter .dropped) else none
  | .sendResult rest result endpoint, .write n =>
    if 0 < n ∧ n ≤ rest.length then
      some ((g.send (rest.take n)).enter (.sendResult (rest.drop n) result endpoint))
    else none
  | .sendResult [] result endpoint, .run => g.resultSent result endpoint
  | .sendResult (_ :: _) _ _, .error => some (g.enter .dropped)
  | .connect endpoint false, .ready => some (g.enter (.connect endpoint true))
  | .connect _ true, .run => some g.startSession
  | .connect _ false, .error => some (g.enter .dropped)
  | _, _ => none

def step (o : ByteOrder) (resolve : Resolver) (g : Gateway) : Progress → Option Gateway
  | .handshake op => g.stepHandshake o resolve op
  | .relay localRecv op =>
    if g.phase = .session then
      (g.session.step localRecv op).map fun session => { g with session := session }
    else none

/-- What a step of the handshake can do. -/
inductive Moves (o : ByteOrder) (resolve : Resolver) (g : Gateway) : Op UInt8 → Gateway → Prop
  | accepted (hph : g.phase = .accept false) : Moves o resolve g .ready (g.enter (.accept true))
  | begins (hph : g.phase = .accept true) : Moves o resolve g .run (g.enter (.recvHead []))
  | readsHead {request data : Bytes} (hph : g.phase = .recvHead request)
      (hle : request.length + data.length ≤ requestSize) :
      Moves o resolve g (.read data) ((g.receive data).enter (.recvHead (request ++ data)))
  | headDone {request : Bytes} (hph : g.phase = .recvHead request)
      (hlen : request.length = requestSize) : Moves o resolve g .run (g.headReceived o request)
  | readsBody {request data : Bytes} (hph : g.phase = .recvBody request)
      (hend : endOfHead request = none) :
      Moves o resolve g (.read data) ((g.receive data).enter (.recvBody (request ++ data)))
  | bodyDone {request : Bytes} {answer : Answer} (hph : g.phase = .recvBody request)
      (hanswer : connectAnswer resolve request = some answer) :
      Moves o resolve g .run (g.doSendResult answer)
  | sends {rest : Bytes} {result : Bool} {endpoint : Option Endpoint} {n : Nat}
      (hph : g.phase = .sendResult rest result endpoint) :
      Moves o resolve g (.write n)
        ((g.send (rest.take n)).enter (.sendResult (rest.drop n) result endpoint))
  | refuses {endpoint : Option Endpoint} (hph : g.phase = .sendResult [] false endpoint) :
      Moves o resolve g .run (g.enter .dropped)
  | connects {endpoint : Endpoint} (hph : g.phase = .sendResult [] true (some endpoint)) :
      Moves o resolve g .run (g.enter (.connect endpoint false))
  | connected {endpoint : Endpoint} (hph : g.phase = .connect endpoint false) :
      Moves o resolve g .ready (g.enter (.connect endpoint true))
  | starts {endpoint : Endpoint} (hph : g.phase = .connect endpoint true) :
      Moves o resolve g .run g.startSession
  | acceptFails (hph : g.phase = .accept false) : Moves o resolve g .error (g.enter .dropped)
  | headFails {request : Bytes} (hph : g.phase = .recvHead request) :
      Moves o resolve g .error (g.enter .dropped)
  | bodyFails {request : Bytes} (hph : g.phase = .recvBody request) :
      Moves o resolve g .error (g.enter .dropped)
  | sendFails {rest : Bytes} {result : Bool} {endpoint : Option Endpoint}
      (hph : g.phase = .sendResult rest result endpoint) :
      Moves o resolve g .error (g.enter .dropped)
  | connectFails {endpoint : Endpoint} (hph : g.phase = .connect endpoint false) :
      Moves o resolve g .error (g.enter .dropped)

/-- The whole request of a client and what the gateway answers. -/
inductive Answered (o : ByteOrder) (resolve : Resolver) : Bytes → Answer → Prop
  | binary (request : Bytes) : request.length = requestSize → request ≠ connectWord →
      Answered o resolve request (binaryAnswer o request)
  | connect (data : Bytes) (answer : Answer) : connectAnswer resolve data = some answer →
      Answered o resolve (connectWord ++ data) answer

/-- What has gone through the two sockets in each phase. -/
def Account (o : ByteOrder) (resolve : Resolver) (g : Gateway) : Prop :=
  match g.phase with
  | .accept _ => g.session.Handshake [] []
  | .recvHead request => request.length ≤ requestSize ∧ g.session.Handshake request []
  | .recvBody request => g.session.Handshake (connectWord ++ request) []
  | .sendResult rest result endpoint => ∃ request sent answer, Answered o resolve request answer ∧
      answer.result = result ∧ answer.endpoint = endpoint ∧ sent ++ rest = answer.response ∧
      g.session.Handshake request sent
  | .connect endpoint _ => ∃ request answer, Answered o resolve request answer ∧
      answer.result = true ∧ answer.endpoint = some endpoint ∧
      g.session.Handshake request answer.response
  | .session => ∃ request answer, Answered o resolve request answer ∧
      request <+: g.peerSocket.received ∧ answer.response <+: g.peerSocket.sent ∧
      g.session.Relays request.length answer.response.length
  | .dropped => ∃ request sent, g.session.Handshake request sent ∧
      ((sent = [] ∧ (request.length ≤ requestSize ∨ connectWord <+: request)) ∨
        ∃ answer, Answered o resolve request answer ∧ sent <+: answer.response)

variable {o : ByteOrder} {resolve : Resolver} {g g' : Gateway} {p : Progress} {op : Op UInt8}
  {received sent : Bytes}

/-! ### One step of the handshake -/

/-- One case for each operation that can be outstanding. -/
theorem moves_of_stepHandshake (h : g.stepHandshake o resolve op = some g') :
    g.Moves o resolve op g' := by
  unfold stepHandshake at h
  cases hph : g.phase with
  | accept ready =>
    simp only [hph] at h
    cases ready with
    | true =>
      cases op <;> cases h
      exact .begins hph
    | false =>
      cases op <;> cases h
      · exact .accepted hph
      · exact .acceptFails hph
  | recvHead request =>
    simp only [hph] at h
    cases op with
    | read data =>
      simp only [Option.ite_none_right_eq_some, Option.some.injEq] at h
      obtain ⟨⟨-, hle⟩, rfl⟩ := h
      exact .readsHead hph hle
    | run =>
      simp only [Option.ite_none_right_eq_some, Option.some.injEq] at h
      obtain ⟨hlen, rfl⟩ := h
      exact .headDone hph hlen
    | error =>
      simp only [Option.ite_none_right_eq_some, Option.some.injEq] at h
      obtain ⟨-, rfl⟩ := h
      exact .headFails hph
    | ready => cases h
    | write n => cases h
  | recvBody request =>
    simp only [hph] at h
    cases op with
    | read data =>
      simp only [Option.ite_none_right_eq_some, Option.some.injEq] at h
      obtain ⟨⟨-, hend⟩, rfl⟩ := h
      exact .readsBody hph hend
    | run =>
      simp only [Option.ite_none_right_eq_some, Option.map_eq_some_iff] at h
      obtain ⟨-, answer, hanswer, rfl⟩ := h
      exact .bodyDone hph hanswer
    | error =>
      simp only [Option.ite_none_right_eq_some, Option.some.injEq] at h
      obtain ⟨-, rfl⟩ := h
      exact .bodyFails hph
    | ready => cases h
    | write n => cases h
  | sendResult rest result endpoint =>
    simp only [hph] at h
    cases op with
    | write n =>
      simp only [Option.ite_none_right_eq_some, Option.some.injEq] at h
      obtain ⟨-, rfl⟩ := h
      exact .sends hph
    | run =>
      cases rest with
      | nil =>
        cases result with
        | false =>
          cases h
          exact .refuses hph
        | true =>
          cases endpoint <;> cases h
          exact .connects hph
      | cons b rest => cases h
    | error =>
      cases rest <;> cases h
      exact .sendFails hph
    | ready => cases rest <;> cases h
    | read data => cases rest <;> cases h
  | connect endpoint ready =>
    simp only [hph] at h
    cases ready with
    | true =>
      cases op <;> cases h
      exact .starts hph
    | false =>
      cases op <;> cases h
      · exact .connected hph
      · exact .connectFails hph
  | session => simp only [hph] at h; cases h
  | dropped => simp only [hph] at h; cases h

/-- A relay step is one of the session that has been started. -/
theorem relays_of_step {localRecv : Bool} (h : g.step o resolve (.relay localRecv op) = some g') :
    g.phase = .session ∧ ∃ session, g.session.step localRecv op = some session ∧
      g' = { g with session := session } := by
  simp only [step, Option.ite_none_right_eq_some, Option.map_eq_some_iff] at h
  obtain ⟨hph, session, hsession, rfl⟩ := h
  exact ⟨hph, session, hsession, rfl⟩

/-! ### What has gone through the sockets -/

theorem account_initial : Account o resolve initial := Session.handshake_fresh

theorem account_doSendResult {request : Bytes} {answer : Answer} (h : g.session.Handshake request [])
    (ha : Answered o resolve request answer) : Account o resolve (g.doSendResult answer) :=
  ⟨request, [], answer, ha, rfl, rfl, rfl, h⟩

theorem account_headReceived {request : Bytes} (h : g.session.Handshake request [])
    (hlen : request.length = requestSize) : Account o resolve (g.headReceived o request) := by
  unfold headReceived
  split
  · next hword =>
    have hbody : g.session.Handshake (connectWord ++ []) [] := by simpa [hword] using h
    exact hbody
  · next hword => exact account_doSendResult h (.binary request hlen hword)

theorem account_startSession {request : Bytes} {answer : Answer}
    (h : g.session.Handshake request answer.response) (ha : Answered o resolve request answer) :
    Account o resolve g.startSession := by
  have hreceived : request <+: g.peerSocket.received := ⟨[], by rw [h.received, List.append_nil]⟩
  have hsent : answer.response <+: g.peerSocket.sent := ⟨[], by rw [h.sent, List.append_nil]⟩
  exact ⟨request, answer, ha, hreceived, hsent, h.relays_start⟩

theorem account_moves (hg : Account o resolve g) (h : g.Moves o resolve op g') :
    Account o resolve g' := by
  unfold Account at hg
  cases h with
  | accepted hph =>
    simp only [hph] at hg
    exact hg
  | begins hph =>
    simp only [hph] at hg
    exact ⟨Nat.zero_le _, hg⟩
  | @readsHead request data hph hle =>
    simp only [hph] at hg
    rw [← List.length_append] at hle
    exact ⟨hle, hg.2.receive data⟩
  | headDone hph hlen =>
    simp only [hph] at hg
    exact account_headReceived hg.2 hlen
  | @readsBody request data hph _ =>
    simp only [hph] at hg
    have hmore := hg.receive data
    rw [List.append_assoc] at hmore
    exact hmore
  | @bodyDone request answer hph hanswer =>
    simp only [hph] at hg
    exact account_doSendResult hg (.connect request answer hanswer)
  | @sends rest result endpoint n hph =>
    simp only [hph] at hg
    obtain ⟨request, sent, answer, ha, rfl, rfl, hsent, hhand⟩ := hg
    refine ⟨request, sent ++ rest.take n, answer, ha, rfl, rfl, ?_, hhand.send _⟩
    rw [List.append_assoc, List.take_append_drop]
    exact hsent
  | refuses hph =>
    simp only [hph] at hg
    obtain ⟨request, sent, answer, ha, -, -, hsent, hhand⟩ := hg
    exact ⟨request, sent, hhand, .inr ⟨answer, ha, ⟨_, hsent⟩⟩⟩
  | connects hph =>
    simp only [hph] at hg
    obtain ⟨request, sent, answer, ha, hres, hend, hsent, hhand⟩ := hg
    rw [List.append_nil] at hsent
    subst hsent
    exact ⟨request, answer, ha, hres, hend, hhand⟩
  | connected hph =>
    simp only [hph] at hg
    exact hg
  | starts hph =>
    simp only [hph] at hg
    obtain ⟨request, answer, ha, -, -, hhand⟩ := hg
    exact account_startSession hhand ha
  | acceptFails hph =>
    simp only [hph] at hg
    exact ⟨[], [], hg, .inl ⟨rfl, .inl (Nat.zero_le _)⟩⟩
  | headFails hph =>
    simp only [hph] at hg
    exact ⟨_, [], hg.2, .inl ⟨rfl, .inl hg.1⟩⟩
  | bodyFails hph =>
    simp only [hph] at hg
    exact ⟨_, [], hg, .inl ⟨rfl, .inr (List.prefix_append _ _)⟩⟩
  | sendFails hph =>
    simp only [hph] at hg
    obtain ⟨request, sent, answer, ha, -, -, hsent, hhand⟩ := hg
    exact ⟨request, sent, hhand, .inr ⟨answer, ha, ⟨_, hsent⟩⟩⟩
  | connectFails hph =>
    simp only [hph] at hg
    obtain ⟨request, answer, ha, -, -, hhand⟩ := hg
    exact ⟨request, _, hhand, .inr ⟨answer, ha, List.prefix_rfl⟩⟩

theorem account_step (hg : Account o resolve g) (h : g.step o resolve p = some g') :
    Account o resolve g' := by
  cases p with
  | handshake op => exact account_moves hg (moves_of_stepHandshake h)
  | relay localRecv op =>
    obtain ⟨hph, session, hsession, rfl⟩ := relays_of_step h
    simp only [Account, hph] at hg ⊢
    obtain ⟨request, answer, ha, hreq, hresp, hrelays⟩ := hg
    obtain ⟨-, hsent, -, hreceived⟩ := Session.step_sockets hsession
    refine ⟨request, answer, ha, ?_, hresp.trans hsent, Session.relays_step hrelays hsession⟩
    show request <+: session.remoteSocket.received
    rw [hreceived]
    exact hreq.trans (List.prefix_append _ _)

/-! ### A client that sends a binary request -/

section Binary

variable {request message : Bytes} {answer : Answer}

theorem head_eq {head : Bytes} (hsize : head.length = requestSize) (hhead : head <+: received)
    (hmsg : received.take requestSize <+: message) (hlen : message.length = requestSize) :
    head = message := by
  have htake : head <+: received.take requestSize := by
    rw [← hsize, List.prefix_take_iff]
    exact ⟨hhead, Nat.le_refl _⟩
  exact (htake.trans hmsg).eq_of_length (hsize.trans hlen.symm)

/-- Whatever the client sends behind the request, only the request is answered. -/
theorem Answered.eq_binary (ha : Answered o resolve request answer) (hreq : request <+: received)
    (hmsg : received.take requestSize <+: message) (hlen : message.length = requestSize)
    (hword : message ≠ connectWord) : request = message ∧ answer = binaryAnswer o message := by
  cases ha with
  | binary request hsize hne =>
    obtain rfl := head_eq hsize hreq hmsg hlen
    exact ⟨rfl, rfl⟩
  | connect data answer hdata =>
    have hhead : connectWord = message :=
      head_eq rfl ((List.prefix_append _ _).trans hreq) hmsg hlen
    exact absurd hhead.symm hword

theorem opened_of_account (hg : Account o resolve g)
    (hmsg : g.peerSocket.received.take requestSize <+: message)
    (hlen : message.length = requestSize) (hword : message ≠ connectWord) :
    g.session.Opened requestSize (binaryAnswer o message).response := by
  have hanswered : ∀ {request sent answer}, g.session.Handshake request sent →
      Answered o resolve request answer → sent <+: answer.response →
      g.session.Opened requestSize (binaryAnswer o message).response := by
    intro request sent answer hhand ha hsent
    rw [hhand.received] at hmsg
    obtain ⟨rfl, rfl⟩ := ha.eq_binary List.prefix_rfl hmsg hlen hword
    exact .before request sent hhand (Nat.le_of_eq hlen) hsent
  have hconnect : ∀ {request sent}, g.session.Handshake request sent → ¬ connectWord <+: request := by
    intro request sent hhand hpre
    rw [hhand.received] at hmsg
    exact hword (head_eq rfl hpre hmsg hlen).symm
  unfold Account at hg
  cases hph : g.phase with
  | accept ready =>
    simp only [hph] at hg
    exact .before [] [] hg (Nat.zero_le _) List.nil_prefix
  | recvHead request =>
    simp only [hph] at hg
    exact .before request [] hg.2 hg.1 List.nil_prefix
  | recvBody request =>
    simp only [hph] at hg
    exact absurd (List.prefix_append _ _) (hconnect hg)
  | sendResult rest result endpoint =>
    simp only [hph] at hg
    obtain ⟨request, sent, answer, ha, -, -, hsent, hhand⟩ := hg
    exact hanswered hhand ha ⟨rest, hsent⟩
  | connect endpoint ready =>
    simp only [hph] at hg
    obtain ⟨request, answer, ha, -, -, hhand⟩ := hg
    exact hanswered hhand ha List.prefix_rfl
  | session =>
    simp only [hph] at hg
    obtain ⟨request, answer, ha, hreq, hresp, hrelays⟩ := hg
    obtain ⟨rfl, rfl⟩ := ha.eq_binary hreq hmsg hlen hword
    rw [hlen] at hrelays
    exact .started hrelays hresp
  | dropped =>
    simp only [hph] at hg
    obtain ⟨request, sent, hhand, ⟨rfl, hsize | hpre⟩ | ⟨answer, ha, hsent⟩⟩ := hg
    · exact .before request [] hhand hsize List.nil_prefix
    · exact absurd hpre (hconnect hhand)
    · exact hanswered hhand ha hsent

end Binary

/-! ### What a step does to the sockets -/

theorem shakes_of_stepHandshake (h : g.stepHandshake o resolve op = some g') :
    g.session.Shakes op g'.session := by
  cases moves_of_stepHandshake h with
  | readsHead _ _ => exact .receive _ rfl
  | readsBody _ _ => exact .receive _ rfl
  | sends _ => exact .send _ rfl
  | starts _ => exact .start rfl
  | headDone _ _ =>
    unfold headReceived
    split <;> exact .keep rfl
  | _ => exact .keep rfl

/-- The sockets have sent more or the same, and have received what the step reads. -/
theorem step_sockets (h : g.step o resolve p = some g') :
    g.hostSocket.sent <+: g'.hostSocket.sent ∧ g.peerSocket.sent <+: g'.peerSocket.sent ∧
      g'.hostSocket.received = g.hostSocket.received ++ p.localData ∧
      g'.peerSocket.received = g.peerSocket.received ++ p.remoteData := by
  cases p with
  | handshake op => exact (shakes_of_stepHandshake h).step_sockets
  | relay localRecv op =>
    obtain ⟨-, session, hsession, rfl⟩ := relays_of_step h
    cases localRecv <;> exact Session.step_sockets hsession

theorem closed_step (hop : p.op ≠ .error) (h : g.step o resolve p = some g') :
    g'.session.closed = g.session.closed := by
  cases p with
  | handshake op => exact (shakes_of_stepHandshake h).closed
  | relay localRecv op =>
    obtain ⟨-, session, hsession, rfl⟩ := relays_of_step h
    exact Session.closed_step hop hsession

end Gateway

end NetworkUtility.Tcp
