import NetworkUtility.Tcp.Truthful

/-! What a client sends behind a CONNECT request. `async_read_until` may take some of it together with
the end of the request. -/
namespace NetworkUtility.Tcp.Gateway

open Relay Machine Scan

/-- The target is sent the payload in order, and what has not been written yet is in the buffer. -/
def Forwards (g : Gateway) (head payload : Bytes) : Prop :=
  g.hostSocket.sent <+: payload ∧
    (g.session.closed = false →
      g.peerSocket.received = head ++ g.hostSocket.sent ++ g.session.remoteRecv.buffer)

/-- From here on every session forwards what the client sends behind the request. -/
def KeepsPayload (o : ByteOrder) (resolve : Resolver) (g : Gateway) (head : Bytes) : Prop :=
  ∀ as g' payload, Run (step o resolve) Free g as g' → g'.phase = .session →
    g'.peerSocket.received <+: head ++ payload → g'.Forwards head payload

variable {o : ByteOrder} {resolve : Resolver} {g g' : Gateway} {p : Progress} {op : Op UInt8}
  {request stream payload : Bytes} {answer : Answer} {as : List Progress} {len : Nat}

/-- The stream has been read when the request was answered, and a session begins behind it. -/
def Behind (g : Gateway) (stream : Bytes) : Prop :=
  match g.phase with
  | .sendResult _ _ _ => ∃ sent, g.session.Handshake stream sent
  | .connect _ _ => ∃ sent, g.session.Handshake stream sent
  | .session => stream <+: g.peerSocket.received ∧ ∃ j, g.session.Relays stream.length j
  | .dropped => True
  | _ => False

theorem behind_moves (hg : g.Behind stream) (h : g.Moves o resolve op g') :
    g'.Behind stream := by
  unfold Behind at hg
  cases h with
  | sends hph =>
    simp only [hph] at hg
    obtain ⟨sent, hhand⟩ := hg
    exact ⟨_, hhand.send _⟩
  | connects hph =>
    simp only [hph] at hg
    exact hg
  | connected hph =>
    simp only [hph] at hg
    exact hg
  | starts hph =>
    simp only [hph] at hg
    obtain ⟨sent, hhand⟩ := hg
    have hreceived : g.peerSocket.received = stream := hhand.received
    exact ⟨⟨[], (List.append_nil _).trans hreceived.symm⟩, _, hhand.relays_start⟩
  | accepted hph => simp only [hph] at hg
  | begins hph => simp only [hph] at hg
  | readsHead hph _ => simp only [hph] at hg
  | headDone hph _ => simp only [hph] at hg
  | readsBody hph _ => simp only [hph] at hg
  | bodyDone hph _ => simp only [hph] at hg
  | _ => trivial

theorem behind_step (hg : g.Behind stream) (h : g.step o resolve p = some g') :
    g'.Behind stream := by
  cases p with
  | handshake op => exact behind_moves hg (moves_of_stepHandshake h)
  | relay localRecv op =>
    obtain ⟨hph, session, hsession, rfl⟩ := relays_of_step h
    simp only [Behind, hph] at hg ⊢
    obtain ⟨hpre, j, hrelays⟩ := hg
    obtain ⟨-, -, -, hreceived⟩ := Session.step_sockets hsession
    refine ⟨?_, j, Session.relays_step hrelays hsession⟩
    show stream <+: session.remoteSocket.received
    rw [hreceived]
    exact hpre.trans (List.prefix_append _ _)

theorem behind_run (hg : g.Behind stream) (h : Run (step o resolve) Free g as g') :
    g'.Behind stream :=
  h.invariant (·.Behind stream) (fun _ _ _ hg _ hst => behind_step hg hst) hg

/-- The session forwards what comes behind the stream. -/
theorem forwards_of_behind (hg : g.Behind stream) (hph : g.phase = .session)
    (hreceived : g.peerSocket.received <+: stream ++ payload) : g.Forwards stream payload := by
  simp only [Behind, hph] at hg
  obtain ⟨⟨more, hmore⟩, j, hrelays⟩ := hg
  have hdrop : g.peerSocket.received.drop stream.length = more := by rw [← hmore, List.drop_left]
  have hpayload : more <+: payload := by rwa [← hmore, List.prefix_append_right_inj] at hreceived
  have horder := hrelays.remoteRecv.carries.order
  rw [hdrop, List.drop_zero] at horder
  refine ⟨horder.trans hpayload, fun hopen => ?_⟩
  have hwhole := hrelays.remoteRecv.carries.whole (hrelays.going hopen).2
  rw [hdrop, List.drop_zero] at hwhole
  rw [← hmore, hwhole, ← List.append_assoc]

/-- Only `stop` closes the sockets, and only a session calls it. -/
theorem open_of_run (h : Run (step o resolve) Free initial as g) (hph : g.phase ≠ .session) :
    g.session.closed = false := by
  refine h.invariant (fun g => g.phase ≠ .session → g.session.closed = false) ?_ (fun _ => rfl) hph
  intro g p g' hg _ hst hph'
  cases p with
  | handshake op =>
    rw [(shakes_of_stepHandshake hst).closed]
    refine hg fun hsession => ?_
    simp [step, stepHandshake, hsession] at hst
  | relay localRecv op =>
    obtain ⟨hsession, session, -, rfl⟩ := relays_of_step hst
    exact absurd hsession hph'

theorem connectAnswer_endpoint (h : connectAnswer resolve request = some answer)
    (hres : answer.result = true) : ∃ endpoint, answer.endpoint = some endpoint := by
  obtain ⟨⟨hostEnd, portEnd⟩, -, rfl⟩ := Option.map_eq_some_iff.mp h
  cases hostEnd with
  | none => cases hres
  | some hostEnd =>
    simp only [resolvedAnswer] at hres ⊢
    split at hres
    · cases hres
    · split at hres
      · cases hres
      · next endpoint hfind => simp

/-- The request has been read, with what came behind it, and its handler is to run. -/
structure Requested (resolve : Resolver) (g : Gateway) (request : Bytes) (len : Nat)
    (answer : Answer) : Prop where
  phase : g.phase = .recvBody request
  endOfHead : endOfHead request = some len
  answered : connectAnswer resolve request = some answer
  result : answer.result = true

theorem Requested.step (hg : Requested resolve g request len answer) :
    g.step o resolve (.handshake .run) = some (g.doSendResult answer) := by
  simp [Gateway.step, stepHandshake, hg.phase, hg.endOfHead, hg.answered]

/-- Nothing else can happen than that the request is answered. -/
theorem Requested.only_step (hg : Requested resolve g request len answer)
    (h : g.step o resolve p = some g') : g' = g.doSendResult answer := by
  cases p with
  | handshake op =>
    cases op with
    | run => exact Option.some.inj (h.symm.trans hg.step)
    | _ => simp [Gateway.step, stepHandshake, hg.phase, hg.endOfHead] at h
  | relay localRecv op => simp [Gateway.step, hg.phase] at h

theorem Requested.handshake (hg : Requested resolve g request len answer)
    (h : Run (Gateway.step o resolve) Free initial as g) :
    g.session.Handshake (connectWord ++ request) [] := by
  have hacc := account_of_run h
  unfold Account at hacc
  simpa only [hg.phase] using hacc

/-- The target is reached, and the session starts with nothing relayed. -/
theorem Requested.exists_session (hg : Requested resolve g request len answer)
    (h : Run (Gateway.step o resolve) Free initial as g) :
    ∃ bs g', Run (Gateway.step o resolve) Free g bs g' ∧ g'.phase = .session ∧
      g'.session.closed = false ∧ g'.hostSocket.sent = [] ∧ g'.session.remoteRecv.buffer = [] ∧
      g'.peerSocket.received = connectWord ++ request := by
  obtain ⟨endpoint, hendpoint⟩ := connectAnswer_endpoint hg.answered hg.result
  have hne : answer.response ≠ [] :=
    (Answered.connect (o := o) request answer hg.answered).response_ne_nil
  have hsent : (((g.doSendResult answer).send answer.response).enter
      (.sendResult [] answer.result answer.endpoint)).step o resolve (.handshake .run) =
      some (((g.doSendResult answer).send answer.response).enter (.connect endpoint false)) := by
    simp [Gateway.step, stepHandshake, enter, resultSent, hg.result, hendpoint]
  have hstart : Run (Gateway.step o resolve) Free
      (((g.doSendResult answer).send answer.response).enter (.connect endpoint false))
      [.handshake .ready, .handshake .run]
      (((g.doSendResult answer).send answer.response).enter (.connect endpoint true)).startSession :=
    .cons trivial rfl (.cons trivial rfl (.nil _))
  have hhand := hg.handshake h
  have hopen : g.session.closed = false := open_of_run h (by simp [hg.phase])
  have hnone : g.hostSocket.sent = [] := by rw [hostSocket, hhand.localSocket, Socket.fresh_sent]
  exact ⟨_, _, .cons trivial hg.step (.cons trivial (step_write_answer rfl hne)
    (.cons trivial hsent hstart)), rfl, hopen, hnone, rfl, hhand.received⟩

/-- All of the payload is forwarded exactly when the read that completed the request took none of it:
what it took stays in the streambuf of the request. -/
theorem keeps_payload_iff (h : Run (Gateway.step o resolve) Free initial as g)
    (hg : Requested resolve g request len answer) :
    KeepsPayload o resolve g (connectWord ++ request.take len) ↔ request.length = len := by
  refine ⟨fun hkeeps => ?_, fun hlen bs g' payload hrun hph hreceived => ?_⟩
  · obtain ⟨bs, g', hrun, hph, hopen, hsent, hbuffer, hreceived⟩ := hg.exists_session h
    have hpre : g'.peerSocket.received <+:
        connectWord ++ request.take len ++ request.drop len := by
      rw [hreceived, List.append_assoc, List.take_append_drop]
    have hwhole := (hkeeps bs g' (request.drop len) hrun hph hpre).2 hopen
    rw [hreceived, hsent, hbuffer, List.append_nil, List.append_nil,
      List.append_right_inj] at hwhole
    have htake := congrArg List.length hwhole
    have hle := endOfHead_le hg.endOfHead
    rw [List.length_take] at htake
    omega
  · rw [← hlen, List.take_length] at hreceived ⊢
    cases hrun with
    | nil => exact absurd (hph.symm.trans hg.phase) (by simp)
    | cons _ hst hrest =>
      obtain rfl := hg.only_step hst
      have hbehind : (g.doSendResult answer).Behind (connectWord ++ request) :=
        ⟨[], hg.handshake h⟩
      exact forwards_of_behind (behind_run hbehind hrest) hph hreceived

def tunnelRequest : Bytes := ascii " a:1 \r\n\r\n"

theorem requestEnd : endOfHead tunnelRequest = some 9 := by
  decide

def resolveAll : Resolver := fun _ _ => some [.v4 1 1]

/-- The body of the request in one read. -/
def requestRead (data : Bytes) : List Progress :=
  [.handshake .ready, .handshake .run, .handshake (.read connectWord), .handshake .run,
    .handshake (.read data)]

def requested (data : Bytes) : Gateway :=
  (exec (step .big resolveAll) Free initial (requestRead data)).getD initial

theorem requested_run :
    Run (step .big resolveAll) Free initial (requestRead tunnelRequest) (requested tunnelRequest) :=
  run_exec _ Free _ _ (by decide)

theorem requested_more_run :
    Run (step .big resolveAll) Free initial (requestRead (tunnelRequest ++ [88]))
      (requested (tunnelRequest ++ [88])) :=
  run_exec _ Free _ _ (by decide)

/-- A read that ends with the request, and one that goes on to the first byte behind it. -/
theorem keeps_payload_iff_example :
    KeepsPayload .big resolveAll (requested tunnelRequest) (connectWord ++ tunnelRequest) ∧
    ¬ KeepsPayload .big resolveAll (requested (tunnelRequest ++ [88]))
      (connectWord ++ (tunnelRequest ++ [88]).take 9) := by
  refine ⟨?_, fun hkeeps => ?_⟩
  · have hiff := keeps_payload_iff requested_run ⟨rfl, requestEnd, rfl, rfl⟩
    exact hiff.mpr rfl
  · have hlen := (keeps_payload_iff requested_more_run ⟨rfl, by decide, rfl, rfl⟩).mp hkeeps
    exact absurd hlen (by decide)

/-- Two bytes come behind the request, the first together with its end: the target is sent the second. -/
theorem first_byte_lost :
    ¬ ∀ o resolve as g request len answer, Run (Gateway.step o resolve) Free initial as g →
      Requested resolve g request len answer →
        KeepsPayload o resolve g (connectWord ++ request.take len) := by
  intro h
  have hsession := run_exec (step .big resolveAll) Free (requested (tunnelRequest ++ [88]))
    [.handshake .run, .handshake (.write connectionEstablished.length), .handshake .run,
      .handshake .ready, .handshake .run, .relay false (.read [89]), .relay false .run,
      .relay false (.write 1)] (by decide)
  have hkeeps := h _ _ _ _ _ 9 _ requested_more_run ⟨rfl, by decide, rfl, rfl⟩
  have hsent := (hkeeps _ _ [88, 89] hsession (by decide) (by decide)).1
  exact absurd hsent (by decide)

end NetworkUtility.Tcp.Gateway
