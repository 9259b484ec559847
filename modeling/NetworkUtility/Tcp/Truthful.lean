import NetworkUtility.EtcpClient.Model
import NetworkUtility.Tcp.Tunnel

/-! What the success result of `TcpGatewayServerImpl` says about the target. -/
namespace NetworkUtility.Tcp

open Relay Machine Scan

/-- What has been sent begins with the success result of either format. -/
def Success (sent : Bytes) : Prop := [0x1] <+: sent ∨ connectionEstablished <+: sent

def failures : List Bytes := [[0x0], badRequest, badGateway, notFound]

/-- `"HTTP/1.1 "`. -/
def httpWord : Bytes := [72, 84, 84, 80, 47, 49, 46, 49, 32]

theorem ascii_append (text more : String) : ascii (text ++ more) = ascii text ++ ascii more := by
  simp [ascii]

/-- A response by its status line: the word, the code and the reason with the rest. -/
theorem ascii_status (code reason : String) :
    ascii ("HTTP/1.1 " ++ code ++ reason) = httpWord ++ (ascii code ++ ascii reason) := by
  have hword : ascii "HTTP/1.1 " = httpWord := by decide
  rw [ascii_append, ascii_append, hword, List.append_assoc]

theorem connectionEstablished_eq : ∃ reason, connectionEstablished =
    httpWord ++ ([50, 48, 48] ++ 32 :: reason) :=
  ⟨_, ascii_status "200 " "Connection Established\r\nContent-Length: 0\r\n\r\n"⟩

theorem badRequest_eq : ∃ reason, badRequest = httpWord ++ ([52, 48, 48] ++ 32 :: reason) :=
  ⟨_, ascii_status "400 " "Bad Request\r\nContent-Length: 0\r\n\r\n"⟩

theorem badGateway_eq : ∃ reason, badGateway = httpWord ++ ([53, 48, 50] ++ 32 :: reason) :=
  ⟨_, ascii_status "502 " "Bad Gateway\r\nContent-Length: 0\r\n\r\n"⟩

theorem notFound_eq : ∃ reason, notFound = httpWord ++ ([52, 48, 52] ++ 32 :: reason) :=
  ⟨_, ascii_status "404 " "Not Found\r\nContent-Length: 0\r\n\r\n"⟩

/-- No failure begins like a success of its format. -/
theorem failure_form {response : Bytes} (h : response ∈ failures) :
    response = [0x0] ∨ ∃ digit more, response = httpWord ++ digit :: more ∧ digit ≠ 50 := by
  simp only [failures, List.mem_cons, List.not_mem_nil, or_false] at h
  rcases h with rfl | rfl | rfl | rfl
  · exact .inl rfl
  · obtain ⟨reason, hreason⟩ := badRequest_eq
    exact .inr ⟨52, _, hreason, by decide⟩
  · obtain ⟨reason, hreason⟩ := badGateway_eq
    exact .inr ⟨53, _, hreason, by decide⟩
  · obtain ⟨reason, hreason⟩ := notFound_eq
    exact .inr ⟨52, _, hreason, by decide⟩

theorem not_success_of_failure {sent response : Bytes} (h : response ∈ failures)
    (hsent : sent <+: response) : ¬ Success sent := by
  obtain ⟨reason, hok⟩ := connectionEstablished_eq
  rintro (hpre | hpre)
  · have hone := hpre.trans hsent
    obtain rfl | ⟨digit, more, rfl, -⟩ := failure_form h
    · exact absurd hone (by decide)
    · exact absurd (List.cons_prefix_cons.mp hone).1 (by decide)
  · have hwhole := hpre.trans hsent
    rw [hok] at hwhole
    obtain rfl | ⟨digit, more, rfl, hdigit⟩ := failure_form h
    · exact absurd (List.cons_prefix_cons.mp hwhole).1 (by decide)
    · rw [List.prefix_append_right_inj] at hwhole
      exact hdigit (List.cons_prefix_cons.mp hwhole).1.symm

theorem not_success_nil : ¬ Success [] := by
  rintro (hpre | hpre)
  · exact absurd hpre.length_le (by decide)
  · exact absurd hpre.length_le (by decide)

/-! ### The answers -/

section Answers

variable {o : ByteOrder} {resolve : Resolver} {request request' data stream : Bytes}
  {answer answer' : Answer}

theorem resolvedAnswer_response (endpoints : Option (List Endpoint)) :
    ((resolvedAnswer endpoints).result = true ∧
        (resolvedAnswer endpoints).response = connectionEstablished) ∨
      ((resolvedAnswer endpoints).result = false ∧
        (resolvedAnswer endpoints).response ∈ [badRequest, badGateway, notFound]) := by
  unfold resolvedAnswer
  split
  · exact .inr ⟨rfl, by simp⟩
  · split
    · exact .inr ⟨rfl, by simp⟩
    · exact .inl ⟨rfl, rfl⟩

theorem connectAnswer_response (h : connectAnswer resolve data = some answer) :
    (answer.result = true ∧ answer.response = connectionEstablished) ∨
      (answer.result = false ∧ answer.response ∈ [badRequest, badGateway, notFound]) := by
  obtain ⟨⟨hostEnd, portEnd⟩, -, rfl⟩ := Option.map_eq_some_iff.mp h
  cases hostEnd with
  | none => exact .inr ⟨rfl, by simp⟩
  | some hostEnd => exact resolvedAnswer_response _

theorem binaryAnswer_response (o : ByteOrder) (request : Bytes) :
    ((binaryAnswer o request).result = true ∧ (binaryAnswer o request).response = [0x1]) ∨
      ((binaryAnswer o request).result = false ∧ (binaryAnswer o request).response = [0x0]) := by
  simp only [binaryAnswer]
  split
  · exact .inr ⟨rfl, rfl⟩
  · exact .inl ⟨rfl, rfl⟩

namespace Gateway

/-- `*result` says which of the results is sent. -/
theorem Answered.response (ha : Answered o resolve request answer) :
    (answer.result = true ∧ Success answer.response) ∨
      (answer.result = false ∧ answer.response ∈ failures) := by
  cases ha with
  | binary request _ _ =>
    obtain ⟨hres, hresp⟩ | ⟨hres, hresp⟩ := binaryAnswer_response o request
    · exact .inl ⟨hres, .inl (hresp ▸ List.prefix_rfl)⟩
    · exact .inr ⟨hres, hresp ▸ List.mem_cons_self⟩
  | connect data answer hdata =>
    obtain ⟨hres, hresp⟩ | ⟨hres, hresp⟩ := connectAnswer_response hdata
    · exact .inl ⟨hres, .inr (hresp ▸ List.prefix_rfl)⟩
    · exact .inr ⟨hres, List.mem_cons_of_mem _ hresp⟩

theorem Answered.response_ne_nil (ha : Answered o resolve request answer) :
    answer.response ≠ [] := by
  intro hnil
  obtain ⟨-, hsuccess⟩ | ⟨-, hfailure⟩ := ha.response
  · exact not_success_nil (hnil ▸ hsuccess)
  · obtain hzero | ⟨digit, more, hmore, -⟩ := failure_form hfailure
    · exact absurd (hnil.symm.trans hzero) (by decide)
    · exact absurd (hnil.symm.trans hmore) (by simp)

/-- A binary request is not the beginning of a CONNECT. -/
theorem eq_connectWord (hlen : request.length = requestSize) (hpre : request <+: stream)
    (hword : connectWord <+: stream) : request = connectWord :=
  (List.prefix_of_prefix_length_le hpre hword (Nat.le_of_eq hlen)).eq_of_length hlen

theorem connectAnswer_unique {data' : Bytes} (h : connectAnswer resolve data = some answer)
    (h' : connectAnswer resolve data' = some answer') (hpre : data <+: data') :
    answer = answer' := by
  obtain ⟨more, rfl⟩ := hpre
  rw [connectAnswer_append h] at h'
  exact Option.some.inj h'

/-- However much of a stream is read before its request is answered, the answer is the same. -/
theorem Answered.unique (ha : Answered o resolve request answer)
    (ha' : Answered o resolve request' answer') (hpre : request <+: stream)
    (hpre' : request' <+: stream) : answer = answer' := by
  cases ha with
  | binary request hlen hword =>
    cases ha' with
    | binary request' hlen' hword' =>
      have hle := List.prefix_of_prefix_length_le hpre hpre' (Nat.le_of_eq (hlen.trans hlen'.symm))
      rw [hle.eq_of_length (hlen.trans hlen'.symm)]
    | connect data' answer' hdata' =>
      have hconnect := (List.prefix_append connectWord data').trans hpre'
      exact absurd (eq_connectWord hlen hpre hconnect) hword
  | connect data answer hdata =>
    cases ha' with
    | binary request' hlen' hword' =>
      have hconnect := (List.prefix_append connectWord data).trans hpre
      exact absurd (eq_connectWord hlen' hpre' hconnect) hword'
    | connect data' answer' hdata' =>
      rcases Nat.le_total data.length data'.length with hle | hle
      · have hsub := List.prefix_of_prefix_length_le hpre hpre'
          (by rw [List.length_append, List.length_append]; omega)
        rw [List.prefix_append_right_inj] at hsub
        exact connectAnswer_unique hdata hdata' hsub
      · have hsub := List.prefix_of_prefix_length_le hpre' hpre
          (by rw [List.length_append, List.length_append]; omega)
        rw [List.prefix_append_right_inj] at hsub
        exact (connectAnswer_unique hdata' hdata hsub).symm

end Gateway

end Answers

/-! ### The gateway -/

namespace Gateway

/-- `async_connect` to the target has succeeded. -/
def established (g : Gateway) : Bool :=
  match g.phase with
  | .connect _ ready => ready
  | .session => true
  | _ => false

/-- The handler finds that there will be no connection to the target. -/
def givesUp (g : Gateway) (op : Op UInt8) : Bool :=
  match g.phase, op with
  | .connect _ false, .error => true
  | .sendResult [] false _, .run => true
  | _, _ => false

/-- A client that sends the request, and then anything, is sent the success result only behind the
connect, and the failure result when there is no connection. -/
def TruthfulTo (o : ByteOrder) (resolve : Resolver) (request : Bytes) : Prop :=
  ∀ as g payload, Run (step o resolve) Free initial as g →
    g.peerSocket.received <+: request ++ payload →
      (Success g.peerSocket.sent → g.established = true) ∧
      ∀ op g', g.stepHandshake o resolve op = some g' → g.givesUp op = true →
        g'.peerSocket.sent ∈ failures

variable {o : ByteOrder} {resolve : Resolver} {g g' : Gateway} {request payload : Bytes}
  {answer : Answer} {as : List Progress}

theorem account_of_run (h : Run (step o resolve) Free initial as g) : Account o resolve g :=
  h.invariant (Account o resolve) (fun _ _ _ hg _ hst => account_step hg hst) account_initial

theorem received_within {received sent : Bytes} (hhand : g.session.Handshake received sent)
    (hreceived : g.peerSocket.received <+: request ++ payload) : received <+: request ++ payload := by
  have heq : g.peerSocket.received = received := hhand.received
  rwa [heq] at hreceived

/-- A request that is refused is not connected for. -/
theorem truthful_of_refused (ha : Answered o resolve request answer)
    (hres : answer.result = false) (hg : Account o resolve g)
    (hreceived : g.peerSocket.received <+: request ++ payload) :
    (Success g.peerSocket.sent → g.established = true) ∧
      ∀ op g', g.stepHandshake o resolve op = some g' → g.givesUp op = true →
        g'.peerSocket.sent ∈ failures := by
  have hfailure : answer.response ∈ failures := by
    obtain ⟨htrue, -⟩ | ⟨-, hfailure⟩ := ha.response
    · simp [htrue] at hres
    · exact hfailure
  have hsame : ∀ {request' answer'}, Answered o resolve request' answer' →
      request' <+: request ++ payload → answer' = answer :=
    fun ha' hpre => ha'.unique ha hpre (List.prefix_append _ _)
  have hnothing : ∀ {received}, g.session.Handshake received [] →
      Success g.peerSocket.sent → g.established = true := by
    intro received hhand hsuccess
    have hsent : g.peerSocket.sent = [] := hhand.sent
    rw [hsent] at hsuccess
    exact absurd hsuccess not_success_nil
  unfold Account at hg
  cases hph : g.phase with
  | accept ready =>
    simp only [hph] at hg
    exact ⟨hnothing hg, by simp [givesUp, hph]⟩
  | recvHead request' =>
    simp only [hph] at hg
    exact ⟨hnothing hg.2, by simp [givesUp, hph]⟩
  | recvBody request' =>
    simp only [hph] at hg
    exact ⟨hnothing hg, by simp [givesUp, hph]⟩
  | sendResult rest result endpoint =>
    simp only [hph] at hg
    obtain ⟨request', sent, answer', ha', rfl, -, hsent, hhand⟩ := hg
    obtain rfl := hsame ha' (received_within hhand hreceived)
    have hsentEq : g.peerSocket.sent = sent := hhand.sent
    refine ⟨fun hsuccess => ?_, fun op g' hst hup => ?_⟩
    · rw [hsentEq] at hsuccess
      exact absurd hsuccess (not_success_of_failure hfailure ⟨rest, hsent⟩)
    · cases rest with
      | cons b rest => simp [givesUp, hph] at hup
      | nil =>
        cases op with
        | run =>
          simp only [stepHandshake, hph, hres, resultSent, Option.some.injEq] at hst
          rw [List.append_nil] at hsent
          subst hst
          show g.peerSocket.sent ∈ failures
          rw [hsentEq, hsent]
          exact hfailure
        | _ => simp [givesUp, hph] at hup
  | connect endpoint ready =>
    simp only [hph] at hg
    obtain ⟨request', answer', ha', htrue, -, hhand⟩ := hg
    obtain rfl := hsame ha' (received_within hhand hreceived)
    simp [htrue] at hres
  | session =>
    simp only [hph] at hg
    obtain ⟨request', answer', ha', -, -, -⟩ := hg
    refine ⟨fun _ => by rw [established, hph], by simp [givesUp, hph]⟩
  | dropped =>
    simp only [hph] at hg
    obtain ⟨received, sent, hhand, hcase⟩ := hg
    have hsentEq : g.peerSocket.sent = sent := hhand.sent
    refine ⟨fun hsuccess => ?_, by simp [givesUp, hph]⟩
    rw [hsentEq] at hsuccess
    obtain ⟨rfl, -⟩ | ⟨answer', ha', hsent⟩ := hcase
    · exact absurd hsuccess not_success_nil
    · obtain rfl := hsame ha' (received_within hhand hreceived)
      exact absurd hsuccess (not_success_of_failure hfailure hsent)

theorem step_read_head (hph : g.phase = .recvHead []) (hlen : request.length = requestSize) :
    g.step o resolve (.handshake (.read request)) =
      some ((g.receive request).enter (.recvHead request)) := by
  have hne : request ≠ [] := by
    rintro rfl
    cases hlen
  simp [step, stepHandshake, hph, hne, hlen]

/-- The answer is written at once. -/
theorem step_write_answer (hph : g.phase = .sendResult answer.response answer.result answer.endpoint)
    (hne : answer.response ≠ []) :
    g.step o resolve (.handshake (.write answer.response.length)) =
      some ((g.send answer.response).enter (.sendResult [] answer.result answer.endpoint)) := by
  have hpos : 0 < answer.response.length := List.length_pos_iff.mpr hne
  simp [step, stepHandshake, hph, hpos]

def afterHead (request : Bytes) : Gateway :=
  ((initial.enter (.recvHead [])).receive request).enter (.recvHead request)

theorem run_head (hlen : request.length = requestSize) :
    Run (step o resolve) Free initial
      [.handshake .ready, .handshake .run, .handshake (.read request)] (afterHead request) :=
  .cons trivial rfl (.cons trivial rfl (.cons trivial (step_read_head rfl hlen) (.nil _)))

theorem exists_run_binary (o : ByteOrder) (resolve : Resolver)
    (hlen : request.length = requestSize) (hword : request ≠ connectWord) :
    ∃ as g, Run (step o resolve) Free initial as g ∧ g.peerSocket.received = request ∧
      g.hostSocket.received = [] ∧ g.peerSocket.sent = (binaryAnswer o request).response ∧
      g.phase = .sendResult [] (binaryAnswer o request).result (binaryAnswer o request).endpoint := by
  have ha : Answered o resolve request (binaryAnswer o request) := .binary request hlen hword
  have hne := ha.response_ne_nil
  have hrun : (afterHead request).step o resolve (.handshake .run) =
      some ((afterHead request).doSendResult (binaryAnswer o request)) := by
    simp [step, stepHandshake, afterHead, enter, hlen, headReceived, hword]
  exact ⟨_, _, (run_head hlen).append (.cons trivial hrun
    (.cons trivial (step_write_answer rfl hne) (.nil _))), rfl, rfl, rfl, rfl⟩

/-- A client sends the whole request and is sent the whole answer. -/
theorem exists_run_answered (ha : Answered o resolve request answer) :
    ∃ as g payload, Run (step o resolve) Free initial as g ∧
      g.peerSocket.received = request ++ payload ∧ g.peerSocket.sent = answer.response ∧
      g.phase = .sendResult [] answer.result answer.endpoint := by
  have hne := ha.response_ne_nil
  cases ha with
  | binary request hlen hword =>
    obtain ⟨as, g, hrun, hreceived, -, hsent, hph⟩ :=
      exists_run_binary o resolve hlen hword
    exact ⟨as, g, [], hrun, by rw [hreceived, List.append_nil], hsent, hph⟩
  | connect data answer hdata =>
    have hrun : (afterHead connectWord).step o resolve (.handshake .run) =
        some ((afterHead connectWord).enter (.recvBody [])) := by
      simp [step, stepHandshake, afterHead, enter, headReceived, requestSize, connectWord]
    have hread : ((afterHead connectWord).enter (.recvBody [])).step o resolve
        (.handshake (.read (data ++ [13, 10, 13, 10]))) =
        some ((((afterHead connectWord).enter (.recvBody [])).receive (data ++ [13, 10, 13, 10])).enter
          (.recvBody (data ++ [13, 10, 13, 10]))) := by
      simp [step, stepHandshake, enter, endOfHead]
    have hend : (endOfHead (data ++ [13, 10, 13, 10])).isSome = true :=
      endOfHead_behind data rfl
    have hbody : ((((afterHead connectWord).enter (.recvBody [])).receive
          (data ++ [13, 10, 13, 10])).enter (.recvBody (data ++ [13, 10, 13, 10]))).step o resolve
        (.handshake .run) =
        some (((((afterHead connectWord).enter (.recvBody [])).receive
          (data ++ [13, 10, 13, 10])).enter (.recvBody (data ++ [13, 10, 13, 10]))).doSendResult
            answer) := by
      simp [step, stepHandshake, enter, hend, connectAnswer_append hdata]
    refine ⟨_, _, [13, 10, 13, 10], (run_head rfl).append (.cons trivial hrun (.cons trivial hread
      (.cons trivial hbody (.cons trivial (step_write_answer rfl hne) (.nil _))))), ?_, ?_, rfl⟩
    · show connectWord ++ (data ++ [13, 10, 13, 10]) = _
      rw [List.append_assoc]
    · rfl

theorem truthfulTo_iff (ha : Answered o resolve request answer) :
    TruthfulTo o resolve request ↔ answer.result = false := by
  refine ⟨fun htruthful => ?_, fun hres => ?_⟩
  · obtain ⟨as, g, payload, hrun, hreceived, hsent, hph⟩ := exists_run_answered ha
    obtain ⟨-, hsuccess⟩ | ⟨hres, -⟩ := ha.response
    · have hest := (htruthful as g payload hrun (hreceived ▸ List.prefix_rfl)).1 (hsent ▸ hsuccess)
      simp [established, hph] at hest
    · exact hres
  · exact fun as g payload hrun hreceived =>
      truthful_of_refused ha hres (account_of_run hrun) hreceived

end Gateway

/-! ### The two clients -/

section Clients

variable {o : ByteOrder} {resolve : Resolver} {data : Bytes} {answer : Answer}

theorem httpStatus_line {digits : Bytes} (h : digits ∈ [[50, 48, 48], [52, 48, 48], [52, 48, 52],
    [53, 48, 50]]) (reason : Bytes) :
    EtcpClient.httpStatus (httpWord ++ (digits ++ 32 :: reason)) = decimal digits := by
  simp only [List.mem_cons, List.not_mem_nil, or_false] at h
  rcases h with rfl | rfl | rfl | rfl <;>
  · simp [httpWord, EtcpClient.httpStatus, scanLiteral, scanFloat, scanInt, scanWord, scanUnsigned,
      scanNumber, mantissa, exponent, skipSign, isDigit, isSpace, lower]
    decide

/-- `do_proxy` of `EtcpClientImpl` takes the answer for what it says. -/
theorem succeeded_answer (h : connectAnswer resolve data = some answer) (more : Bytes) :
    EtcpClient.succeeded (EtcpClient.httpStatus (answer.response ++ more)) = answer.result := by
  have hline : ∀ {response digits : Bytes}, digits ∈ [[50, 48, 48], [52, 48, 48], [52, 48, 52],
      [53, 48, 50]] → (∃ reason, response = httpWord ++ (digits ++ 32 :: reason)) →
        EtcpClient.httpStatus (response ++ more) = decimal digits := by
    rintro response digits hdigits ⟨reason, rfl⟩
    rw [List.append_assoc, List.append_assoc]
    exact httpStatus_line hdigits (reason ++ more)
  obtain ⟨hres, hresp⟩ | ⟨hres, hresp⟩ := connectAnswer_response h
  · rw [hres, hresp, hline (by simp) connectionEstablished_eq]
    rfl
  · rw [hres]
    simp only [List.mem_cons, List.not_mem_nil, or_false] at hresp
    rcases hresp with hresp | hresp | hresp
    · rw [hresp, hline (by simp) badRequest_eq]
      rfl
    · rw [hresp, hline (by simp) badGateway_eq]
      rfl
    · rw [hresp, hline (by simp) notFound_eq]
      rfl

end Clients

namespace Forward

variable {f f' : Forward} {p : Progress} {message : Bytes}

/-- The result that the session was started for. -/
def Confirmed (f : Forward) : Prop := f.phase = .session → ∃ r, r ≠ 0 ∧ [r] <+: f.peerSocket.received

theorem confirmed_step (hf : f.Account) (hc : f.Confirmed) (h : f.step p = some f') :
    f'.Confirmed := by
  intro hsession
  obtain ⟨-, -, -, hreceived⟩ := step_sockets h
  by_cases hbefore : f.phase = .session
  · obtain ⟨r, hr, hpre⟩ := hc hbefore
    refine ⟨r, hr, ?_⟩
    rw [hreceived]
    exact hpre.trans (List.prefix_append _ _)
  · cases p with
    | relay localRecv op => simp [step, hbefore] at h
    | handshake op =>
      cases moves_of_stepHandshake h with
      | @starts r hph hr =>
        simp only [Account, hph] at hf
        have hone : f.peerSocket.received = [r] := hf.received
        exact ⟨r, hr, hone ▸ List.prefix_rfl⟩
      | _ => cases hsession

/-- The request is written and the result is awaited. -/
theorem exists_run_asked (hne : message ≠ []) :
    ∃ as f, Run step Free (initial message) as f ∧ f.phase = .readResult none ∧
      f.peerSocket.sent = message ∧ f.peerSocket.received = [] ∧ f.hostSocket.received = [] := by
  have hpos : 0 < message.length := List.length_pos_iff.mpr hne
  have hwrite : (((initial message).enter (.write message)).step (.handshake (.write message.length))) =
      some ((((initial message).enter (.write message)).send message).enter (.write [])) := by
    have hsend := step_of_moves (f := (initial message).enter (.write message))
      (.sends rfl hpos (Nat.le_refl _))
    rw [List.take_length, List.drop_length] at hsend
    exact hsend
  refine ⟨[.handshake .ready, .handshake .run, .handshake .ready, .handshake .run,
    .handshake (.write message.length), .handshake .run],
    ((initial message).send message).enter (.readResult none), ?_, ?_⟩
  · exact .cons trivial rfl (.cons trivial rfl (.cons trivial rfl (.cons trivial rfl
      (.cons trivial hwrite (.cons trivial rfl (.nil _))))))
  · exact ⟨rfl, rfl, rfl, rfl⟩

theorem exists_run_confirmed {r : UInt8} (hph : f.phase = .readResult none) (hr : r ≠ 0) :
    ∃ as f', Run step Free f as f' ∧ f'.phase = .session ∧
      f'.peerSocket.received = f.peerSocket.received ++ [r] ∧
      f'.hostSocket.received = f.hostSocket.received := by
  have hread : f.step (.handshake (.read [r])) =
      some ((f.receive [r]).enter (.readResult (some r))) :=
    step_of_moves (.receives r hph)
  have hstart : ((f.receive [r]).enter (.readResult (some r))).step (.handshake .run) =
      some ((f.receive [r]).enter (.readResult (some r))).startSession :=
    step_of_moves (f := (f.receive [r]).enter (.readResult (some r))) (.starts rfl hr)
  exact ⟨_, _, .cons trivial hread (.cons trivial hstart (.nil _)), rfl, rfl, rfl⟩

end Forward

namespace Tunnel

/-- `TcpForwardAcceptor` starts a session only when the gateway has reached the target. -/
def StartsTruthfully (o : ByteOrder) (resolve : Resolver) (message : Bytes) : Prop :=
  ∀ as t, Run (step o resolve) Free (initial message) as t →
    t.forward.phase = .session → t.gateway.established = true

variable {o : ByteOrder} {resolve : Resolver} {message : Bytes} {t : Tunnel} {f : Forward}
  {g : Gateway} {as : List Action} {ps : List Progress}

/-- A process alone runs in the tunnel as far as its reads find what the others have sent. -/
theorem run_forward (o : ByteOrder) (resolve : Resolver) (h : Run Forward.step Free t.forward ps f)
    (hhost : f.hostSocket.received <+: t.application.sent)
    (hpeer : f.peerSocket.received <+: t.gateway.peerSocket.sent) :
    Run (step o resolve) Free t (ps.map .forward) { t with forward := f } := by
  refine (h.lift (fun f => { t with forward := f }) Action.forward (fun f =>
    f.hostSocket.received <+: t.application.sent ∧
      f.peerSocket.received <+: t.gateway.peerSocket.sent) ?_ ?_ ⟨hhost, hpeer⟩).1
  · intro f p f' hst hmet
    obtain ⟨-, -, hlocal, hremote⟩ := Forward.step_sockets hst
    rw [hlocal, hremote] at hmet
    exact ⟨(List.prefix_append _ _).trans hmet.1, (List.prefix_append _ _).trans hmet.2⟩
  · intro f p f' hst hmet
    obtain ⟨-, -, hlocal, hremote⟩ := Forward.step_sockets hst
    rw [hlocal, hremote] at hmet
    simp only [step, hst, if_pos hmet, Option.map_some]

theorem run_gateway (h : Run (Gateway.step o resolve) Free t.gateway ps g)
    (hhost : g.hostSocket.received <+: t.target.sent)
    (hpeer : g.peerSocket.received <+: t.forward.peerSocket.sent) :
    Run (step o resolve) Free t (ps.map .gateway) { t with gateway := g } := by
  refine (h.lift (fun g => { t with gateway := g }) Action.gateway (fun g =>
    g.hostSocket.received <+: t.target.sent ∧
      g.peerSocket.received <+: t.forward.peerSocket.sent) ?_ ?_ ⟨hhost, hpeer⟩).1
  · intro g p g' hst hmet
    obtain ⟨-, -, hlocal, hremote⟩ := Gateway.step_sockets hst
    rw [hlocal, hremote] at hmet
    exact ⟨(List.prefix_append _ _).trans hmet.1, (List.prefix_append _ _).trans hmet.2⟩
  · intro g p g' hst hmet
    obtain ⟨-, -, hlocal, hremote⟩ := Gateway.step_sockets hst
    rw [hlocal, hremote] at hmet
    simp only [step, hst, if_pos hmet, Option.map_some]

theorem confirmed_run (h : Run (step o resolve) Free (initial message) as t) :
    t.forward.Confirmed := by
  refine (h.invariant (fun t => Account o resolve message t ∧ t.forward.Confirmed) ?_
    ⟨account_initial, fun hph => by cases hph⟩).2
  intro t a t' ht _ hst
  refine ⟨account_step ht.1 hst, ?_⟩
  cases effect_of_step hst with
  | forward p forward _ _ hforward => exact Forward.confirmed_step ht.1.forward ht.2 hforward
  | gateway | applicationSend | applicationRecv | targetSend | targetRecv => exact ht.2

/-- A session is not started on a request that is refused. -/
theorem no_session_of_refused (hlen : message.length = requestSize) (hword : message ≠ connectWord)
    (hres : (binaryAnswer o message).result = false)
    (h : Run (step o resolve) Free (initial message) as t) : t.forward.phase ≠ .session := by
  intro hsession
  have ht := account_run h
  obtain ⟨r, hr, hpre⟩ := confirmed_run h hsession
  have hsent := (gateway_opened ht hlen hword).order.2
  obtain ⟨htrue, -⟩ | ⟨-, hresp⟩ := binaryAnswer_response o message
  · simp [hres] at htrue
  · have hall := hpre.trans (ht.wired.forwardPeer.trans hsent)
    rw [hresp] at hall
    simp only [List.cons_append, List.cons_prefix_cons] at hall
    exact hr hall.1

/-- A session on a request that is not refused, with the gateway still in front of its connect. -/
theorem exists_early_session (o : ByteOrder) (resolve : Resolver)
    (hlen : message.length = requestSize) (hword : message ≠ connectWord)
    (hres : (binaryAnswer o message).result = true) :
    ∃ as t, Run (step o resolve) Free (initial message) as t ∧ t.forward.phase = .session ∧
      t.gateway.established = false := by
  have hne : message ≠ [] := by
    rintro rfl
    cases hlen
  obtain ⟨as₁, f₁, hrun₁, hph₁, hsent₁, hpeer₁, hhost₁⟩ := Forward.exists_run_asked hne
  obtain ⟨as₂, g, hrun₂, hpeer₂, hhost₂, hsent₂, hph₂⟩ :=
    Gateway.exists_run_binary o resolve hlen hword
  obtain ⟨as₃, f₃, hrun₃, hph₃, hpeer₃, hhost₃⟩ :=
    Forward.exists_run_confirmed (r := 0x1) hph₁ (by decide)
  have hresp : (binaryAnswer o message).response = [0x1] := by
    obtain ⟨-, hresp⟩ | ⟨hfalse, -⟩ := binaryAnswer_response o message
    · exact hresp
    · simp [hres] at hfalse
  have hrequest : g.peerSocket.received = f₁.peerSocket.sent := hpeer₂.trans hsent₁.symm
  have hresult : f₃.peerSocket.received = g.peerSocket.sent := by
    rw [hpeer₃, hpeer₁, hsent₂, hresp, List.nil_append]
  have h₁ := run_forward o resolve (t := initial message) hrun₁
    (hhost₁ ▸ List.nil_prefix) (hpeer₁ ▸ List.nil_prefix)
  have h₂ := run_gateway (t := { initial message with forward := f₁ }) hrun₂
    (hhost₂ ▸ List.nil_prefix) (hrequest ▸ List.prefix_rfl)
  have h₃ := run_forward o resolve
    (t := { initial message with forward := f₁, gateway := g }) hrun₃
    (hhost₃ ▸ hhost₁ ▸ List.nil_prefix) (hresult ▸ List.prefix_rfl)
  refine ⟨_, _, (h₁.append h₂).append h₃, hph₃, ?_⟩
  show g.established = false
  rw [Gateway.established, hph₂]

theorem startsTruthfully_iff (hlen : message.length = requestSize) (hword : message ≠ connectWord) :
    StartsTruthfully o resolve message ↔ (binaryAnswer o message).result = false := by
  refine ⟨fun htruthful => ?_, fun hres as t hrun hsession => ?_⟩
  · by_contra hres
    obtain ⟨as, t, hrun, hsession, hnot⟩ :=
      exists_early_session o resolve hlen hword (by simpa using hres)
    have hest := htruthful as t hrun hsession
    simp [hest] at hnot
  · exact absurd hsession (no_session_of_refused hlen hword hres hrun)

end Tunnel

/-- The success result says only that the request was well formed and its host known. It is truthful
exactly for the requests that are refused, and the two clients believe it. -/
theorem success_truthful_iff (o : ByteOrder) (resolve : Resolver) :
    (∀ request answer, Gateway.Answered o resolve request answer →
      (Gateway.TruthfulTo o resolve request ↔ answer.result = false)) ∧
    (∀ message : Bytes, message.length = requestSize → message ≠ connectWord →
      (Tunnel.StartsTruthfully o resolve message ↔ (binaryAnswer o message).result = false)) ∧
    (∀ data answer more, connectAnswer resolve data = some answer →
      EtcpClient.succeeded (EtcpClient.httpStatus (answer.response ++ more)) = answer.result) :=
  ⟨fun _ _ ha => Gateway.truthfulTo_iff ha,
    fun _ hlen hword => Tunnel.startsTruthfully_iff hlen hword,
    fun _ _ more h => succeeded_answer h more⟩

/-- Port 0 is refused, and the truth; port 80 is not, and the success result says nothing. -/
theorem success_truthful_iff_example :
    Gateway.TruthfulTo .big (fun _ _ => none) [3, 124, 3, 3, 2, 3, 3] ∧
    ¬ Gateway.TruthfulTo .big (fun _ _ => none) [3, 124, 3, 3, 2, 3, 83] ∧
    ¬ Tunnel.StartsTruthfully .big (fun _ _ => none) [3, 124, 3, 3, 2, 3, 83] := by
  obtain ⟨hgateway, htunnel, -⟩ := success_truthful_iff .big fun _ _ => none
  refine ⟨?_, ?_, ?_⟩
  · exact (hgateway _ _ (.binary _ rfl (by decide))).mpr (by decide)
  · exact fun h => absurd ((hgateway _ _ (.binary _ rfl (by decide))).mp h) (by decide)
  · exact fun h => absurd ((htunnel _ rfl (by decide)).mp h) (by decide)

/-- The client has its 0x1, the connect fails, and nothing else is sent. -/
theorem success_without_target :
    ¬ ∀ o resolve request, Gateway.TruthfulTo o resolve request := by
  intro h
  have hrun := run_exec (Gateway.step .big fun _ _ => none) Free Gateway.initial
    [.handshake .ready, .handshake .run, .handshake (.read [3, 124, 3, 3, 2, 3, 83]),
      .handshake .run, .handshake (.write 1), .handshake .run] (by decide)
  have hfails := (h .big _ [3, 124, 3, 3, 2, 3, 83] _ _ [] hrun (by decide)).2 .error _ rfl rfl
  exact absurd hfails (by decide)

end NetworkUtility.Tcp
