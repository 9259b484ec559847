import NetworkUtility.Tcp.Session

/-! A connection that `TcpForwardAcceptor` has been asked for, from its accept to its
`TcpForwardSession`. -/
namespace NetworkUtility.Tcp

open Relay

/-- The operation of the nested handlers of `do_accept` that is outstanding. -/
inductive Forward.Phase
  | accept (ready : Bool)
  | connect (ready : Bool)
  | write (rest : Bytes)
  | readResult (result : Option UInt8)
  | session
  | dropped
  deriving DecidableEq, Repr

/-- `host_socket` and `peer_socket` are the local and the remote socket of the session to be. When
the connection is dropped both are closed. -/
structure Forward where
  message : Bytes
  phase : Forward.Phase
  session : Session
  deriving DecidableEq, Repr

namespace Forward

def initial (message : Bytes) : Forward := ⟨message, .accept false, .fresh⟩

abbrev hostSocket (f : Forward) : Socket UInt8 := f.session.localSocket

abbrev peerSocket (f : Forward) : Socket UInt8 := f.session.remoteSocket

def enter (f : Forward) (phase : Phase) : Forward := { f with phase := phase }

def receive (f : Forward) (data : Bytes) : Forward := { f with session := f.session.receive data }

def send (f : Forward) (data : Bytes) : Forward := { f with session := f.session.send data }

def startSession (f : Forward) : Forward := { f with phase := .session, session := f.session.start }

/-- `do_accept`, for one accepted socket. -/
def stepHandshake (f : Forward) (op : Op UInt8) : Option Forward :=
  match f.phase, op with
  | .accept false, .ready => some (f.enter (.accept true))
  | .accept true, .run => some (f.enter (.connect false))
  | .accept false, .error => some (f.enter .dropped)
  | .connect false, .ready => some (f.enter (.connect true))
  | .connect true, .run => some (f.enter (.write f.message))
  | .connect false, .error => some (f.enter .dropped)
  | .write rest, .write n =>
    if 0 < n ∧ n ≤ rest.length then some ((f.send (rest.take n)).enter (.write (rest.drop n)))
    else none
  | .write [], .run => some (f.enter (.readResult none))
  | .write (_ :: _), .error => some (f.enter .dropped)
  | .readResult none, .read [result] => some ((f.receive [result]).enter (.readResult (some result)))
  | .readResult none, .error => some (f.enter .dropped)
  | .readResult (some result), .run =>
    if result = 0 then some (f.enter .dropped) else some f.startSession
  | _, _ => none

def step (f : Forward) : Progress → Option Forward
  | .handshake op => f.stepHandshake op
  | .relay localRecv op =>
    if f.phase = .session then
      (f.session.step localRecv op).map fun session => { f with session := session }
    else none

/-- What a step of `do_accept` can do. -/
inductive Moves (f : Forward) : Op UInt8 → Forward → Prop
  | accepted (hph : f.phase = .accept false) : Moves f .ready (f.enter (.accept true))
  | connects (hph : f.phase = .accept true) : Moves f .run (f.enter (.connect false))
  | connected (hph : f.phase = .connect false) : Moves f .ready (f.enter (.connect true))
  | writes (hph : f.phase = .connect true) : Moves f .run (f.enter (.write f.message))
  | sends {rest : Bytes} {n : Nat} (hph : f.phase = .write rest) (hn : 0 < n)
      (hle : n ≤ rest.length) :
      Moves f (.write n) ((f.send (rest.take n)).enter (.write (rest.drop n)))
  | reads (hph : f.phase = .write []) : Moves f .run (f.enter (.readResult none))
  | receives (result : UInt8) (hph : f.phase = .readResult none) :
      Moves f (.read [result]) ((f.receive [result]).enter (.readResult (some result)))
  | refused (hph : f.phase = .readResult (some 0)) : Moves f .run (f.enter .dropped)
  | starts {result : UInt8} (hph : f.phase = .readResult (some result)) (hne : result ≠ 0) :
      Moves f .run f.startSession
  | fails (hph : f.phase = .accept false ∨ f.phase = .connect false ∨
      (∃ b rest, f.phase = .write (b :: rest)) ∨ f.phase = .readResult none) :
      Moves f .error (f.enter .dropped)

/-- What has gone through the two sockets in each phase. -/
def Account (f : Forward) : Prop :=
  match f.phase with
  | .accept _ => f.session.Handshake [] []
  | .connect _ => f.session.Handshake [] []
  | .write rest => ∃ sent, sent ++ rest = f.message ∧ f.session.Handshake [] sent
  | .readResult result => f.session.Handshake result.toList f.message
  | .session => f.message <+: f.peerSocket.sent ∧ f.session.Relays 1 f.message.length
  | .dropped => ∃ received sent, received.length ≤ 1 ∧ sent <+: f.message ∧
      f.session.Handshake received sent

variable {f f' : Forward} {message : Bytes} {p : Progress} {op : Op UInt8}

/-! ### One step of `do_accept` -/

/-- One case for each operation that can be outstanding. -/
theorem moves_of_stepHandshake (h : f.stepHandshake op = some f') : f.Moves op f' := by
  unfold stepHandshake at h
  cases hph : f.phase with
  | accept ready =>
    rw [hph] at h
    cases ready with
    | true =>
      cases op <;> cases h
      exact .connects hph
    | false =>
      cases op <;> cases h
      · exact .accepted hph
      · exact .fails (.inl hph)
  | connect ready =>
    rw [hph] at h
    cases ready with
    | true =>
      cases op <;> cases h
      exact .writes hph
    | false =>
      cases op <;> cases h
      · exact .connected hph
      · exact .fails (.inr (.inl hph))
  | write rest =>
    rw [hph] at h
    cases op with
    | write n =>
      simp only [Option.ite_none_right_eq_some, Option.some.injEq] at h
      obtain ⟨⟨hn, hle⟩, rfl⟩ := h
      exact .sends hph hn hle
    | run =>
      cases rest <;> cases h
      exact .reads hph
    | error =>
      cases rest <;> cases h
      exact .fails (.inr (.inr (.inl ⟨_, _, hph⟩)))
    | ready => cases rest <;> cases h
    | read data => cases rest <;> cases h
  | readResult result =>
    rw [hph] at h
    cases result with
    | none =>
      cases op with
      | read data =>
        cases data with
        | nil => cases h
        | cons result data =>
          cases data <;> cases h
          exact .receives result hph
      | error =>
        cases h
        exact .fails (.inr (.inr (.inr hph)))
      | _ => cases h
    | some result =>
      cases op with
      | run =>
        simp only at h
        split at h
        · next hzero =>
          cases h
          exact .refused (hzero ▸ hph)
        · next hne =>
          cases h
          exact .starts hph hne
      | _ => cases h
  | session => rw [hph] at h; cases h
  | dropped => rw [hph] at h; cases h

theorem stepHandshake_of_moves (h : f.Moves op f') : f.stepHandshake op = some f' := by
  unfold stepHandshake
  cases h with
  | sends hph hn hle =>
    rw [hph]
    exact if_pos ⟨hn, hle⟩
  | refused hph =>
    rw [hph]
    exact if_pos rfl
  | starts hph hne =>
    rw [hph]
    exact if_neg hne
  | fails hph =>
    rcases hph with hph | hph | ⟨b, rest, hph⟩ | hph
    all_goals rw [hph]
  | accepted hph => rw [hph]
  | connects hph => rw [hph]
  | connected hph => rw [hph]
  | writes hph => rw [hph]
  | reads hph => rw [hph]
  | receives result hph => rw [hph]

theorem step_of_moves (h : f.Moves op f') : f.step (.handshake op) = some f' :=
  stepHandshake_of_moves h

/-- A relay step is one of the session that has been started. -/
theorem relays_of_step {localRecv : Bool} (h : f.step (.relay localRecv op) = some f') :
    f.phase = .session ∧ ∃ session, f.session.step localRecv op = some session ∧
      f' = { f with session := session } := by
  simp only [step, Option.ite_none_right_eq_some, Option.map_eq_some_iff] at h
  obtain ⟨hph, session, hsession, rfl⟩ := h
  exact ⟨hph, session, hsession, rfl⟩

/-! ### What has gone through the sockets -/

theorem account_initial : (initial message).Account := Session.handshake_fresh

theorem account_moves (hf : f.Account) (h : f.Moves op f') : f'.Account := by
  unfold Account at hf
  cases h with
  | accepted hph => rw [hph] at hf; exact hf
  | connects hph => rw [hph] at hf; exact hf
  | connected hph => rw [hph] at hf; exact hf
  | writes hph =>
    rw [hph] at hf
    exact ⟨[], rfl, hf⟩
  | @sends rest n hph _ _ =>
    rw [hph] at hf
    obtain ⟨sent, hsent, hhand⟩ := hf
    refine ⟨sent ++ rest.take n, ?_, hhand.send _⟩
    rw [List.append_assoc, List.take_append_drop]
    exact hsent
  | reads hph =>
    rw [hph] at hf
    obtain ⟨sent, hsent, hhand⟩ := hf
    rw [List.append_nil] at hsent
    subst hsent
    exact hhand
  | receives result hph =>
    rw [hph] at hf
    exact hf.receive [result]
  | refused hph =>
    rw [hph] at hf
    exact ⟨[0], f.message, Nat.le_refl _, List.prefix_rfl, hf⟩
  | starts hph _ =>
    rw [hph] at hf
    have hsent : f.message <+: f.peerSocket.sent := ⟨[], by rw [hf.sent, List.append_nil]⟩
    exact ⟨hsent, hf.relays_start⟩
  | fails hph =>
    rcases hph with hph | hph | ⟨b, rest, hph⟩ | hph
    · rw [hph] at hf
      exact ⟨[], [], Nat.zero_le _, List.nil_prefix, hf⟩
    · rw [hph] at hf
      exact ⟨[], [], Nat.zero_le _, List.nil_prefix, hf⟩
    · rw [hph] at hf
      obtain ⟨sent, hsent, hhand⟩ := hf
      exact ⟨[], sent, Nat.zero_le _, ⟨_, hsent⟩, hhand⟩
    · rw [hph] at hf
      exact ⟨[], f.message, Nat.zero_le _, List.prefix_rfl, hf⟩

theorem account_step (hf : f.Account) (h : f.step p = some f') : f'.Account := by
  cases p with
  | handshake op => exact account_moves hf (moves_of_stepHandshake h)
  | relay localRecv op =>
    obtain ⟨hph, session, hsession, rfl⟩ := relays_of_step h
    simp only [Account, hph] at hf ⊢
    obtain ⟨-, hsent, -, -⟩ := Session.step_sockets hsession
    exact ⟨hf.1.trans hsent, Session.relays_step hf.2 hsession⟩

theorem opened_of_account (hf : f.Account) : f.session.Opened 1 f.message := by
  unfold Account at hf
  cases hph : f.phase with
  | accept ready =>
    simp only [hph] at hf
    exact .before [] [] hf (Nat.zero_le _) List.nil_prefix
  | connect ready =>
    simp only [hph] at hf
    exact .before [] [] hf (Nat.zero_le _) List.nil_prefix
  | write rest =>
    simp only [hph] at hf
    obtain ⟨sent, hsent, hhand⟩ := hf
    exact .before [] sent hhand (Nat.zero_le _) ⟨rest, hsent⟩
  | readResult result =>
    simp only [hph] at hf
    have hlen : result.toList.length ≤ 1 := by cases result <;> simp
    exact .before _ f.message hf hlen List.prefix_rfl
  | session =>
    simp only [hph] at hf
    exact .started hf.2 hf.1
  | dropped =>
    simp only [hph] at hf
    obtain ⟨received, sent, hlen, hsent, hhand⟩ := hf
    exact .before received sent hhand hlen hsent

/-! ### What a step does to the sockets -/

theorem shakes_of_stepHandshake (h : f.stepHandshake op = some f') :
    f.session.Shakes op f'.session ∧ f'.message = f.message := by
  cases moves_of_stepHandshake h with
  | sends _ _ _ => exact ⟨.send _ rfl, rfl⟩
  | receives result _ => exact ⟨.receive _ rfl, rfl⟩
  | starts _ _ => exact ⟨.start rfl, rfl⟩
  | _ => exact ⟨.keep rfl, rfl⟩

/-- The sockets have sent more or the same, and have received what the step reads. -/
theorem step_sockets (h : f.step p = some f') :
    f.hostSocket.sent <+: f'.hostSocket.sent ∧ f.peerSocket.sent <+: f'.peerSocket.sent ∧
      f'.hostSocket.received = f.hostSocket.received ++ p.localData ∧
      f'.peerSocket.received = f.peerSocket.received ++ p.remoteData := by
  cases p with
  | handshake op => exact (shakes_of_stepHandshake h).1.step_sockets
  | relay localRecv op =>
    obtain ⟨-, session, hsession, rfl⟩ := relays_of_step h
    cases localRecv <;> exact Session.step_sockets hsession

theorem message_step (h : f.step p = some f') : f'.message = f.message := by
  cases p with
  | handshake op => exact (shakes_of_stepHandshake h).2
  | relay localRecv op =>
    obtain ⟨-, session, -, rfl⟩ := relays_of_step h
    rfl

theorem closed_step (hop : p.op ≠ .error) (h : f.step p = some f') :
    f'.session.closed = f.session.closed := by
  cases p with
  | handshake op => exact (shakes_of_stepHandshake h).1.closed
  | relay localRecv op =>
    obtain ⟨-, session, hsession, rfl⟩ := relays_of_step h
    exact Session.closed_step hop hsession

end Forward

end NetworkUtility.Tcp
