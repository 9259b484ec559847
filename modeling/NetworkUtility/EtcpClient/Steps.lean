import NetworkUtility.EtcpClient.Model
import NetworkUtility.Lib.Index

/-! What one step can do, said once. Every invariant is proved by cases on `Effect`. -/
namespace NetworkUtility.EtcpClient

open Etcp Scan

variable {e : Env} {s t : State} {a : Action}

/-- The steps of `step`, with the operation that completes or goes on singled out of `pending`. -/
inductive Effect (e : Env) (s : State) : Action → State → Prop
  | call (a : Action) (calls : List Call) : Effect e s a { s with calls := calls }
  | postClose (i : Nat) (calls : List Call) :
      Effect e s (.post i) { s with
        calls := calls
        ready := s.ready ++ [.doClose s.tickets]
        tickets := s.tickets + 1 }
  | postConnect (i : Nat) (calls : List Call) :
      Effect e s (.post i) { s with
        calls := calls
        ready := s.ready ++ [.doConnect s.tickets]
        tickets := s.tickets + 1 }
  | postSend (i : Nat) (calls : List Call) (pack : Bytes) :
      Effect e s (.post i) { s with
        calls := calls
        accepted := s.accepted ++ [(s.tickets, pack)]
        ready := s.ready ++ [.sendMessage s.tickets pack]
        tickets := s.tickets + 1 }
  | run (h : Handler) (rest : List Handler) : s.ready = h :: rest →
      Effect e s .run ({ s with ready := rest }.runHandler e h)
  | connected (i : Nat) (l r : List Pending) (p : Pending) : s.pending = l ++ p :: r →
      p.op = .connect →
      Effect e s (.connected i) { s with
        socket := { s.socket with established := true }
        pending := l ++ r
        ready := s.ready ++ [.complete s.socket.conn p.op (.success 0)] }
  | sentPart (i n : Nat) (l r : List Pending) (p : Pending) (bytes rest : Bytes) :
      s.pending = l ++ p :: r → p.op.writes → p.data = bytes ++ rest → bytes ≠ [] → rest ≠ [] →
      Effect e s (.transfer i n) { s with
        sent := Function.update s.sent s.socket.conn (s.sent s.socket.conn ++ bytes)
        pending := l ++ ⟨p.op, rest, p.done + bytes.length⟩ :: r }
  | sentAll (i n : Nat) (l r : List Pending) (p : Pending) :
      s.pending = l ++ p :: r → p.op.writes → p.data ≠ [] →
      Effect e s (.transfer i n) { s with
        sent := Function.update s.sent s.socket.conn (s.sent s.socket.conn ++ p.data)
        pending := l ++ r
        ready := s.ready ++ [.complete s.socket.conn p.op (.success (p.done + p.data.length))] }
  | headPart (i : Nat) (l r : List Pending) (p : Pending) (bytes : Bytes) :
      s.pending = l ++ p :: r → p.op = .readHead → bytes ≠ [] →
      p.done + bytes.length < s.recvHead.length →
      Effect e s (.receive i bytes) { s with
        received := Function.update s.received s.socket.conn (s.received s.socket.conn ++ bytes)
        recvHead := fill s.recvHead p.done bytes
        pending := l ++ ⟨p.op, p.data, p.done + bytes.length⟩ :: r }
  | headAll (i : Nat) (l r : List Pending) (p : Pending) (bytes : Bytes) :
      s.pending = l ++ p :: r → p.op = .readHead → bytes ≠ [] →
      p.done + bytes.length = s.recvHead.length →
      Effect e s (.receive i bytes) { s with
        received := Function.update s.received s.socket.conn (s.received s.socket.conn ++ bytes)
        recvHead := fill s.recvHead p.done bytes
        pending := l ++ r
        ready := s.ready ++ [.complete s.socket.conn p.op (.success (p.done + bytes.length))] }
  | bodyPart (i : Nat) (l r : List Pending) (p : Pending) (bytes : Bytes) :
      s.pending = l ++ p :: r → p.op = .readBody → bytes ≠ [] →
      p.done + bytes.length < s.recvData.length →
      Effect e s (.receive i bytes) { s with
        received := Function.update s.received s.socket.conn (s.received s.socket.conn ++ bytes)
        recvData := fill s.recvData p.done bytes
        pending := l ++ ⟨p.op, p.data, p.done + bytes.length⟩ :: r }
  | bodyAll (i : Nat) (l r : List Pending) (p : Pending) (bytes : Bytes) :
      s.pending = l ++ p :: r → p.op = .readBody → bytes ≠ [] →
      p.done + bytes.length = s.recvData.length →
      Effect e s (.receive i bytes) { s with
        received := Function.update s.received s.socket.conn (s.received s.socket.conn ++ bytes)
        recvData := fill s.recvData p.done bytes
        pending := l ++ r
        ready := s.ready ++ [.complete s.socket.conn p.op (.success (p.done + bytes.length))] }
  | proxyPart (i : Nat) (l r : List Pending) (p : Pending) (bytes : Bytes) :
      s.pending = l ++ p :: r → p.op = .proxyRead → bytes ≠ [] →
      endOfHead (s.response ++ bytes) = none →
      Effect e s (.receive i bytes) { s with
        received := Function.update s.received s.socket.conn (s.received s.socket.conn ++ bytes)
        response := s.response ++ bytes
        pending := l ++ ⟨p.op, p.data, p.done + bytes.length⟩ :: r }
  | proxyAll (i : Nat) (l r : List Pending) (p : Pending) (bytes : Bytes) (len : Nat) :
      s.pending = l ++ p :: r → p.op = .proxyRead → bytes ≠ [] →
      endOfHead (s.response ++ bytes) = some len →
      Effect e s (.receive i bytes) { s with
        received := Function.update s.received s.socket.conn (s.received s.socket.conn ++ bytes)
        response := s.response ++ bytes
        pending := l ++ r
        ready := s.ready ++ [.complete s.socket.conn p.op (.success len)] }
  | fail (i : Nat) (err : Error) (l r : List Pending) (p : Pending) :
      s.pending = l ++ p :: r →
      Effect e s (.fail i err) { s with
        socket := { s.socket with broken := s.socket.broken || p.op == Op.write }
        pending := l ++ r
        ready := s.ready ++ [.complete s.socket.conn p.op (.failure err)] }

theorem effect_of_transfer {i n : Nat} {p : Pending} (hp : s.pending[i]? = some p)
    (hw : p.op.writes) (hn : p.data.take n ≠ []) : Effect e s (.transfer i n) (s.transfer i p n) := by
  obtain ⟨l, r, hs, he, hq⟩ := Index.split_at hp
  by_cases hd : p.data.drop n = []
  · have ht : p.data.take n = p.data := by
      simpa [hd] using List.take_append_drop n p.data
    have hne : p.data ≠ [] := ht ▸ hn
    simp only [State.transfer, State.progress, hd, if_true, State.finish, he, ht]
    exact .sentAll i n l r p hs hw hne
  · simp only [State.transfer, State.progress, hd, if_false, hq]
    exact .sentPart i n l r p _ _ hs hw (List.take_append_drop n p.data).symm hn hd

theorem effect_of_receive {i : Nat} {p : Pending} {bytes : Bytes} (hp : s.pending[i]? = some p)
    (hb : bytes ≠ []) (h : s.receive i p bytes = some t) : Effect e s (.receive i bytes) t := by
  obtain ⟨l, r, hs, he, hq⟩ := Index.split_at hp
  simp only [State.receive] at h
  split at h
  · next hop =>
    split at h
    · next hle =>
      simp only [Option.some.injEq] at h
      subst t
      by_cases hfull : p.done + bytes.length = s.recvHead.length
      · simp only [State.progress, hfull, if_true, State.finish, he]
        exact hfull ▸ Effect.headAll i l r p bytes hs hop hb hfull
      · simp only [State.progress, hfull, if_false, hq]
        exact .headPart i l r p bytes hs hop hb (by omega)
    · cases h
  · next hop =>
    split at h
    · next hle =>
      simp only [Option.some.injEq] at h
      subst t
      by_cases hfull : p.done + bytes.length = s.recvData.length
      · simp only [State.progress, hfull, if_true, State.finish, he]
        exact hfull ▸ Effect.bodyAll i l r p bytes hs hop hb hfull
      · simp only [State.progress, hfull, if_false, hq]
        exact .bodyPart i l r p bytes hs hop hb (by omega)
    · cases h
  · next hop =>
    simp only [Option.some.injEq] at h
    subst t
    cases hlen : endOfHead (s.response ++ bytes) with
    | none =>
      simp only [State.progress, hq]
      exact .proxyPart i l r p bytes hs hop hb hlen
    | some len =>
      simp only [State.progress, State.finish, he]
      exact .proxyAll i l r p bytes len hs hop hb hlen
  · cases h

/-- The io thread runs the first handler. -/
theorem handler_of_run (h : step e s .run = some t) :
    ∃ hd rest, s.ready = hd :: rest ∧ t = State.runHandler e { s with ready := rest } hd := by
  simp only [step] at h
  split at h
  · cases h
  · next hd rest hr =>
    cases h
    exact ⟨hd, rest, hr, rfl⟩

theorem effect_of_step (h : step e s a = some t) : Effect e s a t := by
  cases a with
  | callConnect =>
    simp only [step] at h
    split at h
    · cases h
      exact .call _ _
    · cases h
  | callClose =>
    simp only [step] at h
    split at h
    · cases h
      exact .call _ _
    · cases h
  | callSend pack =>
    simp only [step] at h
    split at h
    · cases h
      exact .call _ _
    · cases h
  | post i =>
    simp only [step, Option.map_eq_some_iff] at h
    obtain ⟨c, _, rfl⟩ := h
    cases c with
    | closeAndConnect => exact .postClose i _
    | connect => exact .postConnect i _
    | close => exact .postClose i _
    | send pack => exact .postSend i _ pack
  | run =>
    obtain ⟨hd, rest, hr, rfl⟩ := handler_of_run h
    exact .run hd rest hr
  | connected i =>
    simp only [step] at h
    split at h
    · next p hp =>
      split at h
      · next hop =>
        cases h
        obtain ⟨l, r, hs, he, _⟩ := Index.split_at hp
        simp only [State.finish, he]
        exact hop ▸ Effect.connected i l r p hs hop
      · cases h
    · cases h
  | transfer i n =>
    simp only [step] at h
    split at h
    · next p hp =>
      split at h
      · next hn =>
        cases h
        exact effect_of_transfer hp hn.1 hn.2.2
      · cases h
    · cases h
  | receive i bytes =>
    simp only [step] at h
    split at h
    · next p hp =>
      split at h
      · next hb => exact effect_of_receive hp hb.2 h
      · cases h
    · cases h
  | fail i err =>
    simp only [step] at h
    split at h
    · next p hp =>
      cases h
      obtain ⟨l, r, hs, he, _⟩ := Index.split_at hp
      simp only [State.finish, he]
      exact .fail i err l r p hs
    · cases h

end NetworkUtility.EtcpClient
