import NetworkUtility.EtcpServer.Session

/-! What one step of a session can do, said once. Every invariant is proved by cases on `Effect`. -/
namespace NetworkUtility.EtcpServer.Session

open Etcp

variable {o : ByteOrder} {s t : Session} {a : Action}

/-- The steps of `step`, each with what it asks for. -/
inductive Effect (o : ByteOrder) (s : Session) : Action → Session → Prop
  | accepted (ok : Bool) : s.accept = .waiting →
      Effect o s (.accepted ok) { s with accept := .completed ok, isOpen := ok }
  | acceptStart : s.accept = .completed true → Effect o s .acceptStart s.onAccept
  | acceptFailed : s.accept = .completed false →
      Effect o s .acceptStart { s with accept := .again }
  | acceptCallback : s.accept = .callback →
      Effect o s .acceptCallback { s with accept := .append, kept := true, log := s.log ++ [.accept] }
  | acceptAppend : s.accept = .append → Effect o s .acceptAppend { s with accept := .read }
  | acceptRead : s.accept = .read → Effect o s .acceptRead { s.doRead with accept := .again }
  | acceptAgain : s.accept = .again → Effect o s .acceptAgain { s with accept := .finished }
  | keep (kept : Bool) : .accept ∈ s.log → s.Held → Effect o s (.keep kept) { s with kept := kept }
  | callClose : s.kept → s.closed = false →
      Effect o s .callClose { s with calls := s.calls ++ [.close] }
  | callSend (pack : Bytes) : s.kept → s.sendMessage pack →
      Effect o s (.callSend pack) { s with calls := s.calls ++ [.send pack] }
  | postClose (i : Nat) : s.calls[i]? = some .close →
      Effect o s (.post i) { s with calls := s.calls.eraseIdx i }.doClose
  | postSend (i : Nat) (pack : Bytes) : s.calls[i]? = some (.send pack) →
      Effect o s (.post i) { s with
        calls := s.calls.eraseIdx i
        ready := s.ready ++ [.sendMessage pack] }
  | close : .accept ∈ s.log → s.Held → Effect o s .close s.close
  | run (i : Nat) (task : Task) : s.ready[i]? = some task → s.closing = .idle →
      Effect o s (.run i) ((s.dequeue i).runTask o task)
  | closeCallback : s.closing = .callback →
      Effect o s .closeCallback { s with closing := .remove, log := s.log ++ [.close] }
  | closeRemove : s.closing = .remove → Effect o s .closeRemove { s with closing := .idle }
  | transfer (i n : Nat) (p : Pending) :
      s.pending[i]? = some p → p.op = .write → p.data.take n ≠ [] →
      Effect o s (.transfer i n) ({ s with written := s.written ++ p.data.take n }.progress i
        { p with data := p.data.drop n, done := p.done + (p.data.take n).length } (p.data.drop n = []))
  | receiveHead (i : Nat) (bytes : Bytes) (p : Pending) :
      s.pending[i]? = some p → p.op = .readHead → bytes ≠ [] →
      p.done + bytes.length ≤ s.recvHead.length →
      Effect o s (.receive i bytes) ({ s with recvHead := fill s.recvHead p.done bytes }.progress i
        { p with done := p.done + bytes.length } (p.done + bytes.length = s.recvHead.length))
  | receiveBody (i : Nat) (bytes : Bytes) (p : Pending) :
      s.pending[i]? = some p → p.op = .readBody → bytes ≠ [] →
      p.done + bytes.length ≤ s.recvData.length →
      Effect o s (.receive i bytes) ({ s with recvData := fill s.recvData p.done bytes }.progress i
        { p with done := p.done + bytes.length } (p.done + bytes.length = s.recvData.length))
  | fail (i : Nat) (err : Error) (p : Pending) : s.pending[i]? = some p →
      Effect o s (.fail i err) (s.finish i p.op (.failure err))

theorem effect_of_receive {i : Nat} {bytes : Bytes} {p : Pending} (hp : s.pending[i]? = some p)
    (h : s.receive i p bytes = some t) : Effect o s (.receive i bytes) t := by
  simp only [receive] at h
  split at h
  · next hop =>
    simp only [Option.ite_none_right_eq_some, Option.some.injEq] at h
    obtain ⟨⟨hbytes, hlen⟩, rfl⟩ := h
    exact .receiveHead i bytes p hp hop hbytes hlen
  · next hop =>
    simp only [Option.ite_none_right_eq_some, Option.some.injEq] at h
    obtain ⟨⟨hbytes, hlen⟩, rfl⟩ := h
    exact .receiveBody i bytes p hp hop hbytes hlen
  · cases h

theorem effect_of_step (h : step o s a = some t) : Effect o s a t := by
  cases a with
  | accepted ok =>
    simp only [step, Option.ite_none_right_eq_some, Option.some.injEq] at h
    obtain ⟨hwaiting, rfl⟩ := h
    exact .accepted ok hwaiting
  | acceptStart =>
    simp only [step] at h
    split at h
    · next hcompleted =>
      cases h
      exact .acceptStart hcompleted
    · next hcompleted =>
      cases h
      exact .acceptFailed hcompleted
    · cases h
  | acceptCallback =>
    simp only [step, Option.ite_none_right_eq_some, Option.some.injEq] at h
    obtain ⟨hcallback, rfl⟩ := h
    exact .acceptCallback hcallback
  | acceptAppend =>
    simp only [step, Option.ite_none_right_eq_some, Option.some.injEq] at h
    obtain ⟨happend, rfl⟩ := h
    exact .acceptAppend happend
  | acceptRead =>
    simp only [step, Option.ite_none_right_eq_some, Option.some.injEq] at h
    obtain ⟨hread, rfl⟩ := h
    exact .acceptRead hread
  | acceptAgain =>
    simp only [step, Option.ite_none_right_eq_some, Option.some.injEq] at h
    obtain ⟨hagain, rfl⟩ := h
    exact .acceptAgain hagain
  | keep kept =>
    simp only [step, Option.ite_none_right_eq_some, Option.some.injEq] at h
    obtain ⟨⟨haccept, hheld⟩, rfl⟩ := h
    exact .keep kept haccept hheld
  | callClose =>
    simp only [step, Option.ite_none_right_eq_some, Option.some.injEq] at h
    obtain ⟨⟨hkept, hclosed⟩, rfl⟩ := h
    exact .callClose hkept hclosed
  | callSend pack =>
    simp only [step, Option.ite_none_right_eq_some, Option.some.injEq] at h
    obtain ⟨⟨hkept, hsend⟩, rfl⟩ := h
    exact .callSend pack hkept hsend
  | post i =>
    simp only [step] at h
    split at h
    · next hcall =>
      cases h
      exact .postClose i hcall
    · next pack hcall =>
      cases h
      exact .postSend i pack hcall
    · cases h
  | close =>
    simp only [step, Option.ite_none_right_eq_some, Option.some.injEq] at h
    obtain ⟨⟨haccept, hheld⟩, rfl⟩ := h
    exact .close haccept hheld
  | run i =>
    simp only [step] at h
    split at h
    · next task htask =>
      simp only [Option.ite_none_right_eq_some, Option.some.injEq] at h
      obtain ⟨hidle, rfl⟩ := h
      exact .run i task htask hidle
    · cases h
  | closeCallback =>
    simp only [step, Option.ite_none_right_eq_some, Option.some.injEq] at h
    obtain ⟨hcallback, rfl⟩ := h
    exact .closeCallback hcallback
  | closeRemove =>
    simp only [step, Option.ite_none_right_eq_some, Option.some.injEq] at h
    obtain ⟨hremove, rfl⟩ := h
    exact .closeRemove hremove
  | transfer i n =>
    simp only [step, Option.bind_eq_some_iff] at h
    obtain ⟨p, hp, h⟩ := h
    simp only [transfer, Option.ite_none_right_eq_some, Option.some.injEq] at h
    obtain ⟨⟨hop, hbytes⟩, rfl⟩ := h
    exact .transfer i n p hp hop hbytes
  | receive i bytes =>
    simp only [step, Option.bind_eq_some_iff] at h
    obtain ⟨p, hp, h⟩ := h
    exact effect_of_receive hp h
  | fail i err =>
    simp only [step, Option.map_eq_some_iff] at h
    obtain ⟨p, hp, rfl⟩ := h
    exact .fail i err p hp

end NetworkUtility.EtcpServer.Session
