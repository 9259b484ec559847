import NetworkUtility.Lib.Machine
import NetworkUtility.MulticastHelper.Envelope

/-! The send path of `MulticastHelperImpl`: `send_data`, its posted lambda and `do_send`, from a
successful `init` on. The io_context runs in one thread and takes posted lambdas in their order; a
completion may come between any two of them. No code closes the socket. -/
namespace NetworkUtility.MulticastHelper

open Machine

/-- `sending` has the buffers of each `async_send_to` whose handler has not run. `accepted`, `queued`
and `sent` are history: the packets of the calls of `send_data` that returned true, those whose lambdas
put them into the list, and those that went out. -/
structure State where
  running : Bool
  isOpen : Bool
  posted : List Bytes
  sendDataList : List Bytes
  sending : List Bytes
  accepted : List Bytes
  queued : List Bytes
  sent : List Bytes
  deriving DecidableEq, Repr

def initial : State where
  running := true
  isOpen := true
  posted := []
  sendDataList := []
  sending := []
  accepted := []
  queued := []
  sent := []

inductive Action
  | sendData (data : Bytes)
  | runPosted
  | complete (i : Nat) (err : Bool)
  | stop
  | clear
  deriving DecidableEq, Repr

namespace State

def doSend (s : State) : State :=
  match s.sendDataList with
  | [] => s
  | data :: _ => { s with sending := s.sending ++ [data] }

/-- The packet that a call of `send_data` posts, if it returns true. -/
def accepts (p : Protocol) (s : State) (data : Bytes) : Option Bytes :=
  if s.running = false ∨ data = [] then none else p.packetMessage data

def sendData (p : Protocol) (s : State) (data : Bytes) : State :=
  match s.accepts p data with
  | none => s
  | some packet => { s with
      posted := s.posted ++ [packet]
      accepted := s.accepted ++ [packet] }

/-- The lambda of `send_data`. -/
def onPosted (s : State) (packet : Bytes) : State :=
  if s.running = false ∨ s.isOpen = false then s
  else
    let s := { s with
      sendDataList := s.sendDataList ++ [packet]
      queued := s.queued ++ [packet] }
    if 1 = s.sendDataList.length then s.doSend else s

/-- The handler of `do_send`. -/
def onSent (s : State) (buffer : Bytes) (err : Bool) : State :=
  if err then
    if s.running = false ∨ s.isOpen = false then s
    else if s.sendDataList = [] then s else s.doSend
  else
    let s := { s with sent := s.sent ++ [buffer] }
    if s.sendDataList = [] then s
    else
      let s := { s with sendDataList := s.sendDataList.tail }
      if s.sendDataList = [] then s else s.doSend

end State

/-- `stop` and `clear` are the two things that `exit` does to the send path. -/
def step (p : Protocol) (s : State) : Action → Option State
  | .sendData data => some (s.sendData p data)
  | .runPosted =>
    match s.posted with
    | [] => none
    | packet :: posted => some ({ s with posted := posted }.onPosted packet)
  | .complete i err =>
    (s.sending[i]?).map fun buffer => { s with sending := s.sending.eraseIdx i }.onSent buffer err
  | .stop => some { s with running := false }
  | .clear => if s.running then none else some { s with sendDataList := [] }

variable {p : Protocol} {s t : State} {a : Action} {as : List Action} {data packet buffer : Bytes}

namespace State

/-- The size is 1 behind `emplace_back` when the list was empty. -/
theorem onPosted_eq (s : State) (hrun : s.running = true) (hopen : s.isOpen = true) (packet : Bytes) :
    s.onPosted packet = { s with
      sendDataList := s.sendDataList ++ [packet]
      queued := s.queued ++ [packet]
      sending := if s.sendDataList = [] then s.sending ++ [packet] else s.sending } := by
  cases hlist : s.sendDataList with
  | nil => simp [onPosted, doSend, hrun, hopen, hlist]
  | cons data more => simp [onPosted, hrun, hopen, hlist]

/-- After a failure the front is sent again. -/
theorem onSent_err (s : State) {more : List Bytes} (hrun : s.running = true) (hopen : s.isOpen = true)
    (hlist : s.sendDataList = data :: more) (buffer : Bytes) :
    s.onSent buffer true = { s with sending := s.sending ++ [data] } := by
  simp [onSent, doSend, hrun, hopen, hlist]

/-- After a success the next one is sent, if there is one. -/
theorem onSent_ok (s : State) {more : List Bytes} (hlist : s.sendDataList = data :: more) (buffer : Bytes) :
    s.onSent buffer false = { s with
      sendDataList := more
      sent := s.sent ++ [buffer]
      sending := s.sending ++ more.take 1 } := by
  cases more with
  | nil => simp [onSent, hlist]
  | cons next more => simp [onSent, doSend, hlist]

end State

/-- While the list is not empty its front is on its way, once; what has gone out, the list and what is
posted are what was accepted, in its order. -/
structure Serving (s : State) : Prop where
  one : s.sending = s.sendDataList.take 1
  listed : s.sent ++ s.sendDataList = s.queued
  accepted : s.queued ++ s.posted = s.accepted

theorem serving_initial : Serving initial := ⟨rfl, rfl, rfl⟩

theorem Serving.sendData (h : Serving s) : Serving (s.sendData p data) := by
  unfold State.sendData
  cases s.accepts p data with
  | none => exact h
  | some packet =>
    refine ⟨h.one, h.listed, ?_⟩
    simp only [← h.accepted, List.append_assoc]

theorem Serving.onPosted {posted : List Bytes} (h : Serving s) (hposted : s.posted = packet :: posted)
    (hrun : s.running = true) (hopen : s.isOpen = true) :
    Serving ({ s with posted := posted }.onPosted packet) := by
  have haccepted := h.accepted
  rw [hposted] at haccepted
  rw [State.onPosted_eq { s with posted := posted } hrun hopen]
  refine ⟨?_, ?_, ?_⟩
  · simp only [h.one]
    cases s.sendDataList with
    | nil => rfl
    | cons data more => rfl
  · simp only [← h.listed, List.append_assoc]
  · simp only [← haccepted, List.append_assoc, List.singleton_append]

/-- The only operation that can complete is that of the front. Whatever becomes of it, the front of what
is left is sent next. -/
theorem Serving.onSent {i : Nat} {err : Bool} (h : Serving s) (hi : s.sending[i]? = some buffer)
    (hrun : s.running = true) (hopen : s.isOpen = true) :
    Serving ({ s with sending := s.sending.eraseIdx i }.onSent buffer err) := by
  have hone := h.one
  have hlisted := h.listed
  have hne : s.sendDataList ≠ [] := by
    intro hnil
    rw [hone, hnil] at hi
    simp at hi
  obtain ⟨data, more, hlist⟩ := List.exists_cons_of_ne_nil hne
  rw [hlist] at hone hlisted
  rw [hone] at hi
  obtain ⟨rfl, rfl⟩ : i = 0 ∧ data = buffer := by
    cases i with
    | zero => exact ⟨rfl, by simpa using hi⟩
    | succ i => simp at hi
  cases err with
  | true =>
    rw [State.onSent_err { s with sending := s.sending.eraseIdx 0 } hrun hopen hlist]
    refine ⟨?_, h.listed, h.accepted⟩
    simp [hone, hlist]
  | false =>
    rw [State.onSent_ok { s with sending := s.sending.eraseIdx 0 } hlist]
    refine ⟨?_, ?_, h.accepted⟩
    · simp [hone]
    · simp only [← hlisted, List.append_assoc, List.singleton_append]

/-- The helper is running and its socket open. -/
def State.Live (s : State) : Prop := s.running = true ∧ s.isOpen = true

theorem State.live_doSend (s : State) : s.doSend.Live ↔ s.Live := by
  unfold State.doSend
  cases s.sendDataList <;> exact Iff.rfl

theorem State.live_sendData (s : State) : (s.sendData p data).Live ↔ s.Live := by
  unfold State.sendData
  cases s.accepts p data <;> exact Iff.rfl

theorem State.live_onPosted (s : State) : (s.onPosted packet).Live ↔ s.Live := by
  unfold State.onPosted
  dsimp only
  split_ifs
  · exact Iff.rfl
  · rw [live_doSend]
    exact Iff.rfl
  · exact Iff.rfl

theorem State.live_onSent (s : State) (err : Bool) : (s.onSent buffer err).Live ↔ s.Live := by
  unfold State.onSent
  dsimp only
  split_ifs
  · exact Iff.rfl
  · exact Iff.rfl
  · exact live_doSend s
  · exact Iff.rfl
  · exact Iff.rfl
  · rw [live_doSend]
    exact Iff.rfl

/-- Nothing sets `m_running` again, so a step to a live state is from one. It is a call of `send_data`,
a posted lambda or a completion. -/
theorem live_step (h : step p s a = some t) (ht : t.Live) : s.Live ∧
    ((∃ data, a = .sendData data ∧ t = s.sendData p data) ∨
    (∃ packet posted, a = .runPosted ∧ s.posted = packet :: posted ∧
      t = { s with posted := posted }.onPosted packet) ∨
    ∃ i err buffer, a = .complete i err ∧ s.sending[i]? = some buffer ∧
      t = { s with sending := s.sending.eraseIdx i }.onSent buffer err) := by
  cases a with
  | sendData data =>
    obtain rfl := Option.some.inj h
    exact ⟨s.live_sendData.mp ht, .inl ⟨data, rfl, rfl⟩⟩
  | runPosted =>
    cases hposted : s.posted with
    | nil => simp [step, hposted] at h
    | cons packet posted =>
      simp only [step, hposted] at h
      obtain rfl := Option.some.inj h
      have hs := (State.live_onPosted { s with posted := posted }).mp ht
      exact ⟨hs, .inr (.inl ⟨packet, posted, rfl, rfl, rfl⟩)⟩
  | complete i err =>
    obtain ⟨buffer, hi, rfl⟩ := Option.map_eq_some_iff.mp h
    have hs := (State.live_onSent { s with sending := s.sending.eraseIdx i } err).mp ht
    exact ⟨hs, .inr (.inr ⟨i, err, buffer, rfl, hi, rfl⟩)⟩
  | stop =>
    obtain rfl := Option.some.inj h
    exact absurd ht.1 Bool.false_ne_true
  | clear =>
    simp only [step] at h
    split_ifs at h with hrun
    obtain rfl := Option.some.inj h
    exact absurd ht.1 hrun

theorem Serving.step (h : Serving s) (hst : step p s a = some t) (ht : t.Live) : Serving t := by
  obtain ⟨⟨hrun, hopen⟩, hcases⟩ := live_step hst ht
  rcases hcases with ⟨data, -, rfl⟩ | ⟨packet, posted, -, hposted, rfl⟩ | ⟨i, err, buffer, -, hi, rfl⟩
  · exact h.sendData
  · exact h.onPosted hposted hrun hopen
  · exact h.onSent hi hrun hopen

/-- What a call of `send_data` has accepted while the helper runs. -/
def Action.accepted (p : Protocol) : Action → Option Bytes
  | sendData data => p.packetMessage data
  | _ => none

theorem State.accepts_eq (hrun : s.running = true) (data : Bytes) :
    s.accepts p data = p.packetMessage data := by
  by_cases hdata : data = []
  · simp [accepts, hdata, Protocol.packetMessage]
  · simp [accepts, hdata, hrun]

@[simp] theorem State.accepted_doSend (s : State) : s.doSend.accepted = s.accepted := by
  unfold State.doSend
  cases s.sendDataList <;> rfl

theorem accepted_step (h : step p s a = some t) (ht : t.Live) :
    t.accepted = s.accepted ++ (a.accepted p).toList := by
  obtain ⟨⟨hrun, hopen⟩, hcases⟩ := live_step h ht
  rcases hcases with ⟨data, rfl, rfl⟩ | ⟨packet, posted, rfl, -, rfl⟩ | ⟨i, err, buffer, rfl, -, rfl⟩
  · unfold State.sendData
    rw [State.accepts_eq hrun]
    cases hpacket : p.packetMessage data <;> simp [Action.accepted, hpacket]
  · rw [State.onPosted_eq { s with posted := posted } hrun hopen]
    exact (List.append_nil _).symm
  · unfold State.onSent
    dsimp only
    split_ifs <;> simp [Action.accepted]

theorem accepted_run (h : Run (step p) Free s as t) (ht : t.Live) :
    s.Live ∧ t.accepted = s.accepted ++ as.filterMap (Action.accepted p) := by
  induction h with
  | nil => exact ⟨ht, by simp⟩
  | @cons s u t a as _ hst _ ih =>
    obtain ⟨hu, haccepted⟩ := ih ht
    refine ⟨(live_step hst hu).1, ?_⟩
    rw [haccepted, accepted_step hst hu, List.append_assoc, List.filterMap_cons]
    cases a.accepted p <;> rfl

/-- In every run: at most one send is outstanding, and one exactly when the list is not empty; what has
gone out is what was accepted, in its order, up to the list and to what is still posted. -/
theorem send_queue (h : Run (step p) Free initial as s) (hrun : s.running = true)
    (hopen : s.isOpen = true) :
    s.sending.length ≤ 1 ∧ (s.sending ≠ [] ↔ s.sendDataList ≠ []) ∧
      s.sent ++ s.sendDataList = s.queued ∧
      s.sent ++ s.sendDataList ++ s.posted = as.filterMap (Action.accepted p) := by
  have hserving : Serving s :=
    h.invariant (fun s => s.Live → Serving s)
      (fun s a t hs _ hst ht => (hs (live_step hst ht).1).step hst ht)
      (fun _ => serving_initial) ⟨hrun, hopen⟩
  have haccepted := (accepted_run h ⟨hrun, hopen⟩).2
  refine ⟨?_, ?_, hserving.listed, ?_⟩
  · rw [hserving.one, List.length_take]
    exact Nat.min_le_left 1 _
  · rw [hserving.one]
    simp
  · rw [hserving.listed, hserving.accepted, haccepted]
    rfl

/-- Two messages, of which the first has to be sent twice. -/
def retried : List Action :=
  [.sendData [65], .sendData [66], .runPosted, .complete 0 true, .runPosted, .complete 0 false]

theorem send_queue_retried : ∃ s, Run (step ⟨[60], [62]⟩) Free initial retried s ∧
    s.sent = [[60, 65, 62]] ∧ s.sending.length ≤ 1 ∧
      s.sent ++ s.sendDataList ++ s.posted = [[60, 65, 62], [60, 66, 62]] := by
  have h := run_exec (step ⟨[60], [62]⟩) Free initial retried (by decide)
  obtain ⟨hone, -, -, hall⟩ := send_queue h (by decide) (by decide)
  exact ⟨_, h, by decide, hone, hall⟩

end NetworkUtility.MulticastHelper
