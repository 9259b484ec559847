import NetworkUtility.EtcpClient.Closed
import NetworkUtility.EtcpServer.Trace

/-! A session that has called `on_etcp_close` back has a closed socket, if no read fails on an open
one; with the same of a client, closed means closed on both sides. -/
namespace NetworkUtility.EtcpServer.Session

open Etcp Machine

/-- A read that ends a session finds its socket closed. -/
def Severed (s : Session) : Action → Prop
  | .run i =>
    match s.ready[i]? with
    | some (.complete op (.failure _)) => op.reads → s.closed = false → s.isOpen = false
    | _ => True
  | _ => True

instance (s : Session) : (a : Action) → Decidable (s.Severed a)
  | .run i => by
    dsimp only [Severed]
    split <;> infer_instance
  | .accepted _ | .acceptStart | .acceptCallback | .acceptAppend | .acceptRead | .acceptAgain
  | .keep _ | .callClose | .callSend _ | .post _ | .close | .closeCallback | .closeRemove
  | .transfer .. | .receive .. | .fail .. => instDecidableTrue

/-- `send_message` returns false, and whatever happens no packet is queued and no byte is written. -/
def Over (o : ByteOrder) (s : Session) : Prop :=
  (∀ pack, s.sendMessage pack = false) ∧
    ∀ as t, Run (step o) Free s as t → t.queued = s.queued ∧ t.written = s.written

structure Shut (s : Session) : Prop where
  sound : s.Sound
  dark : s.log ≠ [] → s.closed → s.isOpen = false
  closed : .close ∈ s.log → s.closed

variable {o : ByteOrder} {s t : Session} {a : Action} {as : List Action} {task : Task} {i : Nat}

theorem doWrite_isOpen (s : Session) : s.doWrite.isOpen = s.isOpen := by
  unfold doWrite
  split <;> rfl

theorem isOpen_runTask (s : Session) (task : Task) :
    (s.runTask o task).isOpen = s.isOpen ∨ task = .doClose := by
  cases task with
  | doClose => exact .inr rfl
  | sendMessage pack =>
    left
    simp only [runTask, runSend]
    split
    · split
      · exact doWrite_isOpen _
      · rfl
    · rfl
  | complete op res =>
    left
    cases op with
    | write =>
      cases res with
      | failure err => rfl
      | success len =>
        simp only [runTask, onWritten]
        split
        · exact doWrite_isOpen _
        · rfl
    | readHead =>
      cases res with
      | failure err => rfl
      | success len =>
        simp only [runTask, onReadHead]
        split <;> rfl
    | readBody => cases res <;> rfl

theorem shut_initial : Shut initial := ⟨sound_initial, fun h => absurd rfl h, nofun⟩

theorem shut_run (hs : s.Shut) (htask : s.ready[i]? = some task) (hg : s.Severed (.run i))
    (ht : ((s.dequeue i).runTask o task).Sound) : ((s.dequeue i).runTask o task).Shut := by
  have hready : s.ready ≠ [] := List.ne_nil_of_mem (List.mem_of_getElem? htask)
  have hlog := hs.sound.not_fresh (.inr (.inr (.inr (.inl hready))))
  have hl : Leaves (s.dequeue i) task _ := leaves_runTask (o := o)
  have hmem : .close ∈ ((s.dequeue i).runTask o task).log ↔ .close ∈ (s.dequeue i).log :=
    mem_log_runTask (by rfl) (s.dequeue i) task
  refine ⟨ht, fun _ hc => ?_, fun hin => hl.closed (hs.closed (hmem.mp hin))⟩
  rcases isOpen_runTask (o := o) (s.dequeue i) task with hopen | rfl
  · rw [hopen]
    by_cases hclosed : s.closed = true
    · exact hs.dark hlog hclosed
    · rw [Bool.not_eq_true] at hclosed
      rcases close_runTask (o := o) (s.dequeue i) task with ⟨hsame, -⟩ | rfl | ⟨op, err, rfl, hr, -⟩
      · exact absurd (hsame.symm.trans hc) (by simpa [dequeue] using hclosed)
      · exact hopen.symm
      · simp only [Severed, htask] at hg
        exact hg hr hclosed
  · rfl

theorem Shut.of_same (hs : s.Shut) (ht : t.Sound) (hlog : t.log = s.log)
    (hclosed : t.closed = s.closed) (hopen : t.isOpen = s.isOpen) : t.Shut := by
  refine ⟨ht, ?_, ?_⟩
  · rw [hlog, hclosed, hopen]
    exact hs.dark
  · rw [hlog, hclosed]
    exact hs.closed

theorem shut_of_empty (ht : t.Sound) (hlog : t.log = []) : t.Shut :=
  ⟨ht, fun h => absurd hlog h, fun h => absurd h (by simp [hlog])⟩

theorem shut_step (hs : s.Shut) (hg : s.Severed a) (h : step o s a = some t) : t.Shut := by
  have ht := sound_step hs.sound h
  by_cases hp : a.plain
  · have hplain := step_plain hp h
    exact hs.of_same ht hplain.log hplain.closed hplain.isOpen
  cases effect_of_step h with
  | run _ _ htask => exact shut_run hs htask hg ht
  | accepted _ hw => exact shut_of_empty ht (hs.sound.log_nil (by rw [hw]; rfl))
  | acceptStart hc => exact shut_of_empty ht (hs.sound.log_nil (by rw [hc]; rfl))
  | acceptFailed hc => exact shut_of_empty ht (hs.sound.log_nil (by rw [hc]; rfl))
  | acceptCallback hc =>
    have hlog := hs.sound.log_nil (by rw [hc]; rfl)
    have hclosed := (hs.sound.fresh hlog).closed.mpr hc
    refine ⟨ht, fun _ h => ?_, fun h => ?_⟩
    · exact absurd h (by simp [hclosed])
    · simp [hlog] at h
  | closeCallback hc =>
    have hclosing : s.closing ≠ .idle := by simp [hc]
    have hclosed := hs.sound.closing hclosing
    exact ⟨ht, fun _ _ => hs.dark (hs.sound.not_fresh (.inl hclosing)) hclosed, fun _ => hclosed⟩
  | closeRemove => exact hs.of_same ht rfl rfl rfl
  | _ => exact absurd rfl hp

/-! ### Behind the close -/

/-- A step of a closed socket queues and writes nothing. -/
structure Dark (s : Session) : Prop where
  sound : s.Sound
  accepted : s.log ≠ []
  isOpen : s.isOpen = false

theorem output_runTask (hopen : s.isOpen = false) (task : Task) :
    (s.runTask o task).queued = s.queued ∧ (s.runTask o task).written = s.written := by
  have hwrite : ∀ s : Session, s.doWrite.queued = s.queued ∧ s.doWrite.written = s.written := by
    intro s
    unfold doWrite
    split <;> exact ⟨rfl, rfl⟩
  cases task with
  | doClose => exact ⟨rfl, rfl⟩
  | sendMessage pack =>
    simp only [runTask, runSend, hopen, Bool.false_eq_true, if_false]
    exact ⟨trivial, trivial⟩
  | complete op res =>
    cases op with
    | write =>
      cases res with
      | failure err => exact ⟨rfl, rfl⟩
      | success len =>
        simp only [runTask, onWritten]
        split
        · exact hwrite _
        · exact ⟨rfl, rfl⟩
    | readHead =>
      cases res with
      | failure err => exact ⟨rfl, rfl⟩
      | success len =>
        simp only [runTask, onReadHead]
        split <;> exact ⟨rfl, rfl⟩
    | readBody => cases res <;> exact ⟨rfl, rfl⟩

theorem dark_step (hs : s.Dark) (h : step o s a = some t) :
    t.Dark ∧ t.queued = s.queued ∧ t.written = s.written := by
  obtain ⟨hsound, hlog, hopen⟩ := hs
  have ht := sound_step hsound h
  by_cases hp : a.plain
  · have hplain := step_plain hp h
    exact ⟨⟨ht, hplain.log ▸ hlog, hplain.isOpen.trans hopen⟩, hplain.queued,
      hplain.written (hsound.shut hopen)⟩
  have hbegun : s.accept.begun = false → False := fun hb => hlog (hsound.log_nil hb)
  cases effect_of_step h with
  | run i task =>
    have hl : Leaves (s.dequeue i) task _ := leaves_runTask (o := o)
    have hlog' : ((s.dequeue i).runTask o task).log ≠ [] := fun hnil =>
      hlog (List.prefix_nil.mp (hnil ▸ hl.log))
    have hopen' : ((s.dequeue i).runTask o task).isOpen = false := by
      rcases isOpen_runTask (o := o) (s.dequeue i) task with hsame | rfl
      · exact hsame.trans hopen
      · rfl
    exact ⟨⟨ht, hlog', hopen'⟩, output_runTask (s := s.dequeue i) hopen task⟩
  | accepted _ hw => exact (hbegun (by rw [hw]; rfl)).elim
  | acceptStart hc => exact (hbegun (by rw [hc]; rfl)).elim
  | acceptFailed hc => exact (hbegun (by rw [hc]; rfl)).elim
  | acceptCallback hw => exact (hbegun (by rw [hw]; rfl)).elim
  | closeCallback => exact ⟨⟨ht, by simp, hopen⟩, rfl, rfl⟩
  | closeRemove => exact ⟨⟨ht, hlog, hopen⟩, rfl, rfl⟩
  | _ => exact absurd rfl hp

theorem dark_run (hs : s.Dark) (h : Run (step o) Free s as t) :
    t.queued = s.queued ∧ t.written = s.written := by
  induction h with
  | nil => exact ⟨rfl, rfl⟩
  | cons _ hst _ ih =>
    obtain ⟨hdark, hqueued, hwritten⟩ := dark_step hs hst
    obtain ⟨hqueued', hwritten'⟩ := ih hdark
    exact ⟨hqueued'.trans hqueued, hwritten'.trans hwritten⟩

theorem Shut.ended (hs : s.Shut) (hclose : .close ∈ s.log) : s.Over o := by
  have hlog : s.log ≠ [] := List.ne_nil_of_mem hclose
  have hopen := hs.dark hlog (hs.closed hclose)
  refine ⟨fun pack => ?_, fun as t h => dark_run ⟨hs.sound, hlog, hopen⟩ h⟩
  simp [sendMessage, hopen]

theorem shut_of_run (h : Run (step o) Severed initial as s) : s.Shut :=
  h.invariant _ (fun _ _ _ hs hg hst => shut_step hs hg hst) shut_initial

/-- While no connect and no read ends an attempt or a session whose socket is open, what has called
`on_etcp_close` back sends no more. -/
theorem closed_means_closed {e : EtcpClient.Env} {request : Bytes} {cs : List EtcpClient.Action}
    {c : EtcpClient.State}
    (hc : Run (EtcpClient.step e) EtcpClient.Severed (EtcpClient.initial request) cs c)
    (hs : Run (step o) Severed initial as s) :
    EtcpClient.Over c ∧ (.close ∈ s.log → s.Over o) :=
  ⟨(EtcpClient.shut_of_run hc).ended, (shut_of_run hs).ended⟩

/-- Both are closed by `close()`. -/
theorem closed_means_closed_example : ∃ cs c as s,
    Run (EtcpClient.step ⟨.little, .keep, fun _ => ""⟩) EtcpClient.Severed (EtcpClient.initial []) cs c ∧
    Run (step .little) Severed initial as s ∧ (1, .close) ∈ c.log ∧ .close ∈ s.log ∧
    EtcpClient.Over c ∧ (.close ∈ s.log → s.Over .little) :=
  have hc := run_exec (EtcpClient.step ⟨.little, .keep, fun _ => ""⟩) EtcpClient.Severed
    (EtcpClient.initial [])
    [.callConnect, .post 0, .run, .connected 0, .run, .callClose, .post 0, .run, .run] (by decide)
  have hs := run_exec (step .little) Severed initial
    [.accepted true, .acceptStart, .acceptCallback, .acceptAppend, .acceptRead, .acceptAgain,
      .callClose, .post 0, .run 0, .closeCallback, .closeRemove, .run 0] (by decide)
  ⟨_, _, _, _, hc, hs, by decide, by decide, closed_means_closed hc hs⟩

/-- A refused connect and the end of the stream: `on_etcp_close` is called back, and the sockets stay
open. -/
theorem open_behind_close :
    (¬ ∀ as s, Run (EtcpClient.step ⟨.little, .keep, fun _ => ""⟩) Free (EtcpClient.initial []) as s →
      EtcpClient.Over s) ∧
    ¬ ∀ as s, Run (step .little) Free initial as s → .close ∈ s.log → s.Over .little := by
  constructor
  · intro h
    have hrun := run_exec (EtcpClient.step ⟨.little, .keep, fun _ => ""⟩) Free (EtcpClient.initial [])
      [.callConnect, .post 0, .run, .fail 0 (.other 111), .run] (by decide)
    have hover := h _ _ hrun (by decide)
    exact absurd hover.1 (by decide)
  · intro h
    have hrun := run_exec (step .little) Free initial
      [.accepted true, .acceptStart, .acceptCallback, .acceptAppend, .acceptRead, .acceptAgain,
        .fail 0 .eof, .run 0, .closeCallback, .closeRemove] (by decide)
    have hover := h _ _ hrun (by decide)
    exact absurd (hover.1 [7]) (by decide)

end NetworkUtility.EtcpServer.Session
