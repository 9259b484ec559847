import NetworkUtility.EtcpServer.Chain

/-! The callbacks of a session: `on_etcp_accept`, then what it receives, then `on_etcp_close`. -/
namespace NetworkUtility.EtcpServer

open Etcp Machine

/-- `on_etcp_recv` and `on_etcp_error`. -/
def Callback.inner : Callback → Bool
  | .error _ _ => true
  | .recv _ => true
  | _ => false

/-- One `on_etcp_accept`, any number of inner callbacks, at most one `on_etcp_close`. -/
def Ordered (log : List Callback) : Prop :=
  log = [] ∨ ∃ inner, inner.all Callback.inner ∧
    (log = .accept :: inner ∨ log = .accept :: (inner ++ [.close]))

namespace Session

/-- The completion of a read that would still call back. -/
def Late (o : ByteOrder) (s : Session) : Task → Prop
  | .complete .readBody (.success _) => True
  | .complete .readHead (.success _) => checkHead o s.recvHead = .badSign
  | _ => False

instance (o : ByteOrder) (s : Session) (task : Task) : Decidable (s.Late o task) := by
  unfold Late
  split <;> infer_instance

/-- When a close task finds the session not closed, no packet and no bad header is queued. -/
def Prompt (o : ByteOrder) (s : Session) : Action → Prop
  | .run i => s.ready[i]? = some .doClose → s.closed = false → ∀ task ∈ s.ready, ¬ s.Late o task
  | _ => True

instance (o : ByteOrder) (s : Session) : (a : Action) → Decidable (s.Prompt o a)
  | .run _ => inferInstanceAs (Decidable (_ → _ → _))
  | .accepted _ | .acceptStart | .acceptCallback | .acceptAppend | .acceptRead | .acceptAgain
  | .keep _ | .callClose | .callSend _ | .post _ | .close | .closeCallback | .closeRemove
  | .transfer .. | .receive .. | .fail .. => instDecidableTrue

/-- Nothing can call back any more. -/
structure Quiet (o : ByteOrder) (s : Session) : Prop where
  pending : ∀ p ∈ s.pending, p.reads = false
  ready : ∀ task ∈ s.ready, ¬ s.Late o task
  ended : s.tokens = 0 ∨ s.isOpen = false

structure Traced (o : ByteOrder) (s : Session) : Prop where
  sound : s.Sound
  before : s.log ≠ [] → s.closed = false ∨ s.closing = .callback →
    ∃ inner, inner.all Callback.inner ∧ s.log = .accept :: inner
  behind : s.log ≠ [] → s.closed → s.closing ≠ .callback →
    ∃ inner, inner.all Callback.inner ∧ s.log = .accept :: (inner ++ [.close])
  quiet : s.log ≠ [] → s.closed → s.Quiet o

variable {o : ByteOrder} {s t : Session} {a : Action} {as : List Action} {task : Task} {op : Op}
  {i : Nat}

theorem Traced.ordered (hs : s.Traced o) : Ordered s.log := by
  by_cases hlog : s.log = []
  · exact .inl hlog
  · right
    by_cases hlive : s.closed = false ∨ s.closing = .callback
    · obtain ⟨inner, hinner, heq⟩ := hs.before hlog hlive
      exact ⟨inner, hinner, .inl heq⟩
    · rw [not_or, Bool.not_eq_false] at hlive
      obtain ⟨inner, hinner, heq⟩ := hs.behind hlog hlive.1 hlive.2
      exact ⟨inner, hinner, .inr heq⟩

theorem traced_initial : Traced o initial :=
  ⟨sound_initial, fun h => absurd rfl h, fun h => absurd rfl h, fun h => absurd rfl h⟩

/-! ### Quiet sessions -/

/-- Only reads can be late. -/
theorem not_late_of_reads (hr : task.reads = false) : ¬ s.Late o task := by
  unfold Late
  split
  · simp [Task.reads, Op.reads] at hr
  · simp [Task.reads, Op.reads] at hr
  · exact not_false

theorem not_late_failure (op : Op) (err : Error) : ¬ s.Late o (.complete op (.failure err)) := by
  cases op <;> exact not_false

theorem Quiet.of_kept (hs : s.Quiet o) (hpending : ∀ p ∈ t.pending, p.reads → p ∈ s.pending)
    (hready : ∀ task ∈ t.ready, t.Late o task → task ∈ s.ready ∧ s.Late o task)
    (htokens : t.tokens ≤ s.tokens) (hopen : s.isOpen = false → t.isOpen = false) : t.Quiet o := by
  refine ⟨fun p hp => ?_, fun task ht hl => ?_, ?_⟩
  · by_contra hr
    rw [Bool.not_eq_false] at hr
    exact absurd (hs.pending p (hpending p hp hr)) (by simp [hr])
  · obtain ⟨hmem, hlate⟩ := hready task ht hl
    exact hs.ready task hmem hlate
  · rcases hs.ended with h | h
    · exact .inl (by omega)
    · exact .inr (hopen h)

/-- Without a token no read is outstanding or queued. -/
theorem tokens_zero (h : s.tokens = 0) :
    (∀ task ∈ s.ready, task.reads = false) ∧ ∀ p ∈ s.pending, p.reads = false := by
  have hready : s.ready.countP Task.reads = 0 := by
    unfold tokens at h
    omega
  have hpending : s.pending.countP Pending.reads = 0 := by
    unfold tokens at h
    omega
  refine ⟨fun task ht => ?_, fun p hp => ?_⟩
  · simpa using List.countP_eq_zero.mp hready task ht
  · simpa using List.countP_eq_zero.mp hpending p hp

theorem quiet_of_tokens (h : s.tokens = 0) : s.Quiet o := by
  obtain ⟨hready, hpending⟩ := tokens_zero h
  exact ⟨hpending, fun task ht => not_late_of_reads (hready task ht), .inl h⟩

/-- On a closed socket even a read is quiet. -/
theorem quiet_start (hs : s.Quiet o) (h : op.reads = false ∨ s.isOpen = false) (data : Bytes) :
    (s.start op data).Quiet o := by
  have htokens := tokens_start s op data
  cases hopen : s.isOpen with
  | true =>
    have hop : op.reads = false := h.resolve_right (by simp [hopen])
    refine ⟨fun p hp => ?_, fun task ht => ?_, ?_⟩
    · simp only [start, hopen, if_true, List.mem_append, List.mem_singleton] at hp
      rcases hp with hp | rfl
      · exact hs.pending p hp
      · exact hop
    · simp only [start, hopen, if_true] at ht
      exact hs.ready task ht
    · left
      rw [htokens, hop, Bool.toNat_false, Nat.add_zero]
      exact hs.ended.resolve_right (by simp [hopen])
  | false =>
    refine ⟨fun p hp => ?_, fun task ht => ?_, .inr hopen⟩
    · simp only [start, hopen, Bool.false_eq_true, if_false] at hp
      exact hs.pending p hp
    · simp only [start, hopen, Bool.false_eq_true, if_false, List.mem_append,
        List.mem_singleton] at ht
      rcases ht with ht | rfl
      · exact hs.ready task ht
      · exact not_late_failure op _

theorem Quiet.of_buffers (hs : s.Quiet o) (recvData : Bytes) (sendDataList queued : List Bytes) :
    { s with recvData := recvData, sendDataList := sendDataList, queued := queued }.Quiet o :=
  ⟨hs.pending, hs.ready, hs.ended⟩

theorem quiet_doWrite (hs : s.Quiet o) : s.doWrite.Quiet o := by
  unfold doWrite
  split
  · exact hs
  · exact quiet_start hs (.inl rfl) _

theorem quiet_onClose (hs : s.Quiet o) : s.onClose.Quiet o := ⟨hs.pending, hs.ready, hs.ended⟩

theorem quiet_release (hready : ∀ task ∈ s.ready, ¬ s.Late o task)
    (hshut : s.isOpen = false → s.pending = []) : s.release.Quiet o := by
  refine ⟨fun p hp => ?_, fun task ht => ?_, .inr rfl⟩
  · cases hopen : s.isOpen with
    | true => simp [release, hopen] at hp
    | false => simp [release, hopen, hshut hopen] at hp
  · cases hopen : s.isOpen with
    | true =>
      simp only [release, hopen, if_true, List.mem_append, List.mem_map] at ht
      rcases ht with ht | ⟨p, -, rfl⟩
      · exact hready task ht
      · exact not_late_failure p.op _
    | false =>
      simp only [release, hopen, Bool.false_eq_true, if_false] at ht
      exact hready task ht

theorem Quiet.dequeue (hs : s.Quiet o) (h : s.ready[i]? = some task) :
    (s.dequeue i).Quiet o := by
  have htokens := tokens_dequeue h
  exact hs.of_kept (fun p hp _ => hp) (fun task ht hl => ⟨List.mem_of_mem_eraseIdx ht, hl⟩)
    (by omega) id

/-- The tasks of a closed session start no read and call nothing back. -/
theorem quiet_run (hs : s.Sound) (hq : s.Quiet o) (h : s.ready[i]? = some task) :
    ((s.dequeue i).runTask o task).Quiet o := by
  have hnot := hq.ready task (List.mem_of_getElem? h)
  have htokens := tokens_dequeue h
  have hq' := hq.dequeue h
  cases task with
  | doClose => exact quiet_onClose (quiet_release hq'.ready hs.shut)
  | sendMessage pack =>
    simp only [runTask, runSend]
    split
    · split
      · exact quiet_doWrite (hq'.of_buffers _ _ _)
      · exact hq'.of_buffers _ _ _
    · exact hq'
  | complete op res =>
    cases op with
    | write =>
      cases res with
      | failure err => exact hq'.of_buffers _ _ _
      | success len =>
        simp only [runTask, onWritten]
        split
        · exact quiet_doWrite (hq'.of_buffers _ _ _)
        · exact hq'.of_buffers _ _ _
    | readHead =>
      cases res with
      | failure err => exact quiet_onClose hq'
      | success len =>
        have hone := hs.one
        have hreads : (Task.complete .readHead (.success len)).reads.toNat = 1 := rfl
        have hzero : (s.dequeue i).tokens = 0 := by omega
        have hopen : s.isOpen = false := hq.ended.resolve_left (by omega)
        simp only [runTask, onReadHead]
        split
        · next hbad => exact absurd hbad hnot
        · exact quiet_start (by exact quiet_of_tokens hzero) (by exact .inr hopen) []
        · exact quiet_start (by exact quiet_of_tokens hzero) (by exact .inr hopen) []
    | readBody =>
      cases res with
      | failure err => exact quiet_onClose hq'
      | success len => exact absurd trivial hnot

/-! ### What tasks call back -/

theorem doWrite_log (s : Session) : s.doWrite.log = s.log := by
  unfold doWrite
  split <;> rfl

/-- A task calls back only if it is the completion of a read with a packet or a bad header. -/
theorem log_runTask (s : Session) (task : Task) : (s.runTask o task).log = s.log ∨
    s.Late o task ∧ ∃ c, c.inner ∧ (s.runTask o task).log = s.log ++ [c] := by
  cases task with
  | doClose => exact .inl rfl
  | sendMessage pack =>
    left
    simp only [runTask, runSend]
    split
    · split
      · exact doWrite_log _
      · rfl
    · rfl
  | complete op res =>
    cases op with
    | write =>
      left
      cases res with
      | failure err => rfl
      | success len =>
        simp only [runTask, onWritten]
        split
        · exact doWrite_log _
        · rfl
    | readHead =>
      cases res with
      | failure err => exact .inl rfl
      | success len =>
        simp only [runTask, onReadHead]
        split
        · next hbad => exact .inr ⟨hbad, _, rfl, rfl⟩
        · exact .inl rfl
        · exact .inl rfl
    | readBody =>
      cases res with
      | failure err => exact .inl rfl
      | success len => exact .inr ⟨trivial, _, rfl, rfl⟩

/-- A task calls neither `on_etcp_accept` nor `on_etcp_close` back. -/
theorem mem_log_runTask {c : Callback} (hc : c.inner = false) (s : Session) (task : Task) :
    c ∈ (s.runTask o task).log ↔ c ∈ s.log := by
  rcases log_runTask (o := o) s task with heq | ⟨-, b, hb, heq⟩
  · rw [heq]
  · rw [heq, List.mem_append, List.mem_singleton, or_iff_left_iff_imp]
    rintro rfl
    exact absurd hb (by simp [hc])

theorem doWrite_close (s : Session) : s.doWrite.closed = s.closed ∧ s.doWrite.closing = s.closing := by
  unfold doWrite
  split <;> exact ⟨rfl, rfl⟩

/-- Only a close task and a read that fails run `on_close`. -/
theorem close_runTask (s : Session) (task : Task) :
    (s.runTask o task).closed = s.closed ∧ (s.runTask o task).closing = s.closing ∨
      task = .doClose ∨
      ∃ op err, task = .complete op (.failure err) ∧ op.reads ∧ s.runTask o task = s.onClose := by
  cases task with
  | doClose => exact .inr (.inl rfl)
  | sendMessage pack =>
    left
    simp only [runTask, runSend]
    split
    · split
      · exact doWrite_close _
      · exact ⟨rfl, rfl⟩
    · exact ⟨rfl, rfl⟩
  | complete op res =>
    cases op with
    | write =>
      left
      cases res with
      | failure err => exact ⟨rfl, rfl⟩
      | success len =>
        simp only [runTask, onWritten]
        split
        · exact doWrite_close _
        · exact ⟨rfl, rfl⟩
    | readHead =>
      cases res with
      | failure err => exact .inr (.inr ⟨_, err, rfl, rfl, rfl⟩)
      | success len =>
        left
        simp only [runTask, onReadHead]
        split <;> exact ⟨rfl, rfl⟩
    | readBody =>
      cases res with
      | failure err => exact .inr (.inr ⟨_, err, rfl, rfl, rfl⟩)
      | success len => exact .inl ⟨rfl, rfl⟩

/-! ### Steps -/

/-- A step that neither calls back nor runs a part of `on_close`. -/
theorem Traced.of_same (hs : s.Traced o) (ht : t.Sound) (hlog : t.log = s.log)
    (hclosed : t.closed = s.closed) (hclosing : t.closing = s.closing)
    (hquiet : s.Quiet o → t.Quiet o) : t.Traced o := by
  refine ⟨ht, ?_, ?_, ?_⟩
  · rw [hlog, hclosed, hclosing]
    exact hs.before
  · rw [hlog, hclosed, hclosing]
    exact hs.behind
  · rw [hlog, hclosed]
    exact fun hne hcl => hquiet (hs.quiet hne hcl)

theorem traced_run (hs : s.Traced o) (htask : s.ready[i]? = some task)
    (hg : task = .doClose → s.closed = false → ∀ task ∈ s.ready, ¬ s.Late o task)
    (ht : ((s.dequeue i).runTask o task).Sound) :
    ((s.dequeue i).runTask o task).Traced o := by
  have hready : s.ready ≠ [] := List.ne_nil_of_mem (List.mem_of_getElem? htask)
  have hlog := hs.sound.not_fresh (.inr (.inr (.inr (.inl hready))))
  have hcalls := log_runTask (o := o) (s.dequeue i) task
  have hclose := close_runTask (o := o) (s.dequeue i) task
  by_cases hclosed : s.closed = true
  · have hq := hs.quiet hlog hclosed
    have hkeep : (if s.closed then s.closing else Closing.callback) = s.closing := by simp [hclosed]
    refine hs.of_same ht ?_ ?_ ?_ fun _ => quiet_run hs.sound hq htask
    · exact hcalls.resolve_right fun hl => hq.ready task (List.mem_of_getElem? htask) hl.1
    · rcases hclose with h | rfl | ⟨op, err, rfl, -, h⟩
      · exact h.1
      · exact hclosed.symm
      · rw [h]
        exact hclosed.symm
    · rcases hclose with h | rfl | ⟨op, err, rfl, -, h⟩
      · exact h.2
      · exact hkeep
      · rw [h]
        exact hkeep
  · rw [Bool.not_eq_true] at hclosed
    obtain ⟨inner, hinner, heq⟩ := hs.before hlog (.inl hclosed)
    have hcallback : (if s.closed then s.closing else Closing.callback) = .callback := by
      simp [hclosed]
    rcases hclose with ⟨hc, -⟩ | rfl | ⟨op, err, rfl, hr, hc⟩
    · have hopen := hc.trans hclosed
      refine ⟨ht, fun _ _ => ?_, fun _ h => ?_, fun _ h => ?_⟩
      · rcases hcalls with h | ⟨-, c, hin, h⟩
        · exact ⟨inner, hinner, h.trans heq⟩
        · refine ⟨inner ++ [c], ?_, ?_⟩
          · simp [hinner, hin]
          · rw [h]
            exact congrArg (· ++ [c]) heq
      · exact absurd h (by simp [hopen])
      · exact absurd h (by simp [hopen])
    · refine ⟨ht, fun _ _ => ⟨inner, hinner, heq⟩, fun _ _ h => absurd hcallback h, fun _ _ => ?_⟩
      have hready : ∀ task ∈ (s.dequeue i).ready, ¬ s.Late o task := fun task ht =>
        hg rfl hclosed task (List.mem_of_mem_eraseIdx ht)
      exact quiet_onClose (quiet_release hready hs.sound.shut)
    · rw [hc] at ht ⊢
      refine ⟨ht, fun _ _ => ⟨inner, hinner, heq⟩, fun _ _ h => absurd hcallback h, fun _ _ => ?_⟩
      have htokens := tokens_dequeue htask
      have hone := hs.sound.one
      have hreads : (Task.complete op (.failure err)).reads.toNat = 1 := congrArg Bool.toNat hr
      rw [hreads] at htokens
      apply quiet_onClose (quiet_of_tokens _)
      omega

theorem traced_of_empty (ht : t.Sound) (hlog : t.log = []) : t.Traced o :=
  ⟨ht, fun h => absurd hlog h, fun h => absurd hlog h, fun h => absurd hlog h⟩

theorem quiet_doClose (hq : s.Quiet o) : s.doClose.Quiet o := by
  refine hq.of_kept (fun p hp _ => hp) (fun task ht hl => ?_) (Nat.le_of_eq (tokens_doClose s)) id
  rcases List.mem_append.mp ht with ht | ht
  · exact ⟨ht, hl⟩
  · rw [List.mem_singleton.mp ht] at hl
    exact hl.elim

/-- What is outstanding on a quiet session is no read, so its completion is not late. -/
theorem quiet_finish {p : Pending} (hq : s.Quiet o) (h : s.pending[i]? = some p) (res : Result) :
    (s.finish i p.op res).Quiet o := by
  have hreads : p.reads = false := hq.pending p (List.mem_of_getElem? h)
  refine hq.of_kept (fun p hp _ => List.mem_of_mem_eraseIdx hp) (fun task ht hl => ?_)
    (Nat.le_of_eq (tokens_finish h res)) id
  rcases List.mem_append.mp ht with ht | ht
  · exact ⟨ht, hl⟩
  · rw [List.mem_singleton.mp ht] at hl
    exact absurd hl (not_late_of_reads hreads)

theorem quiet_progress {p q : Pending} (hs : s.Quiet o) (h : s.pending[i]? = some p) (hq : q.op = p.op)
    (whole : Bool) : (s.progress i q whole).Quiet o := by
  have hreads : p.reads = false := hs.pending p (List.mem_of_getElem? h)
  unfold progress
  split
  · rw [hq]
    exact quiet_finish hs h _
  · refine hs.of_kept (fun x hx hr => ?_) (fun task ht hl => ⟨ht, hl⟩) (Nat.le_of_eq (tokens_set h hq)) id
    rcases List.mem_or_eq_of_mem_set hx with hx | rfl
    · exact hx
    · have hqr : x.reads = p.reads := congrArg Op.reads hq
      exact absurd hr (by simp [hqr, hreads])

theorem traced_progress {p q : Pending} (hs : s.Traced o) (h : s.pending[i]? = some p)
    (hq : q.op = p.op) (whole : Bool) : (s.progress i q whole).Traced o := by
  have hp := plain_progress s i q whole
  exact hs.of_same (sound_progress hs.sound h hq whole) hp.log hp.closed hp.closing
    fun hquiet => quiet_progress hquiet h hq whole

/-- Bytes come in only for an outstanding read, which a closed session does not have. -/
theorem traced_receive {p : Pending} (hs : s.Traced o) (h : s.pending[i]? = some p) (hr : p.reads)
    (recvHead recvData : Bytes) : { s with recvHead := recvHead, recvData := recvData }.Traced o := by
  refine hs.of_same (hs.sound.of_buffers recvHead recvData s.written) rfl rfl rfl fun hq => ?_
  exact absurd hr (by simp [hq.pending p (List.mem_of_getElem? h)])

theorem traced_acceptCallback (hs : s.Traced o) (hc : s.accept = .callback)
    (ht : Sound { s with accept := .append, kept := true, log := s.log ++ [.accept] }) :
    Traced o { s with accept := .append, kept := true, log := s.log ++ [.accept] } := by
  have hlog : s.log = [] := hs.sound.log_nil (by rw [hc]; rfl)
  have hclosed := (hs.sound.fresh hlog).closed.mpr hc
  refine ⟨ht, fun _ _ => ⟨[], rfl, ?_⟩, fun _ h => ?_, fun _ h => ?_⟩
  · rw [hlog]
    rfl
  · exact absurd h (by simp [hclosed])
  · exact absurd h (by simp [hclosed])

/-- A session that is quiet before its first read is on a socket that is closed. -/
theorem traced_acceptRead (hs : s.Traced o) (hc : s.accept = .read)
    (ht : Sound { s.doRead with accept := .again }) : Traced o { s.doRead with accept := .again } := by
  refine hs.of_same ht rfl rfl rfl fun hq => ?_
  have htoken : s.tokens ≠ 0 := by
    simp [tokens, hc, Accept.before]
  have hopen : s.isOpen = false := hq.ended.resolve_left htoken
  have hq' : s.doRead.Quiet o := quiet_start hq (.inr hopen) []
  exact ⟨hq'.pending, hq'.ready, .inr hopen⟩

/-- `on_etcp_close` comes behind what the session has called back. -/
theorem traced_closeCallback (hs : s.Traced o) (hc : s.closing = .callback)
    (ht : Sound { s with closing := .remove, log := s.log ++ [.close] }) :
    Traced o { s with closing := .remove, log := s.log ++ [.close] } := by
  have hclosing : s.closing ≠ .idle := by simp [hc]
  have hlog := hs.sound.not_fresh (.inl hclosing)
  have hclosed := hs.sound.closing hclosing
  obtain ⟨inner, hinner, heq⟩ := hs.before hlog (.inr hc)
  have hq := hs.quiet hlog hclosed
  refine ⟨ht, fun _ h => ?_, fun _ _ _ => ⟨inner, hinner, ?_⟩, fun _ _ => ?_⟩
  · rcases h with h | h
    · exact absurd h (by simp [hclosed])
    · cases h
  · exact congrArg (· ++ [Callback.close]) heq
  · exact ⟨hq.pending, hq.ready, hq.ended⟩

theorem traced_closeRemove (hs : s.Traced o) (hc : s.closing = .remove)
    (ht : Sound { s with closing := .idle }) : Traced o { s with closing := .idle } := by
  have hclosing : s.closing ≠ .idle := by simp [hc]
  have hclosed := hs.sound.closing hclosing
  refine ⟨ht, fun _ h => ?_, fun hlog hcl _ => ?_, fun hlog hcl => ?_⟩
  · rcases h with h | h
    · exact absurd h (by simp [hclosed])
    · cases h
  · exact hs.behind hlog hcl (by simp [hc])
  · have hq := hs.quiet hlog hcl
    exact ⟨hq.pending, hq.ready, hq.ended⟩

theorem traced_step (hs : s.Traced o) (hg : s.Prompt o a) (h : step o s a = some t) : t.Traced o := by
  have ht := sound_step hs.sound h
  have hfresh : s.accept.begun = false → s.log = [] := hs.sound.log_nil
  cases effect_of_step h with
  | run _ _ htask => exact traced_run hs htask (fun htc => hg (htc ▸ htask)) ht
  | accepted _ hw => exact traced_of_empty ht (hfresh (by rw [hw]; rfl))
  | acceptStart hc => exact traced_of_empty ht (hfresh (by rw [hc]; rfl))
  | acceptFailed hc => exact traced_of_empty ht (hfresh (by rw [hc]; rfl))
  | acceptCallback hc => exact traced_acceptCallback hs hc ht
  | acceptAppend hc =>
    refine hs.of_same ht rfl rfl rfl fun hq => ⟨hq.pending, hq.ready, ?_⟩
    rw [tokens_acceptAppend hc]
    exact hq.ended
  | acceptRead hc => exact traced_acceptRead hs hc ht
  | acceptAgain hc =>
    refine hs.of_same ht rfl rfl rfl fun hq => ⟨hq.pending, hq.ready, ?_⟩
    rw [tokens_acceptAgain hc]
    exact hq.ended
  | keep | callClose => exact hs.of_same ht rfl rfl rfl fun hq => ⟨hq.pending, hq.ready, hq.ended⟩
  | callSend => exact hs.of_same ht rfl rfl rfl fun hq => ⟨hq.pending, hq.ready, hq.ended⟩
  | postClose =>
    refine hs.of_same ht rfl rfl rfl fun hq => ?_
    have hq' := quiet_doClose hq
    exact ⟨hq'.pending, hq'.ready, hq'.ended⟩
  | postSend =>
    refine hs.of_same ht rfl rfl rfl fun hq => hq.of_kept (fun p hp _ => hp) (fun task ht hl => ?_) ?_ id
    · rcases List.mem_append.mp ht with ht | ht
      · exact ⟨ht, hl⟩
      · rw [List.mem_singleton.mp ht] at hl
        exact hl.elim
    · simp [tokens, List.countP_append, Task.reads]
  | close =>
    unfold close at ht ⊢
    split at ht
    · next hc =>
      rw [if_pos hc]
      exact hs
    · next hc =>
      rw [if_neg hc]
      exact hs.of_same ht rfl rfl rfl quiet_doClose
  | closeCallback hc => exact traced_closeCallback hs hc ht
  | closeRemove hc => exact traced_closeRemove hs hc ht
  | transfer _ n p hp =>
    have hw : { s with written := s.written ++ p.data.take n }.Traced o :=
      hs.of_same (hs.sound.of_buffers s.recvHead s.recvData _) rfl rfl rfl
        fun hq => ⟨hq.pending, hq.ready, hq.ended⟩
    exact traced_progress hw hp (by rfl) _
  | receiveHead _ bytes p hp hop =>
    have hr : p.reads := by simp [Pending.reads, hop, Op.reads]
    exact traced_progress (traced_receive hs hp hr (fill s.recvHead p.done bytes) s.recvData) hp
      (by rfl) _
  | receiveBody _ bytes p hp hop =>
    have hr : p.reads := by simp [Pending.reads, hop, Op.reads]
    exact traced_progress (traced_receive hs hp hr s.recvHead (fill s.recvData p.done bytes)) hp
      (by rfl) _
  | fail _ _ _ hp => exact hs.of_same ht rfl rfl rfl fun hq => quiet_finish hq hp _

/-- While no close task overtakes a packet or a bad header, the callbacks of a session come in order
and nothing follows `on_etcp_close`. -/
theorem callbacks_ordered (h : Run (step o) (Prompt o) initial as s) : Ordered s.log :=
  (h.invariant _ (fun _ _ _ hs hg hst => traced_step hs hg hst) traced_initial).ordered

/-- A packet, and a close behind it. -/
theorem callbacks_ordered_example : ∃ as s, Run (step .little) (Prompt .little) initial as s ∧
    s.log = [.accept, .recv [7], .close] ∧ Ordered s.log :=
  have h := run_exec (step .little) (Prompt .little) initial
    [.accepted true, .acceptStart, .acceptCallback, .acceptAppend, .acceptRead, .acceptAgain,
      .receive 0 [0x45, 0x54, 0, 0, 0, 1], .run 0, .receive 0 [7], .run 0, .callClose, .post 0, .run 0,
      .closeCallback, .closeRemove] (by decide)
  ⟨_, _, h, by decide, callbacks_ordered h⟩

/-- The task of `close()` is queued when the body of a packet comes in: it runs first, and the
packet is delivered behind `on_etcp_close`. -/
theorem packet_behind_close :
    ¬ ∀ as s, Run (step .little) Free initial as s → Ordered s.log := by
  intro h
  have hrun := run_exec (step .little) Free initial
    [.accepted true, .acceptStart, .acceptCallback, .acceptAppend, .acceptRead, .acceptAgain,
      .receive 0 [0x45, 0x54, 0, 0, 0, 1], .run 0, .callClose, .post 0, .receive 0 [7], .run 0,
      .closeCallback, .closeRemove, .run 0] (by decide)
  have hlog := h _ _ hrun
  rw [show (Option.get _ _ : Session).log = [.accept, .close, .recv [7]] from by decide] at hlog
  obtain hnil | ⟨inner, hinner, heq | heq⟩ := hlog
  · cases hnil
  · obtain rfl := List.cons.inj heq |>.2
    cases hinner
  · have hback := congrArg List.getLast? (List.cons.inj heq).2
    simp at hback

end Session

end NetworkUtility.EtcpServer
