import NetworkUtility.Lib.Index
import NetworkUtility.EtcpServer.Steps

/-! A session that has been accepted and not closed reads: there is one read to come, outstanding or
completed, or a close task. -/
namespace NetworkUtility.EtcpServer

open Etcp Machine

def Task.reads : Task → Bool
  | .complete op _ => op.reads
  | _ => false

def Pending.reads (p : Pending) : Bool := p.op.reads

/-- `do_read` is to come. -/
def Accept.before : Accept → Bool
  | .callback => true
  | .append => true
  | .read => true
  | _ => false

/-- `on_etcp_accept` has been called. -/
def Accept.begun : Accept → Bool
  | .append => true
  | .read => true
  | .again => true
  | .finished => true
  | _ => false

namespace Session

/-- The reads that are outstanding, completed or to come. -/
def tokens (s : Session) : Nat :=
  s.ready.countP Task.reads + s.pending.countP Pending.reads + s.accept.before.toNat

/-- Before `on_etcp_accept` nobody but the accept handler knows the session. -/
structure Fresh (s : Session) : Prop where
  ready : s.ready = []
  pending : s.pending = []
  calls : s.calls = []
  kept : s.kept = false
  told : s.told = false
  closing : s.closing = .idle
  closed : s.closed = false ↔ s.accept = .callback
  accept : s.accept ≠ .append ∧ s.accept ≠ .read

structure Sound (s : Session) : Prop where
  fresh : s.log = [] → s.Fresh
  begun : s.log ≠ [] → s.accept.begun
  one : s.tokens ≤ 1
  chain : s.closed = false → s.tokens = 1 ∨ .doClose ∈ s.ready
  told : s.told → s.closed ∨ .doClose ∈ s.ready
  closing : s.closing ≠ .idle → s.closed
  shut : s.isOpen = false → s.pending = []

variable {o : ByteOrder} {s t : Session} {a : Action} {as : List Action} {task : Task} {op : Op}
  {i : Nat}

/-! ### Tokens -/

theorem tokens_start (s : Session) (op : Op) (data : Bytes) :
    (s.start op data).tokens = s.tokens + op.reads.toNat := by
  unfold tokens start
  cases s.isOpen <;> cases hop : op.reads <;>
    simp [List.countP_append, Task.reads, Pending.reads, hop] <;> omega

theorem tokens_release (s : Session) : s.release.tokens = s.tokens := by
  have hmap : (s.pending.map fun p => Task.complete p.op (.failure .aborted)).countP Task.reads =
      s.pending.countP Pending.reads := by
    rw [List.countP_map]
    rfl
  unfold tokens release
  cases hopen : s.isOpen with
  | true => simp [List.countP_append, hmap]
  | false => simp

theorem tokens_doClose (s : Session) : s.doClose.tokens = s.tokens := by
  simp [tokens, doClose, List.countP_append, Task.reads]

theorem tokens_acceptAppend (hc : s.accept = .append) :
    { s with accept := .read }.tokens = s.tokens := by
  simp [tokens, hc, Accept.before]

theorem tokens_acceptAgain (hc : s.accept = .again) :
    { s with accept := .finished }.tokens = s.tokens := by
  simp [tokens, hc, Accept.before]

theorem tokens_dequeue (h : s.ready[i]? = some task) :
    s.tokens = (s.dequeue i).tokens + task.reads.toNat := by
  have hcount : s.ready.countP Task.reads = _ := Index.countP_eraseIdx h
  unfold tokens dequeue
  dsimp only
  omega

theorem countP_complete (tasks : List Task) (op : Op) (res : Result) :
    (tasks ++ [Task.complete op res]).countP Task.reads = tasks.countP Task.reads + op.reads.toNat := by
  cases hop : op.reads <;> simp [List.countP_append, Task.reads, hop]

theorem tokens_finish {p : Pending} (h : s.pending[i]? = some p) (res : Result) :
    (s.finish i p.op res).tokens = s.tokens := by
  have hcount : s.pending.countP Pending.reads = _ := Index.countP_eraseIdx h
  have hready := countP_complete s.ready p.op res
  have hop : p.reads = p.op.reads := rfl
  rw [hop] at hcount
  unfold tokens finish
  dsimp only
  omega

theorem tokens_set {p q : Pending} (h : s.pending[i]? = some p) (hq : q.op = p.op) :
    { s with pending := s.pending.set i q }.tokens = s.tokens := by
  have hcount : (s.pending.set i q).countP Pending.reads = _ :=
    Index.countP_set h (congrArg Op.reads hq)
  unfold tokens
  dsimp only
  omega

/-! ### Tasks -/

/-- What a task leaves behind of the state it is run in, from which it has been taken. -/
structure Leaves (s : Session) (task : Task) (t : Session) : Prop where
  accept : t.accept = s.accept
  log : s.log <+: t.log
  closed : s.closed → t.closed
  tokens : t.tokens ≤ s.tokens + task.reads.toNat
  chain : t.closed = false →
    task ≠ .doClose ∧ (t.tokens = s.tokens + task.reads.toNat ∨ .doClose ∈ t.ready)
  tasks : .doClose ∈ s.ready → .doClose ∈ t.ready
  told : t.told → s.told ∨ .doClose ∈ t.ready
  closing : t.closing ≠ .idle → s.closing ≠ .idle ∨ t.closed
  shut : (s.isOpen = false → s.pending = []) → t.isOpen = false → t.pending = []

theorem mem_ready_start (h : .doClose ∈ s.ready) (op : Op) (data : Bytes) :
    .doClose ∈ (s.start op data).ready := by
  unfold start
  cases s.isOpen <;> simp [h]

theorem shut_start (hs : s.isOpen = false → s.pending = []) (op : Op) (data : Bytes)
    (h : (s.start op data).isOpen = false) : (s.start op data).pending = [] := by
  have hopen : s.isOpen = false := h
  simp [start, hopen, hs hopen]

/-- A task that is no read and does nothing else. -/
theorem leaves_rest (hr : task.reads = false) (hc : task ≠ .doClose) : s.Leaves task s where
  accept := rfl
  log := List.prefix_rfl
  closed := id
  tokens := Nat.le_add_right _ _
  chain _ := ⟨hc, .inl (by simp [hr])⟩
  tasks := id
  told := .inl
  closing := .inl
  shut := id

/-- A read or a write goes on with the next operation. -/
theorem leaves_start {op next : Op} {res : Result} (hop : op.reads = next.reads) (data : Bytes) :
    s.Leaves (.complete op res) (s.start next data) where
  accept := rfl
  log := List.prefix_rfl
  closed := id
  tokens := by
    rw [tokens_start, ← hop]
    exact Nat.le_refl _
  chain _ := ⟨nofun, .inl (by rw [tokens_start, ← hop]; rfl)⟩
  tasks h := mem_ready_start h next data
  told := .inl
  closing := .inl
  shut h := shut_start h next data

theorem leaves_doWrite (hr : task.reads = false) (hc : task ≠ .doClose) : s.Leaves task s.doWrite := by
  unfold doWrite
  split
  · exact leaves_rest hr hc
  · next data rest _ =>
    have h : s.Leaves (.complete .write (.success 0)) (s.start .write data) := leaves_start rfl data
    refine ⟨h.accept, h.log, h.closed, ?_, fun ht => ⟨hc, ?_⟩, h.tasks, h.told, h.closing, h.shut⟩
    · rw [tokens_start]
      simp [Op.reads]
    · rw [tokens_start, hr]
      exact .inl rfl

/-- A read that fails ends the chain. -/
theorem leaves_onClose {op : Op} {res : Result} : s.Leaves (.complete op res) s.onClose where
  accept := rfl
  log := List.prefix_rfl
  closed _ := rfl
  tokens := Nat.le_add_right _ _
  chain h := nomatch h
  tasks := id
  told := .inl
  closing _ := .inr rfl
  shut := id

theorem leaves_runClose : s.Leaves .doClose s.runClose where
  accept := rfl
  log := List.prefix_rfl
  closed _ := rfl
  tokens := Nat.le_of_eq (tokens_release s)
  chain h := nomatch h
  tasks h := by
    show _ ∈ s.release.ready
    unfold release
    cases s.isOpen <;> simp [h]
  told := .inl
  closing _ := .inr rfl
  shut h _ := by
    show s.release.pending = []
    unfold release
    cases hopen : s.isOpen with
    | true => rfl
    | false => simp [h hopen]

/-- The queues of packets and the buffers do not matter. -/
theorem Leaves.of_buffers {recvHead recvData : Bytes} {sendDataList queued : List Bytes}
    (h : { s with
      recvHead := recvHead
      recvData := recvData
      sendDataList := sendDataList
      queued := queued }.Leaves task t) : s.Leaves task t :=
  ⟨h.accept, h.log, h.closed, h.tokens, h.chain, h.tasks, h.told, h.closing, h.shut⟩

theorem leaves_runSend (pack : Bytes) : s.Leaves (.sendMessage pack) (s.runSend o pack) := by
  unfold runSend
  split
  · dsimp only
    split
    · exact .of_buffers (leaves_doWrite rfl (by simp))
    · exact .of_buffers (leaves_rest rfl (by simp))
  · exact leaves_rest rfl nofun

theorem leaves_onWritten (res : Result) : s.Leaves (.complete .write res) (s.onWritten res) := by
  cases res with
  | failure err => exact .of_buffers (leaves_rest rfl (by simp))
  | success len =>
    unfold onWritten
    dsimp only
    split
    · exact .of_buffers (leaves_doWrite rfl (by simp))
    · exact .of_buffers (leaves_rest rfl (by simp))

theorem leaves_badSign {res : Result} (action message : String) :
    s.Leaves (.complete .readHead res) (s.onError action message).doClose where
  accept := rfl
  log := List.prefix_append _ _
  closed := id
  tokens := by
    rw [tokens_doClose]
    exact Nat.le_add_right _ _
  chain _ := ⟨nofun, .inr (List.mem_append_right _ (List.mem_singleton_self _))⟩
  tasks h := List.mem_append_left _ h
  told _ := .inr (List.mem_append_right _ (List.mem_singleton_self _))
  closing := .inl
  shut := id

theorem leaves_onReadHead (res : Result) :
    s.Leaves (.complete .readHead res) (s.onReadHead o res) := by
  cases res with
  | failure err => exact leaves_onClose
  | success len =>
    unfold onReadHead
    dsimp only
    split
    · exact .of_buffers (leaves_badSign _ _)
    · exact .of_buffers (leaves_start (by rfl) [])
    · exact .of_buffers (leaves_start (by rfl) [])

theorem leaves_onReadBody (res : Result) :
    s.Leaves (.complete .readBody res) (s.onReadBody res) := by
  cases res with
  | failure err => exact leaves_onClose
  | success len =>
    have h : s.Leaves (.complete .readBody (.success len)) s.doRead := leaves_start (by rfl) []
    exact ⟨h.accept, List.prefix_append _ _, h.closed, h.tokens, h.chain, h.tasks, h.told, h.closing,
      h.shut⟩

theorem leaves_runTask : s.Leaves task (s.runTask o task) := by
  cases task with
  | doClose => exact leaves_runClose
  | sendMessage pack => exact leaves_runSend pack
  | complete op res =>
    cases op with
    | write => exact leaves_onWritten res
    | readHead => exact leaves_onReadHead res
    | readBody => exact leaves_onReadBody res

/-! ### Steps -/

theorem Sound.of_fresh (hf : s.Fresh) (hlog : s.log = []) : s.Sound := by
  have htokens : s.tokens = s.accept.before.toNat := by simp [tokens, hf.ready, hf.pending]
  refine ⟨fun _ => hf, fun h => absurd hlog h, ?_, fun hc => .inl ?_, ?_, ?_, fun _ => hf.pending⟩
  · rw [htokens]
    exact Bool.toNat_le _
  · rw [htokens, hf.closed.mp hc]
    rfl
  · intro ht
    exact absurd ht (by simp [hf.told])
  · exact fun h => absurd hf.closing h

theorem sound_initial : Sound initial := by
  refine Sound.of_fresh ⟨rfl, rfl, rfl, rfl, rfl, rfl, ?_, ?_⟩ rfl
  · exact ⟨nofun, nofun⟩
  · exact ⟨nofun, nofun⟩

theorem Sound.of_buffers (hs : s.Sound) (recvHead recvData written : Bytes) :
    { s with recvHead := recvHead, recvData := recvData, written := written }.Sound := by
  refine ⟨fun h => ?_, hs.begun, hs.one, hs.chain, hs.told, hs.closing, hs.shut⟩
  have hf := hs.fresh h
  exact ⟨hf.ready, hf.pending, hf.calls, hf.kept, hf.told, hf.closing, hf.closed, hf.accept⟩

/-- A step of an accepted session that neither calls back nor closes, and moves tokens only. -/
theorem Sound.of_moved (hs : s.Sound) (hlog : s.log ≠ []) (hlog' : t.log = s.log)
    (haccept : t.accept.begun) (hclosed : t.closed = s.closed) (hclosing : t.closing = s.closing)
    (htokens : t.tokens = s.tokens) (hready : .doClose ∈ s.ready → .doClose ∈ t.ready)
    (htold : t.told → s.told ∨ .doClose ∈ t.ready)
    (hshut : t.isOpen = false → t.pending = []) : t.Sound where
  fresh h := absurd (hlog' ▸ h) hlog
  begun _ := haccept
  one := htokens ▸ hs.one
  chain h := by
    rw [hclosed] at h
    rw [htokens]
    exact (hs.chain h).imp_right hready
  told h := by
    rw [hclosed]
    rcases htold h with ht | hr
    · exact (hs.told ht).imp_right hready
    · exact .inr hr
  closing h := by
    rw [hclosing] at h
    rw [hclosed]
    exact hs.closing h
  shut := hshut

theorem tokens_progress {p q : Pending} (h : s.pending[i]? = some p) (hq : q.op = p.op) (whole : Bool) :
    (s.progress i q whole).tokens = s.tokens := by
  unfold progress
  split
  · rw [hq]
    exact tokens_finish h _
  · exact tokens_set h hq

theorem Sound.not_fresh (hs : s.Sound) (h : s.closing ≠ .idle ∨ s.kept ∨ s.calls ≠ [] ∨ s.ready ≠ [] ∨
    s.pending ≠ []) : s.log ≠ [] := by
  intro hlog
  obtain ⟨hr, hp, hc, hk, -, hcl, -⟩ := hs.fresh hlog
  rcases h with h | h | h | h | h
  · exact h hcl
  · exact absurd h (by simp [hk])
  · exact h hc
  · exact h hr
  · exact h hp

theorem sound_progress (hs : s.Sound) {p q : Pending} (h : s.pending[i]? = some p) (hq : q.op = p.op)
    (whole : Bool) : (s.progress i q whole).Sound := by
  have hpending : s.pending ≠ [] := List.ne_nil_of_mem (List.mem_of_getElem? h)
  have hlog := hs.not_fresh (.inr (.inr (.inr (.inr hpending))))
  have hopen : s.isOpen ≠ false := fun hf => hpending (hs.shut hf)
  have htokens := tokens_progress h hq whole
  unfold progress at htokens ⊢
  split
  · next hw =>
    rw [if_pos hw] at htokens
    exact hs.of_moved hlog rfl (hs.begun hlog) rfl rfl htokens (List.mem_append_left _) .inl
      fun hf => absurd hf hopen
  · next hw =>
    rw [if_neg hw] at htokens
    exact hs.of_moved hlog rfl (hs.begun hlog) rfl rfl htokens id .inl fun hf => absurd hf hopen

theorem sound_fail (hs : s.Sound) {p : Pending} (h : s.pending[i]? = some p) (err : Error) :
    (s.finish i p.op (.failure err)).Sound := by
  have hpending : s.pending ≠ [] := List.ne_nil_of_mem (List.mem_of_getElem? h)
  have hlog := hs.not_fresh (.inr (.inr (.inr (.inr hpending))))
  exact hs.of_moved hlog rfl (hs.begun hlog) rfl rfl (tokens_finish h _) (List.mem_append_left _) .inl
    fun hf => absurd (hs.shut hf) hpending

theorem sound_doClose (hs : s.Sound) (hlog : s.log ≠ []) : s.doClose.Sound :=
  hs.of_moved hlog rfl (hs.begun hlog) rfl rfl (tokens_doClose s) (List.mem_append_left _)
    (fun _ => .inr (List.mem_append_right _ (List.mem_singleton_self _))) hs.shut

theorem sound_run (hs : s.Sound) (hidle : s.closing = .idle) (htask : s.ready[i]? = some task)
    (hl : Leaves (s.dequeue i) task t) : t.Sound := by
  have hlog := hs.not_fresh (.inr (.inr (.inr (.inl (List.ne_nil_of_mem (List.mem_of_getElem? htask))))))
  have hlog' : t.log ≠ [] := fun hnil => hlog (List.prefix_nil.mp (hnil ▸ hl.log))
  have htokens := tokens_dequeue htask
  have hstays : task ≠ .doClose → .doClose ∈ s.ready → .doClose ∈ t.ready := fun hne hmem =>
    hl.tasks (Index.mem_eraseIdx_of_ne htask hmem (Ne.symm hne))
  refine ⟨fun h => absurd h hlog', fun _ => ?_, ?_, fun hc => ?_, fun ht => ?_, fun hcl => ?_, ?_⟩
  · rw [hl.accept]
    exact hs.begun hlog
  · have hle := hl.tokens
    have hone := hs.one
    omega
  · have hsc : s.closed = false := by
      cases hsc : s.closed with
      | false => rfl
      | true => exact absurd (hl.closed hsc) (by simp [hc])
    obtain ⟨hne, heq | hmem⟩ := hl.chain hc
    · rw [heq, ← htokens]
      exact (hs.chain hsc).imp_right (hstays hne)
    · exact .inr hmem
  · cases hc : t.closed with
    | true => exact .inl rfl
    | false =>
      right
      rcases hl.told ht with hst | hmem
      · have hopen : s.closed ≠ true := fun hsc => absurd (hl.closed hsc) (by simp [hc])
        exact hstays (hl.chain hc).1 ((hs.told hst).resolve_left hopen)
      · exact hmem
  · rcases hl.closing hcl with h | h
    · exact absurd hidle h
    · exact h
  · exact hl.shut hs.shut

/-- Until `on_etcp_accept` is called there is no callback. -/
theorem Sound.log_nil (hs : s.Sound) (hb : s.accept.begun = false) : s.log = [] := by
  by_contra hne
  exact absurd (hs.begun hne) (by simp [hb])

theorem Sound.unaccepted (hs : s.Sound) (hb : s.accept.begun = false) : s.Fresh ∧ s.log = [] :=
  ⟨hs.fresh (hs.log_nil hb), hs.log_nil hb⟩

/-! ### The accept handler -/

/-- In front of `on_etcp_accept` the handler moves on, and nobody else. -/
theorem Fresh.goes_on (hf : s.Fresh) (hlog : s.log = []) (accept : Accept) (isOpen closed : Bool)
    (hclosed : closed = false ↔ accept = .callback) (haccept : accept ≠ .append ∧ accept ≠ .read) :
    Sound { s with accept := accept, isOpen := isOpen, closed := closed } :=
  .of_fresh ⟨hf.ready, hf.pending, hf.calls, hf.kept, hf.told, hf.closing, hclosed, haccept⟩ hlog

theorem Fresh.stays_closed (hf : s.Fresh) (hc : s.accept ≠ .callback) : s.closed = true := by
  cases hclosed : s.closed with
  | true => rfl
  | false => exact absurd (hf.closed.mp hclosed) hc

theorem sound_accepted (hs : s.Sound) (hw : s.accept = .waiting) (ok : Bool) :
    Sound { s with accept := .completed ok, isOpen := ok } := by
  obtain ⟨hf, hlog⟩ := hs.unaccepted (by rw [hw]; rfl)
  have hclosed := hf.stays_closed (by rw [hw]; nofun)
  exact hf.goes_on hlog _ ok s.closed (by simp [hclosed]) ⟨nofun, nofun⟩

theorem sound_onAccept (hs : s.Sound) (hc : s.accept = .completed true) : s.onAccept.Sound := by
  obtain ⟨hf, hlog⟩ := hs.unaccepted (by rw [hc]; rfl)
  have hclosed := hf.stays_closed (by rw [hc]; nofun)
  exact hf.goes_on hlog _ s.isOpen false (by simp [hclosed]) (by simp [hclosed])

theorem sound_acceptFailed (hs : s.Sound) (hc : s.accept = .completed false) :
    Sound { s with accept := .again } := by
  obtain ⟨hf, hlog⟩ := hs.unaccepted (by rw [hc]; rfl)
  have hclosed := hf.stays_closed (by rw [hc]; nofun)
  exact hf.goes_on hlog _ s.isOpen s.closed (by simp [hclosed]) ⟨nofun, nofun⟩

theorem sound_acceptCallback (hs : s.Sound) (hc : s.accept = .callback) :
    Sound { s with accept := .append, kept := true, log := s.log ++ [.accept] } := by
  obtain ⟨hf, hlog⟩ := hs.unaccepted (by rw [hc]; rfl)
  refine ⟨?_, fun _ => rfl, ?_, fun _ => .inl ?_, ?_, ?_, fun _ => hf.pending⟩
  · simp
  · simp [tokens, hf.ready, hf.pending, Accept.before]
  · simp [tokens, hf.ready, hf.pending, Accept.before]
  · simp [hf.told]
  · simp [hf.closing]

theorem Sound.log_of_accepting (hs : s.Sound) (ha : s.accept = .append ∨ s.accept = .read) :
    s.log ≠ [] := by
  intro hlog
  obtain ⟨hne, hne'⟩ := (hs.fresh hlog).accept
  rcases ha with ha | ha
  · exact hne ha
  · exact hne' ha

theorem sound_acceptAppend (hs : s.Sound) (hc : s.accept = .append) :
    Sound { s with accept := .read } :=
  hs.of_moved (hs.log_of_accepting (.inl hc)) rfl rfl rfl rfl (tokens_acceptAppend hc) id .inl hs.shut

/-- The read to come is started. -/
theorem sound_acceptRead (hs : s.Sound) (hc : s.accept = .read) :
    Sound { s.doRead with accept := .again } := by
  have htokens : { s.doRead with accept := .again }.tokens = s.tokens := by
    have hstart := tokens_start s .readHead []
    have hbefore : (s.start .readHead []).accept = .read := hc
    have hreads : Op.readHead.reads.toNat = 1 := rfl
    simp only [tokens, hc, hbefore, Accept.before, hreads] at hstart ⊢
    simpa [doRead] using hstart
  exact hs.of_moved (hs.log_of_accepting (.inr hc)) rfl rfl rfl rfl htokens
    (mem_ready_start · .readHead []) .inl (shut_start hs.shut .readHead [])

theorem sound_acceptAgain (hs : s.Sound) (hc : s.accept = .again) :
    Sound { s with accept := .finished } := by
  by_cases hlog : s.log = []
  · have hf := hs.fresh hlog
    have hclosed := hf.stays_closed (by rw [hc]; nofun)
    exact hf.goes_on hlog _ s.isOpen s.closed (by simp [hclosed]) ⟨nofun, nofun⟩
  · exact hs.of_moved hlog rfl rfl rfl rfl (tokens_acceptAgain hc) id .inl hs.shut

/-! ### Calls, tasks and the network -/

theorem sound_postClose (hs : s.Sound) (hcall : s.calls[i]? = some .close) :
    Sound { s with calls := s.calls.eraseIdx i }.doClose := by
  have hlog := hs.not_fresh (.inr (.inr (.inl (List.ne_nil_of_mem (List.mem_of_getElem? hcall)))))
  exact hs.of_moved hlog rfl (hs.begun hlog) rfl rfl (tokens_doClose _) (List.mem_append_left _)
    (fun _ => .inr (List.mem_append_right _ (List.mem_singleton_self _))) hs.shut

theorem sound_postSend (hs : s.Sound) {pack : Bytes} (hcall : s.calls[i]? = some (.send pack)) :
    Sound { s with
      calls := s.calls.eraseIdx i
      ready := s.ready ++ [.sendMessage pack] } := by
  have hlog := hs.not_fresh (.inr (.inr (.inl (List.ne_nil_of_mem (List.mem_of_getElem? hcall)))))
  refine hs.of_moved hlog rfl (hs.begun hlog) rfl rfl ?_ (List.mem_append_left _) .inl hs.shut
  simp [tokens, List.countP_append, Task.reads]

theorem sound_closeCallback (hs : s.Sound) (hc : s.closing = .callback) :
    Sound { s with closing := .remove, log := s.log ++ [.close] } := by
  have hclosing : s.closing ≠ .idle := by simp [hc]
  have hlog := hs.not_fresh (.inl hclosing)
  have hclosed := hs.closing hclosing
  refine ⟨?_, fun _ => hs.begun hlog, hs.one, hs.chain, fun _ => .inl hclosed, fun _ => hclosed,
    hs.shut⟩
  simp

theorem sound_closeRemove (hs : s.Sound) (hc : s.closing = .remove) :
    Sound { s with closing := .idle } := by
  have hlog := hs.not_fresh (.inl (by simp [hc]))
  exact ⟨fun h => absurd h hlog, hs.begun, hs.one, hs.chain, hs.told, fun h => absurd rfl h, hs.shut⟩

theorem sound_step (hs : s.Sound) (h : step o s a = some t) : t.Sound := by
  cases effect_of_step h with
  | accepted ok hw => exact sound_accepted hs hw ok
  | acceptStart hc => exact sound_onAccept hs hc
  | acceptFailed hc => exact sound_acceptFailed hs hc
  | acceptCallback hc => exact sound_acceptCallback hs hc
  | acceptAppend hc => exact sound_acceptAppend hs hc
  | acceptRead hc => exact sound_acceptRead hs hc
  | acceptAgain hc => exact sound_acceptAgain hs hc
  | keep _ hacc =>
    have hlog : s.log ≠ [] := List.ne_nil_of_mem hacc
    exact hs.of_moved hlog rfl (hs.begun hlog) rfl rfl rfl id .inl hs.shut
  | callClose hk =>
    have hlog := hs.not_fresh (.inr (.inl hk))
    exact hs.of_moved hlog rfl (hs.begun hlog) rfl rfl rfl id .inl hs.shut
  | callSend _ hk =>
    have hlog := hs.not_fresh (.inr (.inl hk))
    exact hs.of_moved hlog rfl (hs.begun hlog) rfl rfl rfl id .inl hs.shut
  | postClose _ hcall => exact sound_postClose hs hcall
  | postSend _ _ hcall => exact sound_postSend hs hcall
  | close hacc =>
    unfold close
    split
    · exact hs
    · exact sound_doClose hs (List.ne_nil_of_mem hacc)
  | run _ _ htask hidle => exact sound_run hs hidle htask leaves_runTask
  | closeCallback hc => exact sound_closeCallback hs hc
  | closeRemove hc => exact sound_closeRemove hs hc
  | transfer _ n p hp =>
    have hb := hs.of_buffers s.recvHead s.recvData (s.written ++ p.data.take n)
    exact sound_progress hb hp (by rfl) _
  | receiveHead _ bytes p hp =>
    have hb := hs.of_buffers (fill s.recvHead p.done bytes) s.recvData s.written
    exact sound_progress hb hp (by rfl) _
  | receiveBody _ bytes p hp =>
    have hb := hs.of_buffers s.recvHead (fill s.recvData p.done bytes) s.written
    exact sound_progress hb hp (by rfl) _
  | fail _ err _ hp => exact sound_fail hs hp err

/-- The actions that neither run a task nor a step of `on_accept` or `on_close`. -/
def Action.plain : Action → Bool
  | .accepted _ => false
  | .acceptStart => false
  | .acceptCallback => false
  | .run _ => false
  | .closeCallback => false
  | .closeRemove => false
  | _ => true

/-- What these actions leave alone. -/
structure Plain (s t : Session) : Prop where
  log : t.log = s.log
  closed : t.closed = s.closed
  closing : t.closing = s.closing
  isOpen : t.isOpen = s.isOpen
  queued : t.queued = s.queued
  written : s.pending = [] → t.written = s.written

theorem plain_progress (s : Session) (i : Nat) (p : Pending) (whole : Bool) :
    s.Plain (s.progress i p whole) := by
  unfold progress
  split <;> exact ⟨rfl, rfl, rfl, rfl, rfl, fun _ => rfl⟩

theorem step_plain (ha : a.plain) (h : step o s a = some t) : s.Plain t := by
  cases effect_of_step h with
  | acceptAppend | acceptRead | acceptAgain | keep => exact ⟨rfl, rfl, rfl, rfl, rfl, fun _ => rfl⟩
  | callClose | callSend | postClose | postSend => exact ⟨rfl, rfl, rfl, rfl, rfl, fun _ => rfl⟩
  | close =>
    unfold close
    split <;> exact ⟨rfl, rfl, rfl, rfl, rfl, fun _ => rfl⟩
  | transfer i n p hp =>
    obtain ⟨hlog, hclosed, hclosing, hopen, hqueued, -⟩ := plain_progress
      { s with written := s.written ++ p.data.take n } i
      { p with data := p.data.drop n, done := p.done + (p.data.take n).length } (p.data.drop n = [])
    exact ⟨hlog, hclosed, hclosing, hopen, hqueued, fun hnil => by simp [hnil] at hp⟩
  | receiveHead i bytes p =>
    have hp := plain_progress { s with recvHead := fill s.recvHead p.done bytes } i
      { p with done := p.done + bytes.length } (p.done + bytes.length = s.recvHead.length)
    exact ⟨hp.log, hp.closed, hp.closing, hp.isOpen, hp.queued, hp.written⟩
  | receiveBody i bytes p =>
    have hp := plain_progress { s with recvData := fill s.recvData p.done bytes } i
      { p with done := p.done + bytes.length } (p.done + bytes.length = s.recvData.length)
    exact ⟨hp.log, hp.closed, hp.closing, hp.isOpen, hp.queued, hp.written⟩
  | fail => exact ⟨rfl, rfl, rfl, rfl, rfl, fun _ => rfl⟩
  | _ => cases ha

end Session

end NetworkUtility.EtcpServer
