import NetworkUtility.EtcpClient.Failures
import NetworkUtility.EtcpServer.Closed

/-! A write of a session that fails is its last as long as no packet is queued behind the failure; the
client is the same. -/
namespace NetworkUtility.EtcpServer

open Etcp Machine

def Pending.writes (p : Pending) : Bool := p.op == .write

def Task.written? : Task → Option Result
  | .complete .write res => some res
  | _ => none

namespace Session

/-- A write that waits fails. -/
def fails (s : Session) : Action → Bool
  | .fail i _ =>
    match s.pending[i]? with
    | some p => p.writes
    | none => false
  | _ => false

/-- Whether a write has failed. -/
def spoil (s : Session) (a : Action) (_ : Session) (broken : Bool) : Bool := broken || s.fails a

/-- The next task is a lambda of `send_message`. -/
def sends (s : Session) : Action → Bool
  | .run i =>
    match s.ready[i]? with
    | some (.sendMessage _) => true
    | _ => false
  | _ => false

/-- A packet is queued on an open socket with an empty list only when no write has failed. -/
def Unbroken (x : Session × Bool) (a : Action) : Prop :=
  x.1.sends a = true → x.1.isOpen = true → x.1.sendDataList = [] → x.2 = false

instance (x : Session × Bool) (a : Action) : Decidable (Unbroken x a) :=
  inferInstanceAs (Decidable (_ → _ → _ → _))

/-- The writes that wait in the reactor. -/
def outstanding (s : Session) : List Pending := s.pending.filter Pending.writes

/-- The writes whose handlers have not run. -/
def completed (s : Session) : List Result := s.ready.filterMap Task.written?

/-- The frames of the packets queued so far. -/
def frames (o : ByteOrder) (s : Session) : Bytes := (s.queued.map (frame o)).flatten

/-- What has been written, by what the list is doing: nothing, a write that waits or has succeeded
and the rest of the list behind it, or nothing any more. -/
inductive Outgoing (o : ByteOrder) (s : Session) (broken : Bool) : Prop
  | idle : s.outstanding = [] → s.completed = [] → s.sendDataList = [] → broken = false →
      s.written = s.frames o → Outgoing o s broken
  | waiting (p : Pending) : s.outstanding = [p] → s.completed = [] → s.sendDataList ≠ [] →
      broken = false → s.written ++ p.data ++ s.sendDataList.tail.flatten = s.frames o →
      Outgoing o s broken
  | done (len : Nat) : s.outstanding = [] → s.completed = [.success len] → s.sendDataList ≠ [] →
      broken = false → s.written ++ s.sendDataList.tail.flatten = s.frames o → Outgoing o s broken
  | lost : s.outstanding = [] → (∀ res ∈ s.completed, ∃ err, res = .failure err) →
      broken = true ∨ s.isOpen = false → s.log ≠ [] → s.written <+: s.frames o →
      Outgoing o s broken

/-- The writes stand as they were. -/
structure Aside (s t : Session) : Prop where
  outstanding : t.outstanding = s.outstanding
  completed : t.completed = s.completed
  sendDataList : t.sendDataList = s.sendDataList
  queued : t.queued = s.queued
  written : t.written = s.written
  isOpen : s.log ≠ [] → s.isOpen = false → t.isOpen = false
  log : s.log ≠ [] → t.log ≠ []

variable {o : ByteOrder} {s t : Session} {a : Action} {as bs : List Action} {task : Task} {op : Op}
  {i : Nat} {broken : Bool} {data : Bytes}

theorem Outgoing.aside (h : s.Outgoing o broken) (ha : s.Aside t) : t.Outgoing o broken := by
  have hf : t.frames o = s.frames o := by rw [frames, ha.queued, frames]
  cases h with
  | idle hp hr hl hb hw =>
    exact .idle (ha.outstanding.trans hp) (ha.completed.trans hr) (ha.sendDataList.trans hl) hb
      (by rw [ha.written, hf, hw])
  | waiting p hp hr hl hb hw =>
    exact .waiting p (ha.outstanding.trans hp) (ha.completed.trans hr) (ha.sendDataList ▸ hl) hb
      (by rw [ha.written, ha.sendDataList, hf, hw])
  | done len hp hr hl hb hw =>
    exact .done len (ha.outstanding.trans hp) (ha.completed.trans hr) (ha.sendDataList ▸ hl) hb
      (by rw [ha.written, ha.sendDataList, hf, hw])
  | lost hp hr hb hlog hw =>
    refine .lost (ha.outstanding.trans hp) (ha.completed ▸ hr) (hb.imp_right (ha.isOpen hlog))
      (ha.log hlog) ?_
    rw [ha.written, hf]
    exact hw

theorem Outgoing.framed (h : s.Outgoing o broken) : s.written <+: s.frames o := by
  cases h with
  | idle _ _ _ _ hw => exact hw ▸ List.prefix_rfl
  | waiting p _ _ _ _ hw =>
    rw [← hw, List.append_assoc]
    exact List.prefix_append ..
  | done _ _ _ _ _ hw => exact hw ▸ List.prefix_append ..
  | lost _ _ _ _ hw => exact hw

theorem outgoing_initial : initial.Outgoing o false := .idle rfl rfl rfl rfl rfl

theorem not_written (hop : op ≠ .write) (res : Result) :
    Task.written? (.complete op res) = none := by
  cases op with
  | write => exact absurd rfl hop
  | _ => rfl

theorem outstanding_start (hop : op ≠ .write) (data : Bytes) :
    (s.start op data).outstanding = s.outstanding ∧ (s.start op data).completed = s.completed := by
  have hw : Pending.writes ⟨op, data, 0⟩ = false := by simpa [Pending.writes] using hop
  simp only [outstanding, completed, start]
  constructor
  · split
    · simp [hw]
    · rfl
  · split
    · rfl
    · simp [not_written hop]

theorem aside_start (hop : op ≠ .write) (data : Bytes) : s.Aside (s.start op data) :=
  ⟨(outstanding_start hop data).1, (outstanding_start hop data).2, rfl, rfl, rfl, fun _ h => h, id⟩

/-! ### The network -/

theorem aside_progress {p q : Pending} (h : s.pending[i]? = some p) (hq : q.op = p.op)
    (hop : p.op ≠ .write) (whole : Bool) : s.Aside (s.progress i q whole) := by
  obtain ⟨l, r, hl, he, hset⟩ := Index.split_at h
  have hp : p.writes = false := by simpa [Pending.writes] using hop
  have hqw : q.writes = false := by simpa [Pending.writes, hq] using hop
  unfold progress
  split
  · refine ⟨?_, ?_, rfl, rfl, rfl, fun _ h => h, id⟩
    · simp only [outstanding, finish, he]
      simp [hl, hp]
    · simp [completed, finish, not_written (hq ▸ hop)]
  · refine ⟨?_, rfl, rfl, rfl, rfl, fun _ h => h, id⟩
    simp only [outstanding, hset]
    simp [hl, hp, hqw]

/-- The write that waits is the only one. -/
theorem outstanding_split {p q : Pending} (h : s.pending[i]? = some p) (hp : p.writes = true)
    (hs : s.outstanding = [q]) : q = p ∧ (s.pending.eraseIdx i).filter Pending.writes = [] ∧
      ∀ p', p'.writes = true → (s.pending.set i p').filter Pending.writes = [p'] := by
  obtain ⟨l, r, hl, he, hset⟩ := Index.split_at h
  rw [outstanding, hl, List.filter_append, List.filter_cons, if_pos hp] at hs
  have hlen := congrArg List.length hs
  simp only [List.length_append, List.length_cons, List.length_nil] at hlen
  have hfront : l.filter Pending.writes = [] := List.eq_nil_of_length_eq_zero (by omega)
  have hback : r.filter Pending.writes = [] := List.eq_nil_of_length_eq_zero (by omega)
  refine ⟨?_, ?_, ?_⟩
  · rw [hfront, hback] at hs
    simpa using hs.symm
  · rw [he, List.filter_append, hfront, hback, List.append_nil]
  · intro p' hp'
    rw [hset, List.filter_append, List.filter_cons, if_pos hp', hfront, hback, List.nil_append]

/-- A pending write: nothing of the list is lost. -/
theorem Outgoing.of_pending {p : Pending} (hs : s.Outgoing o broken) (h : s.pending[i]? = some p)
    (hp : p.writes = true) : s.outstanding = [p] ∧ s.completed = [] ∧ s.sendDataList ≠ [] ∧
      broken = false ∧ s.written ++ p.data ++ s.sendDataList.tail.flatten = s.frames o := by
  have hmem : p ∈ s.outstanding := List.mem_filter.mpr ⟨List.mem_of_getElem? h, hp⟩
  cases hs with
  | idle hn => simp [hn] at hmem
  | done _ hn => simp [hn] at hmem
  | lost hn => simp [hn] at hmem
  | waiting q hq hr hl hb hw =>
    obtain ⟨rfl, _⟩ := outstanding_split h hp hq
    exact ⟨hq, hr, hl, hb, hw⟩

/-- The network takes bytes of the write that waits. -/
theorem outgoing_transfer {p : Pending} (hs : s.Outgoing o broken) (h : s.pending[i]? = some p)
    (hop : p.op = .write) (n : Nat) :
    ({ s with written := s.written ++ p.data.take n }.progress i
      { p with data := p.data.drop n, done := p.done + (p.data.take n).length }
      (p.data.drop n = [])).Outgoing o broken := by
  have hp : p.writes = true := by simp [Pending.writes, hop]
  obtain ⟨hone, hr, hl, hb, hw⟩ := hs.of_pending h hp
  obtain ⟨_, herase, hset⟩ := outstanding_split h hp hone
  have hsplit := List.take_append_drop n p.data
  unfold progress
  split
  · next hall =>
    have hdrop : p.data.drop n = [] := by simpa using hall
    rw [hdrop, List.append_nil] at hsplit
    refine .done (p.done + (p.data.take n).length) herase ?_ hl hb ?_
    · have hcompleted : s.ready.filterMap Task.written? = [] := hr
      simp [completed, finish, hcompleted, Task.written?, hop]
    · show s.written ++ p.data.take n ++ s.sendDataList.tail.flatten = s.frames o
      rw [hsplit, hw]
  · refine .waiting { p with data := p.data.drop n, done := p.done + (p.data.take n).length }
      (hset _ hp) hr hl hb ?_
    show s.written ++ p.data.take n ++ p.data.drop n ++ s.sendDataList.tail.flatten = s.frames o
    rw [List.append_assoc s.written, hsplit, hw]

theorem aside_buffers (recvHead recvData : Bytes) :
    s.Aside { s with recvHead := recvHead, recvData := recvData } :=
  ⟨rfl, rfl, rfl, rfl, rfl, fun _ h => h, id⟩

theorem outgoing_receive {p : Pending} (hs : s.Outgoing o broken) (h : s.pending[i]? = some p)
    (hop : p.op ≠ .write) (recvHead recvData : Bytes) (done : Nat) (whole : Bool) :
    ({ s with recvHead := recvHead, recvData := recvData }.progress i { p with done := done }
      whole).Outgoing o broken := by
  have hfilled := hs.aside (aside_buffers recvHead recvData)
  refine hfilled.aside (aside_progress (p := p) (q := { p with done := done }) ?_ rfl hop whole)
  exact h

/-- An operation fails: with a write, the list is lost. -/
theorem outgoing_fail {p : Pending} {err : Error} (hsound : s.Sound) (hs : s.Outgoing o broken)
    (h : s.pending[i]? = some p) :
    (s.finish i p.op (.failure err)).Outgoing o (broken || p.writes) := by
  by_cases hp : p.writes = true
  · obtain ⟨hone, hr, _⟩ := hs.of_pending h hp
    obtain ⟨_, herase, _⟩ := outstanding_split h hp hone
    have hop : p.op = .write := by simpa [Pending.writes] using hp
    have hpending : s.pending ≠ [] := List.ne_nil_of_mem (List.mem_of_getElem? h)
    refine .lost herase ?_ (Or.inl (by simp [hp])) ?_ hs.framed
    · have hcompleted : s.ready.filterMap Task.written? = [] := hr
      simp [completed, finish, hcompleted, Task.written?, hop]
    · exact hsound.not_fresh (.inr (.inr (.inr (.inr hpending))))
  · have hfalse : p.writes = false := by simpa using hp
    have hop : p.op ≠ .write := by simpa [Pending.writes] using hp
    obtain ⟨l, r, hl, he, _⟩ := Index.split_at h
    rw [hfalse, Bool.or_false]
    refine hs.aside ⟨?_, ?_, rfl, rfl, rfl, fun _ h => h, id⟩
    · simp only [outstanding, finish, he]
      simp [hl, hfalse]
    · simp [completed, finish, not_written hop]

/-! ### The tasks -/

/-- A task that is no handler of a write leaves the queue. -/
theorem aside_dequeue (h : s.ready[i]? = some task) (hw : task.written? = none) :
    s.Aside (s.dequeue i) := by
  obtain ⟨l, r, hl, he, _⟩ := Index.split_at h
  refine ⟨rfl, ?_, rfl, rfl, rfl, fun _ h => h, id⟩
  simp only [completed, dequeue, he]
  simp [hl, hw]

/-- The handler of a write leaves the queue. -/
theorem completed_dequeue {res : Result} (h : s.ready[i]? = some (.complete .write res)) :
    res ∈ s.completed ∧ (∀ r ∈ (s.dequeue i).completed, r ∈ s.completed) ∧
      (s.completed.length = 1 → (s.dequeue i).completed = []) := by
  obtain ⟨l, r, hl, he, _⟩ := Index.split_at h
  have hold : s.completed = l.filterMap Task.written? ++ res :: r.filterMap Task.written? := by
    simp [completed, hl, Task.written?]
  have hnew : (s.dequeue i).completed = l.filterMap Task.written? ++ r.filterMap Task.written? := by
    simp only [completed, dequeue, he, List.filterMap_append]
  refine ⟨by simp [hold], ?_, ?_⟩
  · rw [hnew, hold]
    intro x hx
    rcases List.mem_append.mp hx with hx | hx
    · exact List.mem_append_left _ hx
    · exact List.mem_append_right _ (List.mem_cons_of_mem _ hx)
  · intro hlen
    rw [hold] at hlen
    simp only [List.length_append, List.length_cons] at hlen
    rw [hnew, List.append_eq_nil_iff]
    exact ⟨List.eq_nil_of_length_eq_zero (by omega), List.eq_nil_of_length_eq_zero (by omega)⟩

theorem frames_snoc (s : Session) (pack : Bytes) :
    ((s.queued ++ [pack]).map (frame o)).flatten = s.frames o ++ (messageHead o pack ++ pack) := by
  simp [frames, frame]

/-- A packet is queued: the first starts a write, any other waits behind the one that is there. -/
theorem outgoing_runSend (hs : s.Outgoing o broken)
    (hg : s.isOpen = true → s.sendDataList = [] → broken = false) (pack : Bytes) :
    (s.runSend o pack).Outgoing o broken := by
  by_cases hopen : s.isOpen = true
  · have hmore (hl : s.sendDataList ≠ []) : s.runSend o pack = { s with
        sendDataList := pushMessage o s.sendDataList pack
        queued := s.queued ++ [pack] } := by
      have hpos := List.length_pos_iff.mpr hl
      have hlen : ¬ 2 = (pushMessage o s.sendDataList pack).length := by
        simp only [pushMessage, List.length_append, List.length_cons, List.length_nil]
        omega
      simp only [runSend, hopen, if_true, hlen, if_false]
    have htail (hl : s.sendDataList ≠ []) : (pushMessage o s.sendDataList pack).tail.flatten =
        s.sendDataList.tail.flatten ++ (messageHead o pack ++ pack) := by
      cases hlist : s.sendDataList with
      | nil => exact absurd hlist hl
      | cons x xs => simp [pushMessage]
    cases hs with
    | idle hp hr hl hb hw =>
      have heq : s.runSend o pack = { s with
          sendDataList := [messageHead o pack, pack]
          queued := s.queued ++ [pack]
          pending := s.pending ++ [⟨.write, messageHead o pack, 0⟩] } := by
        simp [runSend, hopen, pushMessage, hl, doWrite, start]
      rw [heq]
      refine .waiting ⟨.write, messageHead o pack, 0⟩ ?_ hr (List.cons_ne_nil _ _) hb ?_
      · have hnone : s.pending.filter Pending.writes = [] := hp
        simp [outstanding, hnone, Pending.writes]
      · show s.written ++ messageHead o pack ++ [pack].flatten = _
        rw [frames, frames_snoc, hw]
        simp
    | waiting p hp hr hl hb hw =>
      rw [hmore hl]
      refine .waiting p hp hr ?_ hb ?_
      · simp [pushMessage]
      · show s.written ++ p.data ++ (pushMessage o s.sendDataList pack).tail.flatten = _
        rw [frames, frames_snoc, htail hl, ← List.append_assoc, hw]
    | done len hp hr hl hb hw =>
      rw [hmore hl]
      refine .done len hp hr ?_ hb ?_
      · simp [pushMessage]
      · show s.written ++ (pushMessage o s.sendDataList pack).tail.flatten = _
        rw [frames, frames_snoc, htail hl, ← List.append_assoc, hw]
    | lost hp hr hb hlog hw =>
      -- the handler of the failed write has not run: it will clear the list
      have hl : s.sendDataList ≠ [] := by
        intro hnil
        rcases hb with hb | hb
        · rw [hg hopen hnil] at hb
          cases hb
        · rw [hopen] at hb
          cases hb
      rw [hmore hl]
      refine .lost hp hr hb hlog ?_
      show s.written <+: ((s.queued ++ [pack]).map (frame o)).flatten
      rw [frames_snoc]
      exact hw.trans (List.prefix_append ..)
  · have hsame : s.runSend o pack = s := by simp [runSend, hopen]
    rw [hsame]
    exact hs

/-- The handler of a write: the next of the list goes out, or the list is given up. -/
theorem outgoing_onWritten {res : Result} (hsound : s.Sound) (hs : s.Outgoing o broken)
    (h : s.ready[i]? = some (.complete .write res)) :
    ((s.dequeue i).onWritten res).Outgoing o broken := by
  obtain ⟨hmem, hsub, hlast⟩ := completed_dequeue h
  have hlog : s.log ≠ [] :=
    hsound.not_fresh (.inr (.inr (.inr (.inl (List.ne_nil_of_mem (List.mem_of_getElem? h))))))
  cases hs with
  | idle _ hr => simp [hr] at hmem
  | waiting _ _ hr => simp [hr] at hmem
  | lost hp hr hb hlog hw =>
    obtain ⟨err, rfl⟩ := hr res hmem
    exact .lost hp (fun r hm => hr r (hsub r hm)) hb hlog hw
  | done len hp hr hl hb hw =>
    obtain rfl : res = .success len := by simpa [hr] using hmem
    have hnone := hlast (by simp [hr])
    simp only [onWritten]
    cases htail : s.sendDataList.tail with
    | nil =>
      have hnil : (s.dequeue i).sendDataList.tail = [] := htail
      simp only [hnil, ne_eq, not_true_eq_false, if_false]
      refine .idle hp hnone rfl hb ?_
      show s.written = s.frames o
      rw [← hw, htail]
      simp
    | cons data more =>
      have hcons : (s.dequeue i).sendDataList.tail = data :: more := htail
      simp only [hcons, ne_eq, reduceCtorEq, not_false_eq_true, if_true, doWrite]
      rw [htail] at hw
      by_cases hopen : s.isOpen = true
      · have hopen' : (s.dequeue i).isOpen = true := hopen
        refine .waiting ⟨.write, data, 0⟩ ?_ ?_ (List.cons_ne_nil _ _) hb ?_
        · have hwait : s.pending.filter Pending.writes = [] := hp
          simp [outstanding, start, hopen, dequeue, hwait, Pending.writes]
        · have hnone' : (s.dequeue i).ready.filterMap Task.written? = [] := hnone
          simp only [completed, start, hopen', if_true]
          exact hnone'
        · show s.written ++ data ++ more.flatten = s.frames o
          rw [← hw]
          simp
      · have hopen' : (s.dequeue i).isOpen = false := by simpa [dequeue] using hopen
        refine .lost ?_ ?_ (Or.inr hopen') hlog ?_
        · simp only [outstanding, start, hopen', Bool.false_eq_true, if_false]
          exact hp
        · have hnone' : (s.dequeue i).ready.filterMap Task.written? = [] := hnone
          simp [completed, start, hopen', hnone', Task.written?]
        · show s.written <+: s.frames o
          rw [← hw]
          exact List.prefix_append ..

/-- Closing aborts the write that waits; one that has succeeded stays queued. -/
theorem outgoing_release (hlog : s.log ≠ []) (hs : s.Outgoing o broken) :
    s.release.Outgoing o broken := by
  by_cases hopen : s.isOpen = true
  · have hpending : s.release.outstanding = [] := by simp [outstanding, release, hopen]
    have hready : s.release.completed =
        s.completed ++ s.outstanding.map fun _ => .failure .aborted := by
      have htask (p : Pending) : Task.written? (.complete p.op (.failure .aborted)) =
          if p.writes then some (.failure .aborted) else none := by
        cases hp : p.op <;> simp [Pending.writes, hp, Task.written?]
      simp only [completed, release, hopen, if_true, List.filterMap_append, outstanding]
      congr 1
      induction s.pending with
      | nil => rfl
      | cons p ps ih =>
        rw [List.map_cons, List.filterMap_cons, htask, List.filter_cons, ih]
        split <;> simp_all
    cases hs with
    | idle hp hr hl hb hw => exact .idle hpending (by rw [hready, hp, hr]; rfl) hl hb hw
    | done len hp hr hl hb hw => exact .done len hpending (by rw [hready, hp, hr]; rfl) hl hb hw
    | waiting p hp hr hl hb hw =>
      refine .lost hpending ?_ (Or.inr rfl) hlog ?_
      · rw [hready, hp, hr]
        simp
      · show s.written <+: s.frames o
        exact (Outgoing.waiting p hp hr hl hb hw).framed
    | lost hp hr hb hlog hw =>
      refine .lost hpending ?_ (Or.inr rfl) hlog hw
      rw [hready, hp, List.map_nil, List.append_nil]
      exact hr
  · have hclosed : s.isOpen = false := by simpa using hopen
    have hsame : s.release = s := by
      simp only [release, hclosed, Bool.false_eq_true, if_false]
      rw [← hclosed]
    rw [hsame]
    exact hs

theorem aside_onClose (s : Session) : s.Aside s.onClose := ⟨rfl, rfl, rfl, rfl, rfl, fun _ h => h, id⟩

theorem Aside.trans {u : Session} (h : s.Aside t) (h' : t.Aside u) : s.Aside u :=
  ⟨h'.outstanding.trans h.outstanding, h'.completed.trans h.completed,
    h'.sendDataList.trans h.sendDataList, h'.queued.trans h.queued, h'.written.trans h.written,
    fun hl ho => h'.isOpen (h.log hl) (h.isOpen hl ho), fun hl => h'.log (h.log hl)⟩

/-- The handlers of the reads. -/
theorem aside_read {res : Result} (hop : op ≠ .write) :
    s.Aside (s.runTask o (.complete op res)) := by
  cases op with
  | write => exact absurd rfl hop
  | readHead =>
    cases res with
    | failure err => exact aside_onClose s
    | success len =>
      simp only [runTask, onReadHead]
      have hhead : s.Aside { s with recvHead := EtcpHeader.decode o s.recvHead } :=
        ⟨rfl, rfl, rfl, rfl, rfl, fun _ h => h, id⟩
      split
      · refine ⟨rfl, ?_, rfl, rfl, rfl, fun _ h => h, fun _ => ?_⟩
        · simp [completed, onError, doClose, Task.written?]
        · simp [onError, doClose]
      · exact hhead.trans (aside_start (by decide) [])
      · next n _ =>
        have hbody : s.Aside { s with
            recvHead := EtcpHeader.decode o s.recvHead
            recvData := resize s.recvData n } := ⟨rfl, rfl, rfl, rfl, rfl, fun _ h => h, id⟩
        exact hbody.trans (aside_start (by decide) [])
  | readBody =>
    cases res with
    | failure err => exact aside_onClose s
    | success len =>
      have hread : s.Aside (s.start .readHead []) := aside_start (by decide) []
      refine ⟨hread.outstanding, hread.completed, rfl, rfl, rfl, fun _ h => h, fun _ => ?_⟩
      simp [runTask, onReadBody]

theorem outgoing_run (hsound : s.Sound) (hs : s.Outgoing o broken) (h : s.ready[i]? = some task)
    (hg : ∀ pack, task = .sendMessage pack → s.isOpen = true → s.sendDataList = [] → broken = false) :
    ((s.dequeue i).runTask o task).Outgoing o broken := by
  cases task with
  | doClose =>
    have hready : s.ready ≠ [] := List.ne_nil_of_mem (List.mem_of_getElem? h)
    have hlog : (s.dequeue i).log ≠ [] := hsound.not_fresh (.inr (.inr (.inr (.inl hready))))
    exact (outgoing_release hlog (hs.aside (aside_dequeue h rfl))).aside (aside_onClose _)
  | sendMessage pack =>
    exact outgoing_runSend (hs.aside (aside_dequeue h rfl)) (hg pack rfl) pack
  | complete op res =>
    by_cases hop : op = .write
    · subst hop
      exact outgoing_onWritten hsound hs h
    · exact (hs.aside (aside_dequeue h (not_written hop res))).aside (aside_read hop)

theorem outgoing_step (hsound : s.Sound) (hs : s.Outgoing o broken) (hg : Unbroken (s, broken) a)
    (h : step o s a = some t) : t.Outgoing o (spoil s a t broken) := by
  have hpost (task : Task) (ht : task.written? = none) {u : Session} (hr : u.ready = s.ready ++ [task])
      (hp : u.pending = s.pending) (hl : u.sendDataList = s.sendDataList) (hq : u.queued = s.queued)
      (hw : u.written = s.written) (ho : u.isOpen = s.isOpen) (hlog : u.log = s.log) :
      u.Outgoing o broken := by
    refine hs.aside ⟨?_, ?_, hl, hq, hw, fun _ h => ho.trans h, fun h => hlog ▸ h⟩
    · simp only [outstanding, hp]
    · simp [completed, hr, ht]
  have hunbroken : s.fails a = false → spoil s a t broken = broken := by
    intro hf
    simp [spoil, hf]
  cases effect_of_step h with
  | fail i err p hp =>
    have hspoil : spoil s (.fail i err) (s.finish i p.op (.failure err)) broken =
        (broken || p.writes) := by simp [spoil, fails, hp]
    rw [hspoil]
    exact outgoing_fail hsound hs hp
  | run _ _ htask =>
    rw [hunbroken rfl]
    refine outgoing_run hsound hs htask ?_
    rintro pack rfl
    exact hg (by simp [sends, htask])
  | transfer i n p hp hop =>
    rw [hunbroken rfl]
    exact outgoing_transfer hs hp hop n
  | receiveHead i bytes p hp hop =>
    rw [hunbroken rfl]
    exact outgoing_receive hs hp (by simp [hop]) (fill s.recvHead p.done bytes) s.recvData _ _
  | receiveBody i bytes p hp hop =>
    rw [hunbroken rfl]
    exact outgoing_receive hs hp (by simp [hop]) s.recvHead (fill s.recvData p.done bytes) _ _
  | accepted _ hw =>
    rw [hunbroken rfl]
    have hnil := hsound.log_nil (by rw [hw]; rfl)
    exact hs.aside ⟨rfl, rfl, rfl, rfl, rfl, fun hlog => absurd hnil hlog, id⟩
  | acceptCallback | closeCallback =>
    rw [hunbroken rfl]
    exact hs.aside ⟨rfl, rfl, rfl, rfl, rfl, fun _ h => h, fun _ => by simp⟩
  | acceptRead =>
    rw [hunbroken rfl]
    have hread : s.Aside (s.start .readHead []) := aside_start (by decide) []
    exact hs.aside ⟨hread.outstanding, hread.completed, rfl, rfl, rfl, fun _ h => h, id⟩
  | acceptStart | acceptFailed | acceptAppend | acceptAgain | keep | callClose | callSend | closeRemove =>
    rw [hunbroken rfl]
    exact hs.aside ⟨rfl, rfl, rfl, rfl, rfl, fun _ h => h, id⟩
  | postClose =>
    rw [hunbroken rfl]
    exact hpost .doClose rfl rfl rfl rfl rfl rfl rfl rfl
  | postSend _ pack =>
    rw [hunbroken rfl]
    exact hpost (.sendMessage pack) rfl rfl rfl rfl rfl rfl rfl rfl
  | close =>
    rw [hunbroken rfl]
    unfold close
    split
    · exact hs
    · exact hpost .doClose rfl rfl rfl rfl rfl rfl rfl rfl

/-! ### Behind a failed write -/

theorem written_doWrite (s : Session) : s.doWrite.written = s.written := by
  unfold doWrite
  split <;> rfl

theorem written_runTask (s : Session) (task : Task) : (s.runTask o task).written = s.written := by
  cases task with
  | doClose => rfl
  | sendMessage pack =>
    simp only [runTask, runSend]
    split
    · split
      · exact written_doWrite _
      · rfl
    · rfl
  | complete op res =>
    cases res with
    | failure err => cases op <;> rfl
    | success len =>
      cases op with
      | write =>
        simp only [runTask, onWritten]
        split
        · exact written_doWrite _
        · rfl
      | readHead =>
        simp only [runTask, onReadHead]
        split <;> rfl
      | readBody => rfl

theorem written_progress (s : Session) (i : Nat) (p : Pending) (whole : Bool) :
    (s.progress i p whole).written = s.written := by
  unfold progress
  split <;> rfl

/-- Once a write has failed nothing more is written. -/
theorem written_step (hs : s.Outgoing o true) (h : step o s a = some t) : t.written = s.written := by
  cases effect_of_step h with
  | transfer _ _ _ hp hop =>
    have hno := (hs.of_pending hp (by simp [Pending.writes, hop])).2.2.2.1
    cases hno
  | receiveHead | receiveBody => exact written_progress ..
  | fail => rfl
  | run _ task => exact written_runTask _ task
  | acceptStart | acceptFailed | postClose | postSend => rfl
  | close =>
    unfold close
    split <;> rfl
  | _ => rfl

/-! ### Runs -/

/-- The note that a write has failed is part of every run, and changes none. -/
theorem run_noted : (∃ b, Run (noted (step o) spoil) Free (initial, false) as (s, b)) ↔
    Run (step o) Free initial as s := by
  constructor
  · rintro ⟨b, h⟩
    exact h.of_noted
  · intro h
    exact h.with_notes spoil false

/-- What a run keeps while no packet is queued behind a failed write. -/
structure Unspoilt (o : ByteOrder) (x : Session × Bool) : Prop where
  sound : x.1.Sound
  outgoing : x.1.Outgoing o x.2

variable {x y : Session × Bool}

theorem unspoilt_step (hs : Unspoilt o x) (hg : Unbroken x a) (h : noted (step o) spoil x a = some y) :
    Unspoilt o y := by
  obtain ⟨t, ht, rfl⟩ := Option.map_eq_some_iff.mp h
  exact ⟨sound_step hs.sound ht, outgoing_step hs.sound hs.outgoing hg ht⟩

theorem unspoilt_run (h : Run (noted (step o) spoil) Unbroken (initial, false) as x) : Unspoilt o x :=
  h.invariant _ (fun _ _ _ hs hg hst => unspoilt_step hs hg hst) ⟨sound_initial, outgoing_initial⟩

theorem written_run (hs : Unspoilt o x) (hb : x.2 = true)
    (h : Run (noted (step o) spoil) Unbroken x bs y) : y.1.written = x.1.written := by
  have hinv := h.invariant
    (fun z => Unspoilt o z ∧ z.2 = true ∧ z.1.written = x.1.written)
    (fun u a v hu hg hst => ?_) ⟨hs, hb, rfl⟩
  · exact hinv.2.2
  · obtain ⟨hun, hbr, hw⟩ := hu
    refine ⟨unspoilt_step hun hg hst, ?_⟩
    obtain ⟨t, ht, rfl⟩ := Option.map_eq_some_iff.mp hst
    refine ⟨by simp [spoil, hbr], ?_⟩
    exact (written_step (hbr ▸ hun.outgoing) ht).trans hw

/-- While no packet is queued on an open socket behind a failed write, what a connection has written
is a beginning of whole frames (behind the request, for a gateway), and a failed write is its last. -/
theorem failed_write_ends_stream {e : EtcpClient.Env} {request : Bytes}
    {cs ds : List EtcpClient.Action} {c d : EtcpClient.State}
    (hc : Run (EtcpClient.step e) (EtcpClient.Unbroken e) (EtcpClient.initial request) cs c)
    (hd : Run (EtcpClient.step e) (EtcpClient.Unbroken e) c ds d)
    (hx : Run (noted (step o) spoil) Unbroken (initial, false) as x)
    (hy : Run (noted (step o) spoil) Unbroken x bs y) :
    ((∀ k, ∃ qs, qs.Sublist (d.acceptedAfter k) ∧
        d.sent k <+: request ++ EtcpClient.framesOf e.order qs) ∧
      (c.socket.broken = true → d.sent c.socket.conn = c.sent c.socket.conn)) ∧
    y.1.written <+: y.1.frames o ∧ (x.2 = true → y.1.written = x.1.written) := by
  have hrun := hc.append hd
  refine ⟨⟨fun k => ?_, fun hb => EtcpClient.silent_run (EtcpClient.unspoilt_run hc) hb hd⟩, ?_,
    fun hb => written_run (unspoilt_run hx) hb hy⟩
  · have hreq : d.request = request := EtcpClient.request_run hrun
    obtain ⟨qs, hsub, hpre⟩ := (EtcpClient.unspoilt_run hrun).sending.frames k
    exact ⟨qs, hsub, hreq ▸ hpre⟩
  · exact (unspoilt_run (hx.append hy)).outgoing.framed

/-- A header is cut off by an error, with a second packet queued before the handler has run. -/
theorem failed_write_ends_stream_example : ∃ cs ds c d as bs x y,
    Run (EtcpClient.step ⟨.little, .keep, fun _ => ""⟩)
      (EtcpClient.Unbroken ⟨.little, .keep, fun _ => ""⟩) (EtcpClient.initial []) cs c ∧
    Run (EtcpClient.step ⟨.little, .keep, fun _ => ""⟩)
      (EtcpClient.Unbroken ⟨.little, .keep, fun _ => ""⟩) c ds d ∧
    Run (noted (step .little) spoil) Unbroken (initial, false) as x ∧
    Run (noted (step .little) spoil) Unbroken x bs y ∧
    c.socket.broken = true ∧ c.sent 1 = [0x45] ∧ x.2 = true ∧ x.1.written = [0x45] ∧
    d.sent 1 = [0x45] ∧ y.1.written = [0x45] :=
  have hc := run_exec (EtcpClient.step ⟨.little, .keep, fun _ => ""⟩)
    (EtcpClient.Unbroken ⟨.little, .keep, fun _ => ""⟩) (EtcpClient.initial [])
    [.callConnect, .post 0, .run, .connected 0, .run, .callSend [1], .post 0, .run, .transfer 1 1,
      .callSend [2], .post 0, .fail 1 (.other 104)] (by decide)
  have hd := run_exec (EtcpClient.step ⟨.little, .keep, fun _ => ""⟩)
    (EtcpClient.Unbroken ⟨.little, .keep, fun _ => ""⟩) _ [.run, .run] (by decide)
  have hx := run_exec (noted (step .little) spoil) Unbroken (initial, false)
    [.accepted true, .acceptStart, .acceptCallback, .acceptAppend, .acceptRead, .acceptAgain,
      .callSend [1], .post 0, .run 0, .transfer 1 1, .callSend [2], .post 0, .fail 1 (.other 104)]
    (by decide)
  have hy := run_exec (noted (step .little) spoil) Unbroken _ [.run 0, .run 0] (by decide)
  have h := failed_write_ends_stream hc hd hx hy
  ⟨_, _, _, _, _, _, _, _, hc, hd, hx, hy, by decide, by decide, by decide, by decide,
    (h.1.2 (by decide)).trans (by decide), (h.2.2 (by decide)).trans (by decide)⟩

theorem no_frames (packs : List Bytes) : ¬ [0x45, 0x45] <+: (packs.map (frame o)).flatten := by
  intro hpre
  cases packs with
  | nil => simp at hpre
  | cons pack packs =>
    have hsign : (littleEndian 2 protocolSign).reverse = [0x45, 0x54] := by decide
    rw [List.map_cons, List.flatten_cons, frame, messageHead_eq, hsign] at hpre
    simp at hpre

/-- One byte of a header is written before the error; the next packet starts a header of its own
behind it. -/
theorem frame_behind_failure :
    (¬ ∀ as s, Run (EtcpClient.step ⟨.little, .keep, fun _ => ""⟩) Free (EtcpClient.initial []) as s →
      ∃ packs : List Bytes, s.sent 1 <+: (packs.map (frame .little)).flatten) ∧
    ¬ ∀ as s, Run (step .little) Free initial as s →
      ∃ packs : List Bytes, s.written <+: (packs.map (frame .little)).flatten := by
  constructor
  · intro h
    have hrun := run_exec (EtcpClient.step ⟨.little, .keep, fun _ => ""⟩) Free (EtcpClient.initial [])
      [.callConnect, .post 0, .run, .connected 0, .run, .callSend [1], .post 0, .run, .transfer 1 1,
        .fail 1 (.other 104), .run, .callSend [2], .post 0, .run, .transfer 1 1] (by decide)
    obtain ⟨packs, hpre⟩ := h _ _ hrun
    exact no_frames packs hpre
  · intro h
    have hrun := run_exec (step .little) Free initial
      [.accepted true, .acceptStart, .acceptCallback, .acceptAppend, .acceptRead, .acceptAgain,
        .callSend [1], .post 0, .run 0, .transfer 1 1, .fail 1 (.other 104), .run 0, .callSend [2],
        .post 0, .run 0, .transfer 1 1] (by decide)
    obtain ⟨packs, hpre⟩ := h _ _ hrun
    exact no_frames packs hpre

end Session

end NetworkUtility.EtcpServer
