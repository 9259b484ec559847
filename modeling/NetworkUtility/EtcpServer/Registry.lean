import NetworkUtility.EtcpServer.Server
import NetworkUtility.EtcpServer.Trace

/-! The session map holds the sessions that have been accepted and not closed, if no session is removed
before it is appended. -/
namespace NetworkUtility.EtcpServer

open Etcp Machine

namespace Session

variable {o : ByteOrder} {s t : Session} {a : Session.Action} {m n : Prop}

/-- `append_session` has run. -/
def Entered (s : Session) : Prop := .accept ∈ s.log ∧ s.accept ≠ .append

/-- `remove_session` has run. -/
def Left (s : Session) : Prop := .close ∈ s.log ∧ s.closing ≠ .remove

/-- What the callbacks say about the place of `on_accept` and `on_close`. -/
structure Marked (s : Session) : Prop where
  accepted : s.log ≠ [] → .accept ∈ s.log
  before : s.closing = .callback → .close ∉ s.log
  behind : s.closing = .remove → .close ∈ s.log
  closed : .close ∈ s.log → s.closed

/-- The session is in the map, or not, as it should. -/
structure Registered (m : Prop) (s : Session) : Prop where
  marked : s.Marked
  listed : m ↔ s.Entered ∧ ¬ s.Left
  order : s.Left → s.Entered

theorem marked_of_empty (hlog : t.log = []) (hclosing : t.closing = .idle) : t.Marked := by
  constructor <;> simp [hlog, hclosing]

theorem Marked.of_same (hs : s.Marked) (hlog : t.log = s.log) (hclosing : t.closing = s.closing)
    (hclosed : t.closed = s.closed) : t.Marked := by
  obtain ⟨haccepted, hbefore, hbehind, hc⟩ := hs
  constructor
  · rwa [hlog]
  · rwa [hlog, hclosing]
  · rwa [hlog, hclosing]
  · rwa [hlog, hclosed]

/-- `on_close` begins only once. -/
theorem closing_runTask (hs : s.Marked) (hidle : s.closing = .idle) (task : Task) :
    (s.runTask o task).closing = .idle ∨
      (s.runTask o task).closing = .callback ∧ .close ∉ s.log := by
  have hon : ∀ u : Session, u.closing = s.closing → u.closed = s.closed →
      u.onClose.closing = .idle ∨ u.onClose.closing = .callback ∧ .close ∉ s.log := by
    intro u hclosing hclosed
    by_cases hc : s.closed = true
    · left
      simp [onClose, hclosing, hclosed, hc, hidle]
    · right
      exact ⟨by simp [onClose, hclosed, hc], fun hmem => hc (hs.closed hmem)⟩
  rcases close_runTask (o := o) s task with ⟨-, hsame⟩ | rfl | ⟨op, err, -, -, heq⟩
  · exact .inl (hsame.trans hidle)
  · exact hon s.release rfl rfl
  · rw [heq]
    exact hon s rfl rfl

theorem marked_run (hs : s.Marked) (hlog : s.log ≠ []) (hidle : s.closing = .idle) (task : Task) :
    (s.runTask o task).Marked := by
  have hleaves : s.Leaves task (s.runTask o task) := leaves_runTask
  have hclose := mem_log_runTask (o := o) (c := .close) (by rfl) s task
  have haccept := mem_log_runTask (o := o) (c := .accept) (by rfl) s task
  constructor
  · intro _
    exact haccept.mpr (hs.accepted hlog)
  · intro hcb
    rw [hclose]
    rcases closing_runTask (o := o) hs hidle task with heq | ⟨-, hnot⟩
    · rw [heq] at hcb
      cases hcb
    · exact hnot
  · intro hrm
    rcases closing_runTask (o := o) hs hidle task with heq | ⟨heq, -⟩
    · rw [heq] at hrm
      cases hrm
    · rw [heq] at hrm
      cases hrm
  · intro hmem
    exact hleaves.closed (hs.closed (hclose.mp hmem))

/-- What a step does to the marks, with `append_session` and `remove_session` left out. -/
theorem marked_step (hs : s.Sound) (hm : s.Marked) (h : step o s a = some t) : t.Marked := by
  by_cases hp : a.plain
  · have hplain := step_plain hp h
    exact hm.of_same hplain.log hplain.closing hplain.closed
  cases effect_of_step h with
  | run i task htask hidle =>
    have hready : s.ready ≠ [] := List.ne_nil_of_mem (List.mem_of_getElem? htask)
    have hlog := hs.not_fresh (.inr (.inr (.inr (.inl hready))))
    exact marked_run (s := s.dequeue i) (hm.of_same rfl rfl rfl) hlog hidle task
  | accepted => exact hm.of_same rfl rfl rfl
  | acceptStart hc =>
    have hlog := hs.log_nil (by rw [hc]; rfl)
    exact marked_of_empty hlog (hs.fresh hlog).closing
  | acceptFailed hc =>
    have hlog := hs.log_nil (by rw [hc]; rfl)
    exact marked_of_empty hlog (hs.fresh hlog).closing
  | acceptCallback hc =>
    have hlog := hs.log_nil (by rw [hc]; rfl)
    have hclosing := (hs.fresh hlog).closing
    constructor <;> simp [hlog, hclosing]
  | closeCallback hc =>
    have hclosing : s.closing ≠ .idle := by simp [hc]
    have hlog := hs.not_fresh (.inl hclosing)
    refine ⟨fun _ => List.mem_append_left _ (hm.accepted hlog), by rintro ⟨⟩, fun _ => ?_, fun _ => ?_⟩
    · exact List.mem_append_right _ (List.mem_singleton_self _)
    · exact hs.closing hclosing
  | closeRemove => exact ⟨hm.accepted, by rintro ⟨⟩, by rintro ⟨⟩, hm.closed⟩
  | _ => exact absurd rfl hp

theorem left_iff (hlog : .close ∈ t.log ↔ .close ∈ s.log)
    (hclosing : t.closing = .remove ↔ s.closing = .remove) : t.Left ↔ s.Left := by
  unfold Left
  rw [hlog, ne_eq, hclosing]

/-- The other steps neither append the session nor remove it. -/
theorem left_step (hm : s.Marked) (hremove : a ≠ .closeRemove)
    (h : step o s a = some t) : t.Left ↔ s.Left := by
  by_cases hp : a.plain
  · have hplain := step_plain hp h
    exact left_iff (by rw [hplain.log]) (by rw [hplain.closing])
  cases effect_of_step h with
  | run i task _ hidle =>
    have hm' : (s.dequeue i).Marked := hm.of_same rfl rfl rfl
    refine left_iff (mem_log_runTask (by rfl) (s.dequeue i) task) ?_
    rcases closing_runTask (o := o) hm' hidle task with heq | ⟨heq, -⟩ <;> simp [heq, hidle]
  | accepted | acceptStart | acceptFailed => exact Iff.rfl
  | acceptCallback => exact left_iff (by simp) Iff.rfl
  | closeCallback hc =>
    have hnot := hm.before hc
    simp [Left, hnot]
  | closeRemove => exact absurd rfl hremove
  | _ => exact absurd rfl hp

theorem progress_accept (s : Session) (i : Nat) (p : Pending) (whole : Bool) :
    (s.progress i p whole).accept = s.accept := by
  unfold progress
  split <;> rfl

/-- What the accept operation and its handler do. -/
def Action.accepts : Action → Bool
  | .accepted _ => true
  | .acceptStart => true
  | .acceptCallback => true
  | .acceptAppend => true
  | .acceptRead => true
  | .acceptAgain => true
  | _ => false

/-- Nothing else moves the accept handler. -/
theorem accept_frame (ha : a.accepts = false) (h : step o s a = some t) : t.accept = s.accept := by
  cases effect_of_step h with
  | accepted | acceptStart | acceptFailed | acceptCallback | acceptAppend | acceptRead => cases ha
  | acceptAgain => cases ha
  | close =>
    unfold close
    split <;> rfl
  | run i task =>
    have hleaves : (s.dequeue i).Leaves task _ := leaves_runTask (o := o)
    exact hleaves.accept
  | transfer | receiveHead | receiveBody => rw [progress_accept]
  | _ => rfl

/-- Two steps of the accept handler bring it to `append_session` and past it. -/
theorem accept_step (h : step o s a = some t) :
    (t.accept = .append ↔ s.accept = .append) ∨ a = .acceptCallback ∨ a = .acceptAppend := by
  cases effect_of_step h with
  | acceptCallback => exact .inr (.inl rfl)
  | acceptAppend => exact .inr (.inr rfl)
  | accepted _ hc => simp [hc]
  | acceptStart hc =>
    left
    by_cases hclosed : s.closed = true <;> simp [onAccept, hc, hclosed]
  | acceptFailed hc =>
    left
    simp [hc]
  | acceptRead hc => simp [hc]
  | acceptAgain hc => simp [hc]
  | _ => exact .inl (by rw [accept_frame rfl h])

theorem mem_accept_step (ha : a ≠ .acceptCallback) (h : step o s a = some t) :
    .accept ∈ t.log ↔ .accept ∈ s.log := by
  by_cases hp : a.plain
  · rw [(step_plain hp h).log]
  cases effect_of_step h with
  | run i task => exact mem_log_runTask (by rfl) (s.dequeue i) task
  | accepted | acceptStart | acceptFailed => exact Iff.rfl
  | acceptCallback => exact absurd rfl ha
  | closeCallback => simp
  | closeRemove => exact Iff.rfl
  | _ => exact absurd rfl hp

theorem entered_step (hs : s.Sound) (happend : a ≠ .acceptAppend) (h : step o s a = some t) :
    t.Entered ↔ s.Entered := by
  by_cases ha : a = .acceptCallback
  · subst ha
    cases effect_of_step h with
    | acceptCallback hc =>
      have hlog := hs.log_nil (by rw [hc]; rfl)
      simp [Entered, hlog]
  · have haccept := (accept_step h).resolve_right (by simp [ha, happend])
    unfold Entered
    rw [mem_accept_step ha h, ne_eq, haccept]

/-! ### Places in the map -/

theorem Registered.of_iff (hs : s.Registered m) (hmarked : t.Marked) (hmap : n ↔ m)
    (hentered : t.Entered ↔ s.Entered) (hleft : t.Left ↔ s.Left) : t.Registered n := by
  refine ⟨hmarked, ?_, ?_⟩
  · rw [hmap, hentered, hleft]
    exact hs.listed
  · rw [hentered, hleft]
    exact hs.order

theorem registered_close (hs : s.Registered m) : s.close.Registered m := by
  unfold close
  split
  · exact hs
  · exact hs.of_iff (hs.marked.of_same rfl rfl rfl) Iff.rfl Iff.rfl Iff.rfl

theorem registered_append (hs : s.Sound) (hr : s.Registered m) (h : step o s .acceptAppend = some t)
    (hn : n) : t.Registered n := by
  have hmarked := marked_step hs hr.marked h
  have hleft := left_step (a := .acceptAppend) hr.marked (by simp) h
  cases effect_of_step h with
  | acceptAppend hc =>
    have hlog : s.log ≠ [] := fun hnil => (hs.fresh hnil).accept.1 hc
    have hentered : { s with accept := .read }.Entered := ⟨hr.marked.accepted hlog, by rintro ⟨⟩⟩
    have hnot : ¬ s.Left := fun hl => (hr.order hl).2 hc
    exact ⟨hmarked, ⟨fun _ => ⟨hentered, hleft.not.mpr hnot⟩, fun _ => hn⟩, fun _ => hentered⟩

theorem registered_remove (hs : s.Sound) (hr : s.Registered m) (h : step o s .closeRemove = some t)
    (haccept : s.accept ≠ .append) (hn : ¬ n) : t.Registered n := by
  have hmarked := marked_step hs hr.marked h
  cases effect_of_step h with
  | closeRemove hc =>
    have hclosing : s.closing ≠ .idle := by simp [hc]
    have hentered : { s with closing := .idle }.Entered :=
      ⟨hr.marked.accepted (hs.not_fresh (.inl hclosing)), haccept⟩
    have hleft : { s with closing := .idle }.Left := ⟨hr.marked.behind hc, by rintro ⟨⟩⟩
    exact ⟨hmarked, ⟨fun h => absurd h hn, fun h => absurd hleft h.2⟩, fun _ => hentered⟩

theorem registered_step (hs : s.Sound) (hr : s.Registered m) (happend : a ≠ .acceptAppend)
    (hremove : a ≠ .closeRemove) (h : step o s a = some t) : t.Registered m :=
  hr.of_iff (marked_step hs hr.marked h) Iff.rfl (entered_step hs happend h)
    (left_step hr.marked hremove h)

theorem registered_initial : initial.Registered False :=
  ⟨marked_of_empty rfl rfl, by simp [Entered, initial], fun h => absurd h.1 (by simp [initial])⟩

end Session

namespace Server

variable {o : ByteOrder} {s t : Server} {a : Action} {as : List Action} {threadCount : Nat}

/-- No session is removed while its accept handler is about to append it. -/
def Orderly (s : Server) : Action → Prop
  | .session k .closeRemove => (s.sessions k).accept ≠ .append
  | _ => True

instance (s : Server) (a : Action) : Decidable (s.Orderly a) := by
  unfold Orderly
  split <;> infer_instance

/-- Outside the handlers of a session, it is in the map if and only if it was accepted and not
closed. -/
def Consistent (s : Server) : Prop :=
  ∀ k, (s.sessions k).accept.running = false → (s.sessions k).closing = .idle →
    (k ∈ s.sessionMap ↔ .accept ∈ (s.sessions k).log ∧ .close ∉ (s.sessions k).log)

structure Kept (s : Server) : Prop where
  wf : s.Wf
  registered : ∀ k, (s.sessions k).Registered (k ∈ s.sessionMap)

theorem kept_initial (threadCount : Nat) : (initial threadCount).Kept := by
  have hwf := wf_initial threadCount
  refine ⟨hwf, fun k => ?_⟩
  have hsessions : (initial threadCount).sessions = fun _ => .initial :=
    Function.update_eq_self_iff.mpr rfl
  have hmap : (initial threadCount).sessionMap = ∅ := rfl
  rw [hsessions, hmap]
  simpa using Session.registered_initial

theorem kept_step (hs : s.Kept) (hg : s.Orderly a) (h : step o s a = some t) : t.Kept := by
  refine ⟨wf_step hs.wf h, fun k => ?_⟩
  have hsound := hs.wf.sound k
  have hr := hs.registered k
  cases moves_of_step hs.wf h k with
  | same _ _ hsame hiff =>
    rw [hsame, propext hiff]
    exact hr
  | append _ hst hmem => exact Session.registered_append hsound hr hst hmem
  | remove _ hst hout => exact Session.registered_remove hsound hr hst hg hout
  | step _ b _ happend hremove hst hiff =>
    rw [propext hiff]
    exact Session.registered_step hsound hr happend hremove hst
  | visit _ _ heq hiff =>
    rw [heq, propext hiff]
    exact Session.registered_close hr

theorem Kept.consistent (hs : s.Kept) : s.Consistent := by
  intro k haccept hclosing
  rw [(hs.registered k).listed]
  have hnot : (s.sessions k).accept ≠ .append := by
    intro heq
    rw [heq] at haccept
    cases haccept
  simp [Session.Entered, Session.Left, hnot, hclosing]

/-- While no session is removed before it is appended, the session map holds the live sessions. -/
theorem map_consistent (h : Run (step o) Orderly (initial threadCount) as s) : s.Consistent :=
  (h.invariant _ (fun _ _ _ hs hg hst => kept_step hs hg hst) (kept_initial threadCount)).consistent

/-- A session is closed by its user inside `on_etcp_accept`, and the task runs behind the append. -/
theorem map_consistent_example : ∃ as s, Run (step .little) Orderly (initial 2) as s ∧
    (s.sessions 0).log = [.accept, .close] ∧ 0 ∉ s.sessionMap ∧ s.Consistent :=
  have h := run_exec (step .little) Orderly (initial 2)
    [.session 0 (.accepted true), .session 0 .acceptStart, .session 0 .acceptCallback,
      .session 0 .callClose, .session 0 (.post 0), .session 0 .acceptAppend, .session 0 .acceptRead,
      .session 0 .acceptAgain, .session 0 (.run 0), .session 0 .closeCallback,
      .session 0 .closeRemove] (by decide)
  ⟨_, _, h, by decide, by decide, map_consistent h⟩

/-- With two threads the task of that close removes the session first: the entry stays. -/
theorem stale_entry : ¬ ∀ as s, Run (step .little) Free (initial 2) as s → s.Consistent := by
  intro h
  have hrun := run_exec (step .little) Free (initial 2)
    [.session 0 (.accepted true), .session 0 .acceptStart, .session 0 .acceptCallback,
      .session 0 .callClose, .session 0 (.post 0), .session 0 (.run 0), .session 0 .closeCallback,
      .session 0 .closeRemove, .session 0 .acceptAppend, .session 0 .acceptRead,
      .session 0 .acceptAgain] (by decide)
  have hiff := h _ _ hrun 0 (by decide) (by decide)
  exact absurd (hiff.mp (by decide)).2 (by decide)

end Server

end NetworkUtility.EtcpServer
