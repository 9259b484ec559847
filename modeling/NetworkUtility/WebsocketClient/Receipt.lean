import NetworkUtility.WebsocketClient.Join
import NetworkUtility.WebsocketClient.Notices

/-! A message is told between the two notices of its connection, if the callback thread is not behind
or ahead of the work thread. -/
namespace NetworkUtility.WebsocketClient

open Machine Turns

variable {inline : Bool} {s t : State} {a : Action} {as : List Action} {c : Closing}
  {c' : Option Closing} {k : Nat}

/-- The notices of received messages. -/
def Notice.isRecv : Notice → Bool
  | .recv _ _ => true
  | _ => false

/-- In the message handler. -/
def WorkThread.receiving : WorkThread → Bool
  | .message _ _ => true
  | _ => false

/-- When a message is told, the callback list does not hold the connect entry of its connection, and
if `on_close` has been there before, it still holds the close entry; `exit` does not meet the event
thread inside `do_connect`. -/
def Prompt (s : State) : Action → Prop
  | .work => s.work.receiving → (s.threads, true) ∉ s.callbackList ∧
      (s.callback = true ∨ (s.threads, false) ∈ s.callbackList)
  | .exit => s.exit = .closeTest → s.event.inner = false
  | _ => True

instance (s : State) (a : Action) : Decidable (Prompt s a) := by
  unfold Prompt
  split <;> infer_instance

/-- Messages are told between the notices of their connections. -/
def Within (s : State) : Prop := Inside .connect .close Notice.isRecv s.log

/-- No message of the last attempt can be told any more. -/
def Deaf (s : State) : Prop := s.Over ∧ s.work.receiving = false

/-- How far the close of the last attempt has got: its work thread starts; `m_callback` is set; nothing
is left to be told; the event thread is in `real_close` behind `on_close`; `exit` has begun. -/
inductive CloseMark (s : State) : Prop
  | start : s.work = .start → s.marks.count (s.threads, false) = 0 → CloseMark s
  | set : s.callback = true → s.marks.count (s.threads, false) = 0 → CloseMark s
  | deaf : Deaf s → CloseMark s
  | behind : s.event.closes ≠ none → s.callback = false → s.marks.count (s.threads, false) ≤ 1 →
      CloseMark s
  | exit : s.running = false → s.delivered.count (s.threads, false) = 0 → CloseMark s

/-- What the threads leave for a message to be told in time. -/
structure Hearing (s : State) : Prop where
  bound : ∀ e ∈ s.marks, e.1 ≤ s.threads
  gone : s.work = .refused ∨ s.work = .closed → s.connection = none
  opened : s.work.busy → s.work ≠ .opened → s.work ≠ .connected → s.status s.threads = .opened →
    (s.threads, true) ∈ s.marks
  message : s.work.receiving → (s.threads, true) ∈ s.marks
  mark : CloseMark s
  within : Within s

structure Heard (s : State) : Prop extends Hearing s where
  sound : Sound s
  idle : s.event.closes = some .notify → s.work = .none
  off : s.event = .connectOff → s.running = false

theorem heard_initial : Heard initial := by
  refine ⟨⟨nofun, nofun, nofun, nofun, .deaf ?_, inside_nil⟩, sound_initial, nofun, nofun⟩
  exact ⟨⟨rfl, .inl rfl⟩, rfl⟩

theorem CloseMark.keep (h : CloseMark s) (hthreads : t.threads = s.threads)
    (hcallback : t.callback = s.callback)
    (hmarks : t.marks.count (s.threads, false) ≤ s.marks.count (s.threads, false))
    (hdelivered : t.delivered.count (s.threads, false) ≤ s.delivered.count (s.threads, false))
    (hrunning : s.running = false → t.running = false)
    (hevent : s.event.closes ≠ none → t.event.closes ≠ none)
    (hstart : s.work = .start → t.work = .start) (hdeaf : Deaf s → Deaf t) : CloseMark t := by
  cases h with
  | start hw hcount =>
    refine .start (hstart hw) ?_
    rw [hthreads]
    omega
  | set hset hcount =>
    refine .set (hcallback.trans hset) ?_
    rw [hthreads]
    omega
  | deaf hd => exact .deaf (hdeaf hd)
  | behind hcloses hclear hcount =>
    refine .behind (hevent hcloses) (hcallback.trans hclear) ?_
    rw [hthreads]
    omega
  | exit hoff hcount =>
    refine .exit (hrunning hoff) ?_
    rw [hthreads]
    omega

theorem mem_delivered {connected : Bool} : (k, connected) ∈ s.delivered ↔
    (k, if connected then Notice.connect else .close) ∈ s.log := by
  simp only [State.delivered, List.mem_filterMap, Option.map_eq_some_iff, Prod.mk.injEq]
  constructor
  · rintro ⟨⟨j, notice⟩, hmem, b, hb, rfl, rfl⟩
    cases notice <;> cases hb <;> exact hmem
  · intro hmem
    refine ⟨_, hmem, connected, ?_, rfl, rfl⟩
    cases connected <;> rfl

theorem delivered_le (s : State) (e : Nat × Bool) : s.delivered.count e ≤ s.marks.count e := by
  rw [State.marks, List.count_append]
  omega

@[simp] theorem onClose_delivered (s : State) : s.onClose.delivered = s.delivered := by
  unfold State.onClose
  split <;> rfl

theorem onClose_marks (h : s.callback = true) :
    s.onClose.marks = s.marks ++ [(s.threads, false)] := by
  simp [State.onClose, h, State.marks, State.delivered]

theorem onClose_of_clear (h : s.callback = false) : s.onClose = s := by
  simp [State.onClose, h]

theorem mem_onClose_marks {e : Nat × Bool} (h : e ∈ s.onClose.marks) :
    e ∈ s.marks ∨ e = (s.threads, false) := by
  by_cases hset : s.callback = true
  · rw [onClose_marks hset, List.mem_append, List.mem_singleton] at h
    exact h
  · rw [onClose_of_clear (by simpa using hset)] at h
    exact .inl h

theorem mem_marks_onClose {e : Nat × Bool} (h : e ∈ s.marks) : e ∈ s.onClose.marks := by
  by_cases hset : s.callback = true
  · rw [onClose_marks hset]
    exact List.mem_append_left _ h
  · rw [onClose_of_clear (by simpa using hset)]
    exact h

/-- `on_close` on a thread that goes on in `real_close`, or inside `exit`. -/
theorem CloseMark.onClose (h : CloseMark s) (hw : s.work ≠ .start)
    (hcase : s.event.closes ≠ none ∨ s.running = false) : CloseMark s.onClose := by
  obtain ⟨hevent, -, hrunning, -, -, hthreads, -, hwork, -, hstatus⟩ := onClose_same s
  by_cases hset : s.callback = true
  · cases h with
    | start hw' _ => exact absurd hw' hw
    | set _ hcount =>
      rcases hcase with hcloses | hoff
      · refine .behind (by rwa [hevent]) (onClose_callback s) ?_
        rw [onClose_marks hset, hthreads, List.count_append, hcount]
        simp
      · refine .exit (hrunning.trans hoff) ?_
        have hle := delivered_le s (s.threads, false)
        rw [onClose_delivered, hthreads]
        omega
    | deaf hd =>
      refine .deaf ⟨⟨by rw [hwork]; exact hd.1.1, ?_⟩, by rw [hwork]; exact hd.2⟩
      unfold State.Ended
      rw [hstatus, hthreads]
      exact hd.1.2
    | behind _ hclear _ => simp [hset] at hclear
    | exit hoff hcount =>
      refine .exit (hrunning.trans hoff) ?_
      rwa [onClose_delivered, hthreads]
  · rw [onClose_of_clear (by simpa using hset)]
    exact h

/-- At the message handler the close entry has not been told. -/
theorem CloseMark.not_told (h : CloseMark s) (hw : s.work.receiving = true)
    (hg : s.callback = true ∨ (s.threads, false) ∈ s.callbackList) :
    s.delivered.count (s.threads, false) = 0 := by
  have hsum : s.marks.count (s.threads, false) =
      s.delivered.count (s.threads, false) + s.callbackList.count (s.threads, false) :=
    List.count_append ..
  cases h with
  | start hw' _ =>
    rw [hw'] at hw
    cases hw
  | set _ hcount => omega
  | deaf hd =>
    rw [hd.2] at hw
    cases hw
  | behind _ hclear hcount =>
    have hmem : (s.threads, false) ∈ s.callbackList := hg.resolve_left (by simp [hclear])
    have hpos := List.count_pos_iff.mpr hmem
    omega
  | exit _ hcount => exact hcount

/-- A thread in `real_close` is at `on_close`, or touches neither the flag nor the list. -/
theorem stepClosing_cases (h : s.stepClosing inline c = some (t, c')) :
    t = s.onClose ∨ t.callback = s.callback ∧ t.callbackList = s.callbackList ∧
      (t.work = s.work ∨ t.work = .none) ∧ (t.connection = s.connection ∨ t.connection = none) ∧
      ∀ k, t.status k = s.status k ∨ t.status k = .closed := by
  have hset (j k : Nat) : (s.setStatus k .closed).status j = s.status j ∨
      (s.setStatus k .closed).status j = .closed := by
    by_cases hj : j = k
    · subst hj
      exact .inr (status_setStatus ..)
    · exact .inl (status_of_ne hj _)
  cases State.effect_of_closing h with
  | handlerClose | notify => exact .inl rfl
  | inlined k | queued k => exact .inr ⟨rfl, rfl, .inl rfl, .inl rfl, (hset · k)⟩
  | own | reset => exact .inr ⟨rfl, rfl, .inl rfl, .inr rfl, fun _ => .inl rfl⟩
  | join => exact .inr ⟨rfl, rfl, .inr rfl, .inl rfl, fun _ => .inl rfl⟩
  | _ => exact .inr ⟨rfl, rfl, .inl rfl, .inl rfl, fun _ => .inl rfl⟩

theorem Hearing.onClose (hs : Hearing s) (hw : s.work ≠ .start)
    (hcase : s.event.closes ≠ none ∨ s.running = false) : Hearing s.onClose := by
  obtain ⟨-, -, -, -, -, hthreads, hlog, hwork, hconn, hstatus⟩ := onClose_same s
  refine ⟨fun e he => ?_, ?_, ?_, ?_, hs.mark.onClose hw hcase, ?_⟩
  · rw [hthreads]
    rcases mem_onClose_marks he with he | rfl
    · exact hs.bound e he
    · exact Nat.le_refl _
  · rw [hwork, hconn]
    exact hs.gone
  · rw [hwork, hthreads, hstatus]
    exact fun hb ho hc hst => mem_marks_onClose (hs.opened hb ho hc hst)
  · rw [hwork, hthreads]
    exact fun hr => mem_marks_onClose (hs.message hr)
  · unfold Within
    rw [hlog]
    exact hs.within

theorem hearing_closing (hs : Heard s) (hc : s.At c) (h : s.stepClosing inline c = some (t, c')) :
    Hearing t := by
  have hstart := hs.sound.not_start hc
  have hcase : s.event.closes ≠ none ∨ s.running = false := by
    rcases hc with hc | hc
    · exact .inl (by simp [hc])
    · exact .inr (hs.sound.halted (by simp [hc]))
  rcases stepClosing_cases h with rfl | ⟨hcallback, hlist, hwork, hconn, hstatus⟩
  · exact hs.toHearing.onClose hstart hcase
  obtain ⟨hevent, -, hrunning, -, -, hthreads, hlog⟩ := stepClosing_same h
  have hdelivered : t.delivered = s.delivered := by
    unfold State.delivered
    rw [hlog]
  have hmarks : t.marks = s.marks := by
    unfold State.marks
    rw [hdelivered, hlist]
  have hreceiving : t.work.receiving = true → s.work.receiving = true := by
    rcases hwork with hw | hw
    · rw [hw]
      exact id
    · rw [hw]
      nofun
  refine ⟨?_, fun hw => ?_, fun hb ho hcn hst => ?_, fun hr => ?_, ?_, ?_⟩
  · rw [hmarks, hthreads]
    exact hs.bound
  · rcases hwork with hw' | hw'
    · rw [hw'] at hw
      rcases hconn with hconn | hconn
      · exact hconn.trans (hs.gone hw)
      · exact hconn
    · simp [hw'] at hw
  · rw [hmarks, hthreads]
    rw [hthreads] at hst
    rcases hwork with hw' | hw'
    · rw [hw'] at hb ho hcn
      refine hs.opened hb ho hcn ?_
      rcases hstatus s.threads with hst' | hst'
      · rw [← hst', hst]
      · rw [hst'] at hst
        cases hst
    · rw [hw'] at hb
      cases hb
  · rw [hmarks, hthreads]
    exact hs.message (hreceiving hr)
  · refine hs.mark.keep hthreads hcallback (by rw [hmarks]) (by rw [hdelivered])
      (fun hoff => hrunning.trans hoff) (fun hcl => by rwa [hevent]) (fun hw => absurd hw hstart)
      fun hd => ⟨over_closing hd.1 h, ?_⟩
    by_contra hr
    have hr' := hreceiving (by simpa using hr)
    simp [hd.2] at hr'
  · unfold Within
    rw [hlog]
    exact hs.within

/-- The event thread goes on. -/
theorem Hearing.turn (hs : Hearing s) (event : EventThread)
    (hevent : s.event.closes ≠ none → event.closes ≠ none) (eventList : List Bool) :
    Hearing { s with eventList := eventList, event := event } :=
  ⟨hs.bound, hs.gone, hs.opened, hs.message,
    hs.mark.keep rfl rfl (Nat.le_refl _) (Nat.le_refl _) id hevent id id, hs.within⟩

theorem Hearing.exitTurn (hs : Hearing s) (exit : ExitThread) : Hearing { s with exit := exit } :=
  ⟨hs.bound, hs.gone, hs.opened, hs.message,
    hs.mark.keep rfl rfl (Nat.le_refl _) (Nat.le_refl _) id id id id, hs.within⟩

/-- The work thread is back in `run` behind `on_close`. -/
theorem hearing_closed (hs : Heard s) (hw : s.work = .refused ∨ s.work = .closed) :
    Hearing { s with work := .run }.onClose := by
  obtain ⟨-, -, -, -, -, hthreads, hlog, hwork, -, hstatus⟩ := onClose_same { s with work := .run }
  have hended : s.Ended s.threads := by
    by_contra hne
    have hlinked := hs.sound.core.linked hne
    simp [hs.gone hw] at hlinked
  refine ⟨fun e he => ?_, ?_, fun _ _ _ hst => ?_, ?_, .deaf ⟨⟨?_, ?_⟩, ?_⟩, ?_⟩
  · rw [hthreads]
    rcases mem_onClose_marks he with he | rfl
    · exact hs.bound e he
    · exact Nat.le_refl _
  · simp [hwork]
  · rw [hthreads, hstatus] at hst
    have hopen : ¬ s.Ended s.threads := not_ended (by simp) hst
    exact absurd hended hopen
  · simp [hwork, WorkThread.receiving]
  · simp [hwork, WorkThread.fresh]
  · unfold State.Ended
    rw [hthreads, hstatus]
    exact hended
  · simp [hwork, WorkThread.receiving]
  · unfold Within
    rw [hlog]
    exact hs.within

theorem hearing_message (hs : Heard s) {packet : Bytes} {binary : Bool}
    (hw : s.work = .message packet binary) (hg : Prompt s .work) :
    Hearing { s with work := .run, log := s.log ++ [(s.threads, .recv packet binary)] } := by
  have hr : s.work.receiving = true := by rw [hw]; rfl
  obtain ⟨hopened, hclosed⟩ := hg hr
  have hmark := hs.message hr
  have hdelivered : State.delivered { s with
      work := .run
      log := s.log ++ [(s.threads, .recv packet binary)] } = s.delivered := by
    simp [State.delivered, Notice.mark]
  have hmarks : State.marks { s with
      work := .run
      log := s.log ++ [(s.threads, .recv packet binary)] } = s.marks := by
    unfold State.marks
    rw [hdelivered]
  refine ⟨?_, (by rintro (h | h) <;> cases h), fun _ _ _ _ => ?_, by rintro ⟨⟩, ?_,
    hs.within.concat fun _ => ⟨?_, ?_⟩⟩
  · rw [hmarks]
    exact hs.bound
  · rw [hmarks]
    exact hmark
  · refine hs.mark.keep rfl rfl (by rw [hmarks]) (by rw [hdelivered]) id id (by simp [hw]) fun hd => ?_
    exact ⟨⟨rfl, hd.1.2⟩, rfl⟩
  · rcases List.mem_append.mp hmark with hin | hin
    · exact mem_delivered.mp hin
    · exact absurd hin hopened
  · intro hin
    have hzero := hs.mark.not_told hr hclosed
    exact List.count_eq_zero.mp hzero (mem_delivered.mpr hin)

theorem hearing_work (hs : Heard s) (hg : Prompt s .work) (h : s.stepWork = some t) : Hearing t := by
  have hopened {k : Nat} (hw : s.work = .handler k) :
      s.status s.threads = .opened → (s.threads, true) ∈ s.marks :=
    hs.opened (by rw [hw]; rfl) (by simp [hw]) (by simp [hw])
  cases State.effect_of_work h with
  | start hw =>
    refine ⟨hs.bound, (by rintro (h | h) <;> cases h), by rintro ⟨⟩, by rintro ⟨⟩, ?_, hs.within⟩
    have hfresh := hs.sound.core.fresh_none (by rw [hw]; rfl)
    cases hs.mark with
    | start _ hcount => exact .set rfl hcount
    | set _ hcount => exact .set rfl hcount
    | deaf hd =>
      have hnot := hd.1.1
      simp [hw, WorkThread.fresh] at hnot
    | behind hcloses _ _ =>
      obtain ⟨c, hc⟩ := Option.ne_none_iff_exists'.mp hcloses
      exact absurd (.inl hc) (hfresh.2 c)
    | exit hoff hcount => exact .exit hoff hcount
  | refused hw => exact hearing_closed hs (.inl hw)
  | openedOwn hw hconn =>
    refine ⟨hs.bound, (by rintro (h | h) <;> cases h), fun _ _ hcn => absurd rfl hcn, by rintro ⟨⟩, ?_,
      hs.within⟩
    exact hs.mark.keep rfl rfl (Nat.le_refl _) (Nat.le_refl _) id id (by simp [hw])
      fun hd => ⟨⟨rfl, hd.1.2⟩, rfl⟩
  | openedForeign hw hconn =>
    refine ⟨hs.bound, (by rintro (h | h) <;> cases h), fun _ _ _ hst => ?_, by rintro ⟨⟩, ?_, hs.within⟩
    · exact absurd (hs.sound.core.linked (not_ended (by simp) hst)) hconn
    · exact hs.mark.keep rfl rfl (Nat.le_refl _) (Nat.le_refl _) id id (by simp [hw])
        fun hd => ⟨⟨rfl, hd.1.2⟩, rfl⟩
  | connected hw =>
    have hmarks : { s with work := .run }.onConnect.marks = s.marks ++ [(s.threads, true)] := by
      simp [State.onConnect, State.marks, State.delivered]
    have hlast : (s.threads, true) ∈ { s with work := .run }.onConnect.marks := by
      rw [hmarks]
      simp
    refine ⟨fun e he => ?_, (by rintro (h | h) <;> cases h), fun _ _ _ _ => hlast, by rintro ⟨⟩,
      ?_, hs.within⟩
    · rw [hmarks, List.mem_append, List.mem_singleton] at he
      rcases he with he | rfl
      · exact hs.bound e he
      · exact Nat.le_refl _
    · refine hs.mark.keep rfl rfl ?_ (Nat.le_refl _) id id (by simp [hw]) fun hd => ⟨⟨rfl, hd.1.2⟩, rfl⟩
      rw [hmarks, List.count_append]
      simp
  | message packet binary hw => exact hearing_message hs hw hg
  | own k hw =>
    refine ⟨hs.bound, fun _ => rfl, fun _ _ _ => hopened hw, by rintro ⟨⟩, ?_, hs.within⟩
    exact hs.mark.keep rfl rfl (Nat.le_refl _) (Nat.le_refl _) id id (by simp [hw])
      fun hd => ⟨⟨rfl, hd.1.2⟩, rfl⟩
  | foreign k hw =>
    refine ⟨hs.bound, (by rintro (h | h) <;> cases h), fun _ _ _ => hopened hw, by rintro ⟨⟩, ?_,
      hs.within⟩
    exact hs.mark.keep rfl rfl (Nat.le_refl _) (Nat.le_refl _) id id (by simp [hw])
      fun hd => ⟨⟨rfl, hd.1.2⟩, rfl⟩
  | closed hw => exact hearing_closed hs (.inr hw)
  | leave hw =>
    refine ⟨hs.bound, (by rintro (h | h) <;> cases h), by rintro ⟨⟩, by rintro ⟨⟩, ?_, hs.within⟩
    exact hs.mark.keep rfl rfl (Nat.le_refl _) (Nat.le_refl _) id id (by simp [hw])
      fun hd => ⟨⟨rfl, hd.1.2⟩, rfl⟩

/-- The event thread is behind its `on_close`: the attempt is over. -/
theorem hearing_notify (hs : Heard s) (hc : s.event.closes = some .notify) (event : EventThread) :
    Hearing { s.onClose with event := event } := by
  have hclosed := hs.toHearing.onClose (hs.sound.not_start (.inl hc)) (.inl (by simp [hc]))
  have hover := hs.sound.core.closing .notify (.inl hc) nofun
  obtain ⟨-, -, -, -, -, hthreads, -, hwork, -, hstatus⟩ := onClose_same s
  have hnone : s.onClose.work = .none := hwork.trans (hs.idle hc)
  refine ⟨hclosed.bound, hclosed.gone, hclosed.opened, hclosed.message, .deaf ⟨⟨?_, ?_⟩, ?_⟩,
    hclosed.within⟩
  · simp [hnone, WorkThread.fresh]
  · unfold State.Ended
    rw [hthreads, hstatus]
    exact hover.2
  · simp [hnone, WorkThread.receiving]

theorem hearing_connectOff (hs : Heard s) (hevent : s.event = .connectOff) :
    Hearing { s with callback := true, event := .idle }.onClose := by
  have hoff := hs.off hevent
  have hcloses : s.event.closes = none := by rw [hevent]; rfl
  obtain ⟨-, -, hrunning, -, -, hthreads, hlog, hwork, hconn, hstatus⟩ :=
    onClose_same { s with callback := true, event := .idle }
  have hmarks : { s with callback := true, event := .idle }.onClose.marks =
      s.marks ++ [(s.threads, false)] :=
    onClose_marks rfl
  refine ⟨fun e he => ?_, ?_, ?_, ?_, ?_, ?_⟩
  · rw [hthreads]
    rcases mem_onClose_marks he with he | rfl
    · exact hs.bound e he
    · exact Nat.le_refl _
  · rw [hwork, hconn]
    exact hs.gone
  · rw [hwork, hthreads, hstatus, hmarks]
    exact fun hb ho hc hst => List.mem_append_left _ (hs.opened hb ho hc hst)
  · rw [hwork, hthreads, hmarks]
    exact fun hr => List.mem_append_left _ (hs.message hr)
  · have hexit (hcount : s.delivered.count (s.threads, false) = 0) :
        CloseMark { s with callback := true, event := .idle }.onClose := by
      refine .exit (hrunning.trans hoff) ?_
      rw [onClose_delivered, hthreads]
      exact hcount
    have hle := delivered_le s (s.threads, false)
    cases hs.mark with
    | start _ hcount => exact hexit (by omega)
    | set _ hcount => exact hexit (by omega)
    | deaf hd =>
      refine .deaf ⟨⟨by rw [hwork]; exact hd.1.1, ?_⟩, by rw [hwork]; exact hd.2⟩
      unfold State.Ended
      rw [hstatus, hthreads]
      exact hd.1.2
    | behind hne _ _ => exact absurd hcloses hne
    | exit _ hcount => exact hexit hcount
  · unfold Within
    rw [hlog]
    exact hs.within

/-- The event thread is in `real_close`, or behind it. -/
theorem heard_closing (hs : Heard s) (hc : s.event.closes = some c)
    (h : s.stepClosing inline c = some (t, c')) (event : EventThread) (hevent : event.closes = c')
    (hoff : event ≠ .connectOff) (hsound : Sound { t with event := event }) :
    Heard { t with event := event } := by
  cases c' with
  | none =>
    obtain ⟨rfl, rfl⟩ := notify_of_none h
    refine ⟨hearing_notify hs hc event, hsound, fun hn => ?_, fun heq => absurd heq hoff⟩
    have hno : event.closes = some .notify := hn
    simp [hevent] at hno
  | some d =>
    have ht := hearing_closing hs (.inl hc) h
    have hevent' : Hearing { t with event := event } := ht.turn event (by simp [hevent]) t.eventList
    refine ⟨hevent', hsound, fun hn => ?_, fun heq => absurd heq hoff⟩
    have hd : d = .notify := Option.some.inj (hevent.symm.trans hn)
    subst hd
    have hnone := work_of_notify h
    exact hnone

theorem heard_event (hs : Heard s) (hsound : Sound t) (h : s.stepEvent inline = some t) : Heard t := by
  cases State.effect_of_event h with
  | take event rest hevent =>
    have hnone : s.event.closes = none := by rw [hevent]; rfl
    refine ⟨hs.turn _ (absurd hnone) rest, hsound, fun hc => ?_, fun hoff => ?_⟩
    · cases event <;> cases hc
    · cases event <;> cases hoff
  | halt hevent | connect hevent | connectOpen hevent | connectShut hevent =>
    have hnone : s.event.closes = none := by rw [hevent]; rfl
    exact ⟨hs.turn _ (absurd hnone) _, hsound, by rintro ⟨⟩, by rintro ⟨⟩⟩
  | closeOpen hevent | closeShut hevent =>
    have hnone : s.event.closes = none := by rw [hevent]; rfl
    exact ⟨hs.turn _ (absurd hnone) _, hsound, by rintro ⟨⟩, by rintro ⟨⟩⟩
  | connectHalted hevent hrunning =>
    have hnone : s.event.closes = none := by rw [hevent]; rfl
    exact ⟨hs.turn _ (absurd hnone) _, hsound, by rintro ⟨⟩, fun _ => hrunning⟩
  | connectOff hevent =>
    obtain ⟨hidle, -⟩ := onClose_same { s with callback := true, event := .idle }
    exact ⟨hearing_connectOff hs hevent, hsound, by simp [hidle, EventThread.closes], by simp [hidle]⟩
  | connectGoes c d u hevent hu | closeGoes c d u hevent hu =>
    exact heard_closing hs (by rw [hevent]; rfl) hu _ rfl (by rintro ⟨⟩) hsound
  | connectDone c u hevent hu | closeDone c u hevent hu =>
    exact heard_closing hs (by rw [hevent]; rfl) hu _ rfl (by rintro ⟨⟩) hsound
  | connectJoin hevent hj =>
    have hnone : s.event.closes = none := by rw [hevent]; rfl
    have hstart : s.work ≠ .start := by
      intro hw
      simp [State.joins, hw] at hj
    refine ⟨⟨hs.bound, (by rintro (h | h) <;> cases h), by rintro ⟨⟩, by rintro ⟨⟩, ?_,
      hs.within⟩, hsound, by rintro ⟨⟩, by rintro ⟨⟩⟩
    exact hs.mark.keep rfl rfl (Nat.le_refl _) (Nat.le_refl _) id (absurd hnone)
      (fun hw => absurd hw hstart) fun hd => ⟨⟨rfl, hd.1.2⟩, rfl⟩
  | connectStart hevent =>
    refine ⟨⟨fun e he => Nat.le_succ_of_le (hs.bound e he), (by rintro (h | h) <;> cases h),
      by rintro ⟨⟩, by rintro ⟨⟩, .start rfl ?_, hs.within⟩, hsound, by rintro ⟨⟩, by rintro ⟨⟩⟩
    rw [List.count_eq_zero]
    intro hin
    have hle := hs.bound _ hin
    simp at hle

/-- `exit` clears the callback list behind the join. -/
theorem hearing_joinWork (hs : Heard s) (hoff : s.running = false) :
    Hearing { s with
      work := .none
      eventList := []
      callbackList := []
      callback := false
      exit := .returned } := by
  have hmarks : State.marks { s with
      work := .none
      eventList := []
      callbackList := []
      callback := false
      exit := .returned } = s.delivered := by
    simp [State.marks, State.delivered]
  refine ⟨fun e he => ?_, (by rintro (h | h) <;> cases h), by rintro ⟨⟩, by rintro ⟨⟩, ?_, hs.within⟩
  · rw [hmarks] at he
    exact hs.bound e (List.mem_append_left _ he)
  · have hle := delivered_le s (s.threads, false)
    cases hs.mark with
    | start _ hcount =>
      refine .exit hoff ?_
      show s.delivered.count (s.threads, false) = 0
      omega
    | set _ hcount =>
      refine .exit hoff ?_
      show s.delivered.count (s.threads, false) = 0
      omega
    | deaf hd => exact .deaf ⟨⟨rfl, hd.1.2⟩, rfl⟩
    | behind hcloses _ hcount =>
      refine .behind hcloses rfl ?_
      rw [hmarks]
      exact le_trans hle hcount
    | exit _ hcount => exact .exit hoff hcount

/-- `exit` is inside `real_close`, or behind it. -/
theorem heard_exit_closing (hs : Heard s) (hexit : s.exit = .close c)
    (h : s.stepClosing inline c = some (t, c')) (exit : ExitThread)
    (hsound : Sound { t with exit := exit }) : Heard { t with exit := exit } := by
  obtain ⟨hevent, -, hrunning, -⟩ := stepClosing_same h
  refine ⟨(hearing_closing hs (.inr hexit) h).exitTurn _, hsound, fun hc => ?_, fun hoff => ?_⟩
  · have hat : s.event.closes = some .notify := hevent ▸ hc
    have hnone := hs.idle hat
    show t.work = .none
    rcases stepClosing_cases h with rfl | ⟨-, -, hw, -⟩
    · obtain ⟨-, -, -, -, -, -, -, hwork, -⟩ := onClose_same s
      exact hwork.trans hnone
    · rcases hw with hw | hw
      · exact hw.trans hnone
      · exact hw
  · have hat : s.event = .connectOff := hevent.symm.trans hoff
    exact hrunning.trans (hs.off hat)

theorem heard_exit (hs : Heard s) (hsound : Sound t) (h : s.stepExit inline = some t) : Heard t := by
  cases State.effect_of_exit h with
  | call =>
    refine ⟨⟨hs.bound, hs.gone, hs.opened, hs.message, ?_, hs.within⟩, hsound, hs.idle, fun _ => rfl⟩
    exact hs.mark.keep rfl rfl (Nat.le_refl _) (Nat.le_refl _) (fun _ => rfl) id id id
  | closeOpen | closeShut | joinEvent => exact ⟨hs.toHearing.exitTurn _, hsound, hs.idle, hs.off⟩
  | closeGoes c d u hexit hu => exact heard_exit_closing hs hexit hu _ hsound
  | closeDone c u hexit hu => exact heard_exit_closing hs hexit hu _ hsound
  | joinWork hexit =>
    exact ⟨hearing_joinWork hs (hs.sound.halted (by simp [hexit])), hsound, fun _ => rfl, hs.off⟩

theorem heard_callback (hs : Heard s) (hsound : Sound t) (h : step inline s .callback = some t) :
    Heard t := by
  cases effect_of_step h with
  | callback k connected rest hlist hrunning =>
    have hmarks : State.marks { s with
        callbackList := rest
        log := s.log ++ [(k, if connected then .connect else .close)] } = s.marks := by
      cases connected <;> simp [State.marks, State.delivered, hlist, Notice.mark]
    have hoff : s.running ≠ false := by simp [hrunning]
    refine ⟨⟨?_, hs.gone, ?_, ?_, ?_, hs.within.concat fun hd => ?_⟩, hsound, hs.idle, hs.off⟩
    · rw [hmarks]
      exact hs.bound
    · rw [hmarks]
      exact hs.opened
    · rw [hmarks]
      exact hs.message
    · cases hs.mark with
      | start hw hcount => exact .start hw (by rw [hmarks]; exact hcount)
      | set hset hcount => exact .set hset (by rw [hmarks]; exact hcount)
      | deaf hd => exact .deaf hd
      | behind hcloses hclear hcount => exact .behind hcloses hclear (by rw [hmarks]; exact hcount)
      | exit hno _ => exact absurd hno hoff
    · cases connected <;> cases hd

theorem heard_realConnect (hs : Heard s) (hw : s.work = .connect) (failure : Option String)
    (hsound : Sound (s.realConnect failure)) : Heard (s.realConnect failure) := by
  have hfresh : s.work.fresh = true := by rw [hw]; rfl
  have hconn := (hs.sound.core.fresh_none hfresh).1
  have hdeaf : ¬ Deaf s := by
    intro hd
    have hnot := hd.1.1
    simp [hfresh] at hnot
  cases failure with
  | some message =>
    have hdelivered : (s.realConnect (some message)).delivered = s.delivered := by
      simp [State.realConnect, State.onError, State.delivered, Notice.mark]
    have hmarks : (s.realConnect (some message)).marks = s.marks := by
      unfold State.marks
      rw [hdelivered]
      rfl
    have habsent : s.status s.threads = .absent := hs.sound.core.fresh hfresh
    refine ⟨⟨?_, fun _ => hconn, fun _ _ _ hst => ?_, by rintro ⟨⟩, ?_,
      hs.within.concat (by rintro ⟨⟩)⟩, hsound, fun hc => ?_, hs.off⟩
    · rw [hmarks]
      exact hs.bound
    · have hopen : s.status s.threads = .opened := hst
      simp [habsent] at hopen
    · exact hs.mark.keep rfl rfl (by rw [hmarks]) (by rw [hdelivered]) id id (by simp [hw])
        (absurd · hdeaf)
    · simp [hs.idle hc] at hw
  | none =>
    refine ⟨⟨hs.bound, (by rintro (h | h) <;> cases h), fun _ _ _ hst => ?_, by rintro ⟨⟩, ?_,
      hs.within⟩, hsound, fun hc => ?_, hs.off⟩
    · have hopen : (s.setStatus s.threads .connecting).status s.threads = .opened := hst
      simp at hopen
    · exact hs.mark.keep rfl rfl (Nat.le_refl _) (Nat.le_refl _) id id (by simp [hw]) (absurd · hdeaf)
    · simp [hs.idle hc] at hw

/-- What happens in `run` between two handlers. -/
theorem heard_run (hs : Heard s) (hw : s.work = .run) (hsound : Sound t)
    (hthreads : t.threads = s.threads) (hcallback : t.callback = s.callback)
    (hlist : t.callbackList = s.callbackList) (hlog : t.log = s.log) (hevent : t.event = s.event)
    (hrunning : t.running = s.running) (hwork : t.work ≠ .refused ∧ t.work ≠ .closed)
    (hopened : t.work ≠ .opened → t.status s.threads = .opened → s.status s.threads = .opened)
    (hreceiving : t.work.receiving → s.status s.threads = .opened) (hdeaf : Deaf s → Deaf t) :
    Heard t := by
  have hdelivered : t.delivered = s.delivered := by
    unfold State.delivered
    rw [hlog]
  have hmarks : t.marks = s.marks := by
    unfold State.marks
    rw [hdelivered, hlist]
  have hopen : s.status s.threads = .opened → (s.threads, true) ∈ s.marks :=
    hs.opened (by rw [hw]; rfl) (by simp [hw]) (by simp [hw])
  refine ⟨⟨?_, ?_, fun _ ho _ hst => ?_, fun hr => ?_, ?_, ?_⟩, hsound, ?_, ?_⟩
  · rw [hmarks, hthreads]
    exact hs.bound
  · rintro (h | h)
    · exact absurd h hwork.1
    · exact absurd h hwork.2
  · rw [hmarks, hthreads]
    rw [hthreads] at hst
    exact hopen (hopened ho hst)
  · rw [hmarks, hthreads]
    exact hopen (hreceiving hr)
  · exact hs.mark.keep hthreads hcallback (by rw [hmarks]) (by rw [hdelivered])
      (fun h => hrunning.trans h) (fun h => by rwa [hevent]) (by simp [hw]) hdeaf
  · unfold Within
    rw [hlog]
    exact hs.within
  · rw [hevent]
    intro hc
    simp [hs.idle hc] at hw
  · rw [hevent, hrunning]
    exact hs.off

theorem heard_step (hs : Heard s) (hg : Prompt s a) (h : step inline s a = some t) : Heard t := by
  have hapart : Apart s a := by
    cases a with
    | exit => exact hg
    | _ => trivial
  have hsound := sound_step hs.sound hapart h
  have hcall (connected : Bool) (hsound : Sound { s with
      eventList := s.eventList ++ [connected]
      calls := s.calls ++ [connected] }) : Heard { s with
      eventList := s.eventList ++ [connected]
      calls := s.calls ++ [connected] } := by
    have hturn := hs.toHearing.turn s.event id (s.eventList ++ [connected])
    exact ⟨⟨hturn.bound, hturn.gone, hturn.opened, hturn.message,
      hturn.mark.keep rfl rfl (Nat.le_refl _) (Nat.le_refl _) id id id id, hturn.within⟩, hsound,
      hs.idle, hs.off⟩
  cases effect_of_step h with
  | connect => exact hcall true hsound
  | close => exact hcall false hsound
  | exit _ hu => exact heard_exit hs hsound hu
  | event _ hu => exact heard_event hs hsound hu
  | work _ hu =>
    obtain ⟨hevent, -, hrunning, hw⟩ := stepWork_same hu
    refine ⟨hearing_work hs hg hu, hsound, ?_, ?_⟩
    · rw [hevent]
      exact fun hc => absurd (hs.idle hc) hw
    · rw [hevent, hrunning]
      exact hs.off
  | callback => exact heard_callback hs hsound h
  | realConnect failure hw => exact heard_realConnect hs hw failure hsound
  | opened hw _ hst =>
    have hopen : ¬ s.Ended s.threads := not_ended (by simp) hst
    exact heard_run hs hw hsound rfl rfl rfl rfl rfl rfl
      ⟨by rintro ⟨⟩, by rintro ⟨⟩⟩ (fun h => absurd rfl h) (by rintro ⟨⟩)
      fun hd => absurd hd.1.2 hopen
  | receive packet binary hw hst =>
    have hopen : ¬ s.Ended s.threads := not_ended (by simp) hst
    exact heard_run hs hw hsound rfl rfl rfl rfl rfl rfl
      ⟨by rintro ⟨⟩, by rintro ⟨⟩⟩ (fun _ => id) (fun _ => hst)
      fun hd => absurd hd.1.2 hopen
  | closing hw hst =>
    have hopen : ¬ s.Ended s.threads := not_ended (by simp) hst
    have hwork : (s.setStatus s.threads .closing).work = .run := hw
    exact heard_run hs hw hsound rfl rfl rfl rfl rfl rfl (by simp [hwork]) (fun _ _ => hst)
      (fun _ => hst) fun hd => absurd hd.1.2 hopen
  | terminated hw _ habsent hclosed =>
    have hopen : ¬ s.Ended s.threads := not_or.mpr ⟨habsent, hclosed⟩
    have hst : (s.setStatus s.threads .closed).status s.threads ≠ .opened := by simp
    refine heard_run hs hw hsound rfl rfl rfl rfl rfl rfl ?_ (fun _ h => absurd h hst) (fun hr => ?_)
      fun hd => absurd hd.1.2 hopen
    · simp [State.setStatus, hw]
    · have hr' : s.work.receiving = true := hr
      simp [hw, WorkThread.receiving] at hr'
  | handle i k hw =>
    exact heard_run hs hw hsound rfl rfl rfl rfl rfl rfl
      ⟨by rintro ⟨⟩, by rintro ⟨⟩⟩ (fun _ => id) (by rintro ⟨⟩)
      fun hd => ⟨⟨rfl, hd.1.2⟩, rfl⟩

theorem within_of_run (h : Run (step inline) Prompt initial as s) : Within s :=
  (h.invariant _ (fun _ _ _ hs hg hst => heard_step hs hg hst) heard_initial).within

end NetworkUtility.WebsocketClient
