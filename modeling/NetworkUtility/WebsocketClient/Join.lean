import NetworkUtility.WebsocketClient.Sound

/-! No thread waits in `m_work_thread.join()` for a connection that nobody has terminated, if the tests
of the connection do not fall into an opening or closing handshake. -/
namespace NetworkUtility.WebsocketClient

open Machine

variable {inline : Bool} {s t : State} {a : Action} {as : List Action} {c : Closing}
  {c' : Option Closing}

instance (s : State) : Decidable s.Over := inferInstanceAs (Decidable (_ ∧ (_ ∨ _)))

/-- A test of `do_connect` or of `exit` that finds the connection not open finds the attempt over, and
`exit` does not meet the event thread inside `do_connect`. -/
def Calm (s : State) : Action → Prop
  | .event => s.event = .connectTest → s.isConnected = false → s.Over
  | .exit => s.exit = .closeTest → s.event.inner = false ∧ (s.isConnected = false → s.Over)
  | _ => True

instance (s : State) (a : Action) : Decidable (Calm s a) := by
  unfold Calm
  split <;> infer_instance

/-- A thread is in `m_work_thread.join()`. -/
def Waits (s : State) : Prop := s.event = .connectJoin ∨ s.At .join ∨ s.exit = .joinWork

/-- The connection of the work thread that is joined has been terminated, or has failed or closed. -/
def Unblocked (s : State) : Prop := Waits s → s.Over

theorem apart_of_calm (h : Calm s a) : Apart s a := by
  cases a with
  | exit => exact fun hexit => (h hexit).1
  | _ => trivial

/-! ### What is over stays over -/

theorem over_closing (ho : s.Over) (h : s.stepClosing inline c = some (t, c')) : t.Over := by
  have hclosed (k : Nat) : (s.setStatus k .closed).Over := by
    refine ⟨ho.1, ?_⟩
    by_cases hk : s.threads = k
    · subst hk
      exact .inr (status_setStatus ..)
    · exact (ended_of_ne hk _).mpr ho.2
  have honClose : s.onClose.Over := by
    unfold State.onClose
    split <;> exact ho
  cases State.effect_of_closing h with
  | inlined | queued => exact hclosed _
  | handlerClose | notify => exact honClose
  | join => exact ⟨rfl, ho.2⟩
  | _ => exact ho

/-- The work thread changes no status, and does not start again. -/
theorem stepWork_keeps (hfresh : s.work.fresh = false) (h : s.stepWork = some t) :
    t.work.fresh = false ∧ t.status = s.status ∧ t.threads = s.threads := by
  have hrun : ∀ u : State, u.status = s.status → u.threads = s.threads → u.work = .run →
      u.onClose.work.fresh = false ∧ u.onClose.status = s.status ∧ u.onClose.threads = s.threads := by
    intro u hstatus hthreads hwork
    obtain ⟨-, -, -, -, -, hthreads', -, hwork', -, hstatus'⟩ := onClose_same u
    exact ⟨by rw [hwork', hwork]; rfl, hstatus'.trans hstatus, hthreads'.trans hthreads⟩
  cases State.effect_of_work h with
  | start hw =>
    rw [hw] at hfresh
    cases hfresh
  | refused | closed => exact hrun _ rfl rfl rfl
  | _ => exact ⟨rfl, rfl, rfl⟩

theorem over_work (ho : s.Over) (h : s.stepWork = some t) : t.Over := by
  obtain ⟨hfresh, hstatus, hthreads⟩ := stepWork_keeps ho.1 h
  refine ⟨hfresh, ?_⟩
  unfold State.Ended
  rw [hstatus, hthreads]
  exact ho.2

theorem over_event (ho : s.Over) (hne : s.event ≠ .connectStart) (h : s.stepEvent inline = some t) :
    t.Over := by
  cases State.effect_of_event h with
  | connectOff =>
    unfold State.onClose
    split <;> exact ho
  | connectGoes _ _ _ _ hu =>
    have hover := over_closing ho hu
    exact hover
  | connectDone _ _ _ hu =>
    have hover := over_closing ho hu
    exact hover
  | closeGoes _ _ _ _ hu =>
    have hover := over_closing ho hu
    exact hover
  | closeDone _ _ _ hu =>
    have hover := over_closing ho hu
    exact hover
  | connectJoin => exact ⟨rfl, ho.2⟩
  | connectStart hevent => exact absurd hevent hne
  | _ => exact ho

theorem over_exit (ho : s.Over) (h : s.stepExit inline = some t) : t.Over := by
  cases State.effect_of_exit h with
  | closeGoes _ _ _ _ hu =>
    have hover := over_closing ho hu
    exact hover
  | closeDone _ _ _ hu =>
    have hover := over_closing ho hu
    exact hover
  | joinWork => exact ⟨rfl, ho.2⟩
  | _ => exact ho

/-- Only a new work thread ends it. -/
theorem over_step (ho : s.Over) (hne : a = .event → s.event ≠ .connectStart)
    (h : step inline s a = some t) : t.Over := by
  cases effect_of_step h with
  | connect | close | callback => exact ho
  | exit _ hu => exact over_exit ho hu
  | event _ hu => exact over_event ho (hne rfl) hu
  | work _ hu => exact over_work ho hu
  | realConnect failure hw =>
    have hfresh := ho.1
    rw [hw] at hfresh
    cases hfresh
  | opened _ _ hst => exact absurd ho.2 (not_ended (by simp) hst)
  | receive _ _ _ hst => exact absurd ho.2 (not_ended (by simp) hst)
  | closing _ hst => exact absurd ho.2 (not_ended (by simp) hst)
  | terminated _ _ habsent hclosed => exact absurd ho.2 (not_or.mpr ⟨habsent, hclosed⟩)
  | handle => exact ⟨rfl, ho.2⟩

/-! ### Joining threads -/

structure Joining (s : State) : Prop where
  sound : Sound s
  connect : s.event = .connectJoin → s.Over
  exit : s.exit = .joinEvent ∨ s.exit = .joinWork → s.Over

theorem joining_initial : Joining initial := ⟨sound_initial, nofun, nofun⟩

theorem Joining.unblocked (hs : Joining s) : Unblocked s := by
  rintro (hevent | hat | hexit)
  · exact hs.connect hevent
  · exact hs.sound.core.closing .join hat nofun
  · exact hs.exit (.inr hexit)

/-- The other steps move neither the event thread nor `exit`. -/
theorem step_positions (hevent : a ≠ .event) (hexit : a ≠ .exit) (h : step inline s a = some t) :
    t.event = s.event ∧ t.exit = s.exit := by
  cases effect_of_step h with
  | exit => exact absurd rfl hexit
  | event => exact absurd rfl hevent
  | work _ hu =>
    obtain ⟨hevent, hexit, -⟩ := stepWork_same hu
    exact ⟨hevent, hexit⟩
  | realConnect failure => cases failure <;> exact ⟨rfl, rfl⟩
  | _ => exact ⟨rfl, rfl⟩

theorem stepEvent_exit (h : s.stepEvent inline = some t) : t.exit = s.exit := by
  cases State.effect_of_event h with
  | connectOff => exact (onClose_same _).2.1
  | connectGoes _ _ _ _ hu | closeGoes _ _ _ _ hu => exact (stepClosing_same hu).2.1
  | connectDone _ _ _ hu | closeDone _ _ _ hu => exact (stepClosing_same hu).2.1
  | _ => rfl

/-- `do_connect` joins at once only where its test failed. -/
theorem stepEvent_join (h : s.stepEvent inline = some t) (ht : t.event = .connectJoin) :
    s.event = .connectTest ∧ s.isConnected = false ∧ t = { s with event := .connectJoin } := by
  cases State.effect_of_event h with
  | take event => cases event <;> cases ht
  | connectOff =>
    rw [(onClose_same _).1] at ht
    cases ht
  | connectShut hevent hconn => exact ⟨hevent, hconn, rfl⟩
  | _ => cases ht

theorem stepExit_event (h : s.stepExit inline = some t) : t.event = s.event := by
  cases State.effect_of_exit h with
  | closeGoes _ _ _ _ hu => exact (stepClosing_same hu).1
  | closeDone _ _ _ hu => exact (stepClosing_same hu).1
  | _ => rfl

theorem joining_exit (hs : Joining s) (hg : Calm s .exit) (h : s.stepExit inline = some t)
    (ht : t.exit = .joinEvent ∨ t.exit = .joinWork) : t.Over := by
  have hstays (ho : s.Over) : t.Over := over_exit ho h
  cases State.effect_of_exit h with
  | closeShut hexit hconn => exact hstays ((hg hexit).2 hconn)
  | closeDone c u hexit hu =>
    obtain ⟨rfl, -⟩ := notify_of_none hu
    exact hstays (hs.sound.core.closing _ (.inr hexit) (by rintro ⟨⟩))
  | joinEvent hexit => exact hstays (hs.exit (.inl hexit))
  | joinWork hexit => exact hstays (hs.exit (.inr hexit))
  | _ => rcases ht with ht | ht <;> cases ht

theorem joining_step (hs : Joining s) (hg : Calm s a) (h : step inline s a = some t) : Joining t := by
  have hsound := sound_step hs.sound (apart_of_calm hg) h
  by_cases hevent : a = .event
  · subst hevent
    refine ⟨hsound, fun ht => ?_, fun ht => ?_⟩
    · obtain ⟨hat, hconn, rfl⟩ := stepEvent_join h ht
      exact hg hat hconn
    · rw [stepEvent_exit h] at ht
      refine over_step (hs.exit ht) (fun _ hat => ?_) h
      have htested : s.exit.tested = true := by rcases ht with ht | ht <;> rw [ht] <;> rfl
      have hinner := hs.sound.apart htested
      rw [hat] at hinner
      cases hinner
  · by_cases hexit : a = .exit
    · subst hexit
      have heq := stepExit_event h
      exact ⟨hsound, fun ht => over_exit (hs.connect (heq ▸ ht)) h, joining_exit hs hg h⟩
    · obtain ⟨heq, heq'⟩ := step_positions hevent hexit h
      exact ⟨hsound, fun ht => over_step (hs.connect (heq ▸ ht)) (absurd · hevent) h,
        fun ht => over_step (hs.exit (heq' ▸ ht)) (absurd · hevent) h⟩

/-- While the tests of `do_connect` and `exit` do not meet a handshake, no thread waits in a join for a
connection that is still up. -/
theorem joins_unblocked (h : Run (step inline) Calm initial as s) : Unblocked s :=
  (h.invariant _ (fun _ _ _ hs hg hst => joining_step hs hg hst) joining_initial).unblocked

/-- A connection is opened and closed: the event thread waits for its work thread. -/
theorem joins_unblocked_example : ∃ as s, Run (step false) Calm initial as s ∧ s.threads = 1 ∧
    s.event = .close .join ∧ s.status 1 = .closed ∧ Unblocked s :=
  have h := run_exec (step false) Calm initial
    [.connect, .event, .event, .event, .event, .event, .work, .realConnect none, .opened, .work, .work,
      .close, .event, .event, .event, .event, .event] (by decide)
  ⟨_, _, h, by decide, by decide, by decide, joins_unblocked h⟩

/-- The second of two calls of `connect` is handled during the handshake of the first: its join waits
for a connection that opens and stays open. -/
theorem join_behind_open :
    ¬ ∀ as s, Run (step false) Free initial as s → Unblocked s := by
  intro h
  have hrun := run_exec (step false) Free initial
    [.connect, .connect, .event, .event, .event, .event, .event, .work, .realConnect none, .event, .event,
      .event, .opened, .work, .work] (by decide)
  exact absurd (h _ _ hrun (.inl (by decide))) (by decide)

end NetworkUtility.WebsocketClient
