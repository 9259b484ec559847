import NetworkUtility.WebsocketClient.Join

/-! After a last call of `close` there is no connection left, if its `do_close` does not meet a
handshake. -/
namespace NetworkUtility.WebsocketClient

open Machine

variable {inline : Bool} {s t : State} {a : Action} {as : List Action} {c : Closing}

/-- The last attempt is still on its way to an open connection. -/
def Shaking (s : State) : Prop := s.work.fresh = true ∨ s.status s.threads = .connecting

instance (s : State) : Decidable (Shaking s) := inferInstanceAs (Decidable (_ ∨ _))

/-- `exit` is not called, and a `do_close` that nothing follows meets no handshake. -/
def Timely (s : State) : Action → Prop
  | .exit => False
  | .event => s.event = .closeTest → s.eventList = [] → ¬ Shaking s
  | _ => True

instance (s : State) (a : Action) : Decidable (Timely s a) := by
  unfold Timely
  split <;> infer_instance

/-- When the last call was `close`, all events are handled and no handshake is pending, there is no
connection. -/
def LastWins (s : State) : Prop :=
  s.calls.getLast? = some false → s.eventList = [] → s.event = .idle → ¬ Shaking s →
    s.isConnected = false ∧ ∀ k, s.status k ≠ .opened

/-- Neither open nor on the way to it. -/
def Quiet (s : State) : Prop := ¬ Shaking s ∧ s.status s.threads ≠ .opened

/-- The event thread is in `do_connect`. -/
def EventThread.connects : EventThread → Bool
  | .connect => true
  | .connectOff => true
  | event => event.inner

/-- What the list and the event thread say about the last call. -/
structure Latest (s : State) : Prop where
  sound : Sound s
  running : s.running = true
  last : s.eventList ≠ [] → s.eventList.getLast? = s.calls.getLast?
  connect : s.eventList = [] → s.event.connects → s.calls.getLast? = some true
  quiet : s.eventList = [] → s.event = .idle → s.calls.getLast? = some false → Quiet s

theorem latest_initial : Latest initial := ⟨sound_initial, rfl, nofun, nofun, nofun⟩

theorem quiet_of_over (ho : s.Over) : Quiet s := by
  obtain ⟨hfresh, habsent | hclosed⟩ := ho
  · simp [Quiet, Shaking, hfresh, habsent]
  · simp [Quiet, Shaking, hfresh, hclosed]

theorem Latest.lastWins (hs : Latest s) : LastWins s := by
  intro hcalls hlist hevent _
  obtain ⟨-, hopen⟩ := hs.quiet hlist hevent hcalls
  have hall : ∀ k, s.status k ≠ .opened := by
    intro k hk
    rcases Nat.lt_trichotomy k s.threads with hlt | rfl | hlt
    · exact not_ended (by simp) hk (hs.sound.core.past k hlt)
    · exact hopen hk
    · rw [hs.sound.core.next k hlt] at hk
      cases hk
  refine ⟨?_, hall⟩
  by_contra hconn
  rw [Bool.not_eq_false] at hconn
  exact hopen (hs.sound.core.of_connected hconn).2

/-- A connection that is not open for `m_connection` is not open. -/
theorem quiet_of_test (hs : Sound s) (hshake : ¬ Shaking s) (hconn : s.isConnected = false) :
    Quiet s := by
  refine ⟨hshake, fun hopen => ?_⟩
  have hlinked := hs.core.linked (not_ended (by simp) hopen)
  simp [State.isConnected, hlinked, hopen] at hconn

theorem stepWork_lists (h : s.stepWork = some t) : t.eventList = s.eventList ∧ t.calls = s.calls := by
  cases State.effect_of_work h with
  | refused | closed =>
    obtain ⟨-, -, -, hlist, hcalls, -⟩ := onClose_same { s with work := .run }
    exact ⟨hlist, hcalls⟩
  | _ => exact ⟨rfl, rfl⟩

/-- Only the event thread starts anew. -/
theorem quiet_step (hq : Quiet s) (hevent : a ≠ .event) (hexit : a ≠ .exit)
    (h : step inline s a = some t) : Quiet t := by
  obtain ⟨hshake, hopen⟩ := hq
  obtain ⟨hfresh, hconnecting⟩ := not_or.mp hshake
  rw [Bool.not_eq_true] at hfresh
  have hsame (hwork : t.work.fresh = false) (hstatus : t.status t.threads = s.status s.threads) :
      Quiet t := by
    unfold Quiet Shaking
    rw [hwork, hstatus]
    exact ⟨not_or.mpr ⟨nofun, hconnecting⟩, hopen⟩
  cases effect_of_step h with
  | connect | close | callback => exact hsame hfresh rfl
  | exit => exact absurd rfl hexit
  | event => exact absurd rfl hevent
  | work _ hu =>
    obtain ⟨hwork, hstatus, hthreads⟩ := stepWork_keeps hfresh hu
    exact hsame hwork (by rw [hstatus, hthreads])
  | realConnect failure hw =>
    rw [hw] at hfresh
    cases hfresh
  | opened _ _ hst => exact absurd hst hconnecting
  | receive _ _ _ hst => exact absurd hst hopen
  | closing _ hst => exact absurd hst hopen
  | terminated => exact quiet_of_over ⟨hfresh, .inr (status_setStatus ..)⟩
  | handle => exact hsame rfl rfl

/-- Calls and events are the business of users and of the event thread. -/
theorem step_lists (hevent : a ≠ .event) (hexit : a ≠ .exit) (hconnect : a ≠ .connect)
    (hclose : a ≠ .close) (h : step inline s a = some t) :
    t.eventList = s.eventList ∧ t.calls = s.calls ∧ t.running = s.running := by
  cases effect_of_step h with
  | connect => exact absurd rfl hconnect
  | close => exact absurd rfl hclose
  | exit => exact absurd rfl hexit
  | event => exact absurd rfl hevent
  | work _ hu =>
    obtain ⟨hlist, hcalls⟩ := stepWork_lists hu
    exact ⟨hlist, hcalls, (stepWork_same hu).2.2.1⟩
  | realConnect failure => cases failure <;> exact ⟨rfl, rfl, rfl⟩
  | _ => exact ⟨rfl, rfl, rfl⟩

/-- A call of `connect` or of `close`. -/
theorem latest_call (hs : Latest s) (hsound : Sound t) {connected : Bool}
    (hlist : t.eventList = s.eventList ++ [connected]) (hcalls : t.calls = s.calls ++ [connected])
    (hrunning : t.running = s.running) : Latest t := by
  have hne : t.eventList ≠ [] := by simp [hlist]
  refine ⟨hsound, hrunning.trans hs.running, fun _ => ?_, fun h => absurd h hne, fun h => absurd h hne⟩
  rw [hlist, hcalls, List.getLast?_concat, List.getLast?_concat]

/-- The event thread goes on with the event it handles, or is done with it. -/
theorem Latest.goes (hs : Latest s) (hsound : Sound t) (hlist : t.eventList = s.eventList)
    (hcalls : t.calls = s.calls) (hrunning : t.running = s.running)
    (hconnect : t.event.connects → s.event.connects)
    (hquiet : t.event = .idle → s.event.connects ∨ (s.eventList = [] → Quiet t)) : Latest t := by
  refine ⟨hsound, hrunning.trans hs.running, ?_, ?_, ?_⟩
  · rw [hlist, hcalls]
    exact hs.last
  · rw [hlist, hcalls]
    exact fun hnil hc => hs.connect hnil (hconnect hc)
  · rw [hlist, hcalls]
    intro hnil hidle hfalse
    rcases hquiet hidle with hc | hq
    · rw [hs.connect hnil hc] at hfalse
      cases hfalse
    · exact hq hnil

theorem latest_pop (hs : Latest s) {event : Bool} {rest : List Bool}
    (hlist : s.eventList = event :: rest)
    (hsound : Sound { s with
      eventList := rest
      event := if event then .connect else .closeTest }) :
    Latest { s with
      eventList := rest
      event := if event then .connect else .closeTest } := by
  have hlast := hs.last (by simp [hlist])
  rw [hlist] at hlast
  refine ⟨hsound, hs.running, fun hne => ?_, fun hnil hconnects => ?_, fun _ hidle => ?_⟩
  · rw [List.getLast?_cons_of_ne_nil hne] at hlast
    exact hlast
  · have hnil : rest = [] := hnil
    subst hnil
    cases event with
    | true => exact hlast.symm
    | false => cases hconnects
  · cases event <;> cases hidle

theorem latest_event (hs : Latest s) (hg : Timely s .event) (hsound : Sound t)
    (h : s.stepEvent inline = some t) : Latest t := by
  cases State.effect_of_event h with
  | take event rest _ _ hlist => exact latest_pop hs hlist hsound
  | halt _ hrunning => simp [hs.running] at hrunning
  | connect hevent | connectHalted hevent | connectOpen hevent | connectShut hevent =>
    exact hs.goes hsound rfl rfl rfl (fun _ => by rw [hevent]; rfl) fun _ => .inl (by rw [hevent]; rfl)
  | connectJoin hevent | connectStart hevent =>
    exact hs.goes hsound rfl rfl rfl (fun _ => by rw [hevent]; rfl) fun _ => .inl (by rw [hevent]; rfl)
  | connectOff hevent =>
    obtain ⟨-, -, hrunning, hlist, hcalls, -⟩ := onClose_same { s with callback := true, event := .idle }
    exact hs.goes hsound hlist hcalls hrunning (fun _ => by rw [hevent]; rfl)
      fun _ => .inl (by rw [hevent]; rfl)
  | connectGoes _ _ _ hevent hu =>
    obtain ⟨-, -, hrunning, hlist, hcalls, -⟩ := stepClosing_same hu
    exact hs.goes hsound hlist hcalls hrunning (fun _ => by rw [hevent]; rfl)
      fun _ => .inl (by rw [hevent]; rfl)
  | connectDone _ _ hevent hu =>
    obtain ⟨-, -, hrunning, hlist, hcalls, -⟩ := stepClosing_same hu
    exact hs.goes hsound hlist hcalls hrunning (fun _ => by rw [hevent]; rfl)
      fun _ => .inl (by rw [hevent]; rfl)
  | closeOpen => exact hs.goes hsound rfl rfl rfl nofun nofun
  | closeShut hevent hconn =>
    refine hs.goes hsound rfl rfl rfl nofun fun _ => .inr fun hnil => ?_
    have hquiet : Quiet s := quiet_of_test hs.sound (hg hevent hnil) hconn
    exact hquiet
  | closeGoes _ _ _ _ hu =>
    obtain ⟨-, -, hrunning, hlist, hcalls, -⟩ := stepClosing_same hu
    exact hs.goes hsound hlist hcalls hrunning nofun nofun
  | closeDone _ _ hevent hu =>
    obtain ⟨-, -, hrunning, hlist, hcalls, -⟩ := stepClosing_same hu
    refine hs.goes hsound hlist hcalls hrunning nofun fun _ => .inr fun _ => ?_
    obtain ⟨rfl, -⟩ := notify_of_none hu
    have hover := hs.sound.core.closing .notify (.inl (by rw [hevent]; rfl)) (by rintro ⟨⟩)
    have hover' := over_closing hover hu
    exact quiet_of_over hover'

theorem latest_step (hs : Latest s) (hg : Timely s a) (h : step inline s a = some t) : Latest t := by
  have hapart : Apart s a := by
    cases a with
    | exit => exact hg.elim
    | _ => trivial
  have hsound := sound_step hs.sound hapart h
  by_cases hevent : a = .event
  · subst hevent
    exact latest_event hs hg hsound h
  by_cases hconnect : a = .connect
  · subst hconnect
    cases h
    exact latest_call hs hsound rfl rfl rfl
  by_cases hclose : a = .close
  · subst hclose
    cases h
    exact latest_call hs hsound rfl rfl rfl
  have hexit : a ≠ .exit := by
    rintro rfl
    exact hg
  obtain ⟨hlist, hcalls, hrunning⟩ := step_lists hevent hexit hconnect hclose h
  obtain ⟨hat, -⟩ := step_positions hevent hexit h
  refine ⟨hsound, hrunning.trans hs.running, ?_, ?_, ?_⟩
  · rw [hlist, hcalls]
    exact hs.last
  · rw [hlist, hcalls, hat]
    exact hs.connect
  · rw [hlist, hcalls, hat]
    exact fun hnil hidle hfalse => quiet_step (hs.quiet hnil hidle hfalse) hevent hexit h

/-- While no `do_close` that nothing follows meets a handshake, a last call of `close` wins. -/
theorem last_close_wins (h : Run (step inline) Timely initial as s) : LastWins s :=
  (h.invariant _ (fun _ _ _ hs hg hst => latest_step hs hg hst) latest_initial).lastWins

/-- A connection that was open when it was closed. -/
theorem last_close_wins_example : ∃ as s, Run (step false) Timely initial as s ∧
    s.calls = [true, false] ∧ s.eventList = [] ∧ s.event = .idle ∧ ¬ Shaking s ∧ LastWins s :=
  have h := run_exec (step false) Timely initial
    [.connect, .event, .event, .event, .event, .event, .work, .realConnect none, .opened, .work, .work,
      .close, .event, .event, .event, .event, .event, .work, .event, .event] (by decide)
  ⟨_, _, h, by decide, by decide, by decide, by decide, last_close_wins h⟩

/-- `do_close` finds the handshake of the connection still pending and does nothing: the connection
opens behind it. -/
theorem opened_behind_close :
    ¬ ∀ as s, Run (step false) (fun _ a => a ≠ .exit) initial as s → LastWins s := by
  intro h
  have hrun := run_exec (step false) (fun _ a => a ≠ .exit) initial
    [.connect, .close, .event, .event, .event, .event, .event, .work, .realConnect none, .event, .event,
      .opened, .work, .work] (by decide)
  have hwins := h _ _ hrun (by decide) (by decide) (by decide) (by decide)
  exact absurd hwins.1 (by decide)

end NetworkUtility.WebsocketClient
