import NetworkUtility.Lib.Turns
import NetworkUtility.WebsocketClient.Sound

/-! Each attempt is closed once in the callback list, after it was connected if it was, as long as the
handlers of a connection all run on its work thread. -/
namespace NetworkUtility.WebsocketClient

open Machine Turns

variable {s t : State} {a : Action} {as : List Action} {c : Closing} {c' : Option Closing} {k : Nat}

/-- The entry of the callback list that a notice was. -/
def Notice.mark : Notice → Option Bool
  | .connect => some true
  | .close => some false
  | _ => none

namespace State

/-- What the callback thread has told the sink. -/
def delivered (s : State) : List (Nat × Bool) :=
  s.log.filterMap fun (k, notice) => notice.mark.map (k, ·)

/-- All entries pushed to the callback list. -/
def marks (s : State) : List (Nat × Bool) := s.delivered ++ s.callbackList

end State

/-- Not in a handler. -/
def Closing.plain : Closing → Bool
  | .handler _ => false
  | .handlerClose => false
  | _ => true

/-- Not in a handler, and not in the part of `do_connect` that is for `exit`. -/
def EventThread.plain : EventThread → Bool
  | .connectOff => false
  | .connectClose c => c.plain
  | .close c => c.plain
  | _ => true

/-- The step that joined the work thread of this attempt is past `on_close`. -/
def Passed (s : State) (k : Nat) : Prop :=
  0 < k ∧ (k < s.threads ∨ k = s.threads ∧ s.work = .none ∧ s.event.closes = none)

instance (s : State) (k : Nat) : Decidable (Passed s k) := inferInstanceAs (Decidable (_ ∧ _))

/-- An attempt is at most once connected and closed, in this order, and a joined one was closed. -/
structure Once (s : State) : Prop where
  order : ∀ k, entries k s.marks <+: [true, false] ∨ entries k s.marks = [false]
  passed : ∀ k, Passed s k → entries k s.marks = [false] ∨ entries k s.marks = [true, false]
  alternate : Alternate s.delivered
  closed : ∀ k, s.delivered.count (k, false) ≤ 1

/-- The last attempt is closed when `m_callback` is not set, and connected by its open handler only. -/
def InTurn (s : State) : Prop :=
  ∃ p, Taken s.threads p s.marks ∧ (s.work = .start → p = .fresh) ∧
    (s.work ≠ .start → (s.callback = true ↔ p ≠ .closed)) ∧
    (p = .connected → s.status s.threads ≠ .connecting ∧ s.work ≠ .connect ∧ s.work ≠ .opened ∧
      s.work ≠ .connected)

/-- What `m_callback` says about the work thread and the pointer. -/
structure Told (s : State) : Prop where
  sound : Sound s
  exit : s.exit = .none
  running : s.running = true
  plain : s.event.plain
  held : s.callback → s.work.busy → s.work ≠ .refused → s.work ≠ .closed →
    s.connection = some s.threads ∨ ∃ c, s.event.closes = some c ∧ c.holding = false
  gone : s.work = .refused ∨ s.work = .closed → s.connection = none
  ready : s.work = .connect ∨ s.work = .opened ∨ s.work = .connected → s.callback
  cut : s.callback = false → s.connection = none
  left : s.callback → s.work.busy = false → s.work.fresh = false → s.event.closes ≠ none
  idle : s.event.closes = some .notify → s.work = .none
  shaken : s.work = .opened ∨ s.work = .connected → s.status s.threads ≠ .connecting
  turn : InTurn s

theorem plain_of_closes {event : EventThread} (h : event.closes = some c) :
    event.plain = c.plain := by
  cases event <;> cases h <;> rfl

theorem plain_of_none {event : EventThread} (h : event.closes = none) (hoff : event ≠ .connectOff) :
    event.plain := by
  cases event with
  | connectOff => exact absurd rfl hoff
  | connectClose c => cases h
  | close c => cases h
  | _ => rfl

theorem told_initial : Told initial := by
  refine ⟨sound_initial, rfl, rfl, rfl, nofun, fun _ => rfl, nofun, fun _ => rfl, nofun, nofun, nofun, ?_⟩
  exact ⟨.closed, .nil, nofun, by simp [initial], nofun⟩

theorem InTurn.keep (h : InTurn s) (hthreads : t.threads = s.threads) (hmarks : t.marks = s.marks)
    (hcallback : t.callback = s.callback) (hstart : t.work = .start ↔ s.work = .start)
    (hstatus : s.status s.threads ≠ .connecting → t.status s.threads ≠ .connecting)
    (hwork : t.work ≠ .connect ∧ t.work ≠ .opened ∧ t.work ≠ .connected ∨ t.work = s.work ∨
      s.work = .opened) : InTurn t := by
  obtain ⟨p, hp, hfresh, hflag, hconn⟩ := h
  refine ⟨p, ?_, fun hw => hfresh (hstart.mp hw), ?_, fun hc => ?_⟩
  · rw [hthreads, hmarks]
    exact hp
  · rw [hcallback]
    exact fun hw => hflag fun hs => hw (hstart.mpr hs)
  · obtain ⟨hst, hw⟩ := hconn hc
    rw [hthreads]
    refine ⟨hstatus hst, ?_⟩
    rcases hwork with hw' | hw' | hw'
    · exact hw'
    · rwa [hw']
    · exact absurd hw' hw.2.1

theorem InTurn.onClose (h : InTurn s) (hw : s.work ≠ .start) : InTurn s.onClose := by
  unfold State.onClose
  split
  · next hcallback =>
    obtain ⟨p, hp, -, hflag, -⟩ := h
    refine ⟨.closed, ?_, fun h => absurd h hw, fun _ => by simp, nofun⟩
    have hclosed := hp.close ((hflag hw).mp hcallback)
    simpa [State.marks, State.delivered] using hclosed
  · exact h

@[simp] theorem onClose_callback (s : State) : s.onClose.callback = false := by
  unfold State.onClose
  split
  · rfl
  · next h => simpa using h

/-- No work thread starts while a thread closes. -/
theorem Sound.not_start (hs : Sound s) (hc : s.At c) : s.work ≠ .start := by
  intro hw
  exact (hs.core.fresh_none (by rw [hw]; rfl)).2 c hc

/-- The work thread goes back to `run` through `on_close`. -/
theorem told_closed (hs : Told s) (hw : s.work = .refused ∨ s.work = .closed)
    (hsound : Sound { s with work := .run }.onClose) : Told { s with work := .run }.onClose := by
  have hconn := hs.gone hw
  have hstart : s.work ≠ .start := by rcases hw with hw | hw <;> simp [hw]
  obtain ⟨hevent, hexit, hrunning, -, -, hthreads, -, hwork, hconnection, hstatus⟩ :=
    onClose_same { s with work := .run }
  have hturn : InTurn { s with work := .run } :=
    hs.turn.keep rfl rfl rfl (by simp [hstart]) id (.inl (by simp))
  refine ⟨hsound, hexit.trans hs.exit, hrunning.trans hs.running, ?_, ?_, ?_, ?_, ?_, ?_, ?_, ?_,
    hturn.onClose (by simp)⟩
  · rw [hevent]
    exact hs.plain
  · simp
  · simp [hwork]
  · simp [hwork]
  · exact fun _ => hconnection.trans hconn
  · simp
  · rw [hevent]
    intro hc
    rcases hw with hw | hw <;> simp [hs.idle hc] at hw
  · simp [hwork]

/-- The work thread goes on, and `m_callback` and the callback list stay. -/
theorem told_busy (hs : Told s) (hsound : Sound t) (hb : s.work.busy) (hb' : t.work.busy)
    (hcallback : t.callback = s.callback) (hthreads : t.threads = s.threads)
    (hmarks : t.marks = s.marks) (hevent : t.event = s.event) (hexit : t.exit = s.exit)
    (hrunning : t.running = s.running)
    (hconn : t.connection = s.connection ∨ t.connection = none ∧ t.work = .closed)
    (hrest : t.work ≠ .refused ∧ (t.work = .closed → t.connection = none) ∧
      s.work ≠ .refused ∧ s.work ≠ .closed)
    (hready : t.work = .opened ∨ t.work = .connected → s.callback ∧
      t.status t.threads ≠ .connecting)
    (hstatus : s.status s.threads ≠ .connecting → t.status s.threads ≠ .connecting)
    (hturn : t.work ≠ .connect ∧ t.work ≠ .opened ∧ t.work ≠ .connected ∨ s.work = .opened ∨
      s.status s.threads = .connecting) : Told t := by
  have hstart : t.work = .start ↔ s.work = .start := by
    constructor <;> intro hw
    · rw [hw] at hb'
      cases hb'
    · rw [hw] at hb
      cases hb
  refine ⟨hsound, hexit.trans hs.exit, hrunning.trans hs.running, ?_, ?_, ?_, ?_, ?_, ?_, ?_, ?_, ?_⟩
  · rw [hevent]
    exact hs.plain
  · rw [hcallback, hthreads, hevent]
    intro hc _ hw hw'
    rcases hconn with hconn | ⟨-, hclosed⟩
    · rw [hconn]
      exact hs.held hc hb hrest.2.2.1 hrest.2.2.2
    · exact absurd hclosed hw'
  · rintro (hw | hw)
    · exact absurd hw hrest.1
    · exact hrest.2.1 hw
  · rw [hcallback]
    rintro (hw | hw)
    · rw [hw] at hb'
      cases hb'
    · exact (hready hw).1
  · rw [hcallback]
    intro hc
    rcases hconn with hconn | ⟨hconn, -⟩
    · exact hconn.trans (hs.cut hc)
    · exact hconn
  · rw [hb']
    nofun
  · rw [hevent]
    intro hc
    rw [hs.idle hc] at hb
    cases hb
  · exact fun hw => (hready hw).2
  · obtain ⟨p, hp, hfresh, hflag, hc⟩ := hs.turn
    rcases hturn with hw | hw | hst
    · exact hs.turn.keep hthreads hmarks hcallback hstart hstatus (.inl hw)
    · exact hs.turn.keep hthreads hmarks hcallback hstart hstatus (.inr (.inr hw))
    · refine ⟨p, ?_, fun hw => hfresh (hstart.mp hw), ?_, fun hp' => absurd hst (hc hp').1⟩
      · rw [hthreads, hmarks]
        exact hp
      · rw [hcallback]
        exact fun hw => hflag fun hw' => hw (hstart.mpr hw')

theorem inTurn_onConnect (hs : Told s) (hw : s.work = .connected) :
    InTurn { s with work := .run }.onConnect := by
  obtain ⟨p, hp, -, hflag, hconn⟩ := hs.turn
  have hcallback : s.callback = true := hs.ready (.inr (.inr hw))
  have hfresh : p = .fresh := by
    cases p with
    | fresh => rfl
    | connected => exact absurd hw (hconn rfl).2.2.2
    | closed => exact absurd rfl ((hflag (by simp [hw])).mp hcallback)
  subst hfresh
  refine ⟨.connected, ?_, nofun, fun _ => ?_, fun _ => ?_⟩
  · have hnext := hp.connect
    simpa [State.onConnect, State.marks, State.delivered] using hnext
  · simpa [State.onConnect] using hcallback
  · exact ⟨hs.shaken (.inr hw), nofun, nofun, nofun⟩

/-- With `m_callback` set, `run` returns only behind the `stop` of the thread that will join it. -/
theorem not_returned (hs : Told s) (hw : s.work = .run)
    (hends : s.stopped ∨ s.queue = [] ∧ (s.status s.threads = .absent ∨ s.status s.threads = .closed))
    (hc : s.callback) : s.event.closes ≠ none := by
  intro hnone
  have hconn : s.connection = some s.threads := by
    rcases hs.held hc (by rw [hw]; rfl) (by simp [hw]) (by simp [hw]) with hconn | ⟨c, hat, -⟩
    · exact hconn
    · rw [hnone] at hat
      cases hat
  rcases hs.sound.core.held (by simp [hconn]) with ⟨c, hat | hat, -⟩ | ⟨-, hstopped, hlive⟩
  · rw [hnone] at hat
    cases hat
  · rw [hs.exit] at hat
    cases hat
  · rcases hends with hends | ⟨hqueue, hends⟩
    · exact absurd hends (by simp [hstopped])
    · have habsent := (hs.sound.core.conn _ hconn).2
      have hclosed := hends.resolve_left habsent
      simp [hclosed, hqueue, hw] at hlive

theorem told_work (hs : Told s) (hsound : Sound t) (h : s.stepWork = some t) : Told t := by
  cases State.effect_of_work h with
  | start hw =>
    obtain ⟨p, hp, hfresh, -⟩ := hs.turn
    refine ⟨hsound, hs.exit, hs.running, hs.plain, (fun _ h => by cases h), by simp, fun _ => rfl,
      by rintro ⟨⟩, (fun _ _ h => by cases h), fun hc => ?_, by simp, p, hp, by rintro ⟨⟩, fun _ => ?_, ?_⟩
    · simp [hs.idle hc] at hw
    · simp [hfresh hw]
    · simp [hfresh hw]
  | refused hw => exact told_closed hs (.inl hw) hsound
  | openedOwn hw =>
    exact told_busy hs hsound (by rw [hw]; rfl) rfl rfl rfl rfl rfl rfl rfl (.inl rfl)
      ⟨by rintro ⟨⟩, by rintro ⟨⟩, by simp [hw]⟩
      (fun _ => ⟨hs.ready (.inr (.inl hw)), hs.shaken (.inl hw)⟩) id (.inr (.inl hw))
  | openedForeign hw =>
    exact told_busy hs hsound (by rw [hw]; rfl) rfl rfl rfl rfl rfl rfl rfl (.inl rfl)
      ⟨by rintro ⟨⟩, by rintro ⟨⟩, by simp [hw]⟩
      (fun _ => ⟨hs.ready (.inr (.inl hw)), hs.shaken (.inl hw)⟩) id (.inr (.inl hw))
  | connected hw =>
    have hcallback := hs.ready (.inr (.inr hw))
    refine ⟨hsound, hs.exit, hs.running, hs.plain, fun hc _ _ _ => ?_, (by rintro (h | h) <;> cases h),
      (by rintro (h | h | h) <;> cases h), hs.cut, (fun _ h => by cases h), fun hc => ?_,
      (by rintro (h | h) <;> cases h), inTurn_onConnect hs hw⟩
    · exact hs.held hcallback (by rw [hw]; rfl) (by simp [hw]) (by simp [hw])
    · simp [hs.idle hc] at hw
  | message packet binary hw =>
    refine told_busy hs hsound (by rw [hw]; rfl) rfl rfl rfl ?_ rfl rfl rfl (.inl rfl)
      ⟨by rintro ⟨⟩, by rintro ⟨⟩, by simp [hw]⟩ (by simp) id (.inl ⟨by simp, by simp, by simp⟩)
    simp [State.marks, State.delivered, Notice.mark]
  | own k hw =>
    exact told_busy hs hsound (by rw [hw]; rfl) rfl rfl rfl rfl rfl rfl rfl (.inr ⟨rfl, rfl⟩)
      ⟨by rintro ⟨⟩, fun _ => rfl, by simp [hw]⟩ (by simp) id (.inl ⟨by simp, by simp, by simp⟩)
  | foreign k hw =>
    exact told_busy hs hsound (by rw [hw]; rfl) rfl rfl rfl rfl rfl rfl rfl (.inl rfl)
      ⟨by rintro ⟨⟩, by rintro ⟨⟩, by simp [hw]⟩ (by simp) id (.inl ⟨by simp, by simp, by simp⟩)
  | closed hw => exact told_closed hs (.inr hw) hsound
  | leave hw hends =>
    refine ⟨hsound, hs.exit, hs.running, hs.plain, (fun _ h => by cases h), by simp, by simp, hs.cut,
      fun hc _ _ => ?_, fun hc => ?_, by simp, ?_⟩
    · have hleft := not_returned hs hw hends hc
      exact hleft
    · simp [hs.idle hc] at hw
    · exact hs.turn.keep rfl rfl rfl (by simp [hw]) id (.inl (by simp))

/-- The event thread goes on outside `real_close`, and nothing else does. -/
theorem Told.turnEvent (hs : Told s) (hnone : s.event.closes = none) (event : EventThread)
    (hevent : event.closes = none) (hoff : event ≠ .connectOff) (eventList : List Bool)
    (hsound : Sound { s with eventList := eventList, event := event }) :
    Told { s with eventList := eventList, event := event } := by
  have hno : ∀ c, event.closes ≠ some c := by
    intro c
    rw [hevent]
    nofun
  refine ⟨hsound, hs.exit, hs.running, plain_of_none hevent hoff, fun hc hb hw hw' => ?_, hs.gone,
    hs.ready, hs.cut, fun hc hb hf => ?_, fun hc => absurd hc (hno _), hs.shaken,
    hs.turn.keep rfl rfl rfl Iff.rfl id (.inr (.inl rfl))⟩
  · rcases hs.held hc hb hw hw' with hconn | ⟨c, hat, -⟩
    · exact .inl hconn
    · rw [hnone] at hat
      cases hat
  · exact absurd hnone (hs.left hc hb hf)

theorem told_closing (hs : Told s) (hc : s.event.closes = some c)
    (h : s.stepClosing false c = some (t, c')) (event : EventThread) (hevent : event.closes = c')
    (hoff : event ≠ .connectOff) (hsound : Sound { t with event := event }) :
    Told { t with event := event } := by
  have hplain : c.plain = true := (plain_of_closes hc).symm.trans hs.plain
  have hstart : s.work ≠ .start := hs.sound.not_start (.inl hc)
  have hmove (d : Closing) (hplain : d.plain = true) (hnotify : d ≠ .notify)
      (hhold : c.holding = true ∨ d.holding = false) (hd : event.closes = some d)
      (hsound : Sound { s with event := event }) : Told { s with event := event } := by
    refine ⟨hsound, hs.exit, hs.running, (plain_of_closes hd).trans hplain,
      fun hf hb hw hw' => ?_, hs.gone, hs.ready, hs.cut, fun _ _ _ => by simp [hd], fun he => ?_, hs.shaken,
      hs.turn.keep rfl rfl rfl Iff.rfl id (.inr (.inl rfl))⟩
    · rcases hs.held hf hb hw hw' with hconn | ⟨e, he, hhold'⟩
      · exact .inl hconn
      · obtain rfl : c = e := Option.some.inj (hc.symm.trans he)
        rcases hhold with hhold | hhold
        · simp [hhold] at hhold'
        · exact .inr ⟨d, hd, hhold⟩
    · exact absurd (Option.some.inj (hd.symm.trans he)) hnotify
  cases State.effect_of_closing h with
  | unset => exact hmove .stop rfl (by rintro ⟨⟩) (.inl rfl) hevent hsound
  | ended => exact hmove .reset rfl (by rintro ⟨⟩) (.inl rfl) hevent hsound
  | inlined k _ _ hinline => cases hinline
  | queued k hconn =>
    obtain ⟨rfl, -⟩ := hs.sound.core.conn k hconn
    have hclosed : (s.setStatus s.threads .closed).status s.threads ≠ .connecting := by simp
    exact ⟨hsound, hs.exit, hs.running, plain_of_closes hevent, fun _ _ _ _ => .inl hconn, hs.gone,
      hs.ready, hs.cut, fun _ _ _ => by simp [hevent], by simp [hevent], fun _ => hclosed,
      hs.turn.keep rfl rfl rfl Iff.rfl (fun _ => hclosed) (.inr (.inl rfl))⟩
  | own | foreign | handlerClose => cases hplain
  | reset =>
    exact ⟨hsound, hs.exit, hs.running, plain_of_closes hevent, fun _ _ _ _ => .inr ⟨.stop, hevent, rfl⟩,
      fun _ => rfl, hs.ready, fun _ => rfl, fun _ _ _ => by simp [hevent], by simp [hevent], hs.shaken,
      hs.turn.keep rfl rfl rfl Iff.rfl id (.inr (.inl rfl))⟩
  | stop =>
    have hconn : s.connection = none := hs.sound.core.bare _ (.inl hc) rfl
    exact ⟨hsound, hs.exit, hs.running, plain_of_closes hevent, fun _ _ _ _ => .inr ⟨.join, hevent, rfl⟩,
      hs.gone, hs.ready, fun _ => hconn, fun _ _ _ => by simp [hevent], by simp [hevent], hs.shaken,
      hs.turn.keep rfl rfl rfl Iff.rfl id (.inr (.inl rfl))⟩
  | join =>
    have hconn : s.connection = none := hs.sound.core.bare _ (.inl hc) rfl
    exact ⟨hsound, hs.exit, hs.running, plain_of_closes hevent, (fun _ h => by cases h), by simp, by simp,
      fun _ => hconn, fun _ _ _ => by simp [hevent], fun _ => rfl, by simp,
      hs.turn.keep rfl rfl rfl (by simp [hstart]) id (.inl (by simp))⟩
  | notify =>
    have hconn : s.connection = none := hs.sound.core.bare _ (.inl hc) rfl
    obtain ⟨-, hexit, hrunning, -, -, hthreads, -, hwork, hconnection, hstatus⟩ := onClose_same s
    have hturn : InTurn { s.onClose with event := event } :=
      (hs.turn.onClose hstart).keep rfl rfl rfl Iff.rfl id (.inr (.inl rfl))
    have hnone : s.onClose.work = .none := hwork.trans (hs.idle hc)
    refine ⟨hsound, hexit.trans hs.exit, hrunning.trans hs.running, plain_of_none hevent hoff,
      by simp, ?_, ?_, ?_, by simp, fun _ => hnone, ?_, hturn⟩
    · simp [hnone]
    · simp [hnone]
    · exact fun _ => hconnection.trans hconn
    · simp [hnone]

/-- A step of the event thread that only looks. -/
theorem told_enter (hs : Told s) (hnone : s.event.closes = none) (event : EventThread)
    (hevent : event.closes = some .terminate) (hsound : Sound { s with event := event }) :
    Told { s with event := event } := by
  refine ⟨hsound, hs.exit, hs.running, plain_of_closes hevent, fun hc hb hw hw' => ?_, hs.gone, hs.ready,
    hs.cut, fun _ _ _ => by simp [hevent], by simp [hevent], hs.shaken,
    hs.turn.keep rfl rfl rfl Iff.rfl id (.inr (.inl rfl))⟩
  rcases hs.held hc hb hw hw' with hconn | ⟨c, hat, -⟩
  · exact .inl hconn
  · rw [hnone] at hat
    cases hat

theorem told_connectJoin (hs : Told s) (hevent : s.event = .connectJoin) (hj : s.joins = true)
    (hsound : Sound { s with work := .none, event := .connectStart }) :
    Told { s with work := .none, event := .connectStart } := by
  have hcloses : s.event.closes = none := by rw [hevent]; rfl
  have hidle : s.work.busy = false ∧ s.work.fresh = false := by
    simp only [State.joins, decide_eq_true_eq] at hj
    rcases hj with hw | hw <;> exact ⟨by rw [hw]; rfl, by rw [hw]; rfl⟩
  have hcallback : s.callback = false := by
    by_contra hc
    exact hs.left (by simpa using hc) hidle.1 hidle.2 hcloses
  have hstart : s.work ≠ .start := by
    intro hw
    simp [hw, WorkThread.fresh] at hidle
  refine ⟨hsound, hs.exit, hs.running, rfl, (fun _ h => by cases h), by simp, by simp, hs.cut,
    fun hc => ?_, by rintro ⟨⟩, by simp, ?_⟩
  · have hset : s.callback = true := hc
    simp [hcallback] at hset
  · exact hs.turn.keep rfl rfl rfl (by simp [hstart]) id (.inl (by simp))

theorem told_connectStart (hs : Told s) (hevent : s.event = .connectStart)
    (hsound : Sound { s with threads := s.threads + 1, work := .start, event := .idle }) :
    Told { s with threads := s.threads + 1, work := .start, event := .idle } := by
  obtain ⟨hnone, hconn⟩ := hs.sound.start hevent
  have hcloses : s.event.closes = none := by rw [hevent]; rfl
  have hcallback : s.callback = false := by
    by_contra hc
    exact hs.left (by simpa using hc) (by rw [hnone]; rfl) (by rw [hnone]; rfl) hcloses
  refine ⟨hsound, hs.exit, hs.running, rfl, nofun, nofun, nofun, fun _ => hconn, nofun, nofun, nofun, ?_⟩
  obtain ⟨p, hp, -, hflag, -⟩ := hs.turn
  have hclosed : p = .closed := by
    by_contra hne
    exact absurd ((hflag (by simp [hnone])).mpr hne) (by simp [hcallback])
  subst hclosed
  exact ⟨.fresh, hp.start, fun _ => rfl, fun hw => absurd rfl hw, nofun⟩

theorem told_event (hs : Told s) (hsound : Sound t) (h : s.stepEvent false = some t) : Told t := by
  cases State.effect_of_event h with
  | take event rest hevent =>
    have hnone : s.event.closes = none := by rw [hevent]; rfl
    cases event with
    | true => exact hs.turnEvent hnone .connect rfl (by rintro ⟨⟩) rest hsound
    | false => exact hs.turnEvent hnone .closeTest rfl (by rintro ⟨⟩) rest hsound
  | halt _ hrunning | connectHalted _ hrunning => simp [hs.running] at hrunning
  | connect hevent | connectShut hevent | closeShut hevent =>
    exact hs.turnEvent (by rw [hevent]; rfl) _ rfl (by rintro ⟨⟩) s.eventList hsound
  | connectOff hevent =>
    have hplain := hs.plain
    rw [hevent] at hplain
    cases hplain
  | connectOpen hevent | closeOpen hevent => exact told_enter hs (by rw [hevent]; rfl) _ rfl hsound
  | connectGoes c d u hevent hu | closeGoes c d u hevent hu =>
    exact told_closing hs (by rw [hevent]; rfl) hu _ rfl (by rintro ⟨⟩) hsound
  | connectDone c u hevent hu | closeDone c u hevent hu =>
    exact told_closing hs (by rw [hevent]; rfl) hu _ rfl (by rintro ⟨⟩) hsound
  | connectJoin hevent hj => exact told_connectJoin hs hevent hj hsound
  | connectStart hevent => exact told_connectStart hs hevent hsound

theorem told_realConnect (hs : Told s) (hw : s.work = .connect) (failure : Option String)
    (hsound : Sound (s.realConnect failure)) : Told (s.realConnect failure) := by
  have hcallback := hs.ready (.inl hw)
  have hidle : s.event.closes ≠ some .notify := by
    intro hc
    simp [hs.idle hc] at hw
  have hconn := (hs.sound.core.fresh_none (by rw [hw]; rfl)).1
  obtain ⟨p, hp, -, hflag, hlast⟩ := hs.turn
  have hne : p ≠ .connected := fun heq => (hlast heq).2.1 hw
  have hset := hflag (by simp [hw])
  cases failure with
  | some message =>
    refine ⟨hsound, hs.exit, hs.running, hs.plain, fun _ _ hw => absurd rfl hw, fun _ => hconn,
      (by rintro (h | h | h) <;> cases h), hs.cut, (fun _ h => by cases h), fun hc => absurd hc hidle,
      (by rintro (h | h) <;> cases h), p, ?_, by rintro ⟨⟩, fun _ => hset, fun heq => absurd heq hne⟩
    simpa [State.realConnect, State.onError, State.marks, State.delivered, Notice.mark] using hp
  | none =>
    refine ⟨hsound, hs.exit, hs.running, hs.plain, fun _ _ _ _ => .inl rfl,
      (by rintro (h | h) <;> cases h), (by rintro (h | h | h) <;> cases h), fun hc => ?_,
      (fun _ h => by cases h), fun hc => absurd hc hidle, (by rintro (h | h) <;> cases h), p, hp,
      by rintro ⟨⟩, fun _ => hset, fun heq => absurd heq hne⟩
    have hclear : s.callback = false := hc
    simp [hcallback] at hclear

theorem told_step (hs : Told s) (hg : a ≠ .exit) (h : step false s a = some t) : Told t := by
  have hapart : Apart s a := by
    cases a with
    | exit => exact absurd rfl hg
    | _ => trivial
  have hsound := sound_step hs.sound hapart h
  have hturn := hs.turn
  cases effect_of_step h with
  | connect | close =>
    exact ⟨hsound, hs.exit, hs.running, hs.plain, hs.held, hs.gone, hs.ready, hs.cut, hs.left, hs.idle,
      hs.shaken, hturn.keep rfl rfl rfl Iff.rfl id (.inr (.inl rfl))⟩
  | exit => exact absurd rfl hg
  | event _ hu => exact told_event hs hsound hu
  | work _ hu => exact told_work hs hsound hu
  | callback k connected rest hlist =>
    refine ⟨hsound, hs.exit, hs.running, hs.plain, hs.held, hs.gone, hs.ready, hs.cut, hs.left, hs.idle,
      hs.shaken, hturn.keep rfl ?_ rfl Iff.rfl id (.inr (.inl rfl))⟩
    cases connected <;> simp [State.marks, State.delivered, hlist, Notice.mark]
  | realConnect failure hw => exact told_realConnect hs hw failure hsound
  | opened hw _ hst =>
    have hopened : (s.setStatus s.threads .opened).status s.threads ≠ .connecting := by simp
    have hcallback : s.callback = true := by
      by_contra hc
      have hconn := hs.cut (by simpa using hc)
      rw [hs.sound.core.linked (not_ended (by simp) hst)] at hconn
      cases hconn
    exact told_busy hs hsound (by rw [hw]; rfl) rfl rfl rfl rfl rfl rfl rfl (.inl rfl)
      ⟨by rintro ⟨⟩, by rintro ⟨⟩, by simp [hw]⟩ (fun _ => ⟨hcallback, hopened⟩)
        (fun _ => hopened) (.inr (.inr hst))
  | receive _ _ hw | handle _ _ hw =>
    exact told_busy hs hsound (by rw [hw]; rfl) rfl rfl rfl rfl rfl rfl rfl (.inl rfl)
      ⟨by rintro ⟨⟩, by rintro ⟨⟩, by simp [hw]⟩ (by simp) id (.inl ⟨by simp, by simp, by simp⟩)
  | closing hw =>
    have hclosing : (s.setStatus s.threads .closing).status s.threads ≠ .connecting := by simp
    exact told_busy hs hsound (by rw [hw]; rfl) (by simp [State.setStatus, hw, WorkThread.busy])
      rfl rfl rfl
      rfl rfl rfl (.inl rfl) (by simp [State.setStatus, hw]) (by simp [State.setStatus, hw])
      (fun _ => hclosing) (.inl (by simp [State.setStatus, hw]))
  | terminated hw =>
    have hclosed : (s.setStatus s.threads .closed).status s.threads ≠ .connecting := by simp
    exact told_busy hs hsound (by rw [hw]; rfl) (by simp [State.setStatus, hw, WorkThread.busy])
      rfl rfl rfl
      rfl rfl rfl (.inl rfl) (by simp [State.setStatus, hw]) (by simp [State.setStatus, hw])
      (fun _ => hclosed) (.inl (by simp [State.setStatus, hw]))

theorem Told.once (hs : Told s) : Once s := by
  obtain ⟨p, hp, -, hflag, -⟩ := hs.turn
  refine ⟨hp.entries_prefix, fun k ⟨hpos, hk⟩ => ?_, ?_, fun k => ?_⟩
  · rcases hk with hk | ⟨rfl, hw, hcloses⟩
    · exact hp.entries_past hpos hk
    · have hclosed : p = .closed := by
        by_contra hne
        have hcallback := (hflag (by simp [hw])).mpr hne
        exact hs.left hcallback (by rw [hw]; rfl) (by rw [hw]; rfl) hcloses
      exact hp.entries_over hpos (Nat.le_refl _) fun _ => hclosed
  · obtain ⟨m, q, -, hq⟩ := hp.of_prefix (List.prefix_append s.delivered s.callbackList)
    exact hq.alternate
  · obtain ⟨m, q, -, hq⟩ := hp.of_prefix (List.prefix_append s.delivered s.callbackList)
    exact hq.count_closed k

/-- With all handlers on the work thread, no attempt is left without its one `on_close`. -/
theorem one_close_each (h : Run (step false) (fun _ a => a ≠ .exit) initial as s) : Once s :=
  (h.invariant _ (fun _ _ _ hs hg hst => told_step hs hg hst) told_initial).once

/-- An attempt that was open when `connect` was called again, and one that failed. -/
theorem one_close_each_example : ∃ as s, Run (step false) (fun _ a => a ≠ .exit) initial as s ∧
    s.marks = [(1, true), (1, false), (2, false)] ∧ Passed s 2 ∧ Once s :=
  have h := run_exec (step false) (fun _ a => a ≠ .exit) initial
    [.connect, .event, .event, .event, .event, .event, .work, .realConnect none, .opened, .work, .work,
      .connect, .event, .event, .event, .event, .callback, .event, .event, .work, .event, .event, .event,
      .work, .realConnect (some "refused"), .work, .handle 0, .work, .work, .connect, .event, .event,
      .event, .event] (by decide)
  ⟨_, _, h, by decide, by decide, one_close_each h⟩

/-- A plain socket runs the close handler on the thread that terminates, in front of the open handler. -/
theorem closed_before_connected :
    ¬ ∀ as s, Run (step true) (fun _ a => a ≠ .exit) initial as s → Once s := by
  intro h
  have hrun := run_exec (step true) (fun _ a => a ≠ .exit) initial
    [.connect, .event, .event, .event, .event, .event, .work, .realConnect none, .opened, .work, .close,
      .event, .event, .event, .event, .event, .work] (by decide)
  have horder := (h _ _ hrun).order 1
  exact absurd horder (by decide)

end NetworkUtility.WebsocketClient
