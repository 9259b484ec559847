import NetworkUtility.Lib.Index
import NetworkUtility.WebsocketClient.Steps

/-! The pointer, the connection and the work thread of an attempt go together, while `exit` does not
meet the event thread inside `do_connect`. -/
namespace NetworkUtility.WebsocketClient

open Machine

/-- `run` has not been reached. -/
def WorkThread.fresh : WorkThread → Bool
  | .start => true
  | .connect => true
  | _ => false

/-- Between `real_connect` and the end of `run`. -/
def WorkThread.busy : WorkThread → Bool
  | .none => false
  | .start => false
  | .connect => false
  | .returned => false
  | _ => true

/-- The pointer has not been reset yet. -/
def Closing.holding : Closing → Bool
  | .terminate => true
  | .handler _ => true
  | .handlerClose => true
  | .reset => true
  | _ => false

/-- Inside `do_connect`, behind the test of `m_running`. -/
def EventThread.inner : EventThread → Bool
  | .connectTest => true
  | .connectClose _ => true
  | .connectJoin => true
  | .connectStart => true
  | _ => false

/-- `exit` is behind the test of its `do_close`. -/
def ExitThread.tested : ExitThread → Bool
  | .none => false
  | .closeTest => false
  | _ => true

/-- The event thread is in `real_close`, or behind it. -/
def EventThread.closes : EventThread → Option Closing
  | .connectClose c => some c
  | .close c => some c
  | _ => none

namespace State

/-- There is no such connection, or it has been terminated, has failed or is closed. -/
def Ended (s : State) (k : Nat) : Prop := s.status k = .absent ∨ s.status k = .closed

/-- The last attempt has no connection that could be or become open. -/
def Over (s : State) : Prop := s.work.fresh = false ∧ s.Ended s.threads

/-- A thread is at this point of `real_close` or behind it. -/
def At (s : State) (c : Closing) : Prop := s.event.closes = some c ∨ s.exit = .close c

end State

/-- The work thread, the pointer and the connections, with the points where threads are closing. -/
structure Core (C : Closing → Prop) (s : State) : Prop where
  past : ∀ k < s.threads, s.Ended k
  next : ∀ k, s.threads < k → s.status k = .absent
  fresh : s.work.fresh → s.status s.threads = .absent
  queued : ∀ k ∈ s.queue, s.status k = .closed
  handled : ∀ k, s.work = .handler k → s.status k = .closed
  conn : ∀ k, s.connection = some k → k = s.threads ∧ s.status k ≠ .absent
  held : s.connection ≠ none → (∃ c, C c ∧ c.holding) ∨ s.work.busy ∧ s.stopped = false ∧
    (s.status s.threads ≠ .closed ∨ s.threads ∈ s.queue ∨ s.work = .handler s.threads)
  ended : s.work.busy = false → s.work.fresh = false → s.Ended s.threads
  stopped : s.work.busy → s.stopped → s.Ended s.threads
  closing : ∀ c, C c → c ≠ .terminate → s.Over
  terminating : C .terminate → s.Over ∨ s.connection = some s.threads
  bare : ∀ c, C c → c.holding = false → s.connection = none
  linked : ¬ s.Ended s.threads → s.connection = some s.threads

variable {C D : Closing → Prop} {inline : Bool} {s t : State} {a : Action} {as : List Action}
  {c : Closing} {c' : Option Closing} {k : Nat}

theorem core_initial : Core (fun _ => False) initial := by
  constructor <;> simp [initial, State.Ended, WorkThread.fresh, WorkThread.busy]

theorem Core.congr (hs : Core C s) (h : ∀ c, D c ↔ C c) : Core D s := by
  have heq : D = C := funext fun c => propext (h c)
  exact heq ▸ hs

/-- Without a thread that closes, the pointer is that of a running attempt. -/
theorem Core.fresh_none (hs : Core C s) (h : s.work.fresh) : s.connection = none ∧ ∀ c, ¬ C c := by
  have hclosing : ∀ c, ¬ C c := by
    intro c hc
    by_cases heq : c = .terminate
    · subst heq
      rcases hs.terminating hc with hover | hconn
      · exact absurd hover.1 (by simp [h])
      · exact (hs.conn _ hconn).2 (hs.fresh h)
    · exact absurd (hs.closing c hc heq).1 (by simp [h])
  refine ⟨?_, hclosing⟩
  by_contra hne
  rcases hs.held hne with ⟨c, hc, -⟩ | ⟨hbusy, -⟩
  · exact hclosing c hc
  · cases hw : s.work <;> simp [hw, WorkThread.fresh, WorkThread.busy] at h hbusy

theorem Core.not_fresh (hs : Core C s) (hconn : s.connection = some k) : s.work.fresh = false := by
  by_contra hne
  rw [Bool.not_eq_false] at hne
  simp [(hs.fresh_none hne).1] at hconn

theorem Core.of_connected (hs : Core C s) (h : s.isConnected = true) :
    s.connection = some s.threads ∧ s.status s.threads = .opened := by
  unfold State.isConnected at h
  split at h
  · next k hk =>
    obtain ⟨rfl, -⟩ := hs.conn k hk
    exact ⟨hk, by simpa using h⟩
  · cases h

/-- While the last connection is not over, no thread is closing behind `terminate`. -/
theorem Core.not_closing (hs : Core C s) (h : ¬ s.Ended s.threads) (hc : C c) : c = .terminate := by
  by_contra hne
  exact h (hs.closing c hc hne).2

theorem Core.running (hs : Core C s) (h : ¬ s.Ended s.threads) (hb : s.work.busy) :
    s.stopped = false := by
  by_contra hne
  exact h (hs.stopped hb (by simpa using hne))

@[simp] theorem status_setStatus (s : State) (k : Nat) (st : Status) :
    (s.setStatus k st).status k = st :=
  Function.update_self ..

theorem status_of_ne {j : Nat} (hne : j ≠ k) (st : Status) :
    (s.setStatus k st).status j = s.status j :=
  Function.update_of_ne hne ..

theorem status_closed {j : Nat} (h : s.status j = .closed) (k : Nat) :
    (s.setStatus k .closed).status j = .closed := by
  by_cases hj : j = k
  · subst hj
    exact status_setStatus ..
  · exact (status_of_ne hj _).trans h

/-- Threads that close have moved on, and nothing else. -/
theorem Core.move (hs : Core C s) (hthreads : t.threads = s.threads) (hstatus : t.status = s.status)
    (hqueue : t.queue = s.queue) (hwork : t.work = s.work) (hconn : t.connection = s.connection)
    (hstopped : t.stopped = s.stopped) (hclosing : ∀ d, D d → d ≠ .terminate → s.Over)
    (hterminating : D .terminate → C .terminate)
    (hbare : ∀ d, D d → d.holding = false → s.connection = none)
    (hheld : s.connection ≠ none → (∃ d, C d ∧ d.holding) → ∃ d, D d ∧ d.holding) : Core D t := by
  constructor <;>
    simp only [State.Over, State.Ended, hthreads, hstatus, hqueue, hwork, hconn, hstopped]
  · exact hs.past
  · exact hs.next
  · exact hs.fresh
  · exact hs.queued
  · exact hs.handled
  · exact hs.conn
  · exact fun hne => (hs.held hne).imp_left (hheld hne)
  · exact hs.ended
  · exact hs.stopped
  · exact hclosing
  · exact fun hd => hs.terminating (hterminating hd)
  · exact hbare
  · exact hs.linked

/-- The callbacks do not matter. -/
theorem Core.of_same (hs : Core C s) (hthreads : t.threads = s.threads) (hstatus : t.status = s.status)
    (hqueue : t.queue = s.queue) (hwork : t.work = s.work) (hconn : t.connection = s.connection)
    (hstopped : t.stopped = s.stopped) : Core C t :=
  hs.move hthreads hstatus hqueue hwork hconn hstopped hs.closing id hs.bare fun _ => id

theorem Core.onClose (hs : Core C s) : Core C s.onClose := by
  unfold State.onClose
  split
  · exact hs.of_same rfl rfl rfl rfl rfl rfl
  · exact hs

/-- The pointer is reset. -/
theorem Core.reset (hs : Core C s) (hover : s.Over) : Core D { s with connection := none } :=
  ⟨hs.past, hs.next, hs.fresh, hs.queued, hs.handled, nofun, fun h => absurd rfl h, hs.ended, hs.stopped,
    fun _ _ _ => hover, fun _ => .inl hover, fun _ _ _ => rfl, fun h => absurd hover.2 h⟩

theorem ended_of_ne {j : Nat} (hne : j ≠ k) (st : Status) :
    (s.setStatus k st).Ended j ↔ s.Ended j := by
  unfold State.Ended
  rw [status_of_ne hne]

/-- The connection of the last attempt is terminated, by a thread that closes or in `run`. -/
theorem core_closed (hs : Core C s) (hfresh : s.work.fresh = false) (queue : List Nat)
    (hqueue : ∀ k ∈ queue, k ∈ s.queue ∨ k = s.threads)
    (hclosing : ∀ d, D d → d = .terminate ∨ d.holding = true)
    (hheld : (∃ d, D d ∧ d.holding) ∨ s.work.busy ∧ s.stopped = false ∧ s.threads ∈ queue) :
    Core D { s.setStatus s.threads .closed with queue := queue } := by
  have hlast : (s.setStatus s.threads .closed).Ended s.threads := .inr (status_setStatus ..)
  constructor
  · intro k (hk : k < s.threads)
    exact (ended_of_ne (Nat.ne_of_lt hk) _).mpr (hs.past k hk)
  · intro k (hk : s.threads < k)
    exact (status_of_ne (Nat.ne_of_gt hk) _).trans (hs.next k hk)
  · exact fun h => absurd h (by simp [State.setStatus, hfresh])
  · intro k hk
    rcases hqueue k hk with hk | rfl
    · exact status_closed (hs.queued k hk) _
    · exact status_setStatus ..
  · exact fun k hk => status_closed (hs.handled k hk) _
  · intro k hk
    obtain ⟨rfl, -⟩ := hs.conn k hk
    exact ⟨rfl, by simp⟩
  · exact fun _ => hheld.imp_right fun ⟨hb, hstopped, hmem⟩ => ⟨hb, hstopped, .inr (.inl hmem)⟩
  · exact fun _ _ => hlast
  · exact fun _ _ => hlast
  · exact fun _ _ _ => ⟨hfresh, hlast⟩
  · exact fun _ => .inl ⟨hfresh, hlast⟩
  · intro d hd hh
    rcases hclosing d hd with rfl | hh'
    · cases hh
    · exact absurd hh' (by simp [hh])
  · exact fun h => absurd hlast h

theorem core_stop (hs : Core C s) (hover : s.Over) (hconn : s.connection = none)
    (hclosing : ∀ d, D d → d = .terminate ∨ s.Over) : Core D { s with stopped := true } :=
  ⟨hs.past, hs.next, hs.fresh, hs.queued, hs.handled, hs.conn, fun h => absurd hconn h, hs.ended,
    fun _ _ => hover.2, fun d hd hne => (hclosing d hd).resolve_left hne, fun _ => .inl hover,
    fun _ _ _ => hconn, fun h => absurd hover.2 h⟩

/-- The work thread has been joined. -/
theorem core_join (hs : Core C s) (hj : s.joins = true) (hclosing : ∀ d, D d → d ≠ .terminate → s.Over)
    (hterminating : D .terminate → C .terminate)
    (hbare : ∀ d, D d → d.holding = false → s.connection = none)
    (hheld : s.connection ≠ none → (∃ d, C d ∧ d.holding) → ∃ d, D d ∧ d.holding) :
    Core D { s with work := .none } := by
  have hidle : s.work.busy = false ∧ s.work.fresh = false := by
    simp only [State.joins, decide_eq_true_eq] at hj
    rcases hj with hw | hw <;> exact ⟨by rw [hw]; rfl, by rw [hw]; rfl⟩
  have hended := hs.ended hidle.1 hidle.2
  constructor
  · exact hs.past
  · exact hs.next
  · exact nofun
  · exact hs.queued
  · exact nofun
  · exact hs.conn
  · intro hne
    rcases hs.held hne with hhold | ⟨hbusy, -⟩
    · exact .inl (hheld hne hhold)
    · exact absurd hbusy (by simp [hidle.1])
  · exact fun _ _ => hended
  · exact nofun
  · exact fun d hd hne => ⟨rfl, (hclosing d hd hne).2⟩
  · exact fun hd => (hs.terminating (hterminating hd)).imp_left fun hover => ⟨rfl, hover.2⟩
  · exact hbare
  · exact hs.linked

/-- One step of `real_close`, with the join and `on_close`, of one thread. -/
theorem core_closing (hs : Core C s) (hc : C c) (h : s.stepClosing inline c = some (t, c'))
    (hold : ∀ d, D d → C d ∨ c' = some d) (hkeep : ∀ d, C d → D d ∨ d = c)
    (hnew : ∀ d, c' = some d → D d) : Core D t := by
  have hover (hnext : ∀ d, c' = some d → d ≠ .terminate → s.Over) :
      ∀ d, D d → d ≠ .terminate → s.Over := fun d hd hne =>
    (hold d hd).elim (fun hd => hs.closing d hd hne) fun hd => hnext d hd hne
  have hbare (hnext : ∀ d, c' = some d → d.holding = false → s.connection = none) :
      ∀ d, D d → d.holding = false → s.connection = none := fun d hd hh =>
    (hold d hd).elim (fun hd => hs.bare d hd hh) fun hd => hnext d hd hh
  have hheld (hnext : c.holding → s.connection ≠ none → ∃ d, c' = some d ∧ d.holding) :
      s.connection ≠ none → (∃ d, C d ∧ d.holding) → ∃ d, D d ∧ d.holding := by
    rintro hne ⟨d, hd, hh⟩
    rcases hkeep d hd with hd | rfl
    · exact ⟨d, hd, hh⟩
    · obtain ⟨d', hd', hh'⟩ := hnext hh hne
      exact ⟨d', hnew d' hd', hh'⟩
  have hhold (hne : s.connection ≠ none) :
      ∀ d, D d → (∀ d', c' = some d' → d'.holding = true) → d = .terminate ∨ d.holding = true := by
    intro d hd hnext
    rcases hold d hd with hd | hd
    · right
      by_contra hh
      exact hne (hs.bare d hd (by simpa using hh))
    · exact .inr (hnext d hd)
  cases State.effect_of_closing h with
  | unset hconn =>
    have hend : s.Over := (hs.terminating hc).resolve_right (by simp [hconn])
    exact hs.move rfl rfl rfl rfl rfl rfl (hover fun _ _ _ => hend) (fun _ => hc)
      (fun _ _ _ => hconn) fun hne => absurd hconn hne
  | ended k hconn hclosed =>
    obtain ⟨rfl, -⟩ := hs.conn k hconn
    have hend : s.Over := ⟨hs.not_fresh hconn, .inr hclosed⟩
    refine hs.move rfl rfl rfl rfl rfl rfl (hover fun _ _ _ => hend) (fun _ => hc)
      (hbare fun d hd hh => ?_) (hheld fun _ _ => ⟨_, rfl, rfl⟩)
    cases hd
    cases hh
  | inlined k hconn =>
    obtain ⟨rfl, -⟩ := hs.conn k hconn
    refine core_closed hs (hs.not_fresh hconn) s.queue (fun _ hk => .inl hk) (fun d hd => ?_)
      (.inl ⟨_, hnew _ rfl, rfl⟩)
    refine hhold (by simp [hconn]) d hd fun d' hd' => ?_
    cases hd'
    rfl
  | queued k hconn =>
    obtain ⟨rfl, -⟩ := hs.conn k hconn
    refine core_closed hs (hs.not_fresh hconn) _ (fun j hj => ?_) (fun d hd => ?_)
      (.inl ⟨_, hnew _ rfl, rfl⟩)
    · simpa using hj
    · refine hhold (by simp [hconn]) d hd fun d' hd' => ?_
      cases hd'
      rfl
  | own => exact hs.reset (hs.closing _ hc nofun)
  | foreign =>
    have hend := hs.closing _ hc nofun
    refine hs.move rfl rfl rfl rfl rfl rfl (hover fun _ _ _ => hend) (fun hd => ?_)
      (hbare fun d hd hh => ?_) (hheld fun _ _ => ⟨_, rfl, rfl⟩)
    · exact (hold _ hd).resolve_right nofun
    · cases hd
      cases hh
  | handlerClose =>
    have hend := hs.closing _ hc nofun
    have hmoved : Core D s := by
      refine hs.move rfl rfl rfl rfl rfl rfl (hover fun _ _ _ => hend) (fun hd => ?_)
        (hbare fun d hd hh => ?_) (hheld fun _ _ => ⟨_, rfl, rfl⟩)
      · exact (hold _ hd).resolve_right nofun
      · cases hd
        cases hh
    exact hmoved.onClose
  | reset => exact hs.reset (hs.closing _ hc nofun)
  | stop =>
    have hend := hs.closing _ hc nofun
    exact core_stop hs hend (hs.bare _ hc rfl) fun _ _ => .inr hend
  | join hj =>
    have hend := hs.closing _ hc nofun
    refine core_join hs hj (hover fun _ _ _ => hend) (fun hd => ?_) (fun _ _ _ => hs.bare _ hc rfl)
      fun hne => absurd (hs.bare _ hc rfl) hne
    exact (hold _ hd).resolve_right nofun
  | notify =>
    have hend := hs.closing _ hc nofun
    have hconn := hs.bare _ hc rfl
    have hmoved : Core D s :=
      hs.move rfl rfl rfl rfl rfl rfl (hover fun _ _ _ => hend)
        (fun hd => (hold _ hd).resolve_right nofun) (fun _ _ _ => hconn) fun hne => absurd hconn hne
    exact hmoved.onClose

/-! ### The work thread -/

/-- The work thread goes on between `real_connect` and the end of `run`. -/
theorem Core.busy (hs : Core C s) (hb : s.work.busy) {w : WorkThread} (hw : w.busy)
    (hhandler : ∀ k, w = .handler k → s.status k = .closed)
    (hheld : s.work = .handler s.threads → s.connection = some s.threads → w = .handler s.threads) :
    Core C { s with work := w } := by
  have hidle : w.fresh = false := by
    cases w <;> first | rfl | cases hw
  refine ⟨hs.past, hs.next, fun h => absurd h (by simp [hidle]), hs.queued, hhandler, hs.conn, ?_, ?_,
    fun _ => hs.stopped hb, fun d hd hne => ⟨hidle, (hs.closing d hd hne).2⟩,
    fun hd => (hs.terminating hd).imp_left fun hover => ⟨hidle, hover.2⟩, hs.bare, hs.linked⟩
  · intro hne
    refine (hs.held hne).imp_right fun ⟨_, hstopped, hwhere⟩ => ⟨hw, hstopped, ?_⟩
    refine hwhere.imp_right fun hwhere => hwhere.imp_right fun hat => hheld hat ?_
    obtain ⟨k, hk⟩ := Option.ne_none_iff_exists'.mp hne
    rw [hk, (hs.conn k hk).1]
  · exact fun h => absurd hw (by simp [h])

theorem core_return (hs : Core C s) (hw : s.work = .run)
    (h : s.stopped ∨ s.queue = [] ∧ s.Ended s.threads) :
    Core C { s with stopped := true, work := .returned } := by
  have hbusy : s.work.busy = true := by rw [hw]; rfl
  have hended : s.Ended s.threads := by
    rcases h with h | ⟨-, h⟩
    · exact hs.stopped hbusy h
    · exact h
  refine ⟨hs.past, hs.next, nofun, hs.queued, nofun, hs.conn, fun hne => ?_, fun _ _ => hended, nofun,
    fun _ _ _ => ⟨rfl, hended⟩, fun _ => .inl ⟨rfl, hended⟩, hs.bare, hs.linked⟩
  refine (hs.held hne).imp_right fun ⟨_, hstopped, hwhere⟩ => ?_
  obtain ⟨k, hk⟩ := Option.ne_none_iff_exists'.mp hne
  obtain ⟨rfl, habsent⟩ := hs.conn k hk
  rcases h with h | ⟨hqueue, hend⟩
  · simp [hstopped] at h
  · rw [hw, hqueue] at hwhere
    rcases hwhere with hopen | hmem | hat
    · exact absurd (hend.resolve_left habsent) hopen
    · cases hmem
    · cases hat

theorem core_work (hs : Core C s) (h : s.stepWork = some t) : Core C t := by
  have hrun (hb : s.work.busy) (hne : ∀ k, s.work ≠ .handler k) : Core C { s with work := .run } :=
    hs.busy hb rfl nofun fun heq => absurd heq (hne _)
  cases State.effect_of_work h with
  | start hw =>
    have hnone := hs.fresh_none (by rw [hw]; rfl)
    refine ⟨hs.past, hs.next, fun _ => hs.fresh (by rw [hw]; rfl), hs.queued, nofun, hs.conn,
      fun hne => absurd hnone.1 hne, nofun, nofun, fun d hd => absurd hd (hnone.2 d),
      fun hd => absurd hd (hnone.2 _), hs.bare, hs.linked⟩
  | refused hw => exact (hrun (by rw [hw]; rfl) (by simp [hw])).onClose
  | openedOwn hw => exact hs.busy (by rw [hw]; rfl) rfl nofun fun heq => by simp [hw] at heq
  | openedForeign hw => exact hrun (by rw [hw]; rfl) (by simp [hw])
  | connected hw =>
    exact (hrun (by rw [hw]; rfl) (by simp [hw])).of_same rfl rfl rfl rfl rfl rfl
  | message packet binary hw =>
    exact (hrun (by rw [hw]; rfl) (by simp [hw])).of_same rfl rfl rfl rfl rfl rfl
  | own k hw hconn =>
    have hover : s.Over := by
      refine ⟨by rw [hw]; rfl, .inr ?_⟩
      rw [← (hs.conn k hconn).1]
      exact hs.handled k hw
    have hreset : Core C { s with connection := none } := hs.reset hover
    have hb : s.work.busy = true := by rw [hw]; rfl
    exact hreset.busy hb rfl nofun fun _ => nofun
  | foreign k hw hconn =>
    refine hs.busy (by rw [hw]; rfl) rfl nofun fun heq heq' => ?_
    rw [hw] at heq
    cases heq
    exact absurd heq' hconn
  | closed hw => exact (hrun (by rw [hw]; rfl) (by simp [hw])).onClose
  | leave hw hends => exact core_return hs hw hends

/-- The running attempt's connection is not closed, so it goes on to `st`. -/
theorem core_status (hs : Core C s) (hb : s.work.busy) (hopen : ¬ s.Ended s.threads) {st : Status}
    (hst : st ≠ .absent ∧ st ≠ .closed) : Core C (s.setStatus s.threads st) := by
  have hstopped := hs.running hopen hb
  have hne : ∀ k, s.status k = .closed → k ≠ s.threads := by
    rintro k hk rfl
    exact hopen (.inr hk)
  have hfresh : s.work.fresh = false := by
    cases hw : s.work <;> first | rfl | (rw [hw] at hb; cases hb)
  constructor
  · intro k (hk : k < s.threads)
    exact (ended_of_ne (Nat.ne_of_lt hk) _).mpr (hs.past k hk)
  · intro k (hk : s.threads < k)
    exact (status_of_ne (Nat.ne_of_gt hk) _).trans (hs.next k hk)
  · exact fun h => absurd h (by simp [State.setStatus, hfresh])
  · exact fun k hk => (status_of_ne (hne k (hs.queued k hk)) _).trans (hs.queued k hk)
  · exact fun k hk => (status_of_ne (hne k (hs.handled k hk)) _).trans (hs.handled k hk)
  · intro k hk
    obtain ⟨rfl, -⟩ := hs.conn k hk
    exact ⟨rfl, by simpa using hst.1⟩
  · exact fun _ => .inr ⟨hb, hstopped, .inl (by simpa [State.setStatus] using hst.2)⟩
  · exact fun h => absurd hb (by simpa [State.setStatus] using h)
  · exact fun _ h => absurd h (by simp [State.setStatus, hstopped])
  · exact fun d hd hne => absurd (hs.not_closing hopen hd) hne
  · exact fun hd => .inr ((hs.terminating hd).resolve_left fun hover => hopen hover.2)
  · exact hs.bare
  · exact fun _ => hs.linked hopen

theorem not_ended {st : Status} (hst : st ≠ .absent ∧ st ≠ .closed) (h : s.status k = st) :
    ¬ s.Ended k := by
  unfold State.Ended
  rw [h]
  exact not_or.mpr hst

theorem core_realConnect (hs : Core C s) (hw : s.work = .connect) (failure : Option String) :
    Core C (s.realConnect failure) := by
  have hfresh : s.work.fresh = true := by rw [hw]; rfl
  obtain ⟨hconn, hnone⟩ := hs.fresh_none hfresh
  have habsent := hs.fresh hfresh
  cases failure with
  | some message =>
    refine ⟨hs.past, hs.next, nofun, hs.queued, nofun, hs.conn, fun hne => absurd hconn hne,
      fun _ _ => .inl habsent, fun _ => nofun, fun d hd => absurd hd (hnone d),
      fun hd => absurd hd (hnone _), hs.bare, hs.linked⟩
  | none =>
    have hne : ∀ k, s.status k = .closed → k ≠ s.threads := by
      rintro k hk rfl
      rw [habsent] at hk
      cases hk
    constructor
    · intro k (hk : k < s.threads)
      exact (ended_of_ne (s := s) (Nat.ne_of_lt hk) _).mpr (hs.past k hk)
    · intro k (hk : s.threads < k)
      exact (status_of_ne (s := s) (Nat.ne_of_gt hk) _).trans (hs.next k hk)
    · exact nofun
    · exact fun k hk => (status_of_ne (s := s) (hne k (hs.queued k hk)) _).trans (hs.queued k hk)
    · exact nofun
    · intro k hk
      cases hk
      exact ⟨rfl, by simp [State.realConnect, State.setStatus]⟩
    · exact fun _ => .inr ⟨rfl, rfl, .inl (by simp [State.realConnect, State.setStatus])⟩
    · exact nofun
    · exact fun _ => nofun
    · exact fun d hd => absurd hd (hnone d)
    · exact fun hd => absurd hd (hnone _)
    · exact fun d hd => absurd hd (hnone d)
    · exact fun _ => rfl

theorem core_handle (hs : Core C s) (hw : s.work = .run) {i k : Nat} (hk : s.queue[i]? = some k) :
    Core C { s with queue := s.queue.eraseIdx i, work := .handler k } := by
  have hb : s.work.busy = true := by rw [hw]; rfl
  have hclosed := hs.queued k (List.mem_of_getElem? hk)
  refine ⟨hs.past, hs.next, nofun, fun j hj => hs.queued j (List.mem_of_mem_eraseIdx hj), ?_, hs.conn, ?_,
    nofun, fun _ => hs.stopped hb, fun d hd hne => ⟨rfl, (hs.closing d hd hne).2⟩,
    fun hd => (hs.terminating hd).imp_left fun hover => ⟨rfl, hover.2⟩, hs.bare, hs.linked⟩
  · rintro j ⟨⟩
    exact hclosed
  · intro hne
    refine (hs.held hne).imp_right fun ⟨_, hstopped, hwhere⟩ => ⟨rfl, hstopped, ?_⟩
    rcases hwhere with hopen | hmem | hat
    · exact .inl hopen
    · by_cases heq : k = s.threads
      · exact .inr (.inr (by rw [heq]))
      · exact .inr (.inl (Index.mem_eraseIdx_of_ne hk hmem (Ne.symm heq)))
    · rw [hw] at hat
      cases hat

/-! ### Steps -/

structure Sound (s : State) : Prop where
  core : Core s.At s
  apart : s.exit.tested → s.event.inner = false
  halted : s.exit ≠ .none → s.running = false
  start : s.event = .connectStart → s.work = .none ∧ s.connection = none
  notify : s.event = .connectClose .notify → s.work = .none

/-- `exit` tests the connection only while the event thread is not inside `do_connect`. -/
def Apart (s : State) : Action → Prop
  | .exit => s.exit = .closeTest → s.event.inner = false
  | _ => True

instance (s : State) (a : Action) : Decidable (Apart s a) := by
  unfold Apart
  split <;> infer_instance

theorem sound_initial : Sound initial :=
  ⟨core_initial.congr (by simp [State.At, initial, EventThread.closes]), nofun, nofun, nofun, nofun⟩

theorem at_congr (hevent : t.event = s.event) (hexit : t.exit = s.exit) (c : Closing) :
    t.At c ↔ s.At c := by
  unfold State.At
  rw [hevent, hexit]

/-- A step that is none of the event thread's and none of `exit`'s. -/
theorem Sound.of_core (hs : Sound s) (hcore : Core s.At t) (hevent : t.event = s.event)
    (hexit : t.exit = s.exit) (hrunning : t.running = s.running)
    (hwork : s.work ≠ .none ∨ t.work = s.work ∧ t.connection = s.connection) : Sound t := by
  refine ⟨hcore.congr (at_congr hevent hexit), ?_, ?_, ?_, ?_⟩
  · rw [hevent, hexit]
    exact hs.apart
  · rw [hexit, hrunning]
    exact hs.halted
  · rw [hevent]
    intro h
    obtain ⟨hnone, hconn⟩ := hs.start h
    obtain ⟨hw, hc⟩ := hwork.resolve_left (not_not.mpr hnone)
    exact ⟨hw.trans hnone, hc.trans hconn⟩
  · rw [hevent]
    intro h
    have hnone := hs.notify h
    exact (hwork.resolve_left (not_not.mpr hnone)).1.trans hnone

/-- What `real_close` leaves to its thread. -/
theorem stepClosing_same (h : s.stepClosing inline c = some (t, c')) :
    t.event = s.event ∧ t.exit = s.exit ∧ t.running = s.running ∧ t.eventList = s.eventList ∧
      t.calls = s.calls ∧ t.threads = s.threads ∧ t.log = s.log := by
  have honClose : ∀ s : State, s.onClose.event = s.event ∧ s.onClose.exit = s.exit ∧
      s.onClose.running = s.running ∧ s.onClose.eventList = s.eventList ∧
      s.onClose.calls = s.calls ∧ s.onClose.threads = s.threads ∧ s.onClose.log = s.log := by
    intro s
    unfold State.onClose
    split <;> exact ⟨rfl, rfl, rfl, rfl, rfl, rfl, rfl⟩
  cases State.effect_of_closing h with
  | handlerClose | notify => exact honClose s
  | _ => exact ⟨rfl, rfl, rfl, rfl, rfl, rfl, rfl⟩

/-- A thread finds the connection open and begins to close it. -/
theorem core_enter (hs : Core C s) (h : s.isConnected = true) (hC : ∀ d, C d → D d)
    (hD : ∀ d, D d → C d ∨ d = .terminate) : Core D s := by
  have hconn := (hs.of_connected h).1
  refine ⟨hs.past, hs.next, hs.fresh, hs.queued, hs.handled, hs.conn, fun hne => ?_, hs.ended, hs.stopped,
    fun d hd hne => hs.closing d ((hD d hd).resolve_right hne) hne, fun _ => .inr hconn,
    fun d hd hh => ?_, hs.linked⟩
  · exact (hs.held hne).imp_left fun ⟨d, hd, hh⟩ => ⟨d, hC d hd, hh⟩
  · rcases hD d hd with hd | rfl
    · exact hs.bare d hd hh
    · cases hh

theorem onClose_same (s : State) : s.onClose.event = s.event ∧ s.onClose.exit = s.exit ∧
    s.onClose.running = s.running ∧ s.onClose.eventList = s.eventList ∧ s.onClose.calls = s.calls ∧
    s.onClose.threads = s.threads ∧ s.onClose.log = s.log ∧ s.onClose.work = s.work ∧
    s.onClose.connection = s.connection ∧ s.onClose.status = s.status := by
  unfold State.onClose
  split <;> exact ⟨rfl, rfl, rfl, rfl, rfl, rfl, rfl, rfl, rfl, rfl⟩

theorem stepWork_same (h : s.stepWork = some t) :
    t.event = s.event ∧ t.exit = s.exit ∧ t.running = s.running ∧ s.work ≠ .none := by
  cases State.effect_of_work h with
  | refused hw | closed hw =>
    obtain ⟨hevent, hexit, hrunning, -⟩ := onClose_same { s with work := .run }
    exact ⟨hevent, hexit, hrunning, by simp [hw]⟩
  | start hw | openedOwn hw | openedForeign hw | connected hw | leave hw =>
    exact ⟨rfl, rfl, rfl, by simp [hw]⟩
  | message packet binary hw => exact ⟨rfl, rfl, rfl, by simp [hw]⟩
  | own k hw | foreign k hw => exact ⟨rfl, rfl, rfl, by simp [hw]⟩

/-- Joining leaves no pointer behind, unless a thread is about to reset it. -/
theorem Core.joined (hs : Core C s) (hj : s.joins = true) (hnone : ∀ c, ¬ C c) :
    s.connection = none := by
  by_contra hne
  rcases hs.held hne with ⟨c, hc, -⟩ | ⟨hbusy, -⟩
  · exact hnone c hc
  · simp only [State.joins, decide_eq_true_eq] at hj
    rcases hj with hw | hw <;> simp [hw, WorkThread.busy] at hbusy

theorem core_start (hs : Core C s) (hw : s.work = .none) (hconn : s.connection = none)
    (hnone : ∀ c, ¬ C c) : Core C { s with threads := s.threads + 1, work := .start } := by
  have hended := hs.ended (by rw [hw]; rfl) (by rw [hw]; rfl)
  refine ⟨fun k hk => ?_, fun k hk => hs.next k (Nat.lt_of_succ_lt hk),
    fun _ => hs.next _ (Nat.lt_succ_self _), hs.queued, nofun, fun k hk => ?_, fun hne => absurd hconn hne, nofun, nofun,
    fun d hd => absurd hd (hnone d), fun hd => absurd hd (hnone _), fun d hd => absurd hd (hnone d),
    fun h => absurd (.inl (hs.next _ (Nat.lt_succ_self _))) h⟩
  · rcases Nat.lt_or_eq_of_le (Nat.le_of_lt_succ hk) with hlt | rfl
    · exact hs.past k hlt
    · exact hended
  · rw [hconn] at hk
    cases hk

/-- The event thread goes on outside `real_close`. -/
theorem Sound.turn (hs : Sound s) (hnone : s.event.closes = none) (event : EventThread)
    (hevent : event.closes = none) (hinner : s.exit.tested → event.inner = false)
    (hstart : event ≠ .connectStart) (eventList : List Bool) :
    Sound { s with eventList := eventList, event := event } := by
  refine ⟨?_, hinner, hs.halted, fun h => absurd h hstart, fun h => ?_⟩
  · have hcore : Core s.At { s with eventList := eventList, event := event } :=
      hs.core.of_same rfl rfl rfl rfl rfl rfl
    exact hcore.congr fun c => by simp [State.At, hnone, hevent]
  · have hcloses : event = .connectClose .notify := h
    rw [hcloses] at hevent
    cases hevent

theorem Sound.onClose (hs : Sound s) : Sound s.onClose := by
  obtain ⟨hevent, hexit, hrunning, -, -, -, -, hwork, hconn, -⟩ := onClose_same s
  exact hs.of_core hs.core.onClose hevent hexit hrunning (.inr ⟨hwork, hconn⟩)

theorem Sound.untested (hs : Sound s) (h : s.event.inner = true) : s.exit.tested = false := by
  by_contra hne
  simp [hs.apart (by simpa using hne)] at h

theorem core_event_closing (hs : Core s.At s) (hc : s.event.closes = some c)
    (h : s.stepClosing inline c = some (t, c')) {event : EventThread} (hevent : event.closes = c') :
    Core (State.At { t with event := event }) { t with event := event } := by
  have hexit := (stepClosing_same h).2.1
  have hmoved : Core (State.At { t with event := event }) t := by
    refine core_closing hs (.inl hc) h (fun d hd => ?_) (fun d hd => ?_) fun d hd => ?_
    · rcases hd with hd | hd
      · exact .inr (hevent.symm.trans hd)
      · exact .inl (.inr (hexit.symm.trans hd))
    · rcases hd with hd | hd
      · exact .inr (Option.some.inj (hd.symm.trans hc))
      · exact .inl (.inr (hexit.trans hd))
    · exact .inl (hevent.trans hd)
  exact hmoved.of_same rfl rfl rfl rfl rfl rfl

theorem notify_of_none (h : s.stepClosing inline c = some (t, none)) :
    c = .notify ∧ t = s.onClose := by
  cases State.effect_of_closing h with
  | notify => exact ⟨rfl, rfl⟩

theorem work_of_notify (h : s.stepClosing inline c = some (t, some .notify)) : t.work = .none := by
  cases State.effect_of_closing h with
  | join => rfl

/-- The event thread finds the connection open and begins to close it. -/
theorem sound_enter (hs : Sound s) (hnone : s.event.closes = none) (hconn : s.isConnected = true)
    (event : EventThread) (hevent : event.closes = some .terminate)
    (hinner : s.exit.tested → event.inner = false) : Sound { s with event := event } := by
  have hcore : Core (State.At { s with event := event }) s := by
    refine core_enter hs.core hconn (fun d hd => ?_) (fun d hd => ?_)
    · exact hd.imp_left fun h => absurd h (by simp [hnone])
    · rcases hd with hd | hd
      · exact .inr (Option.some.inj (hevent.symm.trans hd)).symm
      · exact .inl (.inr hd)
  refine ⟨hcore.of_same rfl rfl rfl rfl rfl rfl, hinner, hs.halted, fun heq => ?_, fun heq => ?_⟩
  · have hstart : event = .connectStart := heq
    rw [hstart] at hevent
    cases hevent
  · have hnotify : event = .connectClose .notify := heq
    rw [hnotify] at hevent
    cases hevent

/-- The event thread is in `real_close`, or behind it. -/
theorem sound_event_closing (hs : Sound s) (hc : s.event.closes = some c)
    (h : s.stepClosing inline c = some (t, c')) (event : EventThread) (hevent : event.closes = c')
    (hinner : s.exit.tested → event.inner = false)
    (hstart : event = .connectStart → s.event = .connectClose c ∧ c' = none)
    (hnotify : event = .connectClose .notify → c' = some .notify) :
    Sound { t with event := event } := by
  obtain ⟨-, hexit, hrunning, -⟩ := stepClosing_same h
  refine ⟨core_event_closing hs.core hc h hevent, ?_, ?_, fun heq => ?_, fun heq => ?_⟩
  · rwa [hexit]
  · rw [hexit, hrunning]
    exact hs.halted
  · obtain ⟨hat, rfl⟩ := hstart heq
    obtain ⟨rfl, rfl⟩ := notify_of_none h
    obtain ⟨-, -, -, -, -, -, -, hwork, hconn, -⟩ := onClose_same s
    exact ⟨hwork.trans (hs.notify hat), hconn.trans (hs.core.bare _ (.inl hc) rfl)⟩
  · obtain rfl := hnotify heq
    show t.work = .none
    exact work_of_notify h

/-- Inside `do_connect` no other thread is in `real_close`. -/
theorem Sound.not_at (hs : Sound s) (hnone : s.event.closes = none) (hinner : s.event.inner = true)
    (c : Closing) : ¬ s.At c := by
  rintro (h | h)
  · rw [hnone] at h
    cases h
  · have htested := hs.untested hinner
    rw [h] at htested
    cases htested

theorem sound_connectJoin (hs : Sound s) (hevent : s.event = .connectJoin) (hj : s.joins = true) :
    Sound { s with work := .none, event := .connectStart } := by
  have hnone : s.event.closes = none := by rw [hevent]; rfl
  have hinner : s.event.inner = true := by rw [hevent]; rfl
  have hat := hs.not_at hnone hinner
  have hconn := hs.core.joined hj hat
  refine ⟨?_, fun h => ?_, hs.halted, fun _ => ⟨rfl, hconn⟩, nofun⟩
  · have hcore : Core s.At { s with work := .none } :=
      core_join hs.core hj (fun d hd => absurd hd (hat d)) id (fun _ _ _ => hconn) fun _ => id
    have hsame : Core s.At { s with work := .none, event := .connectStart } :=
      hcore.of_same rfl rfl rfl rfl rfl rfl
    exact hsame.congr fun c => by simp [State.At, hevent, EventThread.closes]
  · have htested : s.exit.tested = true := h
    simp [hs.untested hinner] at htested

theorem sound_connectStart (hs : Sound s) (hevent : s.event = .connectStart) :
    Sound { s with threads := s.threads + 1, work := .start, event := .idle } := by
  have hnone : s.event.closes = none := by rw [hevent]; rfl
  obtain ⟨hw, hconn⟩ := hs.start hevent
  refine ⟨?_, fun _ => rfl, hs.halted, nofun, nofun⟩
  have hcore := core_start hs.core hw hconn (hs.not_at hnone (by rw [hevent]; rfl))
  have hsame : Core s.At { s with threads := s.threads + 1, work := .start, event := .idle } :=
    hcore.of_same rfl rfl rfl rfl rfl rfl
  exact hsame.congr fun c => by simp [State.At, hevent, EventThread.closes]

theorem sound_event (hs : Sound s) (h : s.stepEvent inline = some t) : Sound t := by
  cases State.effect_of_event h with
  | take event rest hevent =>
    have hnone : s.event.closes = none := by rw [hevent]; rfl
    cases event with
    | true => exact hs.turn hnone .connect rfl (fun _ => rfl) nofun rest
    | false => exact hs.turn hnone .closeTest rfl (fun _ => rfl) nofun rest
  | halt hevent => exact hs.turn (by rw [hevent]; rfl) .returned rfl (fun _ => rfl) nofun s.eventList
  | connect hevent hrunning =>
    refine hs.turn (by rw [hevent]; rfl) .connectTest rfl (fun htested => ?_) nofun s.eventList
    have hexit : s.exit ≠ .none := by
      intro heq
      rw [heq] at htested
      cases htested
    simp [hs.halted hexit] at hrunning
  | connectHalted hevent =>
    exact hs.turn (by rw [hevent]; rfl) .connectOff rfl (fun _ => rfl) nofun s.eventList
  | connectOff hevent =>
    have hidle := hs.turn (by rw [hevent]; rfl) .idle rfl (fun _ => rfl) nofun s.eventList
    have hset : Sound { s with callback := true, event := .idle } :=
      hidle.of_core (hidle.core.of_same rfl rfl rfl rfl rfl rfl) rfl rfl rfl (.inr ⟨rfl, rfl⟩)
    exact hset.onClose
  | connectOpen hevent hconn =>
    have htested := hs.untested (by rw [hevent]; rfl)
    exact sound_enter hs (by rw [hevent]; rfl) hconn _ rfl fun h => absurd h (by simp [htested])
  | connectShut hevent =>
    have htested := hs.untested (by rw [hevent]; rfl)
    exact hs.turn (by rw [hevent]; rfl) .connectJoin rfl (fun h => absurd h (by simp [htested])) nofun
      s.eventList
  | connectGoes c d u hevent hu =>
    have htested := hs.untested (by rw [hevent]; rfl)
    exact sound_event_closing hs (by rw [hevent]; rfl) hu _ rfl (fun h => absurd h (by simp [htested]))
      nofun (by simp)
  | connectDone c u hevent hu =>
    have htested := hs.untested (by rw [hevent]; rfl)
    exact sound_event_closing hs (by rw [hevent]; rfl) hu _ rfl (fun h => absurd h (by simp [htested]))
      (fun _ => ⟨hevent, rfl⟩) nofun
  | connectJoin hevent hj => exact sound_connectJoin hs hevent hj
  | connectStart hevent => exact sound_connectStart hs hevent
  | closeOpen hevent hconn =>
    exact sound_enter hs (by rw [hevent]; rfl) hconn _ rfl fun _ => rfl
  | closeShut hevent => exact hs.turn (by rw [hevent]; rfl) .idle rfl (fun _ => rfl) nofun s.eventList
  | closeGoes c d u hevent hu | closeDone c u hevent hu =>
    exact sound_event_closing hs (by rw [hevent]; rfl) hu _ rfl (fun _ => rfl) nofun nofun

theorem sound_exit_closing (hs : Sound s) (hexit : s.exit = .close c)
    (h : s.stepClosing inline c = some (t, c')) (exit : ExitThread)
    (hnext : (∀ d, exit = .close d ↔ c' = some d) ∧ exit ≠ .none) : Sound { t with exit := exit } := by
  have hinner := hs.apart (by rw [hexit]; rfl)
  have hhalted := hs.halted (by simp [hexit])
  obtain ⟨hevent, -, hrunning, -⟩ := stepClosing_same h
  refine ⟨?_, fun _ => hevent.symm ▸ hinner, fun _ => hrunning.trans hhalted, fun heq => ?_, fun heq => ?_⟩
  · have hcore : Core (State.At { t with exit := exit }) t := by
      refine core_closing hs.core (.inr hexit) h (fun d hd => ?_) (fun d hd => ?_) fun d hd => ?_
      · rcases hd with hd | hd
        · exact .inl (.inl (hevent ▸ hd))
        · exact .inr ((hnext.1 d).mp hd)
      · rcases hd with hd | hd
        · exact .inl (.inl (hevent.symm ▸ hd))
        · rw [hexit] at hd
          cases hd
          exact .inr rfl
      · exact .inr ((hnext.1 d).mpr hd)
    exact hcore.of_same rfl rfl rfl rfl rfl rfl
  · have hat : s.event = .connectStart := hevent.symm.trans heq
    simp [hat, EventThread.inner] at hinner
  · have hat : s.event = .connectClose .notify := hevent.symm.trans heq
    simp [hat, EventThread.inner] at hinner

theorem sound_exit (hs : Sound s) (hg : Apart s .exit) (h : s.stepExit inline = some t) : Sound t := by
  cases State.effect_of_exit h with
  | call hexit =>
    refine ⟨?_, nofun, fun _ => rfl, hs.start, hs.notify⟩
    have hcore : Core s.At { s with running := false, exit := .closeTest } :=
      hs.core.of_same rfl rfl rfl rfl rfl rfl
    exact hcore.congr fun c => by simp [State.At, hexit]
  | closeOpen hexit hconn =>
    refine ⟨?_, fun _ => hg hexit, fun _ => hs.halted (by simp [hexit]), hs.start, hs.notify⟩
    have hcore : Core (State.At { s with exit := .close .terminate }) s := by
      refine core_enter hs.core hconn (fun d hd => ?_) (fun d hd => ?_)
      · exact hd.imp_right fun h => by simp [hexit] at h
      · rcases hd with hd | hd
        · exact .inl (.inl hd)
        · cases hd
          exact .inr rfl
    exact hcore.of_same rfl rfl rfl rfl rfl rfl
  | closeShut hexit =>
    refine ⟨?_, fun _ => hg hexit, fun _ => hs.halted (by simp [hexit]), hs.start, hs.notify⟩
    have hcore : Core s.At { s with exit := .joinEvent } := hs.core.of_same rfl rfl rfl rfl rfl rfl
    exact hcore.congr fun c => by simp [State.At, hexit]
  | closeGoes c d u hexit hu | closeDone c u hexit hu =>
    exact sound_exit_closing hs hexit hu _ (by simp)
  | joinEvent hexit =>
    have hinner := hs.apart (by rw [hexit]; rfl)
    refine ⟨?_, fun _ => hinner, fun _ => hs.halted (by simp [hexit]), hs.start, hs.notify⟩
    have hcore : Core s.At { s with exit := .joinWork } := hs.core.of_same rfl rfl rfl rfl rfl rfl
    exact hcore.congr fun c => by simp [State.At, hexit]
  | joinWork hexit hj =>
    have hinner := hs.apart (by rw [hexit]; rfl)
    refine ⟨?_, fun _ => hinner, fun _ => hs.halted (by simp [hexit]), fun h => ?_, fun h => ?_⟩
    · have hcore := core_join (D := s.At) hs.core hj hs.core.closing id hs.core.bare fun _ => id
      have hsame : Core s.At { s with
          work := .none
          eventList := []
          callbackList := []
          callback := false
          exit := .returned } :=
        hcore.of_same rfl rfl rfl rfl rfl rfl
      exact hsame.congr fun c => by simp [State.At, hexit]
    · have hevent : s.event = .connectStart := h
      simp [hevent, EventThread.inner] at hinner
    · rfl

theorem sound_step (hs : Sound s) (hg : Apart s a) (h : step inline s a = some t) : Sound t := by
  cases effect_of_step h with
  | connect | close | callback =>
    exact hs.of_core (hs.core.of_same rfl rfl rfl rfl rfl rfl) rfl rfl rfl (.inr ⟨rfl, rfl⟩)
  | exit _ hu => exact sound_exit hs hg hu
  | event _ hu => exact sound_event hs hu
  | work _ hu =>
    obtain ⟨hevent, hexit, hrunning, hw⟩ := stepWork_same hu
    exact hs.of_core (core_work hs.core hu) hevent hexit hrunning (.inl hw)
  | realConnect failure hw =>
    have hne : s.work ≠ .none := by simp [hw]
    exact hs.of_core (core_realConnect hs.core hw failure) (by cases failure <;> rfl)
      (by cases failure <;> rfl) (by cases failure <;> rfl) (.inl hne)
  | opened hw _ hst =>
    have hb : s.work.busy = true := by rw [hw]; rfl
    have hcore : Core s.At (s.setStatus s.threads .opened) :=
      core_status hs.core hb (not_ended (by simp) hst) (by simp)
    have hopened := hcore.busy (w := .opened) hb rfl nofun fun heq _ => by
      have hat : s.work = .handler s.threads := heq
      simp [hw] at hat
    exact hs.of_core hopened rfl rfl rfl (.inl (by simp [hw]))
  | receive packet binary hw =>
    have hcore := hs.core.busy (w := .message packet binary) (by rw [hw]; rfl) rfl nofun
      fun heq => by simp [hw] at heq
    exact hs.of_core hcore rfl rfl rfl (.inl (by simp [hw]))
  | closing hw hst =>
    have hcore : Core s.At (s.setStatus s.threads .closing) :=
      core_status hs.core (by rw [hw]; rfl) (not_ended (by simp) hst) (by simp)
    exact hs.of_core hcore rfl rfl rfl (.inl (by simp [hw]))
  | terminated hw hstopped habsent hclosed =>
    have hopen : ¬ s.Ended s.threads := not_or.mpr ⟨habsent, hclosed⟩
    have hcore := core_closed (D := s.At) hs.core (by rw [hw]; rfl) (s.queue ++ [s.threads])
      (fun k hk => by simpa using hk) (fun d hd => .inl (hs.core.not_closing hopen hd))
      (.inr ⟨by rw [hw]; rfl, hstopped, by simp⟩)
    exact hs.of_core hcore rfl rfl rfl (.inl (by simp [hw]))
  | handle i k hw _ hk =>
    exact hs.of_core (core_handle hs.core hw hk) rfl rfl rfl (.inl (by simp [hw]))

end NetworkUtility.WebsocketClient
