import NetworkUtility.WebsocketClient.Model

/-! The ping-pong thread of `WebsocketSession`, the pong handler, and a clock that does not run backwards.
Connections open, close and are replaced at any moment. The thread goes from one access of shared state
or of the clock to the next; the handler of a pong is one step. Times are far below 2 ^ 64. -/
namespace NetworkUtility.WebsocketClient

open Machine

/-- How far a connection has come. -/
def Status.rank : Status → Nat
  | .absent => 0
  | .connecting => 1
  | .opened => 2
  | .closing => 3
  | .closed => 4

/-- A ping, when it was sent and when a pong has answered it. -/
structure Ping where
  conn : Nat
  sent : Nat
  answered : Option Nat
  deriving DecidableEq, Repr

/-- Where the thread is: at its loop test, with what it read from `m_connection`, or with a connection
it has seen open: about to read the clock, behind the waits, about to set `m_recv_pong_time`, about to
ping. -/
inductive PingThread
  | idle
  | loaded (connection : Option Nat)
  | seen (conn : Nat)
  | due (conn currentTime : Nat)
  | count (conn currentTime : Nat)
  | ping (conn currentTime : Nat)
  deriving DecidableEq, Repr

namespace PingThread

def conn : PingThread → Option Nat
  | idle => none
  | loaded connection => connection
  | seen conn | due conn _ | count conn _ | ping conn _ => some conn

def time : PingThread → Option Nat
  | idle | loaded _ | seen _ => none
  | due _ time | count _ time | ping _ time => some time

end PingThread

/-- The clock, `m_connection`, the state of each connection and their number; the three times; the
thread; then history: when the count was started last, the pings, and the connections that `close()` was
called for. -/
structure Keepalive where
  now : Nat
  connection : Option Nat
  status : Nat → Status
  connections : Nat
  recvPongTime : Nat
  sendPingTime : Nat
  runCloseTime : Nat
  thread : PingThread
  counted : Nat
  pings : List Ping
  closes : List Nat

namespace Keepalive

def initial : Keepalive where
  now := 0
  connection := none
  status := fun _ => .absent
  connections := 0
  recvPongTime := 0
  sendPingTime := 0
  runCloseTime := 0
  thread := .idle
  counted := 0
  pings := []
  closes := []

/-- Time passes; `m_connection` gets a new connection or is reset; a connection changes its state; a pong
on a connection answers its pings that were sent up to a time; and the steps of the thread. -/
inductive Action
  | tick (ms : Nat)
  | replace
  | reset
  | change (k : Nat) (status : Status)
  | pong (k upTo : Nat)
  | load
  | poll
  | clock
  | test
  | count
  | ping
  deriving DecidableEq, Repr

def Ping.answer (k upTo now : Nat) (p : Ping) : Ping :=
  if p.conn = k ∧ p.sent ≤ upTo ∧ p.answered = none then { p with answered := some now } else p

/-- `send_ping_time` and `run_close_time` are forgotten where no open connection is seen. -/
def forget (s : Keepalive) : Keepalive :=
  { s with sendPingTime := 0, runCloseTime := 0, thread := .idle }

/-- A ping on a connection that is not open any more throws, and the program ends. -/
def step (s : Keepalive) : Action → Option Keepalive
  | .tick ms => some { s with now := s.now + ms }
  | .replace => some { s with connection := some s.connections, connections := s.connections + 1 }
  | .reset => some { s with connection := none }
  | .change k status =>
    if k < s.connections ∧ (s.status k).rank < status.rank then
      some { s with status := Function.update s.status k status }
    else none
  | .pong k upTo =>
    some { s with recvPongTime := s.now, pings := s.pings.map (Ping.answer k upTo s.now) }
  | .load =>
    match s.thread with
    | .idle => some { s with thread := .loaded s.connection }
    | _ => none
  | .poll =>
    match s.thread with
    | .loaded none => some s.forget
    | .loaded (some k) =>
      if s.status k = .opened then some { s with thread := .seen k } else some s.forget
    | _ => none
  | .clock =>
    match s.thread with
    | .seen k =>
      if s.now < s.sendPingTime + 500 ∨ s.now < s.runCloseTime + 3000 then
        some { s with thread := .idle }
      else some { s with thread := .due k s.now }
    | _ => none
  | .test =>
    match s.thread with
    | .due k currentTime =>
      if s.recvPongTime + 5000 < s.sendPingTime then
        some { s with runCloseTime := currentTime, closes := s.closes ++ [k], thread := .idle }
      else if s.sendPingTime = 0 then some { s with thread := .count k currentTime }
      else some { s with thread := .ping k currentTime }
    | _ => none
  | .count =>
    match s.thread with
    | .count k currentTime =>
      some { s with
        recvPongTime := currentTime
        counted := currentTime
        thread := .ping k currentTime }
    | _ => none
  | .ping =>
    match s.thread with
    | .ping k currentTime =>
      if s.status k = .opened then
        some { s with
          sendPingTime := currentTime
          pings := s.pings ++ [⟨k, s.now, none⟩]
          thread := .idle }
      else none
    | _ => none

/-- Every ping on the connection has been answered within 5000 ms, or can still be. -/
def InTime (s : Keepalive) (k : Nat) : Prop :=
  ∀ p ∈ s.pings, p.conn = k → p.answered.getD s.now ≤ p.sent + 5000

/-- `close()` has not been called for a connection whose pings are answered in time. -/
def NoFalseClose (s : Keepalive) : Prop := ∀ k, s.InTime k → k ∉ s.closes

/-- Where `close()` is next, the last ping is at most 5000 ms behind the start of the count, or behind a
ping on the connection that is looked at and is itself more than 5000 ms old. -/
def Timely (s : Keepalive) : Action → Prop
  | .test =>
    match s.thread with
    | .due k _ =>
      s.recvPongTime + 5000 < s.sendPingTime → s.sendPingTime ≤ s.counted + 5000 ∨
        ∃ p ∈ s.pings, p.conn = k ∧ p.sent + 5000 < s.now ∧ s.sendPingTime ≤ p.sent + 5000
    | _ => True
  | _ => True

instance (s : Keepalive) : ∀ a, Decidable (Timely s a)
  | .test => by
    unfold Timely
    cases s.thread <;> infer_instance
  | .tick _ | .replace | .reset | .change _ _ | .pong _ _ | .load | .poll | .clock | .count | .ping =>
    isTrue trivial

variable {s t : Keepalive} {a : Action} {as : List Action} {k : Nat} {p : Ping}

/-! ### One step -/

inductive Effect (s : Keepalive) : Action → Keepalive → Prop
  | tick (ms : Nat) : Effect s (.tick ms) { s with now := s.now + ms }
  | replace : Effect s .replace
      { s with connection := some s.connections, connections := s.connections + 1 }
  | reset : Effect s .reset { s with connection := none }
  | change (k : Nat) (status : Status) : (s.status k).rank < status.rank →
      Effect s (.change k status) { s with status := Function.update s.status k status }
  | pong (k upTo : Nat) : Effect s (.pong k upTo)
      { s with recvPongTime := s.now, pings := s.pings.map (Ping.answer k upTo s.now) }
  | load : s.thread = .idle → Effect s .load { s with thread := .loaded s.connection }
  | forget (c : Option Nat) : s.thread = .loaded c → (∀ k ∈ c, s.status k ≠ .opened) →
      Effect s .poll s.forget
  | see (k : Nat) : s.thread = .loaded (some k) → s.status k = .opened →
      Effect s .poll { s with thread := .seen k }
  | wait (k : Nat) : s.thread = .seen k → Effect s .clock { s with thread := .idle }
  | due (k : Nat) : s.thread = .seen k → s.sendPingTime + 500 ≤ s.now →
      Effect s .clock { s with thread := .due k s.now }
  | close (k c : Nat) : s.thread = .due k c → s.recvPongTime + 5000 < s.sendPingTime →
      Effect s .test { s with runCloseTime := c, closes := s.closes ++ [k], thread := .idle }
  | first (k c : Nat) : s.thread = .due k c → s.sendPingTime = 0 →
      Effect s .test { s with thread := .count k c }
  | again (k c : Nat) : s.thread = .due k c → s.sendPingTime ≠ 0 →
      Effect s .test { s with thread := .ping k c }
  | count (k c : Nat) : s.thread = .count k c →
      Effect s .count { s with recvPongTime := c, counted := c, thread := .ping k c }
  | ping (k c : Nat) : s.thread = .ping k c → s.status k = .opened →
      Effect s .ping { s with
        sendPingTime := c
        pings := s.pings ++ [⟨k, s.now, none⟩]
        thread := .idle }

theorem effect_of_step (h : s.step a = some t) : Effect s a t := by
  cases a with
  | tick ms =>
    obtain rfl := Option.some.inj h
    exact .tick ms
  | replace =>
    obtain rfl := Option.some.inj h
    exact .replace
  | reset =>
    obtain rfl := Option.some.inj h
    exact .reset
  | change k status =>
    simp only [step, Option.ite_none_right_eq_some, Option.some.injEq] at h
    obtain ⟨⟨-, hrank⟩, rfl⟩ := h
    exact .change k status hrank
  | pong k upTo =>
    obtain rfl := Option.some.inj h
    exact .pong k upTo
  | load =>
    cases hthread : s.thread with
    | idle =>
      simp only [step, hthread] at h
      obtain rfl := Option.some.inj h
      exact .load hthread
    | _ => simp [step, hthread] at h
  | poll =>
    cases hthread : s.thread with
    | loaded c =>
      cases c with
      | none =>
        simp only [step, hthread] at h
        obtain rfl := Option.some.inj h
        exact .forget none hthread nofun
      | some k =>
        simp only [step, hthread] at h
        split at h
        · next hopen =>
          obtain rfl := Option.some.inj h
          exact .see k hthread hopen
        · next hopen =>
          obtain rfl := Option.some.inj h
          refine .forget (some k) hthread fun j hj => ?_
          obtain rfl := Option.some.inj hj
          exact hopen
    | _ => simp [step, hthread] at h
  | clock =>
    cases hthread : s.thread with
    | seen k =>
      simp only [step, hthread] at h
      split at h
      · obtain rfl := Option.some.inj h
        exact .wait k hthread
      · next hwait =>
        obtain rfl := Option.some.inj h
        exact .due k hthread (by omega)
    | _ => simp [step, hthread] at h
  | test =>
    cases hthread : s.thread with
    | due k c =>
      simp only [step, hthread] at h
      split at h
      · next hlate =>
        obtain rfl := Option.some.inj h
        exact .close k c hthread hlate
      · split at h
        · next hzero =>
          obtain rfl := Option.some.inj h
          exact .first k c hthread hzero
        · next hzero =>
          obtain rfl := Option.some.inj h
          exact .again k c hthread hzero
    | _ => simp [step, hthread] at h
  | count =>
    cases hthread : s.thread with
    | count k c =>
      simp only [step, hthread] at h
      obtain rfl := Option.some.inj h
      exact .count k c hthread
    | _ => simp [step, hthread] at h
  | ping =>
    cases hthread : s.thread with
    | ping k c =>
      simp only [step, hthread, Option.ite_none_right_eq_some, Option.some.injEq] at h
      obtain ⟨hopen, rfl⟩ := h
      exact .ping k c hthread hopen
    | _ => simp [step, hthread] at h

/-! ### The times -/

/-- No time is ahead of the clock, and `m_recv_pong_time` is not behind the start of the count. -/
structure Timed (s : Keepalive) : Prop where
  recv : s.recvPongTime ≤ s.now
  counted : s.counted ≤ s.recvPongTime
  thread : ∀ c ∈ s.thread.time, 500 ≤ c ∧ c ≤ s.now

theorem timed_initial : Timed initial := ⟨Nat.le_refl 0, Nat.le_refl 0, nofun⟩

theorem timed_effect (hs : Timed s) (h : Effect s a t) : Timed t := by
  obtain ⟨hrecv, hcounted, hthread⟩ := hs
  cases h with
  | tick ms =>
    refine ⟨Nat.le_add_right_of_le hrecv, hcounted, fun c hc => ?_⟩
    obtain ⟨hlow, hle⟩ := hthread c hc
    exact ⟨hlow, Nat.le_add_right_of_le hle⟩
  | replace => exact ⟨hrecv, hcounted, hthread⟩
  | reset => exact ⟨hrecv, hcounted, hthread⟩
  | change k status hrank => exact ⟨hrecv, hcounted, hthread⟩
  | pong k upTo => exact ⟨Nat.le_refl _, hcounted.trans hrecv, hthread⟩
  | load hidle => exact ⟨hrecv, hcounted, nofun⟩
  | forget c hloaded hno => exact ⟨hrecv, hcounted, nofun⟩
  | see k hloaded hopen => exact ⟨hrecv, hcounted, nofun⟩
  | wait k hseen => exact ⟨hrecv, hcounted, nofun⟩
  | due k hseen hwait =>
    refine ⟨hrecv, hcounted, fun c hc => ?_⟩
    obtain rfl := Option.some.inj hc
    exact ⟨Nat.le_trans (Nat.le_add_left ..) hwait, Nat.le_refl _⟩
  | close k c hdue hlate => exact ⟨hrecv, hcounted, nofun⟩
  | first k c hdue hzero => exact ⟨hrecv, hcounted, fun _ hc => hthread _ (by rw [hdue]; exact hc)⟩
  | again k c hdue hzero => exact ⟨hrecv, hcounted, fun _ hc => hthread _ (by rw [hdue]; exact hc)⟩
  | count k c hcount =>
    have hc := hthread c (by rw [hcount]; rfl)
    refine ⟨hc.2, Nat.le_refl c, fun d hd => ?_⟩
    obtain rfl := Option.some.inj hd
    exact hc
  | ping k c hping hopen => exact ⟨hrecv, hcounted, nofun⟩

/-! ### The connections -/

/-- The thread looks at connections that exist, and pings those that have been open. If `m_connection`
has been pinged before, the thread has read nothing else from it. -/
structure Linked (s : Keepalive) : Prop where
  connection : ∀ k ∈ s.connection, k < s.connections
  thread : ∀ k ∈ s.thread.conn, k < s.connections
  pinged : ∀ p ∈ s.pings, p.conn < s.connections ∧ 2 ≤ (s.status p.conn).rank
  loaded : s.thread ≠ .idle → ∀ p ∈ s.pings, s.connection = some p.conn → s.thread.conn = some p.conn

theorem answer_conn (k upTo now : Nat) (p : Ping) : (Ping.answer k upTo now p).conn = p.conn := by
  unfold Ping.answer
  split_ifs <;> rfl

theorem linked_initial : Linked initial := ⟨nofun, nofun, nofun, fun h => absurd rfl h⟩

/-- The thread moves on with the connection it has. -/
theorem Linked.moved (hs : Linked s) (hconn : t.connection = s.connection)
    (hnumber : t.connections = s.connections) (hstatus : t.status = s.status)
    (hpings : t.pings = s.pings) (hthread : t.thread.conn = s.thread.conn)
    (hidle : s.thread ≠ .idle) : Linked t := by
  refine ⟨?_, ?_, ?_, fun _ => ?_⟩
  · rw [hconn, hnumber]
    exact hs.connection
  · rw [hthread, hnumber]
    exact hs.thread
  · rw [hpings, hnumber, hstatus]
    exact hs.pinged
  · rw [hpings, hconn, hthread]
    exact hs.loaded hidle

/-- The thread is back at its loop test. -/
theorem Linked.idle (hs : Linked s) (hconn : t.connection = s.connection)
    (hnumber : t.connections = s.connections) (hstatus : t.status = s.status)
    (hpings : t.pings = s.pings) (hthread : t.thread = .idle) : Linked t := by
  refine ⟨?_, ?_, ?_, fun hne => absurd hthread hne⟩
  · rw [hconn, hnumber]
    exact hs.connection
  · rw [hthread]
    exact nofun
  · rw [hpings, hnumber, hstatus]
    exact hs.pinged

theorem linked_effect (hs : Linked s) (h : Effect s a t) : Linked t := by
  have ⟨hconn, hthread, hpinged, hloaded⟩ := hs
  cases h with
  | tick ms => exact ⟨hconn, hthread, hpinged, hloaded⟩
  | replace =>
    refine ⟨fun k hk => ?_, fun k hk => Nat.lt_succ_of_lt (hthread k hk), fun p hp => ?_,
      fun _ p hp heq => ?_⟩
    · obtain rfl := Option.some.inj hk
      exact Nat.lt_succ_self _
    · exact ⟨Nat.lt_succ_of_lt (hpinged p hp).1, (hpinged p hp).2⟩
    · exact absurd (Option.some.inj heq) (Nat.ne_of_gt (hpinged p hp).1)
  | reset => exact ⟨nofun, hthread, hpinged, fun _ _ _ => nofun⟩
  | change k status hrank =>
    refine ⟨hconn, hthread, fun p hp => ⟨(hpinged p hp).1, ?_⟩, hloaded⟩
    have hle := (hpinged p hp).2
    by_cases hk : p.conn = k
    · rw [hk] at hle
      simp only [hk, Function.update_self]
      omega
    · simpa [hk] using hle
  | pong k upTo =>
    refine ⟨hconn, hthread, fun p hp => ?_, fun hidle p hp => ?_⟩
    · obtain ⟨q, hq, rfl⟩ := List.mem_map.mp hp
      rw [answer_conn]
      exact hpinged q hq
    · obtain ⟨q, hq, rfl⟩ := List.mem_map.mp hp
      rw [answer_conn]
      exact hloaded hidle q hq
  | load hidle => exact ⟨hconn, hconn, hpinged, fun _ _ _ heq => heq⟩
  | forget c hload hno => exact hs.idle rfl rfl rfl rfl rfl
  | see k hload hopen => exact hs.moved rfl rfl rfl rfl (by rw [hload]; rfl) (by simp [hload])
  | wait k hseen => exact hs.idle rfl rfl rfl rfl rfl
  | due k hseen hwait => exact hs.moved rfl rfl rfl rfl (by rw [hseen]; rfl) (by simp [hseen])
  | close k c hdue hlate => exact hs.idle rfl rfl rfl rfl rfl
  | first k c hdue hzero => exact hs.moved rfl rfl rfl rfl (by rw [hdue]; rfl) (by simp [hdue])
  | again k c hdue hzero => exact hs.moved rfl rfl rfl rfl (by rw [hdue]; rfl) (by simp [hdue])
  | count k c hcount => exact hs.moved rfl rfl rfl rfl (by rw [hcount]; rfl) (by simp [hcount])
  | ping k c hping hopen =>
    refine ⟨hconn, nofun, fun p hp => ?_, fun hne => absurd rfl hne⟩
    rcases List.mem_append.mp hp with hp | hp
    · exact hpinged p hp
    · obtain rfl := List.mem_singleton.mp hp
      refine ⟨hthread k (by rw [hping]; rfl), ?_⟩
      simp [hopen, Status.rank]

theorem past_rank {status : Status} (hle : 2 ≤ status.rank) (hne : status ≠ .opened) :
    2 < status.rank := by
  cases status with
  | opened => exact absurd rfl hne
  | absent => exact absurd hle (by decide)
  | connecting => exact absurd hle (by decide)
  | closing => decide
  | closed => decide

/-- The thread has not seen the connection open, and will not. -/
structure Past (s : Keepalive) (k : Nat) : Prop where
  rank : s.connection = some k ∨ s.thread.conn = some k → 2 < (s.status k).rank
  thread : s.thread.conn = some k → s.thread = .loaded (some k)

theorem Past.moved (hs : s.Past k) (hconn : t.connection = s.connection)
    (hstatus : t.status = s.status) (hthread : t.thread.conn = s.thread.conn)
    (hload : s.thread ≠ .loaded (some k)) : t.Past k := by
  refine ⟨?_, fun heq => absurd (hs.thread (hthread ▸ heq)) hload⟩
  rw [hconn, hthread, hstatus]
  exact hs.rank

theorem Past.idle (hs : s.Past k) (hconn : t.connection = s.connection)
    (hstatus : t.status = s.status) (hthread : t.thread = .idle) : t.Past k := by
  refine ⟨fun heq => ?_, ?_⟩
  · rw [hconn, hthread] at heq
    rw [hstatus]
    exact hs.rank (heq.imp_right nofun)
  · rw [hthread]
    exact nofun

theorem past_effect (hk : k < s.connections) (hs : s.Past k) (h : Effect s a t) : t.Past k := by
  have ⟨hrank, hthread⟩ := hs
  cases h with
  | tick ms => exact ⟨hrank, hthread⟩
  | replace =>
    refine ⟨fun heq => ?_, hthread⟩
    rcases heq with heq | heq
    · exact absurd (Option.some.inj heq) (Nat.ne_of_gt hk)
    · exact hrank (.inr heq)
  | reset => exact ⟨fun heq => hrank (heq.imp_left nofun), hthread⟩
  | change j status hlt =>
    refine ⟨fun heq => ?_, hthread⟩
    have hold := hrank heq
    by_cases hj : k = j
    · rw [hj] at hold
      simp only [hj, Function.update_self]
      omega
    · simpa [hj] using hold
  | pong j upTo => exact ⟨hrank, hthread⟩
  | load hidle => exact ⟨fun heq => hrank (.inl (heq.elim id id)), fun heq => congrArg _ heq⟩
  | forget c hload hno => exact hs.idle rfl rfl rfl
  | see j hload hopen =>
    have hne : j ≠ k := by
      rintro rfl
      have hlt := hrank (.inr (by rw [hload]; rfl))
      rw [hopen] at hlt
      exact absurd hlt (by decide)
    exact hs.moved rfl rfl (by rw [hload]; rfl) (by simp [hload, hne])
  | wait j hseen => exact hs.idle rfl rfl rfl
  | due j hseen hwait => exact hs.moved rfl rfl (by rw [hseen]; rfl) (by simp [hseen])
  | close j c hdue hlate => exact hs.idle rfl rfl rfl
  | first j c hdue hzero => exact hs.moved rfl rfl (by rw [hdue]; rfl) (by simp [hdue])
  | again j c hdue hzero => exact hs.moved rfl rfl (by rw [hdue]; rfl) (by simp [hdue])
  | count j c hcount => exact hs.moved rfl rfl (by rw [hcount]; rfl) (by simp [hcount])
  | ping j c hping hopened => exact hs.idle rfl rfl rfl

/-! ### The pongs -/

/-- `m_recv_pong_time` is not behind a pong, except for connections that are past; a new count begins
only when all pinged connections are. -/
structure Heard (s : Keepalive) : Prop where
  forgotten : s.sendPingTime = 0 → ∀ p ∈ s.pings, s.Past p.conn
  counting : ∀ k c, s.thread = .count k c → s.sendPingTime = 0
  ordered : ∀ p ∈ s.pings, p.sent ≤ s.now ∧ ∀ q ∈ p.answered, p.sent ≤ q
  heard : ∀ p ∈ s.pings, ∀ q ∈ p.answered, q ≤ s.recvPongTime ∨ s.Past p.conn

theorem heard_initial : Heard initial := ⟨fun _ => nofun, nofun, nofun, nofun⟩

/-- A step that sends nothing and hears nothing. -/
theorem Heard.keep (hs : Heard s) (hl : Linked s) (h : Effect s a t) (hpings : t.pings = s.pings)
    (hsend : t.sendPingTime = s.sendPingTime) (hrecv : t.recvPongTime = s.recvPongTime)
    (hnow : s.now ≤ t.now) (hcount : ∀ k c, t.thread = .count k c → t.sendPingTime = 0) :
    Heard t := by
  have hpast (p : Ping) (hp : p ∈ s.pings) (hold : s.Past p.conn) : t.Past p.conn :=
    past_effect (hl.pinged p hp).1 hold h
  refine ⟨fun hzero p hp => ?_, hcount, fun p hp => ?_, fun p hp q hq => ?_⟩
  · rw [hpings] at hp
    exact hpast p hp (hs.forgotten (hsend ▸ hzero) p hp)
  · rw [hpings] at hp
    obtain ⟨hsent, hanswered⟩ := hs.ordered p hp
    exact ⟨hsent.trans hnow, hanswered⟩
  · rw [hpings] at hp
    rw [hrecv]
    exact (hs.heard p hp q hq).imp_right (hpast p hp)

theorem answer_cases (k upTo now : Nat) (p : Ping) :
    Ping.answer k upTo now p = p ∨
      p.answered = none ∧ Ping.answer k upTo now p = { p with answered := some now } := by
  unfold Ping.answer
  split_ifs with h
  · exact .inr ⟨h.2.2, rfl⟩
  · exact .inl rfl

theorem heard_pong (hs : Heard s) (ht : Timed s) (hl : Linked s) (k upTo : Nat) : Heard
    { s with recvPongTime := s.now, pings := s.pings.map (Ping.answer k upTo s.now) } := by
  have hpast (p : Ping) (hp : p ∈ s.pings) (hold : s.Past p.conn) :=
    past_effect (hl.pinged p hp).1 hold (.pong k upTo)
  refine ⟨fun hzero p hp => ?_, hs.counting, fun p hp => ?_, fun p hp q hq => ?_⟩
  · obtain ⟨r, hr, rfl⟩ := List.mem_map.mp hp
    rw [answer_conn]
    exact hpast r hr (hs.forgotten hzero r hr)
  · obtain ⟨r, hr, rfl⟩ := List.mem_map.mp hp
    obtain ⟨hsent, hanswered⟩ := hs.ordered r hr
    rcases answer_cases k upTo s.now r with heq | ⟨-, heq⟩
    · rw [heq]
      exact ⟨hsent, hanswered⟩
    · rw [heq]
      refine ⟨hsent, fun q hq => ?_⟩
      obtain rfl := Option.some.inj hq
      exact hsent
  · obtain ⟨r, hr, rfl⟩ := List.mem_map.mp hp
    rcases answer_cases k upTo s.now r with heq | ⟨-, heq⟩
    · rw [heq] at hq ⊢
      exact (hs.heard r hr q hq).imp (fun hle => Nat.le_trans hle ht.recv) (hpast r hr)
    · rw [heq] at hq ⊢
      obtain rfl := Option.some.inj hq
      exact .inl (Nat.le_refl _)

/-- The thread has seen no open connection: every connection that was pinged is past. -/
theorem heard_forget (hs : Heard s) (hl : Linked s) {c : Option Nat} (hload : s.thread = .loaded c)
    (hno : ∀ k ∈ c, s.status k ≠ .opened) : Heard s.forget := by
  have hpast (p : Ping) (hp : p ∈ s.pings) : s.forget.Past p.conn := by
    refine ⟨fun heq => ?_, nofun⟩
    have hsome : s.connection = some p.conn := heq.elim id nofun
    have hconn := hl.loaded (by simp [hload]) p hp hsome
    rw [hload] at hconn
    exact past_rank (hl.pinged p hp).2 (hno _ hconn)
  exact ⟨fun _ => hpast, fun _ _ => nofun, hs.ordered, fun p hp q hq => .inr (hpast p hp)⟩

theorem heard_effect (hs : Heard s) (ht : Timed s) (hl : Linked s) (h : Effect s a t) : Heard t := by
  have h' := h
  cases h with
  | tick ms => exact hs.keep hl h' rfl rfl rfl (Nat.le_add_right ..) hs.counting
  | replace => exact hs.keep hl h' rfl rfl rfl (Nat.le_refl _) hs.counting
  | reset => exact hs.keep hl h' rfl rfl rfl (Nat.le_refl _) hs.counting
  | change k status hrank => exact hs.keep hl h' rfl rfl rfl (Nat.le_refl _) hs.counting
  | pong k upTo => exact heard_pong hs ht hl k upTo
  | load hidle => exact hs.keep hl h' rfl rfl rfl (Nat.le_refl _) nofun
  | forget c hload hno => exact heard_forget hs hl hload hno
  | see k hload hopen => exact hs.keep hl h' rfl rfl rfl (Nat.le_refl _) nofun
  | wait k hseen => exact hs.keep hl h' rfl rfl rfl (Nat.le_refl _) nofun
  | due k hseen hwait => exact hs.keep hl h' rfl rfl rfl (Nat.le_refl _) nofun
  | close k c hdue hlate => exact hs.keep hl h' rfl rfl rfl (Nat.le_refl _) nofun
  | first k c hdue hzero =>
    exact hs.keep hl h' rfl rfl rfl (Nat.le_refl _) fun _ _ _ => hzero
  | again k c hdue hzero => exact hs.keep hl h' rfl rfl rfl (Nat.le_refl _) nofun
  | count k c hcount =>
    -- the time of the last pong is overwritten, and no pinged connection is looked at
    have hzero := hs.counting k c hcount
    have hpast (p : Ping) (hp : p ∈ s.pings) := past_effect (hl.pinged p hp).1
      (hs.forgotten hzero p hp) h'
    exact ⟨fun _ => hpast, fun _ _ _ => hzero, hs.ordered, fun p hp q hq => .inr (hpast p hp)⟩
  | ping k c hping hopen =>
    have hlow := (ht.thread c (by rw [hping]; rfl)).1
    refine ⟨fun hzero => absurd hzero (by simp only; omega), nofun, fun p hp => ?_, fun p hp q hq => ?_⟩
    · rcases List.mem_append.mp hp with hp | hp
      · exact hs.ordered p hp
      · obtain rfl := List.mem_singleton.mp hp
        exact ⟨Nat.le_refl _, nofun⟩
    · rcases List.mem_append.mp hp with hp | hp
      · exact (hs.heard p hp q hq).imp_right fun hold => past_effect (hl.pinged p hp).1 hold h'
      · obtain rfl := List.mem_singleton.mp hp
        cases hq

/-! ### The closes -/

/-- Pings that are all in time now were all in time before. -/
theorem inTime_back (h : Effect s a t) (ht : t.InTime k) : s.InTime k := by
  cases h with
  | tick ms =>
    intro p hp hconn
    have hle := ht p hp hconn
    cases hans : p.answered with
    | none =>
      rw [hans] at hle
      exact (Nat.le_add_right s.now ms).trans hle
    | some q =>
      rw [hans] at hle
      exact hle
  | pong j upTo =>
    intro p hp hconn
    have hle := ht _ (List.mem_map_of_mem hp) ((answer_conn j upTo s.now p).trans hconn)
    rcases answer_cases j upTo s.now p with heq | ⟨hnone, heq⟩
    · rw [heq] at hle
      exact hle
    · rw [heq] at hle
      rw [hnone]
      exact hle
  | ping j c hping hopen => exact fun p hp hconn => ht p (List.mem_append_left _ hp) hconn
  | _ => exact ht

/-- Where the comparison calls for `close()` in time, a ping on the connection has not been answered. -/
theorem not_inTime_of_late (ht : Timed s) (hh : Heard s) {c : Nat} (hdue : s.thread = .due k c)
    (hlate : s.recvPongTime + 5000 < s.sendPingTime) (hok : Timely s .test) : ¬ s.InTime k := by
  intro hin
  simp only [Timely, hdue] at hok
  rcases hok hlate with hle | ⟨p, hp, hconn, hold, hle⟩
  · have hcounted := ht.counted
    omega
  · have hans := hin p hp hconn
    cases hsome : p.answered with
    | none =>
      rw [hsome] at hans
      exact absurd hans (Nat.not_le_of_lt hold)
    | some q =>
      have hsent := (hh.ordered p hp).2 q hsome
      rcases hh.heard p hp q hsome with hrecv | hpast
      · omega
      · -- a connection that is looked at is not past
        have hload := hpast.thread (by rw [hdue, hconn]; rfl)
        rw [hdue] at hload
        cases hload

theorem noFalseClose_effect (hs : s.NoFalseClose) (ht : Timed s) (hh : Heard s) (hok : Timely s a)
    (h : Effect s a t) : t.NoFalseClose := by
  intro k hin
  have hin' := inTime_back h hin
  cases h with
  | close j c hdue hlate =>
    intro hmem
    rcases List.mem_append.mp hmem with hmem | hmem
    · exact hs k hin' hmem
    · obtain rfl := List.mem_singleton.mp hmem
      exact not_inTime_of_late ht hh hdue hlate hok hin'
  | _ => exact hs k hin'

/-- What every state of a run in time keeps. -/
structure Sound (s : Keepalive) : Prop where
  timed : Timed s
  linked : Linked s
  heard : Heard s
  noFalseClose : s.NoFalseClose

theorem sound_initial : Sound initial :=
  ⟨timed_initial, linked_initial, heard_initial, fun _ _ => nofun⟩

theorem sound_step (hs : Sound s) (hok : Timely s a) (h : s.step a = some t) : Sound t := by
  have heffect := effect_of_step h
  exact ⟨timed_effect hs.timed heffect, linked_effect hs.linked heffect,
    heard_effect hs.heard hs.timed hs.linked heffect,
    noFalseClose_effect hs.noFalseClose hs.timed hs.heard hok heffect⟩

theorem sound_run (h : Run step Timely initial as s) : Sound s :=
  h.invariant Sound (fun _ _ _ hs hok hst => sound_step hs hok hst) sound_initial

/-- As long as the loop is in time, no connection whose pings are answered in time is closed. -/
theorem no_false_close (h : Run step Timely initial as s) : s.NoFalseClose :=
  (sound_run h).noFalseClose

/-- Pings that nobody answers, and a `close()` for them. -/
theorem no_false_close_silence : ∃ as s,
    Run step Timely initial as s ∧ s.closes = [0] ∧ s.NoFalseClose := by
  have hrun := run_exec step Timely initial
    [.replace, .change 0 .opened, .tick 3000, .load, .poll, .clock, .test, .count, .ping,
      .tick 1000, .load, .poll, .clock, .test, .ping, .tick 5000, .load, .poll, .clock, .test, .ping,
      .tick 500, .load, .poll, .clock, .test] (by decide)
  exact ⟨_, _, hrun, by decide, no_false_close hrun⟩

/-- The loop stands still for 6000 ms. The ping after that is 500 ms old when the connection is closed. -/
theorem closes_before_pong :
    ¬ ∀ as s, Run step Free initial as s → s.NoFalseClose := by
  intro h
  have hrun := run_exec step Free initial
    [.replace, .change 0 .opened, .tick 3000, .load, .poll, .clock, .test, .count, .ping, .pong 0 3000,
      .tick 6000, .load, .poll, .clock, .test, .ping, .tick 500, .load, .poll, .clock, .test] (by decide)
  exact h _ _ hrun 0 (by unfold InTime; decide) (by decide)

end Keepalive

end NetworkUtility.WebsocketClient
