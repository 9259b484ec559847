import NetworkUtility.EnetClient.Slot
import NetworkUtility.Lib.Turns

/-! The notices of `EnetClientImpl` with the call of `do_connect` that each is about. A call is closed
once, if the send thread and `do_close` leave it to the right one of them. -/
namespace NetworkUtility.EnetClient

open Enet Machine Turns

/-- The calls of `do_connect` that are past their join, the callback list and the log with the number
of the call that was last past it when an entry was made. -/
structure Tally where
  attempts : Nat
  pending : List (Nat × Bool)
  told : List (Nat × Notice)

def noTally : Tally := ⟨0, [], []⟩

/-- What a step has put behind a list. -/
def added {α : Type} (k : Nat) (before after : List α) : List (Nat × α) :=
  (after.drop before.length).map (k, ·)

namespace Tally

def push (n : Tally) (k : Nat) (s t : State) : Tally where
  attempts := k
  pending := n.pending ++ added k s.callbackList t.callbackList
  told := n.told ++ added k s.log t.log

def note (s : State) (a : Action) (t : State) (n : Tally) : Tally :=
  match a with
  | .callback =>
    match n.pending with
    | [] => n
    | (k, _) :: rest => { n with pending := rest, told := n.told ++ added k s.log t.log }
  | .event =>
    n.push (if s.eventThread = .connectJoin then n.attempts + 1 else n.attempts) s t
  | _ => n.push n.attempts s t

end Tally

/-- The entry of the callback list that a notice was. -/
def Notice.mark : Notice → Option Bool
  | .connect => some true
  | .close => some false
  | _ => none

namespace Tally

/-- What the callback thread has told the sink. -/
def delivered (n : Tally) : List (Nat × Bool) :=
  n.told.filterMap fun (k, notice) => notice.mark.map (k, ·)

/-- All entries pushed to the callback list. -/
def marks (n : Tally) : List (Nat × Bool) := n.delivered ++ n.pending

end Tally

abbrev Talled := State × Tally

variable {s t : State} {n : Tally} {x y : Talled} {a : Action} {as : List Action} {k : Nat}

@[simp] theorem added_self {α : Type} (l : List α) : added k l l = [] := by
  simp [added]

@[simp] theorem added_append {α : Type} (l m : List α) : added k l (l ++ m) = m.map (k, ·) := by
  simp [added]

/-- The event thread is in `do_connect`, past the join. -/
def connects (s : State) : Bool :=
  match s.eventThread with
  | .connectHost => true
  | .connectService _ => true
  | _ => false

/-- The send thread leaves through its test only inside a `do_close`, and takes a DISCONNECT event only
outside one. -/
def Orderly (x : Talled) : Action → Prop
  | .send => (x.1.sendThread = .test → x.1.isConnected ∨ closing x.1) ∧
      (x.1.sendThread = .service (some .disconnect) → closing x.1 = false)
  | _ => True

instance (x : Talled) (a : Action) : Decidable (Orderly x a) := by
  unfold Orderly
  split <;> infer_instance

/-- Nothing of this call is left: another one is past its join, or its threads have ended. -/
def Finished (x : Talled) (k : Nat) : Prop :=
  0 < k ∧ (k < x.2.attempts ∨
    k = x.2.attempts ∧ x.1.joins ∧ connects x.1 = false ∧ closing x.1 = false)

instance (x : Talled) (k : Nat) : Decidable (Finished x k) :=
  inferInstanceAs (Decidable (_ ∧ (_ ∨ _)))

/-- A call is connected at most once and closed once, in this order, and so are the callbacks. -/
structure Alternating (x : Talled) : Prop where
  order : ∀ k, entries k x.2.marks <+: [true, false] ∨ entries k x.2.marks = [false]
  finished : ∀ k, Finished x k → entries k x.2.marks = [false] ∨ entries k x.2.marks = [true, false]
  between : OneEach x.2.delivered

/-- What needs no guard. -/
structure Live (s : State) : Prop where
  joinable : s.peer = true ↔ s.sendThread ≠ .none
  connecting : connects s → s.peer = false
  closing : closing s → s.peer = true
  event : s.sendThread = .service (some .disconnect) → s.enetPeer.state = .disconnected

theorem live_initial : Live initial := by
  constructor <;> simp [initial, connects, closing]

/-- The DISCONNECT event comes with a free peer, which stays free in the same service call. -/
theorem serve_free {p q : Peer} {event event' : Option Event} {b : Service}
    (h : serve p event b = some (q, event'))
    (hev : event = some .disconnect → p.state = .disconnected) :
    event' = some .disconnect → q.state = .disconnected := by
  by_cases hb : b = .incident .connect
  · subst hb
    intro he
    simp only [serve] at h
    split at h
    · next hn =>
      have hnone : event = none := by simpa [Incident.ofPeer] using hn
      cases h
      simp [hnone, Peer.handle] at he
    · cases h
  · exact serve_event h hev fun _ => hb

theorem Live.none_of_connects (hs : Live s) (h : connects s) : s.sendThread = .none := by
  by_contra hne
  have hpeer := hs.joinable.mpr hne
  simp [hs.connecting h] at hpeer

theorem Live.not_connects (hs : Live s) (hne : s.sendThread ≠ .none) : connects s = false := by
  by_contra hcon
  exact hne (hs.none_of_connects (by simpa using hcon))

theorem live_event (hs : Live s) (h : s.stepEvent = some t) : Live t := by
  cases State.effect_of_event h with
  | takeConnect | takeClose | connectFree | closeShut =>
    exact ⟨hs.joinable, by rintro ⟨⟩, by simp [closing], hs.event⟩
  | connectReset => exact ⟨hs.joinable, by rintro ⟨⟩, by simp [closing], fun _ => rfl⟩
  | connectJoin => exact ⟨by simp, fun _ => rfl, by simp [closing], by rintro ⟨⟩⟩
  | connectRefused =>
    exact ⟨hs.joinable, by rintro ⟨⟩, by simp [closing, State.onClose], hs.event⟩
  | connectHost p hth =>
    have hcon : connects s = true := by simp [connects, hth]
    have hnone := hs.none_of_connects hcon
    exact ⟨hs.joinable, fun _ => hs.connecting hcon, by simp [closing], by simp [hnone]⟩
  | connected =>
    exact ⟨by simp [State.onConnect], by rintro ⟨⟩, by simp [closing, State.onConnect],
      by rintro ⟨⟩⟩
  | connectFailed =>
    exact ⟨hs.joinable, by rintro ⟨⟩, by simp [closing, State.onClose], fun _ => rfl⟩
  | closeOpen _ hcon =>
    simp only [State.isConnected, Bool.and_eq_true] at hcon
    exact ⟨hs.joinable, by rintro ⟨⟩, fun _ => hcon.1, hs.event⟩
  | closeDisconnect hth =>
    have hpeer : s.peer = true := hs.closing (by simp [closing, hth])
    refine ⟨hs.joinable, by rintro ⟨⟩, fun _ => hpeer, fun he => ?_⟩
    have hfree := hs.event he
    simp [hpeer, disconnect_disconnected hfree, hfree]
  | closeJoin =>
    exact ⟨by simp [State.onClose], by rintro ⟨⟩, by simp [closing, State.onClose],
      by rintro ⟨⟩⟩

theorem live_send (hs : Live s) (h : s.stepSend = some t) : Live t := by
  cases State.effect_of_send h with
  | swap hth | sendDone hth | sendData _ _ hth | received _ hth | disconnected hth | again hth
  | waited hth | testOpen hth | testShut hth =>
    exact ⟨⟨fun _ => by rintro ⟨⟩, fun _ => hs.joinable.mpr (by simp [hth])⟩, hs.connecting,
      hs.closing, by rintro ⟨⟩⟩

theorem live_serve {b : Service} (hs : Live s) (h : s.serve b = some t) : Live t := by
  cases State.effect_of_serve h with
  | connecting event event' p hth =>
    have hcon : connects s = true := by simp [connects, hth]
    have hnone := hs.none_of_connects hcon
    exact ⟨hs.joinable, fun _ => hs.connecting hcon, by simp [closing], by simp [hnone]⟩
  | sending event event' p hth hserve =>
    refine ⟨⟨by simp, fun _ => hs.joinable.mpr (by simp [hth])⟩, hs.connecting, hs.closing,
      fun he => ?_⟩
    refine serve_free hserve (fun hev => hs.event (hev ▸ hth)) ?_
    simpa using he

theorem live_step (hs : Live s) (h : step s a = some t) : Live t := by
  cases effect_of_step h with
  | connect | close | callSend | push | callback =>
    exact ⟨hs.joinable, hs.connecting, hs.closing, hs.event⟩
  | event _ hst => exact live_event hs hst
  | send _ hst => exact live_send hs hst
  | serve _ _ hst => exact live_serve hs hst

/-- Where the threads are when the last call is fresh, connected or closed. -/
inductive Stage (s : State) : Phase → Prop
  | fresh : connects s = true → Stage s .fresh
  | connected : connects s = false → s.sendThread ≠ .none →
      (s.sendThread = .returned → closing s = true) → Stage s .connected
  | closed : connects s = false → closing s = false →
      s.sendThread = .none ∨ s.sendThread = .returned ∧ s.enetPeer.state = .disconnected →
      Stage s .closed

theorem Stage.congr {p : Phase} (h : Stage s p) (hevent : t.eventThread = s.eventThread)
    (hsend : t.sendThread = s.sendThread) (hpeer : t.enetPeer = s.enetPeer) : Stage t p := by
  have hcon : connects t = connects s := by simp only [connects, hevent]
  have hclosing : closing t = closing s := by simp only [closing, hevent]
  cases h with
  | fresh h => exact .fresh (hcon.trans h)
  | connected h hne hr =>
    refine .connected (hcon.trans h) ?_ ?_
    · rwa [hsend]
    · rwa [hsend, hclosing]
  | closed h hno hjoin =>
    refine .closed (hcon.trans h) (hclosing.trans hno) ?_
    rwa [hsend, hpeer]

theorem Stage.eq_fresh {p : Phase} (h : Stage s p) (hcon : connects s = true) : p = .fresh := by
  cases h with
  | fresh => rfl
  | connected hno => simp [hcon] at hno
  | closed hno => simp [hcon] at hno

/-- In a `do_close` the last call is connected, and its thread is not joined. -/
theorem Stage.of_closing {p : Phase} (h : Stage s p) (hclosing : closing s = true) :
    p = .connected ∧ s.sendThread ≠ .none := by
  cases h with
  | fresh hcon =>
    rw [closing_iff] at hclosing
    rcases hclosing with hth | hth <;> simp [connects, hth] at hcon
  | connected _ hne => exact ⟨rfl, hne⟩
  | closed _ hno => simp [hclosing] at hno

/-- Outside `do_connect` and `do_close` the event thread goes to such a place, with the peer as it is
or reset. -/
theorem Stage.goes {p : Phase} (h : Stage s p) (hcon : connects s = false)
    (hclosing : closing s = false) (hcon' : connects t = false) (hclosing' : closing t = false)
    (hsend : t.sendThread = s.sendThread)
    (hpeer : s.enetPeer.state = .disconnected → t.enetPeer.state = .disconnected) : Stage t p := by
  cases h with
  | fresh hno => simp [hcon] at hno
  | connected _ hne hret =>
    refine .connected hcon' (hsend ▸ hne) fun hr => ?_
    have hno := hret (hsend ▸ hr)
    simp [hclosing] at hno
  | closed _ _ hjoin =>
    rw [← hsend] at hjoin
    exact .closed hcon' hclosing' (hjoin.imp_right fun hfree => ⟨hfree.1, hpeer hfree.2⟩)

structure Turned (x : Talled) : Prop where
  live : Live x.1
  pending : x.2.pending.map Prod.snd = x.1.callbackList
  turn : ∃ p, Taken x.2.attempts p x.2.marks ∧ Stage x.1 p

theorem turned_initial : Turned (initial, noTally) :=
  ⟨live_initial, rfl, .closed, .nil, .closed rfl rfl (.inl rfl)⟩

theorem push_pending {m : List Bool} (hpending : n.pending.map Prod.snd = s.callbackList)
    (hlist : t.callbackList = s.callbackList ++ m) :
    (n.push k s t).pending.map Prod.snd = t.callbackList := by
  simp [Tally.push, hlist, hpending, Function.comp_def]

/-- A step that tells nothing of a connection, and pushes these entries. -/
theorem push_marks {l : List Notice} {m : List Bool} (hlog : t.log = s.log ++ l)
    (hl : ∀ notice ∈ l, notice.mark = none) (hlist : t.callbackList = s.callbackList ++ m) :
    (n.push k s t).marks = n.marks ++ m.map (k, ·) := by
  have hnone : (l.map (k, ·)).filterMap (fun e : Nat × Notice => e.2.mark.map (e.1, ·)) = [] := by
    simp only [List.filterMap_map, List.filterMap_eq_nil_iff, Function.comp_apply,
      Option.map_eq_none_iff]
    exact hl
  simp only [Tally.marks, Tally.delivered, Tally.push, hlog, hlist, added_append,
    List.filterMap_append]
  rw [hnone, List.append_nil, List.append_assoc]

/-- The callback thread takes the first entry. -/
theorem note_callback (hpending : n.pending.map Prod.snd = s.callbackList)
    (h : step s .callback = some t) : ∃ k b rest, s.callbackList = b :: rest.map Prod.snd ∧
    n.note s .callback t = { n with
      pending := rest
      told := n.told ++ [(k, if b then .connect else .close)] } ∧
    n.pending = (k, b) :: rest ∧ (n.note s .callback t).marks = n.marks ∧
    t = { s with
      callbackList := rest.map Prod.snd
      log := s.log ++ [if b then .connect else .close] } := by
  cases effect_of_step h with
  | callback connected rest hlist =>
    rw [hlist] at hpending
    obtain ⟨⟨k, b⟩, entries, hn, rfl, rfl⟩ := List.map_eq_cons_iff.mp hpending
    refine ⟨k, b, entries, hlist, ?_, hn, ?_, rfl⟩
    · simp [Tally.note, hn]
    · simp only [Tally.note, hn, Tally.marks, Tally.delivered, added_append]
      cases b <;> simp [Notice.mark]

theorem Turned.push (hs : Turned (s, n)) (hlive : Live t) {l : List Notice} {m : List Bool}
    (hlog : t.log = s.log ++ l) (hl : ∀ notice ∈ l, notice.mark = none)
    (hlist : t.callbackList = s.callbackList ++ m) {p : Phase}
    (hturn : Taken k p (n.marks ++ m.map (k, ·))) (hstage : Stage t p) :
    Turned (t, n.push k s t) := by
  refine ⟨hlive, push_pending hs.pending hlist, p, ?_, hstage⟩
  rw [push_marks hlog hl hlist]
  exact hturn

/-- Nothing is told and nothing is pushed. -/
theorem Turned.quiet (hs : Turned (s, n)) (hlive : Live t) (hlog : t.log = s.log)
    (hlist : t.callbackList = s.callbackList) (hstage : ∀ p, Stage s p → Stage t p) :
    Turned (t, n.push n.attempts s t) := by
  obtain ⟨p, hp, hst⟩ := hs.turn
  exact hs.push hlive (l := []) (m := []) (by simpa using hlog) nofun (by simpa using hlist)
    (by simpa using hp) (hstage p hst)

/-- A thread that is neither in `do_connect` nor joined belongs to a connected call. -/
theorem Stage.connected_of_running {p : Phase} (h : Stage s p) (hs : Live s)
    (hne : s.sendThread ≠ .none) (hr : s.sendThread ≠ .returned) : p = .connected := by
  cases h with
  | fresh hcon => exact absurd (hs.none_of_connects hcon) hne
  | connected => rfl
  | closed _ _ hth =>
    rcases hth with hth | ⟨hth, -⟩
    · exact absurd hth hne
    · exact absurd hth hr

theorem turned_event (hs : Turned (s, n)) (h : s.stepEvent = some t) :
    Turned (t, n.push (if s.eventThread = .connectJoin then n.attempts + 1 else n.attempts) s t) := by
  have hlive : Live t := live_event hs.live h
  obtain ⟨p, hp, hst⟩ := hs.turn
  cases State.effect_of_event h with
  | takeConnect _ hth | takeClose _ hth | connectFree hth | closeShut hth =>
    rw [if_neg (by simp [hth])]
    exact hs.quiet hlive rfl rfl fun q hq =>
      hq.goes (by simp [connects, hth]) (by simp [closing, hth]) rfl rfl rfl id
  | connectReset hth =>
    rw [if_neg (by simp [hth])]
    exact hs.quiet hlive rfl rfl fun q hq =>
      hq.goes (by simp [connects, hth]) (by simp [closing, hth]) rfl rfl rfl fun _ => rfl
  | connectJoin hth hj =>
    rw [if_pos hth]
    have hclosed : p = .closed := by
      cases hst with
      | fresh hcon => simp [connects, hth] at hcon
      | connected _ hne hret =>
        have hr : s.sendThread = .returned := by simpa [State.joins, hne] using hj
        have hclosing := hret hr
        simp [closing, hth] at hclosing
      | closed => rfl
    subst hclosed
    exact hs.push hlive (l := []) (m := []) (by simp) (by simp) (by simp) (by simpa using hp.start)
      (.fresh rfl)
  | connectRefused hth =>
    rw [if_neg (by simp [hth])]
    have hcon : connects s = true := by simp [connects, hth]
    obtain rfl := hst.eq_fresh hcon
    exact hs.push hlive rfl (by simp [Notice.mark]) rfl (hp.close (by rintro ⟨⟩))
      (.closed rfl rfl (.inl (hs.live.none_of_connects hcon)))
  | connectHost q hth =>
    rw [if_neg (by simp [hth])]
    have hcon : connects s = true := by simp [connects, hth]
    exact hs.quiet hlive rfl rfl fun q hq => hq.eq_fresh hcon ▸ .fresh rfl
  | connected hth =>
    rw [if_neg (by simp [hth])]
    obtain rfl := hst.eq_fresh (by simp [connects, hth])
    exact hs.push hlive (l := []) (by simp [State.onConnect]) (by simp) rfl hp.connect
      (.connected rfl (by simp [State.onConnect]) (by simp [State.onConnect]))
  | connectFailed event hth =>
    rw [if_neg (by simp [hth])]
    have hcon : connects s = true := by simp [connects, hth]
    obtain rfl := hst.eq_fresh hcon
    exact hs.push hlive (l := []) (by simp [State.onClose]) (by simp) rfl (hp.close (by rintro ⟨⟩))
      (.closed rfl rfl (.inl (hs.live.none_of_connects hcon)))
  | closeOpen hth hcon =>
    rw [if_neg (by simp [hth])]
    have hclosing : closing s = false := by simp [closing, hth]
    refine hs.quiet hlive rfl rfl fun q hq => ?_
    cases hq with
    | fresh hno => simp [connects, hth] at hno
    | connected _ hne hret => exact .connected rfl hne fun _ => by simp [closing]
    | closed _ _ hjoin =>
      have hno : s.isConnected = false := by
        rcases hjoin with hnone | ⟨-, hfree⟩
        · have hpeer : s.peer = false := by
            by_contra hp
            exact hs.live.joinable.mp (by simpa using hp) hnone
          simp [State.isConnected, hpeer]
        · simp [State.isConnected, hfree]
      simp [hcon] at hno
  | closeDisconnect hth =>
    rw [if_neg (show ¬ s.eventThread = .connectJoin by simp [hth])]
    refine hs.quiet hlive rfl rfl fun q hq => ?_
    obtain ⟨rfl, hne⟩ := hq.of_closing (by simp [closing, hth])
    exact .connected rfl hne fun _ => by simp [closing]
  | closeJoin hth =>
    rw [if_neg (by simp [hth])]
    obtain ⟨rfl, -⟩ := hst.of_closing (by simp [closing, hth])
    exact hs.push hlive (l := []) (by simp [State.onClose]) (by simp) rfl (hp.close (by rintro ⟨⟩))
      (.closed rfl rfl (.inl rfl))

theorem turned_send (hs : Turned (s, n)) (hg : Orderly (s, n) .send) (h : s.stepSend = some t) :
    Turned (t, n.push n.attempts s t) := by
  have hlive : Live t := live_send hs.live h
  -- the send thread stays in its loop
  have hloop (hne : s.sendThread ≠ .none) (hr : s.sendThread ≠ .returned)
      (hne' : t.sendThread ≠ .none) (hr' : t.sendThread = .returned → closing t = true)
      (hcon : connects t = connects s) : ∀ p, Stage s p → Stage t p := by
    intro p hp
    obtain rfl := hp.connected_of_running hs.live hne hr
    cases hp with
    | connected hno => exact .connected (hcon.trans hno) hne' hr'
  obtain ⟨p, hp, hst⟩ := hs.turn
  cases State.effect_of_send h with
  | swap hth | sendDone hth | sendData _ _ hth | again hth | waited hth | testOpen hth =>
    exact hs.quiet hlive rfl rfl
      (hloop (by simp [hth]) (by simp [hth]) (by rintro ⟨⟩) (by rintro ⟨⟩) rfl)
  | received packet hth =>
    have hstage := hloop (by simp [hth]) (by simp [hth]) (by rintro ⟨⟩) (by rintro ⟨⟩) rfl p hst
    exact hs.push hlive (m := []) rfl (by simp [Notice.mark]) (by simp) (by simpa using hp) hstage
  | disconnected hth =>
    obtain rfl := hst.connected_of_running hs.live (by simp [hth]) (by simp [hth])
    have hcon : connects s = false := hs.live.not_connects (by simp [hth])
    exact hs.push hlive (l := []) (by simp [State.onClose]) (by simp) rfl (hp.close (by rintro ⟨⟩))
      (.closed hcon (hg.2 hth) (.inr ⟨rfl, hs.live.event hth⟩))
  | testShut hth hcon =>
    have hclosing : closing s = true := (hg.1 hth).resolve_left (by simp [hcon])
    exact hs.quiet hlive rfl rfl
      (hloop (by simp [hth]) (by simp [hth]) (by rintro ⟨⟩) (fun _ => hclosing) rfl)

theorem turned_callback (hs : Turned (s, n)) (hlive : Live t) (h : step s .callback = some t) :
    Turned (t, n.note s .callback t) := by
  obtain ⟨p, hp, hst⟩ := hs.turn
  obtain ⟨k, b, rest, -, hnote, -, hmarks, rfl⟩ := note_callback hs.pending h
  refine ⟨hlive, ?_, p, ?_, hst.congr rfl rfl rfl⟩
  · rw [hnote]
  · rw [hmarks, hnote]
    exact hp

theorem turned_serve {b : Service} (hs : Turned (s, n)) (hlive : Live t) (h : s.serve b = some t) :
    Turned (t, n.push n.attempts s t) := by
  cases State.effect_of_serve h with
  | connecting event event' q hth =>
    have hcon : connects s = true := by simp [connects, hth]
    exact hs.quiet hlive rfl rfl fun p hp => hp.eq_fresh hcon ▸ .fresh rfl
  | sending event event' q hth =>
    refine hs.quiet hlive rfl rfl fun p hp => ?_
    obtain rfl := hp.connected_of_running hs.live (by simp [hth]) (by simp [hth])
    cases hp with
    | connected hcon => exact .connected hcon (by rintro ⟨⟩) (by rintro ⟨⟩)

theorem turned_step (hs : Turned x) (hg : Orderly x a) (h : noted step Tally.note x a = some y) :
    Turned y := by
  obtain ⟨s, n⟩ := x
  obtain ⟨t, ht, rfl⟩ := Option.map_eq_some_iff.mp h
  clear h
  have h : step s a = some t := ht
  have hlive : Live t := live_step hs.live h
  cases effect_of_step h with
  | connect | close | callSend | push =>
    exact hs.quiet hlive rfl rfl fun p hp => hp.congr rfl rfl rfl
  | event _ hst => exact turned_event hs hst
  | send _ hst => exact turned_send hs hg hst
  | callback => exact turned_callback hs hlive h
  | serve _ _ hst => exact turned_serve hs hlive hst

theorem Turned.alternating (hs : Turned x) : Alternating x := by
  obtain ⟨s, n⟩ := x
  obtain ⟨p, hp, hst⟩ := hs.turn
  refine ⟨hp.entries_prefix, fun k ⟨hpos, hk⟩ => ?_, ?_⟩
  · rcases hk with hk | ⟨rfl, hj, hcon, hclosing⟩
    · exact hp.entries_past hpos hk
    · refine hp.entries_over hpos (Nat.le_refl _) fun _ => ?_
      cases hst with
      | fresh h => exact absurd h (by simp [hcon])
      | connected _ hne hr =>
        have hret : s.sendThread = .returned := by simpa [State.joins, hne] using hj
        exact absurd (hr hret) (by simp [hclosing])
      | closed => rfl
  · obtain ⟨m, q, -, hq⟩ := hp.of_prefix (List.prefix_append n.delivered n.pending)
    exact hq.oneEach

/-- While only one of the send thread and `do_close` is left to close a call, each is closed once. -/
theorem calls_closed_once (h : Run (noted step Tally.note) Orderly (initial, noTally) as x) :
    Alternating x :=
  (h.invariant _ (fun _ _ _ hs hg hst => turned_step hs hg hst) turned_initial).alternating

/-- A connection that the server closes, and one that is closed and whose acknowledgement is late. -/
theorem calls_closed_once_example : ∃ as x, Run (noted step Tally.note) Orderly (initial, noTally) as x ∧
    x.2.marks = [(1, true), (1, false), (2, true), (2, false)] ∧ Finished x 2 ∧ Alternating x :=
  have h := run_exec (noted step Tally.note) Orderly (initial, noTally)
    [.connect, .event, .event, .event, .event, .serve (.incident (.verifyConnect true)), .event,
      .send, .send, .serve (.incident (.disconnect false)), .serve .dispatch, .send, .callback,
      .connect, .event, .event, .event, .event, .serve (.incident (.verifyConnect true)), .event,
      .close, .event, .event, .event,
      .send, .send, .send, .send, .event] (by decide)
  ⟨_, _, h, by decide, by decide, calls_closed_once h⟩

/-- `connect` on a connected client resets the peer: the first connection is never closed. -/
theorem connected_twice :
    ¬ ∀ as x, Run (noted step Tally.note) Free (initial, noTally) as x → Alternating x := by
  intro h
  have hrun := run_exec (noted step Tally.note) Free (initial, noTally)
    [.connect, .event, .event, .event, .event, .serve (.incident (.verifyConnect true)), .event, .connect,
      .event, .event, .send, .send, .send, .send, .event] (by decide)
  have hclosed := (h _ _ hrun).finished 1 (by decide)
  exact absurd hclosed (by decide)

end NetworkUtility.EnetClient
