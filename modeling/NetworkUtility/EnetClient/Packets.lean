import Mathlib.Data.List.InsertIdx
import NetworkUtility.EnetClient.Notices

/-! Packets with the call of `do_connect` during whose connection `send_message` tested for it. They
stay on that connection, if no `send_message` is overtaken by the clear of `do_connect`. -/
namespace NetworkUtility.EnetClient

open Enet Machine

/-- A packet in `enet_peer_send`, with the calls of `do_connect` of its test and of the send thread. -/
structure Handover where
  tested : Nat
  used : Nat
  packet : Bytes
  deriving DecidableEq, Repr

/-- The calls of `do_connect` that are past their join and clear; the packets in `send_message`, in
`m_send_data_list` and in the list of the send thread; those handed over. -/
structure Route where
  attempts : Nat
  sends : List (Nat × Bytes)
  data : List (Nat × Bytes)
  list : List (Nat × Bytes)
  handed : List Handover

def noRoute : Route := ⟨0, [], [], [], []⟩

namespace Route

def noteSend (r : Route) : SendThread → Route
  | .swap => { r with data := [], list := r.data }
  | .send (_ :: _) =>
    match r.list with
    | [] => r
    | (k, data) :: rest => { r with list := rest, handed := r.handed ++ [⟨k, r.attempts, data⟩] }
  | _ => r

def note (s : State) (a : Action) (_ : State) (r : Route) : Route :=
  match a with
  | .callSend packet => { r with sends := r.sends ++ [(r.attempts, packet)] }
  | .push i =>
    match r.sends[i]? with
    | none => r
    | some p => { r with sends := r.sends.eraseIdx i, data := r.data ++ [p] }
  | .event =>
    if s.eventThread = .connectJoin then { r with attempts := r.attempts + 1, data := [] } else r
  | .send => r.noteSend s.sendThread
  | _ => r

end Route

abbrev Routed := State × Route

/-- No `do_connect` has cleared the list between the test and the append of a `send_message`. -/
def Current (x : Routed) : Action → Prop
  | .push i =>
    match x.2.sends[i]? with
    | none => True
    | some p => p.1 = x.2.attempts
  | _ => True

instance (x : Routed) (a : Action) : Decidable (Current x a) := by
  unfold Current
  split
  · split <;> infer_instance
  · infer_instance

/-- No packet is handed over on another connection than it was accepted for. -/
def Kept (x : Routed) : Prop := ∀ p ∈ x.2.handed, p.tested = p.used

instance (x : Routed) : Decidable (Kept x) := inferInstanceAs (Decidable (∀ _ ∈ _, _))

/-- What the send thread has still to send. -/
def SendThread.list : SendThread → List Bytes
  | .send list => list
  | _ => []

variable {s t : State} {r : Route} {x y : Routed} {a : Action} {as : List Action} {i : Nat}

/-- The packets are those of the state. -/
structure Same (x : Routed) : Prop where
  live : Live x.1
  sends : x.2.sends.map Prod.snd = x.1.sends
  data : x.2.data.map Prod.snd = x.1.sendDataList
  list : x.2.list.map Prod.snd = x.1.sendThread.list

theorem same_initial : Same (initial, noRoute) := ⟨live_initial, rfl, rfl, rfl⟩

theorem joins_list (h : s.joins = true) : s.sendThread.list = [] := by
  simp only [State.joins, decide_eq_true_eq] at h
  rcases h with h | h <;> rw [h] <;> rfl

theorem stepEvent_packets (hs : Live s) (h : s.stepEvent = some t) : t.sends = s.sends ∧
    t.sendThread.list = s.sendThread.list ∧
    (s.eventThread = .connectJoin → t.sendDataList = [] ∧ t.sendThread.list = []) ∧
    (s.eventThread ≠ .connectJoin → t.sendDataList = s.sendDataList) := by
  cases State.effect_of_event h with
  | takeConnect _ hth | takeClose _ hth | connectReset hth | connectFree hth | connectRefused hth
  | connectHost _ hth | connectFailed _ hth | closeOpen hth | closeShut hth | closeDisconnect hth =>
    exact ⟨rfl, rfl, fun hjoin => by simp [hth] at hjoin, fun _ => rfl⟩
  | connectJoin hth hj =>
    exact ⟨rfl, (joins_list hj).symm, fun _ => ⟨rfl, rfl⟩, fun h => absurd hth h⟩
  | connected hth =>
    have hnone := hs.none_of_connects (by simp [connects, hth])
    have hlist : s.sendThread.list = [] := by rw [hnone]; rfl
    exact ⟨rfl, hlist.symm, fun hjoin => by simp [hth] at hjoin, fun _ => rfl⟩
  | closeJoin hth hj =>
    exact ⟨rfl, (joins_list hj).symm, fun hjoin => by simp [hth] at hjoin, fun _ => rfl⟩

theorem same_send (hs : Same (s, r)) (hlive : Live t) (h : s.stepSend = some t) :
    Same (t, r.noteSend s.sendThread) := by
  have hlist : r.list.map Prod.snd = s.sendThread.list := hs.list
  cases State.effect_of_send h with
  | swap hth =>
    simp only [hth, Route.noteSend]
    exact ⟨hlive, hs.sends, rfl, hs.data⟩
  | sendData data rest hth =>
    rw [hth] at hlist
    obtain ⟨⟨k, b⟩, l, hl, rfl, hrest⟩ := List.map_eq_cons_iff.mp hlist
    simp only [hth, Route.noteSend, hl]
    exact ⟨hlive, hs.sends, hs.data, hrest⟩
  | sendDone hth | received _ hth | disconnected hth | again hth | waited hth | testOpen hth
  | testShut hth =>
    rw [hth] at hlist
    simp only [hth, Route.noteSend]
    exact ⟨hlive, hs.sends, hs.data, hlist⟩

theorem same_step (hs : Same x) (h : noted step Route.note x a = some y) : Same y := by
  obtain ⟨s, r⟩ := x
  obtain ⟨t, ht, rfl⟩ := Option.map_eq_some_iff.mp h
  clear h
  have h : step s a = some t := ht
  have hlive : Live t := live_step hs.live h
  have hsends : r.sends.map Prod.snd = s.sends := hs.sends
  have hdata : r.data.map Prod.snd = s.sendDataList := hs.data
  cases effect_of_step h with
  | connect | close | callback => exact ⟨hlive, hs.sends, hs.data, hs.list⟩
  | callSend packet => exact ⟨hlive, by simp [Route.note, hsends], hs.data, hs.list⟩
  | push i packet hp =>
    rw [← hsends, List.getElem?_map, Option.map_eq_some_iff] at hp
    obtain ⟨p, hp, rfl⟩ := hp
    simp only [Route.note, hp]
    refine ⟨hlive, ?_, ?_, hs.list⟩
    · rw [← hsends, List.eraseIdx_map]
    · simp [hdata]
  | event _ hst =>
    obtain ⟨hsends', hlist', hclear, hkeep⟩ := stepEvent_packets hs.live hst
    by_cases hth : s.eventThread = .connectJoin
    · simp only [Route.note, if_pos hth]
      exact ⟨hlive, hs.sends.trans hsends'.symm, (hclear hth).1.symm, hs.list.trans hlist'.symm⟩
    · simp only [Route.note, if_neg hth]
      exact ⟨hlive, hs.sends.trans hsends'.symm, hs.data.trans (hkeep hth).symm,
        hs.list.trans hlist'.symm⟩
  | send _ hst => exact same_send hs hlive hst
  | serve _ _ hst =>
    cases State.effect_of_serve hst with
    | connecting => exact ⟨hlive, hs.sends, hs.data, hs.list⟩
    | sending event event' p hth =>
      have hlist : r.list.map Prod.snd = s.sendThread.list := hs.list
      rw [hth] at hlist
      exact ⟨hlive, hs.sends, hs.data, hlist⟩

/-- What is on its way to the peer was accepted for its connection. -/
structure Onway (x : Routed) : Prop where
  same : Same x
  data : ∀ p ∈ x.2.data, p.1 = x.2.attempts
  list : ∀ p ∈ x.2.list, p.1 = x.2.attempts
  kept : Kept x

theorem onway_step (hs : Onway x) (hg : Current x a) (h : noted step Route.note x a = some y) :
    Onway y := by
  have hsame := same_step hs.same h
  obtain ⟨s, r⟩ := x
  obtain ⟨t, ht, rfl⟩ := Option.map_eq_some_iff.mp h
  clear h
  have h : step s a = some t := ht
  cases a with
  | push i =>
    cases hp : r.sends[i]? with
    | none =>
      simp only [Route.note, hp] at hsame ⊢
      exact ⟨hsame, hs.data, hs.list, hs.kept⟩
    | some p =>
      have hcurrent : p.1 = r.attempts := by simpa [Current, hp] using hg
      simp only [Route.note, hp] at hsame ⊢
      refine ⟨hsame, fun q hq => ?_, hs.list, hs.kept⟩
      rcases List.mem_append.mp hq with hq | hq
      · exact hs.data q hq
      · obtain rfl := List.mem_singleton.mp hq
        exact hcurrent
  | event =>
    by_cases hth : s.eventThread = .connectJoin
    · -- the list of a thread that can be joined is empty
      have hnil : r.list = [] := by
        have hlist := hsame.list
        simp only [Route.note, if_pos hth] at hlist
        have hempty := ((stepEvent_packets hs.same.live h).2.2.1 hth).2
        simpa [hempty] using hlist
      simp only [Route.note, if_pos hth] at hsame ⊢
      refine ⟨hsame, nofun, fun p hp => ?_, hs.kept⟩
      rw [hnil] at hp
      cases hp
    · simp only [Route.note, if_neg hth] at hsame ⊢
      exact ⟨hsame, hs.data, hs.list, hs.kept⟩
  | send =>
    cases hth : s.sendThread with
    | swap =>
      simp only [Route.note, Route.noteSend, hth] at hsame ⊢
      exact ⟨hsame, nofun, hs.data, hs.kept⟩
    | send list =>
      cases list with
      | nil =>
        simp only [Route.note, Route.noteSend, hth] at hsame ⊢
        exact ⟨hsame, hs.data, hs.list, hs.kept⟩
      | cons data rest =>
        cases hl : r.list with
        | nil =>
          simp only [Route.note, Route.noteSend, hth, hl] at hsame ⊢
          exact ⟨hsame, hs.data, hs.list, hs.kept⟩
        | cons p l =>
          have hlist : ∀ q ∈ p :: l, q.1 = r.attempts := fun q hq => hs.list q (hl ▸ hq)
          simp only [Route.note, Route.noteSend, hth, hl] at hsame ⊢
          refine ⟨hsame, hs.data, fun q hq => hlist q (List.mem_cons_of_mem _ hq), fun q hq => ?_⟩
          rcases List.mem_append.mp hq with hq | hq
          · exact hs.kept q hq
          · obtain rfl := List.mem_singleton.mp hq
            exact hlist p List.mem_cons_self
    | _ =>
      simp only [Route.note, Route.noteSend, hth] at hsame ⊢
      exact ⟨hsame, hs.data, hs.list, hs.kept⟩
  | _ => exact ⟨hsame, hs.data, hs.list, hs.kept⟩

/-- While no `send_message` appends behind a clear that its test was in front of, packets do not cross
connections. -/
theorem packets_kept (h : Run (noted step Route.note) Current (initial, noRoute) as x) : Kept x :=
  have hs : Onway x := h.invariant _ (fun _ _ _ hs hg hst => onway_step hs hg hst)
    ⟨same_initial, nofun, nofun, nofun⟩
  hs.kept

/-- A packet on the second of two connections. -/
theorem packets_kept_example : ∃ as x, Run (noted step Route.note) Current (initial, noRoute) as x ∧
    x.2.handed = [⟨2, 2, [7]⟩] ∧ Kept x :=
  have h := run_exec (noted step Route.note) Current (initial, noRoute)
    [.connect, .event, .event, .event, .event, .serve (.incident (.verifyConnect true)), .event, .connect,
      .event, .event, .send, .send, .send, .send, .event, .event,
      .serve (.incident (.verifyConnect true)), .event, .callSend [7], .push 0, .send, .send] (by decide)
  ⟨_, _, h, by decide, packets_kept h⟩

/-- A `send_message` that is overtaken between its test and its append. -/
theorem packet_crosses :
    ¬ ∀ as x, Run (noted step Route.note) Free (initial, noRoute) as x → Kept x := by
  intro h
  have hrun := run_exec (noted step Route.note) Free (initial, noRoute)
    [.connect, .event, .event, .event, .event, .serve (.incident (.verifyConnect true)), .event,
      .callSend [7], .connect, .event, .event, .send, .send, .send, .send, .event, .push 0, .event,
      .serve (.incident (.verifyConnect true)), .event, .send, .send] (by decide)
  have hkept := h _ _ hrun
  exact absurd hkept (by decide)

end NetworkUtility.EnetClient
