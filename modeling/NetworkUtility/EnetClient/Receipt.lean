import NetworkUtility.EnetClient.Notices
import NetworkUtility.WebsocketClient.Receipt

/-! A packet is told between the two notices of its connection, if the callback thread is not behind
the send thread; with the same of the websocket client. -/
namespace NetworkUtility.EnetClient

open Enet Machine Turns

/-- The notices of received packets. -/
def Notice.isRecv : Notice → Bool
  | .recv _ => true
  | _ => false

/-- When a packet is told, the callback list holds no connect entry. -/
def Prompt (x : Talled) : Action → Prop
  | .send =>
    match x.1.sendThread with
    | .service (some (.receive _)) => true ∉ x.1.callbackList
    | _ => True
  | _ => True

instance (x : Talled) (a : Action) : Decidable (Prompt x a) := by
  unfold Prompt
  split
  · split <;> infer_instance
  · infer_instance

/-- Packets are told between the notices of their connections. -/
def Within (x : Talled) : Prop := Inside .connect .close Notice.isRecv x.2.told

variable {s t : State} {n : Tally} {x y : Talled} {a : Action} {as : List Action} {k : Nat}

/-- While the send thread runs, its connection is announced and not closed. -/
structure Heard (x : Talled) : Prop where
  live : Live x.1
  pending : x.2.pending.map Prod.snd = x.1.callbackList
  bound : ∀ e ∈ x.2.marks, e.1 ≤ x.2.attempts
  fresh : connects x.1 → (x.2.attempts, false) ∉ x.2.marks
  running : x.1.sendThread ≠ .none → x.1.sendThread ≠ .returned →
    (x.2.attempts, true) ∈ x.2.marks ∧ (x.2.attempts, false) ∉ x.2.marks
  within : Within x

theorem heard_initial : Heard (initial, noTally) :=
  ⟨live_initial, rfl, nofun, nofun, fun h => absurd rfl h, inside_nil⟩

theorem mem_delivered {connected : Bool} : (k, connected) ∈ n.delivered ↔
    (k, if connected then Notice.connect else .close) ∈ n.told := by
  simp only [Tally.delivered, List.mem_filterMap, Option.map_eq_some_iff, Prod.mk.injEq]
  constructor
  · rintro ⟨⟨j, notice⟩, hmem, b, hb, rfl, rfl⟩
    cases notice <;> cases hb <;> exact hmem
  · intro hmem
    refine ⟨_, hmem, connected, ?_, rfl, rfl⟩
    cases connected <;> rfl

/-- A step that tells at most an error, and pushes these entries. -/
theorem Heard.push (hs : Heard (s, n)) (hlive : Live t) {l : List Notice} {m : List Bool}
    (hlog : t.log = s.log ++ l) (hl : ∀ notice ∈ l, notice.mark = none ∧ notice.isRecv = false)
    (hlist : t.callbackList = s.callbackList ++ m) (hk : n.attempts ≤ k)
    (hfresh : connects t → (k, false) ∉ n.marks ++ m.map (k, ·))
    (hrunning : t.sendThread ≠ .none → t.sendThread ≠ .returned →
      (k, true) ∈ n.marks ++ m.map (k, ·) ∧ (k, false) ∉ n.marks ++ m.map (k, ·)) :
    Heard (t, n.push k s t) := by
  have hmarks := push_marks (n := n) (k := k) hlog (fun notice h => (hl notice h).1) hlist
  refine ⟨hlive, push_pending hs.pending hlist, fun e he => ?_, ?_, ?_, ?_⟩
  · rw [hmarks, List.mem_append] at he
    rcases he with he | he
    · exact le_trans (hs.bound e he) hk
    · obtain ⟨b, -, rfl⟩ := List.mem_map.mp he
      exact Nat.le_refl _
  · rw [hmarks]
    exact hfresh
  · rw [hmarks]
    exact hrunning
  · have htold : (n.push k s t).told = n.told ++ l.map (k, ·) := by
      simp [Tally.push, hlog]
    unfold Within
    rw [htold]
    exact hs.within.append fun notice h => (hl notice h).2

/-- Nothing is told and nothing is pushed. -/
theorem Heard.quiet (hs : Heard (s, n)) (hlive : Live t) (hlog : t.log = s.log)
    (hlist : t.callbackList = s.callbackList) (hcon : connects t → connects s)
    (hrunning : t.sendThread ≠ .none → t.sendThread ≠ .returned →
      s.sendThread ≠ .none ∧ s.sendThread ≠ .returned) : Heard (t, n.push n.attempts s t) := by
  refine hs.push hlive (l := []) (m := []) (by simpa using hlog) nofun (by simpa using hlist)
    (Nat.le_refl _) (fun h => ?_) fun h h' => ?_
  · simpa using hs.fresh (hcon h)
  · obtain ⟨hne, hr⟩ := hrunning h h'
    simpa using hs.running hne hr

theorem heard_event (hs : Heard (s, n)) (h : s.stepEvent = some t) :
    Heard (t, n.push (if s.eventThread = .connectJoin then n.attempts + 1 else n.attempts) s t) := by
  have hlive : Live t := live_event hs.live h
  cases State.effect_of_event h with
  | takeConnect _ hth | takeClose _ hth | connectReset hth | connectFree hth | closeOpen hth
  | closeShut hth =>
    rw [if_neg (by simp [hth])]
    exact hs.quiet hlive rfl rfl (by rintro ⟨⟩) fun h h' => ⟨h, h'⟩
  | closeDisconnect hth =>
    rw [if_neg (show ¬ s.eventThread = .connectJoin by simp [hth])]
    exact hs.quiet hlive rfl rfl (by rintro ⟨⟩) fun h h' => ⟨h, h'⟩
  | connectJoin hth =>
    rw [if_pos hth]
    refine hs.push hlive (l := []) (m := []) (by simp) (by simp) (by simp) (Nat.le_succ _)
      (fun _ hin => ?_)
      fun h => absurd rfl h
    have hle := hs.bound (n.attempts + 1, false) (by simpa using hin)
    simp at hle
  | connectRefused hth =>
    rw [if_neg (by simp [hth])]
    have hnone := hs.live.none_of_connects (by simp [connects, hth])
    exact hs.push hlive rfl (by simp [Notice.mark, Notice.isRecv]) rfl (Nat.le_refl _) (by rintro ⟨⟩)
      fun h => absurd hnone h
  | connectHost p hth =>
    rw [if_neg (by simp [hth])]
    exact hs.quiet hlive rfl rfl (fun _ => by simp [connects, hth]) fun h h' => ⟨h, h'⟩
  | connected hth =>
    rw [if_neg (by simp [hth])]
    have hcon : connects s = true := by simp [connects, hth]
    refine hs.push hlive (l := []) (by simp [State.onConnect]) (by simp) rfl (Nat.le_refl _)
      (by rintro ⟨⟩)
      fun _ _ => ⟨by simp, ?_⟩
    simpa using hs.fresh hcon
  | connectFailed event hth =>
    rw [if_neg (by simp [hth])]
    have hnone := hs.live.none_of_connects (by simp [connects, hth])
    exact hs.push hlive (l := []) (by simp [State.onClose]) (by simp) rfl (Nat.le_refl _) (by rintro ⟨⟩)
      fun h => absurd hnone h
  | closeJoin hth =>
    rw [if_neg (by simp [hth])]
    exact hs.push hlive (l := []) (by simp [State.onClose]) (by simp) rfl (Nat.le_refl _) (by rintro ⟨⟩)
      fun h => absurd rfl h

/-- The send thread tells a packet. -/
theorem heard_receive (hs : Heard (s, n)) (hlive : Live t) {packet : Bytes}
    (hth : s.sendThread = .service (some (.receive packet))) (hg : true ∉ s.callbackList)
    (ht : t = { s with log := s.log ++ [.recv packet], sendThread := .swap }) :
    Heard (t, n.push n.attempts s t) := by
  subst ht
  have hmarks : (n.push n.attempts s { s with
      log := s.log ++ [.recv packet]
      sendThread := .swap }).marks = n.marks := by
    have hpush := push_marks (n := n) (k := n.attempts) (s := s) (m := []) (t := { s with
      log := s.log ++ [.recv packet]
      sendThread := .swap }) rfl (by simp [Notice.mark]) (by simp)
    simpa using hpush
  obtain ⟨hopened, hclosed⟩ := hs.running (by simp [hth]) (by simp [hth])
  have hcon : connects s = false := hs.live.not_connects (by simp [hth])
  refine ⟨hlive, push_pending (m := []) hs.pending (by simp), ?_, fun hc => ?_, fun _ _ => ?_, ?_⟩
  · rw [hmarks]
    exact hs.bound
  · have hno : connects s = true := hc
    simp [hcon] at hno
  · rw [hmarks]
    exact ⟨hopened, hclosed⟩
  · have htold : (n.push n.attempts s { s with
        log := s.log ++ [.recv packet]
        sendThread := .swap }).told = n.told ++ [(n.attempts, .recv packet)] := by
      simp [Tally.push]
    unfold Within
    rw [htold]
    refine hs.within.concat fun _ => ⟨?_, fun hin => ?_⟩
    · rcases List.mem_append.mp hopened with hin | hin
      · exact mem_delivered.mp hin
      · have htrue : true ∈ n.pending.map Prod.snd := List.mem_map.mpr ⟨_, hin, rfl⟩
        rw [hs.pending] at htrue
        exact absurd htrue hg
    · exact hclosed (List.mem_append_left _ (mem_delivered.mpr hin))

theorem heard_send (hs : Heard (s, n)) (hg : Prompt (s, n) .send) (h : s.stepSend = some t) :
    Heard (t, n.push n.attempts s t) := by
  have hlive : Live t := live_send hs.live h
  cases State.effect_of_send h with
  | swap hth | sendDone hth | sendData _ _ hth | again hth | waited hth | testOpen hth | testShut hth =>
    exact hs.quiet hlive rfl rfl id fun _ _ => by simp [hth]
  | received packet hth =>
    refine heard_receive hs hlive hth ?_ rfl
    simpa [Prompt, hth] using hg
  | disconnected hth =>
    have hcon : connects s = false := hs.live.not_connects (by simp [hth])
    refine hs.push hlive (l := []) (by simp [State.onClose]) (by simp) rfl (Nat.le_refl _) (fun hc => ?_)
      fun _ hr => absurd rfl hr
    have hno : connects s = true := hc
    simp [hcon] at hno

theorem heard_callback (hs : Heard (s, n)) (hlive : Live t) (h : step s .callback = some t) :
    Heard (t, n.note s .callback t) := by
  obtain ⟨k, b, rest, -, hnote, -, hmarks, rfl⟩ := note_callback hs.pending h
  have hattempts : ((n.note s .callback { s with
      callbackList := rest.map Prod.snd
      log := s.log ++ [if b then .connect else .close] }).attempts) = n.attempts := by
    rw [hnote]
  refine ⟨hlive, ?_, ?_, ?_, ?_, ?_⟩
  · rw [hnote]
  · rw [hmarks, hattempts]
    exact hs.bound
  · rw [hmarks, hattempts]
    exact hs.fresh
  · rw [hmarks, hattempts]
    exact hs.running
  · unfold Within
    rw [hnote]
    refine hs.within.concat fun hr => ?_
    cases b <;> cases hr

theorem heard_step (hs : Heard x) (hg : Prompt x a) (h : noted step Tally.note x a = some y) :
    Heard y := by
  obtain ⟨s, n⟩ := x
  obtain ⟨t, ht, rfl⟩ := Option.map_eq_some_iff.mp h
  clear h
  have h : step s a = some t := ht
  have hlive : Live t := live_step hs.live h
  cases effect_of_step h with
  | connect | close | callSend | push =>
    exact hs.quiet hlive rfl rfl id fun h h' => ⟨h, h'⟩
  | event _ hst => exact heard_event hs hst
  | send _ hst => exact heard_send hs hg hst
  | callback => exact heard_callback hs hlive h
  | serve _ _ hst =>
    cases State.effect_of_serve hst with
    | connecting event event' p hth =>
      exact hs.quiet hlive rfl rfl (fun _ => by simp [connects, hth]) fun h h' => ⟨h, h'⟩
    | sending event event' p hth =>
      exact hs.quiet hlive rfl rfl id fun _ _ => by simp [hth]

theorem within_of_run (h : Run (noted step Tally.note) Prompt (initial, noTally) as x) : Within x :=
  (h.invariant _ (fun _ _ _ hs hg hst => heard_step hs hg hst) heard_initial).within

/-- While a callback thread that is behind holds no connect entry when a packet or message is told, and
none that is ahead has told the close, the sinks of both clients see it inside its connection. -/
theorem received_inside {inline : Bool} {cs : List WebsocketClient.Action} {c : WebsocketClient.State}
    (hx : Run (noted step Tally.note) Prompt (initial, noTally) as x)
    (hc : Run (WebsocketClient.step inline) WebsocketClient.Prompt WebsocketClient.initial cs c) :
    Within x ∧ WebsocketClient.Within c :=
  ⟨within_of_run hx, WebsocketClient.within_of_run hc⟩

/-- Both callback threads are in time. -/
theorem received_inside_example : ∃ as x cs c,
    Run (noted step Tally.note) Prompt (initial, noTally) as x ∧
    Run (WebsocketClient.step true) WebsocketClient.Prompt WebsocketClient.initial cs c ∧
    x.2.told = [(1, .connect), (1, .recv [7])] ∧ c.log = [(1, .connect), (1, .recv [7] true)] ∧
    Within x ∧ WebsocketClient.Within c :=
  have hx := run_exec (noted step Tally.note) Prompt (initial, noTally)
    [.connect, .event, .event, .event, .event, .serve (.incident (.verifyConnect true)), .event, .callback,
      .send, .send, .serve (.incident (.packet [7])), .serve .dispatch, .send] (by decide)
  have hc := run_exec (WebsocketClient.step true) WebsocketClient.Prompt WebsocketClient.initial
    [.connect, .event, .event, .event, .event, .event, .work, .realConnect none, .opened, .work, .work,
      .callback, .receive [7] true, .work] (by decide)
  ⟨_, _, _, _, hx, hc, by decide, by decide, received_inside hx hc⟩

/-- The callback threads are behind: the first thing the sinks see is the data. -/
theorem received_before_connect :
    (¬ ∀ as x, Run (noted step Tally.note) Free (initial, noTally) as x → Within x) ∧
    ¬ ∀ as c, Run (WebsocketClient.step true) Free WebsocketClient.initial as c →
      WebsocketClient.Within c := by
  constructor
  · intro h
    have hrun := run_exec (noted step Tally.note) Free (initial, noTally)
      [.connect, .event, .event, .event, .event, .serve (.incident (.verifyConnect true)), .event, .send,
        .send, .serve (.incident (.packet [7])), .serve .dispatch, .send] (by decide)
    have hinside := h _ _ hrun [] 1 (.recv [7]) [] (by decide) rfl
    exact absurd hinside.1 (by decide)
  · intro h
    have hrun := run_exec (WebsocketClient.step true) Free WebsocketClient.initial
      [.connect, .event, .event, .event, .event, .event, .work, .realConnect none, .opened, .work, .work,
        .receive [7] true, .work] (by decide)
    have hinside := h _ _ hrun [] 1 (.recv [7] true) [] (by decide) rfl
    exact absurd hinside.1 (by decide)

end NetworkUtility.EnetClient
