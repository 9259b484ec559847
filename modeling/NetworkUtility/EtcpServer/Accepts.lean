import NetworkUtility.EtcpServer.Registry

/-! The accept loop of `EtcpServerImpl`: its handler ends in `do_accept` whatever it is given. -/
namespace NetworkUtility.EtcpServer

open Machine

theorem Session.finished_step {o : ByteOrder} {s t : Session} {a : Session.Action}
    (hs : s.accept = .finished) (h : step o s a = some t) : t.accept = .finished := by
  cases a with
  | acceptStart => simp [step, hs] at h
  | accepted ok => simp [step, hs] at h
  | acceptCallback => simp [step, hs] at h
  | acceptAppend => simp [step, hs] at h
  | acceptRead => simp [step, hs] at h
  | acceptAgain => simp [step, hs] at h
  | _ => rw [accept_frame rfl h, hs]

namespace Server

variable {o : ByteOrder} {s t : Server} {a : Action} {k threadCount : Nat} {as : List Action}

/-- How many `async_accept` are outstanding. -/
def outstanding (s : Server) : Nat :=
  (List.range s.count).countP fun k => (s.sessions k).accept = .waiting

/-- One session at most is at its accept. -/
def OneAccept (s : Server) : Prop :=
  ∀ j < s.count, ∀ k < s.count,
    (s.sessions j).accept ≠ .finished → (s.sessions k).accept ≠ .finished → j = k

theorem oneAccept_initial (threadCount : Nat) : (initial threadCount).OneAccept := by
  have hcount : (initial threadCount).count = 1 := rfl
  intro j hj k hk _ _
  omega

theorem OneAccept.of_finished (hs : s.OneAccept) (hcount : t.count = s.count)
    (hfinished : ∀ k, (s.sessions k).accept = .finished → (t.sessions k).accept = .finished) :
    t.OneAccept := by
  intro j hj k hk hnj hnk
  rw [hcount] at hj hk
  exact hs j hj k hk (mt (hfinished j) hnj) (mt (hfinished k) hnk)

/-- Each step but the end of an accept handler leaves the number of sessions alone. -/
theorem count_step (ha : ∀ k, a ≠ .session k .acceptAgain) (h : step o s a = some t) :
    t.count = s.count := by
  cases effect_of_step h with
  | session k b =>
    cases b with
    | acceptAgain => exact absurd rfl (ha k)
    | _ => rfl
  | _ => rfl

theorem finished_step (hs : s.Wf) (h : step o s a = some t)
    (hk : (s.sessions k).accept = .finished) : (t.sessions k).accept = .finished := by
  cases moves_of_step hs h k with
  | same _ _ hsame => rw [hsame, hk]
  | append _ hst => exact Session.finished_step hk hst
  | remove _ hst => exact Session.finished_step hk hst
  | step _ b _ _ _ hst => exact Session.finished_step hk hst
  | visit _ _ heq =>
    rw [heq, Session.close]
    split <;> exact hk

/-- The end of an accept handler: the session is past its accept, as all others are. -/
theorem finished_of_again (hs : s.Wf) (hone : s.OneAccept)
    (h : step o s (.session k .acceptAgain) = some t) :
    ∀ j < s.count, (t.sessions j).accept = .finished := by
  intro j hj
  by_cases hjk : j = k
  · subst hjk
    obtain ⟨-, -, u, hu, rfl⟩ := session_of_step h
    rw [hs.put_follow hj, put_self]
    cases Session.effect_of_step hu with
    | acceptAgain => rfl
  · obtain ⟨hk, -, u, hu, -⟩ := session_of_step h
    have hnk : (s.sessions k).accept ≠ .finished := by
      cases Session.effect_of_step hu with
      | acceptAgain hagain => simp [hagain]
    apply finished_step hs h
    by_contra hnj
    exact hjk (hone j hj k hk hnj hnk)

theorem again_count (h : step o s (.session k .acceptAgain) = some t) :
    t.count = if t.acceptor then s.count + 1 else s.count := by
  obtain ⟨-, -, u, -, rfl⟩ := session_of_step h
  show ((s.put k u).doAccept).count = _
  have hacceptor : ((s.put k u).follow k .acceptAgain).acceptor = s.acceptor := by
    show ((s.put k u).doAccept).acceptor = _
    unfold doAccept
    split <;> rfl
  rw [hacceptor]
  cases hacc : s.acceptor with
  | true => simp [doAccept, put, hacc, getIoContext]
  | false => simp [doAccept, put, hacc]

theorem oneAccept_step (hs : s.Wf) (hone : s.OneAccept) (h : step o s a = some t) :
    t.OneAccept := by
  by_cases ha : ∃ k, a = .session k .acceptAgain
  · obtain ⟨k, rfl⟩ := ha
    have hfinished := finished_of_again hs hone h
    have hlast : ∀ j < t.count, (t.sessions j).accept ≠ .finished → j = s.count := by
      intro j hj hn
      have hge : ¬ j < s.count := fun hlt => hn (hfinished j hlt)
      rw [again_count h] at hj
      split at hj <;> omega
    intro i hi j hj hni hnj
    rw [hlast i hi hni, hlast j hj hnj]
  · have hno : ∀ k, a ≠ .session k .acceptAgain := fun k hk => ha ⟨k, hk⟩
    exact hone.of_finished (count_step hno h) fun k hk => finished_step hs h hk

theorem oneAccept_of_run (h : Run (step o) Free (initial threadCount) as s) :
    s.Wf ∧ s.OneAccept :=
  h.invariant (fun s => s.Wf ∧ s.OneAccept)
    (fun _ _ _ hs _ hst => ⟨wf_step hs.1 hst, oneAccept_step hs.1 hs.2 hst⟩)
    ⟨wf_initial threadCount, oneAccept_initial threadCount⟩

/-- When an accept handler has run to its end, one accept is outstanding. -/
theorem outstanding_of_handler (h : Run (step o) Free (initial threadCount) as s)
    (hst : step o s (.session k .acceptAgain) = some t) (hacceptor : t.acceptor = true) :
    t.outstanding = 1 := by
  obtain ⟨hs, hone⟩ := oneAccept_of_run h
  have hcount := again_count hst
  rw [if_pos hacceptor] at hcount
  have hnew : t.sessions s.count = .initial := by
    obtain ⟨hk, -, u, -, rfl⟩ := session_of_step hst
    rw [hs.put_follow hk, put_of_ne (Nat.ne_of_gt hk)]
    exact hs.unborn _ (Nat.le_refl _)
  have hfront : (List.range s.count).countP (fun k => (t.sessions k).accept = .waiting) = 0 := by
    rw [List.countP_eq_zero]
    intro j hj
    have hfinished := finished_of_again hs hone hst j (List.mem_range.mp hj)
    simp [hfinished]
  rw [outstanding, hcount, List.range_succ, List.countP_append, hfront]
  simp [hnew, Session.initial]

end Server

end NetworkUtility.EtcpServer
