import NetworkUtility.EtcpServer.Server

/-! Behind the closing pass of `clear_sessions` every session in the map is closed or has a close task,
if no session is appended later that its user has not closed. -/
namespace NetworkUtility.EtcpServer

open Etcp Machine

/-- The closing pass is over. -/
def Exit.passed : Exit → Bool
  | .waiting => true
  | .ended => true
  | _ => false

/-- The closing pass has still to come to session `k`. -/
def Exit.Owes : Exit → Nat → Prop
  | .closing rest, k => k ∈ rest
  | .waiting, _ => False
  | .ended, _ => False
  | _, _ => True

namespace Session

variable {o : ByteOrder} {s t : Session} {a : Session.Action}

/-- `on_close` has begun, or a close task is pending. -/
def Ending (s : Session) : Prop := s.closed = true ∨ .doClose ∈ s.ready

theorem ending_close (s : Session) : s.close.Ending := by
  unfold close
  split
  · next hc => exact .inl hc
  · exact .inr (List.mem_append_right _ (List.mem_singleton_self _))

/-- Nothing refers to a session that nobody has to close. -/
theorem closed_of_not_held (hs : s.Sound) (h : ¬ s.Held) : s.closed = true := by
  simp only [Held, not_or, not_not] at h
  obtain ⟨haccept, -, -, -, hready, hpending⟩ := h
  by_contra hc
  rw [Bool.not_eq_true] at hc
  rcases hs.chain hc with htokens | hmem
  · simp [tokens, haccept, hready, hpending, Accept.before] at htokens
  · simp [hready] at hmem

theorem ending_progress {i : Nat} {p : Pending} (hs : s.Ending) (whole : Bool) :
    (s.progress i p whole).Ending := by
  unfold progress
  split
  · exact hs.imp_right (List.mem_append_left _)
  · exact hs

theorem ending_run {i : Nat} {task : Task} (hs : s.Ending) (htask : s.ready[i]? = some task) :
    ((s.dequeue i).runTask o task).Ending := by
  have hleaves : (s.dequeue i).Leaves task _ := leaves_runTask (o := o)
  rcases hs with hc | hmem
  · exact .inl (hleaves.closed hc)
  · by_cases heq : task = .doClose
    · subst heq
      exact .inl rfl
    · exact .inr (hleaves.tasks (Index.mem_eraseIdx_of_ne htask hmem (Ne.symm heq)))

/-- A session that has been accepted is not opened again. -/
theorem ending_step (hs : s.Sound) (hlog : s.log ≠ []) (he : s.Ending) (h : step o s a = some t) :
    t.Ending := by
  have hbegun := hs.begun hlog
  cases effect_of_step h with
  | run _ _ htask => exact ending_run he htask
  | accepted _ hc => simp [hc, Accept.begun] at hbegun
  | acceptStart hc => simp [hc, Accept.begun] at hbegun
  | acceptFailed hc => simp [hc, Accept.begun] at hbegun
  | acceptCallback hc => simp [hc, Accept.begun] at hbegun
  | acceptAppend => exact he
  | acceptRead => exact he.imp_right (mem_ready_start · .readHead [])
  | acceptAgain | keep | callClose | callSend => exact he
  | postClose | postSend => exact he.imp_right (List.mem_append_left _)
  | close => exact ending_close s
  | closeCallback | closeRemove => exact he
  | transfer | receiveHead | receiveBody => exact ending_progress (by exact he) _
  | fail => exact he.imp_right (List.mem_append_left _)

end Session

namespace Server

variable {o : ByteOrder} {s t : Server} {a : Action} {as : List Action} {k threadCount : Nat}

/-- A session that is appended behind the closing pass has been closed inside `on_etcp_accept`. -/
def Warned (s : Server) : Action → Prop
  | .session k .acceptAppend => s.exit.passed → (s.sessions k).told
  | _ => True

instance (s : Server) (a : Action) : Decidable (s.Warned a) := by
  unfold Warned
  split <;> infer_instance

/-- `exit` waits for nobody who was not told to close. -/
def Draining (s : Server) : Prop :=
  s.exit.passed → ∀ k ∈ s.sessionMap, (s.sessions k).closed = true ∨ .doClose ∈ (s.sessions k).ready

/-- The closing pass comes to every session in the map that is not ending. -/
structure Due (s : Server) : Prop where
  wf : s.Wf
  owed : ∀ k ∈ s.sessionMap, s.exit.Owes k ∨ (s.sessions k).Ending

theorem due_initial (threadCount : Nat) : (initial threadCount).Due :=
  ⟨wf_initial threadCount, fun _ hk => nomatch hk⟩

theorem Due.draining (hs : s.Due) : s.Draining := by
  intro hpassed k hk
  refine (hs.owed k hk).resolve_left fun howes => ?_
  cases hexit : s.exit <;> simp [hexit, Exit.passed, Exit.Owes] at hpassed howes

theorem owes_of_unlocked (h : ¬ s.Locked) (hpassed : ¬ s.exit.passed = true) (k : Nat) :
    s.exit.Owes k := by
  cases hexit : s.exit with
  | closing rest => exact absurd ⟨rest, hexit⟩ h
  | waiting => simp [hexit, Exit.passed] at hpassed
  | ended => simp [hexit, Exit.passed] at hpassed
  | _ => trivial

theorem owed_session {j k : Nat} {b : Session.Action} (hs : s.Due) (hg : s.Warned (.session j b))
    (h : step o s (.session j b) = some t) (hk : k ∈ t.sessionMap) :
    t.exit.Owes k ∨ (t.sessions k).Ending := by
  have hmoves := moves_of_step hs.wf h k
  have hsound := (wf_step hs.wf h).sound k
  obtain ⟨-, hallows, u, -, rfl⟩ := session_of_step h
  rw [follow_exit]
  cases hmoves with
  | same _ _ hsame hiff =>
    rw [hsame]
    exact hs.owed k (hiff.mp hk)
  | append _ hst =>
    by_cases hpassed : s.exit.passed = true
    · right
      have htold : (((s.put j u).follow j .acceptAppend).sessions j).told = (s.sessions j).told := by
        generalize ((s.put j u).follow j .acceptAppend).sessions j = v at hst
        cases Session.effect_of_step hst with
        | acceptAppend => rfl
      exact hsound.told (htold.trans (hg hpassed))
    · exact .inl (owes_of_unlocked hallows hpassed j)
  | remove _ _ hout => exact absurd hk hout
  | step _ _ _ _ _ hst hiff =>
    have hmem := hiff.mp hk
    refine (hs.owed k hmem).imp_right fun he => ?_
    exact Session.ending_step (hs.wf.sound k) (hs.wf.listed k hmem) he hst

theorem due_step (hs : s.Due) (hg : s.Warned a) (h : step o s a = some t) : t.Due := by
  refine ⟨wf_step hs.wf h, ?_⟩
  intro k hk
  cases effect_of_step h with
  | session => exact owed_session hs hg h hk
  | reset => exact .inl trivial
  | lock => exact .inl hk
  | visit j rest hrest =>
    by_cases hkj : k = j
    · subst hkj
      right
      show Session.Ending ((s.put k _).sessions k)
      rw [put_self]
      split
      · exact Session.ending_close _
      · next hheld => exact .inl (Session.closed_of_not_held (hs.wf.sound k) hheld)
    · rcases hs.owed k hk with howes | he
      · left
        rw [hrest] at howes
        exact Finset.mem_erase.mpr ⟨hkj, howes⟩
      · right
        exact (put_of_ne (s := s) hkj _).symm ▸ he
  | unlock hexit =>
    have howed := hs.owed k hk
    rw [hexit] at howed
    exact .inr (howed.resolve_left (Finset.notMem_empty k))
  | leave hexit =>
    have howed := hs.owed k hk
    rwa [hexit] at howed

/-- While only sessions that were closed inside `on_etcp_accept` are appended behind the closing pass,
every session in the map is closed or about to be. -/
theorem shutdown_drains (h : Run (step o) Warned (initial threadCount) as s) : s.Draining :=
  (h.invariant _ (fun _ _ _ hs hg hst => due_step hs hg hst) (due_initial threadCount)).draining

/-- One session is closed by the pass, another inside `on_etcp_accept` and appended behind it. -/
theorem shutdown_drains_example : ∃ as s, Run (step .little) Warned (initial 2) as s ∧
    s.exit = .waiting ∧ s.sessionMap = {0, 1} ∧ s.Draining :=
  have h := run_exec (step .little) Warned (initial 2)
    [.session 0 (.accepted true), .session 0 .acceptStart, .session 0 .acceptCallback,
      .session 0 .acceptAppend, .session 0 .acceptRead, .session 0 .acceptAgain,
      .session 1 (.accepted true), .reset, .session 1 .acceptStart, .session 1 .acceptCallback,
      .session 1 .callClose, .session 1 (.post 0), .lock, .visit 0, .unlock,
      .session 1 .acceptAppend] (by decide)
  ⟨_, _, h, by decide, by decide, shutdown_drains h⟩

/-- The accept that was queued before the reset is handled behind the pass: nobody closes its
session. -/
theorem late_session : ¬ ∀ as s, Run (step .little) Free (initial 2) as s → s.Draining := by
  intro h
  have hrun := run_exec (step .little) Free (initial 2)
    [.session 0 (.accepted true), .reset, .lock, .unlock, .session 0 .acceptStart,
      .session 0 .acceptCallback, .session 0 .acceptAppend, .session 0 .acceptRead,
      .session 0 .acceptAgain] (by decide)
  exact absurd (h _ _ hrun (by decide) 0 (by decide)) (by decide)

end Server

end NetworkUtility.EtcpServer
