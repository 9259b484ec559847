import NetworkUtility.EtcpClient.Chain

/-! Who closes the socket of an attempt. A handler that `do_proxy` started for an earlier attempt
can, unless no `real_connect` runs while one is outstanding. -/
namespace NetworkUtility.EtcpClient

open Etcp Machine

variable {e : Env} {s t : State} {a : Action} {request : Bytes} {as : List Action}

def ofProxy (op : Op) : Bool := op == .proxyWrite || op == .proxyRead

/-- The step closes the open socket, or puts another in its place. -/
def Closes (s t : State) : Prop :=
  s.socket.isOpen ∧ ¬ (t.socket.isOpen ∧ t.socket.conn = s.socket.conn)

/-- A task posted after the `do_connect` of the current attempt. -/
def laterTask (s : State) : Handler → Bool
  | .doConnect ticket | .doClose ticket => s.born s.socket.conn < ticket
  | _ => false

/-- The current attempt has failed: an error of its socket, a header without the sign, a response
that is not 2xx. -/
def ownError (e : Env) (s : State) : Handler → Bool
  | .complete conn _ (.failure _) => conn = s.socket.conn
  | .complete conn .readHead (.success _) =>
    conn = s.socket.conn && checkHead e.order s.recvHead = .badSign
  | .complete conn .proxyRead (.success _) =>
    conn = s.socket.conn && ! succeeded (httpStatus s.response)
  | _ => false

/-- Whatever step comes next, it closes the socket only on account of its own attempt. -/
def OwnClose (e : Env) (s : State) : Prop :=
  ∀ a t, step e s a = some t → Closes s t →
    ∃ h rest, s.ready = h :: rest ∧ (laterTask s h ∨ ownError e s h)

/-- `real_connect` runs only with no operation of `do_proxy` outstanding, and where closing keeps
queued successes, with none of the old connection but a write's. -/
def Apart (e : Env) (s : State) (a : Action) : Prop :=
  Clean e mainOp s a ∧ (connects s a = true → ∀ x ∈ s.chain mainOp, ofProxy x.op = false)

instance : Decidable (Apart e s a) := inferInstanceAs (Decidable (_ ∧ (_ → _)))

/-- No handler of an earlier attempt's `do_proxy` is left. -/
def ProxyGone (s : State) : Prop :=
  ∀ x ∈ s.chain mainOp, x.conn < s.socket.conn → ofProxy x.op = false

theorem proxyGone_outside (hs : Chained e mainOp s) (hp : ProxyGone s) (hu : Unmoved t s)
    (h : Outside s t) : ProxyGone t := by
  intro x hx hlt
  obtain ⟨y, hy, hop, hconn⟩ := chain_origin hs.ordered hu h x hx
  rw [hu.conn, ← hconn] at hlt
  rw [← hop]
  exact hp y hy hlt

theorem proxyGone_pop {h : Handler} {rest : List Handler} (hp : ProxyGone s)
    (hr : s.ready = h :: rest) : ProxyGone { s with ready := rest } := by
  intro x hx hlt
  apply hp x _ hlt
  rw [State.chain_pop _ hr]
  exact List.mem_append_right _ hx

theorem proxyGone_release (hs : Chained e mainOp s) (hp : ProxyGone s) :
    ProxyGone (s.release e.closing) := by
  intro x hx hlt
  rw [hs.chain_release] at hx
  split at hx
  · obtain ⟨y, hy, rfl⟩ := List.mem_map.mp hx
    rw [conn_settled] at hlt
    rw [op_settled]
    exact hp y hy hlt
  · exact hp x hx hlt

theorem proxyGone_start (hs : Chained e mainOp s) (hp : ProxyGone s) (op : Op) (data : Bytes) :
    ProxyGone (s.start op data) := by
  intro x hx hlt
  by_cases hop : mainOp op = true
  · rw [State.chain_start hs.idle hop] at hx
    rcases List.mem_append.mp hx with hx | hx
    · exact hp x hx hlt
    · obtain rfl := List.mem_singleton.mp hx
      exact absurd hlt (Nat.lt_irrefl _)
  · rw [State.chain_start_unselected (by simpa using hop)] at hx
    exact hp x hx hlt

theorem proxyGone_turn {h : Handler} (hs : Chained e mainOp s) (hp : ProxyGone s)
    (ht : Turn e s h t) : ProxyGone t := by
  have hlike {u : State} (hu : ProxyGone u) (hl : Like t u) : ProxyGone t := by
    intro x hx hlt
    rw [State.chain_like hl] at hx
    rw [hl.conn] at hlt
    exact hu x hx hlt
  cases ht with
  | stay _ _ hl => exact hlike hp hl
  | close _ _ hl => exact hlike (proxyGone_release hs hp) hl
  | send _ _ data _ _ hl => exact hlike (proxyGone_start hs hp _ data) hl
  | next _ _ _ op' data _ _ hl => exact hlike (proxyGone_start hs hp _ data) hl
  | found _ _ n _ hl =>
    refine hlike ?_ hl
    intro x hx hlt
    rcases State.mem_chain_queue hx with hx | hx
    · exact hp x hx hlt
    · exact absurd hlt (by simp [State.queue, hx])

theorem proxyGone_step (hs : Chained e mainOp s) (hp : ProxyGone s) (hg : Apart e s a)
    (h : step e s a = some t) : ProxyGone t := by
  rcases effect_cases (effect_of_step h) with ⟨hu, ho⟩ | ⟨hd, rest, rfl, hr, rfl⟩
  · exact proxyGone_outside hs hp hu ho
  · by_cases hc : ∃ ticket, hd = .doConnect ticket
    · obtain ⟨ticket, rfl⟩ := hc
      have hpop := hs.pop hr
      have hnone : ∀ x ∈ State.chain { s with ready := rest } mainOp, ofProxy x.op = false := by
        intro x hx
        apply hg.2 (by simp [connects, hr])
        rw [State.chain_pop _ hr]
        exact List.mem_append_right _ hx
      intro x hx _
      rw [State.runHandler, chain_realConnect hpop, hpop.chain_release] at hx
      rcases List.mem_append.mp hx with hx | hx
      · split at hx
        · obtain ⟨y, hy, rfl⟩ := List.mem_map.mp hx
          rw [op_settled]
          exact hnone y hy
        · exact hnone x hx
      · obtain rfl := List.mem_singleton.mp hx
        rfl
    · exact proxyGone_turn (hs.pop hr) (proxyGone_pop hp hr)
        (turn_of_run hd fun ticket h => hc ⟨ticket, h⟩)

/-- What a guarded run keeps. -/
structure Separated (e : Env) (s : State) : Prop where
  chained : Chained e mainOp s
  proxyGone : ProxyGone s
  posted : Posted s

theorem separated_run (h : Run (step e) (Apart e) (initial request) as s) : Separated e s := by
  apply h.invariant (Separated e)
  · intro s a t hs hg hst
    exact ⟨chained_step leading_mainOp hs.chained hg.1 hst,
      proxyGone_step hs.chained hs.proxyGone hg hst, posted_step hs.posted hst⟩
  · refine ⟨chained_initial request, ?_, posted_initial request⟩
    intro x hx
    simp [State.chain, State.items, initial] at hx

theorem runSend_socket (pack : Bytes) : (s.runSend e pack).socket = s.socket := by
  simp only [State.runSend, State.doWrite]
  split
  · split
    · split <;> rfl
    · rfl
  · rfl

theorem onWritten_socket (res : Result) : (s.onWritten res).socket = s.socket := by
  cases res with
  | failure err => rfl
  | success len =>
    simp only [State.onWritten, State.doWrite]
    split
    · split <;> rfl
    · rfl

theorem onConnected_socket (conn : Nat) (res : Result) :
    (s.onConnected e conn res).socket = s.socket := by
  cases res with
  | failure err => rfl
  | success len =>
    simp only [State.onConnected]
    split <;> rfl

theorem not_closes (h : t.socket = s.socket) : ¬ Closes s t := by
  intro hc
  exact hc.2 ⟨h ▸ hc.1, by rw [h]⟩

/-- A handler of `do_proxy`, and one that succeeded, is of the current attempt. -/
theorem Separated.conn_eq {conn : Nat} {op : Op} {res : Result} {rest : List Handler}
    (hs : Separated e s) (hr : s.ready = .complete conn op res :: rest) (hm : mainOp op = true)
    (ho : ofProxy op = true ∨ ∃ len, res = .success len) : conn = s.socket.conn := by
  obtain ⟨st, _, hitem⟩ := item_complete conn op res
  have hx : (⟨conn, op, st⟩ : Item) ∈ s.chain mainOp := by
    rw [State.chain_pop _ hr, hitem]
    simp [hm]
  rcases Nat.lt_or_eq_of_le (hs.chained.bounded _ hx) with hlt | heq
  · rcases ho with hop | ⟨len, rfl⟩
    · have hno := hs.proxyGone _ hx hlt
      simp [hop] at hno
    · have hfail := hs.chained.past _ hx hlt
      simp_all [Handler.item?]
  · exact heq

theorem ownClose_of_separated (hs : Separated e s) : OwnClose e s := by
  intro a t hst hcl
  rcases effect_cases (effect_of_step hst) with ⟨hu, _⟩ | ⟨hd, rest, rfl, hr, rfl⟩
  · exact absurd ⟨hu.isOpen ▸ hcl.1, hu.conn⟩ hcl.2
  · refine ⟨hd, rest, hr, ?_⟩
    cases hd with
    | doConnect ticket =>
      have hlt := ((hs.posted.pop hr).2 ticket rfl).1
      exact Or.inl (by simpa [laterTask] using hlt)
    | doClose ticket =>
      have hlt := ((hs.posted.pop hr).2 ticket rfl).1
      exact Or.inl (by simpa [laterTask] using hlt)
    | sendMessage ticket pack => exact absurd hcl (not_closes (runSend_socket pack))
    | complete conn op res =>
      refine Or.inr ?_
      cases op with
      | connect => exact absurd hcl (not_closes (onConnected_socket conn res))
      | write => exact absurd hcl (not_closes (onWritten_socket res))
      | readBody => cases res <;> exact absurd hcl (not_closes rfl)
      | proxyWrite =>
        have hconn := hs.conn_eq hr rfl (Or.inl rfl)
        cases res with
        | failure err => simp [ownError, hconn]
        | success len =>
          refine absurd hcl (not_closes ?_)
          simp only [State.runHandler, State.onComplete, State.onProxyWritten, State.readUntil]
          split <;> rfl
      | proxyRead =>
        have hconn := hs.conn_eq hr rfl (Or.inl rfl)
        cases res with
        | failure err => simp [ownError, hconn]
        | success len =>
          by_cases hok : succeeded (httpStatus s.response) = true
          · refine absurd hcl ?_
            intro hc
            apply hc.2
            simp only [State.runHandler, State.onComplete, State.onProxyRead, hok, if_true]
            exact ⟨hc.1, rfl⟩
          · simp [ownError, hconn, hok]
      | readHead =>
        cases res with
        | failure err => exact absurd hcl (not_closes rfl)
        | success len =>
          have hconn := hs.conn_eq hr rfl (Or.inr ⟨len, rfl⟩)
          cases hcheck : checkHead e.order s.recvHead with
          | badSign => simp [ownError, hconn, hcheck]
          | empty =>
            refine absurd hcl (not_closes ?_)
            simp only [State.runHandler, State.onComplete, State.onReadHead, hcheck]
            rfl
          | body n =>
            refine absurd hcl (not_closes ?_)
            simp only [State.runHandler, State.onComplete, State.onReadHead, hcheck]
            rfl

/-- While every `real_connect` finds the handshake before it over, a socket that is open is closed
only by a task posted after its own `do_connect`, or by an error of its own attempt. -/
theorem closed_by_own_attempt (h : Run (step e) (Apart e) (initial request) as s) : OwnClose e s :=
  ownClose_of_separated (separated_run h)

/-- A close and a connect after a finished handshake. -/
theorem closed_by_own_attempt_example :
    ∃ e as s, Run (step e) (Apart e) (initial [67, 79, 78]) as s ∧ s.socket.conn = 2 ∧
      s.socket.isOpen = true ∧ OwnClose e s :=
  have h := run_exec (step ⟨.little, .keep, fun _ => ""⟩) (Apart ⟨.little, .keep, fun _ => ""⟩)
    (initial [67, 79, 78])
    [.callConnect, .post 0, .run, .connected 0, .run, .transfer 0 3, .run,
      .receive 0 [72, 84, 84, 80, 47, 49, 32, 50, 48, 48, 13, 10, 13, 10], .run, .callClose, .post 0,
      .run, .run, .callConnect, .post 0, .run] (by decide)
  ⟨_, _, _, h, by decide, by decide, closed_by_own_attempt h⟩

/-- The second `connect()` comes while the request of the first attempt is being written: the
aborted write's handler closes the socket of the second attempt. -/
theorem closed_by_earlier_attempt :
    ¬ ∀ as s, Run (step ⟨.little, .keep, fun _ => ""⟩) Free (initial [67, 79, 78]) as s →
      OwnClose ⟨.little, .keep, fun _ => ""⟩ s := by
  intro h
  have hrun := run_exec (step ⟨.little, .keep, fun _ => ""⟩) Free (initial [67, 79, 78])
    [.callConnect, .post 0, .run, .connected 0, .run, .callConnect, .post 0, .post 0, .run, .run]
    (by decide)
  have hown := h _ _ hrun .run _ (Option.some_get (by decide)).symm
  obtain ⟨hd, rest, hready, hwhy⟩ := hown (by unfold Closes; decide)
  have hhead : hd = .complete 1 .proxyWrite (.failure .aborted) := by
    have hq := congrArg List.head? hready
    exact (Option.some.inj hq).symm
  subst hhead
  revert hwhy
  decide

end NetworkUtility.EtcpClient
