import NetworkUtility.EtcpClient.WriteSide

/-! The gateway handshake has the socket for itself when packets are sent behind its response. -/
namespace NetworkUtility.EtcpClient

open Etcp Machine

variable {e : Env} {s t : State} {a : Action} {request : Bytes} {as : List Action} {x : Item}
  {h : Handler} {rest : List Handler}

/-- The operations up to the response of the gateway. -/
def phaseOp (op : Op) : Bool := op == .connect || op == .proxyWrite || op == .proxyRead

theorem leading_phaseOp : Leading phaseOp := by
  constructor
  · rfl
  · intro op op' h hm
    cases op <;> cases op' <;> simp_all [Op.next, phaseOp]

/-- Before the 2xx response only the request has been handed to `async_write`, and at most one
write is outstanding. -/
def Exclusive (s : State) : Prop :=
  (s.socket.tunneled = false → s.handed s.socket.conn <+: s.request) ∧
    (s.pending.filter (·.op.writes)).length ≤ 1

/-- `real_connect` runs with no success of the old handshake in the queue, with a success of an old
write only if it is the list's last, and with no operation that has moved a part; packets are queued
behind the response only. -/
def Guarded (e : Env) (s : State) (a : Action) : Prop :=
  Clean e phaseOp s a ∧
    (connects s a = true → (∃ x ∈ s.writes, x.status = .succeeded) → s.sendDataList.length ≤ 1) ∧
    (sends s a = true → s.socket.isOpen = true → s.socket.tunneled = true) ∧
    Intact s a

instance : Decidable (Guarded e s a) := inferInstanceAs (Decidable (_ ∧ (_ → _) ∧ (_ → _ → _) ∧ _))

/-- Until the response is read, the connection has handed over its request or nothing, and no write
of the list can go on. -/
structure Gate (s : State) : Prop where
  gateway : s.request ≠ []
  ended : s.socket.tunneled = true → ∀ x ∈ s.chain phaseOp, x.conn ≠ s.socket.conn
  connecting : ∀ x ∈ s.chain phaseOp, x.conn = s.socket.conn → x.op = .connect →
    s.handed s.socket.conn = []
  handed : s.socket.tunneled = false → s.handed s.socket.conn <+: s.request
  fresh : ∀ k, s.socket.conn < k → s.handed k = []
  writes : s.socket.tunneled = false → ∀ x ∈ s.writes,
    x.status = .failed ∨ x.status = .succeeded ∧ s.sendDataList.length ≤ 1

theorem Gate.same (hs : Gate s) (hc : t.socket.conn = s.socket.conn)
    (ht : t.socket.tunneled = s.socket.tunneled) (hh : t.handed = s.handed)
    (hr : t.request = s.request)
    (hchain : ∀ x ∈ t.chain phaseOp, x.conn = s.socket.conn →
      ∃ y ∈ s.chain phaseOp, y.conn = x.conn ∧ (x.op = .connect → y.op = .connect))
    (hw : s.socket.tunneled = false → ∀ x ∈ t.writes,
      x.status = .failed ∨ x.status = .succeeded ∧ t.sendDataList.length ≤ 1) : Gate t := by
  constructor
  · rw [hr]
    exact hs.gateway
  · rw [ht, hc]
    intro htun x hx hconn
    obtain ⟨y, hy, hyc, _⟩ := hchain x hx hconn
    exact hs.ended htun y hy (hyc.trans hconn)
  · rw [hc, hh]
    intro x hx hconn hop
    obtain ⟨y, hy, hyc, hyop⟩ := hchain x hx hconn
    exact hs.connecting y hy (hyc.trans hconn) (hyop hop)
  · rw [ht, hc, hh, hr]
    exact hs.handed
  · rw [hc, hh]
    exact hs.fresh
  · rw [ht]
    exact hw

/-- What a guarded run keeps. -/
structure Shaking (e : Env) (s : State) : Prop where
  one : OneWrite s
  chained : Chained e phaseOp s
  gate : Gate s

theorem gate_outside (hs : Shaking e s) (hu : Unmoved t s) (ho : Outside s t) : Gate t := by
  apply hs.gate.same hu.conn hu.tunneled hu.handed hu.request
  · intro x hx _
    obtain ⟨y, hy, hop, hconn⟩ := chain_origin hs.chained.ordered hu ho x hx
    exact ⟨y, hy, hconn, fun h => hop.trans h⟩
  · intro htun
    rw [hu.sendDataList]
    have hold := hs.gate.writes htun
    cases ho with
    | same hr _ hp =>
      have hw : t.writes = s.writes := State.chain_congr hr hp hu.conn
      rwa [hw]
    | post g hi _ hr _ hp =>
      have hw : t.writes = s.writes := by
        rw [State.writes, State.writes, State.chain_eq, State.chain_eq, hr, hp, hu.conn]
        simp [hi]
      rwa [hw]
    | finish l r p res hl hp hr =>
      rcases writes_finish hs.one hl hp hr hu.conn with ⟨_, hw⟩ | ⟨hop, _⟩
      · rwa [hw]
      · -- a pending write means that the response was read
        have hwait := writes_of_pending hs.one (p := p) (by simp [hl]) hop
        have hbad := hold ⟨s.socket.conn, .write, .waiting⟩ (by simp [hwait])
        simp at hbad

theorem gate_pop (hs : Gate s) (hr : s.ready = h :: rest) : Gate { s with ready := rest } := by
  have hsub (sel : Op → Bool) : ∀ x ∈ State.chain { s with ready := rest } sel, x ∈ s.chain sel := by
    intro x hx
    rw [State.chain_pop _ hr]
    exact List.mem_append_right _ hx
  refine hs.same rfl rfl rfl rfl ?_ ?_
  · exact fun x hx _ => ⟨x, hsub _ x hx, rfl, id⟩
  · exact fun htun x hx => hs.writes htun x (hsub _ x hx)

theorem Shaking.pop (hs : Shaking e s) (hr : s.ready = h :: rest)
    (hw : h.item?.toList.filter (isWrite ·.op) = []) : Shaking e { s with ready := rest } :=
  ⟨hs.one.pop hr hw, hs.chained.pop hr, gate_pop hs.gate hr⟩

theorem settled_writes {k : Nat} {c : Closing} {y : Item} {n : Nat}
    (h : y.status = .failed ∨ y.status = .succeeded ∧ n ≤ 1) :
    (y.settled c k).status = .failed ∨ (y.settled c k).status = .succeeded ∧ n ≤ 1 := by
  unfold Item.settled
  split
  · exact Or.inl rfl
  · exact h

theorem gate_release (hs : Shaking e s) : Gate (s.release e.closing) := by
  refine hs.gate.same rfl rfl rfl rfl ?_ ?_
  · intro x hx _
    rw [hs.chained.chain_release] at hx
    split at hx
    · obtain ⟨y, hy, rfl⟩ := List.mem_map.mp hx
      exact ⟨y, hy, (conn_settled ..).symm, fun h => (op_settled ..).symm.trans h⟩
    · exact ⟨x, hx, rfl, id⟩
  · intro htun x hx
    rw [hs.one.writes_release] at hx
    split at hx
    · obtain ⟨y, hy, rfl⟩ := List.mem_map.mp hx
      exact settled_writes (hs.gate.writes htun y hy)
    · exact hs.gate.writes htun x hx

theorem gate_realConnect {ticket : Nat} (hs : Shaking e s) (hr : s.ready = .doConnect ticket :: rest)
    (hg : (∃ x ∈ s.writes, x.status = .succeeded) → s.sendDataList.length ≤ 1) :
    Gate (State.realConnect e { s with ready := rest } ticket) := by
  have hpop := hs.pop hr rfl
  have hempty : s.handed (s.socket.conn + 1) = [] := hs.gate.fresh _ (Nat.lt_succ_self _)
  constructor
  · exact hs.gate.gateway
  · intro htun
    cases htun
  · intro _ _ _ _
    exact hempty
  · intro _
    show s.handed (s.socket.conn + 1) <+: s.request
    rw [hempty]
    exact List.nil_prefix
  · intro k hk
    exact hs.gate.fresh k (Nat.lt_of_succ_lt hk)
  · intro _ x hx
    rw [writes_realConnect hpop.one] at hx
    have hnotwait : x.status ≠ .waiting := fun hw =>
      absurd (hpop.one.release.idle rfl) (State.pending_of_waiting hx hw)
    rw [hpop.one.writes_release] at hx
    cases hst : x.status with
    | waiting => exact absurd hst hnotwait
    | failed => exact Or.inl rfl
    | succeeded =>
      refine Or.inr ⟨rfl, hg ?_⟩
      rw [← State.writes_pop hr rfl]
      split at hx
      · obtain ⟨y, hy, rfl⟩ := List.mem_map.mp hx
        refine ⟨y, hy, ?_⟩
        unfold Item.settled at hst
        split at hst
        · cases hst
        · exact hst
      · exact ⟨x, hx, hst⟩

/-- An operation other than a write of the list is started, and hands over nothing. -/
theorem gate_start (op : Op) (hs : Gate s) (hw : isWrite op = false) (hp : phaseOp op = false)
    (data : Bytes) : Gate (s.start op data) := by
  have hwrites : (s.start op data).writes = s.writes := State.chain_start_unselected hw data
  have hchain := State.chain_start_unselected (s := s) hp data
  refine hs.same rfl rfl rfl rfl ?_ ?_
  · exact fun x hx _ => ⟨x, hchain ▸ hx, rfl, id⟩
  · rw [hwrites]
    exact hs.writes

theorem gate_like (hs : Gate s) (h : Like t s) (ht : t.socket.tunneled = s.socket.tunneled)
    (hh : t.handed = s.handed) (hl : t.sendDataList = s.sendDataList) : Gate t := by
  refine hs.same h.conn ht hh h.request ?_ ?_
  · exact fun x hx _ => ⟨x, State.chain_like h _ ▸ hx, rfl, id⟩
  · have hw : t.writes = s.writes := State.chain_like h isWrite
    rw [hw, hl]
    exact hs.writes

/-- `do_write` behind the response. -/
theorem gate_write (hs : Gate s) (ht : s.socket.tunneled = true) (data : Bytes) :
    Gate (s.startWrite .write data) := by
  have hchain : (s.startWrite .write data).chain phaseOp = s.chain phaseOp :=
    State.chain_start_unselected rfl data
  constructor
  · exact hs.gateway
  · intro _
    rw [hchain]
    exact hs.ended ht
  · rw [hchain]
    exact fun x hx hconn => absurd hconn (hs.ended ht x hx)
  · exact fun htun => absurd (htun.symm.trans ht) (by decide)
  · intro k hk
    have hk : s.socket.conn < k := hk
    show Function.update s.handed _ _ k = []
    rw [Function.update_of_ne (Nat.ne_of_gt hk)]
    exact hs.fresh k hk
  · exact fun htun => absurd (htun.symm.trans ht) (by decide)

theorem gate_list {list : List Bytes} (hs : Gate s)
    (hl : s.socket.tunneled = true ∨ list.length ≤ s.sendDataList.length) :
    Gate { s with sendDataList := list } := by
  refine hs.same rfl rfl rfl rfl (fun x hx _ => ⟨x, hx, rfl, id⟩) ?_
  intro htun x hx
  rcases hl with hl | hl
  · simp [htun] at hl
  · exact (hs.writes htun x hx).imp_right fun h => ⟨h.1, Nat.le_trans hl h.2⟩

theorem gate_runSend {ticket : Nat} {pack : Bytes} (hs : Shaking e s)
    (hr : s.ready = .sendMessage ticket pack :: rest)
    (hg : s.socket.isOpen = true → s.socket.tunneled = true) :
    Gate (State.runSend e { s with ready := rest } pack) := by
  have hpop := hs.pop hr rfl
  by_cases ho : s.socket.isOpen = true
  · have ht := hg ho
    rw [State.runSend_eq (s := { s with ready := rest }) ho]
    split
    · exact gate_write (gate_list hpop.gate (Or.inl ht)) ht _
    · exact gate_list hpop.gate (Or.inl ht)
  · have hsame : State.runSend e { s with ready := rest } pack = { s with ready := rest } := by
      simp [State.runSend, ho]
    rw [hsame]
    exact hpop.gate

section Runs

variable {conn : Nat} {res : Result}

theorem gate_onWritten (hs : Shaking e s) (hr : s.ready = .complete conn .write res :: rest) :
    Gate (State.onWritten { s with ready := rest } res) := by
  have hpop := gate_pop hs.gate hr
  cases res with
  | failure err => exact gate_list hpop (Or.inr (Nat.zero_le _))
  | success len =>
    simp only [State.onWritten]
    have hlist : Gate { s with ready := rest, sendDataList := s.sendDataList.tail } :=
      gate_list hpop (Or.inr (by simp))
    cases hl : s.sendDataList.tail with
    | nil => simpa [hl] using hlist
    | cons data more =>
      -- more than one was queued, so the response was read
      have ht : s.socket.tunneled = true := by
        by_contra htun
        obtain ⟨st, _, hitem, hx, _, _⟩ := hs.one.last hr
        obtain rfl : Status.succeeded = st := by simpa [Handler.item?] using hitem
        have hshort := hs.gate.writes (by simpa using htun) ⟨conn, .write, .succeeded⟩ (by simp [hx])
        have hlen := congrArg List.length hl
        simp only [reduceCtorEq, true_and, false_or] at hshort
        simp only [List.length_tail, List.length_cons] at hlen
        omega
      rw [hl] at hlist
      simp only [ne_eq, reduceCtorEq, not_false_eq_true, if_true]
      rw [State.doWrite_cons rfl]
      exact gate_write hlist ht data

/-- The first handler of the current handshake runs: nothing else of it is left. -/
theorem Shaking.front {op : Op} {len : Nat} (hs : Shaking e s)
    (hr : s.ready = .complete conn op (.success len) :: rest) (hop : phaseOp op = true) :
    State.chain { s with ready := rest } phaseOp = [] ∧ s.socket.tunneled = false ∧
      (op = .connect → s.handed s.socket.conn = []) := by
  obtain ⟨hcur, hnil⟩ := hs.chained.chain_last hr hop
  have hmem : (⟨conn, op, .succeeded⟩ : Item) ∈ s.chain phaseOp := by
    rw [State.chain_pop _ hr]
    simp [Handler.item?, hop]
  refine ⟨hnil, ?_, fun hc => hs.gate.connecting _ hmem hcur hc⟩
  by_contra htun
  exact hs.gate.ended (by simpa using htun) _ hmem hcur

theorem gate_onConnected (hs : Shaking e s) (hr : s.ready = .complete conn .connect res :: rest) :
    Gate (State.onConnected e { s with ready := rest } conn res) := by
  have hpop := gate_pop hs.gate hr
  cases res with
  | failure err => exact gate_like hpop (by constructor <;> rfl) rfl rfl rfl
  | success len =>
    obtain ⟨hnil, htun, hempty⟩ := hs.front hr rfl
    have heq : State.onConnected e { s with ready := rest } conn (.success len) =
        State.startWrite { s with ready := rest, closed := false, owner := conn } .proxyWrite
          s.request := by
      simp [State.onConnected, hs.gate.gateway, State.doProxy]
    have hchain : (State.startWrite { s with ready := rest, closed := false, owner := conn }
        .proxyWrite s.request).chain phaseOp =
          State.chain { s with ready := rest } phaseOp ++
            [⟨s.socket.conn, .proxyWrite, if s.socket.isOpen then .waiting else .failed⟩] := by
      have hsel : phaseOp .proxyWrite = true := rfl
      exact State.chain_start (s := { s with ready := rest }) hs.one.idle hsel s.request
    have hhanded : (State.startWrite { s with ready := rest, closed := false, owner := conn }
        .proxyWrite s.request).handed s.socket.conn = s.request := by
      show Function.update s.handed s.socket.conn (s.handed s.socket.conn ++ s.request) _ = _
      rw [Function.update_self, hempty rfl, List.nil_append]
    rw [heq]
    constructor
    · exact hs.gate.gateway
    · exact fun ht => absurd (htun.symm.trans ht) (by decide)
    · rw [hchain, hnil]
      intro x hx _ hop
      obtain rfl := List.mem_singleton.mp hx
      cases hop
    · intro _
      exact ⟨[], (List.append_nil _).trans hhanded⟩
    · intro k hk
      have hk : s.socket.conn < k := hk
      show Function.update s.handed _ _ k = []
      rw [Function.update_of_ne (Nat.ne_of_gt hk)]
      exact hs.gate.fresh k hk
    · have hw : (State.startWrite { s with ready := rest, closed := false, owner := conn }
          .proxyWrite s.request).writes = State.writes { s with ready := rest } :=
        State.chain_start_unselected rfl _
      rw [hw]
      exact hpop.writes

theorem gate_onProxyWritten (hs : Shaking e s)
    (hr : s.ready = .complete conn .proxyWrite res :: rest) :
    Gate (State.onProxyWritten e { s with ready := rest } conn res) := by
  have hw : (Handler.complete conn .proxyWrite res).item?.toList.filter (isWrite ·.op) = [] := by
    cases res <;> rfl
  have hpop := hs.pop hr hw
  cases res with
  | failure err => exact gate_like (gate_release hpop) (by constructor <;> rfl) rfl rfl rfl
  | success len =>
    obtain ⟨hnil, htun, _⟩ := hs.front hr rfl
    have hnew {u : State} {st : Status} (hu : u.chain phaseOp = [⟨s.socket.conn, .proxyRead, st⟩])
        (hw : u.writes = State.writes { s with ready := rest })
        (hc : u.socket = s.socket) (hh : u.handed = s.handed) (hq : u.request = s.request)
        (hl : u.sendDataList = s.sendDataList) : Gate u := by
      constructor
      · rw [hq]
        exact hs.gate.gateway
      · rw [hc]
        exact fun ht => absurd (htun.symm.trans ht) (by decide)
      · rw [hu]
        intro x hx _ hop
        obtain rfl := List.mem_singleton.mp hx
        cases hop
      · rw [hc, hh, hq]
        exact hs.gate.handed
      · rw [hc, hh]
        exact hs.gate.fresh
      · rw [hc, hw, hl]
        exact hpop.gate.writes
    simp only [State.onProxyWritten, State.readUntil]
    split
    · next n _ =>
      refine hnew (State.chain_queue hnil rfl n) ?_ rfl rfl rfl rfl
      simp [State.writes, State.chain_eq, Handler.item?, isWrite]
    · have hsel : phaseOp .proxyRead = true := rfl
      have hchain := State.chain_start (s := { s with ready := rest }) hs.one.idle hsel []
      rw [hnil, List.nil_append] at hchain
      exact hnew hchain (State.chain_start_unselected rfl []) rfl rfl rfl rfl

theorem gate_onProxyRead (hs : Shaking e s)
    (hr : s.ready = .complete conn .proxyRead res :: rest) :
    Gate (State.onProxyRead e { s with ready := rest } conn res) := by
  have hw : (Handler.complete conn .proxyRead res).item?.toList.filter (isWrite ·.op) = [] := by
    cases res <;> rfl
  have hpop := hs.pop hr hw
  cases res with
  | failure err => exact gate_like (gate_release hpop) (by constructor <;> rfl) rfl rfl rfl
  | success len =>
    obtain ⟨hnil, _, _⟩ := hs.front hr rfl
    simp only [State.onProxyRead]
    split
    · -- the handshake is over: nothing is left in the chain
      have hopen : Gate { s with ready := rest, socket := { s.socket with tunneled := true } } := by
        have hchain : State.chain
            { s with ready := rest, socket := { s.socket with tunneled := true } } phaseOp = [] := by
          rw [← hnil]
          exact State.chain_congr rfl rfl rfl
        constructor
        · exact hs.gate.gateway
        · intro _
          rw [hchain]
          simp
        · rw [hchain]
          simp
        · intro ht
          cases ht
        · exact hs.gate.fresh
        · intro ht
          cases ht
      exact gate_like (gate_start .readHead hopen rfl rfl []) (by constructor <;> rfl) rfl rfl
        rfl
    · exact gate_like (gate_release hpop) (by constructor <;> rfl) rfl rfl rfl

theorem gate_onReadHead (hs : Shaking e s)
    (hr : s.ready = .complete conn .readHead res :: rest) :
    Gate (State.onReadHead e { s with ready := rest } conn res) := by
  have hw : (Handler.complete conn .readHead res).item?.toList.filter (isWrite ·.op) = [] := by
    cases res <;> rfl
  have hpop := hs.pop hr hw
  cases res with
  | failure err => exact gate_like hpop.gate (by constructor <;> rfl) rfl rfl rfl
  | success len =>
    simp only [State.onReadHead]
    split
    · exact gate_like (gate_release hpop) (by constructor <;> rfl) rfl rfl rfl
    · exact gate_like (gate_start .readHead hpop.gate rfl rfl []) (by constructor <;> rfl) rfl
        rfl rfl
    · exact gate_like (gate_start .readBody hpop.gate rfl rfl []) (by constructor <;> rfl) rfl
        rfl rfl

theorem gate_onReadBody (hs : Shaking e s)
    (hr : s.ready = .complete conn .readBody res :: rest) :
    Gate (State.onReadBody { s with ready := rest } conn res) := by
  have hpop := gate_pop hs.gate hr
  cases res with
  | failure err => exact gate_like hpop (by constructor <;> rfl) rfl rfl rfl
  | success len =>
    exact gate_like (gate_start .readHead hpop rfl rfl []) (by constructor <;> rfl) rfl rfl rfl

end Runs

theorem shaking_initial (hq : request ≠ []) : Shaking e (initial request) := by
  refine ⟨oneWrite_initial request, chained_initial request, hq, ?_, ?_, ?_, ?_, ?_⟩
  · intro ht
    cases ht
  · intro _ _ _ _
    rfl
  · intro _
    exact List.nil_prefix
  · intro k _
    rfl
  · intro _ x hx
    cases hx

theorem shaking_step (hs : Shaking e s) (hg : Guarded e s a) (h : step e s a = some t) :
    Shaking e t := by
  refine ⟨oneWrite_step hs.one h, chained_step leading_phaseOp hs.chained hg.1 h, ?_⟩
  rcases effect_cases (effect_of_step h) with ⟨hu, ho⟩ | ⟨hd, rest, rfl, hr, rfl⟩
  · exact gate_outside hs hu ho
  · cases hd with
    | doConnect ticket => exact gate_realConnect hs hr (hg.2.1 (by simp [connects, hr]))
    | sendMessage ticket pack => exact gate_runSend hs hr (hg.2.2.1 (by simp [sends, hr]))
    | doClose ticket =>
      have hpop := hs.pop hr rfl
      simp only [State.runHandler, State.runClose]
      split
      · exact gate_like (gate_release hpop) (by constructor <;> rfl) rfl rfl rfl
      · exact hpop.gate
    | complete conn op res =>
      cases op with
      | connect => exact gate_onConnected hs hr
      | proxyWrite => exact gate_onProxyWritten hs hr
      | proxyRead => exact gate_onProxyRead hs hr
      | write => exact gate_onWritten hs hr
      | readHead => exact gate_onReadHead hs hr
      | readBody => exact gate_onReadBody hs hr

theorem shaking_run (hq : request ≠ [])
    (h : Run (step e) (Guarded e) (initial request) as s) : Shaking e s :=
  h.invariant _ (fun _ _ _ hs hg hst => shaking_step hs hg hst) (shaking_initial hq)

theorem Shaking.exclusive (hs : Shaking e s) : Exclusive s := by
  refine ⟨hs.gate.handed, ?_⟩
  by_cases hreq : ∃ p ∈ s.pending, p.op = .proxyWrite
  · -- while the request is written, the list is not
    obtain ⟨p, hp, hop⟩ := hreq
    have hmem : (⟨s.socket.conn, p.op, .waiting⟩ : Item) ∈ s.chain phaseOp := by
      refine List.mem_filter.mpr ⟨List.mem_append_right _ (List.mem_map_of_mem hp), ?_⟩
      simp [phaseOp, hop]
    have htun : s.socket.tunneled = false := by
      by_contra ht
      exact hs.gate.ended (by simpa using ht) _ hmem rfl
    have hnone : ∀ q ∈ s.pending, q.op ≠ .write := by
      intro q hq hqop
      have hwait := writes_of_pending hs.one hq hqop
      have hbad := hs.gate.writes htun ⟨s.socket.conn, .write, .waiting⟩ (by simp [hwait])
      simp at hbad
    have hsub : (s.pending.filter (·.op.writes)).length ≤
        (s.pending.filter (phaseOp ·.op)).length := by
      apply List.Sublist.length_le
      have heq : s.pending.filter (·.op.writes) =
          (s.pending.filter (phaseOp ·.op)).filter (·.op.writes) := by
        rw [List.filter_filter]
        apply List.filter_congr
        intro q hq
        have hne := hnone q hq
        cases hq : q.op <;> simp_all [Op.writes, phaseOp]
      rw [heq]
      exact List.filter_sublist
    exact Nat.le_trans hsub (length_pending_le hs.chained.ordered)
  · have heq : s.pending.filter (·.op.writes) = s.pending.filter (isWrite ·.op) := by
      apply List.filter_congr
      intro q hq
      have hne : q.op ≠ .proxyWrite := fun h => hreq ⟨q, hq, h⟩
      simp [Op.writes, isWrite, hne]
    rw [heq]
    exact length_pending_le hs.one.ordered

/-- In a run whose packets are queued behind the 2xx response, nothing of them is handed to the
socket before it, and no two writes overlap. -/
theorem handshake_exclusive (hq : request ≠ [])
    (h : Run (step e) (Guarded e) (initial request) as s) : Exclusive s :=
  (shaking_run hq h).exclusive

/-- A packet behind the handshake. -/
theorem handshake_exclusive_example :
    ∃ as s, Run (step ⟨.big, .keep, fun _ => ""⟩) (Guarded ⟨.big, .keep, fun _ => ""⟩)
        (initial [67, 79, 78]) as s ∧
      s.handed 1 = [67, 79, 78, 69, 84, 0, 0, 0, 1] ∧ Exclusive s :=
  have h := run_exec (step ⟨.big, .keep, fun _ => ""⟩) (Guarded ⟨.big, .keep, fun _ => ""⟩)
    (initial [67, 79, 78])
    [.callConnect, .post 0, .run, .connected 0, .run, .transfer 0 3, .run,
      .receive 0 [72, 84, 84, 80, 47, 49, 32, 50, 48, 48, 13, 10, 13, 10], .run, .callSend [1],
      .post 0, .run] (by decide)
  ⟨_, _, h, by decide, handshake_exclusive (by decide) h⟩

/-- A packet sent while connecting is handed to the socket before the request, and both writes are
outstanding at once. -/
theorem frame_before_handshake :
    ¬ ∀ as s, Run (step ⟨.big, .keep, fun _ => ""⟩) Free (initial [67, 79, 78]) as s →
      Exclusive s := by
  intro h
  have hrun := run_exec (step ⟨.big, .keep, fun _ => ""⟩) Free (initial [67, 79, 78])
    [.callConnect, .post 0, .run, .callSend [1], .post 0, .run, .connected 0, .run] (by decide)
  have hex := (h _ _ hrun).1 (by decide)
  revert hex
  decide

end NetworkUtility.EtcpClient
