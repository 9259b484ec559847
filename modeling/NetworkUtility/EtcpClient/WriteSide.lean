import NetworkUtility.EtcpClient.Writing

/-! Every connection writes its own request and whole frames of its own packets, when no lambda of
`send_message` and no handler of an earlier connection comes in between. -/
namespace NetworkUtility.EtcpClient

open Etcp Machine

variable {e : Env} {s t : State} {a : Action} {request : Bytes} {as : List Action} {x : Item}
  {h : Handler} {rest : List Handler} {k : Nat} {qs : List (Nat × Bytes)}

/-- The steps of the handshake that write, when there is a gateway. -/
def handshakeOp (request : Bytes) (op : Op) : Bool :=
  request ≠ [] && (op == .connect || op == .proxyWrite)

theorem leading_handshakeOp (request : Bytes) : Leading (handshakeOp request) := by
  constructor
  · simp [handshakeOp]
  · intro op op' h hm
    cases op <;> cases op' <;> simp_all [Op.next, handshakeOp]

/-- The next handler is a lambda of `send_message`. -/
def sends (s : State) : Action → Bool
  | .run =>
    match s.ready with
    | .sendMessage _ _ :: _ => true
    | _ => false
  | _ => false

/-- `real_connect` runs with no success of the old handshake in the queue, and with a success of an
old write only if it is the list's last, and with none that has moved a part; packets are queued on
a socket whose request is written and whose writes have not failed. -/
def Orderly (e : Env) (s : State) (a : Action) : Prop :=
  Clean e (handshakeOp s.request) s a ∧
    (connects s a = true → (∃ x ∈ s.writes, x.status = .succeeded) → s.sendDataList.length ≤ 1) ∧
    (sends s a = true → s.socket.isOpen = true →
      s.socket.broken = false ∧ s.request <+: s.sent s.socket.conn) ∧
    Intact s a

instance : Decidable (Orderly e s a) := inferInstanceAs (Decidable (_ ∧ (_ → _) ∧ (_ → _ → _) ∧ _))

/-- The bytes of every connection so far, and what the handshake of the current one still writes. -/
structure Wire (e : Env) (s : State) : Prop where
  connecting : ∀ x ∈ s.chain (handshakeOp s.request), x.op = .connect → x.conn = s.socket.conn →
    s.sent s.socket.conn = []
  requesting : ∀ p ∈ s.pending, p.op = .proxyWrite →
    p.data ≠ [] ∧ s.sent s.socket.conn ++ p.data = s.request
  fresh : ∀ k, s.socket.conn < k → s.sent k = []
  current : ∃ qs, qs.Sublist (s.acceptedAfter s.socket.conn) ∧
    (∀ q ∈ qs, ∀ ticket ∈ s.posts, q.1 < ticket) ∧ Writing e.order s qs
  before : ∀ k < s.socket.conn, ∃ qs, qs.Sublist (s.acceptedAfter k) ∧
    s.sent k <+: s.request ++ framesOf e.order qs

structure Sending (e : Env) (s : State) : Prop where
  one : OneWrite s
  ticketed : Ticketed s
  chained : Chained e (handshakeOp s.request) s
  wire : Wire e s

/-- What every step but `real_connect` and `send_message` leaves of the calls and of the other
connections. -/
structure Still (t s : State) : Prop where
  conn : t.socket.conn = s.socket.conn
  request : t.request = s.request
  born : t.born = s.born
  accepted : s.accepted.Sublist t.accepted
  posts : ∀ ticket ∈ t.posts, ticket ∈ s.posts ∨ ∀ q ∈ s.accepted, q.1 < ticket
  past : ∀ k, k ≠ s.socket.conn → t.sent k = s.sent k

/-- A step that writes nothing. -/
structure Quiet (t s : State) : Prop where
  still : Still t s
  isOpen : t.socket.isOpen = s.socket.isOpen
  broken : s.socket.broken = true → t.socket.broken = true
  sent : t.sent s.socket.conn = s.sent s.socket.conn
  sendDataList : t.sendDataList = s.sendDataList
  writes : t.writes = s.writes
  pending : ∀ p ∈ t.pending, p.op.writes = true → p ∈ s.pending
  chain : ∀ x ∈ t.chain (handshakeOp s.request), x.op = .connect →
    ∃ y ∈ s.chain (handshakeOp s.request), y.op = .connect ∧ y.conn = x.conn

theorem sublist_accepted (hb : t.born k = s.born k) (ha : s.accepted.Sublist t.accepted) :
    (s.acceptedAfter k).Sublist (t.acceptedAfter k) := by
  unfold State.acceptedAfter
  rw [hb]
  exact ha.filter _

theorem Wire.keep (hs : Wire e s) (h : Still t s)
    (hconnecting : ∀ x ∈ t.chain (handshakeOp s.request), x.op = .connect →
      x.conn = s.socket.conn → t.sent s.socket.conn = [])
    (hrequesting : ∀ p ∈ t.pending, p.op = .proxyWrite →
      p.data ≠ [] ∧ t.sent s.socket.conn ++ p.data = s.request)
    (hw : ∀ qs, Writing e.order s qs → Writing e.order t qs) : Wire e t := by
  constructor
  · rw [h.request, h.conn]
    exact hconnecting
  · rw [h.conn, h.request]
    exact hrequesting
  · rw [h.conn]
    intro k hk
    rw [h.past k (Nat.ne_of_gt hk)]
    exact hs.fresh k hk
  · obtain ⟨qs, hsub, hposts, hcur⟩ := hs.current
    refine ⟨qs, ?_, ?_, hw qs hcur⟩
    · rw [h.conn]
      exact hsub.trans (sublist_accepted (by rw [h.born]) h.accepted)
    · intro q hq ticket ht
      rcases h.posts ticket ht with hold | hnew
      · exact hposts q hq ticket hold
      · exact hnew q (List.mem_of_mem_filter (hsub.subset hq))
  · rw [h.conn, h.request]
    intro k hk
    rw [h.past k (Nat.ne_of_lt hk)]
    obtain ⟨qs, hsub, hpre⟩ := hs.before k hk
    exact ⟨qs, hsub.trans (sublist_accepted (by rw [h.born]) h.accepted), hpre⟩

theorem Wire.quiet (hs : Wire e s) (h : Quiet t s) : Wire e t := by
  apply hs.keep h.still
  · intro x hx hop hconn
    obtain ⟨y, hy, hop', hconn'⟩ := h.chain x hx hop
    rw [h.sent]
    exact hs.connecting y hy hop' (hconn'.trans hconn)
  · rw [h.sent]
    intro p hp hop
    exact hs.requesting p (h.pending p hp (by simp [Op.writes, hop])) hop
  · intro qs hw
    exact hw.of_eq h.writes h.still.conn h.isOpen h.broken h.still.request h.sent h.sendDataList
      fun p hp hop => h.pending p hp (by simp [Op.writes, hop])

theorem still_of_outside (hs : Ticketed s) (hu : Unmoved t s) (ho : Outside s t)
    (ha : s.accepted.Sublist t.accepted) (hp : ∀ k, k ≠ s.socket.conn → t.sent k = s.sent k) :
    Still t s := by
  refine ⟨hu.conn, hu.request, hu.born, ha, ?_, hp⟩
  intro ticket ht
  cases ho with
  | same hr _ _ => exact Or.inl (by simpa only [State.posts, hr] using ht)
  | finish l r p res _ _ hr =>
    exact Or.inl (by simpa [State.posts, hr, Handler.ticket?] using ht)
  | post g _ htk hr _ _ =>
    simp only [State.posts, hr, List.filterMap_append, List.mem_append] at ht
    rcases ht with ht | ht
    · exact Or.inl ht
    · obtain rfl : ticket = s.tickets := by simpa [htk] using ht
      exact Or.inr hs.bound

theorem writes_finish {l r : List Pending} {p : Pending} {res : Result} (hone : OneWrite s)
    (hl : s.pending = l ++ p :: r) (hp : t.pending = l ++ r)
    (hr : t.ready = s.ready ++ [.complete s.socket.conn p.op res])
    (hc : t.socket.conn = s.socket.conn) :
    (p.op ≠ .write ∧ t.writes = s.writes) ∨ p.op = .write ∧ ∃ st, st ≠ .waiting ∧
      (Handler.complete s.socket.conn p.op res).item? = some ⟨s.socket.conn, p.op, st⟩ ∧
      t.writes = [⟨s.socket.conn, .write, st⟩] := by
  rcases chain_finish hone.ordered hl hp hr hc with ⟨hop, hw⟩ | ⟨xs, st, hst, hitem, hxs, hys⟩
  · exact Or.inl ⟨by simpa [isWrite] using hop, hw⟩
  · have hmem : (⟨s.socket.conn, p.op, .waiting⟩ : Item) ∈ s.writes := by
      rw [State.writes, hxs]
      exact List.mem_append_right _ List.mem_cons_self
    have hop : p.op = .write := State.op_of_writes hmem
    have hone := writes_of_pending hone (p := p) (by simp [hl]) hop
    rw [State.writes, hxs] at hone
    have hnil : xs = [] := by
      cases xs with
      | nil => rfl
      | cons y ys => simp at hone
    refine Or.inr ⟨hop, st, hst, hitem, ?_⟩
    rw [State.writes, hys, hnil, hop]
    rfl

theorem quiet_of_outside (hs : Sending e s) (hu : Unmoved t s) (ho : Outside s t)
    (ha : s.accepted.Sublist t.accepted) (hsent : t.sent = s.sent)
    (hb : t.socket.broken = s.socket.broken) (hw : t.writes = s.writes)
    (hp : ∀ p ∈ t.pending, p.op.writes = true → p ∈ s.pending) : Quiet t s where
  still := still_of_outside hs.ticketed hu ho ha fun k _ => by rw [hsent]
  isOpen := hu.isOpen
  broken := by rw [hb]; exact id
  sent := by rw [hsent]
  sendDataList := hu.sendDataList
  writes := hw
  pending := hp
  chain := by
    intro x hx hop
    obtain ⟨y, hy, hop', hconn⟩ := chain_origin hs.chained.ordered hu ho x hx
    exact ⟨y, hy, hop'.trans hop, hconn⟩

section Network

variable {l r : List Pending} {p : Pending} {bytes more : Bytes}

/-- A request that is pending has the handshake for itself. -/
theorem Sending.request_alone (hs : Sending e s) (hl : s.pending = l ++ p :: r)
    (hop : p.op = .proxyWrite) :
    s.request ≠ [] ∧ (∀ q ∈ l ++ r, q.op ≠ .proxyWrite) ∧
      ∀ x ∈ s.chain (handshakeOp s.request), x.op = .connect → x.conn ≠ s.socket.conn := by
  have hmem : p ∈ s.pending := by simp [hl]
  have hreq := hs.wire.requesting p hmem hop
  have hne : s.request ≠ [] := by
    intro hnil
    rw [hnil, List.append_eq_nil_iff] at hreq
    exact hreq.1 hreq.2.2
  have hsel : handshakeOp s.request p.op = true := by simp [handshakeOp, hne, hop]
  obtain ⟨hleft, hright⟩ := pending_unique hs.chained.ordered hl hsel
  refine ⟨hne, ?_, ?_⟩
  · intro q hq hqop
    rcases List.mem_append.mp hq with hq | hq
    · have hf := hleft q hq
      simp [handshakeOp, hne, hqop] at hf
    · have hf := hright q hq
      simp [handshakeOp, hne, hqop] at hf
  · intro x hx hxop hconn
    have hw : (⟨s.socket.conn, p.op, .waiting⟩ : Item) ∈ s.chain (handshakeOp s.request) :=
      List.mem_filter.mpr ⟨List.mem_append_right _ (List.mem_map_of_mem hmem), hsel⟩
    obtain rfl := eq_of_conn hs.chained.ordered hx hw hconn
    rw [hop] at hxop
    cases hxop

/-- The network has taken `bytes` of the pending write `p`. It goes on with `more`, or is complete. -/
structure Taken (s t : State) (l r : List Pending) (p : Pending) (bytes more : Bytes) : Prop where
  waits : s.pending = l ++ p :: r
  data : p.data = bytes ++ more
  some : bytes ≠ []
  still : Still t s
  unmoved : Unmoved t s
  outside : Outside s t
  broken : t.socket.broken = s.socket.broken
  sent : t.sent s.socket.conn = s.sent s.socket.conn ++ bytes
  next : more ≠ [] ∧ t.writes = s.writes ∧
      t.pending = l ++ ⟨p.op, more, p.done + bytes.length⟩ :: r ∨
    more = [] ∧ t.pending = l ++ r ∧ t.ready = s.ready ++
      [.complete s.socket.conn p.op (.success (p.done + p.data.length))]

theorem Taken.mem (h : Taken s t l r p bytes more) : p ∈ s.pending := by
  rw [h.waits]
  exact List.mem_append_right _ List.mem_cons_self

theorem Taken.others (h : Taken s t l r p bytes more) {q : Pending} (hq : q ∈ l ++ r) :
    q ∈ s.pending := by
  rw [h.waits]
  rcases List.mem_append.mp hq with hq | hq <;> simp [hq]

theorem Taken.left (h : Taken s t l r p bytes more) {q : Pending} (hq : q ∈ t.pending) :
    q ∈ l ++ r ∨ more ≠ [] ∧ q = ⟨p.op, more, p.done + bytes.length⟩ := by
  rcases h.next with ⟨hne, _, hp⟩ | ⟨_, hp, _⟩
  · rw [hp] at hq
    rcases List.mem_append.mp hq with hq | hq
    · exact Or.inl (List.mem_append_left _ hq)
    · rcases List.mem_cons.mp hq with hq | hq
      · exact Or.inr ⟨hne, hq⟩
      · exact Or.inl (List.mem_append_right _ hq)
  · exact Or.inl (hp ▸ hq)

/-- The write is that of the request: nothing else of the handshake is pending. -/
theorem wire_request (hs : Sending e s) (h : Taken s t l r p bytes more) (hop : p.op = .proxyWrite) :
    Wire e t := by
  have hu := h.unmoved
  obtain ⟨_, halone, hnoconn⟩ := hs.request_alone h.waits hop
  have hreq := (hs.wire.requesting p h.mem hop).2
  rw [h.data] at hreq
  have hw : t.writes = s.writes := by
    rcases h.next with ⟨_, hw, _⟩ | ⟨_, hp, hr⟩
    · exact hw
    · rcases writes_finish hs.one h.waits hp hr hu.conn with ⟨_, hw⟩ | ⟨hpw, _⟩
      · exact hw
      · simp [hop] at hpw
  apply hs.wire.keep h.still
  · intro x hx hxop hconn
    obtain ⟨y, hy, hyop, hyconn⟩ := chain_origin hs.chained.ordered hu h.outside x hx
    exact absurd (hyconn.trans hconn) (hnoconn y hy (hyop.trans hxop))
  · intro q hq hqop
    rcases h.left hq with hq | ⟨hne, rfl⟩
    · exact absurd hqop (halone q hq)
    · refine ⟨hne, ?_⟩
      rw [h.sent, List.append_assoc]
      exact hreq
  · intro qs hqs
    exact hqs.requesting h.some hreq hu.conn hu.isOpen h.broken hu.request hu.sendDataList hw h.sent

/-- The write is that of the list: the request has been written. -/
theorem wire_list (hs : Sending e s) (h : Taken s t l r p bytes more) (hop : p.op = .write) :
    Wire e t := by
  have hu := h.unmoved
  obtain ⟨qs, _, _, hcur⟩ := hs.wire.current
  have hpre := (hcur.of_pending hs.one h.mem hop).1
  apply hs.wire.keep h.still
  · intro x hx hxop hconn
    obtain ⟨y, hy, hyop, hyconn⟩ := chain_origin hs.chained.ordered hu h.outside x hx
    have hnil := hs.wire.connecting y hy (hyop.trans hxop) (hyconn.trans hconn)
    rw [hnil, List.prefix_nil] at hpre
    have hsel := List.of_mem_filter hy
    simp [handshakeOp, hpre] at hsel
  · intro q hq hqop
    rcases h.left hq with hq | ⟨_, rfl⟩
    · obtain ⟨hne, heq⟩ := hs.wire.requesting q (h.others hq) hqop
      have hlen := hpre.length_le
      have hpos := List.length_pos_iff.mpr hne
      rw [← heq, List.length_append] at hlen
      omega
    · simp [hop] at hqop
  · intro qs hqs
    refine hqs.transfer hs.one h.mem hop h.data hu.conn hu.request hu.sendDataList h.sent ?_
    rcases h.next with ⟨_, hw, _⟩ | ⟨hm, hp, hr⟩
    · refine Or.inl ⟨hw, fun q hq hqop => ?_⟩
      rcases h.left hq with hq | ⟨_, rfl⟩
      · obtain ⟨hleft, hright⟩ := pending_unique hs.one.ordered h.waits (by simp [isWrite, hop])
        rcases List.mem_append.mp hq with hq | hq
        · have hf := hleft q hq
          simp [isWrite, hqop] at hf
        · have hf := hright q hq
          simp [isWrite, hqop] at hf
      · rfl
    · rcases writes_finish hs.one h.waits hp hr hu.conn with ⟨hne, _⟩ | ⟨_, st, _, hitem, hw⟩
      · exact absurd hop hne
      · obtain rfl : Status.succeeded = st := by simpa [Handler.item?] using hitem
        exact Or.inr ⟨hm, hw⟩

theorem wire_transfer (hs : Sending e s) (h : Taken s t l r p bytes more)
    (hop : p.op.writes = true) : Wire e t := by
  have hcases : p.op = .proxyWrite ∨ p.op = .write := by
    cases hpo : p.op <;> simp_all [Op.writes]
  rcases hcases with hpo | hpo
  · exact wire_request hs h hpo
  · exact wire_list hs h hpo

/-- A pending operation fails. -/
theorem wire_fail (hs : Sending e s) (hl : s.pending = l ++ p :: r) (hstill : Still t s)
    (hu : Unmoved t s) (ho : Outside s t) (ha : s.accepted.Sublist t.accepted)
    (hsent : t.sent = s.sent) (hp : t.pending = l ++ r) (err : Error)
    (hb : t.socket.broken = (s.socket.broken || p.op == Op.write))
    (hr : t.ready = s.ready ++ [.complete s.socket.conn p.op (.failure err)]) : Wire e t := by
  have hin : ∀ q ∈ t.pending, q ∈ s.pending := by
    intro q hq
    rw [hp] at hq
    rw [hl]
    rcases List.mem_append.mp hq with hq | hq <;> simp [hq]
  rcases writes_finish hs.one hl hp hr hu.conn with ⟨hop, hw⟩ | ⟨hop, st, _, hitem, hw⟩
  · have hbr : t.socket.broken = s.socket.broken := by simp [hb, hop]
    exact hs.wire.quiet (quiet_of_outside hs hu ho ha hsent hbr hw fun q hq _ => hin q hq)
  · obtain rfl : Status.failed = st := by simpa [Handler.item?] using hitem
    apply hs.wire.keep hstill
    · intro x hx hxop hconn
      obtain ⟨y, hy, hyop, hyconn⟩ := chain_origin hs.chained.ordered hu ho x hx
      rw [hsent]
      exact hs.wire.connecting y hy (hyop.trans hxop) (hyconn.trans hconn)
    · rw [hsent]
      exact fun q hq hqop => hs.wire.requesting q (hin q hq) hqop
    · intro qs h
      refine h.fail hu.conn (by simp [hb, hop]) hu.request (by rw [hsent]) ?_
      rw [hw]
      simp

/-- Steps of the callers and of the network. -/
theorem wire_outside (hs : Sending e s) (h : Effect e s a t) (hrun : a ≠ .run) : Wire e t := by
  obtain ⟨hu, ho⟩ : Unmoved t s ∧ Outside s t := by
    rcases effect_cases h with h | ⟨_, _, rfl, _⟩
    · exact h
    · exact absurd rfl hrun
  have hread {u : State} (hu : Unmoved u s) (ho : Outside s u) (ha : u.accepted = s.accepted)
      (hsent : u.sent = s.sent) (hb : u.socket.broken = s.socket.broken) {l r : List Pending}
      {p : Pending} {res : Result} (hl : s.pending = l ++ p :: r) (hop : p.op.writes = false)
      (hp : u.pending = l ++ r) (hr : u.ready = s.ready ++ [.complete s.socket.conn p.op res]) :
      Wire e u := by
    have hw : u.writes = s.writes := by
      rcases writes_finish hs.one hl hp hr hu.conn with ⟨_, hw⟩ | ⟨hpw, _⟩
      · exact hw
      · simp [hpw, Op.writes] at hop
    refine hs.wire.quiet (quiet_of_outside hs hu ho (by rw [ha]) hsent hb hw ?_)
    intro q hq _
    rw [hp] at hq
    rw [hl]
    rcases List.mem_append.mp hq with hq | hq <;> simp [hq]
  have hpart {u : State} (hu : Unmoved u s) (ho : Outside s u) (ha : u.accepted = s.accepted)
      (hsent : u.sent = s.sent) (hb : u.socket.broken = s.socket.broken) {l r : List Pending}
      {p q : Pending} (hl : s.pending = l ++ p :: r) (hop : p.op.writes = false)
      (hp : u.pending = l ++ q :: r) (hq : q.op = p.op) (hr : u.ready = s.ready) : Wire e u := by
    have hw : u.writes = s.writes :=
      State.chain_congr hr (by simp [hl, hp, hq]) hu.conn
    refine hs.wire.quiet (quiet_of_outside hs hu ho (by rw [ha]) hsent hb hw ?_)
    intro q' hq' hop'
    rw [hp] at hq'
    rw [hl]
    rcases List.mem_append.mp hq' with hm | hm
    · simp [hm]
    · rcases List.mem_cons.mp hm with rfl | hm
      · simp [hq, hop] at hop'
      · simp [hm]
  cases h with
  | run => exact absurd rfl hrun
  | call calls =>
    exact hs.wire.quiet (quiet_of_outside hs hu ho (.refl _) rfl rfl rfl fun _ hq _ => hq)
  | postClose i calls =>
    refine hs.wire.quiet (quiet_of_outside hs hu ho (.refl _) rfl rfl ?_ fun _ hq _ => hq)
    simp [State.writes, State.chain_eq, Handler.item?]
  | postConnect i calls =>
    refine hs.wire.quiet (quiet_of_outside hs hu ho (.refl _) rfl rfl ?_ fun _ hq _ => hq)
    simp [State.writes, State.chain_eq, Handler.item?]
  | postSend i calls pack =>
    refine hs.wire.quiet (quiet_of_outside hs hu ho ?_ rfl rfl ?_ fun _ hq _ => hq)
    · exact List.sublist_append_left ..
    · simp [State.writes, State.chain_eq, Handler.item?]
  | connected i l r p hl hop => exact hread hu ho rfl rfl rfl hl (by simp [hop, Op.writes]) rfl rfl
  | headAll i l r p bytes hl hop =>
    exact hread hu ho rfl rfl rfl hl (by simp [hop, Op.writes]) rfl rfl
  | bodyAll i l r p bytes hl hop =>
    exact hread hu ho rfl rfl rfl hl (by simp [hop, Op.writes]) rfl rfl
  | proxyAll i l r p bytes len hl hop =>
    exact hread hu ho rfl rfl rfl hl (by simp [hop, Op.writes]) rfl rfl
  | headPart i l r p bytes hl hop =>
    exact hpart hu ho rfl rfl rfl hl (by simp [hop, Op.writes]) rfl rfl rfl
  | bodyPart i l r p bytes hl hop =>
    exact hpart hu ho rfl rfl rfl hl (by simp [hop, Op.writes]) rfl rfl rfl
  | proxyPart i l r p bytes hl hop =>
    exact hpart hu ho rfl rfl rfl hl (by simp [hop, Op.writes]) rfl rfl rfl
  | sentPart i n l r p bytes more hl hop hd hb hm =>
    have hstill : Still _ s := still_of_outside hs.ticketed hu ho (.refl _) fun k hk =>
      Function.update_of_ne hk ..
    refine wire_transfer hs ⟨hl, hd, hb, hstill, hu, ho, rfl, Function.update_self .., ?_⟩ hop
    exact Or.inl ⟨hm, State.chain_congr rfl (by simp [hl]) rfl, rfl⟩
  | sentAll i n l r p hl hop hd =>
    have hstill : Still _ s := still_of_outside hs.ticketed hu ho (.refl _) fun k hk =>
      Function.update_of_ne hk ..
    refine wire_transfer hs ⟨hl, (List.append_nil _).symm, hd, hstill, hu, ho, rfl,
      Function.update_self .., ?_⟩ hop
    exact Or.inr ⟨rfl, rfl, rfl⟩
  | fail i err l r p hl =>
    exact wire_fail hs hl (still_of_outside hs.ticketed hu ho (.refl _) fun _ _ => rfl) hu ho (.refl _) rfl
      rfl err rfl rfl

end Network

/-! ### The handlers -/

theorem quiet_of_like (h : Like t s) (hl : t.sendDataList = s.sendDataList) : Quiet t s where
  still := ⟨h.conn, h.request, h.born, h.accepted ▸ .refl _,
    fun ticket ht => Or.inl (by simpa only [State.posts, h.ready] using ht), fun _ _ => by rw [h.sent]⟩
  isOpen := h.isOpen
  broken := by rw [h.broken]; exact id
  sent := by rw [h.sent]
  sendDataList := hl
  writes := State.chain_like h isWrite
  pending := fun p hp _ => h.pending ▸ hp
  chain := fun x hx hop => ⟨x, State.chain_like h _ ▸ hx, hop, rfl⟩

theorem quiet_of_pop (hr : s.ready = h :: rest) (hw : h.item?.toList.filter (isWrite ·.op) = []) :
    Quiet { s with ready := rest } s where
  still := by
    refine ⟨rfl, rfl, rfl, .refl _, fun ticket ht => Or.inl ?_, fun _ _ => rfl⟩
    simp only [State.posts, hr, List.filterMap_cons] at ht ⊢
    cases h.ticket? with
    | none => exact ht
    | some ticket' => exact List.mem_cons_of_mem _ ht
  isOpen := rfl
  broken := id
  sent := rfl
  sendDataList := rfl
  writes := State.writes_pop hr hw
  pending := fun p hp _ => hp
  chain := by
    intro x hx hop
    refine ⟨x, ?_, hop, rfl⟩
    rw [State.chain_pop _ hr]
    exact List.mem_append_right _ hx

theorem ticketed_pop (hs : Ticketed s) (hr : s.ready = h :: rest) :
    Ticketed { s with ready := rest } :=
  hs.same (hs.posted.pop hr).1 rfl le_rfl fun _ _ hm => hr ▸ List.mem_cons_of_mem _ hm

theorem Sending.pop (hs : Sending e s) (hr : s.ready = h :: rest)
    (hw : h.item?.toList.filter (isWrite ·.op) = []) : Sending e { s with ready := rest } :=
  ⟨hs.one.pop hr hw, ticketed_pop hs.ticketed hr, hs.chained.pop hr,
    hs.wire.quiet (quiet_of_pop hr hw)⟩

theorem mem_pending_start {op : Op} {data : Bytes} {p : Pending}
    (hp : p ∈ (s.start op data).pending) : p ∈ s.pending ∨ p = ⟨op, data, 0⟩ := by
  simp only [State.start] at hp
  split at hp
  · exact (List.mem_append.mp hp).imp_right List.mem_singleton.mp
  · exact .inl hp

/-- An operation that moves no bytes out is started. -/
theorem quiet_of_start (op : Op) (hop : op.writes = false) (hc : op ≠ .connect) (data : Bytes) :
    Quiet (s.start op data) s where
  still := ⟨rfl, rfl, rfl, .refl _, fun ticket ht => Or.inl (posts_start (s := s) op data ▸ ht),
    fun _ _ => rfl⟩
  isOpen := rfl
  broken := id
  sent := rfl
  sendDataList := rfl
  writes := by
    apply State.chain_start_unselected
    cases op <;> simp_all [Op.writes, isWrite]
  pending := by
    intro p hp hw
    rcases mem_pending_start hp with hp | rfl
    · exact hp
    · simp [hop] at hw
  chain := by
    intro x hx hxop
    have hsel : handshakeOp s.request op = false := by
      cases op <;> simp_all [Op.writes, handshakeOp]
    exact ⟨x, State.chain_start_unselected hsel data ▸ hx, hxop, rfl⟩

theorem quiet_of_found (n : Nat) : Quiet (s.queue .proxyRead (.success n)) s where
  still := by
    refine ⟨rfl, rfl, rfl, .refl _, fun ticket ht => Or.inl ?_, fun _ _ => rfl⟩
    simpa [State.posts, State.queue, Handler.ticket?] using ht
  isOpen := rfl
  broken := id
  sent := rfl
  sendDataList := rfl
  writes := by simp [State.writes, State.chain_eq, State.queue, Handler.item?, isWrite]
  pending := fun p hp _ => hp
  chain := by
    intro x hx hop
    refine ⟨x, ?_, hop, rfl⟩
    have hc : (s.queue .proxyRead (.success n)).chain (handshakeOp s.request) =
        s.chain (handshakeOp s.request) := by
      simp [State.chain_eq, State.queue, Handler.item?, handshakeOp]
    exact hc ▸ hx

/-- The socket is closed. -/
theorem wire_release (hs : Sending e s) : Wire e (s.release e.closing) := by
  have hposts : (s.release e.closing).posts = s.posts := posts_release _
  apply hs.wire.keep
  · exact ⟨rfl, rfl, rfl, .refl _, fun ticket ht => Or.inl (hposts ▸ ht), fun _ _ => rfl⟩
  · intro x hx hop hconn
    rw [hs.chained.chain_release] at hx
    split at hx
    · obtain ⟨y, hy, rfl⟩ := List.mem_map.mp hx
      rw [op_settled] at hop
      rw [conn_settled] at hconn
      exact hs.wire.connecting y hy hop hconn
    · exact hs.wire.connecting x hx hop hconn
  · intro p hp
    simp only [State.release] at hp
    split at hp
    · cases hp
    · exact hs.wire.requesting p hp
  · intro qs hw
    exact hw.release hs.one

/-- A handler that starts nothing on the wire. -/
theorem wire_turn (hs : Sending e s) (hl : t.sendDataList = s.sendDataList)
    (hsend : ∀ ticket pack, h ≠ .sendMessage ticket pack)
    (hop : ∀ conn op res, h = .complete conn op res → op ≠ .write ∧ op ≠ .connect)
    (ht : Turn e s h t) : Wire e t := by
  cases ht with
  | stay _ _ hlike => exact hs.wire.quiet (quiet_of_like hlike hl)
  | close _ _ hlike => exact (wire_release hs).quiet (quiet_of_like hlike hl)
  | send ticket pack => exact absurd rfl (hsend ticket pack)
  | next conn len op op' data _ hnext hlike =>
    obtain ⟨hw, hc⟩ := hop conn op _ rfl
    have hread : op'.writes = false ∧ op' ≠ .connect := by
      cases op <;> simp_all [Op.next] <;> rcases hnext with rfl | rfl <;> simp [Op.writes]
    exact (hs.wire.quiet (quiet_of_start _ hread.1 hread.2 data)).quiet (quiet_of_like hlike hl)
  | found conn len n _ hlike =>
    exact (hs.wire.quiet (quiet_of_found n)).quiet (quiet_of_like hlike hl)

section Runs

variable {conn : Nat} {res : Result}

theorem wire_onConnected (hs : Sending e s) (hr : s.ready = .complete conn .connect res :: rest) :
    Wire e (State.onConnected e { s with ready := rest } conn res) := by
  have hnw : (Handler.complete conn .connect res).item?.toList.filter (isWrite ·.op) = [] := by
    cases res <;> rfl
  have hpop := hs.pop hr hnw
  cases res with
  | failure err => exact hpop.wire.quiet (quiet_of_like (by constructor <;> rfl) rfl)
  | success len =>
    by_cases hreq : s.request = []
    · have hstart := hpop.wire.quiet (quiet_of_start .readHead rfl (by decide) [])
      refine hstart.quiet (quiet_of_like ?_ ?_)
      · simp only [State.onConnected, hreq, ne_eq, not_true_eq_false, if_false]
        constructor <;> rfl
      · simp only [State.onConnected, hreq, ne_eq, not_true_eq_false, if_false]
        rfl
    · -- the request goes out on the connection whose connect has succeeded
      have hsel : handshakeOp s.request .connect = true := by simp [handshakeOp, hreq]
      obtain ⟨hcur, hnil⟩ := hs.chained.chain_last hr hsel
      have hempty : s.sent s.socket.conn = [] := by
        apply hs.wire.connecting ⟨conn, .connect, .succeeded⟩ _ rfl hcur
        rw [State.chain_pop _ hr]
        simp [Handler.item?, hsel]
      have heq : State.onConnected e { s with ready := rest } conn (.success len) =
          State.startWrite { s with ready := rest, closed := false, owner := conn } .proxyWrite
            s.request := by
        simp [State.onConnected, hreq, State.doProxy]
      rw [heq]
      have hold : ∀ p ∈ s.pending, p.op ≠ .proxyWrite := by
        intro p hp hop
        have hm : (⟨s.socket.conn, p.op, .waiting⟩ : Item) ∈
            State.chain { s with ready := rest } (handshakeOp s.request) := by
          refine List.mem_filter.mpr ⟨List.mem_append_right _ (List.mem_map_of_mem hp), ?_⟩
          simp [handshakeOp, hreq, hop]
        simp [hnil] at hm
      have hposts : (State.startWrite { s with ready := rest, closed := false, owner := conn }
          .proxyWrite s.request).posts = State.posts { s with ready := rest } := posts_start ..
      apply hpop.wire.keep
      · exact ⟨rfl, rfl, rfl, .refl _, fun ticket ht => Or.inl (hposts ▸ ht), fun _ _ => rfl⟩
      · intro _ _ _ _
        exact hempty
      · intro p hp hop
        rcases mem_pending_start hp with hp | rfl
        · exact absurd hop (hold p hp)
        · refine ⟨hreq, ?_⟩
          show s.sent s.socket.conn ++ s.request = s.request
          rw [hempty, List.nil_append]
      · intro qs hw
        refine hw.of_eq ?_ rfl rfl id rfl rfl rfl ?_
        · exact State.chain_start_unselected rfl _
        · intro p hp hop
          rcases mem_pending_start hp with hp | rfl
          · exact hp
          · cases hop

/-- What `do_write` may have started. -/
def WriteTurn (t s : State) : Prop := Like t s ∨ ∃ data, Like t (s.start .write data)

theorem writeTurn_doWrite (s : State) : WriteTurn s.doWrite s := by
  unfold State.doWrite
  split
  · exact Or.inl (by constructor <;> rfl)
  · next data more hl => exact Or.inr ⟨data, by constructor <;> rfl⟩

theorem writeTurn_runSend (s : State) (pack : Bytes) : WriteTurn (s.runSend e pack) s := by
  simp only [State.runSend]
  split
  · split
    · rcases writeTurn_doWrite { s with sendDataList := pushMessage e.order s.sendDataList pack }
        with h | ⟨data, h⟩
      · exact Or.inl ⟨h.ready, h.pending, h.conn, h.isOpen, h.broken, h.request, h.born, h.tickets,
          h.accepted, h.sent, h.received⟩
      · exact Or.inr ⟨data, h.ready, h.pending, h.conn, h.isOpen, h.broken, h.request, h.born,
          h.tickets, h.accepted, h.sent, h.received⟩
    · exact Or.inl (by constructor <;> rfl)
  · exact Or.inl (by constructor <;> rfl)

theorem writeTurn_onWritten (s : State) (res : Result) : WriteTurn (s.onWritten res) s := by
  cases res with
  | failure err => exact Or.inl (by constructor <;> rfl)
  | success len =>
    simp only [State.onWritten]
    split
    · rcases writeTurn_doWrite { s with sendDataList := s.sendDataList.tail } with h | ⟨data, h⟩
      · exact Or.inl ⟨h.ready, h.pending, h.conn, h.isOpen, h.broken, h.request, h.born, h.tickets,
          h.accepted, h.sent, h.received⟩
      · exact Or.inr ⟨data, h.ready, h.pending, h.conn, h.isOpen, h.broken, h.request, h.born,
          h.tickets, h.accepted, h.sent, h.received⟩
    · exact Or.inl (by constructor <;> rfl)

theorem still_of_writeTurn (h : WriteTurn t s) : Still t s := by
  rcases h with h | ⟨data, h⟩
  · refine ⟨h.conn, h.request, h.born, h.accepted ▸ .refl _, fun ticket ht => Or.inl ?_,
      fun _ _ => by rw [h.sent]⟩
    simpa only [State.posts, h.ready] using ht
  · refine ⟨h.conn, h.request, h.born, h.accepted ▸ .refl _, fun ticket ht => Or.inl ?_,
      fun _ _ => by rw [h.sent]; rfl⟩
    rw [← posts_start .write data]
    simpa only [State.posts, h.ready] using ht

theorem sent_of_writeTurn (h : WriteTurn t s) : t.sent = s.sent := by
  rcases h with h | ⟨data, h⟩ <;> exact h.sent

theorem chain_of_writeTurn (h : WriteTurn t s) (request : Bytes) :
    t.chain (handshakeOp request) = s.chain (handshakeOp request) := by
  rcases h with h | ⟨data, h⟩
  · exact State.chain_like h _
  · exact (State.chain_like h _).trans
      (State.chain_start_unselected (leading_handshakeOp request).write data)

theorem pending_of_writeTurn (h : WriteTurn t s) :
    ∀ p ∈ t.pending, p.op = .proxyWrite → p ∈ s.pending := by
  intro p hp hop
  rcases h with h | ⟨data, h⟩
  · exact h.pending ▸ hp
  · rw [h.pending] at hp
    rcases mem_pending_start hp with hp | rfl
    · exact hp
    · cases hop

theorem wire_onWritten (hs : Sending e s) (hr : s.ready = .complete conn .write res :: rest) :
    Wire e (State.onWritten { s with ready := rest } res) := by
  have ht := writeTurn_onWritten { s with ready := rest } res
  have hstill := still_of_writeTurn ht
  have hsub : ∀ x ∈ State.chain { s with ready := rest } (handshakeOp s.request),
      x ∈ s.chain (handshakeOp s.request) := by
    intro x hx
    rw [State.chain_pop _ hr]
    exact List.mem_append_right _ hx
  apply hs.wire.keep
  · refine ⟨hstill.conn, hstill.request, hstill.born, hstill.accepted, fun ticket hm => ?_,
      hstill.past⟩
    rcases hstill.posts ticket hm with hm | hm
    · refine Or.inl ?_
      simpa [State.posts, hr, Handler.ticket?] using hm
    · exact Or.inr hm
  · intro x hx hop hconn
    rw [chain_of_writeTurn ht] at hx
    rw [sent_of_writeTurn ht]
    exact hs.wire.connecting x (hsub x hx) hop hconn
  · intro p hp hop
    rw [sent_of_writeTurn ht]
    exact hs.wire.requesting p (pending_of_writeTurn ht p hp hop) hop
  · intro qs hw
    exact hw.written_run hs.one hr

theorem wire_runSend {ticket : Nat} {pack : Bytes} (hs : Sending e s)
    (hr : s.ready = .sendMessage ticket pack :: rest)
    (hg : s.socket.isOpen = true → (s.sendDataList = [] → s.socket.broken = false) ∧
      s.request <+: s.sent s.socket.conn) :
    Wire e (State.runSend e { s with ready := rest } pack) := by
  have hpop := hs.pop hr rfl
  have ht := writeTurn_runSend (e := e) { s with ready := rest } pack
  have hstill := still_of_writeTurn ht
  by_cases ho : s.socket.isOpen = true
  · obtain ⟨hb, hreq⟩ := hg ho
    constructor
    · rw [hstill.request, hstill.conn, chain_of_writeTurn ht, sent_of_writeTurn ht]
      exact hpop.wire.connecting
    · rw [hstill.request, hstill.conn, sent_of_writeTurn ht]
      exact fun p hp hop => hpop.wire.requesting p (pending_of_writeTurn ht p hp hop) hop
    · rw [hstill.conn, sent_of_writeTurn ht]
      exact hpop.wire.fresh
    · obtain ⟨qs, hsub, hposts, hcur⟩ := hs.wire.current
      have hcur' : Writing e.order { s with ready := rest } qs :=
        hcur.of_eq (State.writes_pop hr rfl) rfl rfl id rfl rfl rfl fun p hp _ => hp
      obtain ⟨qs', hqs, hw⟩ := hcur'.send hpop.one ho hb hreq ticket pack
      obtain ⟨hborn, _, hlater⟩ := (hs.ticketed.posted.pop hr).2 ticket rfl
      have hknown := hs.ticketed.known ticket pack (by simp [hr])
      -- the packet was accepted behind this attempt, and behind the packets queued before it
      have hfirst : ∀ q ∈ qs, q.1 < ticket := fun q hq =>
        hposts q hq ticket (by simp [State.posts, hr, Handler.ticket?])
      have hlast : (qs ++ [(ticket, pack)]).Sublist (s.acceptedAfter s.socket.conn) :=
        sublist_snoc hsub (hs.ticketed.sorted.filter _)
          (List.mem_filter.mpr ⟨hknown, by simpa using hborn⟩) hfirst
      have hnew : ∀ q ∈ qs ++ [(ticket, pack)], ∀ later ∈ State.posts { s with ready := rest },
          q.1 < later := by
        intro q hq later hl
        rcases List.mem_append.mp hq with hq | hq
        · exact hposts q hq later (by simpa [State.posts, hr, Handler.ticket?] using Or.inr hl)
        · obtain rfl := List.mem_singleton.mp hq
          exact hlater later hl
      have hqs' : qs'.Sublist (qs ++ [(ticket, pack)]) := by
        rcases hqs with rfl | rfl
        · exact List.sublist_append_left ..
        · exact .refl _
      refine ⟨qs', ?_, ?_, hw⟩
      · rw [hstill.conn]
        exact (hqs'.trans hlast).trans (sublist_accepted (by rw [hstill.born]) hstill.accepted)
      · intro q hq later hl
        rcases hstill.posts later hl with hl | hl
        · exact hnew q (hqs'.subset hq) later hl
        · exact hl q (List.mem_of_mem_filter ((hqs'.trans hlast).subset hq))
    · rw [hstill.conn, hstill.request]
      intro k hk
      rw [hstill.past k (Nat.ne_of_lt hk)]
      obtain ⟨qs, hsub, hpre⟩ := hs.wire.before k hk
      exact ⟨qs, hsub.trans (sublist_accepted (by rw [hstill.born]) hstill.accepted), hpre⟩
  · have hsame : State.runSend e { s with ready := rest } pack = { s with ready := rest } := by
      simp [State.runSend, ho]
    rw [hsame]
    exact hpop.wire

theorem wire_realConnect {ticket : Nat} (hs : Sending e s) (hr : s.ready = .doConnect ticket :: rest)
    (hg : (∃ x ∈ s.writes, x.status = .succeeded) → s.sendDataList.length ≤ 1) :
    Wire e (State.realConnect e { s with ready := rest } ticket) := by
  have hpop := hs.pop hr rfl
  have hempty : s.sent (s.socket.conn + 1) = [] := hs.wire.fresh _ (Nat.lt_succ_self _)
  have hborn (k : Nat) (hk : k < s.socket.conn + 1) :
      (State.realConnect e { s with ready := rest } ticket).born k = s.born k :=
    Function.update_of_ne (Nat.ne_of_lt hk) ..
  constructor
  · intro _ _ _ _
    exact hempty
  · intro p hp hop
    have hidle : (State.release e.closing { s with ready := rest }).pending = [] :=
      hpop.one.release.idle rfl
    obtain rfl : p = ⟨.connect, [], 0⟩ := by
      simpa [State.realConnect, State.start, hidle] using hp
    cases hop
  · intro k hk
    exact hs.wire.fresh k (Nat.lt_of_succ_lt hk)
  · refine ⟨[], List.nil_sublist _, by simp, ?_⟩
    apply writing_reconnect hpop.one ticket hempty
    rwa [State.writes_pop hr rfl]
  · intro k hk
    have hsub : (s.acceptedAfter k).Sublist
        ((State.realConnect e { s with ready := rest } ticket).acceptedAfter k) :=
      sublist_accepted (hborn k hk) (.refl _)
    rcases Nat.lt_or_eq_of_le (Nat.le_of_lt_succ hk) with hlt | rfl
    · obtain ⟨qs, hqs, hpre⟩ := hs.wire.before k hlt
      exact ⟨qs, hqs.trans hsub, hpre⟩
    · obtain ⟨qs, hqs, _, hcur⟩ := hs.wire.current
      exact ⟨qs, hqs.trans hsub, hcur.sent_of_writing⟩

end Runs

theorem request_step (h : step e s a = some t) : t.request = s.request := by
  rcases effect_cases (effect_of_step h) with ⟨hu, _⟩ | ⟨hd, rest, rfl, hr, rfl⟩
  · exact hu.request
  · by_cases hc : ∃ ticket, hd = .doConnect ticket
    · obtain ⟨ticket, rfl⟩ := hc
      rfl
    · cases turn_of_run (e := e) (s := { s with ready := rest }) hd
        fun ticket h => hc ⟨ticket, h⟩ with
      | stay _ _ hl => exact hl.request
      | close _ _ hl => exact hl.request
      | send _ _ data _ _ hl => exact hl.request
      | next _ _ _ _ data _ _ hl => exact hl.request
      | found _ _ n _ hl => exact hl.request

theorem sending_initial (request : Bytes) : Sending e (initial request) := by
  refine ⟨oneWrite_initial request, ticketed_initial request, chained_initial request, ?_⟩
  constructor
  · intro _ _ _ _
    rfl
  · intro p hp
    cases hp
  · intro k _
    rfl
  · exact ⟨[], List.nil_sublist _, by simp, .early rfl List.nil_prefix rfl⟩
  · intro k hk
    exact absurd hk (Nat.not_lt_zero k)

theorem sending_step (hs : Sending e s) (hclean : Clean e (handshakeOp s.request) s a)
    (hold : connects s a = true → (∃ x ∈ s.writes, x.status = .succeeded) →
      s.sendDataList.length ≤ 1)
    (hsend : sends s a = true → s.socket.isOpen = true →
      (s.sendDataList = [] → s.socket.broken = false) ∧ s.request <+: s.sent s.socket.conn)
    (h : step e s a = some t) : Sending e t := by
  have hchained := chained_step (leading_handshakeOp s.request) hs.chained hclean h
  rw [← request_step h] at hchained
  refine ⟨oneWrite_step hs.one h, ticketed_step hs.ticketed h, hchained, ?_⟩
  by_cases hrun : a = .run
  · subst hrun
    cases effect_of_step h with
    | call _ calls => exact hs.wire.quiet (quiet_of_like (by constructor <;> rfl) rfl)
    | run hd rest hr =>
      cases hd with
      | doConnect ticket => exact wire_realConnect hs hr (hold (by simp [connects, hr]))
      | sendMessage ticket pack => exact wire_runSend hs hr (hsend (by simp [sends, hr]))
      | doClose ticket =>
        refine wire_turn (h := .doClose ticket) (hs.pop hr rfl) ?_ (by simp) (by simp)
          (turn_of_run _ (by simp))
        simp only [State.runHandler, State.runClose]
        split <;> rfl
      | complete conn op res =>
        by_cases hw : op = .write
        · subst hw
          exact wire_onWritten hs hr
        · by_cases hc : op = .connect
          · subst hc
            exact wire_onConnected hs hr
          · have hitem : (Handler.complete conn op res).item?.toList.filter (isWrite ·.op) = [] := by
              obtain ⟨st, _, hitem⟩ := item_complete conn op res
              simp [hitem, isWrite, hw]
            exact wire_turn (h := .complete conn op res) (hs.pop hr hitem)
              (State.sendDataList_complete hw conn res) (by simp) (by simp [hw, hc])
              (turn_of_run _ (by simp))
  · exact wire_outside hs (effect_of_step h) hrun

theorem sending_run (h : Run (step e) (Orderly e) (initial request) as s) : Sending e s := by
  refine h.invariant _ (fun s a t hs hg hst => ?_) (sending_initial request)
  obtain ⟨hclean, hold, hsend, -⟩ := hg
  exact sending_step hs hclean hold (fun ha ho => ⟨fun _ => (hsend ha ho).1, (hsend ha ho).2⟩) hst

theorem Sending.frames (hs : Sending e s) (k : Nat) :
    ∃ qs, qs.Sublist (s.acceptedAfter k) ∧ s.sent k <+: s.request ++ framesOf e.order qs := by
  rcases Nat.lt_trichotomy k s.socket.conn with hlt | rfl | hgt
  · exact hs.wire.before k hlt
  · obtain ⟨qs, hsub, _, hcur⟩ := hs.wire.current
    exact ⟨qs, hsub, hcur.sent_of_writing⟩
  · exact ⟨[], List.nil_sublist _, by simp [hs.wire.fresh k hgt]⟩

/-- In a run where sends and reconnects come in order, each connection has written a beginning of
its request and of whole frames of packets that were accepted behind its own `do_connect`. -/
theorem own_frames (h : Run (step e) (Orderly e) (initial request) as s) (k : Nat) :
    ∃ qs, qs.Sublist (s.acceptedAfter k) ∧ s.sent k <+: s.request ++ framesOf e.order qs :=
  (sending_run h).frames k

/-- Two connections through a gateway, a packet on the second. -/
theorem own_frames_example :
    ∃ as s, Run (step ⟨.little, .keep, fun _ => ""⟩) (Orderly ⟨.little, .keep, fun _ => ""⟩)
        (initial [67]) as s ∧ s.sent 2 = [67, 69, 84, 0, 0, 0, 1, 9] ∧
      ∃ qs, qs.Sublist (s.acceptedAfter 2) ∧ s.sent 2 <+: s.request ++ framesOf .little qs :=
  have h := run_exec (step ⟨.little, .keep, fun _ => ""⟩) (Orderly ⟨.little, .keep, fun _ => ""⟩)
    (initial [67])
    [.callConnect, .post 0, .run, .callConnect, .post 0, .post 0, .run, .run, .run, .connected 0,
      .run, .transfer 0 1, .callSend [9], .post 0, .run, .run, .transfer 1 6, .run,
      .transfer 1 1] (by decide)
  ⟨_, _, h, by decide, own_frames h 2⟩

/-- A second `connect()` over a body of which one byte has gone out is no step of such a run. -/
example : (exec (step ⟨.little, .keep, fun _ => ""⟩) (Orderly ⟨.little, .keep, fun _ => ""⟩)
    (initial []) [.callConnect, .post 0, .run, .connected 0, .run, .callSend [1, 2], .post 0, .run,
      .transfer 1 6, .run, .transfer 1 1, .callConnect, .post 0, .post 0, .run, .run]).isNone := by
  decide

/-- The header of a packet is written on the first connection; the body is written on the second,
before anything was accepted for it. -/
theorem frame_split_across_connections :
    ¬ ∀ as s k, Run (step ⟨.little, .keep, fun _ => ""⟩) Free (initial []) as s →
      ∃ qs, qs.Sublist (s.acceptedAfter k) ∧ s.sent k <+: s.request ++ framesOf .little qs := by
  intro h
  have hrun := run_exec (step ⟨.little, .keep, fun _ => ""⟩) Free (initial [])
    [.callConnect, .post 0, .run, .connected 0, .run, .callSend [1], .post 0, .run, .callConnect,
      .post 0, .post 0, .transfer 1 6, .run, .run, .run, .connected 0, .transfer 0 1] (by decide)
  obtain ⟨qs, hsub, hpre⟩ := h _ _ 2 hrun
  obtain rfl : qs = [] := List.sublist_nil.mp hsub
  have hpre : [1] <+: [] ++ framesOf .little [] := hpre
  revert hpre
  decide

end NetworkUtility.EtcpClient
