import NetworkUtility.EtcpClient.WriteSide

/-! A write that fails leaves its connection open: it stays silent as long as no packet is queued
behind the failure. -/
namespace NetworkUtility.EtcpClient

open Etcp Machine

variable {e : Env} {s t : State} {a : Action} {request : Bytes} {as bs : List Action}
  {h : Handler} {rest : List Handler} {k : Nat}

/-- A packet is queued on an open socket when the request is written and, if the list is empty, when
no write has failed there. A later `real_connect` overtakes no success of the old connection and no
operation that has moved a part. -/
def Unbroken (e : Env) (s : State) (a : Action) : Prop :=
  (connects s a = true → s.socket.conn = 0 ∨ Clean e (handshakeOp s.request) s a ∧
    ((∃ x ∈ s.writes, x.status = .succeeded) → s.sendDataList.length ≤ 1)) ∧
    (sends s a = true → s.socket.isOpen = true →
      (s.sendDataList = [] → s.socket.broken = false) ∧ s.request <+: s.sent s.socket.conn) ∧
    Intact s a

instance : Decidable (Unbroken e s a) :=
  inferInstanceAs (Decidable ((_ → _ ∨ _ ∧ (_ → _)) ∧ (_ → _ → (_ → _) ∧ _) ∧ _))

/-- Before the first `real_connect` there is nothing to complete. -/
def Unborn (s : State) : Prop :=
  s.socket.conn = 0 → s.socket.isOpen = false ∧ ∀ sel, s.chain sel = []

/-- A connection with a failed write has written its request and has no write on its way. -/
def Silent (s : State) : Prop :=
  s.socket.broken = true → s.request <+: s.sent s.socket.conn ∧ ∀ x ∈ s.writes, x.status = .failed

theorem unborn_initial (request : Bytes) : Unborn (initial request) := fun _ => ⟨rfl, fun _ => rfl⟩

theorem chain_ne_nil {l r : List Pending} {p : Pending} (hl : s.pending = l ++ p :: r) :
    s.chain (fun _ => true) ≠ [] := by
  apply List.ne_nil_of_mem (a := (⟨s.socket.conn, p.op, .waiting⟩ : Item))
  refine List.mem_filter.mpr ⟨List.mem_append_right _ (List.mem_map_of_mem ?_), rfl⟩
  rw [hl]
  exact List.mem_append_right _ List.mem_cons_self

theorem unborn_step (hs : Unborn s) (h : step e s a = some t) : Unborn t := by
  rcases effect_cases (effect_of_step h) with ⟨hu, ho⟩ | ⟨hd, rest, rfl, hr, rfl⟩
  · intro hc
    rw [hu.conn] at hc
    obtain ⟨hclosed, hnil⟩ := hs hc
    refine ⟨hu.isOpen.trans hclosed, fun sel => ?_⟩
    cases ho with
    | same hready _ hp => rw [State.chain_congr hready hp hu.conn, hnil]
    | post g hi _ hready _ hp =>
      rw [← hnil sel, State.chain_eq, State.chain_eq, hready, hp, hu.conn]
      simp [hi]
    | finish l r p res hl => exact absurd (hnil _) (chain_ne_nil hl)
  · by_cases hc : ∃ ticket, hd = .doConnect ticket
    · obtain ⟨ticket, rfl⟩ := hc
      intro hc
      exact absurd hc (Nat.succ_ne_zero _)
    · have hturn := turn_of_run (e := e) (s := { s with ready := rest }) hd
        fun ticket h => hc ⟨ticket, h⟩
      generalize State.runHandler e { s with ready := rest } hd = t at hturn
      have hpopped (hz : s.socket.conn = 0) (sel : Op → Bool) :
          hd.item?.toList.filter (sel ·.op) = [] ∧ State.chain { s with ready := rest } sel = [] := by
        have hnil := (hs hz).2 sel
        rw [State.chain_pop _ hr, List.append_eq_nil_iff] at hnil
        exact hnil
      have hbusy {conn len : Nat} {op : Op} (hd' : hd = .complete conn op (.success len)) :
          s.socket.conn ≠ 0 := by
        intro hz
        have hitem := (hpopped hz fun _ => true).1
        simp [hd', Handler.item?] at hitem
      cases hturn with
      | stay _ _ hl =>
        intro hz
        rw [hl.conn] at hz
        exact ⟨hl.isOpen.trans (hs hz).1, fun sel => (State.chain_like hl sel).trans (hpopped hz sel).2⟩
      | close _ _ hl =>
        intro hz
        rw [hl.conn] at hz
        have hclosed : s.socket.isOpen = false := (hs hz).1
        refine ⟨hl.isOpen, fun sel => (State.chain_like hl sel).trans ?_⟩
        rw [← (hpopped hz sel).2]
        simp [State.chain_eq, State.release, hclosed]
      | send ticket pack data _ hopen =>
        intro hz
        rename_i hl
        rw [hl.conn] at hz
        have hopen : s.socket.isOpen = true := hopen
        rw [(hs hz).1] at hopen
        cases hopen
      | next conn len op op' data _ _ hl =>
        intro hz
        rw [hl.conn] at hz
        exact absurd hz (hbusy rfl)
      | found conn len n _ hl =>
        intro hz
        rw [hl.conn] at hz
        exact absurd hz (hbusy rfl)

/-! ### Silence behind a failed write -/

theorem sent_of_handler (h : Handler) : (s.runHandler e h).sent = s.sent := by
  by_cases hc : ∃ ticket, h = .doConnect ticket
  · obtain ⟨ticket, rfl⟩ := hc
    rfl
  · cases turn_of_run (e := e) (s := s) h fun ticket hd => hc ⟨ticket, hd⟩ with
    | stay _ _ hl => exact hl.sent
    | close _ _ hl => exact hl.sent
    | send _ _ data _ _ hl => exact hl.sent
    | next _ _ _ _ data _ _ hl => exact hl.sent
    | found _ _ n _ hl => exact hl.sent

/-- A handler keeps its connection, and what is known of it, or opens the next. -/
theorem socket_of_handler (h : Handler) :
    ((s.runHandler e h).socket.conn = s.socket.conn ∧
      (s.runHandler e h).socket.broken = s.socket.broken) ∨
    ((s.runHandler e h).socket.conn = s.socket.conn + 1 ∧
      (s.runHandler e h).socket.broken = false) := by
  by_cases hc : ∃ ticket, h = .doConnect ticket
  · obtain ⟨ticket, rfl⟩ := hc
    exact Or.inr ⟨rfl, rfl⟩
  · refine Or.inl ?_
    cases turn_of_run (e := e) (s := s) h fun ticket hd => hc ⟨ticket, hd⟩ with
    | stay _ _ hl => exact ⟨hl.conn, hl.broken⟩
    | close _ _ hl => exact ⟨hl.conn, hl.broken⟩
    | send _ _ data _ _ hl => exact ⟨hl.conn, hl.broken⟩
    | next _ _ _ _ data _ _ hl => exact ⟨hl.conn, hl.broken⟩
    | found _ _ n _ hl => exact ⟨hl.conn, hl.broken⟩

/-- A handler that starts no write leaves the failed ones. -/
theorem failed_turn (hone : OneWrite s) (hf : ∀ x ∈ s.writes, x.status = .failed)
    (hop : ∀ conn res, h ≠ .complete conn .write res)
    (hsend : ∀ ticket pack, h ≠ .sendMessage ticket pack) (ht : Turn e s h t) :
    ∀ x ∈ t.writes, x.status = .failed := by
  cases ht with
  | stay _ _ hl =>
    have hw : t.writes = s.writes := State.chain_like hl isWrite
    rw [hw]
    exact hf
  | close _ _ hl =>
    have hw : t.writes = (s.release e.closing).writes := State.chain_like hl isWrite
    rw [hw, hone.writes_release]
    intro x hx
    split at hx
    · obtain ⟨y, hy, rfl⟩ := List.mem_map.mp hx
      exact settled_of_failed (hf y hy)
    · exact hf x hx
  | send ticket pack => exact absurd rfl (hsend ticket pack)
  | next conn len op op' data _ hnext hl =>
    have hne : op ≠ .write := by
      rintro rfl
      exact hop conn _ rfl
    have hw : t.writes = (s.start op' data).writes := State.chain_like hl isWrite
    have hstart : (s.start op' data).writes = s.writes :=
      State.chain_start_unselected (write_notMem_next hnext hne) data
    rw [hw, hstart]
    exact hf
  | found conn len n _ hl =>
    have hw : t.writes = (s.queue .proxyRead (.success n)).writes := State.chain_like hl isWrite
    have hqueue : (s.queue .proxyRead (.success n)).writes = s.writes := by
      simp [State.writes, State.chain_eq, State.queue, Handler.item?, isWrite]
    rw [hw, hqueue]
    exact hf

theorem failed_runSend {ticket : Nat} {pack : Bytes}
    (hr : s.ready = .sendMessage ticket pack :: rest) (hf : ∀ x ∈ s.writes, x.status = .failed)
    (hg : s.socket.isOpen = true → s.sendDataList ≠ []) :
    ∀ x ∈ (State.runSend e { s with ready := rest } pack).writes, x.status = .failed := by
  have hpop : State.writes { s with ready := rest } = s.writes := State.writes_pop hr rfl
  by_cases ho : s.socket.isOpen = true
  · rw [State.runSend_eq (s := { s with ready := rest }) ho, if_neg (hg ho)]
    have hw : State.writes { s with
        ready := rest
        sendDataList := s.sendDataList ++ [messageHead e.order pack, pack] } = s.writes := hpop
    rw [hw]
    exact hf
  · have hsame : State.runSend e { s with ready := rest } pack = { s with ready := rest } := by
      simp [State.runSend, ho]
    rw [hsame, hpop]
    exact hf

theorem failed_onWritten {conn : Nat} {res : Result} (hs : Sending e s)
    (hr : s.ready = .complete conn .write res :: rest) (hf : ∀ x ∈ s.writes, x.status = .failed) :
    ∀ x ∈ (State.onWritten { s with ready := rest } res).writes, x.status = .failed := by
  obtain ⟨st, _, hitem, hx, hnil, _⟩ := hs.one.last hr
  have hst : st = .failed := hf ⟨conn, .write, st⟩ (by simp [hx])
  subst hst
  cases res with
  | failure err =>
    have hw : (State.onWritten { s with ready := rest } (.failure err)).writes = [] := hnil
    simp [hw]
  | success len => simp [Handler.item?] at hitem

theorem silent_handler (hs : Sending e s) (hq : Silent s) (hr : s.ready = h :: rest)
    (hg : ∀ ticket pack, h = .sendMessage ticket pack → s.socket.isOpen = true →
      s.sendDataList = [] → s.socket.broken = false) :
    Silent (State.runHandler e { s with ready := rest } h) := by
  rcases socket_of_handler (e := e) (s := { s with ready := rest }) h with ⟨hconn, hbr⟩ | ⟨_, hbr⟩
  · intro hb
    rw [hbr] at hb
    obtain ⟨hreq, hf⟩ := hq hb
    have hkeep : (State.runHandler e { s with ready := rest } h).request = s.request :=
      request_step (e := e) (a := .run) (by simp [step, hr])
    refine ⟨?_, ?_⟩
    · rw [hkeep, hconn, sent_of_handler]
      exact hreq
    · cases h with
      | doConnect ticket => exact absurd hconn (Nat.succ_ne_self _)
      | sendMessage ticket pack =>
        refine failed_runSend hr hf fun ho hnil => ?_
        rw [hg ticket pack rfl ho hnil] at hb
        cases hb
      | doClose ticket =>
        have hpop : State.writes { s with ready := rest } = s.writes := State.writes_pop hr rfl
        refine failed_turn (h := .doClose ticket) (hs.one.pop hr rfl) (hpop ▸ hf) (by simp)
          (by simp) (turn_of_run _ (by simp))
      | complete conn op res =>
        by_cases hw : op = .write
        · subst hw
          exact failed_onWritten hs hr hf
        · have hitem : (Handler.complete conn op res).item?.toList.filter (isWrite ·.op) = [] := by
            obtain ⟨st, _, hitem⟩ := item_complete conn op res
            simp [hitem, isWrite, hw]
          have hpop : State.writes { s with ready := rest } = s.writes := State.writes_pop hr hitem
          exact failed_turn (h := .complete conn op res) (hs.one.pop hr hitem) (hpop ▸ hf)
            (by simp [hw]) (by simp) (turn_of_run _ (by simp))
  · intro hb
    rw [hbr] at hb
    cases hb

/-- A pending write finds its connection without a failed one. -/
theorem Silent.not_broken {l r : List Pending} {p : Pending} (hs : Sending e s) (hq : Silent s)
    (hl : s.pending = l ++ p :: r) (hop : p.op.writes = true) : s.socket.broken = false := by
  by_contra hb
  obtain ⟨hreq, hf⟩ := hq (by simpa using hb)
  have hmem : p ∈ s.pending := by simp [hl]
  have hopc : p.op = .proxyWrite ∨ p.op = .write := by
    cases hpo : p.op <;> simp_all [Op.writes]
  rcases hopc with hpo | hpo
  · obtain ⟨hne, heq⟩ := hs.wire.requesting p hmem hpo
    have hlen := hreq.length_le
    have hpos := List.length_pos_iff.mpr hne
    rw [← heq, List.length_append] at hlen
    omega
  · have hw := writes_of_pending hs.one hmem hpo
    have hst := hf ⟨s.socket.conn, .write, .waiting⟩ (by simp [hw])
    cases hst

theorem silent_outside (hs : Sending e s) (hq : Silent s) (h : Effect e s a t) (hrun : a ≠ .run) :
    Silent t ∧ (s.socket.broken = true → t.sent = s.sent ∧ t.socket.broken = true) := by
  obtain ⟨hu, ho⟩ : Unmoved t s ∧ Outside s t := by
    rcases effect_cases h with h | ⟨_, _, rfl, _⟩
    · exact h
    · exact absurd rfl hrun
  have hsame (hsent : t.sent = s.sent) (hb : t.socket.broken = s.socket.broken)
      (hw : t.writes = s.writes) :
      Silent t ∧ (s.socket.broken = true → t.sent = s.sent ∧ t.socket.broken = true) := by
    refine ⟨fun hbr => ?_, fun hbr => ⟨hsent, hb.trans hbr⟩⟩
    rw [hu.request, hu.conn, hsent, hw]
    exact hq (hb.symm.trans hbr)
  have hother {l r : List Pending} {p : Pending} {res : Result} (hl : s.pending = l ++ p :: r)
      (hop : p.op ≠ .write) (hp : t.pending = l ++ r)
      (hr : t.ready = s.ready ++ [.complete s.socket.conn p.op res]) : t.writes = s.writes := by
    rcases writes_finish hs.one hl hp hr hu.conn with ⟨_, hw⟩ | ⟨hpw, _⟩
    · exact hw
    · exact absurd hpw hop
  have hwriting {l r : List Pending} {p : Pending} (hl : s.pending = l ++ p :: r)
      (hop : p.op.writes = true) (hb : t.socket.broken = s.socket.broken) :
      Silent t ∧ (s.socket.broken = true → t.sent = s.sent ∧ t.socket.broken = true) := by
    have hno := hq.not_broken hs hl hop
    refine ⟨fun hbr => ?_, fun hbr => ?_⟩
    · rw [hb, hno] at hbr
      cases hbr
    · rw [hno] at hbr
      cases hbr
  cases h with
  | run => exact absurd rfl hrun
  | call calls => exact hsame rfl rfl rfl
  | postClose | postConnect | postSend =>
    refine hsame rfl rfl ?_
    simp [State.writes, State.chain_eq, Handler.item?]
  | connected i l r p hl hop => exact hsame rfl rfl (hother hl (by simp [hop]) rfl rfl)
  | sentPart i n l r p bytes more hl hop => exact hwriting hl hop rfl
  | sentAll i n l r p hl hop => exact hwriting hl hop rfl
  | headPart i l r p bytes hl | bodyPart i l r p bytes hl | proxyPart i l r p bytes hl =>
    exact hsame rfl rfl (State.chain_congr rfl (by simp [hl]) rfl)
  | headAll i l r p bytes hl hop | bodyAll i l r p bytes hl hop | proxyAll i l r p bytes len hl hop =>
    exact hsame rfl rfl (hother hl (by simp [hop]) rfl rfl)
  | fail i err l r p hl =>
    by_cases hop : p.op = .write
    · obtain ⟨qs, _, _, hcur⟩ := hs.wire.current
      have hreq := (hcur.of_pending hs.one (p := p) (by simp [hl]) hop).1
      have hno := hq.not_broken hs hl (by simp [hop, Op.writes])
      refine ⟨fun _ => ⟨hreq, ?_⟩, fun hbr => ?_⟩
      · have hready : s.ready ++ [.complete s.socket.conn p.op (.failure err)] =
            s.ready ++ [.complete s.socket.conn p.op (.failure err)] := rfl
        rcases writes_finish hs.one hl rfl hready hu.conn with ⟨hne, _⟩ | ⟨_, st, _, hitem, hw⟩
        · exact absurd hop hne
        · obtain rfl : Status.failed = st := by simpa [Handler.item?] using hitem
          rw [hw]
          simp
      · rw [hno] at hbr
        cases hbr
    · exact hsame rfl (by simp [hop]) (hother hl hop rfl rfl)

/-! ### Runs -/

/-- What a run keeps while no packet is queued behind a failed write. -/
structure Unspoilt (e : Env) (s : State) : Prop where
  sending : Sending e s
  silent : Silent s
  unborn : Unborn s

theorem unspoilt_initial (request : Bytes) : Unspoilt e (initial request) := by
  refine ⟨sending_initial request, ?_, unborn_initial request⟩
  intro hb
  cases hb

theorem sends_of_ready {ticket : Nat} {pack : Bytes} (hr : s.ready = .sendMessage ticket pack :: rest) :
    sends s .run = true := by
  simp [sends, hr]

theorem unspoilt_step (hs : Unspoilt e s) (hg : Unbroken e s a) (h : step e s a = some t) :
    Unspoilt e t := by
  refine ⟨sending_step hs.sending ?_ ?_ hg.2.1 h, ?_, unborn_step hs.unborn h⟩
  · intro hc
    rcases hg.1 hc with hz | ⟨hclean, _⟩
    · intro _ x hx
      rw [(hs.unborn hz).2] at hx
      cases hx
    · exact hclean hc
  · intro hc
    rcases hg.1 hc with hz | ⟨_, hold⟩
    · have hnil : s.writes = [] := (hs.unborn hz).2 _
      simp [hnil]
    · exact hold
  · by_cases ha : a = .run
    · subst ha
      obtain ⟨hd, rest, hr, rfl⟩ := handler_of_run h
      refine silent_handler hs.sending hs.silent hr ?_
      rintro ticket pack rfl ho
      exact (hg.2.1 (sends_of_ready hr) ho).1
    · exact (silent_outside hs.sending hs.silent (effect_of_step h) ha).1

theorem unspoilt_run (h : Run (step e) (Unbroken e) (initial request) as s) : Unspoilt e s :=
  h.invariant _ (fun _ _ _ hs hg hst => unspoilt_step hs hg hst) (unspoilt_initial request)

/-- Only the connection that is open is written to. -/
theorem sent_outside (h : Effect e s a t) (hrun : a ≠ .run) (hk : k ≠ s.socket.conn) :
    t.sent k = s.sent k := by
  cases h with
  | run => exact absurd rfl hrun
  | sentPart | sentAll => exact Function.update_of_ne hk ..
  | _ => rfl

/-- The connection is broken, or has been replaced. -/
def Passed (k : Nat) (s : State) : Prop :=
  (s.socket.conn = k ∧ s.socket.broken = true) ∨ k < s.socket.conn

theorem passed_step (hs : Unspoilt e s) (hp : Passed k s) (h : step e s a = some t) :
    Passed k t ∧ t.sent k = s.sent k := by
  by_cases ha : a = .run
  · subst ha
    obtain ⟨hd, rest, hr, rfl⟩ := handler_of_run h
    refine ⟨?_, by rw [sent_of_handler]⟩
    rcases socket_of_handler (e := e) (s := { s with ready := rest }) hd with ⟨hc, hb⟩ | ⟨hc, _⟩
    · exact hp.imp (fun h => ⟨hc.trans h.1, hb.trans h.2⟩) fun h => by rwa [hc]
    · refine Or.inr ?_
      rw [hc]
      rcases hp with ⟨rfl, _⟩ | hlt
      · exact Nat.lt_succ_self _
      · exact Nat.lt_succ_of_lt hlt
  · have heff := effect_of_step h
    obtain ⟨hu, _⟩ : Unmoved t s ∧ Outside s t := by
      rcases effect_cases heff with h | ⟨_, _, hrun, _⟩
      · exact h
      · exact absurd hrun ha
    rcases hp with ⟨rfl, hb⟩ | hlt
    · obtain ⟨hsent, hbr⟩ := (silent_outside hs.sending hs.silent heff ha).2 hb
      exact ⟨Or.inl ⟨hu.conn, hbr⟩, by rw [hsent]⟩
    · exact ⟨Or.inr (by rwa [hu.conn]), sent_outside heff ha (Nat.ne_of_lt hlt)⟩

theorem silent_run (hs : Unspoilt e s) (hb : s.socket.broken = true)
    (h : Run (step e) (Unbroken e) s bs t) : t.sent s.socket.conn = s.sent s.socket.conn := by
  have hinv := h.invariant
    (fun u => Unspoilt e u ∧ Passed s.socket.conn u ∧ u.sent s.socket.conn = s.sent s.socket.conn)
    (fun u a v hu hg hst => ?_) ⟨hs, Or.inl ⟨rfl, hb⟩, rfl⟩
  · exact hinv.2.2
  · obtain ⟨hun, hp, hsent⟩ := hu
    obtain ⟨hp', hsame⟩ := passed_step hun hp hst
    exact ⟨unspoilt_step hun hg hst, hp', hsame.trans hsent⟩

theorem request_run {ok : State → Action → Prop} (h : Run (step e) ok s as t) :
    t.request = s.request :=
  h.invariant (fun u => u.request = s.request) (fun _ _ _ hu _ hst => (request_step hst).trans hu) rfl

end NetworkUtility.EtcpClient
