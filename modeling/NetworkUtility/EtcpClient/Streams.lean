import NetworkUtility.EtcpClient.Reading

/-! The read buffers and the byte streams of the connections, as long as no success of an earlier
connection is left in the queue and the gateway's response is read alone. -/
namespace NetworkUtility.EtcpClient

open Etcp Machine Framing Scan

variable {e : Env} {s t : State} {a : Action} {request : Bytes} {as : List Action} {x : Item}
  {h : Handler} {rest : List Handler} {k : Nat} {ps : List Bytes}

def Op.reads (op : Op) : Bool := op == .proxyRead || op == .readHead || op == .readBody

/-- At most one read is outstanding, and the connection that is called back has delivered frames of
its own stream, all of them when no packet waits in the queue. -/
def OwnPackets (s : State) : Prop :=
  (s.pending.filter (·.op.reads)).length ≤ 1 ∧
    ∀ k ps, session s.log = some (k, ps) → ps <+: packets (s.stream k) ∧
      ((∀ len, .complete k .readBody (.success len) ∉ s.ready) → ps = packets (s.stream k))

/-- The handlers of `do_proxy` find nothing in `m_response` but the response. -/
def responseAlone (s : State) : Action → Bool
  | .run =>
    match s.ready with
    | .complete _ .proxyWrite (.success _) :: _ => s.response = []
    | .complete _ .proxyRead (.success len) :: _ =>
      ! succeeded (httpStatus s.response) || s.response.length = len
    | _ => true
  | _ => true

/-- `real_connect` runs with no success of an old connection but a write's in the queue, and with no
operation that has moved a part; the handshake reads the response alone. -/
def Separate (e : Env) (s : State) (a : Action) : Prop :=
  Clean e mainOp s a ∧ responseAlone s a = true ∧ Intact s a

instance : Decidable (Separate e s a) := inferInstanceAs (Decidable (_ ∧ _ ∧ _))

/-- The connection called back: its un-run handler, or its end, accounts for its stream. -/
structure Session (s : State) (k : Nat) (ps : List Bytes) : Prop where
  bounded : k ≤ s.socket.conn
  tunnel : s.request = [] ∨ (endOfHead (s.received k)).isSome
  reads : ∀ x ∈ s.chain mainOp, x.conn = k → Reads s (s.stream k) ps x
  ended : (∀ x ∈ s.chain mainOp, x.conn ≠ k) → ps = packets (s.stream k)

/-- The buffers and the byte streams go with the chain. -/
structure Streams (e : Env) (s : State) : Prop where
  chained : Chained e mainOp s
  headLength : s.recvHead.length = 6
  fresh : ∀ k, s.socket.conn < k → s.received k = []
  gateway : ∀ x ∈ s.chain mainOp, x.op = .proxyWrite ∨ x.op = .proxyRead → s.request ≠ []
  early : ∀ x ∈ s.chain mainOp, x.conn = s.socket.conn → x.op = .connect ∨ x.op = .proxyWrite →
    s.received s.socket.conn = []
  proxy : ∀ x ∈ s.chain mainOp, x.conn = s.socket.conn → x.op = .proxyRead →
    x.status ≠ .failed → s.received s.socket.conn = s.response
  lengths : ∀ op len, .complete s.socket.conn op (.success len) ∈ s.ready →
    (op = .readBody → len = s.recvData.length) ∧ (op = .proxyRead → endOfHead s.response = some len)
  owner : ∀ x ∈ s.chain mainOp, x.op = .readHead ∨ x.op = .readBody →
    ∀ k ps, session s.log = some (k, ps) → k = x.conn
  current : ∀ k ps, session s.log = some (k, ps) → Session s k ps

/-- The handler of `x` has become that of `y`: it has failed, or it was not a read's. -/
def Becomes (x y : Item) : Prop :=
  y.conn = x.conn ∧ y.op = x.op ∧
    (y = x ∨ x.status = .waiting ∧ (y.status = .failed ∨ x.op = .connect ∨ x.op = .proxyWrite))

/-- The buffers and the streams stand as they were. -/
structure Unread (t s : State) : Prop where
  conn : t.socket.conn = s.socket.conn
  request : t.request = s.request
  received : t.received = s.received
  response : t.response = s.response
  recvHead : t.recvHead = s.recvHead
  recvData : t.recvData = s.recvData
  pending : ∀ p ∈ t.pending, p.op = .readHead ∨ p.op = .readBody → p ∈ s.pending
  ready : ∀ op len, op = .readBody ∨ op = .proxyRead →
    .complete s.socket.conn op (.success len) ∈ t.ready →
    .complete s.socket.conn op (.success len) ∈ s.ready

theorem Unread.stream (hq : Unread t s) (k : Nat) : t.stream k = s.stream k :=
  stream_congr hq.request (by rw [hq.received])

theorem Session.follow (hs : Session s k ps) (hq : Unread t s)
    (hchain : ∀ y ∈ t.chain mainOp, ∃ x ∈ s.chain mainOp, Becomes x y)
    (hgone : ∀ x ∈ s.chain mainOp, (∃ y ∈ t.chain mainOp, y.conn = x.conn) ∨
      (x.op = .readBody → x.status ≠ .succeeded)) : Session t k ps := by
  constructor
  · exact hq.conn ▸ hs.bounded
  · rw [hq.request, hq.received]
    exact hs.tunnel
  · intro y hy hyk
    obtain ⟨x, hx, hconn, hop, hwhy⟩ := hchain y hy
    have hread := hs.reads x hx (hconn.symm.trans hyk)
    rcases hwhy with rfl | ⟨hwait, hfail | hop' | hop'⟩
    · rw [hq.stream]
      exact hread.congr hq.conn hq.recvHead hq.recvData hq.pending
    · have hp := hread.packets_eq fun _ hst => by simp [hwait] at hst
      obtain ⟨conn, op, st⟩ := y
      obtain rfl : st = .failed := hfail
      exact .ended _ _ (by rw [hq.stream, hp])
    · cases hread <;> simp at hwait hop'
    · cases hread <;> simp at hwait hop'
  · intro hnone
    rw [hq.stream]
    by_cases hx : ∃ x ∈ s.chain mainOp, x.conn = k
    · obtain ⟨x, hx, rfl⟩ := hx
      rcases hgone x hx with ⟨y, hy, hyc⟩ | hun
      · exact absurd hyc (hnone y hy)
      · exact (hs.reads x hx rfl).packets_eq hun
    · exact hs.ended fun x hm hk => hx ⟨x, hm, hk⟩

/-- Steps that move no bytes to the reader. -/
theorem Streams.follow (hs : Streams e s) (hc : Chained e mainOp t) (hq : Unread t s)
    (hlog : session t.log = none ∨ session t.log = session s.log)
    (hchain : ∀ y ∈ t.chain mainOp, ∃ x ∈ s.chain mainOp, Becomes x y)
    (hgone : ∀ x ∈ s.chain mainOp, (∃ y ∈ t.chain mainOp, y.conn = x.conn) ∨
      (x.op = .readBody → x.status ≠ .succeeded)) : Streams e t := by
  have hsession : ∀ k ps, session t.log = some (k, ps) → session s.log = some (k, ps) := by
    intro k ps hk
    rcases hlog with hl | hl
    · rw [hl] at hk
      cases hk
    · rwa [← hl]
  constructor
  · exact hc
  · rw [hq.recvHead]
    exact hs.headLength
  · rw [hq.conn, hq.received]
    exact hs.fresh
  · rw [hq.request]
    intro y hy hop
    obtain ⟨x, hx, _, hxo, _⟩ := hchain y hy
    exact hs.gateway x hx (hxo ▸ hop)
  · rw [hq.conn, hq.received]
    intro y hy hconn hop
    obtain ⟨x, hx, hxc, hxo, _⟩ := hchain y hy
    exact hs.early x hx (hxc.symm.trans hconn) (hxo ▸ hop)
  · rw [hq.conn, hq.received, hq.response]
    intro y hy hconn hop hne
    obtain ⟨x, hx, hxc, hxo, hwhy⟩ := hchain y hy
    refine hs.proxy x hx (hxc.symm.trans hconn) (hxo.symm.trans hop) ?_
    rcases hwhy with rfl | ⟨hwait, _⟩
    · exact hne
    · simp [hwait]
  · rw [hq.conn, hq.response, hq.recvData]
    intro op len hm
    exact ⟨fun hop => (hs.lengths op len (hq.ready op len (Or.inl hop) hm)).1 hop,
      fun hop => (hs.lengths op len (hq.ready op len (Or.inr hop) hm)).2 hop⟩
  · intro y hy hop k ps hk
    obtain ⟨x, hx, hxc, hxo, _⟩ := hchain y hy
    exact (hs.owner x hx (hxo ▸ hop) k ps (hsession k ps hk)).trans hxc.symm
  · intro k ps hk
    exact (hs.current k ps (hsession k ps hk)).follow hq hchain hgone

theorem Streams.same (hs : Streams e s) (hc : t.chain mainOp = s.chain mainOp) (hq : Unread t s)
    (ho : t.socket.isOpen = s.socket.isOpen) (hi : t.socket.isOpen = false → t.pending = [])
    (hlog : session t.log = none ∨ session t.log = session s.log) : Streams e t := by
  apply hs.follow (hs.chained.of_eq hc hq.conn ho hi) hq hlog
  · rw [hc]
    exact fun y hy => ⟨y, hy, rfl, rfl, Or.inl rfl⟩
  · rw [hc]
    exact fun x hx => Or.inl ⟨x, hx, rfl⟩

/-- A handler that leaves nothing to read is taken from the queue. -/
theorem Streams.pop (hs : Streams e s) (hr : s.ready = h :: rest)
    (hun : ∀ x ∈ h.item?, x.op = .readBody → x.status ≠ .succeeded) :
    Streams e { s with ready := rest } := by
  have hpop := State.chain_pop mainOp hr
  refine hs.follow (hs.chained.pop hr) ?_ (Or.inr rfl) ?_ ?_
  · exact ⟨rfl, rfl, rfl, rfl, rfl, rfl, fun _ hp _ => hp,
      fun op len _ hm => by rw [hr]; exact List.mem_cons_of_mem _ hm⟩
  · intro y hy
    refine ⟨y, ?_, rfl, rfl, Or.inl rfl⟩
    rw [hpop]
    exact List.mem_append_right _ hy
  · intro x hx
    rw [hpop] at hx
    rcases List.mem_append.mp hx with hx | hx
    · exact Or.inr (hun x (by simpa using List.mem_of_mem_filter hx))
    · exact Or.inl ⟨x, hx, rfl⟩

theorem becomes_settled {c : Nat} : Becomes x (x.settled .keep c) := by
  refine ⟨conn_settled .., op_settled .., ?_⟩
  by_cases hx : x.conn = c ∧ (x.status = .waiting ∨ Closing.keep ≠ .keep)
  · exact Or.inr ⟨hx.2.resolve_right (fun h => h rfl), Or.inl (settled_status hx)⟩
  · exact Or.inl (if_neg hx)

theorem success_of_release {op : Op} {len : Nat} (hk : e.closing = .keep)
    (hm : .complete k op (.success len) ∈ (s.release e.closing).ready) :
    .complete k op (.success len) ∈ s.ready := by
  simp only [State.release, hk, Closing.settle] at hm
  split at hm
  · rcases List.mem_append.mp hm with hm | hm
    · exact hm
    · simp at hm
  · exact hm

theorem Streams.release (hk : e.closing = .keep) (hs : Streams e s) :
    Streams e (s.release e.closing) := by
  have hchain := hs.chained.chain_release
  refine hs.follow hs.chained.release ?_ (Or.inr rfl) ?_ ?_
  · refine ⟨rfl, rfl, rfl, rfl, rfl, rfl, ?_, fun op len _ hm => success_of_release hk hm⟩
    intro p hp
    simp only [State.release] at hp
    split at hp
    · cases hp
    · exact fun _ => hp
  · intro y hy
    rw [hchain] at hy
    split at hy
    · obtain ⟨x, hx, rfl⟩ := List.mem_map.mp hy
      exact ⟨x, hx, hk ▸ becomes_settled⟩
    · exact ⟨y, hy, rfl, rfl, Or.inl rfl⟩
  · intro x hx
    refine Or.inl ?_
    rw [hchain]
    split
    · exact ⟨_, List.mem_map_of_mem hx, conn_settled ..⟩
    · exact ⟨x, hx, rfl⟩

/-- What follows the closing of a socket: its error and `on_close`. -/
theorem Streams.onClose (hs : Streams e s) : Streams e s.onClose := by
  refine hs.same rfl ?_ rfl hs.chained.idle ?_
  · exact ⟨rfl, rfl, rfl, rfl, rfl, rfl, fun _ hp _ => hp, fun _ _ _ hm => hm⟩
  · simp only [State.onClose]
    split
    · exact Or.inr rfl
    · exact Or.inl (session_snoc ..)

theorem Streams.onError (hs : Streams e s) (conn : Nat) (action message : String) :
    Streams e (s.onError conn action message) := by
  refine hs.same rfl ?_ rfl hs.chained.idle (Or.inr (session_snoc ..))
  exact ⟨rfl, rfl, rfl, rfl, rfl, rfl, fun _ hp _ => hp, fun _ _ _ hm => hm⟩

/-- An error of a handler that gives up the connection. -/
theorem Streams.fail (hk : e.closing = .keep) (hs : Streams e s) (conn : Nat)
    (action message : String) :
    Streams e ((s.onError conn action message).realClose e).onClose :=
  ((hs.onError conn action message).release hk).onClose

/-! ### Steps from outside -/

section Outside

variable {l r : List Pending} {p : Pending} {bytes : Bytes} {res : Result}

theorem waiting_mem (sel : Op → Bool) (hl : s.pending = l ++ p :: r) (hop : sel p.op = true) :
    (⟨s.socket.conn, p.op, .waiting⟩ : Item) ∈ s.chain sel := by
  refine List.mem_filter.mpr ⟨List.mem_append_right _ ?_, hop⟩
  rw [hl]
  exact List.mem_map_of_mem (List.mem_append_right _ List.mem_cons_self)

/-- An operation other than a read has completed, or any has failed. -/
theorem Streams.finish (hs : Streams e s) (hu : Unmoved t s) (hl : s.pending = l ++ p :: r)
    (hp : t.pending = l ++ r) (hr : t.ready = s.ready ++ [.complete s.socket.conn p.op res])
    (hticket : t.tickets = s.tickets) (hreceived : t.received = s.received)
    (hresponse : t.response = s.response) (hhead : t.recvHead = s.recvHead)
    (hdata : t.recvData = s.recvData)
    (hwhy : (∃ err, res = .failure err) ∨ p.op = .connect ∨ p.op.writes = true) :
    Streams e t := by
  obtain ⟨st, hitem, hchain⟩ := chain_finish_map hs.chained.ordered hl hp hr hu.conn
  refine hs.follow (chained_outside hu (.finish l r p res hl hp hr hticket) hs.chained) ?_
    (Or.inr (by rw [hu.log])) ?_ ?_
  · refine ⟨hu.conn, hu.request, hreceived, hresponse, hhead, hdata, ?_, ?_⟩
    · intro q hq _
      rw [hp] at hq
      rw [hl]
      simp only [List.mem_append, List.mem_cons] at hq ⊢
      tauto
    · intro op len hop hm
      rw [hr] at hm
      rcases List.mem_append.mp hm with hm | hm
      · exact hm
      · have heq := List.mem_singleton.mp hm
        simp only [Handler.complete.injEq, true_and] at heq
        rcases hwhy with ⟨err, rfl⟩ | hc | hw
        · cases heq.2
        · rw [← heq.1] at hc
          rcases hop with rfl | rfl <;> cases hc
        · rw [← heq.1] at hw
          rcases hop with rfl | rfl <;> cases hw
  · intro y hy
    rw [hchain] at hy
    obtain ⟨x, hx, rfl⟩ := List.mem_map.mp hy
    refine ⟨x, hx, ?_⟩
    split
    · next hxe =>
      subst hxe
      refine ⟨rfl, rfl, Or.inr ⟨rfl, ?_⟩⟩
      rcases hwhy with ⟨err, rfl⟩ | hc | hw
      · have hst : Status.failed = st := by simpa [Handler.item?] using hitem
        exact Or.inl hst.symm
      · exact Or.inr (Or.inl hc)
      · have hmain : mainOp p.op = true := (List.mem_filter.mp hx).2
        refine Or.inr (Or.inr ?_)
        show p.op = .proxyWrite
        cases hop : p.op <;> simp_all [Op.writes, mainOp]
    · exact ⟨rfl, rfl, Or.inl rfl⟩
  · intro x hx
    refine Or.inl ⟨_, hchain ▸ List.mem_map_of_mem hx, ?_⟩
    split
    · next hxe => rw [hxe]
    · rfl

/-- Bytes have arrived for the read that waits: `y` stands for it in the chain. -/
structure Arrives (s t : State) (op : Op) (y : Item) (bytes : Bytes) : Prop where
  unmoved : Unmoved t s
  own : y.conn = s.socket.conn
  kind : y.op = op
  waits : (⟨s.socket.conn, op, .waiting⟩ : Item) ∈ s.chain mainOp
  chain : t.chain mainOp = (s.chain mainOp).map fun x =>
    if x = ⟨s.socket.conn, op, .waiting⟩ then y else x
  received : t.received =
    Function.update s.received s.socket.conn (s.received s.socket.conn ++ bytes)

section Arrives

variable {y z : Item} {op : Op} (harr : Arrives s t op y bytes)
include harr

/-- The handlers of earlier connections are where they were. -/
theorem Arrives.mem (hs : Chained e mainOp s) (hz : z ∈ t.chain mainOp) :
    z = y ∨ z ∈ s.chain mainOp ∧ z.conn < s.socket.conn := by
  rw [harr.chain] at hz
  obtain ⟨x, hx, rfl⟩ := List.mem_map.mp hz
  split
  · exact Or.inl rfl
  · next hne =>
    refine Or.inr ⟨hx, Nat.lt_of_le_of_ne (hs.bounded x hx) ?_⟩
    exact fun hc => hne (eq_of_conn hs.ordered hx harr.waits hc)

theorem Arrives.here : t.received s.socket.conn = s.received s.socket.conn ++ bytes := by
  rw [harr.received, Function.update_self]

theorem Arrives.other (hk : k ≠ s.socket.conn) : t.received k = s.received k := by
  rw [harr.received, Function.update_of_ne hk]

/-- The session of the connection goes on with the read, that of an earlier one is as it was. -/
theorem Arrives.session (hs : Chained e mainOp s) (hsess : Session s k ps)
    (hreads : ∀ ps stream, Reads s stream ps ⟨s.socket.conn, op, .waiting⟩ →
      Reads t (stream ++ bytes) ps y) : Session t k ps := by
  have hu := harr.unmoved
  constructor
  · exact hu.conn ▸ hsess.bounded
  · rw [hu.request]
    refine hsess.tunnel.imp_right fun hsome => ?_
    by_cases hkc : k = s.socket.conn
    · rw [hkc] at hsome ⊢
      obtain ⟨len, hlen⟩ := Option.isSome_iff_exists.mp hsome
      simp [harr.here, endOfHead_append hlen]
    · rwa [harr.other hkc]
  · intro z hz hzk
    rcases harr.mem hs hz with rfl | ⟨hz, hlt⟩
    · rw [harr.own] at hzk
      subst hzk
      rw [stream_append hu.request harr.here hsess.tunnel]
      exact hreads ps _ (hsess.reads _ harr.waits rfl)
    · -- its handler has failed, and the bytes are not its own
      have hfail := hs.past z hz hlt
      have hp := (hsess.reads z hz hzk).packets_eq fun _ => by simp [hfail]
      obtain ⟨conn, op, st⟩ := z
      obtain rfl : st = .failed := hfail
      refine .ended _ _ ?_
      rw [stream_congr hu.request (harr.other (hzk ▸ Nat.ne_of_lt hlt))]
      exact hp
  · intro hnone
    have hy : y ∈ t.chain mainOp := by
      rw [harr.chain]
      exact List.mem_map.mpr ⟨_, harr.waits, if_pos rfl⟩
    have hkc : k ≠ s.socket.conn := fun hk => hnone y hy (harr.own.trans hk.symm)
    rw [stream_congr hu.request (harr.other hkc)]
    apply hsess.ended
    intro x hx hxk
    refine hnone x ?_ hxk
    rw [harr.chain]
    refine List.mem_map.mpr ⟨x, hx, if_neg ?_⟩
    rintro rfl
    exact hkc hxk.symm

theorem Arrives.streams (hs : Streams e s) (ho : Outside s t)
    (hop : op ≠ .connect ∧ op ≠ .proxyWrite) (hlen : t.recvHead.length = 6)
    (hresponse : op = .proxyRead → t.response = s.response ++ bytes)
    (hlengths : ∀ op len, .complete s.socket.conn op (.success len) ∈ t.ready →
      (op = .readBody → len = t.recvData.length) ∧
        (op = .proxyRead → endOfHead t.response = some len))
    (hreads : ∀ ps stream, Reads s stream ps ⟨s.socket.conn, op, .waiting⟩ →
      Reads t (stream ++ bytes) ps y) : Streams e t := by
  have hu := harr.unmoved
  constructor
  · exact chained_outside hu ho hs.chained
  · exact hlen
  · rw [hu.conn]
    intro k hk
    rw [harr.other (Nat.ne_of_gt hk)]
    exact hs.fresh k hk
  · rw [hu.request]
    intro z hz hzo
    rcases harr.mem hs.chained hz with rfl | ⟨hz, _⟩
    · exact hs.gateway _ harr.waits (harr.kind ▸ hzo)
    · exact hs.gateway z hz hzo
  · rw [hu.conn]
    intro z hz hconn hzo
    rcases harr.mem hs.chained hz with rfl | ⟨_, hlt⟩
    · rw [harr.kind] at hzo
      exact absurd hzo (not_or.mpr hop)
    · exact absurd hconn (Nat.ne_of_lt hlt)
  · rw [hu.conn]
    intro z hz hconn hzo _
    rcases harr.mem hs.chained hz with rfl | ⟨_, hlt⟩
    · have hpo := harr.kind.symm.trans hzo
      rw [harr.here, hresponse hpo, hs.proxy _ harr.waits rfl hpo (by simp)]
    · exact absurd hconn (Nat.ne_of_lt hlt)
  · rw [hu.conn]
    exact hlengths
  · rw [hu.log]
    intro z hz hzo
    rcases harr.mem hs.chained hz with rfl | ⟨hz, _⟩
    · rw [harr.own]
      exact hs.owner _ harr.waits (harr.kind ▸ hzo)
    · exact hs.owner z hz hzo
  · rw [hu.log]
    exact fun k ps hk => harr.session hs.chained (hs.current k ps hk) hreads

end Arrives

theorem complete_of_mem {sel : Op → Bool} {conn : Nat} {op : Op}
    (hx : (⟨conn, op, .succeeded⟩ : Item) ∈ s.chain sel) :
    ∃ len, .complete conn op (.success len) ∈ s.ready := by
  rcases List.mem_append.mp (List.mem_of_mem_filter hx) with hx | hx
  · obtain ⟨g, hg, hitem⟩ := List.mem_filterMap.mp hx
    cases g with
    | complete conn' op' res =>
      cases res with
      | success len =>
        simp only [Handler.item?, Option.some.injEq, Item.mk.injEq] at hitem
        obtain ⟨rfl, rfl, _⟩ := hitem
        exact ⟨len, hg⟩
      | failure err => simp [Handler.item?] at hitem
    | _ => cases hitem
  · obtain ⟨p, _, hp⟩ := List.mem_map.mp hx
    cases hp

theorem success_mem {sel : Op → Bool} {conn len : Nat} {op : Op}
    (hm : .complete conn op (.success len) ∈ s.ready) (hop : sel op = true) :
    (⟨conn, op, .succeeded⟩ : Item) ∈ s.chain sel :=
  List.mem_filter.mpr ⟨List.mem_append_left _ (List.mem_filterMap.mpr ⟨_, hm, rfl⟩), hop⟩

/-- While an operation waits, no other of its connection has succeeded. -/
theorem not_succeeded {sel : Op → Bool} (op : Op) (len : Nat)
    (ho : (s.chain sel).Pairwise (·.conn < ·.conn)) (hl : s.pending = l ++ p :: r)
    (hp : sel p.op = true) (hop : sel op = true) :
    .complete s.socket.conn op (.success len) ∉ s.ready := by
  intro hm
  have heq := eq_of_conn ho (success_mem hm hop) (waiting_mem sel hl hp) rfl
  simp at heq

/-- More has arrived, and the read still waits. -/
theorem Streams.arrive_part (hs : Streams e s) (hu : Unmoved t s) (ho : Outside s t)
    {op : Op} (hl : s.pending = l ++ p :: r) (hpo : p.op = op)
    (hmain : mainOp op = true) (hop : op ≠ .connect ∧ op ≠ .proxyWrite) (hready : t.ready = s.ready)
    (hpend : t.pending = l ++ ⟨p.op, p.data, p.done + bytes.length⟩ :: r)
    (hreceived : t.received =
      Function.update s.received s.socket.conn (s.received s.socket.conn ++ bytes))
    (hlen : t.recvHead.length = 6) (hresponse : op = .proxyRead → t.response = s.response ++ bytes)
    (hreads : ∀ ps stream, (∀ q ∈ t.pending, q.op = op → q.done = p.done + bytes.length) →
      Reads s stream ps ⟨s.socket.conn, op, .waiting⟩ →
      Reads t (stream ++ bytes) ps ⟨s.socket.conn, op, .waiting⟩) :
    Streams e t := by
  subst hpo
  have hchain : t.chain mainOp = s.chain mainOp :=
    State.chain_congr hready (by simp [hpend, hl]) hu.conn
  have harr : Arrives s t p.op ⟨s.socket.conn, p.op, .waiting⟩ bytes := by
    refine ⟨hu, rfl, rfl, waiting_mem mainOp hl hmain, ?_, hreceived⟩
    rw [hchain]
    calc s.chain mainOp = (s.chain mainOp).map id := (List.map_id _).symm
      _ = _ := List.map_congr_left fun x _ => by
        split
        · next hx => exact hx
        · rfl
  refine harr.streams hs ho hop hlen hresponse ?_ ?_
  · intro op len hm
    rw [hready] at hm
    have hno := not_succeeded op len hs.chained.ordered hl hmain
    exact ⟨fun h => absurd hm (hno (by rw [h]; rfl)), fun h => absurd hm (hno (by rw [h]; rfl))⟩
  · intro ps stream
    apply hreads ps stream
    obtain ⟨hleft, hright⟩ := pending_unique hs.chained.ordered hl hmain
    intro q hq hqo
    rw [hpend] at hq
    simp only [List.mem_append, List.mem_cons] at hq
    rcases hq with hq | rfl | hq
    · have hno := hleft q hq
      rw [hqo, hmain] at hno
      cases hno
    · rfl
    · have hno := hright q hq
      rw [hqo, hmain] at hno
      cases hno

/-- The last that the read waits for has arrived. -/
theorem Streams.arrive_all {n : Nat} (hs : Streams e s) (hu : Unmoved t s) (ho : Outside s t)
    {op : Op} (hl : s.pending = l ++ p :: r) (hpo : p.op = op)
    (hmain : mainOp op = true) (hop : op ≠ .connect ∧ op ≠ .proxyWrite) (hpend : t.pending = l ++ r)
    (hready : t.ready = s.ready ++ [.complete s.socket.conn p.op (.success n)])
    (hreceived : t.received =
      Function.update s.received s.socket.conn (s.received s.socket.conn ++ bytes))
    (hlen : t.recvHead.length = 6) (hresponse : op = .proxyRead → t.response = s.response ++ bytes)
    (hdata : op = .readBody → n = t.recvData.length)
    (hfound : op = .proxyRead → endOfHead t.response = some n)
    (hreads : ∀ ps stream, Reads s stream ps ⟨s.socket.conn, op, .waiting⟩ →
      Reads t (stream ++ bytes) ps ⟨s.socket.conn, op, .succeeded⟩) : Streams e t := by
  subst hpo
  obtain ⟨st, hitem, hchain⟩ := chain_finish_map hs.chained.ordered hl hpend hready hu.conn
  obtain rfl : Status.succeeded = st := by simpa [Handler.item?] using hitem
  have harr : Arrives s t p.op ⟨s.socket.conn, p.op, .succeeded⟩ bytes :=
    ⟨hu, rfl, rfl, waiting_mem mainOp hl hmain, hchain, hreceived⟩
  refine harr.streams hs ho hop hlen hresponse ?_ hreads
  intro op len hm
  rw [hready] at hm
  rcases List.mem_append.mp hm with hm | hm
  · have hno := not_succeeded op len hs.chained.ordered hl hmain
    exact ⟨fun h => absurd hm (hno (by rw [h]; rfl)), fun h => absurd hm (hno (by rw [h]; rfl))⟩
  · have heq := List.mem_singleton.mp hm
    simp only [Handler.complete.injEq, Result.success.injEq, true_and] at heq
    obtain ⟨rfl, rfl⟩ := heq
    exact ⟨hdata, hfound⟩

theorem streams_outside (hs : Streams e s) (h : Effect e s a t) (ha : a ≠ .run) : Streams e t := by
  obtain ⟨hu, ho⟩ : Unmoved t s ∧ Outside s t := by
    rcases effect_cases h with h | ⟨_, _, hrun, _⟩
    · exact h
    · exact absurd hrun ha
  have hposted (g : Handler) (hg : g.item? = none) (hr : t.ready = s.ready ++ [g])
      (hp : t.pending = s.pending) (hq : t.received = s.received ∧ t.response = s.response ∧
        t.recvHead = s.recvHead ∧ t.recvData = s.recvData) : Streams e t := by
    refine hs.same ?_ ?_ hu.isOpen ?_ (Or.inr (by rw [hu.log]))
    · rw [State.chain_eq, State.chain_eq, hr, hp, hu.conn]
      simp [hg]
    · refine ⟨hu.conn, hu.request, hq.1, hq.2.1, hq.2.2.1, hq.2.2.2, fun _ hm _ => hp ▸ hm, ?_⟩
      intro op len _ hm
      rw [hr] at hm
      rcases List.mem_append.mp hm with hm | hm
      · exact hm
      · rw [← List.mem_singleton.mp hm] at hg
        cases hg
    · rw [hu.isOpen, hp]
      exact hs.chained.idle
  cases h with
  | run => exact absurd rfl ha
  | call =>
    refine hs.same rfl ?_ rfl hs.chained.idle (Or.inr rfl)
    exact ⟨rfl, rfl, rfl, rfl, rfl, rfl, fun _ hp _ => hp, fun _ _ _ hm => hm⟩
  | postClose | postConnect | postSend => exact hposted _ rfl rfl rfl ⟨rfl, rfl, rfl, rfl⟩
  | connected i l r p hl hop =>
    exact hs.finish hu hl rfl rfl rfl rfl rfl rfl rfl (Or.inr (Or.inl hop))
  | sentAll i n l r p hl hw =>
    exact hs.finish hu hl rfl rfl rfl rfl rfl rfl rfl (Or.inr (Or.inr hw))
  | fail i err l r p hl =>
    exact hs.finish hu hl rfl rfl rfl rfl rfl rfl rfl (Or.inl ⟨err, rfl⟩)
  | sentPart i n l r p bytes rest hl hw =>
    refine hs.same (State.chain_congr rfl (by simp [hl]) rfl) ?_ rfl ?_ (Or.inr rfl)
    · refine ⟨rfl, rfl, rfl, rfl, rfl, rfl, ?_, fun _ _ _ hm => hm⟩
      intro q hq hqo
      simp only [List.mem_append, List.mem_cons] at hq
      rcases hq with hq | rfl | hq
      · simp [hl, hq]
      · rcases hqo with hqo | hqo <;> (rw [hqo] at hw; cases hw)
      · simp [hl, hq]
    · intro hopen
      have hnil := hs.chained.idle hopen
      simp [hl] at hnil
  | headPart i l r p bytes hl hop hb hlt =>
    rw [hs.headLength] at hlt
    have hlen : (fill s.recvHead p.done bytes).length = s.recvHead.length :=
      length_fill (by rw [hs.headLength]; exact Nat.le_of_lt hlt)
    refine hs.arrive_part hu ho hl hop rfl (by decide) rfl rfl rfl (hlen.trans hs.headLength) nofun ?_
    intro ps stream hdone hread
    exact hread.head_part (by simp [hl]) hop hs.headLength rfl hlt hdone
  | headAll i l r p bytes hl hop hb hfull =>
    have hlen : (fill s.recvHead p.done bytes).length = s.recvHead.length :=
      length_fill (Nat.le_of_eq hfull)
    refine hs.arrive_all hu ho hl hop rfl (by decide) rfl rfl rfl (hlen.trans hs.headLength) nofun
      nofun nofun ?_
    intro ps stream hread
    exact hread.head_all (by simp [hl]) hop hs.headLength rfl (hfull.trans hs.headLength)
  | bodyPart i l r p bytes hl hop hb hlt =>
    refine hs.arrive_part hu ho hl hop rfl (by decide) rfl rfl rfl hs.headLength nofun ?_
    intro ps stream hdone hread
    exact hread.body_part (by simp [hl]) hop rfl hlt hdone
  | bodyAll i l r p bytes hl hop hb hfull =>
    refine hs.arrive_all hu ho hl hop rfl (by decide) rfl rfl rfl hs.headLength nofun ?_ nofun ?_
    · intro _
      exact hfull.trans (length_fill (Nat.le_of_eq hfull)).symm
    · intro ps stream hread
      exact hread.body_all (by simp [hl]) hop rfl hfull
  | proxyPart i l r p bytes hl hop hb hnone =>
    refine hs.arrive_part hu ho hl hop rfl (by decide) rfl rfl rfl hs.headLength (fun _ => rfl) ?_
    intro ps _ _ hread
    cases hread
  | proxyAll i l r p bytes len hl hop hb hsome =>
    refine hs.arrive_all hu ho hl hop rfl (by decide) rfl rfl rfl hs.headLength (fun _ => rfl) nofun
      (fun _ => hsome) ?_
    intro ps _ hread
    cases hread

end Outside

end NetworkUtility.EtcpClient
