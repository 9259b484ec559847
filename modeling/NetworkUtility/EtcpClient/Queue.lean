import NetworkUtility.EtcpClient.Steps

/-! What stands in the queue of the io_context: the posted tasks in the order of their tickets, and
the operations of each connection whose handlers have not run. -/
namespace NetworkUtility.EtcpClient

open Etcp

variable {e : Env} {s t : State} {a : Action} {c : Closing} {k : Nat} {ready : List Handler}
  {sel : Op → Bool}

inductive Status
  | waiting
  | succeeded
  | failed
  deriving DecidableEq, Repr

/-- An operation whose handler has not run. -/
structure Item where
  conn : Nat
  op : Op
  status : Status
  deriving DecidableEq, Repr

/-- Closing the socket of `k` aborts what waits on it, and, unless completions are kept, more. -/
def Item.settled (c : Closing) (k : Nat) (x : Item) : Item :=
  if x.conn = k ∧ (x.status = .waiting ∨ c ≠ .keep) then { x with status := .failed } else x

namespace Handler

def ticket? : Handler → Option Nat
  | .doConnect ticket | .doClose ticket | .sendMessage ticket _ => some ticket
  | .complete .. => none

def item? : Handler → Option Item
  | .complete conn op (.success _) => some ⟨conn, op, .succeeded⟩
  | .complete conn op (.failure _) => some ⟨conn, op, .failed⟩
  | _ => none

end Handler

namespace State

def posts (s : State) : List Nat := s.ready.filterMap Handler.ticket?

def items (s : State) : List Item :=
  s.ready.filterMap Handler.item? ++ s.pending.map fun p => ⟨s.socket.conn, p.op, .waiting⟩

/-- The operations of some kinds, in the order in which their handlers will run. -/
def chain (s : State) (sel : Op → Bool) : List Item := s.items.filter (sel ·.op)

end State

@[simp] theorem conn_settled (c : Closing) (k : Nat) (x : Item) : (x.settled c k).conn = x.conn := by
  unfold Item.settled
  split <;> rfl

@[simp] theorem op_settled (c : Closing) (k : Nat) (x : Item) : (x.settled c k).op = x.op := by
  unfold Item.settled
  split <;> rfl

theorem ticket_revoked (k : Nat) (h : Handler) : (h.revoked k).ticket? = h.ticket? := by
  cases h <;> rfl

theorem item_revoked (hc : c ≠ .keep) (h : Handler) :
    (h.revoked k).item? = h.item?.map (Item.settled c k) := by
  cases h with
  | complete conn op res =>
    by_cases hk : conn = k <;> cases res <;>
      simp [Handler.revoked, Handler.item?, Item.settled, hk, hc]
  | _ => rfl

theorem posts_settle (c : Closing) (k : Nat) (ready : List Handler) :
    (c.settle k ready).filterMap Handler.ticket? = ready.filterMap Handler.ticket? := by
  cases c with
  | keep => rfl
  | revoke =>
    simp only [Closing.settle, List.filterMap_map, Function.comp_def, ticket_revoked]
  | requeue =>
    have hof : (ready.filter (Handler.isOf k)).filterMap Handler.ticket? = [] := by
      apply List.filterMap_eq_nil_iff.mpr
      intro h hh
      cases h with
      | complete => rfl
      | _ => simp [Handler.isOf] at hh
    have hrest : (ready.filter (! Handler.isOf k ·)).filterMap Handler.ticket? =
        ready.filterMap Handler.ticket? := by
      rw [List.filterMap_filter]
      congr 1
      funext h
      cases h with
      | complete conn op res => simp [Handler.ticket?]
      | _ => simp [Handler.isOf]
    simp only [Closing.settle, List.filterMap_append, List.filterMap_map, Function.comp_def,
      ticket_revoked, hrest, hof, List.append_nil]

/-- Moving the operations of the last connection to the end changes nothing when they stand there. -/
theorem filter_conn_append (xs : List Item) (hs : xs.Pairwise (·.conn ≤ ·.conn))
    (hk : ∀ x ∈ xs, x.conn ≤ k) :
    xs.filter (·.conn ≠ k) ++ xs.filter (·.conn = k) = xs := by
  induction xs with
  | nil => rfl
  | cons x xs ih =>
    have hle := (List.pairwise_cons.mp hs).1
    have ih := ih (List.pairwise_cons.mp hs).2 fun y hy => hk y (List.mem_cons_of_mem _ hy)
    by_cases hx : x.conn = k
    · have hall : ∀ y ∈ xs, y.conn = k := fun y hy =>
        Nat.le_antisymm (hk y (List.mem_cons_of_mem _ hy)) (hx ▸ hle y hy)
      have hnone : xs.filter (·.conn ≠ k) = [] := by
        simpa using hall
      have hevery : xs.filter (·.conn = k) = xs := by
        simpa using hall
      simp only [ne_eq, decide_not] at hnone
      simp [hx, hnone, hevery]
    · simp only [ne_eq, decide_not] at ih
      simp [hx, ih]

/-- A filter of the handlers is one of their items. -/
theorem items_filter {f : Handler → Bool} {q : Item → Bool} (ready : List Handler)
    (hitem : ∀ h x, h.item? = some x → f h = q x) :
    (ready.filter f).filterMap Handler.item? = (ready.filterMap Handler.item?).filter q := by
  rw [List.filterMap_filter, List.filter_filterMap]
  congr 1
  funext h
  cases hx : h.item? with
  | none => simp
  | some x => simp [hitem h x hx, Option.filter]

theorem isOf_eq {h : Handler} {x : Item} (k : Nat) (hx : h.item? = some x) :
    h.isOf k = decide (x.conn = k) := by
  cases h with
  | complete conn op res =>
    cases res <;> cases hx <;> rfl
  | _ => cases hx

theorem items_of (k : Nat) (ready : List Handler) :
    (ready.filter (Handler.isOf k)).filterMap Handler.item? =
      (ready.filterMap Handler.item?).filter (·.conn = k) :=
  items_filter ready fun _ _ hx => isOf_eq k hx

theorem items_not_of (k : Nat) (ready : List Handler) :
    (ready.filter (! Handler.isOf k ·)).filterMap Handler.item? =
      (ready.filterMap Handler.item?).filter (·.conn ≠ k) :=
  items_filter ready fun _ _ hx => by rw [isOf_eq k hx, decide_not]

theorem item_ne_waiting {h : Handler} {x : Item} (hx : h.item? = some x) : x.status ≠ .waiting := by
  cases h with
  | complete conn op res =>
    cases res <;> simp only [Handler.item?, Option.some.injEq] at hx <;> subst hx <;> simp
  | _ => cases hx

theorem settled_of_ne {x : Item} (hx : x.conn ≠ k) : x.settled c k = x := by
  simp [Item.settled, hx]

/-- Queued completions after the socket of the last connection has been closed. -/
theorem items_settle (hs : ((ready.filterMap Handler.item?).filter (sel ·.op)).Pairwise
      (·.conn ≤ ·.conn))
    (hk : ∀ x ∈ (ready.filterMap Handler.item?).filter (sel ·.op), x.conn ≤ k) :
    ((c.settle k ready).filterMap Handler.item?).filter (sel ·.op) =
      ((ready.filterMap Handler.item?).filter (sel ·.op)).map (Item.settled c k) := by
  have hcomm (xs : List Item) : (xs.map (Item.settled c k)).filter (sel ·.op) =
      (xs.filter (sel ·.op)).map (Item.settled c k) := by
    simp [List.filter_map, Function.comp_def]
  cases c with
  | keep =>
    have hid : ∀ x ∈ (ready.filterMap Handler.item?).filter (sel ·.op), x.settled .keep k = x := by
      intro x hx
      obtain ⟨h, _, hh⟩ := List.mem_filterMap.mp (List.mem_of_mem_filter hx)
      simp [Item.settled, item_ne_waiting hh]
    simpa [Closing.settle] using (List.map_congr_left hid).symm
  | revoke =>
    rw [← hcomm]
    congr 1
    simp only [Closing.settle, List.filterMap_map, Function.comp_def,
      item_revoked (k := k) (show Closing.revoke ≠ .keep by decide), List.map_filterMap]
  | requeue =>
    have hset : ((ready.filter (Handler.isOf k)).map (Handler.revoked k)).filterMap Handler.item? =
        ((ready.filterMap Handler.item?).filter (·.conn = k)).map (Item.settled .requeue k) := by
      rw [← items_of]
      simp only [List.filterMap_map, Function.comp_def,
        item_revoked (k := k) (show Closing.requeue ≠ .keep by decide), List.map_filterMap]
    have hother (xs : List Item) : (xs.filter (·.conn ≠ k)).map (Item.settled .requeue k) =
        xs.filter (·.conn ≠ k) := by
      have hid : ∀ x ∈ xs.filter (·.conn ≠ k), x.settled .requeue k = x := by
        intro x hx
        exact settled_of_ne (by simpa using List.of_mem_filter hx)
      simpa using List.map_congr_left hid
    have hsplit := filter_conn_append _ hs hk
    simp only [Closing.settle, List.filterMap_append, List.filter_append, hset, items_not_of, hcomm]
    have hswap (p : Item → Bool) (xs : List Item) :
        (xs.filter p).filter (sel ·.op) = (xs.filter (sel ·.op)).filter p := List.filter_comm ..
    rw [hswap, hswap, ← hother, ← List.map_append, hsplit]

/-! ### What one handler does to the queue and the socket -/

namespace State

/-- An operation that completes at once. -/
def queue (s : State) (op : Op) (res : Result) : State :=
  { s with ready := s.ready ++ [.complete s.socket.conn op res] }

end State

/-- The states agree on which handlers run, on the calls and on the wire. -/
structure Like (t u : State) : Prop where
  ready : t.ready = u.ready
  pending : t.pending = u.pending
  conn : t.socket.conn = u.socket.conn
  isOpen : t.socket.isOpen = u.socket.isOpen
  broken : t.socket.broken = u.socket.broken
  request : t.request = u.request
  born : t.born = u.born
  tickets : t.tickets = u.tickets
  accepted : t.accepted = u.accepted
  sent : t.sent = u.sent
  received : t.received = u.received

/-- The operations that the handler of an operation starts when it succeeded. -/
def Op.next : Op → List Op
  | .connect => [.proxyWrite, .readHead]
  | .proxyWrite => [.proxyRead]
  | .proxyRead => [.readHead]
  | .write => [.write]
  | .readHead => [.readHead, .readBody]
  | .readBody => [.readHead]

/-- What a handler other than `real_connect` leaves: nothing new, a closed socket, or one operation
started. -/
inductive Turn (e : Env) (s : State) : Handler → State → Prop
  | stay (h : Handler) (t : State) : Like t s → Turn e s h t
  | close (h : Handler) (t : State) : Like t (s.release e.closing) → Turn e s h t
  | send (ticket : Nat) (pack data : Bytes) (t : State) : s.socket.isOpen →
      Like t (s.start .write data) → Turn e s (.sendMessage ticket pack) t
  | next (conn len : Nat) (op op' : Op) (data : Bytes) (t : State) : op' ∈ op.next →
      Like t (s.start op' data) → Turn e s (.complete conn op (.success len)) t
  | found (conn len n : Nat) (t : State) :
      Like t (s.queue .proxyRead (.success n)) →
      Turn e s (.complete conn .proxyWrite (.success len)) t

theorem turn_onWritten (conn : Nat) (res : Result) :
    Turn e s (.complete conn .write res) (s.onWritten res) := by
  cases res with
  | failure err => exact .stay _ _ (by constructor <;> rfl)
  | success len =>
    simp only [State.onWritten, State.doWrite]
    split
    · split
      · exact .stay _ _ (by constructor <;> rfl)
      · exact .next conn len _ .write _ _ (by simp [Op.next]) (by constructor <;> rfl)
    · exact .stay _ _ (by constructor <;> rfl)

theorem turn_onReadHead (conn : Nat) (res : Result) :
    Turn e s (.complete conn .readHead res) (s.onReadHead e conn res) := by
  cases res with
  | failure err => exact .stay _ _ (by constructor <;> rfl)
  | success len =>
    simp only [State.onReadHead]
    split
    · exact .close _ _ (by constructor <;> rfl)
    · exact .next conn len _ .readHead [] _ (by simp [Op.next]) (by constructor <;> rfl)
    · exact .next conn len _ .readBody [] _ (by simp [Op.next]) (by constructor <;> rfl)

theorem turn_onProxyRead (conn : Nat) (res : Result) :
    Turn e s (.complete conn .proxyRead res) (s.onProxyRead e conn res) := by
  cases res with
  | failure err => exact .close _ _ (by constructor <;> rfl)
  | success len =>
    simp only [State.onProxyRead]
    split
    · exact .next conn len _ .readHead [] _ (by simp [Op.next]) (by constructor <;> rfl)
    · exact .close _ _ (by constructor <;> rfl)

theorem turn_onProxyWritten (conn : Nat) (res : Result) :
    Turn e s (.complete conn .proxyWrite res) (s.onProxyWritten e conn res) := by
  cases res with
  | failure err => exact .close _ _ (by constructor <;> rfl)
  | success len =>
    simp only [State.onProxyWritten, State.readUntil]
    split
    · exact .found conn len _ _ (by constructor <;> rfl)
    · exact .next conn len _ .proxyRead [] _ (by simp [Op.next]) (by constructor <;> rfl)

theorem turn_onConnected (conn : Nat) (res : Result) :
    Turn e s (.complete conn .connect res) (s.onConnected e conn res) := by
  cases res with
  | failure err => exact .stay _ _ (by constructor <;> rfl)
  | success len =>
    simp only [State.onConnected]
    split
    · exact .next conn len _ .proxyWrite _ _ (by simp [Op.next]) (by constructor <;> rfl)
    · exact .next conn len _ .readHead [] _ (by simp [Op.next]) (by constructor <;> rfl)

theorem turn_onReadBody (conn : Nat) (res : Result) :
    Turn e s (.complete conn .readBody res) (s.onReadBody conn res) := by
  cases res with
  | failure err => exact .stay _ _ (by constructor <;> rfl)
  | success len => exact .next conn len _ .readHead [] _ (by simp [Op.next]) (by constructor <;> rfl)

theorem turn_of_run (h : Handler) (hc : ∀ ticket, h ≠ .doConnect ticket) :
    Turn e s h (s.runHandler e h) := by
  cases h with
  | doConnect ticket => exact absurd rfl (hc ticket)
  | doClose ticket =>
    simp only [State.runHandler, State.runClose]
    split
    · exact .close _ _ (by constructor <;> rfl)
    · exact .stay _ _ (by constructor <;> rfl)
  | sendMessage ticket pack =>
    simp only [State.runHandler, State.runSend, State.doWrite]
    split
    · next ho =>
      split
      · split
        · exact .stay _ _ (by constructor <;> rfl)
        · exact .send ticket pack _ _ ho (by constructor <;> rfl)
      · exact .stay _ _ (by constructor <;> rfl)
    · exact .stay _ _ (by constructor <;> rfl)
  | complete conn op res =>
    cases op with
    | connect => exact turn_onConnected conn res
    | proxyWrite => exact turn_onProxyWritten conn res
    | proxyRead => exact turn_onProxyRead conn res
    | write => exact turn_onWritten conn res
    | readHead => exact turn_onReadHead conn res
    | readBody => exact turn_onReadBody conn res

/-! ### What the other steps do -/

/-- A step of a caller or of the network, as the queue sees it. -/
inductive Outside (s t : State) : Prop
  | same : t.ready = s.ready → t.tickets = s.tickets →
      t.pending.map (·.op) = s.pending.map (·.op) → Outside s t
  | post (h : Handler) : h.item? = none → h.ticket? = some s.tickets → t.ready = s.ready ++ [h] →
      t.tickets = s.tickets + 1 → t.pending = s.pending → Outside s t
  | finish (l r : List Pending) (p : Pending) (res : Result) : s.pending = l ++ p :: r →
      t.pending = l ++ r → t.ready = s.ready ++ [.complete s.socket.conn p.op res] →
      t.tickets = s.tickets → Outside s t

/-- What only handlers change. -/
structure Unmoved (t s : State) : Prop where
  conn : t.socket.conn = s.socket.conn
  isOpen : t.socket.isOpen = s.socket.isOpen
  tunneled : t.socket.tunneled = s.socket.tunneled
  closed : t.closed = s.closed
  owner : t.owner = s.owner
  born : t.born = s.born
  request : t.request = s.request
  sendDataList : t.sendDataList = s.sendDataList
  handed : t.handed = s.handed
  log : t.log = s.log

/-- A step runs the first handler, or comes from outside. -/
theorem effect_cases (h : Effect e s a t) :
    (Unmoved t s ∧ Outside s t) ∨ ∃ hd rest, a = .run ∧ s.ready = hd :: rest ∧
      t = { s with ready := rest }.runHandler e hd := by
  cases h with
  | run hd rest hr => exact Or.inr ⟨hd, rest, rfl, hr, rfl⟩
  | call calls => exact Or.inl ⟨by constructor <;> rfl, .same rfl rfl rfl⟩
  | postClose i calls =>
    exact Or.inl ⟨by constructor <;> rfl, .post (.doClose s.tickets) rfl rfl rfl rfl rfl⟩
  | postConnect i calls =>
    exact Or.inl ⟨by constructor <;> rfl, .post (.doConnect s.tickets) rfl rfl rfl rfl rfl⟩
  | postSend i calls pack =>
    exact Or.inl ⟨by constructor <;> rfl, .post (.sendMessage s.tickets pack) rfl rfl rfl rfl rfl⟩
  | sentPart i n l r p bytes rest hs =>
    exact Or.inl ⟨by constructor <;> rfl, .same rfl rfl (by simp [hs])⟩
  | headPart i l r p bytes hs | bodyPart i l r p bytes hs | proxyPart i l r p bytes hs =>
    exact Or.inl ⟨by constructor <;> rfl, .same rfl rfl (by simp [hs])⟩
  | connected i l r p hs => exact Or.inl ⟨by constructor <;> rfl, .finish l r p _ hs rfl rfl rfl⟩
  | sentAll i n l r p hs => exact Or.inl ⟨by constructor <;> rfl, .finish l r p _ hs rfl rfl rfl⟩
  | headAll i l r p bytes hs | bodyAll i l r p bytes hs | proxyAll i l r p bytes len hs =>
    exact Or.inl ⟨by constructor <;> rfl, .finish l r p _ hs rfl rfl rfl⟩
  | fail i err l r p hs => exact Or.inl ⟨by constructor <;> rfl, .finish l r p _ hs rfl rfl rfl⟩

end NetworkUtility.EtcpClient
