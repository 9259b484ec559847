import NetworkUtility.EtcpClient.Queue

/-! An attempt that has called `on_etcp_close` back has a closed socket, if no connect and no read
fails on an open one. -/
namespace NetworkUtility.EtcpClient

open Etcp Machine

variable {e : Env} {s t : State} {a : Action} {c : Closing} {n k : Nat} {hd : Handler}
  {ready rest : List Handler} {request : Bytes} {as : List Action}

/-- What `send_message` returns. -/
def State.sendMessage (s : State) (pack : Bytes) : Bool :=
  s.running && s.isConnected && ! pack.isEmpty

theorem sendMessage_iff (pack : Bytes) :
    s.sendMessage pack = true ↔ (step e s (.callSend pack)).isSome := by
  simp [State.sendMessage, step, and_assoc]

/-- A handler that ends an attempt and leaves the socket to others finds it closed. -/
def Severed (s : State) : Action → Prop
  | .run =>
    match s.ready with
    | .complete conn .connect (.failure _) :: _ => conn = s.socket.conn → s.socket.isOpen = false
    | .complete _ .readHead (.failure _) :: _ | .complete _ .readBody (.failure _) :: _ =>
      s.closed = false → s.owner = s.socket.conn → s.socket.isOpen = false
    | _ => True
  | _ => True

instance (s : State) (a : Action) : Decidable (Severed s a) := by
  unfold Severed
  split
  · split <;> infer_instance
  · infer_instance

/-- The current attempt has been closed: the socket is, and no packet is accepted. -/
def Over (s : State) : Prop :=
  (s.socket.conn, .close) ∈ s.log → s.isConnected = false ∧ ∀ pack, s.sendMessage pack = false

/-- The completion of an operation belongs to one of the first `n` connections. -/
def Handler.upTo (n : Nat) : Handler → Prop
  | .complete conn _ _ => conn ≤ n
  | _ => True

structure Shut (s : State) : Prop where
  owner : s.owner ≤ s.socket.conn
  queued : ∀ h ∈ s.ready, h.upTo s.socket.conn
  past : ∀ p ∈ s.log, p.1 ≤ s.socket.conn
  dark : (s.socket.conn, .close) ∈ s.log → s.socket.isOpen = false

theorem upTo_revoked (hd : Handler) : (hd.revoked k).upTo n ↔ hd.upTo n := by
  cases hd <;> rfl

theorem upTo_settle (h : ∀ x ∈ ready, x.upTo n) : ∀ x ∈ c.settle k ready, x.upTo n := by
  intro x hx
  cases c with
  | keep => exact h x hx
  | revoke =>
    obtain ⟨y, hy, rfl⟩ := List.mem_map.mp hx
    exact (upTo_revoked y).mpr (h y hy)
  | requeue =>
    rcases List.mem_append.mp hx with hx | hx
    · exact h x (List.mem_of_mem_filter hx)
    · obtain ⟨y, hy, rfl⟩ := List.mem_map.mp hx
      exact (upTo_revoked y).mpr (h y (List.mem_of_mem_filter hy))

theorem shut_initial (request : Bytes) : Shut (initial request) := by
  constructor <;> simp [initial]

theorem Shut.ended (hs : Shut s) : Over s := by
  intro hclose
  have hopen := hs.dark hclose
  exact ⟨hopen, fun pack => by simp [State.sendMessage, State.isConnected, hopen]⟩

theorem Shut.of_eq (hs : Shut s) (howner : t.owner = s.owner) (hlog : t.log = s.log)
    (hconn : t.socket.conn = s.socket.conn) (hopen : t.socket.isOpen = true → s.socket.isOpen = true)
    (hready : ∀ h ∈ t.ready, h.upTo s.socket.conn) : Shut t := by
  refine ⟨by rw [howner, hconn]; exact hs.owner, by rw [hconn]; exact hready,
    by rw [hlog, hconn]; exact hs.past, fun hclose => ?_⟩
  rw [hlog, hconn] at hclose
  have hdark := hs.dark hclose
  by_contra hne
  rw [Bool.not_eq_false] at hne
  simp [hopen hne] at hdark

/-- A handler that has been taken from the queue. -/
theorem Shut.pop (hs : Shut s) (hr : s.ready = hd :: rest) :
    Shut { s with ready := rest } ∧ hd.upTo s.socket.conn := by
  have hq := hs.queued
  rw [hr] at hq
  exact ⟨hs.of_eq rfl rfl rfl id fun h hh => hq h (List.mem_cons_of_mem _ hh),
    hq hd List.mem_cons_self⟩

theorem Shut.start (hs : Shut s) (op : Op) (data : Bytes) : Shut (s.start op data) := by
  refine hs.of_eq rfl rfl rfl id fun h hh => ?_
  simp only [State.start] at hh
  split at hh
  · exact hs.queued h hh
  · rcases List.mem_append.mp hh with hh | hh
    · exact hs.queued h hh
    · obtain rfl := List.mem_singleton.mp hh
      exact Nat.le_refl _

theorem Shut.release (hs : Shut s) (c : Closing) : Shut (s.release c) := by
  refine hs.of_eq rfl rfl rfl (fun h => by simp [State.release] at h) fun h hh => ?_
  simp only [State.release] at hh
  split at hh
  · rcases List.mem_append.mp hh with hh | hh
    · exact upTo_settle hs.queued h hh
    · obtain ⟨p, _, rfl⟩ := List.mem_map.mp hh
      exact Nat.le_refl _
  · exact hs.queued h hh

/-- A callback other than `on_etcp_close`. -/
theorem Shut.note (hs : Shut s) (hlog : t.log = s.log ++ [(k, b)]) (hk : k ≤ s.socket.conn)
    (hb : b ≠ .close) (howner : t.owner = s.owner) (hready : t.ready = s.ready)
    (hsocket : t.socket = s.socket) : Shut t := by
  refine ⟨by rw [howner, hsocket]; exact hs.owner, by rw [hready, hsocket]; exact hs.queued, ?_, ?_⟩
  · intro p hp
    rw [hlog, List.mem_append, List.mem_singleton] at hp
    rw [hsocket]
    rcases hp with hp | rfl
    · exact hs.past p hp
    · exact hk
  · intro hclose
    rw [hlog, hsocket, List.mem_append, List.mem_singleton] at hclose
    rw [hsocket]
    rcases hclose with hclose | heq
    · exact hs.dark hclose
    · exact absurd (congrArg Prod.snd heq).symm hb

theorem Shut.onConnect (hs : Shut s) (hk : k ≤ s.socket.conn) : Shut (s.onConnect k) :=
  hs.note rfl hk nofun rfl rfl rfl

theorem Shut.onError (hs : Shut s) (hk : k ≤ s.socket.conn) (action message : String) :
    Shut (s.onError k action message) :=
  hs.note rfl hk nofun rfl rfl rfl

theorem Shut.onClose (hs : Shut s)
    (h : s.closed = false → s.owner = s.socket.conn → s.socket.isOpen = false) : Shut s.onClose := by
  refine ⟨hs.owner, hs.queued, fun p hp => ?_, fun hclose => ?_⟩
  · simp only [State.onClose] at hp
    split at hp
    · exact hs.past p hp
    · rcases List.mem_append.mp hp with hp | hp
      · exact hs.past p hp
      · obtain rfl := List.mem_singleton.mp hp
        exact hs.owner
  · simp only [State.onClose] at hclose
    split at hclose
    · exact hs.dark hclose
    · next hopen =>
      rcases List.mem_append.mp hclose with hclose | hclose
      · exact hs.dark hclose
      · have heq := congrArg Prod.fst (List.mem_singleton.mp hclose)
        exact h (by simpa using hopen) heq.symm

/-- `real_close` and `on_close` together. -/
theorem Shut.closeDown (hs : Shut s) : Shut (s.realClose e).onClose :=
  (hs.release e.closing).onClose fun _ _ => rfl

theorem Shut.startWrite (hs : Shut s) (op : Op) (data : Bytes) : Shut (s.startWrite op data) :=
  Shut.start (by exact hs.of_eq rfl rfl rfl id hs.queued) op data

theorem Shut.doWrite (hs : Shut s) : Shut s.doWrite := by
  unfold State.doWrite
  split
  · exact hs
  · exact hs.startWrite _ _

/-! ### One step -/

theorem shut_realConnect (hs : Shut s) (ticket : Nat) : Shut (s.realConnect e ticket) := by
  have hrel := hs.release e.closing
  apply Shut.start
  constructor
  · exact Nat.le_succ_of_le hrel.owner
  · intro h hh
    have hle := hrel.queued h hh
    cases h with
    | complete conn op res => exact Nat.le_succ_of_le hle
    | _ => trivial
  · intro p hp
    exact Nat.le_succ_of_le (hrel.past p hp)
  · intro hclose
    exact absurd (hrel.past _ hclose) (Nat.not_succ_le_self _)

theorem shut_onConnected (hs : Shut s) (hk : k ≤ s.socket.conn) (res : Result)
    (hg : ∀ err, res = .failure err → k = s.socket.conn → s.socket.isOpen = false) :
    Shut (s.onConnected e k res) := by
  have howned : Shut { s with closed := false, owner := k } :=
    ⟨hk, hs.queued, hs.past, hs.dark⟩
  cases res with
  | failure err => exact (howned.onError hk _ _).onClose fun _ => hg err rfl
  | success len =>
    simp only [State.onConnected]
    split
    · exact howned.startWrite _ _
    · exact Shut.onConnect (howned.start _ _) hk

theorem shut_onProxyWritten (hs : Shut s) (hk : k ≤ s.socket.conn) (res : Result) :
    Shut (s.onProxyWritten e k res) := by
  cases res with
  | failure err => exact (hs.onError hk _ _).closeDown
  | success len =>
    simp only [State.onProxyWritten, State.readUntil]
    split
    · refine hs.of_eq rfl rfl rfl id fun h hh => ?_
      rcases List.mem_append.mp hh with hh | hh
      · exact hs.queued h hh
      · obtain rfl := List.mem_singleton.mp hh
        exact Nat.le_refl _
    · exact hs.start _ _

theorem shut_onProxyRead (hs : Shut s) (hk : k ≤ s.socket.conn) (res : Result) :
    Shut (s.onProxyRead e k res) := by
  cases res with
  | failure err => exact (hs.onError hk _ _).closeDown
  | success len =>
    have hrest : Shut { s with response := s.response.drop len } :=
      hs.of_eq rfl rfl rfl id hs.queued
    simp only [State.onProxyRead]
    split
    · exact Shut.onConnect (Shut.start (by exact hrest.of_eq rfl rfl rfl id hrest.queued) _ _) hk
    · exact (hrest.onError hk _ _).closeDown

theorem shut_onWritten (hs : Shut s) (res : Result) : Shut (s.onWritten res) := by
  cases res with
  | failure err => exact hs.of_eq rfl rfl rfl id hs.queued
  | success len =>
    have htail : Shut { s with sendDataList := s.sendDataList.tail } :=
      hs.of_eq rfl rfl rfl id hs.queued
    simp only [State.onWritten]
    split
    · exact htail.doWrite
    · exact htail

theorem shut_runSend (hs : Shut s) (pack : Bytes) : Shut (s.runSend e pack) := by
  have hpush : Shut { s with sendDataList := pushMessage e.order s.sendDataList pack } :=
    hs.of_eq rfl rfl rfl id hs.queued
  simp only [State.runSend]
  split
  · split
    · exact hpush.doWrite
    · exact hpush
  · exact hs

theorem shut_onReadHead (hs : Shut s) (hk : k ≤ s.socket.conn) (res : Result)
    (hg : ∀ err, res = .failure err → s.closed = false → s.owner = s.socket.conn →
      s.socket.isOpen = false) : Shut (s.onReadHead e k res) := by
  cases res with
  | failure err => exact hs.onClose (hg err rfl)
  | success len =>
    have hdecoded : Shut { s with recvHead := EtcpHeader.decode e.order s.recvHead } :=
      hs.of_eq rfl rfl rfl id hs.queued
    simp only [State.onReadHead]
    split
    · exact (hdecoded.onError hk _ _).closeDown
    · exact hdecoded.start _ _
    · exact Shut.start (by exact hdecoded.of_eq rfl rfl rfl id hdecoded.queued) _ _

theorem shut_onReadBody (hs : Shut s) (hk : k ≤ s.socket.conn) (res : Result)
    (hg : ∀ err, res = .failure err → s.closed = false → s.owner = s.socket.conn →
      s.socket.isOpen = false) : Shut (s.onReadBody k res) := by
  cases res with
  | failure err => exact hs.onClose (hg err rfl)
  | success len => exact (Shut.start hs .readHead []).note rfl hk nofun rfl rfl rfl

theorem shut_runHandler (hs : Shut s) (hg : Severed s .run) (hr : s.ready = hd :: rest) :
    Shut ({ s with ready := rest }.runHandler e hd) := by
  obtain ⟨hpop, hk⟩ := hs.pop hr
  simp only [Severed, hr] at hg
  cases hd with
  | doConnect ticket => exact shut_realConnect hpop ticket
  | doClose ticket =>
    simp only [State.runHandler, State.runClose]
    split
    · exact hpop.closeDown
    · exact hpop
  | sendMessage ticket pack => exact shut_runSend hpop pack
  | complete conn op res =>
    cases op with
    | connect => exact shut_onConnected hpop hk res fun err h => by subst h; exact hg
    | proxyWrite => exact shut_onProxyWritten hpop hk res
    | proxyRead => exact shut_onProxyRead hpop hk res
    | write => exact shut_onWritten hpop res
    | readHead => exact shut_onReadHead hpop hk res fun err h => by subst h; exact hg
    | readBody => exact shut_onReadBody hpop hk res fun err h => by subst h; exact hg

theorem shut_step (hs : Shut s) (hg : Severed s a) (h : step e s a = some t) : Shut t := by
  rcases effect_cases (effect_of_step h) with ⟨hu, ho⟩ | ⟨hd, rest, rfl, hr, rfl⟩
  · refine hs.of_eq hu.owner hu.log hu.conn (fun h => hu.isOpen ▸ h) fun h hh => ?_
    cases ho with
    | same hready => exact hs.queued h (hready ▸ hh)
    | post hp hitem _ hready =>
      rw [hready] at hh
      rcases List.mem_append.mp hh with hh | hh
      · exact hs.queued h hh
      · obtain rfl := List.mem_singleton.mp hh
        cases h with
        | complete conn op res => cases res <;> cases hitem
        | _ => trivial
    | finish l r p res _ _ hready =>
      rw [hready] at hh
      rcases List.mem_append.mp hh with hh | hh
      · exact hs.queued h hh
      · obtain rfl := List.mem_singleton.mp hh
        exact Nat.le_refl _
  · exact shut_runHandler hs hg hr

theorem shut_of_run (h : Run (step e) Severed (initial request) as s) : Shut s :=
  h.invariant _ (fun _ _ _ hs hg hst => shut_step hs hg hst) (shut_initial request)

end NetworkUtility.EtcpClient
