import Mathlib.Data.Finset.Basic
import Mathlib.Logic.Function.Basic
import NetworkUtility.EtcpServer.Chain

/-! `EtcpServerImpl`: its sessions, the threads of its io_contexts, the session map and the thread of
a user in `exit`. A thread runs one handler at a time; the handlers of one io_context start in any
order. A session is known by its number, not by its address. -/
namespace NetworkUtility.EtcpServer

open Etcp Machine

/-- Where `exit` is: not called, behind `m_acceptor.reset()`, in the closing pass of `clear_sessions`
with some sessions still to visit, waiting for the map to become empty, or behind `clear_sessions`. -/
inductive Exit
  | idle
  | reset
  | closing (rest : Finset Nat)
  | waiting
  | ended
  deriving DecidableEq

/-- The accept handler is running. -/
def Accept.running : Accept → Bool
  | .callback => true
  | .append => true
  | .read => true
  | .again => true
  | _ => false

/-- `m_io_contexts` with `m_io_context_iter`, `m_acceptor` with its io_context, `m_session_map`, then
the sessions with their io_contexts and the thread in `exit`. -/
structure Server where
  contexts : Nat
  iter : Nat
  acceptor : Bool
  home : Nat
  sessionMap : Finset Nat
  count : Nat
  sessions : Nat → Session
  context : Nat → Nat
  exit : Exit

/-- A step of one session or of its handlers, or of the thread in `exit`: `m_acceptor.reset()`, the
mutex of the closing pass, one session of it, the end of it, the map found empty. -/
inductive Action
  | session (k : Nat) (a : Session.Action)
  | reset
  | lock
  | visit (k : Nat)
  | unlock
  | leave
  deriving DecidableEq, Repr

/-- The acceptor is gone: an outstanding accept fails. -/
def Session.abandon (s : Session) : Session :=
  if s.accept = .waiting then { s with accept := .completed false, isOpen := false } else s

namespace Server

/-- Session `k` has taken a step. -/
def put (s : Server) (k : Nat) (t : Session) : Server :=
  { s with sessions := Function.update s.sessions k t }

def getIoContext (s : Server) : Nat × Server :=
  let iter := if s.iter = s.contexts then 0 else s.iter
  (iter, { s with iter := iter + 1 })

def doAccept (s : Server) : Server :=
  if s.acceptor then
    let (context, s) := s.getIoContext
    { s with
      sessions := Function.update s.sessions s.count .initial
      context := Function.update s.context s.count context
      count := s.count + 1 }
  else s

def appendSession (s : Server) (k : Nat) : Server := { s with sessionMap := insert k s.sessionMap }

def removeSession (s : Server) (k : Nat) : Server := { s with sessionMap := s.sessionMap.erase k }

/-- After a successful `init`. -/
def initial (threadCount : Nat) : Server :=
  let s : Server := {
    contexts := if threadCount < 1 then 1 else if threadCount > 20 then 20 else threadCount
    iter := 0
    acceptor := false
    home := 0
    sessionMap := ∅
    count := 0
    sessions := fun _ => .initial
    context := fun _ => 0
    exit := .idle }
  let (home, s) := s.getIoContext
  { s with home := home, acceptor := true }.doAccept

/-- The thread of the io_context is in a handler. -/
def Busy (s : Server) (c : Nat) : Prop :=
  ∃ k < s.count, (s.context k = c ∧ (s.sessions k).closing ≠ .idle) ∨
    (s.home = c ∧ (s.sessions k).accept.running)

instance (s : Server) (c : Nat) : Decidable (s.Busy c) :=
  inferInstanceAs (Decidable (∃ k < s.count, _))

/-- The closing pass holds the mutex. -/
def Locked (s : Server) : Prop := ∃ rest, s.exit = .closing rest

instance (s : Server) : Decidable s.Locked :=
  match h : s.exit with
  | .closing rest => .isTrue ⟨rest, h⟩
  | .idle | .reset | .waiting | .ended => .isFalse fun ⟨_, hr⟩ => by simp [h] at hr

/-- What the acceptor, the threads and the mutex allow. -/
def Allows (s : Server) (k : Nat) : Session.Action → Prop
  | .accepted _ => s.acceptor
  | .acceptStart => ¬ s.Busy s.home
  | .run _ => ¬ s.Busy (s.context k)
  | .acceptAppend => ¬ s.Locked
  | .closeRemove => ¬ s.Locked
  | .close => False
  | _ => True

instance (s : Server) (k : Nat) : (a : Session.Action) → Decidable (s.Allows k a)
  | .accepted _ => inferInstanceAs (Decidable (_ = true))
  | .acceptStart | .run _ | .acceptAppend | .closeRemove => inferInstanceAs (Decidable (¬ _))
  | .close => instDecidableFalse
  | .acceptCallback | .acceptRead | .acceptAgain | .keep _ | .callClose | .callSend _ | .post _
  | .closeCallback | .transfer .. | .receive .. | .fail .. => instDecidableTrue

/-- What a handler does to the server. -/
def follow (s : Server) (k : Nat) : Session.Action → Server
  | .acceptAppend => s.appendSession k
  | .closeRemove => s.removeSession k
  | .acceptAgain => s.doAccept
  | _ => s

def step (o : ByteOrder) (s : Server) : Action → Option Server
  | .session k a =>
    if k < s.count ∧ s.Allows k a then
      (Session.step o (s.sessions k) a).map fun t => (s.put k t).follow k a
    else none
  | .reset =>
    if s.exit = .idle then
      some { s with
        acceptor := false
        sessions := fun k => if k < s.count then (s.sessions k).abandon else s.sessions k
        exit := .reset }
    else none
  | .lock => if s.exit = .reset then some { s with exit := .closing s.sessionMap } else none
  | .visit k =>
    match s.exit with
    | .closing rest =>
      if k ∈ rest then
        let t := if (s.sessions k).Held then (s.sessions k).close else s.sessions k
        some { s.put k t with exit := .closing (rest.erase k) }
      else none
    | _ => none
  | .unlock => if s.exit = .closing ∅ then some { s with exit := .waiting } else none
  | .leave =>
    if s.exit = .waiting ∧ s.sessionMap = ∅ then some { s with exit := .ended } else none

end Server

/-! ### What a step does to a session -/

namespace Session

variable {o : ByteOrder} {s t : Session} {a : Session.Action}

theorem log_prefix (h : step o s a = some t) : s.log <+: t.log := by
  by_cases hp : a.plain
  · rw [(step_plain hp h).log]
  cases effect_of_step h with
  | run i => exact (leaves_runTask (s := s.dequeue i)).log
  | accepted | acceptStart | acceptFailed => exact List.prefix_rfl
  | acceptCallback | closeCallback => exact List.prefix_append _ _
  | closeRemove => exact List.prefix_rfl
  | _ => exact absurd rfl hp

theorem log_ne_nil (h : step o s a = some t) (hlog : s.log ≠ []) : t.log ≠ [] :=
  fun hnil => hlog (List.prefix_nil.mp (hnil ▸ log_prefix h))

theorem sound_close (hs : s.Sound) (hlog : s.log ≠ []) : s.close.Sound := by
  unfold close
  split
  · exact hs
  · exact sound_doClose hs hlog

theorem close_log (s : Session) : s.close.log = s.log := by
  unfold close
  split <;> rfl

/-- An accept that fails is a step of the session. -/
theorem abandon_cases (o : ByteOrder) (s : Session) :
    s.abandon = s ∨ step o s (.accepted false) = some s.abandon := by
  unfold abandon
  split
  · next hw => exact .inr (by simp [step, hw])
  · exact .inl rfl

end Session

namespace Server

variable {o : ByteOrder} {s t : Server} {a : Action} {k : Nat} {as : List Action}

/-- The steps of `step`, each with what it asks for. -/
inductive Effect (o : ByteOrder) (s : Server) : Action → Server → Prop
  | session (k : Nat) (b : Session.Action) (u : Session) : k < s.count → s.Allows k b →
      Session.step o (s.sessions k) b = some u → Effect o s (.session k b) ((s.put k u).follow k b)
  | reset : s.exit = .idle → Effect o s .reset { s with
      acceptor := false
      sessions := fun k => if k < s.count then (s.sessions k).abandon else s.sessions k
      exit := .reset }
  | lock : s.exit = .reset → Effect o s .lock { s with exit := .closing s.sessionMap }
  | visit (k : Nat) (rest : Finset Nat) : s.exit = .closing rest → k ∈ rest →
      Effect o s (.visit k) {
        s.put k (if (s.sessions k).Held then (s.sessions k).close else s.sessions k) with
        exit := .closing (rest.erase k) }
  | unlock : s.exit = .closing ∅ → Effect o s .unlock { s with exit := .waiting }
  | leave : s.exit = .waiting → s.sessionMap = ∅ → Effect o s .leave { s with exit := .ended }

/-- A step of a session, with what it did to the server. -/
theorem session_of_step {b : Session.Action} (h : step o s (.session k b) = some t) :
    k < s.count ∧ s.Allows k b ∧ ∃ u, Session.step o (s.sessions k) b = some u ∧
      t = (s.put k u).follow k b := by
  simp only [step] at h
  split at h
  · next hc =>
    obtain ⟨u, hu, rfl⟩ := Option.map_eq_some_iff.mp h
    exact ⟨hc.1, hc.2, u, hu, rfl⟩
  · cases h

theorem effect_of_step (h : step o s a = some t) : Effect o s a t := by
  cases a with
  | session k b =>
    obtain ⟨hk, hallows, u, hu, rfl⟩ := session_of_step h
    exact .session k b u hk hallows hu
  | reset =>
    simp only [step, Option.ite_none_right_eq_some, Option.some.injEq] at h
    obtain ⟨hexit, rfl⟩ := h
    exact .reset hexit
  | lock =>
    simp only [step, Option.ite_none_right_eq_some, Option.some.injEq] at h
    obtain ⟨hexit, rfl⟩ := h
    exact .lock hexit
  | visit k =>
    simp only [step] at h
    split at h
    · next rest hrest =>
      simp only [Option.ite_none_right_eq_some, Option.some.injEq] at h
      obtain ⟨hk, rfl⟩ := h
      exact .visit k rest hrest hk
    · cases h
  | unlock =>
    simp only [step, Option.ite_none_right_eq_some, Option.some.injEq] at h
    obtain ⟨hexit, rfl⟩ := h
    exact .unlock hexit
  | leave =>
    simp only [step, Option.ite_none_right_eq_some, Option.some.injEq] at h
    obtain ⟨⟨hexit, hmap⟩, rfl⟩ := h
    exact .leave hexit hmap

/-- What one step does to session `k` and to its place in the map. -/
inductive Moves (o : ByteOrder) (s : Server) (k : Nat) : Action → Server → Prop
  | same (a : Action) (t : Server) : t.sessions k = s.sessions k →
      (k ∈ t.sessionMap ↔ k ∈ s.sessionMap) → Moves o s k a t
  | append (t : Server) : Session.step o (s.sessions k) .acceptAppend = some (t.sessions k) →
      k ∈ t.sessionMap → Moves o s k (.session k .acceptAppend) t
  | remove (t : Server) : Session.step o (s.sessions k) .closeRemove = some (t.sessions k) →
      k ∉ t.sessionMap → Moves o s k (.session k .closeRemove) t
  | step (a : Action) (b : Session.Action) (t : Server) : b ≠ .acceptAppend → b ≠ .closeRemove →
      Session.step o (s.sessions k) b = some (t.sessions k) →
      (k ∈ t.sessionMap ↔ k ∈ s.sessionMap) → Moves o s k a t
  | visit (t : Server) : (s.sessions k).Held → t.sessions k = (s.sessions k).close →
      (k ∈ t.sessionMap ↔ k ∈ s.sessionMap) → Moves o s k (.visit k) t

/-- Sessions to come are new, and those in the map have been accepted. -/
structure Wf (s : Server) : Prop where
  sound : ∀ k, (s.sessions k).Sound
  unborn : ∀ k, s.count ≤ k → s.sessions k = .initial
  listed : ∀ k ∈ s.sessionMap, (s.sessions k).log ≠ []
  visited : ∀ rest, s.exit = .closing rest → rest ⊆ s.sessionMap

@[simp] theorem put_self (s : Server) (k : Nat) (u : Session) : (s.put k u).sessions k = u :=
  Function.update_self ..

theorem put_of_ne {j : Nat} (hne : j ≠ k) (u : Session) : (s.put k u).sessions j = s.sessions j :=
  Function.update_of_ne hne ..

theorem doAccept_sessions (hs : s.sessions s.count = .initial) :
    s.doAccept.sessions = s.sessions := by
  unfold doAccept
  split
  · exact Function.update_eq_self_iff.mpr hs.symm
  · rfl

theorem doAccept_count (s : Server) : s.count ≤ s.doAccept.count := by
  unfold doAccept
  split
  · exact Nat.le_succ _
  · exact Nat.le_refl _

theorem doAccept_map (s : Server) : s.doAccept.sessionMap = s.sessionMap := by
  unfold doAccept
  split <;> rfl

theorem doAccept_exit (s : Server) : s.doAccept.exit = s.exit := by
  unfold doAccept
  split <;> rfl

theorem follow_sessions (hs : s.sessions s.count = .initial) (b : Session.Action) :
    (s.follow k b).sessions = s.sessions := by
  cases b with
  | acceptAgain => exact doAccept_sessions hs
  | _ => rfl

theorem follow_count (s : Server) (k : Nat) (b : Session.Action) : s.count ≤ (s.follow k b).count := by
  cases b with
  | acceptAgain => exact doAccept_count s
  | _ => exact Nat.le_refl _

theorem follow_exit (s : Server) (k : Nat) (b : Session.Action) : (s.follow k b).exit = s.exit := by
  cases b with
  | acceptAgain => exact doAccept_exit s
  | _ => rfl

theorem follow_map (s : Server) (k : Nat) {b : Session.Action} (happend : b ≠ .acceptAppend)
    (hremove : b ≠ .closeRemove) : (s.follow k b).sessionMap = s.sessionMap := by
  cases b with
  | acceptAgain => exact doAccept_map s
  | acceptAppend => exact absurd rfl happend
  | closeRemove => exact absurd rfl hremove
  | _ => rfl

/-- The handlers of one session leave the others and their places in the map alone. -/
theorem mem_follow_of_ne {j : Nat} (hne : j ≠ k) (b : Session.Action) :
    j ∈ (s.follow k b).sessionMap ↔ j ∈ s.sessionMap := by
  cases b with
  | acceptAppend => simp [follow, appendSession, hne]
  | closeRemove => simp [follow, removeSession, hne]
  | acceptAgain =>
    show j ∈ s.doAccept.sessionMap ↔ _
    rw [doAccept_map]
  | _ => exact Iff.rfl

theorem Wf.put_follow (hs : s.Wf) (hk : k < s.count) (u : Session) (b : Session.Action) :
    ((s.put k u).follow k b).sessions = (s.put k u).sessions := by
  apply follow_sessions
  show (s.put k u).sessions s.count = .initial
  rw [put_of_ne (Nat.ne_of_gt hk)]
  exact hs.unborn _ (Nat.le_refl _)

theorem moves_session {j : Nat} {b : Session.Action} {u : Session} (hs : s.Wf) (hj : j < s.count)
    (hu : Session.step o (s.sessions j) b = some u) :
    Moves o s k (.session j b) ((s.put j u).follow j b) := by
  have hsessions := hs.put_follow hj u b
  by_cases hk : k = j
  · subst hk
    have hself : ((s.put k u).follow k b).sessions k = u := by rw [hsessions, put_self]
    by_cases happend : b = .acceptAppend
    · subst happend
      exact .append _ (hself.symm ▸ hu) (Finset.mem_insert_self ..)
    · by_cases hremove : b = .closeRemove
      · subst hremove
        exact .remove _ (hself.symm ▸ hu) (Finset.notMem_erase k s.sessionMap)
      · refine .step _ b _ happend hremove (hself.symm ▸ hu) ?_
        rw [follow_map _ k happend hremove]
        exact Iff.rfl
  · refine .same _ _ ?_ (mem_follow_of_ne hk b)
    rw [hsessions, put_of_ne hk]

theorem moves_of_step (hs : s.Wf) (h : step o s a = some t) (k : Nat) : Moves o s k a t := by
  cases effect_of_step h with
  | session j b u hj _ hu => exact moves_session hs hj hu
  | reset =>
    by_cases hk : k < s.count
    · rcases Session.abandon_cases o (s.sessions k) with heq | hst
      · exact .same _ _ (by simp [hk, heq]) Iff.rfl
      · exact .step _ (.accepted false) _ nofun nofun (by simpa [hk] using hst) Iff.rfl
    · exact .same _ _ (by simp [hk]) Iff.rfl
  | visit j =>
    by_cases hk : k = j
    · subst hk
      by_cases hheld : (s.sessions k).Held
      · exact .visit _ hheld (by simp [hheld]) Iff.rfl
      · exact .same _ _ (by simp [hheld]) Iff.rfl
    · exact .same _ _ (put_of_ne hk _) Iff.rfl
  | lock | unlock | leave => exact .same _ _ rfl Iff.rfl

/-! ### Well-formed servers -/

theorem wf_initial (threadCount : Nat) : (initial threadCount).Wf := by
  have hsessions : (initial threadCount).sessions = fun _ => .initial := by
    show Function.update (fun _ => Session.initial) 0 .initial = _
    exact Function.update_eq_self_iff.mpr rfl
  refine ⟨fun k => ?_, fun k _ => ?_, fun k hk => ?_, fun rest hrest => ?_⟩
  · rw [hsessions]
    exact Session.sound_initial
  · rw [hsessions]
  · cases hk
  · cases hrest

theorem sound_moves (hs : s.Wf) (hm : Moves o s k a t) (hk : ∀ j, a = .visit j → j ∈ s.sessionMap) :
    (t.sessions k).Sound := by
  cases hm with
  | same _ _ hsame => exact hsame ▸ hs.sound k
  | append _ hst => exact Session.sound_step (hs.sound k) hst
  | remove _ hst => exact Session.sound_step (hs.sound k) hst
  | step _ b _ _ _ hst => exact Session.sound_step (hs.sound k) hst
  | visit _ _ heq =>
    rw [heq]
    exact Session.sound_close (hs.sound k) (hs.listed k (hk k rfl))

theorem listed_moves (hs : s.Wf) (hm : Moves o s k a t) (hmem : k ∈ t.sessionMap) :
    (t.sessions k).log ≠ [] := by
  cases hm with
  | same _ _ hsame hiff => exact hsame ▸ hs.listed k (hiff.mp hmem)
  | append _ hst =>
    apply Session.log_ne_nil hst
    intro hlog
    have happend := ((hs.sound k).fresh hlog).accept.1
    generalize t.sessions k = u at hst
    cases Session.effect_of_step hst with
    | acceptAppend hc => exact happend hc
  | remove _ _ hout => exact absurd hmem hout
  | step _ b _ _ _ hst hiff => exact Session.log_ne_nil hst (hs.listed k (hiff.mp hmem))
  | visit _ _ heq hiff =>
    rw [heq, Session.close_log]
    exact hs.listed k (hiff.mp hmem)

/-- Only sessions that have been created move. -/
theorem unborn_step (hs : s.Wf) (h : step o s a = some t) (hk : t.count ≤ k) :
    t.sessions k = .initial := by
  cases effect_of_step h with
  | session j b u hj =>
    have hle : s.count ≤ k := Nat.le_trans (follow_count (s.put j u) j b) hk
    rw [hs.put_follow hj, put_of_ne (by omega)]
    exact hs.unborn k hle
  | reset =>
    have hle : s.count ≤ k := hk
    simp only [Nat.not_lt.mpr hle, if_false]
    exact hs.unborn k hle
  | visit j rest hrest hj =>
    have hlog := hs.listed j (hs.visited rest hrest hj)
    have hne : k ≠ j := by
      rintro rfl
      rw [hs.unborn k hk] at hlog
      exact hlog rfl
    exact (put_of_ne hne _).trans (hs.unborn k hk)
  | lock | unlock | leave => exact hs.unborn k hk

/-- The mutex keeps the map as the closing pass found it. -/
theorem visited_step (hs : s.Wf) (h : step o s a = some t) :
    ∀ rest, t.exit = .closing rest → rest ⊆ t.sessionMap := by
  intro rest hrest
  cases effect_of_step h with
  | session j b u _ hallows =>
    rw [follow_exit] at hrest
    have hlocked : s.Locked := ⟨rest, hrest⟩
    have happend : b ≠ .acceptAppend := fun heq => by
      subst heq
      exact hallows hlocked
    have hremove : b ≠ .closeRemove := fun heq => by
      subst heq
      exact hallows hlocked
    rw [follow_map _ j happend hremove]
    exact hs.visited rest hrest
  | lock =>
    cases hrest
    exact Finset.Subset.refl _
  | visit j before hbefore =>
    cases hrest
    exact (Finset.erase_subset j before).trans (hs.visited before hbefore)
  | reset | unlock | leave => cases hrest

theorem visit_mem (hs : s.Wf) (h : step o s (.visit k) = some t) : k ∈ s.sessionMap := by
  cases effect_of_step h with
  | visit _ rest hrest hk => exact hs.visited rest hrest hk

theorem wf_step (hs : s.Wf) (h : step o s a = some t) : t.Wf where
  sound k := sound_moves hs (moves_of_step hs h k) fun _ hj => visit_mem hs (hj ▸ h)
  unborn _ hk := unborn_step hs h hk
  listed k hk := listed_moves hs (moves_of_step hs h k) hk
  visited := visited_step hs h

end Server

end NetworkUtility.EtcpServer
