import NetworkUtility.Tcp.Accepts

/-! `TcpForwardServerImpl`: the acceptors it hands out, the threads that acquire and release them, its
io thread and `exit`. A handler of `TcpForwardAcceptor::do_accept` holds a plain pointer to its
acceptor. -/
namespace NetworkUtility.Tcp

open Relay Machine AcceptLoop

namespace Forward

/-- The nested handlers have come to their end: a session has been started, and holds itself, or the
connection is dropped. -/
def settled (f : Forward) : Bool :=
  match f.phase with
  | .session => true
  | .dropped => true
  | _ => false

/-- The handler reads a member of the acceptor. That of a write that has succeeded reads none, but
hands the pointer on. -/
def touches (f : Forward) (p : Progress) : Bool :=
  match f.phase, p with
  | .session, _ => false
  | .dropped, _ => false
  | .write _, .handshake .run => false
  | _, .handshake .run => true
  | _, .handshake .error => true
  | _, _ => false

end Forward

/-- A handler runs, in contrast to what the network does to an operation. -/
def Progress.isHandler (p : Progress) : Bool := p.op = .run || p.op = .error

/-- Who owns an acceptor: the call that has made it, an entry of `m_acceptor_map`, or nobody since it
has been destroyed. -/
inductive Home
  | call
  | map (port : Nat)
  | gone
  deriving DecidableEq, Repr

structure Acceptor where
  message : Bytes
  home : Home
  listener : Listener Forward
  deriving DecidableEq, Repr

namespace Acceptor

/-- `start`. -/
def started (message : Bytes) : Acceptor := ⟨message, .call, (Forward.acceptLoop message).start⟩

def isAt (port : Nat) (a : Acceptor) : Bool := a.home = .map port

def inMap (a : Acceptor) : Bool :=
  match a.home with
  | .map _ => true
  | _ => false

/-- The destructor: `stop`, and the memory is given back. -/
def destroy (a : Acceptor) : Acceptor :=
  { a with home := .gone, listener := { a.listener with isOpen := false } }

def advance (a : Acceptor) (j : Nat) (p : Progress) : Option Acceptor :=
  ((Forward.acceptLoop a.message).step a.listener (.connection j p)).map
    fun l => { a with listener := l }

end Acceptor

/-- The handler that the io thread has taken out of its queue. -/
structure Handling where
  acceptor : Nat
  connection : Nat
  progress : Progress
  deriving DecidableEq, Repr

/-- `exit`: not called, behind `m_io_context.stop()`, behind the join, behind
`release_all_local_forward_ports`. -/
inductive ForwardServer.Exit
  | idle
  | stopped
  | joined
  | cleared
  deriving DecidableEq, Repr

/-- Acceptors by the order in which they were made. -/
structure ForwardServer where
  acceptors : List Acceptor
  handling : Option Handling
  exit : ForwardServer.Exit
  deriving DecidableEq, Repr

/-- `acquire_local_forward_port` in two steps, with the port that the system chose; the network; the io
thread, which takes a handler and runs it; the next step of `exit`. -/
inductive ForwardServer.Action
  | acquire (message : Bytes)
  | insert (i port : Nat)
  | release (port : Nat)
  | network (i j : Nat) (p : Progress)
  | dispatch (i j : Nat) (p : Progress)
  | handle
  | exit
  deriving DecidableEq, Repr

namespace ForwardServer

def initial : ForwardServer := ⟨[], none, .idle⟩

def erase (s : ForwardServer) (q : Acceptor → Bool) : ForwardServer :=
  { s with acceptors := s.acceptors.map fun a => if q a then a.destroy else a }

def advance (s : ForwardServer) (i j : Nat) (p : Progress) : Option ForwardServer :=
  (s.acceptors[i]?).bind fun a =>
    (a.advance j p).map fun a' => { s with acceptors := s.acceptors.set i a' }

/-- `m_acceptor_map[listen_port] = std::move(acceptor)` destroys what was there. -/
def insert (s : ForwardServer) (i port : Nat) : Option ForwardServer :=
  (s.acceptors[i]?).bind fun a =>
    if a.home = .call then
      let s := s.erase (·.isAt port)
      some { s with acceptors := s.acceptors.set i { a with home := .map port } }
    else none

/-- The connection whose handler has been taken waits for it. -/
def step (s : ForwardServer) : Action → Option ForwardServer
  | .acquire message => some { s with acceptors := s.acceptors ++ [.started message] }
  | .insert i port => s.insert i port
  | .release port => some (s.erase (·.isAt port))
  | .network i j p =>
    if p.isHandler = false ∧ s.handling.all (fun h => h.acceptor ≠ i ∨ h.connection ≠ j) then
      s.advance i j p
    else none
  | .dispatch i j p =>
    if s.exit = .idle ∧ s.handling = none ∧ p.isHandler = true ∧ (s.advance i j p).isSome then
      some { s with handling := some ⟨i, j, p⟩ }
    else none
  | .handle =>
    s.handling.bind fun h =>
      (s.advance h.acceptor h.connection h.progress).map ({ · with handling := none })
  | .exit =>
    match s.exit with
    | .idle => some { s with exit := .stopped }
    | .stopped => if s.handling = none then some { s with exit := .joined } else none
    | .joined => some { s.erase (·.inMap) with exit := .cleared }
    | .cleared => none

/-- The handler that runs next reads acceptor `i`. -/
def uses (s : ForwardServer) (i : Nat) : Bool :=
  s.handling.any fun h => h.acceptor = i &&
    ((s.acceptors[i]?).bind fun a => a.listener.connections[h.connection]?).any (·.touches h.progress)

def owned (s : ForwardServer) (i : Nat) : Bool := (s.acceptors[i]?).any (·.home ≠ .gone)

/-- No connection of acceptor `i` is being set up. -/
def idleAt (s : ForwardServer) (i : Nat) : Bool :=
  (s.acceptors[i]?).all fun a => a.listener.connections.all (·.settled)

/-- No handler that will read acceptor `i` is pending, or ever will be. -/
def Spared (s : ForwardServer) (i : Nat) : Prop :=
  s.uses i = false ∧ (s.exit ≠ .idle ∨ s.idleAt i = true)

instance (s : ForwardServer) (i : Nat) : Decidable (s.Spared i) :=
  inferInstanceAs (Decidable (_ ∧ _))

/-- The action destroys the acceptor. -/
def kills (s : ForwardServer) (a : Action) (i : Nat) : Bool :=
  match a with
  | .release port => (s.acceptors[i]?).any (·.isAt port)
  | .insert _ port => (s.acceptors[i]?).any (·.isAt port)
  | .exit => s.exit = .joined && (s.acceptors[i]?).any (·.inMap)
  | _ => false

/-- An acceptor is destroyed only when no handler will read it any more. -/
def Spares (s : ForwardServer) (a : Action) : Prop :=
  ∀ i < s.acceptors.length, s.kills a i = true → s.Spared i

instance (s : ForwardServer) (a : Action) : Decidable (s.Spares a) :=
  inferInstanceAs (Decidable (∀ _ < _, _))

end ForwardServer

/-! ### One connection -/

namespace Forward

variable {f f' : Forward} {p : Progress}

theorem settled_of_moves {op : Op UInt8} (h : f.Moves op f') : f.settled = false := by
  cases h with
  | fails hph =>
    rcases hph with hph | hph | ⟨b, rest, hph⟩ | hph
    all_goals rw [settled, hph]
  | accepted hph => rw [settled, hph]
  | connects hph => rw [settled, hph]
  | connected hph => rw [settled, hph]
  | writes hph => rw [settled, hph]
  | sends hph _ _ => rw [settled, hph]
  | reads hph => rw [settled, hph]
  | receives _ hph => rw [settled, hph]
  | refused hph => rw [settled, hph]
  | starts hph _ => rw [settled, hph]

theorem settled_step (hf : f.settled = true) (h : f.step p = some f') : f'.settled = true := by
  cases p with
  | handshake op =>
    rw [settled_of_moves (moves_of_stepHandshake h)] at hf
    cases hf
  | relay localRecv op =>
    obtain ⟨hph, session, -, rfl⟩ := relays_of_step h
    simp [settled, hph]

theorem touches_of_settled (hf : f.settled = true) : f.touches p = false := by
  cases hph : f.phase with
  | session => simp [touches, hph]
  | dropped => simp [touches, hph]
  | _ => simp [settled, hph] at hf

theorem accepting_of_settled (hf : f.settled = true) : f.accepting = false := by
  cases hph : f.phase with
  | session => simp [accepting, hph]
  | dropped => simp [accepting, hph]
  | _ => simp [settled, hph] at hf

theorem handlesAccept_isHandler (h : f.handlesAccept p = true) : p.isHandler = true := by
  have hp : f.phase = .accept true ∧ p = .handshake .run ∨
      f.phase = .accept false ∧ p = .handshake .error := by simpa [handlesAccept] using h
  obtain ⟨-, rfl⟩ | ⟨-, rfl⟩ := hp <;> rfl

end Forward

/-! ### One acceptor -/

namespace Acceptor

variable {a a' : Acceptor} {j : Nat} {p : Progress}

theorem advance_cases (h : a.advance j p = some a') :
    ∃ f f', a.listener.connections[j]? = some f ∧ f.step p = some f' ∧ a'.home = a.home ∧
      a'.message = a.message ∧
      (a'.listener.connections = a.listener.connections.set j f' ∨
        f.handlesAccept p = true ∧ a'.listener.connections =
          a.listener.connections.set j f' ++ [.initial a.message]) := by
  obtain ⟨l, hl, rfl⟩ := Option.map_eq_some_iff.mp h
  obtain ⟨f, f', hf, hst, rfl⟩ := Kind.step_connection _ hl
  refine ⟨f, f', hf, hst, rfl, rfl, ?_⟩
  split
  · next hh => exact .inr ⟨hh.1, by simp [Kind.doAccept, Forward.acceptLoop]⟩
  · exact .inl rfl

theorem all_settled_advance (ha : a.listener.connections.all (·.settled) = true)
    (h : a.advance j p = some a') : a'.listener.connections.all (·.settled) = true := by
  obtain ⟨f, f', hf, hst, -, -, hconn | ⟨hh, -⟩⟩ := advance_cases h
  · have hsettled : f.settled = true := List.all_eq_true.mp ha f (List.mem_of_getElem? hf)
    rw [hconn, List.all_eq_true]
    intro g hg
    rcases List.mem_or_eq_of_mem_set hg with hg | rfl
    · exact List.all_eq_true.mp ha g hg
    · exact Forward.settled_step hsettled hst
  · have hsettled : f.settled = true := List.all_eq_true.mp ha f (List.mem_of_getElem? hf)
    have haccepting := Forward.accepting_of_handlesAccept hh
    rw [Forward.accepting_of_settled hsettled] at haccepting
    cases haccepting

/-- The network moves one connection. -/
theorem getElem?_advance {k : Nat} (hp : p.isHandler = false) (hk : k ≠ j)
    (h : a.advance j p = some a') : a'.listener.connections[k]? = a.listener.connections[k]? := by
  obtain ⟨f, f', -, -, -, -, hconn | ⟨hh, -⟩⟩ := advance_cases h
  · rw [hconn, List.getElem?_set_ne (Ne.symm hk)]
  · rw [Forward.handlesAccept_isHandler hh] at hp
    cases hp

end Acceptor

/-! ### One step -/

namespace ForwardServer

variable {s t u : ForwardServer} {act : Action} {as : List Action} {i j : Nat} {p : Progress}
  {a a' : Acceptor}

/-- The steps of `step`. -/
inductive Effect (s : ForwardServer) : Action → ForwardServer → Prop
  | acquire (message : Bytes) :
      Effect s (.acquire message) { s with acceptors := s.acceptors ++ [.started message] }
  | insert (i port : Nat) (a : Acceptor) : s.acceptors[i]? = some a → a.home = .call →
      Effect s (.insert i port) { s.erase (·.isAt port) with
        acceptors := (s.erase (·.isAt port)).acceptors.set i { a with home := .map port } }
  | release (port : Nat) : Effect s (.release port) (s.erase (·.isAt port))
  | network (i j : Nat) (p : Progress) (a a' : Acceptor) : p.isHandler = false →
      s.handling.all (fun h => h.acceptor ≠ i ∨ h.connection ≠ j) = true →
      s.acceptors[i]? = some a → a.advance j p = some a' →
      Effect s (.network i j p) { s with acceptors := s.acceptors.set i a' }
  | dispatch (i j : Nat) (p : Progress) : s.exit = .idle → s.handling = none → p.isHandler = true →
      (s.advance i j p).isSome = true →
      Effect s (.dispatch i j p) { s with handling := some ⟨i, j, p⟩ }
  | handle (i j : Nat) (p : Progress) (a a' : Acceptor) : s.handling = some ⟨i, j, p⟩ →
      s.acceptors[i]? = some a → a.advance j p = some a' →
      Effect s .handle { s with acceptors := s.acceptors.set i a', handling := none }
  | stop : s.exit = .idle → Effect s .exit { s with exit := .stopped }
  | join : s.exit = .stopped → s.handling = none → Effect s .exit { s with exit := .joined }
  | clear : s.exit = .joined → Effect s .exit { s.erase (·.inMap) with exit := .cleared }

theorem advance_cases (h : s.advance i j p = some t) :
    ∃ a a', s.acceptors[i]? = some a ∧ a.advance j p = some a' ∧
      t = { s with acceptors := s.acceptors.set i a' } := by
  obtain ⟨a, ha, hmap⟩ := Option.bind_eq_some_iff.mp h
  obtain ⟨a', ha', rfl⟩ := Option.map_eq_some_iff.mp hmap
  exact ⟨a, a', ha, ha', rfl⟩

theorem effect_of_step (h : s.step act = some t) : Effect s act t := by
  cases act with
  | acquire message =>
    cases h
    exact .acquire message
  | insert i port =>
    obtain ⟨a, ha, hif⟩ := Option.bind_eq_some_iff.mp h
    simp only [Option.ite_none_right_eq_some, Option.some.injEq] at hif
    obtain ⟨hhome, rfl⟩ := hif
    exact .insert i port a ha hhome
  | release port =>
    cases h
    exact .release port
  | network i j p =>
    simp only [step, Option.ite_none_right_eq_some] at h
    obtain ⟨⟨hp, hall⟩, h⟩ := h
    obtain ⟨a, a', ha, hadv, rfl⟩ := advance_cases h
    exact .network i j p a a' hp hall ha hadv
  | dispatch i j p =>
    simp only [step, Option.ite_none_right_eq_some, Option.some.injEq] at h
    obtain ⟨⟨hexit, hnone, hp, hadv⟩, rfl⟩ := h
    exact .dispatch i j p hexit hnone hp hadv
  | handle =>
    obtain ⟨⟨i, j, p⟩, hh, hmap⟩ := Option.bind_eq_some_iff.mp h
    obtain ⟨u, hu, rfl⟩ := Option.map_eq_some_iff.mp hmap
    obtain ⟨a, a', ha, hadv, rfl⟩ := advance_cases hu
    exact .handle i j p a a' hh ha hadv
  | exit =>
    simp only [step] at h
    split at h
    · next hexit =>
      cases h
      exact .stop hexit
    · next hexit =>
      simp only [Option.ite_none_right_eq_some, Option.some.injEq] at h
      obtain ⟨hnone, rfl⟩ := h
      exact .join hexit hnone
    · next hexit =>
      cases h
      exact .clear hexit
    · cases h

/-! ### What a step does to one acceptor -/

inductive Moves (s : ForwardServer) (act : Action) (t : ForwardServer) (i : Nat) : Prop
  | same : t.acceptors[i]? = s.acceptors[i]? → Moves s act t i
  | started (message : Bytes) : s.acceptors[i]? = none →
      t.acceptors[i]? = some (.started message) → Moves s act t i
  | mapped (a : Acceptor) (port : Nat) : s.acceptors[i]? = some a → a.home = .call →
      t.acceptors[i]? = some { a with home := .map port } → Moves s act t i
  | killed (a : Acceptor) : s.acceptors[i]? = some a → s.kills act i = true →
      t.acceptors[i]? = some a.destroy → Moves s act t i
  | advanced (a a' : Acceptor) (j : Nat) (p : Progress) : s.acceptors[i]? = some a →
      a.advance j p = some a' → t.acceptors[i]? = some a' →
      (act = .network i j p ∧ p.isHandler = false ∧
          s.handling.all (fun h => h.acceptor ≠ i ∨ h.connection ≠ j) = true) ∨
        (act = .handle ∧ s.handling = some ⟨i, j, p⟩) → Moves s act t i

theorem getElem?_erase (s : ForwardServer) (q : Acceptor → Bool) (i : Nat) :
    (s.erase q).acceptors[i]? =
      (s.acceptors[i]?).map fun a => if q a then a.destroy else a :=
  List.getElem?_map ..

theorem moves_erase {q : Acceptor → Bool} (hkills : ∀ i, s.kills act i = (s.acceptors[i]?).any q)
    (ht : t.acceptors = (s.erase q).acceptors) : Moves s act t i := by
  have hget : t.acceptors[i]? = (s.acceptors[i]?).map fun a => if q a then a.destroy else a := by
    rw [ht, getElem?_erase]
  cases ha : s.acceptors[i]? with
  | none => exact .same (by rw [hget, ha]; rfl)
  | some a =>
    rw [ha, Option.map_some] at hget
    cases hq : q a with
    | true => exact .killed a ha (by rw [hkills, ha]; exact hq) (by rw [hget, if_pos hq])
    | false => exact .same (by rw [hget, ha, if_neg (by simp [hq])])

theorem getElem?_set_acceptor (ha : s.acceptors[i]? = some a) (k : Nat) :
    (s.acceptors.set i a')[k]? = if i = k then some a' else s.acceptors[k]? := by
  have hlt := (List.getElem?_eq_some_iff.mp ha).1
  rw [List.getElem?_set]
  split <;> rfl

/-- The acceptor is moved to its new state, the others stay. -/
theorem moves_set (ha : s.acceptors[j]? = some a) (ht : t.acceptors = s.acceptors.set j a') (i : Nat)
    (hmoves : i = j → t.acceptors[i]? = some a' → Moves s act t i) : Moves s act t i := by
  by_cases hji : j = i
  · exact hmoves hji.symm (by rw [ht, getElem?_set_acceptor ha, if_pos hji])
  · exact .same (by rw [ht, getElem?_set_acceptor ha, if_neg hji])

theorem moves_of_step (h : s.step act = some t) (i : Nat) : Moves s act t i := by
  cases effect_of_step h with
  | acquire message =>
    by_cases hi : i < s.acceptors.length
    · exact .same (List.getElem?_append_left hi)
    · have hle := Nat.le_of_not_lt hi
      by_cases heq : i = s.acceptors.length
      · subst heq
        exact .started message (List.getElem?_eq_none hle) List.getElem?_concat_length
      · refine .same ?_
        rw [List.getElem?_eq_none hle, List.getElem?_eq_none]
        rw [List.length_append, List.length_singleton]
        omega
  | insert k port a ha hhome =>
    have hk : (s.erase (·.isAt port)).acceptors[k]? = some a := by
      rw [getElem?_erase, ha]
      simp [Acceptor.isAt, hhome]
    by_cases hik : k = i
    · subst hik
      exact .mapped a port ha hhome (by rw [getElem?_set_acceptor hk, if_pos rfl])
    · have herase : Moves s (.insert k port) (s.erase (·.isAt port)) i :=
        moves_erase (fun _ => rfl) rfl
      cases herase with
      | same hsame => exact .same (by rw [getElem?_set_acceptor hk, if_neg hik, hsame])
      | killed b hb hkills hget =>
        exact .killed b hb hkills (by rw [getElem?_set_acceptor hk, if_neg hik, hget])
      | started message hnone hsome =>
        rw [getElem?_erase, hnone] at hsome
        cases hsome
      | mapped b port' hb hcall hget =>
        exact .mapped b port' hb hcall (by rw [getElem?_set_acceptor hk, if_neg hik, hget])
      | advanced b b' j p hb hadv hget hact => obtain ⟨hact, -⟩ | ⟨hact, -⟩ := hact <;> cases hact
  | release port => exact moves_erase (fun _ => rfl) rfl
  | network k j p a a' hp hall ha hadv =>
    refine moves_set ha rfl i fun hik hget => ?_
    subst hik
    exact .advanced a a' j p ha hadv hget (.inl ⟨rfl, hp, hall⟩)
  | handle k j p a a' hh ha hadv =>
    refine moves_set ha rfl i fun hik hget => ?_
    subst hik
    exact .advanced a a' j p ha hadv hget (.inr ⟨rfl, hh⟩)
  | dispatch | stop | join => exact .same rfl
  | clear hexit =>
    refine moves_erase (q := (·.inMap)) (fun k => ?_) rfl
    simp [kills, hexit]

/-- What a step does to the io thread, and that `exit` does not go back. -/
theorem thread_step (h : s.step act = some t) :
    ((act = .handle ∧ t.handling = none) ∨ (t.handling = s.handling ∧ act ≠ .handle) ∨
      ∃ k j p, act = .dispatch k j p ∧ s.exit = .idle ∧
        t = { s with handling := some ⟨k, j, p⟩ }) ∧
      (s.exit ≠ .idle → t.exit ≠ .idle) := by
  cases effect_of_step h with
  | acquire | insert | release | network => exact ⟨.inr (.inl ⟨rfl, by simp⟩), id⟩
  | dispatch k j p hidle => exact ⟨.inr (.inr ⟨k, j, p, rfl, hidle, rfl⟩), id⟩
  | handle => exact ⟨.inl ⟨rfl, rfl⟩, id⟩
  | stop | join | clear => exact ⟨.inr (.inl ⟨rfl, by simp⟩), by simp⟩

theorem handling_step (h : s.step act = some t) :
    (act = .handle ∧ t.handling = none) ∨ (t.handling = s.handling ∧ act ≠ .handle) ∨
      ∃ k j p, act = .dispatch k j p ∧ s.exit = .idle ∧
        t = { s with handling := some ⟨k, j, p⟩ } :=
  (thread_step h).1

theorem exit_step (hs : s.exit ≠ .idle) (h : s.step act = some t) : t.exit ≠ .idle :=
  (thread_step h).2 hs

/-! ### Destroyed acceptors -/

theorem uses_of_handling (ha : s.acceptors[i]? = some a) (hh : s.handling = some ⟨i, j, p⟩) :
    s.uses i = (a.listener.connections[j]?).any (·.touches p) := by
  simp [uses, hh, ha]

theorem uses_eq_false (hh : ∀ j p, s.handling ≠ some ⟨i, j, p⟩) : s.uses i = false := by
  unfold uses
  cases hs : s.handling with
  | none => rfl
  | some h =>
    have hne : h.acceptor ≠ i := by
      rintro rfl
      exact hh h.connection h.progress hs
    simp [hne]

theorem idleAt_iff (ha : s.acceptors[i]? = some a) :
    s.idleAt i = true ↔ a.listener.connections.all (·.settled) = true := by
  simp [idleAt, ha]

theorem touches_of_all_settled (ha : a.listener.connections.all (·.settled) = true) :
    (a.listener.connections[j]?).any (·.touches p) = false := by
  cases hf : a.listener.connections[j]? with
  | none => rfl
  | some f =>
    have hsettled := List.all_eq_true.mp ha f (List.mem_of_getElem? hf)
    exact Forward.touches_of_settled hsettled

theorem home_of_kills (ha : s.acceptors[i]? = some a) (hk : s.kills act i = true) :
    ∃ port, a.home = .map port := by
  cases act with
  | release port =>
    have hat : a.home = .map port := by simpa [kills, ha, Acceptor.isAt] using hk
    exact ⟨port, hat⟩
  | insert k port =>
    have hat : a.home = .map port := by simpa [kills, ha, Acceptor.isAt] using hk
    exact ⟨port, hat⟩
  | exit =>
    have hin : s.exit = .joined ∧ a.inMap = true := by simpa [kills, ha] using hk
    cases hhome : a.home with
    | map port => exact ⟨port, rfl⟩
    | call => simp [Acceptor.inMap, hhome] at hin
    | gone => simp [Acceptor.inMap, hhome] at hin
  | _ => simp [kills] at hk

/-- A destroyed acceptor keeps its connections but for those that go on by themselves. -/
theorem gone_step (ha : s.acceptors[i]? = some a)
    (hgone : a.home = .gone ∨ s.kills act i = true) (h : s.step act = some t) :
    ∃ a', t.acceptors[i]? = some a' ∧ (a.home = .gone → a'.home = .gone) ∧
      (a'.listener.connections = a.listener.connections ∨
        ∃ j p, a.advance j p = some a' ∧ a.home = .gone ∧ (act = .handle ∨ p.isHandler = false ∧
          s.handling.all (fun h => h.acceptor ≠ i ∨ h.connection ≠ j) = true)) := by
  cases moves_of_step h i with
  | same hsame => exact ⟨a, hsame.trans ha, id, .inl rfl⟩
  | started message hnone _ => simp [ha] at hnone
  | mapped b port hb hcall hget =>
    obtain rfl : a = b := Option.some.inj (ha.symm.trans hb)
    rcases hgone with hgone | hkills
    · rw [hcall] at hgone
      cases hgone
    · obtain ⟨port', hmap⟩ := home_of_kills ha hkills
      rw [hcall] at hmap
      cases hmap
  | killed b hb _ hget =>
    obtain rfl : a = b := Option.some.inj (ha.symm.trans hb)
    exact ⟨_, hget, fun _ => rfl, .inl rfl⟩
  | advanced b b' j p hb hadv hget hact =>
    obtain rfl : a = b := Option.some.inj (ha.symm.trans hb)
    obtain ⟨f, f', -, -, hhome, -, -⟩ := Acceptor.advance_cases hadv
    obtain ⟨rfl, hp, hall⟩ | ⟨rfl, -⟩ := hact
    · have hgone : a.home = .gone := by simpa [kills] using hgone
      exact ⟨_, hget, fun _ => hhome.trans hgone, .inr ⟨j, p, hadv, hgone, .inr ⟨hp, hall⟩⟩⟩
    · have hgone : a.home = .gone := by simpa [kills] using hgone
      exact ⟨_, hget, fun _ => hhome.trans hgone, .inr ⟨j, p, hadv, hgone, .inl rfl⟩⟩

/-- Once a destroyed acceptor is out of use it stays out of use. -/
theorem spared_step (ha : s.acceptors[i]? = some a)
    (hgone : a.home = .gone ∨ s.kills act i = true) (hs : s.Spared i) (h : s.step act = some t) :
    t.Spared i := by
  obtain ⟨a', ha', -, hconn⟩ := gone_step ha hgone h
  obtain ⟨huses, hidle⟩ := hs
  constructor
  · by_cases hh : ∃ j p, t.handling = some ⟨i, j, p⟩
    · obtain ⟨j, p, hh⟩ := hh
      rw [uses_of_handling ha' hh]
      rcases handling_step h with ⟨-, hnone⟩ | ⟨hsame, hact⟩ | ⟨k, j', p', -, hex, rfl⟩
      · rw [hnone] at hh
        cases hh
      · rw [hsame] at hh
        rw [uses_of_handling ha hh] at huses
        rcases hconn with hconn | ⟨j', p', hadv, -, hhandle | ⟨hp, hall⟩⟩
        · rw [hconn]
          exact huses
        · exact absurd hhandle hact
        · have hne : j ≠ j' := by simpa [hh] using hall
          rw [Acceptor.getElem?_advance hp hne hadv]
          exact huses
      · obtain rfl : a = a' := Option.some.inj (ha.symm.trans ha')
        have hall := (idleAt_iff ha).mp (hidle.resolve_left fun hne => hne hex)
        exact touches_of_all_settled hall
    · exact uses_eq_false fun j p hp => hh ⟨j, p, hp⟩
  · by_cases hex : s.exit = .idle
    · have hall := (idleAt_iff ha).mp (hidle.resolve_left fun hne => hne hex)
      refine .inr ((idleAt_iff ha').mpr ?_)
      rcases hconn with hconn | ⟨j, p, hadv, -, -⟩
      · rw [hconn]
        exact hall
      · exact Acceptor.all_settled_advance hall hadv
    · exact .inl (exit_step hex h)

/-- The steps that destroy an acceptor are those that say so. -/
theorem kills_of_gone (h : s.step act = some t) (ha : s.acceptors[i]? = some a)
    (hhome : a.home ≠ .gone) (ha' : t.acceptors[i]? = some a') (hgone : a'.home = .gone) :
    s.kills act i = true := by
  cases moves_of_step h i with
  | same hsame =>
    obtain rfl : a = a' := Option.some.inj (ha.symm.trans (hsame.symm.trans ha'))
    exact absurd hgone hhome
  | started message hnone _ => simp [ha] at hnone
  | mapped b port _ _ hget =>
    obtain rfl := Option.some.inj (hget.symm.trans ha')
    cases hgone
  | killed b _ hkills _ => exact hkills
  | advanced b b' j p hb hadv hget _ =>
    obtain rfl : a = b := Option.some.inj (ha.symm.trans hb)
    obtain rfl : b' = a' := Option.some.inj (hget.symm.trans ha')
    obtain ⟨f, f', -, -, hsame, -, -⟩ := Acceptor.advance_cases hadv
    exact absurd (hsame.symm.trans hgone) hhome

/-- Every acceptor that has been destroyed is out of use. -/
def Sound (s : ForwardServer) : Prop :=
  ∀ i a, s.acceptors[i]? = some a → a.home = .gone → s.Spared i

theorem sound_step (hs : s.Sound) (hg : s.Spares act) (h : s.step act = some t) : t.Sound := by
  intro i a' ha' hgone
  cases ha : s.acceptors[i]? with
  | none =>
    cases moves_of_step h i with
    | same hsame => simp [hsame, ha] at ha'
    | started message _ hget =>
      obtain rfl := Option.some.inj (hget.symm.trans ha')
      cases hgone
    | mapped b port hb _ _ => simp [ha] at hb
    | killed b hb _ _ => simp [ha] at hb
    | advanced b b' j p hb _ _ _ => simp [ha] at hb
  | some a =>
    by_cases hhome : a.home = .gone
    · exact spared_step ha (.inl hhome) (hs i a ha hhome) h
    · have hkills := kills_of_gone h ha hhome ha' hgone
      have hlt := (List.getElem?_eq_some_iff.mp ha).1
      exact spared_step ha (.inr hkills) (hg i hlt hkills) h

theorem sound_of_run (h : Run step Spares initial as s) : s.Sound := by
  refine h.invariant Sound (fun _ _ _ hs hg hst => sound_step hs hg hst) ?_
  intro i a ha
  simp [initial] at ha

theorem owned_of_uses (hs : s.Sound) (hu : s.uses i = true) : s.owned i = true := by
  unfold owned
  cases ha : s.acceptors[i]? with
  | none =>
    cases hh : s.handling with
    | none => simp [uses, hh] at hu
    | some h => simp [uses, hh, ha] at hu
  | some a =>
    by_cases hgone : a.home = .gone
    · rw [(hs i a ha hgone).1] at hu
      cases hu
    · simp [hgone]

/-! ### A handler that is left behind -/

def connection (s : ForwardServer) (i j : Nat) : Option Forward :=
  (s.acceptors[i]?).bind fun a => a.listener.connections[j]?

theorem connection_of (ha : s.acceptors[i]? = some a) :
    s.connection i j = a.listener.connections[j]? := by
  simp [connection, ha]

/-- A handler can run on a connection, whoever owns the acceptor. -/
theorem exists_advance {f f' : Forward} (ha : s.acceptors[i]? = some a)
    (hf : a.listener.connections[j]? = some f) (hst : f.step p = some f') :
    ∃ a', a.advance j p = some a' ∧
      s.advance i j p = some { s with acceptors := s.acceptors.set i a' } := by
  have hadv : (a.advance j p).isSome = true := by
    simp [Acceptor.advance, Kind.step, Forward.acceptLoop, hf, hst]
  obtain ⟨a', ha'⟩ := Option.isSome_iff_exists.mp hadv
  exact ⟨a', ha', by simp [advance, ha, ha']⟩

/-- The handler that has been taken can run. -/
def Ready (s : ForwardServer) : Prop :=
  ∀ i j p, s.handling = some ⟨i, j, p⟩ →
    p.isHandler = true ∧ ∃ f f', s.connection i j = some f ∧ f.step p = some f'

theorem connection_advance {k : Nat} (h : a.advance j p = some a') (hne : k ≠ j)
    (hlt : k < a.listener.connections.length) :
    a'.listener.connections[k]? = a.listener.connections[k]? := by
  obtain ⟨f, f', -, -, -, -, hconn | ⟨-, hconn⟩⟩ := Acceptor.advance_cases h
  · rw [hconn, List.getElem?_set_ne (Ne.symm hne)]
  · rw [hconn, List.getElem?_append_left (by rwa [List.length_set]),
      List.getElem?_set_ne (Ne.symm hne)]

theorem connection_advance_self {f f' : Forward} (h : a.advance j p = some a')
    (hf : a.listener.connections[j]? = some f) (hst : f.step p = some f') :
    a'.listener.connections[j]? = some f' := by
  have hlt := (List.getElem?_eq_some_iff.mp hf).1
  obtain ⟨g, g', hg, hst', -, -, hconn | ⟨-, hconn⟩⟩ := Acceptor.advance_cases h
  · obtain rfl : f = g := Option.some.inj (hf.symm.trans hg)
    obtain rfl : f' = g' := Option.some.inj (hst.symm.trans hst')
    rw [hconn, List.getElem?_set_self hlt]
  · obtain rfl : f = g := Option.some.inj (hf.symm.trans hg)
    obtain rfl : f' = g' := Option.some.inj (hst.symm.trans hst')
    rw [hconn, List.getElem?_append_left (by rwa [List.length_set]), List.getElem?_set_self hlt]

/-- A step moves a connection only when it is about that connection. -/
theorem connection_step {f : Forward} (hf : s.connection i j = some f) (h : s.step act = some t) :
    t.connection i j = some f ∨ ∃ p f', f.step p = some f' ∧ t.connection i j = some f' ∧
      (act = .network i j p ∨ act = .handle ∧ s.handling = some ⟨i, j, p⟩) := by
  obtain ⟨a, ha, hconn⟩ := Option.bind_eq_some_iff.mp hf
  cases moves_of_step h i with
  | same hsame => exact .inl (by rw [connection_of (hsame.trans ha), hconn])
  | started message hnone _ => simp [ha] at hnone
  | mapped b port hb _ hget =>
    obtain rfl : a = b := Option.some.inj (ha.symm.trans hb)
    exact .inl (by rw [connection_of hget, hconn])
  | killed b hb _ hget =>
    obtain rfl : a = b := Option.some.inj (ha.symm.trans hb)
    exact .inl (by rw [connection_of hget, Acceptor.destroy, hconn])
  | advanced b b' k p hb hadv hget hact =>
    obtain rfl : a = b := Option.some.inj (ha.symm.trans hb)
    have hlt := (List.getElem?_eq_some_iff.mp hconn).1
    by_cases hjk : j = k
    · subst hjk
      obtain ⟨g, g', hg, hst, -, -, -⟩ := Acceptor.advance_cases hadv
      obtain rfl : f = g := Option.some.inj (hconn.symm.trans hg)
      refine .inr ⟨p, g', hst, ?_, hact.imp And.left id⟩
      rw [connection_of hget, connection_advance_self hadv hconn hst]
    · exact .inl (by rw [connection_of hget, connection_advance hadv hjk hlt, hconn])

theorem ready_step (hs : s.Ready) (h : s.step act = some t) : t.Ready := by
  intro i j p hh
  rcases handling_step h with ⟨-, hnone⟩ | ⟨hsame, hact⟩ | ⟨k, j', p', rfl, -, rfl⟩
  · rw [hnone] at hh
    cases hh
  · rw [hsame] at hh
    obtain ⟨hp, f, f', hf, hst⟩ := hs i j p hh
    rcases connection_step hf h with hkeep | ⟨p', g, -, -, rfl | ⟨hhandle, -⟩⟩
    · exact ⟨hp, f, f', hkeep, hst⟩
    · cases effect_of_step h with
      | network _ _ _ _ _ _ hall => simp [hh] at hall
    · exact absurd hhandle hact
  · cases hh
    cases effect_of_step h with
    | dispatch _ _ _ _ _ hp hadv =>
      obtain ⟨u, hu⟩ := Option.isSome_iff_exists.mp hadv
      obtain ⟨a, a', ha, ha', -⟩ := advance_cases hu
      obtain ⟨f, f', hf, hst, -⟩ := Acceptor.advance_cases ha'
      exact ⟨hp, f, f', (connection_of ha).trans hf, hst⟩

theorem ready_of_run (h : Run step Free initial as s) : s.Ready :=
  h.invariant Ready (fun _ _ _ hs _ hst => ready_step hs hst) fun _ _ _ hh => by cases hh

end ForwardServer

namespace Forward

variable {f f' : Forward} {p : Progress}

theorem exists_touch_of_moves {op : Op UInt8} (h : f.Moves op f')
    (hp : (Progress.handshake op).isHandler = true) (ht : f.touches (.handshake op) = true) :
    ∃ p, p.isHandler = true ∧ f.touches p = true ∧ (f.step p).isSome = true := by
  refine ⟨.handshake op, hp, ht, ?_⟩
  rw [step_of_moves h]
  rfl

/-- While a connection is being set up a handler can run that reads the acceptor, or the write has
succeeded and the next handler will be one. -/
theorem exists_touch (hf : f.settled = false) :
    (∃ p, p.isHandler = true ∧ f.touches p = true ∧ (f.step p).isSome = true) ∨
      f.phase = .write [] := by
  cases hph : f.phase with
  | accept ready =>
    cases ready with
    | true => exact .inl (exists_touch_of_moves (.connects hph) rfl (by simp [touches, hph]))
    | false => exact .inl (exists_touch_of_moves (.fails (.inl hph)) rfl (by simp [touches, hph]))
  | connect ready =>
    cases ready with
    | true => exact .inl (exists_touch_of_moves (.writes hph) rfl (by simp [touches, hph]))
    | false =>
      exact .inl (exists_touch_of_moves (.fails (.inr (.inl hph))) rfl (by simp [touches, hph]))
  | write rest =>
    cases rest with
    | nil => exact .inr rfl
    | cons b rest =>
      have hfail : f.Moves .error (f.enter .dropped) := .fails (.inr (.inr (.inl ⟨b, rest, hph⟩)))
      exact .inl (exists_touch_of_moves hfail rfl (by simp [touches, hph]))
  | readResult result =>
    refine .inl ?_
    cases result with
    | none =>
      have hfail : f.Moves .error (f.enter .dropped) := .fails (.inr (.inr (.inr hph)))
      exact exists_touch_of_moves hfail rfl (by simp [touches, hph])
    | some result =>
      by_cases hzero : result = 0
      · subst hzero
        exact exists_touch_of_moves (.refused hph) rfl (by simp [touches, hph])
      · exact exists_touch_of_moves (.starts hph hzero) rfl (by simp [touches, hph])
  | session => simp [settled, hph] at hf
  | dropped => simp [settled, hph] at hf

/-- Only the handler of a write reads nothing, and the read of the result is still to come then. -/
theorem unsettled_step (hf : f.settled = false) (hp : p.isHandler = true) (ht : f.touches p = false)
    (h : f.step p = some f') : f'.settled = false := by
  cases p with
  | relay localRecv op =>
    obtain ⟨hph, -⟩ := relays_of_step h
    simp [settled, hph] at hf
  | handshake op =>
    cases moves_of_stepHandshake h with
    | reads hph => rfl
    | fails hph =>
      rcases hph with hph | hph | ⟨b, rest, hph⟩ | hph <;> simp [touches, hph] at ht
    | connects hph => simp [touches, hph] at ht
    | writes hph => simp [touches, hph] at ht
    | refused hph => simp [touches, hph] at ht
    | starts hph _ => simp [touches, hph] at ht
    | accepted hph => cases hp
    | connected hph => cases hp
    | sends hph _ _ => cases hp
    | receives _ hph => cases hp

end Forward

namespace ForwardServer

variable {s t u : ForwardServer} {act : Action} {as : List Action} {i j : Nat} {p : Progress}
  {a a' : Acceptor}

/-- Acceptor `i` has been destroyed with connection `j` still being set up, and the io thread goes on. -/
structure Left (s : ForwardServer) (i j : Nat) : Prop where
  gone : ∃ a, s.acceptors[i]? = some a ∧ a.home = .gone
  setup : ∃ f, s.connection i j = some f ∧ f.settled = false
  exit : s.exit = .idle

/-- A handler reads the destroyed acceptor. -/
def Dangles (s : ForwardServer) (i : Nat) : Prop :=
  ∃ as t, Run step Free s as t ∧ t.uses i = true ∧ t.owned i = false

theorem dangles_of_uses (hgone : ∃ a, s.acceptors[i]? = some a ∧ a.home = .gone)
    (hu : s.uses i = true) : s.Dangles i := by
  obtain ⟨a, ha, hhome⟩ := hgone
  exact ⟨[], s, .nil _, hu, by simp [owned, ha, hhome]⟩

theorem Dangles.behind (hst : s.step act = some t) (h : t.Dangles i) : s.Dangles i := by
  obtain ⟨as, u, hrun, hu⟩ := h
  exact ⟨act :: as, u, .cons trivial hst hrun, hu⟩

theorem dispatch_step {f f' : Forward} (hidle : s.exit = .idle) (hfree : s.handling = none)
    (hp : p.isHandler = true) (hf : s.connection i j = some f) (hst : f.step p = some f') :
    s.step (.dispatch i j p) = some { s with handling := some ⟨i, j, p⟩ } := by
  obtain ⟨a, ha, hconn⟩ := Option.bind_eq_some_iff.mp hf
  obtain ⟨a', -, hadv⟩ := exists_advance ha hconn hst
  simp [step, hidle, hfree, hp, hadv]

theorem dangles_of_touch {f f' : Forward} (hs : s.Left i j) (hfree : s.handling = none)
    (hf : s.connection i j = some f) (hp : p.isHandler = true) (ht : f.touches p = true)
    (hst : f.step p = some f') : s.Dangles i := by
  refine Dangles.behind (dispatch_step hs.exit hfree hp hf hst) (dangles_of_uses hs.gone ?_)
  obtain ⟨a, ha, hconn⟩ := Option.bind_eq_some_iff.mp hf
  have huses := uses_of_handling (s := { s with handling := some ⟨i, j, p⟩ }) ha rfl
  rw [huses, hconn]
  exact ht

theorem handle_step {f f' : Forward} (hh : s.handling = some ⟨i, j, p⟩)
    (hf : s.connection i j = some f) (hst : f.step p = some f') :
    ∃ t, s.step .handle = some t ∧ t.handling = none ∧ t.exit = s.exit ∧
      t.connection i j = some f' := by
  obtain ⟨a, ha, hconn⟩ := Option.bind_eq_some_iff.mp hf
  obtain ⟨a', ha', hadv⟩ := exists_advance ha hconn hst
  have hstep : s.step .handle =
      some { s with acceptors := s.acceptors.set i a', handling := none } := by
    simp [step, hh, hadv]
  have hget : (s.acceptors.set i a')[i]? = some a' := by
    rw [getElem?_set_acceptor ha, if_pos rfl]
  refine ⟨_, hstep, rfl, rfl, ?_⟩
  rw [connection_of hget, connection_advance_self ha' hconn hst]

/-- The handler that has been taken runs, and does not read acceptor `i`: the connection is still
being set up. -/
theorem Left.handled (hs : s.Left i j) (hready : s.Ready) (huses : s.uses i = false)
    (hst : s.step .handle = some t) (hexit : t.exit = s.exit) : t.Left i j := by
  obtain ⟨⟨a, ha, hgone⟩, ⟨f, hf, hsetup⟩, hidle⟩ := hs
  obtain ⟨a', ha', hhome, -⟩ := gone_step ha (.inl hgone) hst
  refine ⟨⟨a', ha', hhome hgone⟩, ?_, hexit.trans hidle⟩
  rcases connection_step hf hst with hkeep | ⟨p, f', hstep, hmoved, hnet | ⟨-, hh⟩⟩
  · exact ⟨f, hkeep, hsetup⟩
  · cases hnet
  · have hconn : a.listener.connections[j]? = some f := by rw [← connection_of ha, hf]
    have htouch : f.touches p = false := by
      rw [uses_of_handling ha hh, hconn] at huses
      exact huses
    exact ⟨f', hmoved, Forward.unsettled_step hsetup (hready i j p hh).1 htouch hstep⟩

theorem dangles_of_free (hs : s.Left i j) (hready : s.Ready) (hfree : s.handling = none) :
    s.Dangles i := by
  obtain ⟨f, hf, hsetup⟩ := hs.setup
  rcases Forward.exists_touch hsetup with ⟨p, hp, ht, hst⟩ | hph
  · obtain ⟨f', hf'⟩ := Option.isSome_iff_exists.mp hst
    exact dangles_of_touch hs hfree hf hp ht hf'
  · -- the write has succeeded: its handler runs, and that of the read of the result is next
    have hwrite : f.step (.handshake .run) = some (f.enter (.readResult none)) :=
      Forward.step_of_moves (.reads hph)
    have htake := dispatch_step hs.exit hfree rfl hf hwrite
    refine Dangles.behind htake ?_
    have hleft : Left { s with handling := some ⟨i, j, .handshake .run⟩ } i j :=
      ⟨hs.gone, hs.setup, hs.exit⟩
    have hready' := ready_step hready htake
    obtain ⟨t, ht, hnone, hexit, hg⟩ :=
      handle_step (s := { s with handling := some ⟨i, j, .handshake .run⟩ }) rfl hf hwrite
    have huses : uses { s with handling := some ⟨i, j, .handshake .run⟩ } i = false := by
      obtain ⟨a, ha, hconn⟩ := Option.bind_eq_some_iff.mp hf
      have heq := uses_of_handling
        (s := { s with handling := some ⟨i, j, .handshake .run⟩ }) ha rfl
      rw [heq, hconn]
      simp [Forward.touches, hph]
    have hleft' := hleft.handled hready' huses ht hexit
    refine Dangles.behind ht ?_
    exact dangles_of_touch hleft' hnone hg (p := .handshake .error) rfl rfl rfl

/-- As long as the io thread goes on, a connection that has been left behind is fatal. -/
theorem dangles_of_left (hs : s.Left i j) (hready : s.Ready) (huses : s.uses i = false) :
    s.Dangles i := by
  cases hh : s.handling with
  | none => exact dangles_of_free hs hready hh
  | some h =>
    obtain ⟨k, j', p⟩ := h
    obtain ⟨-, f, f', hf, hst⟩ := hready k j' p hh
    obtain ⟨t, ht, hnone, hexit, -⟩ := handle_step hh hf hst
    exact Dangles.behind ht
      (dangles_of_free (hs.handled hready huses ht hexit) (ready_step hready ht) hnone)

theorem killed_step (hk : s.kills act i = true) (h : s.step act = some t)
    (ha : s.acceptors[i]? = some a) :
    t.acceptors[i]? = some a.destroy ∧ t.handling = s.handling ∧
      (s.exit = .idle → t.exit = .idle) := by
  obtain ⟨port, hhome⟩ := home_of_kills ha hk
  cases effect_of_step h with
  | release port' =>
    have hat : a.isAt port' = true := by simpa [kills, ha] using hk
    refine ⟨?_, rfl, id⟩
    rw [getElem?_erase, ha, Option.map_some, if_pos hat]
  | insert k port' b hb hcall =>
    have hat : a.isAt port' = true := by simpa [kills, ha] using hk
    have hne : k ≠ i := by
      rintro rfl
      obtain rfl : a = b := Option.some.inj (ha.symm.trans hb)
      rw [hcall] at hhome
      cases hhome
    refine ⟨?_, rfl, id⟩
    rw [List.getElem?_set_ne hne, getElem?_erase, ha, Option.map_some, if_pos hat]
  | clear hexit =>
    have hin : a.inMap = true := by simpa [kills, ha, hexit] using hk
    refine ⟨?_, rfl, fun hidle => by simp [hexit] at hidle⟩
    show (s.erase (·.inMap)).acceptors[i]? = _
    rw [getElem?_erase, ha, Option.map_some, if_pos hin]
  | stop hexit => simp [kills, hexit] at hk
  | join hexit => simp [kills, hexit] at hk
  | _ => simp [kills] at hk

/-- An acceptor that is destroyed while it is in use is read behind its destruction. -/
theorem dangles_of_killed (hready : s.Ready) (hk : s.kills act i = true)
    (h : s.step act = some t) (ha : s.acceptors[i]? = some a) (hnot : ¬ s.Spared i) :
    t.Dangles i := by
  obtain ⟨hget, hhandling, hexit⟩ := killed_step hk h ha
  have hgone : ∃ a, t.acceptors[i]? = some a ∧ a.home = .gone := ⟨a.destroy, hget, rfl⟩
  have huses : t.uses i = s.uses i := by
    unfold uses
    rw [hhandling, hget, ha]
    rfl
  by_cases hu : s.uses i = true
  · exact dangles_of_uses hgone (huses.trans hu)
  · have hfalse : s.uses i = false := by simpa using hu
    have hidle : s.exit = .idle := by
      by_contra hne
      exact hnot ⟨hfalse, .inl hne⟩
    have hsome : ∃ (j : Nat) (f : Forward), a.listener.connections[j]? = some f ∧ f.settled = false := by
      by_contra hnone
      refine hnot ⟨hfalse, .inr ((idleAt_iff ha).mpr (List.all_eq_true.mpr fun f hf => ?_))⟩
      obtain ⟨j, hj⟩ := List.mem_iff_getElem?.mp hf
      by_contra hsettled
      exact hnone ⟨j, f, hj, by simpa using hsettled⟩
    obtain ⟨j, f, hj, hsetup⟩ := hsome
    have hleft : t.Left i j := ⟨hgone, ⟨f, (connection_of hget).trans hj, hsetup⟩, hexit hidle⟩
    exact dangles_of_left hleft (ready_step hready h) (huses.trans hfalse)

theorem not_dangles_of_spared (hgone : ∃ a, s.acceptors[i]? = some a ∧ a.home = .gone)
    (hs : s.Spared i) : ¬ s.Dangles i := by
  rintro ⟨as, t, hrun, hu, -⟩
  have hkept : (∃ a, t.acceptors[i]? = some a ∧ a.home = .gone) ∧ t.Spared i := by
    refine hrun.invariant (fun t => (∃ a, t.acceptors[i]? = some a ∧ a.home = .gone) ∧ t.Spared i)
      ?_ ⟨hgone, hs⟩
    rintro s act t ⟨⟨a, ha, hhome⟩, hspared⟩ - hst
    obtain ⟨a', ha', hhome', -⟩ := gone_step ha (.inl hhome) hst
    exact ⟨⟨a', ha', hhome' hhome⟩, spared_step ha (.inl hhome) hspared hst⟩
  rw [hkept.2.1] at hu
  cases hu

/-- In a run whose steps destroy an acceptor only when it is out of use, every handler that reads an
acceptor finds it owned; any other destruction has a run behind it in which one does not. -/
theorem acceptors_outlive_handlers (as : List Action) (s : ForwardServer) (i : Nat) :
    (Run step Spares initial as s → s.uses i = true → s.owned i = true) ∧
    (∀ act t, Run step Free initial as s → s.step act = some t →
      i < s.acceptors.length → s.kills act i = true → (¬ t.Dangles i ↔ s.Spared i)) := by
  refine ⟨fun h hu => owned_of_uses (sound_of_run h) hu, fun act t h hst hi hk => ?_⟩
  have ha := List.getElem?_eq_getElem hi
  constructor
  · intro hsafe
    by_contra hnot
    exact hsafe (dangles_of_killed (ready_of_run h) hk hst ha hnot)
  · intro hspared
    exact not_dangles_of_spared ⟨_, (killed_step hk hst ha).1, rfl⟩
      (spared_step ha (.inr hk) hspared hst)

/-- A port is released when its accept has failed and its handler has run, and acquired again: the
handler of the next accept reads the new acceptor. -/
theorem acceptors_outlive_handlers_example : ∃ as s, Run step Spares initial as s ∧
    s.owned 0 = false ∧ s.uses 1 = true ∧ s.owned 1 = true := by
  have hrun := run_exec step Spares initial
    [.acquire [], .insert 0 4000, .dispatch 0 0 (.handshake .error), .handle, .release 4000,
      .acquire [], .insert 1 4000, .network 1 0 (.handshake .ready),
      .dispatch 1 0 (.handshake .run)] (by decide)
  exact ⟨_, _, hrun, by decide, by decide,
    (acceptors_outlive_handlers _ _ 1).1 hrun (by decide)⟩

/-- The port is released while its accept is outstanding: the handler that is aborted reads
`m_running` of the acceptor that is gone. -/
theorem released_too_soon :
    ¬ ∀ as s, Run step Free initial as s → ∀ i, s.uses i = true → s.owned i = true := by
  intro h
  have hrun := run_exec step Free initial
    [.acquire [], .insert 0 4000, .release 4000, .dispatch 0 0 (.handshake .error)] (by decide)
  exact absurd (h _ _ hrun 0 (by decide)) (by decide)

end ForwardServer

end NetworkUtility.Tcp
