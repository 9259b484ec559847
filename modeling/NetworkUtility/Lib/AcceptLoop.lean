import NetworkUtility.Lib.Index
import NetworkUtility.Lib.Machine

/-! An accept loop over connections of any kind. A connection begins at its accept, and the handler of
the accept may arm the next one. -/
namespace NetworkUtility.AcceptLoop

open Machine

/-- How a connection goes on. It is `accepting` until the handler of its accept has run, and its
accept is `outstanding` until it has completed; `handles` says that a step runs the handler, and
`rearms` that the handler then ends in the next accept. With `unchecked` the next accept is armed even
on an acceptor that is closed. -/
structure Kind (κ π : Type) where
  initial : κ
  next : κ → π → Option κ
  accepting : κ → Bool
  outstanding : κ → Bool
  handles : κ → π → Bool
  rearms : π → Bool
  unchecked : Bool
  outstanding_initial : outstanding initial = true
  accepting_of_outstanding : ∀ c, outstanding c = true → accepting c = true
  accepting_of_handles : ∀ c p, handles c p = true → accepting c = true
  accepting_next : ∀ c p c', next c p = some c' → accepting c' = (accepting c && !handles c p)

/-- Connections in the order of their accepts. -/
structure Listener (κ : Type) where
  isOpen : Bool
  connections : List κ
  deriving DecidableEq, Repr

inductive Action (π : Type)
  | connection (i : Nat) (p : π)
  | close
  deriving DecidableEq, Repr

variable {κ π : Type} (kind : Kind κ π) {l l' : Listener κ} {i : Nat} {p : π} {a : Action π}
  {as : List (Action π)} {c : κ}

namespace Kind

def doAccept (l : Listener κ) : Listener κ :=
  if l.isOpen ∨ kind.unchecked then { l with connections := l.connections ++ [kind.initial] } else l

def start : Listener κ := kind.doAccept ⟨true, []⟩

def step (l : Listener κ) : Action π → Option (Listener κ)
  | .connection i p =>
    (l.connections[i]?).bind fun c => (kind.next c p).map fun c' =>
      let l' := { l with connections := l.connections.set i c' }
      if kind.handles c p ∧ kind.rearms p then kind.doAccept l' else l'
  | .close => some { l with isOpen := false }

theorem isOpen_doAccept (l : Listener κ) : (kind.doAccept l).isOpen = l.isOpen := by
  unfold doAccept
  split <;> rfl

theorem countP_doAccept (q : κ → Bool) (hq : q kind.initial = true) (hopen : l.isOpen = true) :
    (kind.doAccept l).connections.countP q = l.connections.countP q + 1 := by
  rw [doAccept, if_pos (.inl hopen), List.countP_append]
  simp [hq]

theorem countP_doAccept_le (q : κ → Bool) :
    (kind.doAccept l).connections.countP q ≤ l.connections.countP q + 1 := by
  unfold doAccept
  split
  · rw [List.countP_append]
    have hone := List.countP_le_length (p := q) (l := [kind.initial])
    simp only [List.length_singleton] at hone
    omega
  · omega

theorem step_connection (h : kind.step l (.connection i p) = some l') :
    ∃ c c', l.connections[i]? = some c ∧ kind.next c p = some c' ∧
      l' = if kind.handles c p ∧ kind.rearms p then
        kind.doAccept { l with connections := l.connections.set i c' }
      else { l with connections := l.connections.set i c' } := by
  obtain ⟨c, hc, hmap⟩ := Option.bind_eq_some_iff.mp h
  obtain ⟨c', hc', rfl⟩ := Option.map_eq_some_iff.mp hmap
  exact ⟨c, c', hc, hc', rfl⟩

/-- Another connection is at its accept only if this one has left it. -/
theorem countP_set {c' : κ} (hc : l.connections[i]? = some c) (hc' : kind.next c p = some c') :
    (l.connections.set i c').countP kind.accepting + (kind.handles c p).toNat =
      l.connections.countP kind.accepting := by
  obtain ⟨front, back, hl, -, hset⟩ := Index.split_at hc
  rw [hset, hl, List.countP_append, List.countP_append, List.countP_cons, List.countP_cons,
    kind.accepting_next c p c' hc']
  cases hh : kind.handles c p with
  | false => simp
  | true => simp [kind.accepting_of_handles c p hh, Nat.add_assoc]

/-- At most one connection is at its accept. -/
theorem accepting_le_one_step (hl : l.connections.countP kind.accepting ≤ 1)
    (h : kind.step l a = some l') : l'.connections.countP kind.accepting ≤ 1 := by
  cases a with
  | connection i p =>
    obtain ⟨c, c', hc, hc', rfl⟩ := kind.step_connection h
    have hset := kind.countP_set hc hc'
    split
    · next hh =>
      have hle : (kind.doAccept { l with connections := l.connections.set i c' }).connections.countP
          kind.accepting ≤ (l.connections.set i c').countP kind.accepting + 1 :=
        kind.countP_doAccept_le kind.accepting
      rw [hh.1, Bool.toNat_true] at hset
      omega
    · show (l.connections.set i c').countP kind.accepting ≤ 1
      omega
  | close =>
    cases h
    exact hl

theorem accepting_le_one (h : Run kind.step Free kind.start as l) :
    l.connections.countP kind.accepting ≤ 1 := by
  refine h.invariant (fun l => l.connections.countP kind.accepting ≤ 1) ?_ ?_
  · exact fun _ _ _ hl _ hst => kind.accepting_le_one_step hl hst
  · exact kind.countP_doAccept_le (l := ⟨true, []⟩) kind.accepting

/-- When the handler of an accept has run, one accept is outstanding or none is. -/
theorem outstanding_of_handler (h : Run kind.step Free kind.start as l)
    (hst : kind.step l (.connection i p) = some l') (hc : l.connections[i]? = some c)
    (hh : kind.handles c p = true) (hopen : l'.isOpen = true) :
    l'.connections.countP kind.outstanding = if kind.rearms p then 1 else 0 := by
  obtain ⟨c, c', hc', hnext, rfl⟩ := kind.step_connection hst
  obtain rfl := Option.some.inj (hc.symm.trans hc')
  have hle := kind.accepting_le_one h
  have hset := kind.countP_set hc hnext
  rw [hh, Bool.toNat_true] at hset
  have hnone : (l.connections.set i c').countP kind.accepting = 0 := by omega
  have hzero : (l.connections.set i c').countP kind.outstanding = 0 := by
    rw [List.countP_eq_zero] at hnone ⊢
    exact fun d hd hout => hnone d hd (kind.accepting_of_outstanding d hout)
  simp only [hh, true_and] at hopen ⊢
  split
  · next hre =>
    rw [if_pos hre, isOpen_doAccept] at hopen
    rw [kind.countP_doAccept kind.outstanding kind.outstanding_initial hopen, hzero]
  · exact hzero

end Kind

end NetworkUtility.AcceptLoop
