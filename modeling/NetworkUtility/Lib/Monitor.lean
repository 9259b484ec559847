import Mathlib.Data.List.Basic
import NetworkUtility.Lib.Index
import NetworkUtility.Lib.Machine

/-! Workers that wait on a condition variable, under a mutex, for a queue to fill or for a flag to be
cleared. The flag is written and tested without the mutex. `wait` releases the mutex and sleeps in one
step and may wake spuriously; a notification wakes only those that sleep already. -/
namespace NetworkUtility.Monitor

open Machine

/-- Where a worker is. The `window` is between the test of its wait loop and `wait`. -/
inductive Worker
  | top
  | locking
  | testing
  | window
  | asleep
  | woken
  | passed
  | busy (tasks : List Nat)
  | ended
  deriving DecidableEq, Repr

/-- The worker is inside the mutex. -/
def Worker.holds : Worker → Bool
  | .testing | .window | .passed => true
  | _ => false

def Worker.hand : Worker → List Nat
  | .busy tasks => tasks
  | _ => []

/-- Where a call is that puts a task into the queue. -/
inductive Caller
  | entering
  | holding
  | notifying
  | finished
  deriving DecidableEq, Repr

inductive Owner
  | worker (i : Nat)
  | caller (k : Nat)
  deriving DecidableEq, Repr

/-- The thread that stops the workers: it clears the flag, notifies and joins. -/
inductive Leaver
  | staying
  | flagged
  | notified
  deriving DecidableEq, Repr

/-- How the workers of a class differ: whether they take the whole queue at once, and then test the
flag in front of each task; whether they test the flag again behind the wait loop; whether a call puts
its task into the queue only while the flag is set; whether the last notification is for all. -/
structure Kind where
  takesAll : Bool
  rechecks : Bool
  guarded : Bool
  wakesAll : Bool
  deriving DecidableEq, Repr

/-- A task is named by the call that has brought it. The last three are history: the tasks that have
entered the queue, those that have left it and those that have run, the latter two with the worker. -/
structure State where
  running : Bool
  lock : Option Owner
  queue : List Nat
  workers : List Worker
  callers : List Caller
  leaver : Leaver
  entered : List Nat
  taken : List (Nat × Nat)
  ran : List (Nat × Nat)
  deriving DecidableEq, Repr

inductive Action
  | worker (i : Nat)
  | call
  | caller (k : Nat) (wakes : Option Nat)
  | exit (wakes : Option Nat)
  deriving DecidableEq, Repr

def Action.isWorker : Action → Bool
  | .worker _ => true
  | _ => false

/-- `n` workers have been started. -/
def start (n : Nat) : State := ⟨true, none, [], List.replicate n .top, [], .staying, [], [], []⟩

namespace State

def put (s : State) (i : Nat) (w : Worker) : State := { s with workers := s.workers.set i w }

def putCaller (s : State) (k : Nat) (c : Caller) : State := { s with callers := s.callers.set k c }

def acquire (s : State) (i : Nat) : Option State :=
  if s.lock = none then some { s.put i .testing with lock := some (.worker i) } else none

def notifyOne (s : State) : Option Nat → Option State
  | some i => if s.workers[i]? = some .asleep then some (s.put i .woken) else none
  | none => if .asleep ∈ s.workers then none else some s

def notifyAll (s : State) : State :=
  { s with workers := s.workers.map fun w => if w = .asleep then .woken else w }

end State

namespace Kind

variable (kind : Kind)

/-- Behind the wait loop, up to the end of the locked scope. -/
def leave (s : State) (i : Nat) : State :=
  if kind.rechecks ∧ s.running = false then { s.put i .ended with lock := none }
  else
    let tasks := if kind.takesAll then s.queue else s.queue.take 1
    { s.put i (.busy tasks) with
      lock := none
      queue := s.queue.drop tasks.length
      taken := s.taken ++ tasks.map (i, ·) }

def stepWorker (s : State) (i : Nat) : Worker → Option State
  | .top => some (s.put i (if s.running then .locking else .ended))
  | .locking => s.acquire i
  | .testing => some (s.put i (if s.running ∧ s.queue = [] then .window else .passed))
  | .window => some { s.put i .asleep with lock := none }
  | .asleep => some (s.put i .woken)
  | .woken => s.acquire i
  | .passed => some (kind.leave s i)
  | .busy [] => some (s.put i .top)
  | .busy (task :: tasks) =>
    if kind.takesAll ∧ s.running = false then some (s.put i .top)
    else some { s.put i (.busy tasks) with ran := s.ran ++ [(i, task)] }
  | .ended => none

def push (s : State) (k : Nat) : State :=
  if kind.guarded ∧ s.running = false then { s.putCaller k .notifying with lock := none }
  else
    { s.putCaller k .notifying with
      lock := none
      queue := s.queue ++ [k]
      entered := s.entered ++ [k] }

def stepCaller (s : State) (k : Nat) (wakes : Option Nat) : Caller → Option State
  | .entering =>
    if s.lock = none then some { s.putCaller k .holding with lock := some (.caller k) } else none
  | .holding => some (kind.push s k)
  | .notifying => (s.notifyOne wakes).map (·.putCaller k .finished)
  | .finished => none

def notifyExit (s : State) (wakes : Option Nat) : Option State :=
  if kind.wakesAll then some s.notifyAll else s.notifyOne wakes

def stepExit (s : State) (wakes : Option Nat) : Option State :=
  match s.leaver with
  | .staying => some { s with running := false, leaver := .flagged }
  | .flagged => (kind.notifyExit s wakes).map ({ · with leaver := .notified })
  | .notified => none

/-- Whom a notification wakes is chosen by the step. -/
def step (s : State) : Action → Option State
  | .worker i => (s.workers[i]?).bind (kind.stepWorker s i)
  | .call => some { s with callers := s.callers ++ [.entering] }
  | .caller k wakes => (s.callers[k]?).bind (kind.stepCaller s k wakes)
  | .exit wakes => kind.stepExit s wakes

end Kind

/-! ### What a step can do -/

variable {kind : Kind} {s t u : State} {a : Action} {as : List Action} {i k n : Nat}
  {w v : Worker} {wakes : Option Nat}

inductive Moves (kind : Kind) (s : State) : Action → State → Prop
  | check (i : Nat) : s.workers[i]? = some .top →
      Moves kind s (.worker i) (s.put i (if s.running then .locking else .ended))
  | acquire (i : Nat) (w : Worker) : s.workers[i]? = some w → w = .locking ∨ w = .woken →
      s.lock = none → Moves kind s (.worker i) { s.put i .testing with lock := some (.worker i) }
  | test (i : Nat) : s.workers[i]? = some .testing →
      Moves kind s (.worker i) (s.put i (if s.running ∧ s.queue = [] then .window else .passed))
  | sleep (i : Nat) : s.workers[i]? = some .window →
      Moves kind s (.worker i) { s.put i .asleep with lock := none }
  | wake (i : Nat) : s.workers[i]? = some .asleep → Moves kind s (.worker i) (s.put i .woken)
  | leave (i : Nat) : s.workers[i]? = some .passed → Moves kind s (.worker i) (kind.leave s i)
  | skip (i : Nat) (tasks : List Nat) : s.workers[i]? = some (.busy tasks) →
      tasks = [] ∨ kind.takesAll = true ∧ s.running = false →
      Moves kind s (.worker i) (s.put i .top)
  | work (i task : Nat) (tasks : List Nat) : s.workers[i]? = some (.busy (task :: tasks)) →
      ¬ (kind.takesAll = true ∧ s.running = false) →
      Moves kind s (.worker i) { s.put i (.busy tasks) with ran := s.ran ++ [(i, task)] }
  | call : Moves kind s .call { s with callers := s.callers ++ [.entering] }
  | enter (k : Nat) (wakes : Option Nat) : s.callers[k]? = some .entering → s.lock = none →
      Moves kind s (.caller k wakes) { s.putCaller k .holding with lock := some (.caller k) }
  | push (k : Nat) (wakes : Option Nat) : s.callers[k]? = some .holding →
      Moves kind s (.caller k wakes) (kind.push s k)
  | notify (k : Nat) (wakes : Option Nat) (t : State) : s.callers[k]? = some .notifying →
      s.notifyOne wakes = some t → Moves kind s (.caller k wakes) (t.putCaller k .finished)
  | flag (wakes : Option Nat) : s.leaver = .staying →
      Moves kind s (.exit wakes) { s with running := false, leaver := .flagged }
  | release (wakes : Option Nat) (t : State) : s.leaver = .flagged →
      kind.notifyExit s wakes = some t →
      Moves kind s (.exit wakes) { t with leaver := .notified }

theorem acquire_cases (h : s.acquire i = some t) :
    s.lock = none ∧ t = { s.put i .testing with lock := some (.worker i) } := by
  simp only [State.acquire, Option.ite_none_right_eq_some, Option.some.injEq] at h
  exact ⟨h.1, h.2.symm⟩

theorem moves_of_step (h : kind.step s a = some t) : Moves kind s a t := by
  cases a with
  | worker i =>
    obtain ⟨w, hw, h⟩ := Option.bind_eq_some_iff.mp h
    cases w with
    | top => cases h; exact .check i hw
    | locking =>
      obtain ⟨hlock, rfl⟩ := acquire_cases h
      exact .acquire i _ hw (.inl rfl) hlock
    | testing => cases h; exact .test i hw
    | window => cases h; exact .sleep i hw
    | asleep => cases h; exact .wake i hw
    | woken =>
      obtain ⟨hlock, rfl⟩ := acquire_cases h
      exact .acquire i _ hw (.inr rfl) hlock
    | passed => cases h; exact .leave i hw
    | busy tasks =>
      cases tasks with
      | nil => cases h; exact .skip i [] hw (.inl rfl)
      | cons task tasks =>
        simp only [Kind.stepWorker] at h
        split at h
        · next hskip => cases h; exact .skip i _ hw (.inr hskip)
        · next hwork => cases h; exact .work i task tasks hw hwork
    | ended => cases h
  | call => cases h; exact .call
  | caller k wakes =>
    obtain ⟨c, hc, h⟩ := Option.bind_eq_some_iff.mp h
    cases c with
    | entering =>
      simp only [Kind.stepCaller, Option.ite_none_right_eq_some, Option.some.injEq] at h
      obtain ⟨hlock, rfl⟩ := h
      exact .enter k wakes hc hlock
    | holding => cases h; exact .push k wakes hc
    | notifying =>
      obtain ⟨u, hu, rfl⟩ := Option.map_eq_some_iff.mp h
      exact .notify k wakes u hc hu
    | finished => cases h
  | exit wakes =>
    simp only [Kind.step, Kind.stepExit] at h
    cases hl : s.leaver with
    | staying => rw [hl] at h; cases h; exact .flag wakes hl
    | flagged =>
      rw [hl] at h
      obtain ⟨u, hu, rfl⟩ := Option.map_eq_some_iff.mp h
      exact .release wakes u hl hu
    | notified => rw [hl] at h; cases h

theorem getElem?_put (hi : s.workers[i]? = some v) (j : Nat) :
    (s.put i w).workers[j]? = if i = j then some w else s.workers[j]? := by
  have hlt : i < s.workers.length := (List.getElem?_eq_some_iff.mp hi).1
  show (s.workers.set i w)[j]? = _
  rw [List.getElem?_set]
  split <;> rfl

theorem getElem?_putCaller {c d : Caller} (hk : s.callers[k]? = some d) (j : Nat) :
    (s.putCaller k c).callers[j]? = if k = j then some c else s.callers[j]? := by
  have hlt : k < s.callers.length := (List.getElem?_eq_some_iff.mp hk).1
  show (s.callers.set k c)[j]? = _
  rw [List.getElem?_set]
  split <;> rfl

/-- Nothing changes but that some sleepers are woken. -/
structure Wakes (s t : State) : Prop where
  rest : t = { s with workers := t.workers }
  workers : ∀ i : Nat, t.workers[i]? = s.workers[i]? ∨
    s.workers[i]? = some .asleep ∧ t.workers[i]? = some .woken

theorem wakes_put (hi : s.workers[i]? = some .asleep) : Wakes s (s.put i .woken) := by
  refine ⟨rfl, fun j => ?_⟩
  rw [getElem?_put hi]
  split
  · next hij => exact .inr ⟨hij ▸ hi, rfl⟩
  · exact .inl rfl

theorem wakes_notifyAll (s : State) : Wakes s s.notifyAll := by
  refine ⟨rfl, fun j => ?_⟩
  show (s.workers.map fun w => if w = .asleep then .woken else w)[j]? = _ ∨ _ ∧
    (s.workers.map fun w => if w = .asleep then .woken else w)[j]? = _
  rw [List.getElem?_map]
  cases hj : s.workers[j]? with
  | none => exact .inl rfl
  | some w =>
    by_cases hw : w = .asleep
    · exact .inr ⟨by rw [hw], by simp [hw]⟩
    · exact .inl (by simp [hw])

/-- A notification finds nobody asleep, or wakes one. -/
theorem notifyOne_cases (h : s.notifyOne wakes = some t) :
    Wakes s t ∧ (t = s ∧ .asleep ∉ s.workers ∨
      ∃ i, s.workers[i]? = some .asleep ∧ t = s.put i .woken) := by
  cases wakes with
  | none =>
    simp only [State.notifyOne, Option.ite_none_left_eq_some, Option.some.injEq] at h
    obtain ⟨hnone, rfl⟩ := h
    exact ⟨⟨rfl, fun _ => .inl rfl⟩, .inl ⟨rfl, hnone⟩⟩
  | some i =>
    simp only [State.notifyOne, Option.ite_none_right_eq_some, Option.some.injEq] at h
    obtain ⟨hi, rfl⟩ := h
    exact ⟨wakes_put hi, .inr ⟨i, hi, rfl⟩⟩

theorem wakes_notifyExit (h : kind.notifyExit s wakes = some t) : Wakes s t := by
  unfold Kind.notifyExit at h
  split at h
  · cases h
    exact wakes_notifyAll s
  · exact (notifyOne_cases h).1

/-! ### The mutex -/

/-- The owner of the mutex and nobody else is inside. -/
structure Locked (workers : List Worker) (callers : List Caller) (lock : Option Owner) : Prop where
  worker : ∀ i w, workers[i]? = some w → (w.holds = true ↔ lock = some (.worker i))
  caller : ∀ k c, callers[k]? = some c → (c = .holding ↔ lock = some (.caller k))
  workerOwner : ∀ i, lock = some (.worker i) → i < workers.length
  callerOwner : ∀ k, lock = some (.caller k) → k < callers.length

theorem locked_start (n : Nat) : Locked (start n).workers (start n).callers (start n).lock := by
  constructor
  · intro i w hw
    obtain ⟨-, rfl⟩ := List.getElem?_eq_some_iff.mp hw
    simp [start, Worker.holds]
  · intro k c hc
    simp [start] at hc
  · intro i hi
    cases hi
  · intro k hk
    cases hk

section Mutex

variable {workers : List Worker} {callers : List Caller} {lock : Option Owner} {c d : Caller}

/-- A worker goes on without entering or leaving the mutex. -/
theorem Locked.set (h : Locked workers callers lock) (hi : workers[i]? = some v)
    (hw : w.holds = v.holds) : Locked (workers.set i w) callers lock := by
  refine ⟨fun j x hx => ?_, h.caller, fun j hj => ?_, h.callerOwner⟩
  · rw [List.getElem?_set] at hx
    split at hx
    · next hij =>
      obtain ⟨-, rfl⟩ : i < workers.length ∧ w = x := by simpa using hx
      subst hij
      rw [hw]
      exact h.worker i v hi
    · exact h.worker j x hx
  · rw [List.length_set]
    exact h.workerOwner j hj

/-- A worker that enters the mutex is alone in it. -/
theorem Locked.enter (h : Locked workers callers none) (hi : workers[i]? = some v)
    (hw : w.holds = true) : Locked (workers.set i w) callers (some (.worker i)) := by
  refine ⟨fun j x hx => ?_, fun k c hc => ?_, fun j hj => ?_, fun k hk => (by cases hk)⟩
  · rw [List.getElem?_set] at hx
    split at hx
    · next hij =>
      obtain ⟨-, rfl⟩ : i < workers.length ∧ w = x := by simpa using hx
      simp [hw, hij]
    · next hij =>
      have hout := h.worker j x hx
      simp only [reduceCtorEq, iff_false] at hout
      simp [hout, hij]
  · have hout := h.caller k c hc
    simp only [reduceCtorEq, iff_false] at hout
    simp [hout]
  · obtain rfl : i = j := by simpa using hj
    rw [List.length_set]
    exact (List.getElem?_eq_some_iff.mp hi).1

theorem Locked.leave (h : Locked workers callers lock) (hi : workers[i]? = some v)
    (hv : v.holds = true) (hw : w.holds = false) : Locked (workers.set i w) callers none := by
  have howner := (h.worker i v hi).mp hv
  refine ⟨fun j x hx => ?_, fun k c hc => ?_, fun j hj => (by cases hj), fun k hk => (by cases hk)⟩
  · rw [List.getElem?_set] at hx
    split at hx
    · obtain ⟨-, rfl⟩ : i < workers.length ∧ w = x := by simpa using hx
      simp [hw]
    · next hij =>
      have hout := h.worker j x hx
      rw [howner] at hout
      simp only [Option.some.injEq, Owner.worker.injEq, hij, iff_false] at hout
      simp [hout]
  · have hout := h.caller k c hc
    rw [howner] at hout
    simp only [Option.some.injEq, reduceCtorEq, iff_false] at hout
    simp [hout]

theorem Locked.setCaller (h : Locked workers callers lock) (hk : callers[k]? = some d)
    (hd : d ≠ .holding) (hc : c ≠ .holding) : Locked workers (callers.set k c) lock := by
  refine ⟨h.worker, fun j x hx => ?_, h.workerOwner, fun j hj => ?_⟩
  · rw [List.getElem?_set] at hx
    split at hx
    · next hkj =>
      obtain ⟨-, rfl⟩ : k < callers.length ∧ c = x := by simpa using hx
      subst hkj
      have hout := h.caller k d hk
      simp only [hd, false_iff] at hout
      simp [hc, hout]
    · exact h.caller j x hx
  · rw [List.length_set]
    exact h.callerOwner j hj

theorem Locked.enterCaller (h : Locked workers callers none) (hk : callers[k]? = some d) :
    Locked workers (callers.set k .holding) (some (.caller k)) := by
  refine ⟨fun i w hw => ?_, fun j x hx => ?_, fun i hi => (by cases hi), fun j hj => ?_⟩
  · have hout := h.worker i w hw
    simp only [reduceCtorEq, iff_false] at hout
    simp [hout]
  · rw [List.getElem?_set] at hx
    split at hx
    · next hkj =>
      obtain ⟨-, rfl⟩ : k < callers.length ∧ Caller.holding = x := by simpa using hx
      simp [hkj]
    · next hkj =>
      have hout := h.caller j x hx
      simp only [reduceCtorEq, iff_false] at hout
      simp [hout, hkj]
  · obtain rfl : k = j := by simpa using hj
    rw [List.length_set]
    exact (List.getElem?_eq_some_iff.mp hk).1

theorem Locked.leaveCaller (h : Locked workers callers lock) (hk : callers[k]? = some .holding)
    (hc : c ≠ .holding) : Locked workers (callers.set k c) none := by
  have howner := (h.caller k _ hk).mp rfl
  refine ⟨fun i w hw => ?_, fun j x hx => ?_, fun i hi => (by cases hi), fun j hj => (by cases hj)⟩
  · have hout := h.worker i w hw
    rw [howner] at hout
    simp only [Option.some.injEq, reduceCtorEq, iff_false] at hout
    simp [hout]
  · rw [List.getElem?_set] at hx
    split at hx
    · obtain ⟨-, rfl⟩ : k < callers.length ∧ c = x := by simpa using hx
      simp [hc]
    · next hkj =>
      have hout := h.caller j x hx
      rw [howner] at hout
      simp only [Option.some.injEq, Owner.caller.injEq, hkj, iff_false] at hout
      simp [hout]

theorem Locked.call (h : Locked workers callers lock) :
    Locked workers (callers ++ [.entering]) lock := by
  refine ⟨h.worker, fun k c hc => ?_, h.workerOwner, fun k hk => ?_⟩
  · rw [List.getElem?_append] at hc
    split at hc
    · exact h.caller k c hc
    · next hlen =>
      have hno : lock ≠ some (.caller k) := fun hk => hlen (h.callerOwner k hk)
      obtain ⟨-, rfl⟩ := List.getElem?_eq_some_iff.mp hc
      simp [hno]
  · have hlen := h.callerOwner k hk
    rw [List.length_append]
    omega

end Mutex

theorem Locked.woken (h : Locked s.workers s.callers s.lock) (hw : Wakes s t) :
    Locked t.workers s.callers s.lock := by
  have hlen : ∀ j : Nat, j < s.workers.length → j < t.workers.length := by
    intro j hj
    rcases hw.workers j with hsame | ⟨-, hwoken⟩
    · rw [List.getElem?_eq_getElem hj] at hsame
      exact (List.getElem?_eq_some_iff.mp hsame).1
    · exact (List.getElem?_eq_some_iff.mp hwoken).1
  refine ⟨fun i w hi => ?_, h.caller, fun i hi => hlen i (h.workerOwner i hi), h.callerOwner⟩
  rcases hw.workers i with hsame | ⟨hasleep, hwoken⟩
  · exact h.worker i w (hsame.symm.trans hi)
  · obtain rfl : Worker.woken = w := Option.some.inj (hwoken.symm.trans hi)
    exact h.worker i .asleep hasleep

theorem locked_step (hs : Locked s.workers s.callers s.lock) (h : kind.step s a = some t) :
    Locked t.workers t.callers t.lock := by
  cases moves_of_step h with
  | check i hi =>
    have hw : (if s.running then Worker.locking else .ended).holds = Worker.top.holds := by
      split <;> rfl
    exact hs.set hi hw
  | acquire i w hi hw hlock =>
    rw [hlock] at hs
    exact hs.enter hi rfl
  | test i hi =>
    have hw : (if s.running ∧ s.queue = [] then Worker.window else .passed).holds =
        Worker.testing.holds := by
      split <;> rfl
    exact hs.set hi hw
  | sleep i hi => exact hs.leave hi rfl rfl
  | wake i hi => exact hs.set hi rfl
  | leave i hi =>
    unfold Kind.leave
    split <;> exact hs.leave hi rfl rfl
  | skip i tasks hi _ => exact hs.set hi rfl
  | work i task tasks hi _ => exact hs.set hi rfl
  | call => exact hs.call
  | enter k wakes hk hlock =>
    rw [hlock] at hs
    exact hs.enterCaller hk
  | push k wakes hk =>
    unfold Kind.push
    split <;> exact hs.leaveCaller hk (by simp)
  | notify k wakes u hk hu =>
    have hwakes := (notifyOne_cases hu).1
    have hlocked := hs.woken hwakes
    rw [hwakes.rest]
    exact hlocked.setCaller hk (by simp) (by simp)
  | flag wakes _ => exact hs
  | release wakes u _ hu =>
    have hwakes := wakes_notifyExit hu
    have hlocked := hs.woken hwakes
    rw [hwakes.rest]
    exact hlocked

end NetworkUtility.Monitor
