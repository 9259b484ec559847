import Mathlib.Algebra.GroupWithZero.Nat
import NetworkUtility.Lib.Monitor.Queue

/-! The end of a monitor's workers: whether the last notification reaches all of them. -/
namespace NetworkUtility.Monitor

open Machine

variable {kind : Kind} {s t : State} {a : Action} {as : List Action} {i j k n : Nat}
  {w v : Worker} {wakes : Option Nat}

/-- Every join returns: no worker waits any more, the workers have boundedly many steps left, and
until all have ended one of them can take its step, or the call that is inside the mutex can. -/
structure Joinable (kind : Kind) (s : State) : Prop where
  awake : ∀ as t, Run kind.step Free s as t → .asleep ∉ t.workers
  bounded : ∃ bound, ∀ as t, Run kind.step Free s as t → as.countP (·.isWorker) ≤ bound
  goes : ∀ as t, Run kind.step Free s as t → (∃ w ∈ t.workers, w ≠ .ended) →
    ∃ a u, kind.step t a = some u ∧
      ((∃ i, a = .worker i) ∨ ∃ k, a = .caller k none ∧ t.lock = some (.caller k))

/-- The flag is cleared, and no worker sleeps or is about to. -/
structure Calm (s : State) : Prop where
  running : s.running = false
  workers : ∀ (i : Nat) (w : Worker), s.workers[i]? = some w → w ≠ .window ∧ w ≠ .asleep

theorem calm_put (hs : Calm s) (hi : s.workers[i]? = some v) (hw : w ≠ .window ∧ w ≠ .asleep)
    (j : Nat) (x : Worker) (hj : (s.put i w).workers[j]? = some x) : x ≠ .window ∧ x ≠ .asleep := by
  rw [getElem?_put hi] at hj
  split at hj
  · exact Option.some.inj hj ▸ hw
  · exact hs.workers j x hj

theorem Calm.wakes_eq (hs : Calm s) (hw : Wakes s t) : t.workers = s.workers := by
  apply List.ext_getElem?
  intro j
  rcases hw.workers j with hsame | ⟨hasleep, -⟩
  · exact hsame
  · exact absurd rfl (hs.workers j _ hasleep).2

theorem calm_step (hs : Calm s) (h : kind.step s a = some t) : Calm t := by
  cases moves_of_step h with
  | check i hi => exact ⟨hs.running, calm_put hs hi (by split <;> simp)⟩
  | acquire i w hi _ _ => exact ⟨hs.running, calm_put hs hi (by simp)⟩
  | test i hi => exact ⟨hs.running, calm_put hs hi (by simp [hs.running])⟩
  | sleep i hi => exact absurd rfl (hs.workers i _ hi).1
  | wake i hi => exact ⟨hs.running, calm_put hs hi (by simp)⟩
  | leave i hi =>
    unfold Kind.leave
    split
    · exact ⟨hs.running, calm_put hs hi (by simp)⟩
    · exact ⟨hs.running, calm_put hs hi (by simp)⟩
  | skip i tasks hi _ => exact ⟨hs.running, calm_put hs hi (by simp)⟩
  | work i task tasks hi _ => exact ⟨hs.running, calm_put hs hi (by simp)⟩
  | call => exact ⟨hs.running, hs.workers⟩
  | enter k wakes _ _ => exact ⟨hs.running, hs.workers⟩
  | push k wakes _ =>
    unfold Kind.push
    split <;> exact ⟨hs.running, hs.workers⟩
  | notify k wakes u _ hu =>
    have hwakes := (notifyOne_cases hu).1
    have heq := hs.wakes_eq hwakes
    rw [hwakes.rest, heq]
    exact ⟨hs.running, hs.workers⟩
  | flag wakes _ => exact ⟨rfl, hs.workers⟩
  | release wakes u _ hu =>
    have hwakes := wakes_notifyExit hu
    have heq := hs.wakes_eq hwakes
    rw [hwakes.rest, heq]
    exact ⟨hs.running, hs.workers⟩

/-! ### The steps that a worker has left -/

/-- A bound when the flag is cleared: a list of tasks is then skipped, or not taken at all. -/
def Kind.left (kind : Kind) : Worker → Nat
  | .locking => 5
  | .woken => 5
  | .testing => 4
  | .passed => 3
  | .busy tasks => if kind.takesAll then 2 else 2 + tasks.length
  | .top => 1
  | _ => 0

def Kind.total (kind : Kind) (s : State) : Nat := (s.workers.map kind.left).sum

theorem total_put (hi : s.workers[i]? = some v) :
    kind.total (s.put i w) + kind.left v = kind.total s + kind.left w := by
  obtain ⟨front, back, hl, -, hset⟩ := Index.split_at hi
  have hput : (s.put i w).workers = front ++ w :: back := hset w
  unfold Kind.total
  rw [hput, hl]
  simp only [List.map_append, List.map_cons, List.sum_append, List.sum_cons]
  omega

theorem total_put_lt (hi : s.workers[i]? = some v) (hlt : kind.left w < kind.left v) :
    kind.total (s.put i w) + 1 ≤ kind.total s := by
  have hput : kind.total (s.put i w) + kind.left v = kind.total s + kind.left w := total_put hi
  omega

/-- Each step of a worker is one of those that it has left. -/
theorem total_step (hkind : kind.rechecks = true ∨ kind.takesAll = true) (hs : Calm s)
    (h : kind.step s a = some t) : kind.total t + a.isWorker.toNat ≤ kind.total s := by
  cases moves_of_step h with
  | check i hi =>
    rw [hs.running]
    exact total_put_lt hi (by simp [Kind.left])
  | acquire i w hi hw _ =>
    refine total_put_lt hi ?_
    rcases hw with rfl | rfl <;> simp [Kind.left]
  | test i hi =>
    rw [hs.running]
    exact total_put_lt hi (by simp [Kind.left])
  | sleep i hi => exact absurd rfl (hs.workers i _ hi).1
  | wake i hi => exact absurd rfl (hs.workers i _ hi).2
  | leave i hi =>
    unfold Kind.leave
    split
    · exact total_put_lt hi (by simp [Kind.left])
    · next hstop =>
      have hall : kind.takesAll = true := by
        rcases hkind with hre | hall
        · exact absurd ⟨hre, hs.running⟩ hstop
        · exact hall
      exact total_put_lt hi (by simp [Kind.left, hall])
  | skip i tasks hi _ =>
    refine total_put_lt hi ?_
    simp only [Kind.left]
    split <;> omega
  | work i task tasks hi hwork =>
    have hone : kind.takesAll = false := by simpa [hs.running] using hwork
    exact total_put_lt hi (by simp [Kind.left, hone])
  | call => exact Nat.le_refl _
  | enter k wakes _ _ => exact Nat.le_refl _
  | push k wakes _ =>
    unfold Kind.push
    split <;> exact Nat.le_refl _
  | notify k wakes u _ hu =>
    have heq := hs.wakes_eq (notifyOne_cases hu).1
    show (u.workers.map kind.left).sum + 0 ≤ _
    rw [heq]
    exact Nat.le_refl _
  | flag wakes _ => exact Nat.le_refl _
  | release wakes u _ hu =>
    have heq := hs.wakes_eq (wakes_notifyExit hu)
    show (u.workers.map kind.left).sum + 0 ≤ _
    rw [heq]
    exact Nat.le_refl _

theorem total_run (hkind : kind.rechecks = true ∨ kind.takesAll = true) (hs : Calm s)
    (h : Run kind.step Free s as t) : as.countP (·.isWorker) + kind.total t ≤ kind.total s := by
  induction h with
  | nil => simp
  | @cons s u t a as _ hst _ ih =>
    have hstep := total_step hkind hs hst
    have hrest := ih (calm_step hs hst)
    have hcount : (a :: as).countP (·.isWorker) = as.countP (·.isWorker) + a.isWorker.toNat := by
      rw [List.countP_cons]
      cases a.isWorker <;> rfl
    omega

/-- A worker outside the mutex that has not ended can go on, or the mutex is not free. -/
theorem exists_worker_step (kind : Kind) (hi : s.workers[i]? = some w) (hne : w ≠ .ended)
    (hlock : s.lock = none ∨ w.holds = true) : ∃ t, kind.step s (.worker i) = some t := by
  have hstep : kind.step s (.worker i) = kind.stepWorker s i w := by simp [Kind.step, hi]
  rw [hstep]
  cases w with
  | top => exact ⟨_, rfl⟩
  | locking =>
    have hfree : s.lock = none := by simpa [Worker.holds] using hlock
    simp [Kind.stepWorker, State.acquire, hfree]
  | testing => exact ⟨_, rfl⟩
  | window => exact ⟨_, rfl⟩
  | asleep => exact ⟨_, rfl⟩
  | woken =>
    have hfree : s.lock = none := by simpa [Worker.holds] using hlock
    simp [Kind.stepWorker, State.acquire, hfree]
  | passed => exact ⟨_, rfl⟩
  | busy tasks =>
    cases tasks with
    | nil => exact ⟨_, rfl⟩
    | cons task tasks =>
      simp only [Kind.stepWorker]
      split <;> exact ⟨_, rfl⟩
  | ended => exact absurd rfl hne

theorem exists_step (hs : Locked s.workers s.callers s.lock) (hw : ∃ w ∈ s.workers, w ≠ .ended) :
    ∃ a t, kind.step s a = some t ∧
      ((∃ i, a = .worker i) ∨ ∃ k, a = .caller k none ∧ s.lock = some (.caller k)) := by
  cases hlock : s.lock with
  | none =>
    obtain ⟨w, hmem, hne⟩ := hw
    obtain ⟨i, hi⟩ := List.mem_iff_getElem?.mp hmem
    obtain ⟨t, ht⟩ := exists_worker_step kind hi hne (.inl hlock)
    exact ⟨_, t, ht, .inl ⟨i, rfl⟩⟩
  | some owner =>
    cases owner with
    | worker i =>
      obtain ⟨w, hi⟩ : ∃ w, s.workers[i]? = some w :=
        ⟨_, List.getElem?_eq_getElem (hs.workerOwner i hlock)⟩
      have hholds := (hs.worker i w hi).mpr hlock
      have hne : w ≠ .ended := by
        rintro rfl
        cases hholds
      obtain ⟨t, ht⟩ := exists_worker_step kind hi hne (.inr hholds)
      exact ⟨_, t, ht, .inl ⟨i, rfl⟩⟩
    | caller k =>
      have hk := List.getElem?_eq_getElem (hs.callerOwner k hlock)
      have hholding := (hs.caller k _ hk).mpr hlock
      rw [hholding] at hk
      have hstep : kind.step s (.caller k none) = some (kind.push s k) := by
        simp [Kind.step, Kind.stepCaller, hk]
      exact ⟨_, _, hstep, .inr ⟨k, rfl, rfl⟩⟩

theorem joinable_of_calm (hkind : kind.rechecks = true ∨ kind.takesAll = true) (hs : Calm s)
    (hlocked : Locked s.workers s.callers s.lock) : Joinable kind s := by
  have hrun : ∀ as t, Run kind.step Free s as t → Calm t ∧ Locked t.workers t.callers t.lock :=
    fun as t h => h.invariant (fun t => Calm t ∧ Locked t.workers t.callers t.lock)
      (fun _ _ _ hs _ hst => ⟨calm_step hs.1 hst, locked_step hs.2 hst⟩) ⟨hs, hlocked⟩
  refine ⟨fun as t h hasleep => ?_, ⟨kind.total s, fun as t h => ?_⟩, fun as t h hw => ?_⟩
  · obtain ⟨i, hi⟩ := List.mem_iff_getElem?.mp hasleep
    exact ((hrun as t h).1.workers i _ hi).2 rfl
  · have htotal := total_run hkind hs h
    omega
  · exact exists_step (hrun as t h).2 hw

/-! ### The last notification -/

/-- It reaches every worker that sleeps. -/
theorem asleep_notifyExit (hn : kind.wakesAll = true ∨ s.workers.length ≤ 1)
    (h : kind.notifyExit s wakes = some t) : .asleep ∉ t.workers := by
  unfold Kind.notifyExit at h
  split at h
  · cases h
    intro hmem
    obtain ⟨w, -, hw⟩ := List.mem_map.mp hmem
    split at hw
    · cases hw
    · next hne => exact hne hw
  · next hall =>
    obtain ⟨-, ⟨rfl, hnone⟩ | ⟨i, hi, rfl⟩⟩ := notifyOne_cases h
    · exact hnone
    · intro hmem
      obtain ⟨j, hj⟩ := List.mem_iff_getElem?.mp hmem
      have hone : s.workers.length ≤ 1 := hn.resolve_left hall
      have hilt := (List.getElem?_eq_some_iff.mp hi).1
      rw [getElem?_put hi] at hj
      split at hj
      · cases hj
      · have hjlt := (List.getElem?_eq_some_iff.mp hj).1
        omega

theorem not_joinable_of_window (hi : s.workers[i]? = some .window) : ¬ Joinable kind s := by
  intro hjoin
  have hsleep : kind.step s (.worker i) = some { s.put i .asleep with lock := none } := by
    simp [Kind.step, hi, Kind.stepWorker]
  have hmem : (s.put i .asleep).workers[i]? = some .asleep := by rw [getElem?_put hi, if_pos rfl]
  exact hjoin.awake _ _ (.cons trivial hsleep (.nil _)) (List.mem_of_getElem? hmem)

/-- A worker that has found the flag set and the queue empty, and does not sleep yet, misses the last
notification; without such a worker every join returns. -/
theorem joinable_iff (hkind : kind.rechecks = true ∨ kind.takesAll = true)
    (hn : kind.wakesAll = true ∨ n ≤ 1) (h : Run kind.step Free (start n) as s)
    (hleaver : s.leaver = .flagged) (hst : kind.step s (.exit wakes) = some t) :
    Joinable kind t ↔ .window ∉ s.workers := by
  have hkept := kept_of_run h
  have hnotified : ∃ u, kind.notifyExit s wakes = some u ∧ t = { u with leaver := .notified } := by
    have hmap : (kind.notifyExit s wakes).map ({ · with leaver := .notified }) = some t := by
      simpa [Kind.step, Kind.stepExit, hleaver] using hst
    obtain ⟨u, hu, rfl⟩ := Option.map_eq_some_iff.mp hmap
    exact ⟨u, hu, rfl⟩
  obtain ⟨u, hu, rfl⟩ := hnotified
  have hwakes := wakes_notifyExit hu
  have hrunning : s.running = false := by
    have hnot := mt hkept.running.mp (by simp [hleaver])
    simpa using hnot
  constructor
  · intro hjoin hwindow
    obtain ⟨i, hi⟩ := List.mem_iff_getElem?.mp hwindow
    have hui : u.workers[i]? = some .window := by
      rcases hwakes.workers i with hsame | ⟨hasleep, -⟩
      · exact hsame.trans hi
      · exact absurd (hi.symm.trans hasleep) (by simp)
    exact not_joinable_of_window (s := { u with leaver := .notified }) hui hjoin
  · intro hwindow
    have hlocked := locked_step hkept.locked hst
    have hasleep : .asleep ∉ u.workers :=
      asleep_notifyExit (hn.imp_right fun hone => hkept.booked.takers.1 ▸ hone) hu
    refine joinable_of_calm hkind ⟨?_, fun i w hi => ⟨?_, ?_⟩⟩ hlocked
    · show u.running = false
      rw [hwakes.rest]
      exact hrunning
    · rintro rfl
      exact hwindow (List.mem_of_getElem? (window_wakes hwakes hi))
    · rintro rfl
      exact hasleep (List.mem_of_getElem? hi)

end NetworkUtility.Monitor
