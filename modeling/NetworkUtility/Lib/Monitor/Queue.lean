import NetworkUtility.Lib.Monitor

/-! The queue of a monitor: where its tasks are, and that none waits for a worker that nobody wakes. -/
namespace NetworkUtility.Monitor

open Machine

variable {kind : Kind} {s t : State} {a : Action} {as : List Action} {i j k n : Nat}
  {w v : Worker} {wakes : Option Nat}

/-- The tasks of one worker. -/
def byWorker (i : Nat) (log : List (Nat × Nat)) : List Nat :=
  (log.filter fun x => x.1 = i).map (·.2)

/-- What the worker has taken and not run. -/
def State.hand (s : State) (i : Nat) : List Nat := ((s.workers[i]?).map Worker.hand).getD []

/-- Every task is where it belongs: it enters the queue in its call, leaves it in order, and is in one
worker's hand until it has run. -/
structure Booked (kind : Kind) (n : Nat) (s : State) : Prop where
  order : s.entered = s.taken.map (·.2) ++ s.queue
  nodup : s.entered.Nodup
  entered : ∀ k ∈ s.entered, s.callers[k]? = some .notifying ∨ s.callers[k]? = some .finished
  whole : s.running = true → ∀ k : Nat,
    s.callers[k]? = some .notifying ∨ s.callers[k]? = some .finished → k ∈ s.entered
  hands : kind.takesAll = false → ∀ i, byWorker i s.taken = byWorker i s.ran ++ s.hand i
  takers : s.workers.length = n ∧ ∀ x ∈ s.taken, x.1 < n

theorem booked_start (kind : Kind) (n : Nat) : Booked kind n (start n) := by
  refine ⟨rfl, List.nodup_nil, fun k hk => (by cases hk), fun _ k hk => ?_, fun _ i => ?_, ?_⟩
  · rcases hk with hk | hk <;> simp [start] at hk
  · unfold State.hand
    cases hw : (start n).workers[i]? with
    | none => rfl
    | some w =>
      obtain ⟨-, rfl⟩ := List.getElem?_eq_some_iff.mp hw
      simp [start, byWorker, Worker.hand]
  · exact ⟨List.length_replicate, fun x hx => (by cases hx)⟩

theorem hand_put (hi : s.workers[i]? = some v) (j : Nat) :
    (s.put i w).hand j = if i = j then w.hand else s.hand j := by
  unfold State.hand
  rw [getElem?_put hi]
  split <;> rfl

theorem hand_of_getElem? (hi : s.workers[i]? = some v) : s.hand i = v.hand := by
  rw [State.hand, hi]
  rfl

/-- Only the owner of a hand changes it, so a step that leaves all hands alone is seen at one. -/
theorem hand_put_same (hi : s.workers[i]? = some v) (hw : w.hand = v.hand) (j : Nat) :
    (s.put i w).hand j = s.hand j := by
  rw [hand_put hi]
  split
  · next hij => rw [hw, ← hij, hand_of_getElem? hi]
  · rfl

theorem hand_wakes (hw : Wakes s t) (j : Nat) : t.hand j = s.hand j := by
  unfold State.hand
  rcases hw.workers j with hsame | ⟨hasleep, hwoken⟩
  · rw [hsame]
  · rw [hasleep, hwoken]
    rfl

theorem length_wakes (hw : Wakes s t) : t.workers.length = s.workers.length := by
  have hiff : ∀ j : Nat, t.workers.length ≤ j ↔ s.workers.length ≤ j := by
    intro j
    rw [← List.getElem?_eq_none_iff, ← List.getElem?_eq_none_iff]
    rcases hw.workers j with hsame | ⟨hasleep, hwoken⟩
    · rw [hsame]
    · simp [hasleep, hwoken]
  exact Nat.le_antisymm ((hiff _).mpr (Nat.le_refl _)) ((hiff _).mp (Nat.le_refl _))

theorem byWorker_append (i : Nat) (log more : List (Nat × Nat)) :
    byWorker i (log ++ more) = byWorker i log ++ byWorker i more := by
  simp [byWorker]

theorem byWorker_tasks (i j : Nat) (tasks : List Nat) :
    byWorker j (tasks.map (i, ·)) = if i = j then tasks else [] := by
  unfold byWorker
  by_cases hij : i = j
  · rw [if_pos hij, List.filter_eq_self.mpr (by simp [hij]), List.map_map]
    simp [Function.comp_def]
  · simp [hij]

/-- A worker goes on, and its hand stays as it is. -/
theorem Booked.put (hs : Booked kind n s) (hi : s.workers[i]? = some v) (hw : w.hand = v.hand) :
    Booked kind n (s.put i w) := by
  refine ⟨hs.order, hs.nodup, hs.entered, hs.whole, fun hone j => ?_, ?_, hs.takers.2⟩
  · rw [hand_put_same hi hw]
    exact hs.hands hone j
  · show (s.workers.set i w).length = n
    rw [List.length_set, hs.takers.1]

theorem Booked.put_lock {lock : Option Owner} (hs : Booked kind n s) (hi : s.workers[i]? = some v)
    (hw : w.hand = v.hand) : Booked kind n { s.put i w with lock := lock } := by
  obtain ⟨horder, hnodup, hentered, hwhole, hhands, htakers⟩ := hs.put hi hw
  exact ⟨horder, hnodup, hentered, hwhole, hhands, htakers⟩

theorem Booked.woken (hs : Booked kind n s) (hw : Wakes s t) : Booked kind n t := by
  have hhand := hand_wakes hw
  have hlen := (length_wakes hw).trans hs.takers.1
  rw [hw.rest] at hhand ⊢
  refine ⟨hs.order, hs.nodup, hs.entered, hs.whole, fun hone j => ?_, hlen, hs.takers.2⟩
  rw [hhand]
  exact hs.hands hone j

/-- A call goes on, and is on the same side of its push. -/
theorem Booked.putCaller {c d : Caller} {lock : Option Owner} (hs : Booked kind n s)
    (hk : s.callers[k]? = some d)
    (hc : c = .notifying ∨ c = .finished ↔ d = .notifying ∨ d = .finished) :
    Booked kind n { s.putCaller k c with lock := lock } := by
  have hside : ∀ j : Nat, (s.putCaller k c).callers[j]? = some .notifying ∨
      (s.putCaller k c).callers[j]? = some .finished ↔
      s.callers[j]? = some .notifying ∨ s.callers[j]? = some .finished := by
    intro j
    rw [getElem?_putCaller hk]
    split
    · next hkj => simpa [← hkj, hk] using hc
    · rfl
  refine ⟨hs.order, hs.nodup, fun j hj => ?_, fun hrun j hj => ?_, hs.hands, hs.takers⟩
  · exact (hside j).mpr (hs.entered j hj)
  · exact hs.whole hrun j ((hside j).mp hj)

theorem Booked.leave (hs : Booked kind n s) (hi : s.workers[i]? = some .passed) :
    Booked kind n (kind.leave s i) := by
  unfold Kind.leave
  split
  · exact hs.put_lock hi rfl
  · generalize htasks : (if kind.takesAll then s.queue else s.queue.take 1) = tasks
    have hsplit : tasks ++ s.queue.drop tasks.length = s.queue := by
      rw [← htasks]
      split
      · simp
      · cases s.queue <;> simp
    have hlt : i < n := by
      rw [← hs.takers.1]
      exact (List.getElem?_eq_some_iff.mp hi).1
    refine ⟨?_, hs.nodup, hs.entered, hs.whole, fun hone j => ?_, ?_, fun x hx => ?_⟩
    · show s.entered = (s.taken ++ tasks.map (i, ·)).map (·.2) ++ s.queue.drop tasks.length
      rw [List.map_append, List.map_map, List.append_assoc, hs.order]
      simp [Function.comp_def, hsplit]
    · show byWorker j (s.taken ++ tasks.map (i, ·)) =
        byWorker j s.ran ++ (s.put i (.busy tasks)).hand j
      have hempty : s.hand i = [] := hand_of_getElem? hi
      rw [byWorker_append, byWorker_tasks, hs.hands hone j, hand_put hi]
      split
      · next hij => simp [← hij, hempty, Worker.hand]
      · rw [List.append_nil]
    · show (s.workers.set i _).length = n
      rw [List.length_set, hs.takers.1]
    · rcases List.mem_append.mp hx with hx | hx
      · exact hs.takers.2 x hx
      · obtain ⟨task, -, rfl⟩ := List.mem_map.mp hx
        exact hlt

theorem Booked.work {task : Nat} {tasks : List Nat} (hs : Booked kind n s)
    (hi : s.workers[i]? = some (.busy (task :: tasks))) :
    Booked kind n { s.put i (.busy tasks) with ran := s.ran ++ [(i, task)] } := by
  refine ⟨hs.order, hs.nodup, hs.entered, hs.whole, fun hone j => ?_, ?_, hs.takers.2⟩
  · show byWorker j s.taken =
      byWorker j (s.ran ++ [task].map (i, ·)) ++ (s.put i (.busy tasks)).hand j
    have hhand : s.hand i = task :: tasks := hand_of_getElem? hi
    rw [byWorker_append, byWorker_tasks, hs.hands hone j, hand_put hi]
    split
    · next hij => simp [← hij, hhand, Worker.hand]
    · rw [List.append_nil]
  · show (s.workers.set i _).length = n
    rw [List.length_set, hs.takers.1]

theorem Booked.push (hs : Booked kind n s) (hk : s.callers[k]? = some .holding) :
    Booked kind n (kind.push s k) := by
  have hout : k ∉ s.entered := by
    intro hin
    rcases hs.entered k hin with h | h <;> simp [hk] at h
  have hcallers : ∀ j : Nat, (s.putCaller k .notifying).callers[j]? =
      if k = j then some .notifying else s.callers[j]? := getElem?_putCaller hk
  unfold Kind.push
  split
  · next hstop =>
    refine ⟨hs.order, hs.nodup, fun j hj => ?_, fun hrun => ?_, hs.hands, hs.takers⟩
    · have hkj : k ≠ j := fun h => hout (h ▸ hj)
      show (s.putCaller k .notifying).callers[j]? = _ ∨ (s.putCaller k .notifying).callers[j]? = _
      rw [hcallers, if_neg hkj]
      exact hs.entered j hj
    · exact absurd (hstop.2.symm.trans hrun) (by decide)
  · refine ⟨?_, ?_, fun j hj => ?_, fun hrun j hj => ?_, hs.hands, hs.takers⟩
    · show s.entered ++ [k] = s.taken.map (·.2) ++ (s.queue ++ [k])
      rw [hs.order, List.append_assoc]
    · rw [List.nodup_append]
      refine ⟨hs.nodup, by simp, fun x hx y hy => ?_⟩
      rintro rfl
      exact hout (List.mem_singleton.mp hy ▸ hx)
    · show (s.putCaller k .notifying).callers[j]? = _ ∨ (s.putCaller k .notifying).callers[j]? = _
      rw [hcallers]
      split
      · exact .inl rfl
      · next hkj =>
        rcases List.mem_append.mp hj with hj | hj
        · exact hs.entered j hj
        · exact absurd (List.mem_singleton.mp hj).symm hkj
    · change (s.putCaller k .notifying).callers[j]? = _ ∨
        (s.putCaller k .notifying).callers[j]? = _ at hj
      rw [hcallers] at hj
      split at hj
      · next hkj => exact List.mem_append_right _ (by simp [hkj])
      · exact List.mem_append_left _ (hs.whole hrun j hj)

theorem Booked.call (hs : Booked kind n s) :
    Booked kind n { s with callers := s.callers ++ [.entering] } := by
  refine ⟨hs.order, hs.nodup, fun j hj => ?_, fun hrun j hj => ?_, hs.hands, hs.takers⟩
  · rcases hs.entered j hj with h | h
    · exact .inl (List.getElem?_append_left (List.getElem?_eq_some_iff.mp h).1 |>.trans h)
    · exact .inr (List.getElem?_append_left (List.getElem?_eq_some_iff.mp h).1 |>.trans h)
  · refine hs.whole hrun j ?_
    change (s.callers ++ [.entering])[j]? = _ ∨ (s.callers ++ [.entering])[j]? = _ at hj
    rw [List.getElem?_append] at hj
    split at hj
    · exact hj
    · rcases hj with h | h <;>
      · obtain ⟨hlt, h⟩ := List.getElem?_eq_some_iff.mp h
        rw [List.getElem_singleton] at h
        cases h

theorem booked_step (hs : Booked kind n s) (h : kind.step s a = some t) : Booked kind n t := by
  cases moves_of_step h with
  | check i hi =>
    have hw : (if s.running then Worker.locking else .ended).hand = Worker.top.hand := by
      split <;> rfl
    exact hs.put hi hw
  | acquire i w hi hw _ =>
    refine hs.put_lock hi ?_
    rcases hw with rfl | rfl <;> rfl
  | test i hi =>
    have hw : (if s.running ∧ s.queue = [] then Worker.window else .passed).hand =
        Worker.testing.hand := by
      split <;> rfl
    exact hs.put hi hw
  | sleep i hi => exact hs.put_lock hi rfl
  | wake i hi => exact hs.put hi rfl
  | leave i hi => exact hs.leave hi
  | skip i tasks hi hskip =>
    cases tasks with
    | nil => exact hs.put hi rfl
    | cons task tasks =>
      obtain ⟨horder, hnodup, hentered, hwhole, -, htakers⟩ := hs
      have hall : kind.takesAll = true := by simpa using hskip.imp_right And.left
      refine ⟨horder, hnodup, hentered, hwhole, fun hone => ?_, ?_, htakers.2⟩
      · exact absurd (hone.symm.trans hall) (by decide)
      · show (s.workers.set i .top).length = n
        rw [List.length_set, htakers.1]
  | work i task tasks hi _ => exact hs.work hi
  | call => exact hs.call
  | enter k wakes hk _ => exact hs.putCaller hk (by simp)
  | push k wakes hk => exact hs.push hk
  | notify k wakes u hk hu =>
    have hwakes := (notifyOne_cases hu).1
    have hbooked := hs.woken hwakes
    have hcall : u.callers[k]? = some .notifying := by rw [hwakes.rest]; exact hk
    exact hbooked.putCaller hcall (by simp)
  | flag wakes _ =>
    exact ⟨hs.order, hs.nodup, hs.entered, fun hrun => (by cases hrun), hs.hands, hs.takers⟩
  | release wakes u _ hu =>
    obtain ⟨horder, hnodup, hentered, hwhole, hhands, htakers⟩ := hs.woken (wakes_notifyExit hu)
    exact ⟨horder, hnodup, hentered, hwhole, hhands, htakers⟩

/-! ### No task waits for nobody -/

theorem window_put (hi : s.workers[i]? = some v) (hw : w ≠ .window)
    (hj : (s.put i w).workers[j]? = some .window) : s.workers[j]? = some .window := by
  rw [getElem?_put hi] at hj
  split at hj
  · exact absurd (Option.some.inj hj) hw
  · exact hj

theorem window_wakes (hw : Wakes s t) (hj : t.workers[j]? = some .window) :
    s.workers[j]? = some .window := by
  rcases hw.workers j with hsame | ⟨-, hwoken⟩
  · exact hsame.symm.trans hj
  · exact absurd (hwoken.symm.trans hj) (by simp)

/-- While a worker is between its test and `wait` the queue stays empty: it is inside the mutex. -/
def NoGap (s : State) : Prop := ∀ i : Nat, s.workers[i]? = some .window → s.queue = []

theorem noGap_step (hlocked : Locked s.workers s.callers s.lock) (hs : NoGap s)
    (h : kind.step s a = some t) : NoGap t := by
  intro j hj
  cases moves_of_step h with
  | check i hi => exact hs j (window_put hi (by split <;> simp) hj)
  | acquire i w hi _ _ => exact hs j (window_put hi (by simp) hj)
  | test i hi =>
    by_cases hempty : s.running = true ∧ s.queue = []
    · exact hempty.2
    · rw [if_neg hempty] at hj
      exact hs j (window_put hi (by simp) hj)
  | sleep i hi => exact hs j (window_put hi (by simp) hj)
  | wake i hi => exact hs j (window_put hi (by simp) hj)
  | leave i hi =>
    unfold Kind.leave at hj ⊢
    split at hj
    · next hstop =>
      rw [if_pos hstop]
      exact hs j (window_put hi (by simp) hj)
    · next hstop =>
      rw [if_neg hstop]
      have hnil := hs j (window_put hi (by simp) hj)
      show s.queue.drop _ = []
      rw [hnil, List.drop_nil]
  | skip i tasks hi _ => exact hs j (window_put hi (by simp) hj)
  | work i task tasks hi _ => exact hs j (window_put hi (by simp) hj)
  | call => exact hs j hj
  | enter k wakes _ _ => exact hs j hj
  | push k wakes hk =>
    have hold : s.workers[j]? = some .window := by
      unfold Kind.push at hj
      split at hj <;> exact hj
    have howner := (hlocked.worker j _ hold).mp rfl
    have hcaller := (hlocked.caller k _ hk).mp rfl
    exact absurd (howner.symm.trans hcaller) (by simp)
  | notify k wakes u hk hu =>
    have hwakes := (notifyOne_cases hu).1
    have hnil := hs j (window_wakes hwakes hj)
    rw [hwakes.rest]
    exact hnil
  | flag wakes _ => exact hs j hj
  | release wakes u _ hu =>
    have hwakes := wakes_notifyExit hu
    have hnil := hs j (window_wakes hwakes hj)
    rw [hwakes.rest]
    exact hnil

theorem running_step (hs : s.running = true ↔ s.leaver = .staying) (h : kind.step s a = some t) :
    t.running = true ↔ t.leaver = .staying := by
  cases moves_of_step h with
  | leave i hi => unfold Kind.leave; split <;> exact hs
  | push k wakes hk => unfold Kind.push; split <;> exact hs
  | notify k wakes u hk hu =>
    rw [(notifyOne_cases hu).1.rest]
    exact hs
  | flag wakes hl => simp
  | release wakes u hl hu =>
    rw [(wakes_notifyExit hu).rest]
    simp [hs, hl]
  | _ => exact hs

/-- While the flag is set, a task in the queue has a worker that is awake, or a notification that is
still to be issued. -/
def Awake (s : State) : Prop :=
  s.running = true → s.queue = [] ∨ .notifying ∈ s.callers ∨ ∃ w ∈ s.workers, w ≠ .asleep

theorem awake_put (hi : s.workers[i]? = some v) (hw : w ≠ .asleep) :
    ∃ x ∈ (s.put i w).workers, x ≠ .asleep := by
  have hmem : (s.put i w).workers[i]? = some w := by rw [getElem?_put hi, if_pos rfl]
  exact ⟨w, List.mem_of_getElem? hmem, hw⟩

/-- A call that is not at its notification goes on. -/
theorem notifying_putCaller {c d : Caller} (hk : s.callers[k]? = some d) (hd : d ≠ .notifying)
    (h : .notifying ∈ s.callers) : .notifying ∈ (s.putCaller k c).callers := by
  obtain ⟨j, hj⟩ := List.mem_iff_getElem?.mp h
  have hkj : k ≠ j := by
    rintro rfl
    exact hd (Option.some.inj (hk.symm.trans hj))
  have hmem : (s.putCaller k c).callers[j]? = some .notifying := by
    rw [getElem?_putCaller hk, if_neg hkj, hj]
  exact List.mem_of_getElem? hmem

theorem awake_step (hrunning : s.running = true ↔ s.leaver = .staying) (hgap : NoGap s)
    (hn : s.workers ≠ []) (hs : Awake s) (h : kind.step s a = some t) : Awake t := by
  intro hrun
  cases moves_of_step h with
  | check i hi => exact .inr (.inr (awake_put hi (by split <;> simp)))
  | acquire i w hi _ _ => exact .inr (.inr (awake_put hi (by simp)))
  | test i hi => exact .inr (.inr (awake_put hi (by split <;> simp)))
  | sleep i hi => exact .inl (hgap i hi)
  | wake i hi => exact .inr (.inr (awake_put hi (by simp)))
  | leave i hi =>
    refine .inr (.inr ?_)
    unfold Kind.leave
    split
    · exact awake_put hi (by simp)
    · exact awake_put hi (by simp)
  | skip i tasks hi _ => exact .inr (.inr (awake_put hi (by simp)))
  | work i task tasks hi _ => exact .inr (.inr (awake_put hi (by simp)))
  | call =>
    rcases hs hrun with hnil | hnotify | hawake
    · exact .inl hnil
    · exact .inr (.inl (List.mem_append_left _ hnotify))
    · exact .inr (.inr hawake)
  | enter k wakes hk _ =>
    rcases hs hrun with hnil | hnotify | hawake
    · exact .inl hnil
    · exact .inr (.inl (notifying_putCaller hk (by simp) hnotify))
    · exact .inr (.inr hawake)
  | push k wakes hk =>
    have hmem : (s.putCaller k .notifying).callers[k]? = some .notifying := by
      rw [getElem?_putCaller hk, if_pos rfl]
    refine .inr (.inl ?_)
    unfold Kind.push
    split <;> exact List.mem_of_getElem? hmem
  | notify k wakes u hk hu =>
    refine .inr (.inr ?_)
    obtain ⟨-, ⟨rfl, hnone⟩ | ⟨i, hi, rfl⟩⟩ := notifyOne_cases hu
    · obtain ⟨w, hw⟩ := List.exists_mem_of_ne_nil _ hn
      exact ⟨w, hw, fun hasleep => hnone (hasleep ▸ hw)⟩
    · exact awake_put hi (by simp)
  | flag wakes _ => cases hrun
  | release wakes u hl hu =>
    rw [(wakes_notifyExit hu).rest] at hrun
    exact absurd (hl.symm.trans (hrunning.mp hrun)) (by simp)

/-- What every reachable state of a pool with workers keeps. -/
structure Kept (kind : Kind) (n : Nat) (s : State) : Prop where
  locked : Locked s.workers s.callers s.lock
  booked : Booked kind n s
  gap : NoGap s
  running : s.running = true ↔ s.leaver = .staying
  awake : 1 ≤ n → Awake s

theorem kept_of_run (h : Run kind.step Free (start n) as s) : Kept kind n s := by
  refine h.invariant (Kept kind n) (fun s a t hs _ hst => ?_) ?_
  · obtain ⟨hlocked, hbooked, hgap, hrunning, hawake⟩ := hs
    refine ⟨locked_step hlocked hst, booked_step hbooked hst, noGap_step hlocked hgap hst,
      running_step hrunning hst, fun hn => ?_⟩
    have hne : s.workers ≠ [] := by
      rw [← List.length_pos_iff, hbooked.takers.1]
      exact hn
    exact awake_step hrunning hgap hne (hawake hn) hst
  · refine ⟨locked_start n, booked_start kind n, fun i hi => rfl, by simp [start], fun _ _ => .inl rfl⟩

end NetworkUtility.Monitor
