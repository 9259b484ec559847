import NetworkUtility.Lib.Monitor.Queue
import NetworkUtility.Lib.Monitor.Release

/-! `TaskActuator`: its worker loop, `async_exec` and its destructor. How `~TaskActuator` and the
`exit` of the clients and of `MulticastHelperImpl` end the threads that wait on a condition variable:
`m_running` is cleared and the notification sent without the mutex. -/
namespace NetworkUtility

open Machine Monitor

namespace TaskActuator

/-- A worker takes one task, and breaks behind its wait loop when `m_running` is false; `async_exec`
drops the task then; the destructor calls `notify_all`. -/
def actuator : Kind where
  takesAll := false
  rechecks := true
  guarded := true
  wakesAll := true

variable {n : Nat} {as : List Action} {s : State}

/-- Tasks leave the queue as they have entered it, each into the hand of one worker, who runs what it
has taken. While `m_running` holds no task is dropped, and the workers are not all asleep over a task
that no `notify_one` is still to be issued for. -/
theorem tasks_run_once (hn : 1 ≤ n) (h : Run actuator.step Free (start n) as s) :
    s.entered = s.taken.map (·.2) ++ s.queue ∧ s.entered.Nodup ∧ (∀ x ∈ s.taken, x.1 < n) ∧
    (∀ i, byWorker i s.taken = byWorker i s.ran ++ s.hand i) ∧
    (s.running = true → ∀ k : Nat, k ∈ s.entered ↔
      s.callers[k]? = some .notifying ∨ s.callers[k]? = some .finished) ∧
    ¬ (s.running = true ∧ s.queue ≠ [] ∧ (∀ w ∈ s.workers, w = .asleep) ∧
      .notifying ∉ s.callers) := by
  obtain ⟨-, hbooked, -, -, hawake⟩ := kept_of_run h
  refine ⟨hbooked.order, hbooked.nodup, hbooked.takers.2, hbooked.hands rfl,
    fun hrun k => ⟨hbooked.entered k, hbooked.whole hrun k⟩, ?_⟩
  rintro ⟨hrun, hqueue, hasleep, hnotify⟩
  rcases hawake hn hrun with hnil | hmem | ⟨w, hw, hne⟩
  · exact hqueue hnil
  · exact hnotify hmem
  · exact hne (hasleep w hw)

/-- The worker sleeps when the task comes, is woken and runs it. -/
theorem tasks_run_once_example : ∃ as s, Run actuator.step Free (start 1) as s ∧
    s.running = true ∧ byWorker 0 s.taken = [0] ∧
    byWorker 0 s.taken = byWorker 0 s.ran ++ s.hand 0 := by
  have hrun := run_exec actuator.step Free (start 1)
    [.worker 0, .worker 0, .worker 0, .worker 0, .call, .caller 0 none, .caller 0 none,
      .caller 0 (some 0), .worker 0, .worker 0, .worker 0, .worker 0] (by decide)
  exact ⟨_, _, hrun, by decide, by decide, (tasks_run_once (Nat.le_refl 1) hrun).2.2.2.1 0⟩

end TaskActuator

/-- One thread swaps the whole list out and goes through it while `m_running` holds; `exit` calls
`notify_one`. -/
def swapThread : Kind where
  takesAll := true
  rechecks := false
  guarded := false
  wakesAll := false

/-- `handle_data`; the handler of `do_recv` appends to `m_recv_data_list`. -/
def MulticastHelper.handleData : Kind := swapThread

/-- The loop of `m_event_thread`; `connect` and `close` append to `m_event_list`. -/
def EnetClient.eventThread : Kind := swapThread

/-- The loop of `m_callback_thread`; `on_connect` and `on_close` append to `m_callback_list`. -/
def EnetClient.callbackThread : Kind := swapThread

def WebsocketClient.eventThread : Kind := swapThread

def WebsocketClient.callbackThread : Kind := swapThread

namespace TaskActuator

/-- Whatever its `n` workers are doing, the notification behind the cleared flag lets every join
return. -/
def JoinsReturn (kind : Kind) (n : Nat) : Prop :=
  ∀ as s wakes t, Run kind.step Free (start n) as s → s.leaver = .flagged →
    kind.step s (.exit wakes) = some t → Joinable kind t

/-- The joins return when no worker is between its test and `wait` at the notification, and only then. -/
def JoinsReturnUnlessWindow (kind : Kind) (n : Nat) : Prop :=
  ∀ as s wakes t, Run kind.step Free (start n) as s → s.leaver = .flagged →
    kind.step s (.exit wakes) = some t → (Joinable kind t ↔ .window ∉ s.workers)

theorem unlessWindow_actuator (n : Nat) : JoinsReturnUnlessWindow actuator n :=
  fun _ _ _ _ h hleaver hst => joinable_iff (.inl rfl) (.inl rfl) h hleaver hst

theorem unlessWindow_swapThread : JoinsReturnUnlessWindow swapThread 1 :=
  fun _ _ _ _ h hleaver hst => joinable_iff (.inr rfl) (.inr (Nat.le_refl 1)) h hleaver hst

/-- All six loops are stopped in the same way. -/
theorem joins_return_iff (n : Nat) : JoinsReturnUnlessWindow actuator n ∧
    JoinsReturnUnlessWindow MulticastHelper.handleData 1 ∧
    JoinsReturnUnlessWindow EnetClient.eventThread 1 ∧
    JoinsReturnUnlessWindow EnetClient.callbackThread 1 ∧
    JoinsReturnUnlessWindow WebsocketClient.eventThread 1 ∧
    JoinsReturnUnlessWindow WebsocketClient.callbackThread 1 :=
  ⟨unlessWindow_actuator n, unlessWindow_swapThread, unlessWindow_swapThread,
    unlessWindow_swapThread, unlessWindow_swapThread, unlessWindow_swapThread⟩

/-- Two workers, one asleep and one on its way to the mutex, are stopped. -/
theorem joins_return_iff_example : ∃ as s t, Run actuator.step Free (start 2) as s ∧
    actuator.step s (.exit none) = some t ∧ s.workers = [.asleep, .locking] ∧
    Joinable actuator t := by
  have hrun := run_exec actuator.step Free (start 2)
    [.worker 0, .worker 0, .worker 0, .worker 0, .worker 1, .exit none] (by decide)
  exact ⟨_, _, _, hrun, rfl, by decide,
    ((joins_return_iff 2).1 _ _ none _ hrun (by decide) rfl).mpr (by decide)⟩

/-- The worker has tested, the flag is cleared, the notification finds nobody asleep, and the worker
sleeps. -/
theorem notification_lost : ¬ JoinsReturn actuator 1 := by
  intro h
  have hrun := run_exec actuator.step Free (start 1)
    [.worker 0, .worker 0, .worker 0, .exit none] (by decide)
  have hjoin := h _ _ none _ hrun (by decide) rfl
  exact absurd (hjoin.awake [.worker 0] _ (.cons trivial rfl (.nil _))) (by decide)

end TaskActuator

end NetworkUtility
