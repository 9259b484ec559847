import NetworkUtility.WebsocketClient.Model

/-! What one step of each thread can do, said once. Every invariant is proved by cases on these. -/
namespace NetworkUtility.WebsocketClient

variable {inline : Bool} {s t : State} {a : Action} {c : Closing} {c' : Option Closing}

namespace State

/-- `real_close`: the pointer is not set, the connection is closed already, or it is terminated with its
handler called in place or queued; the handler finds its own connection or another. -/
inductive ClosingEffect (inline : Bool) (s : State) : Closing → State → Option Closing → Prop
  | unset : s.connection = none → ClosingEffect inline s .terminate s (some .stop)
  | ended (k : Nat) : s.connection = some k → s.status k = .closed →
      ClosingEffect inline s .terminate s (some .reset)
  | inlined (k : Nat) : s.connection = some k → s.status k ≠ .closed → inline = true →
      ClosingEffect inline s .terminate (s.setStatus k .closed) (some (.handler k))
  | queued (k : Nat) : s.connection = some k → s.status k ≠ .closed → inline = false →
      ClosingEffect inline s .terminate { s.setStatus k .closed with queue := s.queue ++ [k] }
        (some .reset)
  | own (k : Nat) : s.connection = some k →
      ClosingEffect inline s (.handler k) { s with connection := none } (some .handlerClose)
  | foreign (k : Nat) : s.connection ≠ some k → ClosingEffect inline s (.handler k) s (some .reset)
  | handlerClose : ClosingEffect inline s .handlerClose s.onClose (some .reset)
  | reset : ClosingEffect inline s .reset { s with connection := none } (some .stop)
  | stop : ClosingEffect inline s .stop { s with stopped := true } (some .join)
  | join : s.joins = true → ClosingEffect inline s .join { s with work := .none } (some .notify)
  | notify : ClosingEffect inline s .notify s.onClose none

/-- The event thread, with the outcome of each test. -/
inductive EventEffect (inline : Bool) (s : State) : State → Prop
  | take (event : Bool) (rest : List Bool) :
      s.event = .idle → s.running = true → s.eventList = event :: rest →
      EventEffect inline s { s with
        eventList := rest
        event := if event then .connect else .closeTest }
  | halt : s.event = .idle → s.running = false → EventEffect inline s { s with event := .returned }
  | connect : s.event = .connect → s.running = true →
      EventEffect inline s { s with event := .connectTest }
  | connectHalted : s.event = .connect → s.running = false →
      EventEffect inline s { s with event := .connectOff }
  | connectOff : s.event = .connectOff →
      EventEffect inline s { s with callback := true, event := .idle }.onClose
  | connectOpen : s.event = .connectTest → s.isConnected = true →
      EventEffect inline s { s with event := .connectClose .terminate }
  | connectShut : s.event = .connectTest → s.isConnected = false →
      EventEffect inline s { s with event := .connectJoin }
  | connectGoes (c d : Closing) (u : State) : s.event = .connectClose c →
      s.stepClosing inline c = some (u, some d) →
      EventEffect inline s { u with event := .connectClose d }
  | connectDone (c : Closing) (u : State) : s.event = .connectClose c →
      s.stepClosing inline c = some (u, none) → EventEffect inline s { u with event := .connectStart }
  | connectJoin : s.event = .connectJoin → s.joins = true →
      EventEffect inline s { s with work := .none, event := .connectStart }
  | connectStart : s.event = .connectStart →
      EventEffect inline s { s with threads := s.threads + 1, work := .start, event := .idle }
  | closeOpen : s.event = .closeTest → s.isConnected = true →
      EventEffect inline s { s with event := .close .terminate }
  | closeShut : s.event = .closeTest → s.isConnected = false →
      EventEffect inline s { s with event := .idle }
  | closeGoes (c d : Closing) (u : State) : s.event = .close c →
      s.stepClosing inline c = some (u, some d) → EventEffect inline s { u with event := .close d }
  | closeDone (c : Closing) (u : State) : s.event = .close c →
      s.stepClosing inline c = some (u, none) → EventEffect inline s { u with event := .idle }

/-- The work thread. A handler finds its own connection or another. -/
inductive WorkEffect (s : State) : State → Prop
  | start : s.work = .start → WorkEffect s { s with callback := true, work := .connect }
  | refused : s.work = .refused → WorkEffect s { s with work := .run }.onClose
  | openedOwn : s.work = .opened → s.connection = some s.threads →
      WorkEffect s { s with work := .connected }
  | openedForeign : s.work = .opened → s.connection ≠ some s.threads →
      WorkEffect s { s with work := .run }
  | connected : s.work = .connected → WorkEffect s { s with work := .run }.onConnect
  | message (packet : Bytes) (binary : Bool) : s.work = .message packet binary →
      WorkEffect s { s with
        work := .run
        log := s.log ++ [(s.threads, .recv packet binary)] }
  | own (k : Nat) : s.work = .handler k → s.connection = some k →
      WorkEffect s { s with connection := none, work := .closed }
  | foreign (k : Nat) : s.work = .handler k → s.connection ≠ some k →
      WorkEffect s { s with work := .run }
  | closed : s.work = .closed → WorkEffect s { s with work := .run }.onClose
  | leave : s.work = .run →
      (s.stopped ∨ s.queue = [] ∧ (s.status s.threads = .absent ∨ s.status s.threads = .closed)) →
      WorkEffect s { s with stopped := true, work := .returned }

/-- The thread in `exit`. -/
inductive ExitEffect (inline : Bool) (s : State) : State → Prop
  | call : s.exit = .none → s.running = true →
      ExitEffect inline s { s with running := false, exit := .closeTest }
  | closeOpen : s.exit = .closeTest → s.isConnected = true →
      ExitEffect inline s { s with exit := .close .terminate }
  | closeShut : s.exit = .closeTest → s.isConnected = false →
      ExitEffect inline s { s with exit := .joinEvent }
  | closeGoes (c d : Closing) (u : State) : s.exit = .close c →
      s.stepClosing inline c = some (u, some d) → ExitEffect inline s { u with exit := .close d }
  | closeDone (c : Closing) (u : State) : s.exit = .close c →
      s.stepClosing inline c = some (u, none) → ExitEffect inline s { u with exit := .joinEvent }
  | joinEvent : s.exit = .joinEvent → s.event = .returned →
      ExitEffect inline s { s with exit := .joinWork }
  | joinWork : s.exit = .joinWork → s.joins = true →
      ExitEffect inline s { s with
        work := .none
        eventList := []
        callbackList := []
        callback := false
        exit := .returned }

theorem effect_of_closing (h : s.stepClosing inline c = some (t, c')) :
    ClosingEffect inline s c t c' := by
  cases c with
  | terminate =>
    simp only [stepClosing] at h
    split at h
    · next hconn =>
      cases h
      exact .unset hconn
    · next k hconn =>
      split at h
      · next hclosed =>
        cases h
        exact .ended k hconn hclosed
      · next hopen =>
        split at h
        · next hinline =>
          cases h
          exact .inlined k hconn hopen hinline
        · next hinline =>
          cases h
          exact .queued k hconn hopen (Bool.not_eq_true _ ▸ hinline)
  | handler k =>
    simp only [stepClosing] at h
    split at h
    · next hconn =>
      cases h
      exact .own k hconn
    · next hconn =>
      cases h
      exact .foreign k hconn
  | handlerClose =>
    cases h
    exact .handlerClose
  | reset =>
    cases h
    exact .reset
  | stop =>
    cases h
    exact .stop
  | join =>
    simp only [stepClosing, Option.ite_none_right_eq_some, Option.some.injEq, Prod.mk.injEq] at h
    obtain ⟨hj, rfl, rfl⟩ := h
    exact .join hj
  | notify =>
    cases h
    exact .notify

theorem effect_of_event (h : s.stepEvent inline = some t) : EventEffect inline s t := by
  simp only [stepEvent] at h
  split at h
  · next hevent =>
    split at h
    · next hrunning =>
      split at h
      · cases h
      · next event rest hlist =>
        cases h
        exact .take event rest hevent hrunning hlist
    · next hrunning =>
      cases h
      exact .halt hevent (Bool.not_eq_true _ ▸ hrunning)
  · next hevent =>
    cases h
    split
    · next hrunning => exact .connect hevent hrunning
    · next hrunning => exact .connectHalted hevent (Bool.not_eq_true _ ▸ hrunning)
  · next hevent =>
    cases h
    exact .connectOff hevent
  · next hevent =>
    cases h
    split
    · next hconn => exact .connectOpen hevent hconn
    · next hconn => exact .connectShut hevent (Bool.not_eq_true _ ▸ hconn)
  · next c hevent =>
    obtain ⟨⟨u, c'⟩, hu, rfl⟩ := Option.map_eq_some_iff.mp h
    cases c' with
    | none => exact .connectDone c u hevent hu
    | some d => exact .connectGoes c d u hevent hu
  · next hevent =>
    simp only [Option.ite_none_right_eq_some, Option.some.injEq] at h
    obtain ⟨hj, rfl⟩ := h
    exact .connectJoin hevent hj
  · next hevent =>
    cases h
    exact .connectStart hevent
  · next hevent =>
    cases h
    split
    · next hconn => exact .closeOpen hevent hconn
    · next hconn => exact .closeShut hevent (Bool.not_eq_true _ ▸ hconn)
  · next c hevent =>
    obtain ⟨⟨u, c'⟩, hu, rfl⟩ := Option.map_eq_some_iff.mp h
    cases c' with
    | none => exact .closeDone c u hevent hu
    | some d => exact .closeGoes c d u hevent hu
  · cases h

theorem effect_of_work (h : s.stepWork = some t) : WorkEffect s t := by
  simp only [stepWork] at h
  split at h
  · next hw =>
    cases h
    exact .start hw
  · next hw =>
    cases h
    exact .refused hw
  · next hw =>
    cases h
    split
    · next hconn => exact .openedOwn hw hconn
    · next hconn => exact .openedForeign hw hconn
  · next hw =>
    cases h
    exact .connected hw
  · next packet binary hw =>
    cases h
    exact .message packet binary hw
  · next k hw =>
    split at h
    · next hconn =>
      cases h
      exact .own k hw hconn
    · next hconn =>
      cases h
      exact .foreign k hw hconn
  · next hw =>
    cases h
    exact .closed hw
  · next hw =>
    simp only [Option.ite_none_right_eq_some, Option.some.injEq] at h
    obtain ⟨hends, rfl⟩ := h
    exact .leave hw hends
  · cases h

theorem effect_of_exit (h : s.stepExit inline = some t) : ExitEffect inline s t := by
  simp only [stepExit] at h
  split at h
  · next hexit =>
    simp only [Option.ite_none_right_eq_some, Option.some.injEq] at h
    obtain ⟨hrunning, rfl⟩ := h
    exact .call hexit hrunning
  · next hexit =>
    cases h
    split
    · next hconn => exact .closeOpen hexit hconn
    · next hconn => exact .closeShut hexit (Bool.not_eq_true _ ▸ hconn)
  · next c hexit =>
    obtain ⟨⟨u, c'⟩, hu, rfl⟩ := Option.map_eq_some_iff.mp h
    cases c' with
    | none => exact .closeDone c u hexit hu
    | some d => exact .closeGoes c d u hexit hu
  · next hexit =>
    simp only [Option.ite_none_right_eq_some, Option.some.injEq] at h
    obtain ⟨hevent, rfl⟩ := h
    exact .joinEvent hexit hevent
  · next hexit =>
    simp only [Option.ite_none_right_eq_some, Option.some.injEq] at h
    obtain ⟨hj, rfl⟩ := h
    exact .joinWork hexit hj
  · cases h

end State

/-- The steps of `step`. Those of a thread are taken apart on their own. -/
inductive Effect (inline : Bool) (s : State) : Action → State → Prop
  | connect : Effect inline s .connect { s with
      eventList := s.eventList ++ [true]
      calls := s.calls ++ [true] }
  | close : Effect inline s .close { s with
      eventList := s.eventList ++ [false]
      calls := s.calls ++ [false] }
  | exit (t : State) : s.stepExit inline = some t → Effect inline s .exit t
  | event (t : State) : s.stepEvent inline = some t → Effect inline s .event t
  | work (t : State) : s.stepWork = some t → Effect inline s .work t
  | callback (k : Nat) (connected : Bool) (rest : List (Nat × Bool)) :
      s.callbackList = (k, connected) :: rest → s.running = true →
      Effect inline s .callback { s with
        callbackList := rest
        log := s.log ++ [(k, if connected then .connect else .close)] }
  | realConnect (failure : Option String) : s.work = .connect →
      Effect inline s (.realConnect failure) (s.realConnect failure)
  | opened : s.work = .run → s.stopped = false → s.status s.threads = .connecting →
      Effect inline s .opened { s.setStatus s.threads .opened with work := .opened }
  | receive (packet : Bytes) (binary : Bool) :
      s.work = .run → s.status s.threads = .opened → packet ≠ [] →
      Effect inline s (.receive packet binary) { s with work := .message packet binary }
  | closing : s.work = .run → s.status s.threads = .opened →
      Effect inline s .closing (s.setStatus s.threads .closing)
  | terminated : s.work = .run → s.stopped = false → s.status s.threads ≠ .absent →
      s.status s.threads ≠ .closed →
      Effect inline s .terminated { s.setStatus s.threads .closed with
        queue := s.queue ++ [s.threads] }
  | handle (i k : Nat) : s.work = .run → s.stopped = false → s.queue[i]? = some k →
      Effect inline s (.handle i) { s with queue := s.queue.eraseIdx i, work := .handler k }

theorem effect_of_step (h : step inline s a = some t) : Effect inline s a t := by
  cases a with
  | connect =>
    cases h
    exact .connect
  | close =>
    cases h
    exact .close
  | exit => exact .exit t h
  | event => exact .event t h
  | work => exact .work t h
  | callback =>
    simp only [step] at h
    split at h
    · cases h
    · next k connected rest hlist =>
      simp only [Option.ite_none_right_eq_some, Option.some.injEq] at h
      obtain ⟨hrunning, rfl⟩ := h
      exact .callback k connected rest hlist hrunning
  | realConnect failure =>
    simp only [step, Option.ite_none_right_eq_some, Option.some.injEq] at h
    obtain ⟨hw, rfl⟩ := h
    exact .realConnect failure hw
  | opened =>
    simp only [step, Option.ite_none_right_eq_some, Option.some.injEq] at h
    obtain ⟨⟨hw, hstopped, hst⟩, rfl⟩ := h
    exact .opened hw hstopped hst
  | receive packet binary =>
    simp only [step, Option.ite_none_right_eq_some, Option.some.injEq] at h
    obtain ⟨⟨hw, hst, hpacket⟩, rfl⟩ := h
    exact .receive packet binary hw hst hpacket
  | closing =>
    simp only [step, Option.ite_none_right_eq_some, Option.some.injEq] at h
    obtain ⟨⟨hw, hst⟩, rfl⟩ := h
    exact .closing hw hst
  | terminated =>
    simp only [step, Option.ite_none_right_eq_some, Option.some.injEq] at h
    obtain ⟨⟨hw, hstopped, habsent, hclosed⟩, rfl⟩ := h
    exact .terminated hw hstopped habsent hclosed
  | handle i =>
    simp only [step, Option.ite_none_right_eq_some] at h
    obtain ⟨⟨hw, hstopped⟩, h⟩ := h
    obtain ⟨k, hk, rfl⟩ := Option.map_eq_some_iff.mp h
    exact .handle i k hw hstopped hk

end NetworkUtility.WebsocketClient
