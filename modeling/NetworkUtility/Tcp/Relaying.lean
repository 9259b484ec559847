import NetworkUtility.Lib.Index
import NetworkUtility.Lib.Machine
import NetworkUtility.Tcp.Session

/-! `do_recv` of `TcpForwardSession` and `TcpGatewaySession` with its buffers: the operations that are
outstanding, each with the arguments its handlers have captured, and the memory they read into and
write from. `Session` is the same without the memory. -/
namespace NetworkUtility.Tcp

open Machine Relay

/-- The end whose socket and buffer are meant. -/
inductive Side
  | localSide
  | remoteSide
  deriving DecidableEq, Repr

def Side.other : Side → Side
  | localSide => remoteSide
  | remoteSide => localSide

/-- The arguments of `do_recv`. -/
structure DoRecv where
  recvSocket : Side
  sendSocket : Side
  recvBuffer : Side
  localRecv : Bool
  deriving DecidableEq, Repr

/-- An `async_read_some`, the same when it has completed, and an `async_write` of the first `len` bytes
of the buffer that has written `done` of them. -/
inductive Stage
  | reading
  | received (len : Nat)
  | writing (done len : Nat)
  deriving DecidableEq, Repr

structure Operation where
  call : DoRecv
  stage : Stage
  deriving DecidableEq, Repr

/-- The sockets with what has gone through them since `start`. -/
structure Relaying where
  socket : Side → Socket UInt8
  buffer : Side → Bytes
  outstanding : List Operation
  stopped : Bool

namespace Relaying

def doRecv (s : Relaying) (call : DoRecv) : Relaying :=
  { s with outstanding := s.outstanding ++ [⟨call, .reading⟩] }

/-- The handler of the read. -/
def asyncWrite (s : Relaying) (call : DoRecv) (len : Nat) : Relaying :=
  { s with outstanding := s.outstanding ++ [⟨call, .writing 0 len⟩] }

/-- The calls that `start` makes. -/
def call : Side → DoRecv
  | .localSide => ⟨.localSide, .remoteSide, .localSide, true⟩
  | .remoteSide => ⟨.remoteSide, .localSide, .remoteSide, false⟩

def started : Relaying :=
  doRecv (doRecv ⟨fun _ => .fresh, fun _ => List.replicate bufferSize 0, [], false⟩
    (call .localSide)) (call .remoteSide)

/-- Bytes arrive for a read, a write takes bytes from its buffer, a handler runs, an operation fails and
its handler stops the session. -/
inductive Action
  | arrive (i : Nat) (data : Bytes)
  | write (i n : Nat)
  | run (i : Nat)
  | fail (i : Nat)
  deriving DecidableEq, Repr

def Action.index : Action → Nat
  | arrive i _ | write i _ | run i | fail i => i

/-- The outstanding operation without the one at `i`. -/
def complete (s : Relaying) (i : Nat) : Relaying :=
  { s with outstanding := s.outstanding.eraseIdx i }

def arrive (s : Relaying) (i : Nat) (c : DoRecv) (data : Bytes) : Relaying :=
  { s with
    socket := Function.update s.socket c.recvSocket ((s.socket c.recvSocket).receive data)
    buffer := Function.update s.buffer c.recvBuffer
      (data ++ (s.buffer c.recvBuffer).drop data.length)
    outstanding := s.outstanding.set i ⟨c, .received data.length⟩ }

def write (s : Relaying) (i : Nat) (c : DoRecv) (done len n : Nat) : Relaying :=
  { s with
    socket := Function.update s.socket c.sendSocket
      ((s.socket c.sendSocket).send (((s.buffer c.recvBuffer).drop done).take n))
    outstanding := s.outstanding.set i ⟨c, .writing (done + n) len⟩ }

def stop (s : Relaying) : Relaying := { s with stopped := true }

def step (s : Relaying) (a : Action) : Option Relaying :=
  match s.outstanding[a.index]? with
  | none => none
  | some ⟨c, stage⟩ =>
    match a, stage with
    | .arrive i data, .reading =>
      if s.stopped = false ∧ data ≠ [] ∧ data.length ≤ (s.buffer c.recvBuffer).length then
        some (s.arrive i c data)
      else none
    | .write i n, .writing done len =>
      if s.stopped = false ∧ 0 < n ∧ done + n ≤ len then some (s.write i c done len n) else none
    | .run i, .received len => some ((s.complete i).asyncWrite c len)
    | .run i, .writing done len => if done = len then some ((s.complete i).doRecv c) else none
    | .fail i, .reading => some (s.complete i).stop
    | .fail i, .writing done len => if done ≠ len then some (s.complete i).stop else none
    | _, _ => none

/-! ### The state of one direction -/

def stagesOf (d : Side) (ops : List Operation) : List Stage :=
  (ops.filter fun op => op.call.recvSocket = d).map (·.stage)

/-- The bytes of the buffer that have not been written yet. -/
def held (buffer : Bytes) : Stage → Bytes
  | .reading => []
  | .received len => buffer.take len
  | .writing done len => (buffer.take len).drop done

/-- What belongs to the direction that reads from a side. -/
structure Direction where
  stages : List Stage
  buffer : Bytes
  received : Bytes
  sent : Bytes
  deriving DecidableEq, Repr

def direction (s : Relaying) (d : Side) : Direction :=
  ⟨stagesOf d s.outstanding, s.buffer d, (s.socket d).received, (s.socket d.other).sent⟩

/-- One operation is outstanding, and what has been read is what has been written and what the buffer
holds. -/
def Direction.Accounts (v : Direction) : Prop :=
  ∃ stage, v.stages = [stage] ∧ v.received = v.sent ++ held v.buffer stage

/-- A read goes into a buffer that a write takes from. -/
def Clash (s : Relaying) : Prop :=
  ∃ read ∈ s.outstanding, ∃ write ∈ s.outstanding, read.stage = .reading ∧
    (∃ done len, write.stage = .writing done len) ∧ read.call.recvBuffer = write.call.recvBuffer

/-- A step is one of the direction of its operation, and the other one stays as it is. -/
def Apart (s : Relaying) : Prop :=
  ∀ a t op, s.step a = some t → s.outstanding[a.index]? = some op →
    ∀ d, d ≠ op.call.recvSocket → t.direction d = s.direction d

variable {s t : Relaying} {a : Action} {as : List Action} {d : Side} {c : DoRecv} {stage : Stage}
  {op : Operation} {ops : List Operation} {move : Op UInt8} {i : Nat}

/-- What a step does, by the stage of its operation. -/
inductive Effect (s : Relaying) (i : Nat) (c : DoRecv) : Stage → Op UInt8 → Relaying → Prop
  | arrive (data : Bytes) : s.stopped = false → data ≠ [] →
      data.length ≤ (s.buffer c.recvBuffer).length →
      Effect s i c .reading (.read data) (s.arrive i c data)
  | write (done len n : Nat) : s.stopped = false → 0 < n → done + n ≤ len →
      Effect s i c (.writing done len) (.write n) (s.write i c done len n)
  | send (len : Nat) : Effect s i c (.received len) .run ((s.complete i).asyncWrite c len)
  | again (len : Nat) : Effect s i c (.writing len len) .run ((s.complete i).doRecv c)
  | failRead : Effect s i c .reading .error (s.complete i).stop
  | failWrite (done len : Nat) : done ≠ len →
      Effect s i c (.writing done len) .error (s.complete i).stop

theorem effect_of_step (h : s.step a = some t) : ∃ c stage move,
    s.outstanding[a.index]? = some ⟨c, stage⟩ ∧ Effect s a.index c stage move t := by
  unfold step at h
  cases hop : s.outstanding[a.index]? with
  | none => simp [hop] at h
  | some op =>
    obtain ⟨c, stage⟩ := op
    simp only [hop] at h
    refine ⟨c, stage, ?_⟩
    cases a with
    | arrive i data =>
      cases stage with
      | reading =>
        simp only [Option.ite_none_right_eq_some, Option.some.injEq] at h
        obtain ⟨⟨hopen, hne, hle⟩, rfl⟩ := h
        exact ⟨_, rfl, .arrive data hopen hne hle⟩
      | received len => cases h
      | writing done len => cases h
    | write i n =>
      cases stage with
      | reading => cases h
      | received len => cases h
      | writing done len =>
        simp only [Option.ite_none_right_eq_some, Option.some.injEq] at h
        obtain ⟨⟨hopen, hpos, hle⟩, rfl⟩ := h
        exact ⟨_, rfl, .write done len n hopen hpos hle⟩
    | run i =>
      cases stage with
      | reading => cases h
      | received len =>
        obtain rfl := Option.some.inj h
        exact ⟨_, rfl, .send len⟩
      | writing done len =>
        simp only [Option.ite_none_right_eq_some, Option.some.injEq] at h
        obtain ⟨rfl, rfl⟩ := h
        exact ⟨_, rfl, .again done⟩
    | fail i =>
      cases stage with
      | reading =>
        obtain rfl := Option.some.inj h
        exact ⟨_, rfl, .failRead⟩
      | received len => cases h
      | writing done len =>
        simp only [Option.ite_none_right_eq_some, Option.some.injEq] at h
        obtain ⟨hne, rfl⟩ := h
        exact ⟨_, rfl, .failWrite done len hne⟩

/-! ### The operations of one direction -/

theorem stagesOf_append (d : Side) (ops more : List Operation) :
    stagesOf d (ops ++ more) = stagesOf d ops ++ stagesOf d more := by
  simp [stagesOf]

theorem stagesOf_own (h : c.recvSocket = d) :
    stagesOf d (⟨c, stage⟩ :: ops) = stage :: stagesOf d ops := by
  simp [stagesOf, h]

theorem stagesOf_other (h : c.recvSocket ≠ d) : stagesOf d (⟨c, stage⟩ :: ops) = stagesOf d ops := by
  simp [stagesOf, h]

/-- Where an operation is the only one of its direction, the direction is what becomes of it. -/
theorem stages_own (hop : ops[i]? = some ⟨c, stage⟩) (hone : (stagesOf c.recvSocket ops).length ≤ 1) :
    stagesOf c.recvSocket ops = [stage] ∧ stagesOf c.recvSocket (ops.eraseIdx i) = [] ∧
      ∀ after, stagesOf c.recvSocket (ops.set i ⟨c, after⟩) = [after] := by
  obtain ⟨front, back, hl, he, hs⟩ := Index.split_at hop
  have hlen := hone
  rw [hl, stagesOf_append, stagesOf_own rfl, List.length_append, List.length_cons] at hlen
  have hfront : stagesOf c.recvSocket front = [] := List.length_eq_zero_iff.mp (by omega)
  have hback : stagesOf c.recvSocket back = [] := List.length_eq_zero_iff.mp (by omega)
  refine ⟨?_, ?_, fun after => ?_⟩
  · rw [hl, stagesOf_append, stagesOf_own rfl, hfront, hback, List.nil_append]
  · rw [he, stagesOf_append, hfront, hback, List.nil_append]
  · rw [hs, stagesOf_append, stagesOf_own rfl, hfront, hback, List.nil_append]

theorem stages_other (hop : ops[i]? = some ⟨c, stage⟩) (hd : c.recvSocket ≠ d) :
    stagesOf d (ops.eraseIdx i) = stagesOf d ops ∧
      ∀ after, stagesOf d (ops.set i ⟨c, after⟩) = stagesOf d ops := by
  obtain ⟨front, back, hl, he, hs⟩ := Index.split_at hop
  refine ⟨?_, fun after => ?_⟩
  · rw [he, hl, stagesOf_append, stagesOf_append, stagesOf_other hd]
  · rw [hs, hl, stagesOf_append, stagesOf_append, stagesOf_other hd, stagesOf_other hd]

/-- What is outstanding behind a step. -/
theorem outstanding_of_effect (h : Effect s i c stage move t) :
    (∃ after, t.outstanding = s.outstanding.set i ⟨c, after⟩) ∨
    (∃ after, t.outstanding = s.outstanding.eraseIdx i ++ [⟨c, after⟩]) ∨
    t.outstanding = s.outstanding.eraseIdx i ∧ t.stopped = true := by
  cases h with
  | arrive data => exact .inl ⟨_, rfl⟩
  | write done len n => exact .inl ⟨_, rfl⟩
  | send len => exact .inr (.inl ⟨_, rfl⟩)
  | again len => exact .inr (.inl ⟨_, rfl⟩)
  | failRead => exact .inr (.inr ⟨rfl, rfl⟩)
  | failWrite done len hne => exact .inr (.inr ⟨rfl, rfl⟩)

/-- The bytes of an operation are in its buffer. -/
def Stage.Fits : Stage → Prop
  | .reading => True
  | .received len => len ≤ bufferSize
  | .writing done len => done ≤ len ∧ len ≤ bufferSize

/-- Each direction has its own operation, its own buffer and its two sockets. -/
structure Wired (s : Relaying) : Prop where
  calls : ∀ op ∈ s.outstanding, op.call = call op.call.recvSocket
  fits : ∀ op ∈ s.outstanding, Stage.Fits op.stage
  one : ∀ d, (stagesOf d s.outstanding).length ≤ 1
  going : s.stopped = false → ∀ d, stagesOf d s.outstanding ≠ []
  sizes : ∀ d, (s.buffer d).length = bufferSize

theorem Wired.call (hs : Wired s) (hop : s.outstanding[i]? = some ⟨c, stage⟩) :
    c = call c.recvSocket := hs.calls _ (List.mem_of_getElem? hop)

theorem Wired.single (hs : Wired s) (h : stagesOf d s.outstanding ≠ []) :
    ∃ stage, stagesOf d s.outstanding = [stage] :=
  List.length_eq_one_iff.mp (Nat.le_antisymm (hs.one d) (List.length_pos_iff.mpr h))

theorem wired_started : Wired started := by
  refine ⟨?_, ?_, fun d => ?_, fun _ d => ?_, fun d => List.length_replicate⟩
  · intro op hop
    simp only [started, doRecv, List.nil_append, List.cons_append, List.mem_cons,
      List.not_mem_nil, or_false] at hop
    rcases hop with rfl | rfl
    · rfl
    · rfl
  · intro op hop
    simp only [started, doRecv, List.nil_append, List.cons_append, List.mem_cons,
      List.not_mem_nil, or_false] at hop
    rcases hop with rfl | rfl
    · trivial
    · trivial
  · cases d <;> decide
  · cases d <;> decide

/-- The new operation has the arguments of the old one and its bytes in the buffer. -/
theorem mem_of_effect (hs : Wired s) (hop : s.outstanding[i]? = some ⟨c, stage⟩)
    (h : Effect s i c stage move t) (hmem : op ∈ t.outstanding) :
    op ∈ s.outstanding ∨ op.call = c ∧ Stage.Fits op.stage := by
  have hfits := hs.fits _ (List.mem_of_getElem? hop)
  cases h with
  | arrive data hopen hne hle =>
    rcases List.mem_or_eq_of_mem_set hmem with hmem | rfl
    · exact .inl hmem
    · exact .inr ⟨rfl, hle.trans (Nat.le_of_eq (hs.sizes _))⟩
  | write done len n hopen hpos hle =>
    rcases List.mem_or_eq_of_mem_set hmem with hmem | rfl
    · exact .inl hmem
    · exact .inr ⟨rfl, hle, hfits.2⟩
  | send len =>
    rcases List.mem_append.mp hmem with hmem | hmem
    · exact .inl (List.mem_of_mem_eraseIdx hmem)
    · obtain rfl := List.mem_singleton.mp hmem
      exact .inr ⟨rfl, Nat.zero_le _, hfits⟩
  | again len =>
    rcases List.mem_append.mp hmem with hmem | hmem
    · exact .inl (List.mem_of_mem_eraseIdx hmem)
    · obtain rfl := List.mem_singleton.mp hmem
      exact .inr ⟨rfl, trivial⟩
  | failRead => exact .inl (List.mem_of_mem_eraseIdx hmem)
  | failWrite done len hne => exact .inl (List.mem_of_mem_eraseIdx hmem)

/-- The direction of the operation has its next one, or none behind an error; the other direction has
what it had. -/
theorem stages_of_effect (hs : Wired s) (hop : s.outstanding[i]? = some ⟨c, stage⟩)
    (h : Effect s i c stage move t) :
    (∀ d, d ≠ c.recvSocket → stagesOf d t.outstanding = stagesOf d s.outstanding) ∧
    stagesOf c.recvSocket s.outstanding = [stage] ∧
    ((∃ after, stagesOf c.recvSocket t.outstanding = [after]) ∨
      stagesOf c.recvSocket t.outstanding = [] ∧ t.stopped = true) := by
  obtain ⟨hown, hgone, hset⟩ := stages_own hop (hs.one _)
  have hother (d) (hd : d ≠ c.recvSocket) := stages_other (d := d) hop (Ne.symm hd)
  rcases outstanding_of_effect h with ⟨after, heq⟩ | ⟨after, heq⟩ | ⟨heq, hstop⟩
  · refine ⟨fun d hd => heq ▸ (hother d hd).2 after, hown, .inl ⟨after, heq ▸ hset after⟩⟩
  · refine ⟨fun d hd => ?_, hown, .inl ⟨after, ?_⟩⟩
    · rw [heq, stagesOf_append, (hother d hd).1, stagesOf_other (Ne.symm hd)]
      exact List.append_nil _
    · rw [heq, stagesOf_append, hgone]
      simp [stagesOf]
  · exact ⟨fun d hd => heq ▸ (hother d hd).1, hown, .inr ⟨heq ▸ hgone, hstop⟩⟩

theorem sizes_of_effect (hs : Wired s) (h : Effect s i c stage move t) (d : Side) :
    (t.buffer d).length = bufferSize := by
  have hsize := hs.sizes d
  cases h with
  | arrive data hopen hne hle =>
    by_cases hd : d = c.recvBuffer
    · subst hd
      simp only [arrive, Function.update_self, List.length_append, List.length_drop]
      omega
    · simpa [arrive, hd] using hsize
  | write done len n hopen hpos hle => exact hsize
  | send len => exact hsize
  | again len => exact hsize
  | failRead => exact hsize
  | failWrite done len hne => exact hsize

theorem stopped_of_effect (h : Effect s i c stage move t) (ht : t.stopped = false) :
    s.stopped = false := by
  cases h with
  | arrive data hopen hne hle => exact hopen
  | write done len n hopen hpos hle => exact hopen
  | send len => exact ht
  | again len => exact ht
  | failRead => cases ht
  | failWrite done len hne => cases ht

theorem wired_of_effect (hs : Wired s) (hop : s.outstanding[i]? = some ⟨c, stage⟩)
    (h : Effect s i c stage move t) : Wired t := by
  have hcall := hs.call hop
  obtain ⟨hother, -, hown⟩ := stages_of_effect hs hop h
  refine ⟨fun op hmem => ?_, fun op hmem => ?_, fun d => ?_, fun hopen d => ?_,
    sizes_of_effect hs h⟩
  · rcases mem_of_effect hs hop h hmem with hold | ⟨hc, -⟩
    · exact hs.calls op hold
    · rw [hc]
      exact hcall
  · rcases mem_of_effect hs hop h hmem with hold | ⟨-, hfits⟩
    · exact hs.fits op hold
    · exact hfits
  · by_cases hd : d = c.recvSocket
    · rcases hown with ⟨after, hafter⟩ | ⟨hnone, -⟩
      · rw [hd, hafter]
        exact Nat.le_refl 1
      · rw [hd, hnone]
        exact Nat.zero_le 1
    · rw [hother d hd]
      exact hs.one d
  · by_cases hd : d = c.recvSocket
    · rcases hown with ⟨after, hafter⟩ | ⟨-, hstop⟩
      · rw [hd, hafter]
        exact List.cons_ne_nil _ _
      · rw [hstop] at hopen
        cases hopen
    · rw [hother d hd]
      exact hs.going (stopped_of_effect h hopen) d

/-! ### Non-interference -/

theorem sent_receive (socket : Side → Socket UInt8) (r x : Side) (data : Bytes) :
    (Function.update socket r ((socket r).receive data) x).sent = (socket x).sent := by
  by_cases h : x = r
  · subst h
    simp
  · simp [h]

theorem received_send (socket : Side → Socket UInt8) (r x : Side) (data : Bytes) :
    (Function.update socket r ((socket r).send data) x).received = (socket x).received := by
  by_cases h : x = r
  · subst h
    simp
  · simp [h]

theorem other_ne (h : d ≠ c.recvSocket) (hc : c = call c.recvSocket) :
    d ≠ c.recvBuffer ∧ d.other ≠ c.sendSocket := by
  rw [hc]
  generalize c.recvSocket = r at h
  cases d <;> cases r <;> simp_all [call, Side.other]

/-- Shared are only the sockets, and of these the two directions use different halves. -/
theorem direction_other (hs : Wired s) (hop : s.outstanding[i]? = some ⟨c, stage⟩)
    (h : Effect s i c stage move t) (hd : d ≠ c.recvSocket) : t.direction d = s.direction d := by
  have hstages := (stages_of_effect hs hop h).1 d hd
  obtain ⟨hbuffer, hsend⟩ := other_ne hd (hs.call hop)
  have hrest : t.buffer d = s.buffer d ∧ (t.socket d).received = (s.socket d).received ∧
      (t.socket d.other).sent = (s.socket d.other).sent := by
    cases h with
    | arrive data hopen hne hle =>
      refine ⟨Function.update_of_ne hbuffer _ _, ?_, sent_receive ..⟩
      simp only [arrive, Function.update_of_ne hd]
    | write done len n hopen hpos hle =>
      refine ⟨rfl, received_send .., ?_⟩
      simp only [write, Function.update_of_ne hsend]
    | send len => exact ⟨rfl, rfl, rfl⟩
    | again len => exact ⟨rfl, rfl, rfl⟩
    | failRead => exact ⟨rfl, rfl, rfl⟩
    | failWrite done len hne => exact ⟨rfl, rfl, rfl⟩
  simp only [direction, hstages, hrest]

/-! ### Each direction is the loop of a `Session` -/

/-- The loop that an operation belongs to, without the memory. -/
def loopOf (buffer : Bytes) : Stage → Loop UInt8
  | .reading => .reading
  | .received len => .received (buffer.take len)
  | .writing done len => .writing ((buffer.take len).drop done)

def loop (v : Direction) : Loop UInt8 :=
  match v.stages with
  | [stage] => loopOf v.buffer stage
  | _ => .idle

/-- The session that is run. -/
def session (s : Relaying) : Session where
  localSocket := s.socket .localSide
  remoteSocket := s.socket .remoteSide
  localRecv := loop (s.direction .localSide)
  remoteRecv := loop (s.direction .remoteSide)
  closed := s.stopped

theorem loop_direction (h : stagesOf d s.outstanding = [stage]) :
    loop (s.direction d) = loopOf (s.buffer d) stage := by
  simp only [loop, direction, h]

theorem loop_idle (h : stagesOf d s.outstanding = []) : loop (s.direction d) = .idle := by
  simp only [loop, direction, h]

/-- What the sockets of a direction have before and behind a step of its loop. -/
structure Follows (s t : Relaying) (d : Side) (move : Op UInt8) (got put : Bytes) : Prop where
  loop : (loop (s.direction d)).step (! s.stopped) bufferSize move =
    some (loop (t.direction d), got, put)
  received : t.socket d = (s.socket d).receive got
  sent : t.socket d.other = (s.socket d.other).send put
  stopped : t.stopped = (s.stopped || move = .error)

theorem other_side (hc : c = call c.recvSocket) :
    c.recvBuffer = c.recvSocket ∧ c.sendSocket = c.recvSocket.other ∧
      c.recvSocket ≠ c.recvSocket.other := by
  rw [hc]
  generalize c.recvSocket = r
  cases r <;> decide

/-- What is still to be written lies in the buffer. -/
theorem held_next (buffer : Bytes) {done len n : Nat} (hle : done + n ≤ len) :
    ((buffer.take len).drop done).take n = (buffer.drop done).take n ∧
      ((buffer.take len).drop done).drop n = (buffer.take len).drop (done + n) := by
  refine ⟨?_, List.drop_drop⟩
  rw [List.drop_take, List.take_take, Nat.min_eq_left (by omega)]

theorem follows_arrive {data : Bytes} (hs : Wired s) (hop : s.outstanding[i]? = some ⟨c, .reading⟩)
    (hopen : s.stopped = false) (hne : data ≠ []) (hle : data.length ≤ (s.buffer c.recvBuffer).length) :
    Follows s (s.arrive i c data) c.recvSocket (.read data) data [] := by
  obtain ⟨hbuffer, -, hside⟩ := other_side (hs.call hop)
  obtain ⟨hown, -, hset⟩ := stages_own hop (hs.one _)
  have hbytes : (s.arrive i c data).buffer c.recvSocket =
      data ++ (s.buffer c.recvSocket).drop data.length := by
    simp [arrive, hbuffer]
  refine ⟨?_, by simp [arrive], ?_, by simp [arrive]⟩
  · have hafter : loop ((s.arrive i c data).direction c.recvSocket) = .received data := by
      rw [loop_direction (hset _), hbytes, loopOf, List.take_left' rfl]
    rw [loop_direction hown, hafter]
    simp [loopOf, Loop.step, hopen, hne, hle.trans (Nat.le_of_eq (hs.sizes _))]
  · rw [Socket.send_nil]
    exact Function.update_of_ne hside.symm _ _

theorem follows_write {done len n : Nat} (hs : Wired s)
    (hop : s.outstanding[i]? = some ⟨c, .writing done len⟩) (hopen : s.stopped = false)
    (hpos : 0 < n) (hle : done + n ≤ len) :
    Follows s (s.write i c done len n) c.recvSocket (.write n) []
      (((s.buffer c.recvBuffer).drop done).take n) := by
  obtain ⟨hbuffer, hsend, hside⟩ := other_side (hs.call hop)
  obtain ⟨hown, -, hset⟩ := stages_own hop (hs.one _)
  have hfits : len ≤ bufferSize := (hs.fits _ (List.mem_of_getElem? hop)).2
  have hsize := hs.sizes c.recvSocket
  obtain ⟨htake, hdrop⟩ := held_next (s.buffer c.recvSocket) hle
  refine ⟨?_, ?_, by simp [write, hsend], by simp [write]⟩
  · have hlen : n ≤ (((s.buffer c.recvSocket).take len).drop done).length := by simp; omega
    rw [loop_direction hown, loop_direction (hset _), hbuffer]
    simp only [loopOf, Loop.step, hopen, Bool.not_false, hpos, hlen, and_self, if_true, htake, hdrop]
    rfl
  · rw [Socket.receive_nil, write, hsend]
    exact Function.update_of_ne hside _ _

/-- A handler or an error touches no socket. -/
theorem follows_quiet (hloop : (loop (s.direction d)).step (! s.stopped) bufferSize move =
      some (loop (t.direction d), [], [])) (hsocket : t.socket = s.socket)
    (hstopped : t.stopped = (s.stopped || move = .error)) : Follows s t d move [] [] :=
  ⟨hloop, by rw [hsocket, Socket.receive_nil], by rw [hsocket, Socket.send_nil], hstopped⟩

theorem follows_of_effect (hs : Wired s) (hop : s.outstanding[i]? = some ⟨c, stage⟩)
    (h : Effect s i c stage move t) : ∃ got put, Follows s t c.recvSocket move got put := by
  obtain ⟨hown, hgone, -⟩ := stages_own hop (hs.one _)
  have hfits := hs.fits _ (List.mem_of_getElem? hop)
  have hsize := hs.sizes c.recvSocket
  have hnext (after : Stage) : stagesOf c.recvSocket (s.outstanding.eraseIdx i ++ [⟨c, after⟩]) =
      [after] := by
    rw [stagesOf_append, hgone]
    simp [stagesOf]
  cases h with
  | arrive data hopen hne hle => exact ⟨_, _, follows_arrive hs hop hopen hne hle⟩
  | write done len n hopen hpos hle => exact ⟨_, _, follows_write hs hop hopen hpos hle⟩
  | send len =>
    refine ⟨[], [], follows_quiet ?_ rfl (by simp [asyncWrite, complete])⟩
    rw [loop_direction hown, loop_direction (hnext _)]
    rfl
  | again len =>
    refine ⟨[], [], follows_quiet ?_ rfl (by simp [doRecv, complete])⟩
    rw [loop_direction hown, loop_direction (hnext _)]
    have hnil : ((s.buffer c.recvSocket).take len).drop len = [] := by simp
    simp only [loopOf, hnil]
    rfl
  | failRead =>
    refine ⟨[], [], follows_quiet ?_ rfl (by simp [stop])⟩
    rw [loop_direction hown, loop_idle hgone]
    rfl
  | failWrite done len hne =>
    refine ⟨[], [], follows_quiet ?_ rfl (by simp [stop])⟩
    rw [loop_direction hown, loop_idle hgone]
    have hlen : (((s.buffer c.recvSocket).take len).drop done).length ≠ 0 := by
      have hle : done ≤ len ∧ len ≤ bufferSize := hfits
      simp
      omega
    simp only [loopOf]
    cases hrest : ((s.buffer c.recvSocket).take len).drop done with
    | nil => exact absurd (by rw [hrest]; rfl) hlen
    | cons b rest => rfl

/-- A step is a step of the session that is run. -/
theorem session_step (hs : Wired s) (h : s.step a = some t) :
    ∃ localRecv move, s.session.step localRecv move = some t.session := by
  obtain ⟨c, stage, move, hop, heff⟩ := effect_of_step h
  obtain ⟨got, put, hf⟩ := follows_of_effect hs hop heff
  have hother := direction_other hs hop heff (d := c.recvSocket.other)
  obtain ⟨hloop, hrecv, hsent, hstop⟩ := hf
  cases hc : c.recvSocket with
  | localSide =>
    rw [hc] at hloop hrecv hsent hother
    have hsent : t.socket .remoteSide = (s.socket .remoteSide).send put := hsent
    have hother : t.direction .remoteSide = s.direction .remoteSide := hother (by decide)
    refine ⟨true, move, ?_⟩
    simp only [session, Session.step, if_true, hloop, Option.map_some, hrecv, hsent, hother, hstop]
  | remoteSide =>
    rw [hc] at hloop hrecv hsent hother
    have hsent : t.socket .localSide = (s.socket .localSide).send put := hsent
    have hother : t.direction .localSide = s.direction .localSide := hother (by decide)
    refine ⟨false, move, ?_⟩
    simp only [session, Session.step, Bool.false_eq_true, if_false, hloop, Option.map_some, hrecv,
      hsent, hother, hstop]

/-! ### Runs -/

/-- A wired session whose directions carry their bytes. -/
structure Invariant (s : Relaying) : Prop where
  wired : Wired s
  carries : ∀ d, (loop (s.direction d)).Carries (s.direction d).received (s.direction d).sent

theorem invariant_started : Invariant started :=
  ⟨wired_started, fun d => Loop.carries_nil (by cases d <;> rfl)⟩

theorem invariant_step (hs : Invariant s) (h : s.step a = some t) : Invariant t := by
  obtain ⟨c, stage, move, hop, heff⟩ := effect_of_step h
  refine ⟨wired_of_effect hs.wired hop heff, fun d => ?_⟩
  have hcarries := hs.carries d
  by_cases hd : d = c.recvSocket
  · obtain ⟨got, put, hloop, hrecv, hsent, -⟩ := follows_of_effect hs.wired hop heff
    rw [← hd] at hloop hrecv hsent
    have hnext := hcarries.step hloop
    simpa only [direction, hrecv, hsent, Socket.receive_received, Socket.send_sent] using hnext
  · rwa [direction_other hs.wired hop heff hd]

theorem invariant_of_run (h : Run step Free started as s) : Invariant s :=
  h.invariant Invariant (fun _ _ _ hs _ hst => invariant_step hs hst) invariant_started

theorem Invariant.accounts (hs : Invariant s) (hopen : s.stopped = false) (d : Side) :
    (s.direction d).Accounts := by
  obtain ⟨stage, hstages⟩ := hs.wired.single (hs.wired.going hopen d)
  have hloop := loop_direction hstages
  have hwhole := (hs.carries d).whole (by rw [hloop]; cases stage <;> nofun)
  refine ⟨stage, hstages, hwhole.trans ?_⟩
  rw [hloop]
  cases stage <;> rfl

theorem Wired.not_clash (hs : Wired s) : ¬ s.Clash := by
  rintro ⟨read, hread, write, hwrite, hreading, ⟨done, len, hwriting⟩, hbuffer⟩
  have hsame : read.call.recvSocket = write.call.recvSocket := by
    obtain ⟨hr, -, -⟩ := other_side (hs.calls read hread)
    obtain ⟨hw, -, -⟩ := other_side (hs.calls write hwrite)
    rw [← hr, ← hw, hbuffer]
  have hmem (op : Operation) (hop : op ∈ s.outstanding)
      (hd : op.call.recvSocket = write.call.recvSocket) :
      op.stage ∈ stagesOf write.call.recvSocket s.outstanding :=
    List.mem_map_of_mem (List.mem_filter.mpr ⟨hop, by simpa using hd⟩)
  have hr := hmem read hread hsame
  have hw := hmem write hwrite rfl
  obtain ⟨stage, hstages⟩ := hs.single (List.ne_nil_of_mem hw)
  rw [hstages, List.mem_singleton] at hr hw
  rw [hreading] at hr
  rw [hwriting, ← hr] at hw
  cases hw

theorem Invariant.apart (hs : Invariant s) : s.Apart := by
  intro a t op h hop d hd
  obtain ⟨c, stage, move, hop', heff⟩ := effect_of_step h
  obtain rfl := Option.some.inj (hop.symm.trans hop')
  exact direction_other hs.wired hop' heff hd

/-- Until the first error: the accounts of both directions, no read into a buffer that is being written
from, and no step of one direction that the other one sees. -/
theorem relay_invariant (h : Run step Free started as s) (hopen : s.stopped = false) :
    (∀ d, (s.direction d).Accounts) ∧ ¬ s.Clash ∧ s.Apart :=
  ⟨(invariant_of_run h).accounts hopen, (invariant_of_run h).wired.not_clash,
    (invariant_of_run h).apart⟩

theorem step_arrive (data : Bytes) (hs : Wired s) (hop : s.outstanding[i]? = some ⟨c, .reading⟩)
    (hopen : s.stopped = false) (hne : data ≠ []) (hle : data.length ≤ bufferSize) :
    s.step (.arrive i data) = some (s.arrive i c data) := by
  simp only [step, Action.index, hop, hs.sizes, hopen, hne, hle, ne_eq, not_false_eq_true, and_self,
    if_true]

/-- Two bytes have come from the remote side and are being written. -/
theorem relay_invariant_example : ∃ as s, Run step Free started as s ∧
    stagesOf .remoteSide s.outstanding = [.writing 0 2] ∧
    (∀ d, (s.direction d).Accounts) ∧ ¬ s.Clash ∧ s.Apart := by
  have harrive := step_arrive (i := 1) (c := call .remoteSide) [7, 8] wired_started rfl rfl nofun
    (by decide)
  have hwrite : step (started.arrive 1 (call .remoteSide) [7, 8]) (.run 1) =
      some (((started.arrive 1 (call .remoteSide) [7, 8]).complete 1).asyncWrite
        (call .remoteSide) 2) := rfl
  have h : Run step Free started _ _ := .cons trivial harrive (.cons trivial hwrite (.nil _))
  exact ⟨_, _, h, rfl, relay_invariant h rfl⟩

end Relaying

end NetworkUtility.Tcp
