import NetworkUtility.Etcp.Message

/-! The send path of one end: `send_message`, its posted lambda and `do_write`, which are the same
in `EtcpClientImpl` and `EtcpSession`. Lambdas and completions may run in any order. -/
namespace NetworkUtility.Etcp

/-- An `async_write` whose handler has not run: its buffer and how much of it has gone out. -/
structure Write where
  buffer : Bytes
  done : Nat
  deriving DecidableEq, Repr

/-- `queued` and `output` are history: the packets whose lambdas ran, the bytes written. -/
structure Sender where
  posted : List Bytes
  sendDataList : List Bytes
  writes : List Write
  queued : List Bytes
  output : Bytes
  deriving DecidableEq, Repr

namespace Sender

def initial : Sender := ⟨[], [], [], [], []⟩

def post (s : Sender) (pack : Bytes) : Option Sender :=
  if pack ≠ [] ∧ pack.length < 2 ^ 32 then some { s with posted := s.posted ++ [pack] } else none

def doWrite (s : Sender) : Sender :=
  match s.sendDataList with
  | [] => s
  | data :: _ => { s with writes := s.writes ++ [⟨data, 0⟩] }

/-- The lambda of `send_message`. -/
def onPosted (o : ByteOrder) (s : Sender) (pack : Bytes) : Sender :=
  let s := { s with
    sendDataList := pushMessage o s.sendDataList pack
    queued := s.queued ++ [pack] }
  if 2 = s.sendDataList.length then s.doWrite else s

/-- The handler of `do_write` after a success. -/
def onWritten (s : Sender) : Sender :=
  let s := { s with sendDataList := s.sendDataList.tail }
  if s.sendDataList = [] then s else s.doWrite

def runPosted (o : ByteOrder) (s : Sender) (i : Nat) : Option Sender :=
  (s.posted[i]?).map fun pack => onPosted o { s with posted := s.posted.eraseIdx i } pack

/-- The network takes the next `n` bytes of a write. -/
def transmit (s : Sender) (i n : Nat) : Option (Sender × Bytes) :=
  match s.writes[i]? with
  | some w =>
    let data := (w.buffer.drop w.done).take n
    if data ≠ [] then
      some ({ s with
        writes := s.writes.set i ⟨w.buffer, w.done + data.length⟩
        output := s.output ++ data }, data)
    else none
  | none => none

/-- With transfer_all the handler runs when the whole buffer has gone out. -/
def runWritten (s : Sender) (i : Nat) : Option Sender :=
  match s.writes[i]? with
  | some w =>
    if w.done = w.buffer.length then some (onWritten { s with writes := s.writes.eraseIdx i })
    else none
  | none => none

/-- One write is outstanding while the list is not empty, for its front; what it and the rest of
the list still hold completes the frames of the packets queued so far. -/
def Sending (o : ByteOrder) (s : Sender) : Prop :=
  (s.sendDataList = [] ∧ s.writes = [] ∧ s.output = (s.queued.map (frame o)).flatten) ∨
  ∃ w rest, s.sendDataList = w.buffer :: rest ∧ s.writes = [w] ∧ w.done ≤ w.buffer.length ∧
    s.output ++ (w.buffer.drop w.done ++ rest.flatten) = (s.queued.map (frame o)).flatten

/-- Every packet is one that `send_message` accepts. -/
def Sized (s : Sender) : Prop := ∀ p ∈ s.posted ++ s.queued, p ≠ [] ∧ p.length < 2 ^ 32

variable {o : ByteOrder} {s t : Sender} {pack data : Bytes} {i n : Nat}

/-- Splitting off the next part of a buffer leaves what stood there. -/
theorem take_append_drop_length (xs : Bytes) (k n : Nat) :
    (xs.drop k).take n ++ xs.drop (k + ((xs.drop k).take n).length) = xs.drop k := by
  have hk := List.take_append_drop n (xs.drop k)
  rw [← List.drop_drop, List.length_take]
  rcases Nat.le_total n (xs.drop k).length with hn | hn
  · rwa [Nat.min_eq_left hn]
  · rw [Nat.min_eq_right hn, List.take_of_length_le hn, List.drop_length, List.append_nil]

theorem sending_initial : Sending o initial := Or.inl ⟨rfl, rfl, rfl⟩

theorem sized_initial : Sized initial := by simp [Sized, initial]

@[simp] theorem doWrite_posted (s : Sender) : s.doWrite.posted = s.posted := by
  unfold doWrite; split <;> rfl

@[simp] theorem doWrite_output (s : Sender) : s.doWrite.output = s.output := by
  unfold doWrite; split <;> rfl

@[simp] theorem doWrite_queued (s : Sender) : s.doWrite.queued = s.queued := by
  unfold doWrite; split <;> rfl

theorem sending_post (h : s.post pack = some t) (hs : Sending o s) : Sending o t := by
  simp only [post] at h
  split at h
  · simp only [Option.some.injEq] at h
    subst t
    exact hs
  · cases h

theorem output_post (h : s.post pack = some t) : t.output = s.output := by
  simp only [post] at h
  split at h
  · simp only [Option.some.injEq] at h
    subst t
    rfl
  · cases h

theorem sized_post (h : s.post pack = some t) (hs : Sized s) : Sized t := by
  simp only [post] at h
  split at h
  · next hp =>
    simp only [Option.some.injEq] at h
    subst t
    intro p hm
    simp only [List.append_assoc, List.mem_append, List.mem_singleton] at hm
    rcases hm with hm | rfl | hm
    · exact hs p (by simp [hm])
    · exact hp
    · exact hs p (by simp [hm])
  · cases h

/-- The size-2 test starts a write exactly when the list was empty. -/
theorem sending_onPosted (hs : Sending o s) : Sending o (onPosted o s pack) := by
  obtain ⟨hl, hw, ho⟩ | ⟨w, rest, hl, hw, hd, ho⟩ := hs
  · right
    refine ⟨⟨messageHead o pack, 0⟩, [pack], ?_, ?_, Nat.zero_le _, ?_⟩ <;>
      simp [onPosted, pushMessage, doWrite, hl, hw, ho, frame]
  · right
    have hn : ¬ 2 = (pushMessage o s.sendDataList pack).length := by simp [pushMessage, hl]
    refine ⟨w, rest ++ [messageHead o pack, pack], ?_, ?_, hd, ?_⟩
    · simp [onPosted, pushMessage, hl]
    · simp [onPosted, hn, hw]
    · simp only [onPosted, hn, if_false, List.map_append, List.flatten_append, ← ho]
      simp [frame]

theorem sized_onPosted (hp : pack ≠ [] ∧ pack.length < 2 ^ 32) (hs : Sized s) :
    Sized (onPosted o s pack) := by
  intro p hm
  have hm : p ∈ s.posted ++ (s.queued ++ [pack]) := by
    simp only [onPosted] at hm
    split at hm <;> simpa using hm
  simp only [List.mem_append, List.mem_singleton] at hm
  rcases hm with hm | hm | rfl
  · exact hs p (by simp [hm])
  · exact hs p (by simp [hm])
  · exact hp

theorem sending_runPosted (h : runPosted o s i = some t) (hs : Sending o s) : Sending o t := by
  obtain ⟨pack, _, rfl⟩ := Option.map_eq_some_iff.mp h
  exact sending_onPosted hs

theorem output_runPosted (h : runPosted o s i = some t) : t.output = s.output := by
  obtain ⟨pack, _, rfl⟩ := Option.map_eq_some_iff.mp h
  simp only [onPosted]
  split <;> simp

theorem sized_runPosted (h : runPosted o s i = some t) (hs : Sized s) : Sized t := by
  obtain ⟨pack, hp, rfl⟩ := Option.map_eq_some_iff.mp h
  apply sized_onPosted (hs pack (by simp [List.mem_of_getElem? hp]))
  intro p hm
  simp only [List.mem_append] at hm
  rcases hm with hm | hm
  · exact hs p (by simp [List.mem_of_mem_eraseIdx hm])
  · exact hs p (by simp [hm])

theorem sending_transmit (h : s.transmit i n = some (t, data)) (hs : Sending o s) :
    Sending o t ∧ t.output = s.output ++ data ∧ t.queued = s.queued ∧ t.posted = s.posted := by
  simp only [transmit] at h
  split at h
  · next w hw =>
    split at h
    · next hne =>
      simp only [Option.some.injEq, Prod.mk.injEq] at h
      obtain ⟨rfl, rfl⟩ := h
      refine ⟨?_, rfl, rfl, rfl⟩
      obtain ⟨_, hnil, _⟩ | ⟨w', rest, hl, hws, hd, ho⟩ := hs
      · simp [hnil] at hw
      · rw [hws] at hw
        obtain ⟨rfl, rfl⟩ : i = 0 ∧ w' = w := by
          cases i <;> simp_all
        right
        refine ⟨⟨w'.buffer, w'.done + ((w'.buffer.drop w'.done).take n).length⟩, rest, hl,
          by simp [hws], ?_, ?_⟩
        · simp
          omega
        · simp only [← ho, List.append_assoc, List.append_cancel_left_eq]
          rw [← List.append_assoc, List.append_cancel_right_eq]
          exact take_append_drop_length w'.buffer w'.done n
    · cases h
  · cases h

/-- A finished write pops its own buffer, and the next one in the list goes out. -/
theorem sending_runWritten (h : s.runWritten i = some t) (hs : Sending o s) :
    Sending o t ∧ t.output = s.output ∧ t.queued = s.queued ∧ t.posted = s.posted := by
  simp only [runWritten] at h
  split at h
  · next w hw =>
    split at h
    · next hdone =>
      simp only [Option.some.injEq] at h
      subst t
      obtain ⟨_, hnil, _⟩ | ⟨w', rest, hl, hws, hd, ho⟩ := hs
      · simp [hnil] at hw
      · rw [hws] at hw
        obtain ⟨rfl, rfl⟩ : i = 0 ∧ w' = w := by
          cases i <;> simp_all
        rw [hdone, List.drop_length, List.nil_append] at ho
        cases rest with
        | nil =>
          refine ⟨Or.inl ?_, ?_⟩ <;> simp_all [onWritten]
        | cons data rest =>
          refine ⟨Or.inr ⟨⟨data, 0⟩, rest, ?_⟩, ?_⟩ <;> simp_all [onWritten, doWrite]
    · cases h
  · cases h

end Sender

end NetworkUtility.Etcp
