import Mathlib.Data.List.Basic

/-! A store-and-forward loop over any alphabet: it reads some symbols from one end point, writes all
of them to another and reads again. Before the loop starts its end points may have been used for
something else, which `Joins` sets apart by two offsets. -/
namespace NetworkUtility.Relay

variable {α : Type} {r s given taken got put : List α} {k j : Nat}

/-- What has been written into one end of a connection and read out of it. -/
structure Socket (α : Type) where
  sent : List α
  received : List α
  deriving DecidableEq, Repr

namespace Socket

def fresh : Socket α := ⟨[], []⟩

def send (s : Socket α) (data : List α) : Socket α := { s with sent := s.sent ++ data }

def receive (s : Socket α) (data : List α) : Socket α := { s with received := s.received ++ data }

@[simp] theorem send_sent (s : Socket α) (data : List α) : (s.send data).sent = s.sent ++ data := rfl

@[simp] theorem send_received (s : Socket α) (data : List α) :
    (s.send data).received = s.received := rfl

@[simp] theorem receive_sent (s : Socket α) (data : List α) : (s.receive data).sent = s.sent := rfl

@[simp] theorem receive_received (s : Socket α) (data : List α) :
    (s.receive data).received = s.received ++ data := rfl

theorem send_nil (s : Socket α) : s.send [] = s := by
  rw [send, List.append_nil]

theorem receive_nil (s : Socket α) : s.receive [] = s := by
  rw [receive, List.append_nil]

@[simp] theorem fresh_sent : (fresh : Socket α).sent = [] := rfl

@[simp] theorem fresh_received : (fresh : Socket α).received = [] := rfl

end Socket

/-- What can happen to an outstanding operation: it is ready, it moves some symbols, it has
completed and its handler runs, or its handler runs with an error. -/
inductive Op (α : Type)
  | ready
  | read (data : List α)
  | write (n : Nat)
  | run
  | error
  deriving DecidableEq, Repr

/-- What the operation hands to the reader. -/
def Op.data : Op α → List α
  | .read data => data
  | _ => []

/-- The operation a loop waits for; `received` and `writing []` have a handler to run. -/
inductive Loop (α : Type)
  | idle
  | reading
  | received (data : List α)
  | writing (rest : List α)
  deriving DecidableEq, Repr

namespace Loop

/-- What the loop has read and not written yet. -/
def buffer : Loop α → List α
  | idle => []
  | reading => []
  | received data => data
  | writing rest => rest

/-- The next state, what has been read and what has been written. -/
def step (open_ : Bool) (size : Nat) : Loop α → Op α → Option (Loop α × List α × List α)
  | reading, .read data =>
    if open_ ∧ data ≠ [] ∧ data.length ≤ size then some (received data, data, []) else none
  | received data, .run => some (writing data, [], [])
  | writing rest, .write n =>
    if open_ ∧ 0 < n ∧ n ≤ rest.length then some (writing (rest.drop n), [], rest.take n) else none
  | writing [], .run => some (reading, [], [])
  | reading, .error => some (idle, [], [])
  | writing (_ :: _), .error => some (idle, [], [])
  | _, _ => none

variable {l l' : Loop α} {open_ : Bool} {size : Nat} {op : Op α}

/-- A step moves symbols from the source to the buffer and from the buffer to the sink, and loses
some only by an error. -/
theorem step_cases (h : l.step open_ size op = some (l', got, put)) :
    (l.buffer ++ got = put ++ l'.buffer ∧ l ≠ idle ∧ l' ≠ idle ∧ op ≠ .error) ∨
      (l' = idle ∧ got = [] ∧ put = [] ∧ op = .error) := by
  cases l with
  | idle => cases op <;> simp [step] at h
  | reading =>
    cases op with
    | read data =>
      simp only [step, Option.ite_none_right_eq_some, Option.some.injEq, Prod.mk.injEq] at h
      obtain ⟨-, rfl, rfl, rfl⟩ := h
      exact Or.inl ⟨rfl, nofun, nofun, nofun⟩
    | error =>
      simp only [step, Option.some.injEq, Prod.mk.injEq] at h
      obtain ⟨rfl, rfl, rfl⟩ := h
      exact Or.inr ⟨rfl, rfl, rfl, rfl⟩
    | ready => simp [step] at h
    | write n => simp [step] at h
    | run => simp [step] at h
  | received data =>
    cases op with
    | run =>
      simp only [step, Option.some.injEq, Prod.mk.injEq] at h
      obtain ⟨rfl, rfl, rfl⟩ := h
      exact Or.inl ⟨List.append_nil _, nofun, nofun, nofun⟩
    | read data => simp [step] at h
    | error => simp [step] at h
    | ready => simp [step] at h
    | write n => simp [step] at h
  | writing rest =>
    cases op with
    | write n =>
      simp only [step, Option.ite_none_right_eq_some, Option.some.injEq, Prod.mk.injEq] at h
      obtain ⟨-, rfl, rfl, rfl⟩ := h
      refine Or.inl ⟨?_, nofun, nofun, nofun⟩
      simp [buffer]
    | run =>
      cases rest with
      | nil =>
        simp only [step, Option.some.injEq, Prod.mk.injEq] at h
        obtain ⟨rfl, rfl, rfl⟩ := h
        exact Or.inl ⟨rfl, nofun, nofun, nofun⟩
      | cons b rest => simp [step] at h
    | error =>
      cases rest with
      | nil => simp [step] at h
      | cons b rest =>
        simp only [step, Option.some.injEq, Prod.mk.injEq] at h
        obtain ⟨rfl, rfl, rfl⟩ := h
        exact Or.inr ⟨rfl, rfl, rfl, rfl⟩
    | read data => cases rest <;> simp [step] at h
    | ready => cases rest <;> simp [step] at h

theorem step_got (h : l.step open_ size op = some (l', got, put)) : got = op.data := by
  cases l with
  | idle => cases op <;> simp [step] at h
  | reading => cases op <;> simp_all [step, Op.data]
  | received data => cases op <;> simp_all [step, Op.data]
  | writing rest => cases rest <;> cases op <;> simp_all [step, Op.data]

theorem step_error (h : l.step open_ size .error = some (l', got, put)) :
    l' = idle ∧ got = [] ∧ put = [] := by
  obtain ⟨-, -, -, hne⟩ | ⟨hl, hgot, hput, -⟩ := step_cases h
  · exact absurd rfl hne
  · exact ⟨hl, hgot, hput⟩

/-- The buffer holds one read. -/
theorem buffer_le_step (hl : l.buffer.length ≤ size)
    (h : l.step open_ size op = some (l', got, put)) : l'.buffer.length ≤ size := by
  obtain ⟨hbuf, -, -, -⟩ | ⟨rfl, -, -, -⟩ := step_cases h
  · cases l with
    | reading =>
      cases op with
      | read data =>
        simp only [step, Option.ite_none_right_eq_some, Option.some.injEq, Prod.mk.injEq] at h
        obtain ⟨⟨-, -, hlen⟩, rfl, -, -⟩ := h
        exact hlen
      | error => cases h; exact Nat.zero_le _
      | _ => cases h
    | _ =>
      have hgot := step_got h
      have hlen := congrArg List.length hbuf
      rw [List.length_append, List.length_append] at hlen
      cases op with
      | read data => simp [step] at h
      | _ =>
        have hzero : got.length = 0 := by rw [hgot]; rfl
        omega
  · exact Nat.zero_le _

/-- Between closed end points nothing moves. -/
theorem step_closed (h : l.step false size op = some (l', got, put)) : got = [] ∧ put = [] := by
  cases l with
  | idle => cases op <;> simp [step] at h
  | reading => cases op <;> simp_all [step]
  | received data => cases op <;> simp_all [step]
  | writing rest => cases rest <;> cases op <;> simp_all [step]

/-- What was given away is a prefix of what was taken in, and a loop that goes on holds the rest. -/
structure Carries (l : Loop α) (taken given : List α) : Prop where
  order : given <+: taken
  whole : l ≠ idle → taken = given ++ l.buffer

theorem carries_nil (hl : l.buffer = []) : Carries l ([] : List α) [] :=
  ⟨List.prefix_rfl, fun _ => hl.symm⟩

theorem Carries.step (hc : Carries l taken given) (h : l.step open_ size op = some (l', got, put)) :
    Carries l' (taken ++ got) (given ++ put) := by
  obtain ⟨hbuf, hl, -, -⟩ | ⟨rfl, rfl, rfl, -⟩ := step_cases h
  · have heq : taken ++ got = given ++ put ++ l'.buffer := by
      rw [hc.whole hl, List.append_assoc, hbuf, List.append_assoc]
    exact ⟨⟨l'.buffer, heq.symm⟩, fun _ => heq⟩
  · rw [List.append_nil, List.append_nil]
    exact ⟨hc.order, fun hne => absurd rfl hne⟩

/-- The loop carries what follows the first `k` symbols of its source, behind the first `j` symbols
of its sink. -/
structure Joins (l : Loop α) (k : Nat) (received : List α) (j : Nat) (sent : List α) : Prop where
  source : k ≤ received.length
  sink : j ≤ sent.length
  carries : l.Carries (received.drop k) (sent.drop j)

theorem joins_start (hl : l.buffer = []) (hk : r.length = k) (hj : s.length = j) :
    l.Joins k r j s := by
  refine ⟨Nat.le_of_eq hk.symm, Nat.le_of_eq hj.symm, ?_⟩
  rw [List.drop_of_length_le (Nat.le_of_eq hk), List.drop_of_length_le (Nat.le_of_eq hj)]
  exact carries_nil hl

theorem Joins.step (hj : l.Joins k r j s) (h : l.step open_ size op = some (l', got, put)) :
    l'.Joins k (r ++ got) j (s ++ put) := by
  have hsource : k ≤ (r ++ got).length := by
    rw [List.length_append]
    exact Nat.le_add_right_of_le hj.source
  have hsink : j ≤ (s ++ put).length := by
    rw [List.length_append]
    exact Nat.le_add_right_of_le hj.sink
  refine ⟨hsource, hsink, ?_⟩
  rw [List.drop_append_of_le_length hj.source, List.drop_append_of_le_length hj.sink]
  exact hj.carries.step h

end Loop

/-- What has been written at one end and has not been read at the other. -/
def inFlight (writer reader : Socket α) : List α := writer.sent.drop reader.received.length

theorem received_append_inFlight {writer reader : Socket α} (h : reader.received <+: writer.sent) :
    reader.received ++ inFlight writer reader = writer.sent := by
  obtain ⟨rest, hrest⟩ := h
  rw [inFlight, ← hrest, List.drop_left]

/-- What the reader has taken behind offset `k`, and what is still on its way to it. -/
theorem drop_arrived (h : r <+: s) (k : Nat) :
    r.drop k ++ s.drop (max k r.length) = s.drop k := by
  obtain ⟨rest, rfl⟩ := h
  by_cases hk : k ≤ r.length
  · rw [Nat.max_eq_right hk, List.drop_append_of_le_length hk, List.drop_left]
  · have hlt : r.length ≤ k := Nat.le_of_lt (Nat.lt_of_not_le hk)
    rw [Nat.max_eq_left hlt, List.drop_of_length_le hlt, List.nil_append]

end NetworkUtility.Relay
