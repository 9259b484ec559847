import Mathlib.Data.List.Basic

/-! Attempts made one after another: each is connected at most once and then closed once, before the
next one starts. An entry `(k, true)` says that attempt `k` is connected, `(k, false)` that it is
closed. -/
namespace NetworkUtility.Turns

inductive Phase
  | fresh
  | connected
  | closed
  deriving DecidableEq, Repr

/-- The entries of attempts `1` to `n`; the last is in its phase, the ones before are closed. -/
inductive Taken : Nat → Phase → List (Nat × Bool) → Prop
  | nil : Taken 0 .closed []
  | start {n : Nat} {l : List (Nat × Bool)} : Taken n .closed l → Taken (n + 1) .fresh l
  | connect {n : Nat} {l : List (Nat × Bool)} :
      Taken n .fresh l → Taken n .connected (l ++ [(n, true)])
  | close {n : Nat} {p : Phase} {l : List (Nat × Bool)} :
      Taken n p l → p ≠ .closed → Taken n .closed (l ++ [(n, false)])

/-- The entries of one attempt. -/
def entries (k : Nat) (l : List (Nat × Bool)) : List Bool := (l.filter (·.1 = k)).map (·.2)

/-- No two are connected without the first one closed in between. -/
def Alternate (l : List (Nat × Bool)) : Prop :=
  ∀ xs i ys j zs, l = xs ++ (i, true) :: (ys ++ (j, true) :: zs) → (i, false) ∈ ys

/-- From one that is connected to the next, each attempt is closed once. -/
def OneEach (l : List (Nat × Bool)) : Prop :=
  ∀ xs i ys j zs, l = xs ++ (i, true) :: (ys ++ (j, true) :: zs) → (∀ e ∈ ys, e.2 = false) →
    ys.map Prod.fst = List.range' i (j - i)

/-- Data of an attempt stands behind its opening notice, and not behind its closing notice. -/
def Inside {α : Type} (opening closing : α) (data : α → Bool) (l : List (Nat × α)) : Prop :=
  ∀ xs k a ys, l = xs ++ (k, a) :: ys → data a → (k, opening) ∈ xs ∧ (k, closing) ∉ xs

section Inside

variable {α : Type} {opening closing a : α} {data : α → Bool} {l : List (Nat × α)} {k : Nat}

theorem inside_nil : Inside opening closing data [] := by
  intro xs k a ys heq
  simp at heq

theorem Inside.concat (h : Inside opening closing data l)
    (ha : data a → (k, opening) ∈ l ∧ (k, closing) ∉ l) :
    Inside opening closing data (l ++ [(k, a)]) := by
  intro xs j b ys heq hb
  rcases List.eq_nil_or_concat ys with rfl | ⟨zs, z, rfl⟩
  · obtain ⟨rfl, hlast⟩ := List.append_inj' heq rfl
    cases hlast
    exact ha hb
  · rw [List.concat_eq_append, ← List.cons_append, ← List.append_assoc] at heq
    obtain ⟨rfl, -⟩ := List.append_inj' heq rfl
    exact h xs j b zs rfl hb

theorem Inside.append (h : Inside opening closing data l) {m : List α} (hm : ∀ a ∈ m, data a = false) :
    Inside opening closing data (l ++ m.map (k, ·)) := by
  induction m generalizing l with
  | nil => simpa using h
  | cons a m ih =>
    have hone : Inside opening closing data (l ++ [(k, a)]) := h.concat fun ha => by
      simp [hm a List.mem_cons_self] at ha
    have hall := ih hone fun b hb => hm b (List.mem_cons_of_mem _ hb)
    simpa using hall

end Inside

variable {n i k : Nat} {p : Phase} {b : Bool} {l xs ys : List (Nat × Bool)}

theorem entries_append : entries k (xs ++ ys) = entries k xs ++ entries k ys := by
  simp [entries]

@[simp] theorem entries_cons_self : entries k ((k, b) :: l) = b :: entries k l := by
  simp [entries]

theorem entries_cons_of_ne (h : i ≠ k) : entries k ((i, b) :: l) = entries k l := by
  simp [entries, h]

theorem mem_entries : b ∈ entries k l ↔ (k, b) ∈ l := by
  simp [entries]

namespace Taken

/-- Only attempts that have started have entries. -/
theorem bounds (h : Taken n p l) {e : Nat × Bool} (he : e ∈ l) : 0 < e.1 ∧ e.1 ≤ n := by
  induction h with
  | nil => cases he
  | start _ ih =>
    obtain ⟨hpos, hle⟩ := ih he
    exact ⟨hpos, by omega⟩
  | @connect n l h ih =>
    rcases List.mem_append.mp he with he | he
    · exact ih he
    · obtain rfl := List.mem_singleton.mp he
      have hn : 0 < n := by
        cases h
        exact Nat.succ_pos _
      exact ⟨hn, Nat.le_refl n⟩
  | @close n p l h hp ih =>
    rcases List.mem_append.mp he with he | he
    · exact ih he
    · obtain rfl := List.mem_singleton.mp he
      have hn : 0 < n := by
        cases h with
        | nil => exact absurd rfl hp
        | start h => exact Nat.succ_pos _
        | connect h =>
          cases h
          exact Nat.succ_pos _
        | close h => exact absurd rfl hp
      exact ⟨hn, Nat.le_refl n⟩

theorem entries_of_lt (h : Taken n p l) (hk : n < k) : entries k l = [] := by
  rw [List.eq_nil_iff_forall_not_mem]
  intro b hb
  have hle := (h.bounds (mem_entries.mp hb)).2
  exact absurd hle (by simpa using hk)

theorem entries_fresh (h : Taken n .fresh l) : entries n l = [] := by
  cases h with
  | start h => exact h.entries_of_lt (Nat.lt_succ_self _)

theorem entries_connected (h : Taken n .connected l) : entries n l = [true] := by
  cases h with
  | connect h =>
    rw [entries_append, h.entries_fresh, entries_cons_self]
    rfl

theorem entries_closed (h : Taken n .closed l) (hpos : 0 < n) :
    entries n l = [false] ∨ entries n l = [true, false] := by
  cases h with
  | nil => exact absurd hpos (Nat.lt_irrefl 0)
  | @close _ p l h hp =>
    rw [entries_append, entries_cons_self]
    cases p with
    | fresh =>
      rw [h.entries_fresh]
      exact .inl rfl
    | connected =>
      rw [h.entries_connected]
      exact .inr rfl
    | closed => exact absurd rfl hp

/-- An attempt that another one follows. -/
theorem entries_past (h : Taken n p l) (hpos : 0 < k) (hk : k < n) :
    entries k l = [false] ∨ entries k l = [true, false] := by
  induction h with
  | nil => omega
  | start h ih =>
    rcases Nat.lt_or_eq_of_le (Nat.le_of_lt_succ hk) with hlt | rfl
    · exact ih hlt
    · exact h.entries_closed hpos
  | connect h ih =>
    rw [entries_append, entries_cons_of_ne (Nat.ne_of_gt hk)]
    simpa [entries] using ih hk
  | close h hp ih =>
    rw [entries_append, entries_cons_of_ne (Nat.ne_of_gt hk)]
    simpa [entries] using ih hk

/-- An attempt that is over was closed once, after it was connected if it was. -/
theorem entries_over (h : Taken n p l) (hpos : 0 < k) (hk : k ≤ n) (hp : k = n → p = .closed) :
    entries k l = [false] ∨ entries k l = [true, false] := by
  rcases Nat.lt_or_eq_of_le hk with hlt | rfl
  · exact h.entries_past hpos hlt
  · obtain rfl := hp rfl
    exact h.entries_closed hpos

/-- Whatever the attempt, it was at most connected once and then closed once. -/
theorem entries_prefix (h : Taken n p l) (k : Nat) :
    entries k l <+: [true, false] ∨ entries k l = [false] := by
  rcases Nat.eq_zero_or_pos k with rfl | hpos
  · left
    have hnil : entries 0 l = [] := by
      rw [List.eq_nil_iff_forall_not_mem]
      intro b hb
      exact absurd (h.bounds (mem_entries.mp hb)).1 (Nat.lt_irrefl 0)
    rw [hnil]
    exact List.nil_prefix
  rcases Nat.lt_trichotomy k n with hlt | rfl | hlt
  · rcases h.entries_past hpos hlt with he | he
    · exact .inr he
    · exact .inl (he ▸ List.prefix_rfl)
  · cases p with
    | fresh =>
      rw [h.entries_fresh]
      exact .inl List.nil_prefix
    | connected =>
      rw [h.entries_connected]
      exact .inl ⟨[false], rfl⟩
    | closed =>
      rcases h.entries_closed hpos with he | he
      · exact .inr he
      · exact .inl (he ▸ List.prefix_rfl)
  · rw [h.entries_of_lt hlt]
    exact .inl List.nil_prefix

theorem count_closed (h : Taken n p l) (k : Nat) : l.count (k, false) ≤ 1 := by
  have hcount : l.count (k, false) = (entries k l).count false := by
    clear h
    induction l with
    | nil => rfl
    | cons e l ih =>
      obtain ⟨i, b⟩ := e
      by_cases hi : i = k
      · subst hi
        rw [entries_cons_self, List.count_cons, List.count_cons, ih]
        simp
      · rw [entries_cons_of_ne hi, List.count_cons, ih]
        simp [hi]
  rw [hcount]
  rcases h.entries_prefix k with hp | he
  · exact hp.sublist.count_le false
  · rw [he]
    exact Nat.le_refl 1

/-- What was there before an entry. -/
theorem of_prefix (h : Taken n p l) (hxs : xs <+: l) : ∃ m q, m ≤ n ∧ Taken m q xs := by
  induction h with
  | nil =>
    obtain rfl := List.prefix_nil.mp hxs
    exact ⟨0, .closed, Nat.le_refl 0, .nil⟩
  | start h ih =>
    obtain ⟨m, q, hm, hq⟩ := ih hxs
    exact ⟨m, q, Nat.le_succ_of_le hm, hq⟩
  | connect h ih =>
    rcases List.prefix_concat_iff.mp hxs with rfl | hxs
    · exact ⟨_, _, Nat.le_refl _, .connect h⟩
    · exact ih hxs
  | close h hp ih =>
    rcases List.prefix_concat_iff.mp hxs with rfl | hxs
    · exact ⟨_, _, Nat.le_refl _, .close h hp⟩
    · exact ih hxs

/-- In front of a connected attempt is an attempt without an entry. -/
theorem before_connect {j : Nat} {zs : List (Nat × Bool)} (h : Taken n p (xs ++ (j, true) :: zs)) :
    Taken j .fresh xs := by
  have hpre : xs ++ [(j, true)] <+: xs ++ (j, true) :: zs := ⟨zs, by simp⟩
  obtain ⟨m, q, -, hq⟩ := h.of_prefix hpre
  clear hpre h
  generalize hl : xs ++ [(j, true)] = l at hq
  induction hq with
  | nil => simp at hl
  | start h ih => exact ih hl
  | connect h ih =>
    obtain ⟨rfl, hj⟩ := List.append_inj' hl rfl
    cases hj
    exact h
  | close h hp ih =>
    obtain ⟨-, hb⟩ := List.append_inj' hl rfl
    cases hb

theorem alternate (h : Taken n p l) : Alternate l := by
  intro xs i ys j zs heq
  rw [heq, ← List.cons_append, ← List.append_assoc] at h
  have hm := h.before_connect
  have hmem : (i, true) ∈ xs ++ (i, true) :: ys := by simp
  obtain ⟨hpos, hle⟩ := hm.bounds hmem
  have hi : entries i (xs ++ (i, true) :: ys) = entries i xs ++ true :: entries i ys := by
    rw [entries_append, entries_cons_self]
  rcases Nat.lt_or_eq_of_le hle with hlt | heq'
  · have hfalse : false ∈ entries i ys := by
      rcases hm.entries_past hpos hlt with he | he
      · rw [hi] at he
        cases hx : entries i xs <;> simp [hx] at he
      · rw [hi] at he
        cases hx : entries i xs with
        | nil =>
          rw [hx] at he
          simp only [List.nil_append, List.cons.injEq, true_and] at he
          simp [he]
        | cons b bs =>
          rw [hx] at he
          cases bs <;> simp at he
    exact mem_entries.mp hfalse
  · have hnil : entries i (xs ++ (i, true) :: ys) = [] := by
      subst heq'
      exact hm.entries_fresh
    rw [hi] at hnil
    simp at hnil

/-- Behind a connected attempt nothing but closes: they are those of the attempts from it on. -/
theorem closes_behind (h : Taken n p (xs ++ (i, true) :: ys)) (hys : ∀ e ∈ ys, e.2 = false) :
    ys.map Prod.fst = List.range' i ((if p = .closed then n + 1 else n) - i) := by
  generalize hl : xs ++ (i, true) :: ys = l at h
  induction h generalizing ys with
  | nil => simp at hl
  | start h ih =>
    have hclosed := ih hys hl
    simpa using hclosed
  | @connect n l h ih =>
    rcases List.eq_nil_or_concat ys with rfl | ⟨zs, z, rfl⟩
    · obtain ⟨-, hi⟩ := List.append_inj' hl rfl
      cases hi
      simp
    · rw [List.concat_eq_append, ← List.cons_append, ← List.append_assoc] at hl
      obtain ⟨-, hz⟩ := List.append_inj' hl rfl
      cases hz
      have hfalse := hys (n, true) (by simp)
      cases hfalse
  | @close n p l h hp ih =>
    rcases List.eq_nil_or_concat ys with rfl | ⟨zs, z, rfl⟩
    · obtain ⟨-, hi⟩ := List.append_inj' hl rfl
      cases hi
    · rw [List.concat_eq_append, ← List.cons_append, ← List.append_assoc] at hl
      obtain ⟨hl', hz⟩ := List.append_inj' hl rfl
      cases hz
      have hzs := ih (fun e he => hys e (by simp [he])) hl'
      have hle : i ≤ n := (h.bounds (e := (i, true)) (by simp [← hl'])).2
      rw [if_neg hp] at hzs
      rw [if_pos rfl, List.concat_eq_append, List.map_append, hzs, Nat.succ_sub hle, List.range'_concat]
      simp [Nat.add_sub_cancel' hle]

theorem oneEach (h : Taken n p l) : OneEach l := by
  intro xs i ys j zs heq hys
  rw [heq, ← List.cons_append, ← List.append_assoc] at h
  have hbehind := h.before_connect.closes_behind hys
  simpa using hbehind

end Taken

end NetworkUtility.Turns
