import Mathlib.Logic.Basic

/-! Runs of a transition function. A guard is what a run promises about each of its steps;
without a promise the guard is `Free`. -/
namespace NetworkUtility.Machine

variable {σ α : Type} {step : σ → α → Option σ} {ok ok' : σ → α → Prop}
  {s t u : σ} {a : α} {as bs : List α}

/-- Every action is enabled where it is taken and meets the guard there. -/
inductive Run (step : σ → α → Option σ) (ok : σ → α → Prop) : σ → List α → σ → Prop
  | nil (s : σ) : Run step ok s [] s
  | cons {s t u : σ} {a : α} {as : List α} :
      ok s a → step s a = some t → Run step ok t as u → Run step ok s (a :: as) u

def Free (_ : σ) (_ : α) : Prop := True

instance (s : σ) (a : α) : Decidable (Free s a) := inferInstanceAs (Decidable True)

/-- What one step preserves, a run preserves. -/
theorem Run.invariant (h : Run step ok s as t) (inv : σ → Prop)
    (hstep : ∀ s a t, inv s → ok s a → step s a = some t → inv t) (hs : inv s) : inv t := by
  induction h with
  | nil => exact hs
  | cons hg hst _ ih => exact ih (hstep _ _ _ hs hg hst)

theorem Run.append (h : Run step ok s as t) (h' : Run step ok t bs u) :
    Run step ok s (as ++ bs) u := by
  induction h with
  | nil => exact h'
  | cons hg hst _ ih => exact .cons hg hst (ih h')

theorem Run.mono (h : Run step ok s as t) (hok : ∀ s a, ok s a → ok' s a) :
    Run step ok' s as t := by
  induction h with
  | nil => exact .nil _
  | cons hg hst _ ih => exact .cons (hok _ _ hg) hst ih

theorem Run.free (h : Run step ok s as t) : Run step Free s as t :=
  h.mono fun _ _ _ => trivial

/-- What holds of every action taken can be made the guard. -/
theorem Run.restrict {p : α → Prop} (h : Run step ok s as t) (hp : ∀ a ∈ as, p a) :
    Run step (fun _ a => p a) s as t := by
  induction h with
  | nil => exact .nil _
  | cons _ hst _ ih =>
    exact .cons (hp _ List.mem_cons_self) hst (ih fun a ha => hp a (List.mem_cons_of_mem _ ha))

/-- A component runs inside a system. Its steps are steps of the system as long as the others meet
it, and a state is met if the states behind it are. -/
theorem Run.lift {τ β : Type} {step' : τ → β → Option τ} {x y : τ} {cs : List β} (put : τ → σ)
    (label : β → α) (met : τ → Prop) (hback : ∀ x b y, step' x b = some y → met y → met x)
    (hput : ∀ x b y, step' x b = some y → met y → step (put x) (label b) = some (put y))
    (h : Run step' Free x cs y) (hy : met y) :
    Run step Free (put x) (cs.map label) (put y) ∧ met x := by
  induction h with
  | nil => exact ⟨.nil _, hy⟩
  | cons _ hst _ ih =>
    obtain ⟨hrun, hmet⟩ := ih hy
    exact ⟨.cons trivial (hput _ _ _ hst hmet) hrun, hback _ _ _ hst hmet⟩

/-! A machine that also notes what each step did. The notes decide nothing. -/

section Noted

variable {η : Type} {note : σ → α → σ → η → η} {ok'' : σ × η → α → Prop} {x y : σ × η}

def noted (step : σ → α → Option σ) (note : σ → α → σ → η → η) (x : σ × η) (a : α) :
    Option (σ × η) :=
  (step x.1 a).map fun t => (t, note x.1 a t x.2)

theorem Run.of_noted (h : Run (noted step note) ok'' x as y) : Run step Free x.1 as y.1 := by
  induction h with
  | nil => exact .nil _
  | cons _ hst _ ih =>
    obtain ⟨t, ht, rfl⟩ := Option.map_eq_some_iff.mp hst
    exact .cons trivial ht ih

theorem Run.with_notes (h : Run step ok s as t) (note : σ → α → σ → η → η) (n : η) :
    ∃ m, Run (noted step note) (fun x a => ok x.1 a) (s, n) as (t, m) := by
  induction h generalizing n with
  | nil => exact ⟨n, .nil _⟩
  | cons hg hst _ ih =>
    obtain ⟨m, hm⟩ := ih (note _ _ _ n)
    exact ⟨m, .cons hg (Option.map_eq_some_iff.mpr ⟨_, hst, rfl⟩) hm⟩

end Noted

/-! Runs are computable when the guard is decidable. -/

section Exec

variable [∀ s a, Decidable (ok s a)]

def exec (step : σ → α → Option σ) (ok : σ → α → Prop) [∀ s a, Decidable (ok s a)] :
    σ → List α → Option σ
  | s, [] => some s
  | s, a :: as => if ok s a then (step s a).bind fun t => exec step ok t as else none

theorem run_of_exec (h : exec step ok s as = some t) : Run step ok s as t := by
  induction as generalizing s with
  | nil => cases h; exact .nil _
  | cons a as ih =>
    simp only [exec] at h
    split at h
    · next hg =>
      obtain ⟨u, hu, hx⟩ := Option.bind_eq_some_iff.mp h
      exact .cons hg hu (ih hx)
    · cases h

theorem run_exec (step : σ → α → Option σ) (ok : σ → α → Prop) [∀ s a, Decidable (ok s a)]
    (s : σ) (as : List α) (h : (exec step ok s as).isSome) :
    Run step ok s as ((exec step ok s as).get h) :=
  run_of_exec (Option.some_get h).symm

end Exec

end NetworkUtility.Machine
