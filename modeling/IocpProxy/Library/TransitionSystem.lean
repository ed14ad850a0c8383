import Mathlib

/-!
# Transition systems with guarded runs

A transition system computes the effect of an action on a state, or refuses it. A run is a list
of actions. Many results hold of runs whose every step meets a condition `G` on the state before
the step and the action taken: `Reachable M G` is the set of states such runs reach. An
*invariant* holds initially and is kept by the steps that meet the condition.

## Main definitions

* `TransitionSystem.run` : the state a list of actions leads to.
* `TransitionSystem.Reachable` : the states reached by steps that meet a condition.
* `TransitionSystem.Along`, `TransitionSystem.StepsMeet` : a property of all states and a
  condition on all steps of a given run.
* `TransitionSystem.Path` : a list of actions between two states, by steps that meet a condition.

## Main results

* `TransitionSystem.Reachable.invariant`, `TransitionSystem.Reachable.invariant_step` : induction
  over runs.
* `TransitionSystem.Reachable.simulate` : one system simulates another.
* `TransitionSystem.reachable_of_run` : the states of a run are reachable.
* `TransitionSystem.exists_reachable_of_runChecked` : an executed run shows that a state with a
  given property is reachable.
* `TransitionSystem.Path.countP_add_le` : a variant bounds how often some of the steps are taken.
* `TransitionSystem.Path.simulate` : one system follows the paths of another.
-/

/-- A transition system whose steps are computed; `none` is a refused action. -/
structure TransitionSystem (σ α : Type*) where
  /-- The state every run starts from. -/
  init : σ
  /-- The state after an action. -/
  step : σ → α → Option σ

namespace TransitionSystem

variable {σ α : Type*} (M : TransitionSystem σ α)

/-! ### Guarded reachability -/

/-- The states reached from the initial one by steps that meet `G`. -/
inductive Reachable (G : σ → α → Prop) : σ → Prop
  | init : Reachable G M.init
  | step {s : σ} {a : α} {s' : σ} (hs : Reachable G s) (hG : G s a) (h : M.step s a = some s') :
      Reachable G s'

variable {M}

namespace Reachable

variable {G G' : σ → α → Prop} {I : σ → Prop}

/-- Induction over runs: a predicate that holds initially and is kept by every step that meets
the condition holds of every reachable state. -/
theorem invariant {s : σ} (hs : M.Reachable G s) (h₀ : I M.init)
    (hI : ∀ s a s', I s → G s a → M.step s a = some s' → I s') : I s := by
  induction hs with
  | init => exact h₀
  | step _ hG h ih => exact hI _ _ _ ih hG h

/-- Induction over runs, where the step may use that the state before it is reachable. -/
theorem invariant_step {s : σ} (hs : M.Reachable G s) (h₀ : I M.init)
    (hI : ∀ s a s', M.Reachable G s → I s → G s a → M.step s a = some s' → I s') : I s := by
  induction hs with
  | init => exact h₀
  | step hr hG h ih => exact hI _ _ _ hr ih hG h

/-- A weaker condition on the steps reaches more states. -/
theorem mono (hG : ∀ s a, G s a → G' s a) {s : σ} (hs : M.Reachable G s) : M.Reachable G' s := by
  induction hs with
  | init => exact .init
  | step _ hg h ih => exact .step ih (hG _ _ hg) h

/-- Simulation: when `f` maps every step of `M` to a step of `N` or to no step at all, it maps
reachable states to reachable states. -/
theorem simulate {τ β : Type*} {N : TransitionSystem τ β} {H : τ → β → Prop} {f : σ → τ} {s : σ}
    (hs : M.Reachable G s) (h₀ : f M.init = N.init)
    (hf : ∀ s a s', G s a → M.step s a = some s' →
      f s' = f s ∨ ∃ b, H (f s) b ∧ N.step (f s) b = some (f s')) : N.Reachable H (f s) := by
  induction hs with
  | init => exact h₀ ▸ .init
  | step _ hg h ih =>
    rcases hf _ _ _ hg h with heq | ⟨b, hb, hstep⟩
    · exact heq ▸ ih
    · exact .step ih hb hstep

end Reachable

/-! ### Runs as lists of actions -/

variable (M)

/-- The state a list of actions leads to from `s`, when none is refused. -/
def runFrom : σ → List α → Option σ
  | s, [] => some s
  | s, a :: as => (M.step s a).bind fun s' => runFrom s' as

/-- The state a list of actions leads to from the initial state. -/
def run (as : List α) : Option σ := M.runFrom M.init as

@[simp] theorem run_nil : M.run [] = some M.init := rfl

theorem runFrom_append (s : σ) (as bs : List α) :
    M.runFrom s (as ++ bs) = (M.runFrom s as).bind fun s' => M.runFrom s' bs := by
  induction as generalizing s with
  | nil => rfl
  | cons a as ih =>
    simp only [List.cons_append, runFrom]
    cases M.step s a with
    | none => rfl
    | some s' => exact ih s'

theorem run_append_singleton (as : List α) (a : α) :
    M.run (as ++ [a]) = (M.run as).bind fun s => M.step s a := by
  rw [run, runFrom_append]
  refine congrArg _ (funext fun s => ?_)
  cases h : M.step s a <;> simp [runFrom, h]

variable {M} in
/-- What every step keeps holds after a run if it held before. -/
theorem invariant_of_runFrom {I : σ → Prop} (hI : ∀ s a s', I s → M.step s a = some s' → I s')
    {as : List α} {s t : σ} (hs : I s) (h : M.runFrom s as = some t) : I t := by
  induction as generalizing s with
  | nil => exact Option.some.inj h ▸ hs
  | cons a as ih =>
    obtain ⟨s', hs', ht⟩ := Option.bind_eq_some_iff.mp h
    exact ih (hI s a s' hs hs') ht

/-- A property of every state of the run `as`. -/
def Along (as : List α) (P : σ → Prop) : Prop :=
  ∀ k s, M.run (as.take k) = some s → P s

/-- A condition on every step of the run `as`: on the state before it and the action. -/
def StepsMeet (as : List α) (G : σ → α → Prop) : Prop :=
  ∀ k s a, M.run (as.take k) = some s → as[k]? = some a → G s a

variable {M}

theorem take_succ_of_getElem? {as : List α} {k : ℕ} {a : α} (h : as[k]? = some a) :
    as.take (k + 1) = as.take k ++ [a] := by
  rw [List.take_add_one, h]
  rfl

/-- A longer prefix of a run that is defined has its last action at the end. -/
theorem run_take_succ {as : List α} {k : ℕ} {a : α} (h : as[k]? = some a) :
    M.run (as.take (k + 1)) = (M.run (as.take k)).bind fun s => M.step s a := by
  rw [take_succ_of_getElem? h, run_append_singleton]

/-- Every action of a run that is not refused leads from one state to the next. -/
theorem exists_step_of_run {as : List α} {t : σ} (h : M.run as = some t) {k : ℕ} {s : σ} {a : α}
    (hs : M.run (as.take k) = some s) (ha : as[k]? = some a) :
    ∃ s', M.step s a = some s' ∧ M.run (as.take (k + 1)) = some s' := by
  have hsplit : as = as.take (k + 1) ++ as.drop (k + 1) := (List.take_append_drop _ _).symm
  rw [run, hsplit, runFrom_append] at h
  obtain ⟨s', hs', -⟩ := Option.bind_eq_some_iff.mp h
  refine ⟨s', ?_, hs'⟩
  rwa [← run, run_take_succ ha, hs, Option.bind_some] at hs'

/-- Every state of a run whose steps meet a condition is reachable under it. -/
theorem reachable_of_stepsMeet {as : List α} {G : σ → α → Prop} (hG : M.StepsMeet as G) :
    M.Along as (M.Reachable G) := by
  intro k
  induction k with
  | zero =>
    intro s hs
    rw [List.take_zero, run_nil, Option.some.injEq] at hs
    exact hs ▸ .init
  | succ k ih =>
    intro s hs
    cases ha : as[k]? with
    | none =>
      have hk : as.take (k + 1) = as.take k := by
        rw [List.take_of_length_le (List.getElem?_eq_none_iff.mp ha),
          List.take_of_length_le (Nat.le_succ_of_le (List.getElem?_eq_none_iff.mp ha))]
      exact ih s (hk ▸ hs)
    | some a =>
      rw [run_take_succ ha] at hs
      obtain ⟨t, ht, hst⟩ := Option.bind_eq_some_iff.mp hs
      exact .step (ih t ht) (hG k t a ht ha) hst

/-- The last state of a run of unconditional steps is reachable. -/
theorem reachable_of_run {as : List α} {s : σ} (h : M.run as = some s) :
    M.Reachable (fun _ _ => True) s :=
  reachable_of_stepsMeet (fun _ _ _ _ _ => trivial) as.length s (by rwa [List.take_length])

/-- A run whose steps meet a decidable condition, executed with its check. -/
def runChecked (M : TransitionSystem σ α) (G : σ → α → Prop) [∀ s a, Decidable (G s a)] :
    σ → List α → Option σ
  | s, [] => some s
  | s, a :: as => if G s a then (M.step s a).bind fun s' => runChecked M G s' as else none

theorem reachable_of_runChecked_from {G : σ → α → Prop} [∀ s a, Decidable (G s a)]
    {as : List α} {s t : σ} (hs : M.Reachable G s) (h : M.runChecked G s as = some t) :
    M.Reachable G t := by
  induction as generalizing s with
  | nil => exact Option.some.inj h ▸ hs
  | cons a as ih =>
    simp only [runChecked] at h
    split_ifs at h with hG
    obtain ⟨s', hs', ht⟩ := Option.bind_eq_some_iff.mp h
    exact ih (.step hs hG hs') ht

/-- A checked run is a run whose steps meet the condition. -/
theorem runFrom_of_runChecked {G : σ → α → Prop} [∀ s a, Decidable (G s a)] {as : List α}
    {s t : σ} (h : M.runChecked G s as = some t) :
    M.runFrom s as = some t ∧
      ∀ k s' a, M.runFrom s (as.take k) = some s' → as[k]? = some a → G s' a := by
  induction as generalizing s with
  | nil => exact ⟨h, fun k s' a _ ha => by simp at ha⟩
  | cons b as ih =>
    simp only [runChecked] at h
    split_ifs at h with hG
    obtain ⟨u, hu, ht⟩ := Option.bind_eq_some_iff.mp h
    obtain ⟨hrun, hmeet⟩ := ih ht
    refine ⟨by rw [runFrom, hu]; exact hrun, fun k s' a hs' ha => ?_⟩
    cases k with
    | zero =>
      obtain rfl := Option.some.inj hs'
      obtain rfl := Option.some.inj ha
      exact hG
    | succ k =>
      rw [List.take_succ_cons, runFrom, hu] at hs'
      exact hmeet k s' a hs' ha

theorem run_of_runChecked {G : σ → α → Prop} [∀ s a, Decidable (G s a)] {as : List α} {t : σ}
    (h : M.runChecked G M.init as = some t) : M.run as = some t ∧ M.StepsMeet as G :=
  runFrom_of_runChecked h

/-- A checked run shows that a state with a given property is reachable. -/
theorem exists_reachable_of_runChecked {G : σ → α → Prop} [∀ s a, Decidable (G s a)]
    {P : σ → Prop} [DecidablePred P] (as : List α)
    (h : (M.runChecked G M.init as).any (fun s => P s) = true) : ∃ s, M.Reachable G s ∧ P s := by
  obtain ⟨s, hs, hP⟩ := (Option.any_eq_true _ _).mp h
  exact ⟨s, reachable_of_runChecked_from .init hs, of_decide_eq_true hP⟩

/-- A run and a run from its end, executed, show that two states with a given relation follow one
another. -/
theorem exists_runFrom_of_any {P : σ → σ → Prop} [∀ s t, Decidable (P s t)] (as bs : List α)
    (h : (M.run as).any (fun s => (M.runFrom s bs).any fun t => P s t) = true) :
    ∃ s t, M.Reachable (fun _ _ => True) s ∧ M.runFrom s bs = some t ∧ P s t := by
  obtain ⟨s, hs, h⟩ := (Option.any_eq_true _ _).mp h
  obtain ⟨t, ht, hP⟩ := (Option.any_eq_true _ _).mp h
  exact ⟨s, t, reachable_of_run hs, ht, of_decide_eq_true hP⟩

/-! ### Variants -/

variable (M)

/-- The list of actions leads from one state to another by steps that meet `G`. -/
inductive Path (G : σ → α → Prop) : σ → List α → σ → Prop
  | nil (s : σ) : Path G s [] s
  | cons {s s' t : σ} {a : α} {as : List α} (hG : G s a) (h : M.step s a = some s')
      (hp : Path G s' as t) : Path G s (a :: as) t

variable {M}

namespace Path

variable {G H : σ → α → Prop} {s t : σ} {as : List α}

/-- A path goes from reachable states to reachable states. -/
theorem reachable (hp : M.Path G s as t) (hs : M.Reachable H s) (hG : ∀ s a, G s a → H s a) :
    M.Reachable H t := by
  induction hp with
  | nil => exact hs
  | cons hg h _ ih => exact ih (.step hs (hG _ _ hg) h)

/-- The steps of a path meet every weaker condition. -/
theorem mono (hp : M.Path G s as t) (hG : ∀ s a, G s a → H s a) : M.Path H s as t := by
  induction hp with
  | nil s => exact .nil s
  | cons hg h _ ih => exact .cons (hG _ _ hg) h ih

/-- Every step along a path keeps what holds of the states. -/
theorem invariant {I : σ → Prop} (hp : M.Path G s as t)
    (hI : ∀ s a s', I s → G s a → M.step s a = some s' → I s') (hs : I s) : I t := by
  induction hp with
  | nil => exact hs
  | cons hg h _ ih => exact ih (hI _ _ _ hs hg h)

/-- The variant rule: when `v` goes down with every step that counts, and up with no other one, a
path has no more such steps than `v` goes down from its first state to its last. -/
theorem countP_add_le {v : σ → ℤ} {I : σ → Prop} {p : α → Bool} (hp : M.Path G s as t)
    (hI : ∀ s a s', I s → G s a → M.step s a = some s' → I s')
    (hv : ∀ s a s', I s → G s a → M.step s a = some s' → v s' + (p a).toNat ≤ v s)
    (hs : I s) : as.countP p + v t ≤ v s := by
  induction hp with
  | nil => simp
  | @cons s s' t a as hg h _ ih =>
    have hstep := hv _ _ _ hs hg h
    have hrest := ih (hI _ _ _ hs hg h)
    have hcount : (a :: as).countP p = as.countP p + (p a).toNat := by
      rw [List.countP_cons]
      cases p a <;> rfl
    rw [hcount]
    push_cast
    omega

/-- Forward simulation: when every step from related states has its image, every path has. -/
theorem simulate {τ β : Type*} {N : TransitionSystem τ β} {H : τ → β → Prop} {R : σ → τ → Prop}
    {f : α → β} (hp : M.Path G s as t) (hR : ∀ s u a s', R s u → G s a → M.step s a = some s' →
      ∃ u', H u (f a) ∧ N.step u (f a) = some u' ∧ R s' u') {u : τ} (hs : R s u) :
    ∃ v, N.Path H u (as.map f) v ∧ R t v := by
  induction hp generalizing u with
  | nil => exact ⟨u, .nil u, hs⟩
  | cons hg h _ ih =>
    obtain ⟨u', hH, hstep, hs'⟩ := hR _ _ _ _ hs hg h
    obtain ⟨v, hpath, hv⟩ := ih hs'
    exact ⟨v, .cons hH hstep hpath, hv⟩

/-- A run is a path of unconditional steps. -/
theorem of_runFrom (h : M.runFrom s as = some t) : M.Path (fun _ _ => True) s as t := by
  induction as generalizing s with
  | nil => exact Option.some.inj h ▸ .nil s
  | cons a as ih =>
    obtain ⟨s', hs', ht⟩ := Option.bind_eq_some_iff.mp h
    exact .cons trivial hs' (ih ht)

/-- A run executed with the check of its condition is a path. -/
theorem of_runChecked [∀ s a, Decidable (G s a)] (h : M.runChecked G s as = some t) :
    M.Path G s as t := by
  induction as generalizing s with
  | nil => exact Option.some.inj h ▸ .nil s
  | cons a as ih =>
    simp only [runChecked] at h
    split_ifs at h with hG
    obtain ⟨s', hs', ht⟩ := Option.bind_eq_some_iff.mp h
    exact .cons hG hs' (ih ht)

end Path

end TransitionSystem
