import IocpProxy.Library.TransitionSystem

/-!
# Threads that share data under locks

Threads run programs over a store that is cut into parts, one for each lock. At a label a thread
acquires a lock, releases one, or makes one access to the part of a lock. The programs are
*disciplined* when the labels tell which locks a thread holds: an access is made under its lock,
locks are released in the opposite order, and a lock is acquired only inside locks that the order
of nesting allows.

A *resource invariant* is a property of the part of each lock that holds whenever the lock is free.
While a thread holds the lock, an assertion for its label takes the place of the invariant. To show
that both hold in every run it is enough to look at each instruction of one thread alone.

## Main definitions

* `LockInstr`, `LockProgram`, `LockProgram.system`.
* `LockProgram.Disciplined`, `LockProgram.Protects`.

## Main results

* `LockProgram.Disciplined.owned_of_reachable` : a lock is owned by the thread whose label holds it.
* `LockProgram.Disciplined.exists_run` : nested in a well-founded order, locks make no deadlock.
* `LockProgram.Protects.protected_of_reachable` : the rule for resource invariants.
-/

/-- What a thread does at a label. -/
inductive LockInstr (ℓ : Type*) (σ : ℓ → Type*) (κ : Type*)
  /-- The thread has nothing to do. -/
  | done
  | acquire (l : ℓ) (k : κ)
  | release (l : ℓ) (k : κ)
  /-- One access to the data under a lock, which also tells the next label. -/
  | access (l : ℓ) (f : σ l → κ × σ l)

/-- The program of threads `τ` with labels `κ`, which are called with `γ`. -/
structure LockProgram (τ ℓ : Type*) (σ : ℓ → Type*) (κ γ : Type*) where
  next : τ → κ → LockInstr ℓ σ κ
  /-- The label at which a call begins. -/
  start : κ → γ → κ

/-- Where the threads are, who owns the locks, and the data. -/
structure LockState (τ ℓ : Type*) (σ : ℓ → Type*) (κ : Type*) where
  label : τ → κ
  owner : ℓ → Option τ
  store : (l : ℓ) → σ l

/-- A thread goes on, or is called. -/
inductive LockAction (τ γ : Type*)
  | run (t : τ)
  | call (t : τ) (g : γ)
  deriving DecidableEq

namespace LockProgram

variable {τ ℓ : Type*} {σ : ℓ → Type*} {κ γ : Type*} [DecidableEq τ] [DecidableEq ℓ]
  (P : LockProgram τ ℓ σ κ γ) {s s' : LockState τ ℓ σ κ} {t : τ} {a : LockAction τ γ}

/-- A step of the threads. A thread waits at a lock that is owned. -/
def step (s : LockState τ ℓ σ κ) : LockAction τ γ → Option (LockState τ ℓ σ κ)
  | .run t =>
    match P.next t (s.label t) with
    | .done => none
    | .acquire l k =>
      if (s.owner l).isNone then
        some { s with
          label := Function.update s.label t k, owner := Function.update s.owner l (some t) }
      else none
    | .release l k =>
      some { s with
        label := Function.update s.label t k, owner := Function.update s.owner l none }
    | .access l f =>
      some { s with
        label := Function.update s.label t (f (s.store l)).1
        store := Function.update s.store l (f (s.store l)).2 }
  | .call t g =>
    match P.next t (s.label t) with
    | .done => some { s with label := Function.update s.label t (P.start (s.label t) g) }
    | _ => none

/-- The threads from a given state on. -/
def system (init : LockState τ ℓ σ κ) : TransitionSystem (LockState τ ℓ σ κ) (LockAction τ γ) where
  init := init
  step := P.step

/-- The moves of the threads. -/
inductive Move (s : LockState τ ℓ σ κ) : LockAction τ γ → LockState τ ℓ σ κ → Prop
  | acquired {t : τ} {l : ℓ} {k : κ} (h : P.next t (s.label t) = .acquire l k)
      (hl : s.owner l = none) :
      Move s (.run t) { s with
        label := Function.update s.label t k, owner := Function.update s.owner l (some t) }
  | released {t : τ} {l : ℓ} {k : κ} (h : P.next t (s.label t) = .release l k) :
      Move s (.run t) { s with
        label := Function.update s.label t k, owner := Function.update s.owner l none }
  | accessed {t : τ} {l : ℓ} {f : σ l → κ × σ l} (h : P.next t (s.label t) = .access l f) :
      Move s (.run t) { s with
        label := Function.update s.label t (f (s.store l)).1
        store := Function.update s.store l (f (s.store l)).2 }
  | called {t : τ} {g : γ} (h : P.next t (s.label t) = .done) :
      Move s (.call t g) { s with label := Function.update s.label t (P.start (s.label t) g) }

variable {P}

theorem step_move (h : P.step s a = some s') : P.Move s a s' := by
  cases a with
  | run t =>
    simp only [step] at h
    split at h
    · cases h
    next l k hk =>
      split_ifs at h with hl
      cases h
      exact .acquired hk (Option.isNone_iff_eq_none.mp hl)
    next l k hk =>
      cases h
      exact .released hk
    next l f hk =>
      cases h
      exact .accessed hk
  | call t g =>
    simp only [step] at h
    split at h
    next hk =>
      cases h
      exact .called hk
    · cases h

/-! ### The order of the locks -/

variable {held : κ → List ℓ} {r : ℓ → ℓ → Prop}

variable (P held r) in
/-- The labels tell which locks are held, the latest first; `r l m` allows `m` inside `l`. -/
structure Disciplined : Prop where
  done : ∀ {t k}, P.next t k = .done → held k = [] ∧ ∀ g, held (P.start k g) = []
  acquire : ∀ {t k l k'}, P.next t k = .acquire l k' →
    held k' = l :: held k ∧ ∀ m ∈ held k, r m l
  release : ∀ {t k l k'}, P.next t k = .release l k' → held k = l :: held k'
  access : ∀ {t k l f}, P.next t k = .access l f → l ∈ held k ∧ ∀ x, held (f x).1 = held k

/-- Locks are owned by the threads whose labels hold them, each once. -/
structure Owned (held : κ → List ℓ) (s : LockState τ ℓ σ κ) : Prop where
  iff : ∀ l t, s.owner l = some t ↔ l ∈ held (s.label t)
  nodup : ∀ t, (held (s.label t)).Nodup

omit [DecidableEq τ] [DecidableEq ℓ] in
theorem Owned.not_mem (h : Owned held s) {l : ℓ} (hl : s.owner l = none) (t : τ) :
    l ∉ held (s.label t) := by
  intro hmem
  cases hl.symm.trans ((h.iff l t).mpr hmem)

theorem Disciplined.owned_step (hP : P.Disciplined held r) (h : Owned held s)
    (hm : P.Move s a s') : Owned held s' := by
  cases hm with
  | @acquired t l k hk hl =>
    obtain ⟨hheld, -⟩ := hP.acquire hk
    refine ⟨fun m u => ?_, fun u => ?_⟩
    · by_cases hu : u = t
      · subst hu
        by_cases hml : m = l
        · subst hml
          simp [hheld]
        · simp [hheld, hml, h.iff]
      · by_cases hml : m = l
        · subst hml
          simp [hu, Ne.symm hu, h.not_mem hl]
        · simp [hu, hml, h.iff]
    · by_cases hu : u = t
      · subst hu
        simpa [hheld] using ⟨h.not_mem hl u, h.nodup u⟩
      · simpa [hu] using h.nodup u
  | @released t l k hk =>
    have hheld := hP.release hk
    have hnot : l ∉ held k ∧ (held k).Nodup := by
      simpa [hheld] using h.nodup t
    refine ⟨fun m u => ?_, fun u => ?_⟩
    · by_cases hu : u = t
      · subst hu
        by_cases hml : m = l
        · subst hml
          simp [hnot.1]
        · simp [hml, h.iff, hheld]
      · by_cases hml : m = l
        · subst hml
          have howner : s.owner m = some t := (h.iff m t).mpr (by simp [hheld])
          have hnone : m ∉ held (s.label u) := fun hmem => by
            have hsome := (h.iff m u).mpr hmem
            exact hu (Option.some.inj (hsome.symm.trans howner))
          simp [hu, hnone]
        · simp [hu, hml, h.iff]
    · by_cases hu : u = t
      · subst hu
        simpa using hnot.2
      · simpa [hu] using h.nodup u
  | @accessed t l f hk =>
    have hheld := (hP.access hk).2 (s.store l)
    refine ⟨fun m u => ?_, fun u => ?_⟩
    · by_cases hu : u = t
      · subst hu
        simp [hheld, h.iff]
      · simp [hu, h.iff]
    · by_cases hu : u = t
      · subst hu
        simpa [hheld] using h.nodup u
      · simpa [hu] using h.nodup u
  | @called t g hk =>
    obtain ⟨hnil, hstart⟩ := hP.done hk
    refine ⟨fun m u => ?_, fun u => ?_⟩
    · by_cases hu : u = t
      · subst hu
        simp [hstart, h.iff, hnil]
      · simp [hu, h.iff]
    · by_cases hu : u = t
      · subst hu
        simp [hstart]
      · simpa [hu] using h.nodup u

/-- A lock is owned by a thread exactly while the label of the thread holds it. -/
theorem Disciplined.owned_of_reachable (hP : P.Disciplined held r) {init : LockState τ ℓ σ κ}
    {G : LockState τ ℓ σ κ → LockAction τ γ → Prop} (hinit : Owned held init)
    (hs : (P.system init).Reachable G s) : Owned held s :=
  hs.invariant hinit fun _ _ _ h _ hstep => hP.owned_step h (step_move hstep)

/-- When locks are nested in a well-founded order, some thread can go on as long as one thread has
something to do. -/
theorem Disciplined.exists_run (hP : P.Disciplined held r) (hr : WellFounded (flip r))
    (h : Owned held s) (ht : P.next t (s.label t) ≠ .done) :
    ∃ u, (P.step s (.run u)).isSome := by
  -- induction along the locks that the threads wait for
  have hwait : ∀ l t k, P.next t (s.label t) = .acquire l k →
      ∃ u, (P.step s (.run u)).isSome := by
    intro l
    induction l using hr.induction with
    | h l ih =>
      intro t k hk
      cases hl : s.owner l with
      | none => exact ⟨t, by simp [step, hk, hl]⟩
      | some u =>
        have hmem := (h.iff l u).mp hl
        cases hu : P.next u (s.label u) with
        | done => simp [(hP.done hu).1] at hmem
        | acquire m k' => exact ih m ((hP.acquire hu).2 l hmem) u k' hu
        | release m k' => exact ⟨u, by simp [step, hu]⟩
        | access m f => exact ⟨u, by simp [step, hu]⟩
  cases hk : P.next t (s.label t) with
  | done => exact absurd hk ht
  | acquire l k => exact hwait l t k hk
  | release l k => exact ⟨t, by simp [step, hk]⟩
  | access l f => exact ⟨t, by simp [step, hk]⟩

/-! ### Resource invariants -/

variable {R : (l : ℓ) → σ l → Prop} {A : τ → κ → (l : ℓ) → σ l → Prop}

variable (P held R A) in
/-- Every instruction, run alone, keeps the invariants `R` of the free locks, and the assertions
`A` about the locks held at the labels. -/
structure Protects : Prop where
  acquire : ∀ {t k l k'}, P.next t k = .acquire l k' →
    (∀ x, R l x → A t k' l x) ∧ ∀ m ∈ held k, ∀ x, A t k m x → A t k' m x
  release : ∀ {t k l k'}, P.next t k = .release l k' →
    (∀ x, A t k l x → R l x) ∧ ∀ m ∈ held k', ∀ x, A t k m x → A t k' m x
  access : ∀ {t k l f}, P.next t k = .access l f → ∀ x, A t k l x → A t (f x).1 l (f x).2 ∧
    ∀ m ∈ held k, m ≠ l → ∀ y, A t k m y → A t (f x).1 m y

/-- The data under a lock has its invariant, or what the label of the owner says of it. -/
structure Protected (held : κ → List ℓ) (R : (l : ℓ) → σ l → Prop)
    (A : τ → κ → (l : ℓ) → σ l → Prop) (s : LockState τ ℓ σ κ) : Prop where
  free : ∀ l, s.owner l = none → R l (s.store l)
  held : ∀ t, ∀ l ∈ held (s.label t), A t (s.label t) l (s.store l)

theorem Protects.step (hA : P.Protects held R A) (hP : P.Disciplined held r) (ho : Owned held s)
    (h : Protected held R A s) (hm : P.Move s a s') : Protected held R A s' := by
  cases hm with
  | @acquired t l k hk hl =>
    obtain ⟨hnew, hkeep⟩ := hA.acquire hk
    obtain ⟨hheld, -⟩ := hP.acquire hk
    refine ⟨fun m hm => ?_, fun u m hm => ?_⟩
    · by_cases hml : m = l
      · subst hml
        simp at hm
      · exact h.free m (by simpa [hml] using hm)
    · by_cases hu : u = t
      · subst hu
        simp only [Function.update_self] at hm ⊢
        rw [hheld] at hm
        rcases List.mem_cons.mp hm with rfl | hm
        · exact hnew _ (h.free m hl)
        · exact hkeep m hm _ (h.held u m hm)
      · simp only [Function.update_of_ne hu] at hm ⊢
        exact h.held u m hm
  | @released t l k hk =>
    obtain ⟨hdone, hkeep⟩ := hA.release hk
    have hheld := hP.release hk
    refine ⟨fun m hm => ?_, fun u m hm => ?_⟩
    · by_cases hml : m = l
      · subst hml
        exact hdone _ (h.held t m (by simp [hheld]))
      · exact h.free m (by simpa [hml] using hm)
    · by_cases hu : u = t
      · subst hu
        simp only [Function.update_self] at hm ⊢
        exact hkeep m hm _ (h.held u m (by simp [hheld, hm]))
      · simp only [Function.update_of_ne hu] at hm ⊢
        exact h.held u m hm
  | @accessed t l f hk =>
    obtain ⟨hmem, hheld⟩ := hP.access hk
    have howner := (ho.iff l t).mpr hmem
    obtain ⟨hnew, hkeep⟩ := hA.access hk _ (h.held t l hmem)
    refine ⟨fun m hm => ?_, fun u m hm => ?_⟩
    · have hml : m ≠ l := by
        rintro rfl
        cases hm.symm.trans howner
      simpa [hml] using h.free m hm
    · by_cases hu : u = t
      · subst hu
        simp only [Function.update_self, hheld] at hm ⊢
        by_cases hml : m = l
        · subst hml
          simpa using hnew
        · simpa [hml] using hkeep m hm hml _ (h.held u m hm)
      · simp only [Function.update_of_ne hu] at hm ⊢
        have hml : m ≠ l := by
          rintro rfl
          exact hu (Option.some.inj (((ho.iff m u).mpr hm).symm.trans howner))
        simpa [hml] using h.held u m hm
  | @called t g hk =>
    obtain ⟨hnil, hstart⟩ := hP.done hk
    refine ⟨h.free, fun u m hm => ?_⟩
    by_cases hu : u = t
    · subst hu
      simp [hstart] at hm
    · simp only [Function.update_of_ne hu] at hm ⊢
      exact h.held u m hm

/-- The rule for resource invariants: when every instruction alone keeps the invariants and
assertions, they hold in every run of any number of threads. -/
theorem Protects.protected_of_reachable (hA : P.Protects held R A) (hP : P.Disciplined held r)
    {init : LockState τ ℓ σ κ} {G : LockState τ ℓ σ κ → LockAction τ γ → Prop}
    (ho : Owned held init) (h : Protected held R A init) (hs : (P.system init).Reachable G s) :
    Protected held R A s :=
  hs.invariant_step h fun _ _ _ hr ih _ hstep =>
    hA.step hP (hP.owned_of_reachable ho hr) ih (step_move hstep)

end LockProgram
