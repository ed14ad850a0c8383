import Mathlib

/-!
# Objects kept alive by references

Objects of a type `α` are shared by reference. An object may hold one strong reference to another
object, given by `strong : α → Option α`, and some objects are *rooted*: a variable outside the
objects refers to them strongly. A live object is *owned* when it is rooted or a live object
refers to it. When a reference to `x` is given up and `x` is no longer owned, `x` is destroyed,
which gives up its own reference, and so on along the chain of references: `cascade` is the list
of the objects destroyed, in order. Objects that refer to each other in a cycle would own each other
for ever; a reference to an object that refers to nothing makes no cycle.

## Main definitions

* `Ownership.Owned` : rooted or referred to by a live object.
* `Ownership.Refers`, `Ownership.Acyclic` : the graph of the references.
* `Ownership.cascade` : the objects destroyed when a reference is given up.

## Main results

* `Ownership.Acyclic.update`, `Ownership.Acyclic.exists_root`, `Ownership.Acyclic.eq_empty`.
* `Ownership.cascade_sound`, `Ownership.cascade_nodup` : only live objects that are not rooted are
  destroyed, each once.
* `Ownership.cascade_not_referenced` : no surviving object refers to a destroyed one.
* `Ownership.owned_of_survives` : if every live object but the one given up was owned, every
  survivor is owned.
-/

namespace Ownership

variable {α : Type*}

/-- `x` is rooted, or some live object refers to it. -/
def Owned (strong : α → Option α) (root : α → Prop) (live : Finset α) (x : α) : Prop :=
  root x ∨ ∃ y ∈ live, strong y = some x

theorem Owned.mono {strong : α → Option α} {root : α → Prop} {live live' : Finset α}
    (h : live ⊆ live') {x : α} (hx : Owned strong root live x) : Owned strong root live' x :=
  hx.imp_right fun ⟨y, hy, hs⟩ => ⟨y, h hy, hs⟩

/-! ### References without cycles -/

/-- The live object `x` refers to `y`. -/
def Refers (strong : α → Option α) (live : Finset α) (x y : α) : Prop :=
  x ∈ live ∧ strong x = some y

/-- No live object refers to itself, directly or through others. -/
def Acyclic (strong : α → Option α) (live : Finset α) : Prop :=
  ∀ x, ¬ Relation.TransGen (Refers strong live) x x

/-- Giving up references makes no cycle. -/
theorem Acyclic.mono {strong strong' : α → Option α} {live live' : Finset α}
    (h : Acyclic strong live)
    (hsub : ∀ x y, Refers strong' live' x y → Refers strong live x y) : Acyclic strong' live' :=
  fun x hx => h x (Relation.TransGen.mono hsub _ _ hx)

/-- A reference to an object that refers to nothing makes no cycle. -/
theorem Acyclic.update [DecidableEq α] {strong : α → Option α} {live : Finset α}
    (h : Acyclic strong live) {x y : α} (hxy : x ≠ y) (hy : strong y = none) :
    Acyclic (Function.update strong x (some y)) live := by
  have hsink : ∀ z, ¬ Refers (Function.update strong x (some y)) live y z := by
    rintro z ⟨-, hz⟩
    rw [Function.update_of_ne hxy.symm, hy] at hz
    cases hz
  have hedge : ∀ {a b}, Refers (Function.update strong x (some y)) live a b →
      Refers strong live a b ∨ b = y := by
    rintro a b ⟨ha, hab⟩
    by_cases hax : a = x
    · subst hax
      rw [Function.update_self] at hab
      exact .inr (Option.some.inj hab).symm
    · rw [Function.update_of_ne hax] at hab
      exact .inl ⟨ha, hab⟩
  -- a path that comes to `y` ends there
  have hpath : ∀ {a b}, Relation.TransGen (Refers (Function.update strong x (some y)) live) a b →
      Relation.TransGen (Refers strong live) a b ∨ b = y := by
    intro a b hab
    induction hab with
    | single hab => exact (hedge hab).imp_left .single
    | tail _ hbc ih =>
      rcases ih with ih | rfl
      · exact (hedge hbc).imp_left ih.tail
      · exact absurd hbc (hsink _)
  intro z hz
  rcases hpath hz with hold | rfl
  · exact h z hold
  · obtain ⟨w, hw, -⟩ := Relation.TransGen.head'_iff.mp hz
    exact hsink w hw

/-- Without cycles, every object is kept alive from outside. -/
theorem Acyclic.exists_root {strong : α → Option α} {root : α → Prop} {live : Finset α}
    (h : Acyclic strong live) (howned : ∀ x ∈ live, Owned strong root live x) {x : α}
    (hx : x ∈ live) : ∃ r ∈ live, root r ∧ Relation.ReflTransGen (Refers strong live) r x := by
  let R : live → live → Prop := fun a b => Relation.TransGen (Refers strong live) a b
  have hirrefl : Std.Irrefl R := ⟨fun a => h a⟩
  have htrans : IsTrans live R := ⟨fun _ _ _ => Relation.TransGen.trans⟩
  have hwf : WellFounded R := Finite.wellFounded_of_trans_of_irrefl R
  suffices hall : ∀ a : live, ∃ r ∈ live, root r ∧
      Relation.ReflTransGen (Refers strong live) r a from hall ⟨x, hx⟩
  intro a
  induction a using hwf.induction with
  | _ a ih =>
    rcases howned a a.2 with hr | ⟨y, hy, hya⟩
    · exact ⟨a, a.2, hr, .refl⟩
    · obtain ⟨r, hr, hroot, hpath⟩ := ih ⟨y, hy⟩ (.single ⟨hy, hya⟩)
      exact ⟨r, hr, hroot, hpath.tail ⟨hy, hya⟩⟩

/-- Without cycles and without references from outside, nothing is left. -/
theorem Acyclic.eq_empty {strong : α → Option α} {root : α → Prop} {live : Finset α}
    (h : Acyclic strong live) (howned : ∀ x ∈ live, Owned strong root live x)
    (hroot : ∀ x, ¬ root x) : live = ∅ := by
  rw [Finset.eq_empty_iff_forall_notMem]
  intro x hx
  obtain ⟨r, -, hr, -⟩ := h.exists_root howned hx
  exact hroot r hr

/-! ### Giving up a reference -/

variable [DecidableEq α] (strong : α → Option α) (root : α → Prop) [DecidablePred root]

instance (live : Finset α) (x : α) : Decidable (Owned strong root live x) :=
  inferInstanceAs (Decidable (root x ∨ ∃ y ∈ live, strong y = some x))

/-- The objects destroyed, in order, when a reference to `x` is given up: `x` itself if it is
live and not owned, then the objects its own reference was the last one to. -/
def cascade : ℕ → Finset α → α → List α
  | 0, _, _ => []
  | k + 1, live, x =>
    if x ∈ live ∧ ¬ Owned strong root live x then
      x :: match strong x with
        | none => []
        | some y => cascade k (live.erase x) y
    else []

variable {strong root}

/-- Only live objects that are not rooted are destroyed. -/
theorem cascade_sound {k : ℕ} {live : Finset α} {x z : α}
    (hz : z ∈ cascade strong root k live x) : z ∈ live ∧ ¬ root z := by
  induction k generalizing live x with
  | zero => simp [cascade] at hz
  | succ k ih =>
    rw [cascade] at hz
    split_ifs at hz with hx
    · rcases List.mem_cons.mp hz with rfl | hz
      · exact ⟨hx.1, fun hr => hx.2 (Or.inl hr)⟩
      · cases hs : strong x with
        | none => simp [hs] at hz
        | some y =>
          simp only [hs] at hz
          exact ⟨Finset.mem_of_mem_erase (ih hz).1, (ih hz).2⟩
    · simp at hz

/-- No object is destroyed twice. -/
theorem cascade_nodup {k : ℕ} {live : Finset α} {x : α} :
    (cascade strong root k live x).Nodup := by
  induction k generalizing live x with
  | zero => exact List.nodup_nil
  | succ k ih =>
    rw [cascade]
    split_ifs with hx
    · cases hs : strong x with
      | none => exact List.nodup_singleton x
      | some y =>
        refine List.nodup_cons.mpr ⟨fun hm => ?_, ih⟩
        exact Finset.notMem_erase x live (cascade_sound hm).1
    · exact List.nodup_nil

/-- No surviving object refers to a destroyed one. -/
theorem cascade_not_referenced {k : ℕ} {live : Finset α} {x z y : α}
    (hz : z ∈ cascade strong root k live x) (hy : y ∈ live)
    (hyc : y ∉ cascade strong root k live x) : strong y ≠ some z := by
  induction k generalizing live x with
  | zero => simp [cascade] at hz
  | succ k ih =>
    rw [cascade] at hz hyc
    split_ifs at hz hyc with hx
    · rw [List.mem_cons, not_or] at hyc
      rcases List.mem_cons.mp hz with rfl | hz
      · exact fun hs => hx.2 (Or.inr ⟨y, hy, hs⟩)
      · cases hs : strong x with
        | none => simp [hs] at hz
        | some w =>
          simp only [hs] at hz hyc
          exact ih hz (Finset.mem_erase.mpr ⟨hyc.1, hy⟩) hyc.2
    · simp at hz

/-- If every live object other than `x` is owned, then every object that survives giving up a
reference to `x` is owned by the survivors. -/
theorem owned_of_survives {k : ℕ} {live : Finset α} {x z : α} (hk : live.card ≤ k)
    (h : ∀ w ∈ live, w ≠ x → Owned strong root live w) (hz : z ∈ live)
    (hzc : z ∉ cascade strong root k live x) :
    Owned strong root (live.filter (· ∉ cascade strong root k live x)) z := by
  induction k generalizing live x with
  | zero => simp [Finset.card_eq_zero.mp (Nat.le_zero.mp hk)] at hz
  | succ k ih =>
    by_cases hx : x ∈ live ∧ ¬ Owned strong root live x
    · have hcard : (live.erase x).card ≤ k := by
        rw [Finset.card_erase_of_mem hx.1]
        omega
      rw [cascade, if_pos hx, List.mem_cons, not_or] at hzc
      have hz' : z ∈ live.erase x := Finset.mem_erase.mpr ⟨hzc.1, hz⟩
      -- what a live object other than `x` refers to is still referred to after `x` is gone
      have herase : ∀ w ∈ live.erase x, strong x ≠ some w →
          Owned strong root (live.erase x) w := by
        intro w hw hxw
        rcases h w (Finset.mem_of_mem_erase hw) (Finset.ne_of_mem_erase hw) with hr | ⟨y, hy, hs⟩
        · exact Or.inl hr
        · exact Or.inr ⟨y, Finset.mem_erase.mpr ⟨fun e => hxw (e ▸ hs), hy⟩, hs⟩
      cases hs : strong x with
      | none =>
        refine (herase z hz' (by simp [hs])).mono fun w hw => ?_
        simp only [cascade, if_pos hx, hs, Finset.mem_filter, List.mem_singleton]
        exact ⟨Finset.mem_of_mem_erase hw, Finset.ne_of_mem_erase hw⟩
      | some y =>
        simp only [hs] at hzc
        have hrec := ih hcard
          (fun w hw hwy => herase w hw fun e => hwy (Option.some.inj (hs.symm.trans e)).symm)
          hz' hzc.2
        refine hrec.mono fun w hw => ?_
        rw [Finset.mem_filter, Finset.mem_erase] at hw
        simp only [cascade, if_pos hx, hs, Finset.mem_filter, List.mem_cons, not_or]
        exact ⟨hw.1.2, hw.1.1, hw.2⟩
    · have hnil : cascade strong root (k + 1) live x = [] := by rw [cascade, if_neg hx]
      simp only [hnil, List.not_mem_nil, not_false_eq_true, Finset.filter_true]
      by_cases hzx : z = x
      · subst hzx
        exact not_not.mp fun ho => hx ⟨hz, ho⟩
      · exact h z hz hzx

end Ownership
