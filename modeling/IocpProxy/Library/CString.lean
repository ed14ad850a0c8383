import Mathlib

/-!
# Zero-terminated copies between fixed buffers

A buffer of size `N` is a function on `Fin N`. A read or a write at an index outside the buffer is
an error (`none`). `strcpy` copies bytes one at a time, the terminating zero included, and stops
there; it runs into the error exactly when the source holds no zero.

A copy of the first `n` bytes is *faithful* when the destination holds the same first `n` bytes
afterwards. Into a zeroed buffer, `strcpy` is faithful exactly when nothing but zeros follows the
first zero among them.

## Main definitions

* `CString.read`, `CString.write` : index accesses that fail out of range.
* `CString.strcpy` : the copy, byte by byte.
* `CString.IsNul` : an index is the first zero of a buffer.
* `CString.ZeroTail` : only zeros follow a zero among the first `n` bytes.
* `CString.cut`, `CString.cutList` : a buffer, and a list, with zeros after its first zero.

## Main results

* `CString.strcpy_of_isNul`, `CString.strcpy_eq_none_iff` : the result of a copy.
* `CString.strcpy_faithful_iff` : when a copy into a zeroed buffer keeps the first `n` bytes.
* `CString.strcpy_cut` : the copy does not depend on what follows the first zero.
-/

namespace CString

variable {β : Type*} [Zero β] {N : ℕ}

/-- The byte at an index; an index outside the buffer is an error. -/
def read (b : Fin N → β) (i : ℕ) : Option β := if h : i < N then some (b ⟨i, h⟩) else none

/-- A byte stored at an index; an index outside the buffer is an error. -/
def write (b : Fin N → β) (i : ℕ) (c : β) : Option (Fin N → β) :=
  if h : i < N then some (Function.update b ⟨i, h⟩ c) else none

variable [DecidableEq β]

/-- The copy loop from index `i` on. Each round reads one byte of the source and stores it; the
rounds are bounded by the fuel, which `strcpy` chooses past the end of the source. -/
def strcpyFrom (src : Fin N → β) : ℕ → ℕ → (Fin N → β) → Option (Fin N → β)
  | 0, _, _ => none
  | k + 1, i, dst =>
    (read src i).bind fun c => (write dst i c).bind fun dst' =>
      if c = 0 then some dst' else strcpyFrom src k (i + 1) dst'

/-- Copy bytes of `src` to `dst` up to and including the first zero. -/
def strcpy (dst src : Fin N → β) : Option (Fin N → β) := strcpyFrom src (N + 1) 0 dst

/-- `z` is the index of the first zero of `b`. -/
def IsNul (b : Fin N → β) (z : Fin N) : Prop := b z = 0 ∧ ∀ i < z, b i ≠ 0

/-- Among the first `n` bytes of `b`, only zeros follow a zero. -/
def ZeroTail (n : ℕ) (b : Fin N → β) : Prop := ∀ i j : Fin N, i < j → j < n → b i = 0 → b j = 0

theorem exists_isNul {b : Fin N → β} (h : ∃ z, b z = 0) : ∃ z, IsNul b z :=
  ⟨Fin.find (fun z => b z = 0) h, Fin.find_spec h, fun _ hi => Fin.find_min h hi⟩

/-! ### The result of a copy -/

/-- From an index not past the first zero on, the loop copies up to that zero. -/
theorem strcpyFrom_of_isNul {src : Fin N → β} {z : Fin N} (hz : IsNul src z) {k i : ℕ}
    (hi : i ≤ z) (hk : z < i + k) (dst : Fin N → β) :
    strcpyFrom src k i dst =
      some fun j : Fin N => if i ≤ (j : ℕ) ∧ j ≤ z then src j else dst j := by
  induction k generalizing i dst with
  | zero => omega
  | succ k ih =>
    have hiN : i < N := hi.trans_lt z.isLt
    simp only [strcpyFrom, read, write, dif_pos hiN, Option.bind_some]
    by_cases h0 : src ⟨i, hiN⟩ = 0
    · -- the loop stops here, so `i` is the first zero
      have hiz : (⟨i, hiN⟩ : Fin N) = z := by
        by_contra hne
        exact hz.2 ⟨i, hiN⟩ (lt_of_le_of_ne hi hne) h0
      rw [if_pos h0, Option.some.injEq]
      funext j
      rw [Function.update_apply]
      by_cases hj : j = ⟨i, hiN⟩
      · have hle : i ≤ j ∧ j ≤ z := by rw [hj, hiz]; exact ⟨hi, le_rfl⟩
        rw [if_pos hj, if_pos hle, hj]
      · have hle : ¬ (i ≤ j ∧ j ≤ z) := by
          rintro ⟨h1, h2⟩
          exact hj (hiz ▸ le_antisymm h2 (hiz ▸ h1))
        rw [if_neg hj, if_neg hle]
    · have hlt : i < z := by
        refine lt_of_le_of_ne hi fun e => h0 ?_
        have : (⟨i, hiN⟩ : Fin N) = z := Fin.ext e
        rw [this]
        exact hz.1
      rw [if_neg h0, ih hlt (by omega), Option.some.injEq]
      funext j
      rw [Function.update_apply]
      by_cases hj : j = ⟨i, hiN⟩
      · have h1 : ¬ (i + 1 ≤ (j : ℕ) ∧ j ≤ z) := by rw [hj]; simp
        have h2 : i ≤ j ∧ j ≤ z := by rw [hj]; exact ⟨le_rfl, hi⟩
        rw [if_neg h1, if_pos hj, if_pos h2, hj]
      · have hj' : (j : ℕ) ≠ i := fun e => hj (Fin.ext e)
        have hiff : (i + 1 ≤ (j : ℕ) ∧ j ≤ z) ↔ (i ≤ j ∧ j ≤ z) :=
          and_congr_left fun _ => by omega
        simp only [hiff, if_neg hj]

/-- Without a zero from index `i` on, the loop reads past the end of the source. -/
theorem strcpyFrom_eq_none {src : Fin N → β} {k i : ℕ} (h : ∀ j : Fin N, i ≤ j → src j ≠ 0)
    (dst : Fin N → β) : strcpyFrom src k i dst = none := by
  induction k generalizing i dst with
  | zero => rfl
  | succ k ih =>
    by_cases hi : i < N
    · simp only [strcpyFrom, read, write, dif_pos hi, Option.bind_some, if_neg (h ⟨i, hi⟩ le_rfl)]
      exact ih (fun j hj => h j (by omega)) _
    · simp [strcpyFrom, read, hi]

/-- Up to the first zero the copy is the source, past it the old destination. -/
theorem strcpy_of_isNul {src : Fin N → β} {z : Fin N} (hz : IsNul src z) (dst : Fin N → β) :
    strcpy dst src = some fun j => if j ≤ z then src j else dst j := by
  rw [strcpy, strcpyFrom_of_isNul hz (Nat.zero_le _) (by omega)]
  simp

/-- The copy leaves its buffers exactly when the source holds no zero. -/
theorem strcpy_eq_none_iff {dst src : Fin N → β} : strcpy dst src = none ↔ ∀ j, src j ≠ 0 := by
  constructor
  · intro h j hj
    obtain ⟨z, hz⟩ := exists_isNul ⟨j, hj⟩
    simp [strcpy_of_isNul hz] at h
  · exact fun h => strcpyFrom_eq_none (fun j _ => h j) dst

/-! ### Faithful copies -/

/-- Into a zeroed buffer, the copy keeps the first `n` bytes exactly when only zeros follow a zero
among them. -/
theorem strcpy_faithful_iff {src d : Fin N → β} (h : strcpy 0 src = some d) (n : ℕ) :
    (∀ j : Fin N, j < n → d j = src j) ↔ ZeroTail n src := by
  have hz0 : ∃ z, src z = 0 := by
    by_contra hno
    rw [strcpy_eq_none_iff.mpr fun j hj => hno ⟨j, hj⟩] at h
    cases h
  obtain ⟨z, hz⟩ := exists_isNul hz0
  rw [strcpy_of_isNul hz, Option.some.injEq] at h
  subst h
  constructor
  · intro hd i j hij hjn hi
    have hzj : ¬ j ≤ z := fun hjz => hz.2 i (hij.trans_le hjz) hi
    simpa [hzj] using (hd j hjn).symm
  · intro ht j hjn
    by_cases hjz : j ≤ z
    · simp [hjz]
    · simpa [hjz] using (ht z j (not_le.mp hjz) hjn hz.1).symm

/-! ### What a copy cannot tell apart -/

/-- The buffer with zeros after its first zero. -/
def cut (b : Fin N → β) : Fin N → β := fun i => if ∃ j < i, b j = 0 then 0 else b i

theorem cut_of_le {b : Fin N → β} {z i : Fin N} (hz : IsNul b z) (hi : i ≤ z) : cut b i = b i :=
  if_neg fun ⟨j, hj, h0⟩ => hz.2 j (hj.trans_le hi) h0

theorem cut_eq_self {b : Fin N → β} (h : ∀ j, b j ≠ 0) : cut b = b := by
  funext i
  exact if_neg fun ⟨j, _, h0⟩ => h j h0

@[simp] theorem cut_zero : cut (0 : Fin N → β) = 0 := by
  funext i
  simp [cut]

theorem IsNul.cut {b : Fin N → β} {z : Fin N} (hz : IsNul b z) : IsNul (cut b) z := by
  refine ⟨(cut_of_le hz le_rfl).trans hz.1, fun i hi => ?_⟩
  rw [cut_of_le hz hi.le]
  exact hz.2 i hi

/-- The copy does not depend on what follows the first zero. -/
theorem strcpy_cut (dst src : Fin N → β) : strcpy dst (cut src) = strcpy dst src := by
  by_cases h : ∃ z, src z = 0
  · obtain ⟨z, hz⟩ := exists_isNul h
    rw [strcpy_of_isNul hz, strcpy_of_isNul hz.cut, Option.some.injEq]
    funext j
    by_cases hj : j ≤ z
    · rw [if_pos hj, if_pos hj, cut_of_le hz hj]
    · rw [if_neg hj, if_neg hj]
  · rw [cut_eq_self fun j h0 => h ⟨j, h0⟩]

/-- A list with zeros after its first zero. -/
def cutList : List β → List β
  | [] => []
  | c :: cs => if c = 0 then List.replicate (cs.length + 1) 0 else c :: cutList cs

@[simp] theorem length_cutList (l : List β) : (cutList l).length = l.length := by
  induction l with
  | nil => rfl
  | cons c cs ih =>
    rw [cutList]
    split_ifs <;> simp [ih]

/-- A byte is kept when no zero comes before it. -/
theorem getD_cutList (l : List β) (i : ℕ) :
    (cutList l).getD i 0 = if ∃ j < i, l[j]? = some 0 then 0 else l.getD i 0 := by
  induction l generalizing i with
  | nil => simp [cutList]
  | cons c cs ih =>
    rw [cutList]
    split_ifs with h0 hex hex
    · rw [List.getD_eq_getElem?_getD, List.getElem?_replicate]
      split_ifs <;> rfl
    · -- the first byte is zero, so no other one is kept
      have hi : i = 0 := by
        by_contra hne
        exact hex ⟨0, Nat.pos_of_ne_zero hne, congrArg some h0⟩
      rw [hi, h0]
      rfl
    · obtain ⟨j, hj, hz⟩ := hex
      cases j with
      | zero => exact absurd (Option.some.inj hz) h0
      | succ j =>
        cases i with
        | zero => cases hj
        | succ i => exact (ih i).trans (if_pos ⟨j, Nat.lt_of_succ_lt_succ hj, hz⟩)
    · cases i with
      | zero => rfl
      | succ i =>
        refine (ih i).trans (if_neg ?_)
        rintro ⟨j, hj, hz⟩
        exact hex ⟨j + 1, Nat.succ_lt_succ hj, hz⟩

/-- Only zeros follow a zero. -/
theorem pairwise_cutList (l : List β) : (cutList l).Pairwise fun b c => b = 0 → c = 0 := by
  induction l with
  | nil => exact .nil
  | cons c cs ih =>
    rw [cutList]
    split_ifs with h0
    · exact List.pairwise_replicate.mpr (.inr fun _ => rfl)
    · exact .cons (fun _ _ hc => absurd hc h0) ih

theorem mem_cutList {l : List β} (h : 0 ∈ l) : 0 ∈ cutList l := by
  induction l with
  | nil => cases h
  | cons c cs ih =>
    rw [cutList]
    split_ifs with h0
    · simp
    · exact List.mem_cons_of_mem c (ih ((List.mem_cons.mp h).resolve_left fun e => h0 e.symm))

/-- A byte of the list is kept, or is zero. -/
theorem getElem?_cutList {l : List β} {i : ℕ} {c : β} (h : (cutList l)[i]? = some c) :
    c = 0 ∨ l[i]? = some c := by
  induction l generalizing i with
  | nil => exact .inr h
  | cons b bs ih =>
    rw [cutList] at h
    split_ifs at h with h0
    · left
      have hmem := List.mem_of_getElem? h
      exact (List.mem_replicate.mp hmem).2
    · cases i with
      | zero => exact .inr h
      | succ i => exact ih h

/-- The same for lists that are cut one by one. -/
theorem getElem?_flatten_cutList {L : List (List β)} {i : ℕ} {c : β}
    (h : (L.map cutList).flatten[i]? = some c) : c = 0 ∨ L.flatten[i]? = some c := by
  induction L generalizing i with
  | nil => exact .inr h
  | cons l L ih =>
    rw [List.map_cons, List.flatten_cons, List.getElem?_append, length_cutList] at h
    rw [List.flatten_cons, List.getElem?_append]
    split_ifs at h ⊢ with hi
    · exact getElem?_cutList h
    · exact ih h

end CString
