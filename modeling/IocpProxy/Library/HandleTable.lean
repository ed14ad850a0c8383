import Mathlib

/-!
# Handles whose values are reused

An operating system hands out handles as numbers and may hand out the number of a closed handle
again. Here a handle carries, next to the number the program sees, its *generation*: the position
of its object among all objects opened so far. Closing a number closes whatever object is open
under it, so a second close of a stale handle may hit the object of somebody else.

A table is *balanced* with respect to the handles still in use when every close so far named a
valid handle and hit that handle's own object, no handle was closed twice, the handles in use are
open, and all others are closed.

## Main definitions

* `Handle`, `HandleTable`, `HandleTable.open`, `HandleTable.close`.
* `HandleTable.IsOpen` : the object of a handle is open.
* `HandleTable.Later` : a table that comes after another one.
* `HandleTable.Balanced` : the discipline of closing each handle once.

## Main results

* `HandleTable.Balanced.open`, `HandleTable.Balanced.close`, `HandleTable.Balanced.foldl_close` :
  the discipline is kept by opening a handle that becomes used, and by closing used ones.
* `HandleTable.Balanced.count_closed` : how often a balanced table closed a handle.
-/

/-- A handle: the number the program sees, and the generation of the object it was given for. -/
structure Handle where
  value : ℕ
  gen : ℕ
  deriving DecidableEq

/-- A call that closes a handle: its argument (`none` for the invalid handle), and the generation
of the object it closed, if any. -/
structure Closing where
  arg : Option Handle
  hit : Option ℕ
  deriving DecidableEq

/-- The handles of a process. -/
structure HandleTable where
  /-- The generation of the object open under a number. -/
  owner : ℕ → Option ℕ
  /-- The handles handed out so far, the latest first. -/
  issued : List Handle
  /-- The closing calls so far, the latest first. -/
  closed : List Closing

namespace HandleTable

/-- No handle has been handed out. -/
def empty : HandleTable := ⟨fun _ => none, [], []⟩

/-- The handle the next opened object gets under the number `v`. -/
def fresh (T : HandleTable) (v : ℕ) : Handle := ⟨v, T.issued.length⟩

/-- Open an object under the number `v`, which must be free. -/
def «open» (T : HandleTable) (v : ℕ) : HandleTable :=
  { T with
    owner := Function.update T.owner v (some T.issued.length)
    issued := T.fresh v :: T.issued }

/-- Close the object open under the number of a handle; the invalid handle closes nothing. -/
def close (T : HandleTable) : Option Handle → HandleTable
  | none => { T with closed := ⟨none, none⟩ :: T.closed }
  | some h =>
    { T with
      owner := Function.update T.owner h.value none
      closed := ⟨some h, T.owner h.value⟩ :: T.closed }

/-- The object a handle was given for is open. -/
def IsOpen (T : HandleTable) (h : Handle) : Prop := T.owner h.value = some h.gen

instance (T : HandleTable) (h : Handle) : Decidable (T.IsOpen h) :=
  inferInstanceAs (Decidable (_ = _))

theorem isOpen_open_iff {T : HandleTable} {v : ℕ} (hv : T.owner v = none) {h : Handle} :
    (T.open v).IsOpen h ↔ T.IsOpen h ∨ h = T.fresh v := by
  obtain ⟨w, g⟩ := h
  simp only [IsOpen, «open», fresh, Function.update_apply, Handle.mk.injEq]
  by_cases hw : w = v
  · subst hw
    simp [hv, eq_comm]
  · simp [hw]

theorem isOpen_close_iff {T : HandleTable} {h h' : Handle} :
    (T.close (some h)).IsOpen h' ↔ T.IsOpen h' ∧ h'.value ≠ h.value := by
  simp only [IsOpen, close, Function.update_apply]
  by_cases hv : h'.value = h.value <;> simp [hv]

/-- Closing opens nothing. -/
theorem IsOpen.of_close {T : HandleTable} {o : Option Handle} {h : Handle}
    (ho : (T.close o).IsOpen h) : T.IsOpen h := by
  cases o with
  | none => exact ho
  | some k => exact (isOpen_close_iff.mp ho).1

/-- Two open handles of one number are the same handle. -/
theorem IsOpen.eq_of_value {T : HandleTable} {h h' : Handle} (ho : T.IsOpen h) (ho' : T.IsOpen h')
    (hv : h'.value = h.value) : h' = h := by
  obtain ⟨v, g⟩ := h
  obtain ⟨v', g'⟩ := h'
  subst hv
  exact congrArg _ (Option.some.inj (ho'.symm.trans ho))

/-- Closing the handles of a list, in order. -/
theorem isOpen_foldl_close_iff {α : Type*} (f : α → Option Handle) {T : HandleTable}
    {L : List α} {h : Handle} :
    (L.foldl (fun T x => T.close (f x)) T).IsOpen h ↔
      T.IsOpen h ∧ ∀ x ∈ L, ∀ h' ∈ f x, h.value ≠ h'.value := by
  induction L generalizing T with
  | nil => simp
  | cons x L ih =>
    rw [List.foldl_cons, ih, List.forall_mem_cons, ← and_assoc]
    refine and_congr_left fun _ => ?_
    cases f x with
    | none => simp [close, IsOpen]
    | some h' => simp [isOpen_close_iff]

@[simp] theorem issued_close (T : HandleTable) (h : Option Handle) :
    (T.close h).issued = T.issued := by
  cases h <;> rfl

theorem issued_foldl_close {α : Type*} (f : α → Option Handle) {T : HandleTable} {L : List α} :
    (L.foldl (fun T x => T.close (f x)) T).issued = T.issued := by
  induction L generalizing T with
  | nil => rfl
  | cons x L ih => rw [List.foldl_cons, ih, issued_close]

/-! ### Closed handles stay closed -/

/-- Handles have different generations from the ones handed out later. -/
def Numbered (T : HandleTable) : Prop := ∀ h ∈ T.issued, h.gen < T.issued.length

/-- `T'` comes after `T`: it has the handles of `T`, and none of these was opened again. -/
def Later (T T' : HandleTable) : Prop :=
  T'.Numbered ∧ ∀ h ∈ T.issued, h ∈ T'.issued ∧ (T'.IsOpen h → T.IsOpen h)

theorem Later.refl {T : HandleTable} (hT : T.Numbered) : T.Later T :=
  ⟨hT, fun _ hh => ⟨hh, id⟩⟩

theorem Later.trans {T T' T'' : HandleTable} (h : T.Later T') (h' : T'.Later T'') : T.Later T'' :=
  ⟨h'.1, fun x hx => ⟨(h'.2 x (h.2 x hx).1).1, fun ho =>
    (h.2 x hx).2 ((h'.2 x (h.2 x hx).1).2 ho)⟩⟩

protected theorem Later.open {T : HandleTable} (hT : T.Numbered) {v : ℕ} (hv : T.owner v = none) :
    T.Later (T.open v) := by
  refine ⟨fun h hh => ?_, fun h hh => ⟨List.mem_cons_of_mem _ hh, fun ho => ?_⟩⟩
  · rcases List.mem_cons.mp hh with rfl | hh
    · exact Nat.lt_succ_self _
    · exact Nat.lt_succ_of_lt (hT h hh)
  · refine ((isOpen_open_iff hv).mp ho).resolve_right ?_
    rintro rfl
    exact Nat.lt_irrefl _ (hT _ hh)

protected theorem Later.close {T : HandleTable} (hT : T.Numbered) (h : Option Handle) :
    T.Later (T.close h) := by
  refine ⟨?_, fun h' hh => ⟨by rwa [issued_close], fun ho => ?_⟩⟩
  · rwa [Numbered, issued_close]
  · cases h with
    | none => exact ho
    | some h => exact (isOpen_close_iff.mp ho).1

/-! ### The discipline of closing each handle once -/

/-- Every close named a handle that had been handed out and hit its own object, no handle was
closed twice, and a handle is open while it is in use and closed afterwards. -/
structure Balanced (T : HandleTable) (used : Handle → Prop) : Prop where
  closes_own : ∀ c ∈ T.closed, ∃ h ∈ T.issued, c = ⟨some h, some h.gen⟩
  once : (T.closed.map Closing.arg).Nodup
  used_issued : ∀ h, used h → h ∈ T.issued
  used_open : ∀ h, used h → T.IsOpen h
  closed_of_not_used : ∀ h ∈ T.issued, ¬ used h → some h ∈ T.closed.map Closing.arg
  not_open_of_closed : ∀ h, some h ∈ T.closed.map Closing.arg → ¬ T.IsOpen h
  gen_lt : ∀ h ∈ T.issued, h.gen < T.issued.length

namespace Balanced

variable {T : HandleTable} {used used' : Handle → Prop}

theorem congr (hT : T.Balanced used) (h : ∀ x, used' x ↔ used x) : T.Balanced used' :=
  (funext fun x => propext (h x) : used' = used) ▸ hT

theorem empty : HandleTable.empty.Balanced fun _ => False where
  closes_own := by simp [HandleTable.empty]
  once := List.nodup_nil
  used_issued := by simp
  used_open := by simp
  closed_of_not_used := by simp [HandleTable.empty]
  not_open_of_closed := by simp [HandleTable.empty]
  gen_lt := by simp [HandleTable.empty]

/-- A number that is free may be handed out; its handle is then in use. -/
protected theorem «open» (hT : T.Balanced used) {v : ℕ} (hv : T.owner v = none) :
    (T.open v).Balanced fun h => used h ∨ h = T.fresh v where
  closes_own c hc := by
    obtain ⟨h, hh, rfl⟩ := hT.closes_own c hc
    exact ⟨h, List.mem_cons_of_mem _ hh, rfl⟩
  once := hT.once
  used_issued h hh := by
    rcases hh with hh | rfl
    · exact List.mem_cons_of_mem _ (hT.used_issued h hh)
    · exact List.mem_cons_self
  used_open h hh := (isOpen_open_iff hv).mpr (hh.imp_left (hT.used_open h))
  closed_of_not_used h hh hu := by
    rw [not_or] at hu
    exact hT.closed_of_not_used h ((List.mem_cons.mp hh).resolve_left hu.2) hu.1
  not_open_of_closed h hh ho := by
    rcases (isOpen_open_iff hv).mp ho with ho | rfl
    · exact hT.not_open_of_closed h hh ho
    · -- a fresh handle has a generation no closed handle has
      obtain ⟨c, hc, he⟩ := List.mem_map.mp hh
      obtain ⟨h', hh', rfl⟩ := hT.closes_own c hc
      have hlt := hT.gen_lt h' hh'
      rw [Option.some.inj he] at hlt
      exact Nat.lt_irrefl _ hlt
  gen_lt h hh := by
    rcases List.mem_cons.mp hh with rfl | hh
    · exact Nat.lt_succ_self _
    · exact Nat.lt_succ_of_lt (hT.gen_lt h hh)

/-- A handle in use may be closed; it is then no longer in use. -/
protected theorem close (hT : T.Balanced used) {h : Handle} (hh : used h) :
    (T.close (some h)).Balanced fun h' => used h' ∧ h' ≠ h where
  closes_own c hc := by
    rcases List.mem_cons.mp hc with rfl | hc
    · exact ⟨h, hT.used_issued h hh, by rw [hT.used_open h hh]⟩
    · exact hT.closes_own c hc
  once := List.nodup_cons.mpr ⟨fun hm => hT.not_open_of_closed h hm (hT.used_open h hh), hT.once⟩
  used_issued h' hu := hT.used_issued h' hu.1
  used_open h' hu := by
    have ho : T.IsOpen h' := hT.used_open h' hu.1
    exact isOpen_close_iff.mpr ⟨ho, fun hv => hu.2 ((hT.used_open h hh).eq_of_value ho hv)⟩
  closed_of_not_used h' hi hu := by
    by_cases he : h' = h
    · subst he
      exact List.mem_cons_self
    · exact List.mem_cons_of_mem _ (hT.closed_of_not_used h' hi fun hu' => hu ⟨hu', he⟩)
  not_open_of_closed h' hm ho := by
    rw [isOpen_close_iff] at ho
    rcases List.mem_cons.mp hm with he | hm
    · exact ho.2 (congrArg Handle.value (Option.some.inj he))
    · exact hT.not_open_of_closed h' hm ho.1
  gen_lt := hT.gen_lt

/-- The handles in use of a list of different objects may be closed, in order. -/
theorem foldl_close {α : Type*} {f : α → Option Handle} {L : List α} (hT : T.Balanced used)
    (hL : L.Nodup) (hf : ∀ x ∈ L, ∃ h ∈ f x, used h)
    (hinj : ∀ x ∈ L, ∀ y ∈ L, ∀ h ∈ f x, h ∈ f y → x = y) :
    (L.foldl (fun T x => T.close (f x)) T).Balanced fun h => used h ∧ ∀ x ∈ L, h ∉ f x := by
  induction L generalizing T used with
  | nil => exact hT.congr fun h => by simp
  | cons x L ih =>
    obtain ⟨hx, hL⟩ := List.nodup_cons.mp hL
    obtain ⟨k, hk, hu⟩ := hf x List.mem_cons_self
    rw [List.foldl_cons, Option.mem_def.mp hk]
    have hrest := ih (hT.close hu) hL (fun y hy => ?_) fun y hy z hz =>
      hinj y (List.mem_cons_of_mem _ hy) z (List.mem_cons_of_mem _ hz)
    · refine hrest.congr fun h => ?_
      rw [List.forall_mem_cons, and_assoc, Option.mem_def.mp hk]
      simp [eq_comm]
    · obtain ⟨h, hh, hu'⟩ := hf y (List.mem_cons_of_mem _ hy)
      refine ⟨h, hh, hu', ?_⟩
      rintro rfl
      exact hx (hinj x List.mem_cons_self y (List.mem_cons_of_mem _ hy) h hk hh ▸ hy)

/-- A balanced table never closed the handles in use, and closed each other one once. -/
theorem count_closed (hT : T.Balanced used) {h : Handle} (hh : h ∈ T.issued) [Decidable (used h)] :
    (T.closed.map Closing.arg).count (some h) = if used h then 0 else 1 := by
  split_ifs with hu
  · exact List.count_eq_zero.mpr fun hm => hT.not_open_of_closed h hm (hT.used_open h hu)
  · exact List.count_eq_one_of_mem hT.once (hT.closed_of_not_used h hh hu)

end Balanced

end HandleTable
