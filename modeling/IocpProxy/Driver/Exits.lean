import IocpProxy.Driver.ClassifyCallback

/-!
# The exits of the callout

`ClassifyCallback` has one exit for each check that fails, one for each call that fails, and one
after the change was applied. Only the allocation of the redirect context is no exit: the loop of
`HLPR_NEW_ARRAY` asks for memory until it gets some, and ends without memory only when the size
does not fit a `size_t`, which two addresses do on every platform.

## Main definitions

* `IocpProxy.Proceeds` : what lets a call get to the allocation.
* `IocpProxy.ClassifyExit` : the locals at the label `Exit`, one case for each way there.

## Main results

* `IocpProxy.classifyCallback_exit` : a call returns early or comes by one of the exits.
* `IocpProxy.classifyCallback_applied` : when a call applies a new version, and which.
* `IocpProxy.newArray_terminates_iff`, `IocpProxy.newArray_diverges`.
-/

namespace IocpProxy

/-! ### The allocation loop -/

section NewArray

variable {bits size count fuel i : ℕ} {pool : ℕ → Option ℕ} {b : Option Block}

/-- `HLPR_NEW_ARRAY` gets to the allocation. -/
def SizeFits (bits size count : ℕ) : Prop := count ≠ 0 ∧ size * count < 2 ^ bits

theorem hlprNewArray_of_not_fits (h : ¬ SizeFits bits size count) :
    hlprNewArray bits size count pool (fuel + 1) i = some none := if_neg h

theorem hlprNewArray_of_fits (h : SizeFits bits size count) :
    hlprNewArray bits size count pool (fuel + 1) i =
      match pool i with
      | some a => some (some ⟨a, List.replicate (size * count) 0⟩)
      | none => hlprNewArray bits size count pool fuel (i + 1) := if_pos h

/-- What the loop leaves in the pointer: null when the size does not fit, and otherwise zeroed
memory from an allocation that succeeded. -/
theorem hlprNewArray_eq_some (h : hlprNewArray bits size count pool fuel i = some b) :
    ¬ SizeFits bits size count ∧ b = none ∨
      SizeFits bits size count ∧ ∃ m a, i ≤ m ∧ pool m = some a ∧
        b = some ⟨a, List.replicate (size * count) 0⟩ := by
  induction fuel generalizing i with
  | zero => cases h
  | succ fuel ih =>
    by_cases hfits : SizeFits bits size count
    · rw [hlprNewArray_of_fits hfits] at h
      cases ha : pool i with
      | some a =>
        simp only [ha, Option.some.injEq] at h
        exact .inr ⟨hfits, i, a, le_rfl, ha, h.symm⟩
      | none =>
        simp only [ha] at h
        refine (ih h).imp_right fun ⟨hf, m, a, hm, hpool, hb⟩ => ⟨hf, m, a, ?_, hpool, hb⟩
        exact (Nat.le_succ i).trans hm
    · rw [hlprNewArray_of_not_fits hfits, Option.some.injEq] at h
      exact .inl ⟨hfits, h.symm⟩

/-- The loop comes to the first allocation that succeeds. -/
theorem exists_hlprNewArray (h : SizeFits bits size count) {m : ℕ} (hm : i ≤ m)
    (hpool : pool m ≠ none) :
    ∃ fuel a, hlprNewArray bits size count pool fuel i =
      some (some ⟨a, List.replicate (size * count) 0⟩) := by
  induction hd : m - i generalizing i with
  | zero =>
    obtain rfl : m = i := by omega
    obtain ⟨a, ha⟩ := Option.ne_none_iff_exists'.mp hpool
    exact ⟨1, a, by rw [hlprNewArray_of_fits h, ha]⟩
  | succ d ih =>
    cases hi : pool i with
    | some a => exact ⟨1, a, by rw [hlprNewArray_of_fits h, hi]⟩
    | none =>
      have hne : i ≠ m := by
        rintro rfl
        exact hpool hi
      obtain ⟨fuel, a, hfuel⟩ := ih (i := i + 1) (by omega) (by omega)
      exact ⟨fuel + 1, a, by rw [hlprNewArray_of_fits h, hi, hfuel]⟩

/-- The loop ends exactly when the size does not fit or an allocation succeeds, and then it leaves
null or zeroed memory of the right size. -/
theorem hlprNewArray_terminates_iff :
    (∃ fuel b, hlprNewArray bits size count pool fuel 0 = some b ∧
        ∀ block ∈ b, block.bytes = List.replicate (size * count) 0) ↔
      count = 0 ∨ 2 ^ bits ≤ size * count ∨ ∃ m, pool m ≠ none := by
  have hfits : ¬ SizeFits bits size count ↔ count = 0 ∨ 2 ^ bits ≤ size * count := by
    rw [SizeFits, not_and_or, not_not, not_lt]
  rw [← or_assoc, ← hfits]
  constructor
  · rintro ⟨fuel, b, h, -⟩
    rcases hlprNewArray_eq_some h with ⟨hnot, -⟩ | ⟨-, m, a, -, hpool, -⟩
    · exact .inl hnot
    · exact .inr ⟨m, by simp [hpool]⟩
  · intro h
    by_cases hf : SizeFits bits size count
    · obtain ⟨m, hm⟩ := h.resolve_left (not_not.mpr hf)
      obtain ⟨fuel, a, hfuel⟩ := exists_hlprNewArray hf (Nat.zero_le m) hm
      refine ⟨fuel, _, hfuel, fun block hblock => ?_⟩
      obtain rfl := Option.some.inj hblock
      rfl
    · exact ⟨1, none, hlprNewArray_of_not_fits hf, fun block hblock => by cases hblock⟩

end NewArray

/-- Two addresses fit a `size_t` on every platform. -/
theorem Platform.sizeFits (p : Platform) : SizeFits (8 * p.sizeofPtr) sizeofSockAddrStorage 2 := by
  cases p <;> exact ⟨by decide, by decide⟩

/-! ### The ways to the label `Exit` -/

variable {platform : Platform} {proxyAppProcessID : Int32} {k : KernelOutcomes} {i : ClassifyInput}
  {filter : Filter} {out : ClassifyOut} {c : Connection} {fuel : ℕ}

/-- The request is neither to be left alone at once nor decided before the redirect handle is
created. -/
structure Created (proxyAppProcessID : Int32) (k : KernelOutcomes) (i : ClassifyInput) (h : ℕ) :
    Prop where
  port : redirectPort ≠ i.sourcePort
  process : proxyAppProcessID ≠ i.processId.toUInt32.toInt32
  redirectHandle : k.redirectHandle = some h

/-- The driver has not redirected the request, and gets its classify handle. -/
structure Acquired (proxyAppProcessID : Int32) (k : KernelOutcomes) (i : ClassifyInput)
    (h ch : ℕ) : Prop extends Created proxyAppProcessID k i h where
  state : k.redirectState ≠ .redirectedBySelf
  classifyHandle : k.classifyHandle = some ch

/-- The locals before the first call. -/
def ClassifyLocals.start (out : ClassifyOut) : ClassifyLocals := ⟨out, 0, 0, []⟩

/-- The locals once the writable layer data was asked for. -/
def ClassifyLocals.asked (k : KernelOutcomes) (out : ClassifyOut) (h ch : ℕ) : ClassifyLocals :=
  (((start out).created h).acquired ch).setOut k.acquiredOut

namespace ClassifyLocals

variable {t : ClassifyLocals}

@[simp] theorem calls_start : (start out).calls = [] := rfl

@[simp] theorem calls_permit : t.permit.calls = t.calls := rfl

@[simp] theorem calls_call (a : KernelCall) : (t.call a).calls = t.calls ++ [a] := rfl

@[simp] theorem calls_created (h : ℕ) :
    (t.created h).calls = t.calls ++ [.redirectHandleCreate h] := rfl

@[simp] theorem calls_asked (h ch : ℕ) :
    (asked k out h ch).calls = [.redirectHandleCreate h, .acquireClassifyHandle ch] := rfl

end ClassifyLocals

/-- The locals at the label `Exit`. -/
inductive ClassifyExit (platform : Platform) (proxyAppProcessID : Int32) (k : KernelOutcomes)
    (i : ClassifyInput) (filter : Filter) (out : ClassifyOut) (c : Connection) :
    ClassifyLocals → Prop
  | port (hport : redirectPort = i.sourcePort) :
      ClassifyExit platform proxyAppProcessID k i filter out c (.permit (.start out))
  | process (hpid : proxyAppProcessID = i.processId.toUInt32.toInt32) :
      ClassifyExit platform proxyAppProcessID k i filter out c (.permit (.start out))
  | notCreated (hport : redirectPort ≠ i.sourcePort)
      (hpid : proxyAppProcessID ≠ i.processId.toUInt32.toInt32) (hh : k.redirectHandle = none) :
      ClassifyExit platform proxyAppProcessID k i filter out c (.start out)
  | bySelf {h : ℕ} (hc : Created proxyAppProcessID k i h)
      (hstate : k.redirectState = .redirectedBySelf) :
      ClassifyExit platform proxyAppProcessID k i filter out c
        ((ClassifyLocals.start out).created h).permit
  | notAcquired {h : ℕ} (hc : Created proxyAppProcessID k i h)
      (hstate : k.redirectState ≠ .redirectedBySelf) (hh : k.classifyHandle = none) :
      ClassifyExit platform proxyAppProcessID k i filter out c
        ((ClassifyLocals.start out).created h)
  | notWritable {h ch : ℕ} (ha : Acquired proxyAppProcessID k i h ch) (hw : k.writable = false) :
      ClassifyExit platform proxyAppProcessID k i filter out c (.asked k out h ch)
  | ownVersion {h ch : ℕ} (ha : Acquired proxyAppProcessID k i h ch) (hw : k.writable = true)
      (hown : ∃ u ∈ c.history, u.modifierFilterId = filter.filterId) :
      ClassifyExit platform proxyAppProcessID k i filter out c (.permit (.asked k out h ch))
  | notParsed {h ch m : ℕ} {b : Block} (ha : Acquired proxyAppProcessID k i h ch)
      (hw : k.writable = true) (hown : ∀ u ∈ c.history, u.modifierFilterId ≠ filter.filterId)
      (hb : k.pool m = some b.addr) (hp : k.stringToAddress = false) :
      ClassifyExit platform proxyAppProcessID k i filter out c
        ((ClassifyLocals.asked k out h ch).call (.allocatePool b.addr))
  | applied {h ch m : ℕ} {b : Block} (ha : Acquired proxyAppProcessID k i h ch)
      (hw : k.writable = true) (hown : ∀ u ∈ c.history, u.modifierFilterId ≠ filter.filterId)
      (hb : k.pool m = some b.addr) (hp : k.stringToAddress = true) :
      ClassifyExit platform proxyAppProcessID k i filter out c
        (((ClassifyLocals.asked k out h ch).call (.allocatePool b.addr)).call
          (.applyModifiedLayerData
            (((c.writableLayer filter.filterId).storeContext platform b).redirectTo h
              proxyAppProcessID)))

/-- What lets a call get to the allocation. -/
structure Proceeds (proxyAppProcessID : Int32) (k : KernelOutcomes) (i : ClassifyInput)
    (filter : Filter) (out : ClassifyOut) (c : Connection) : Prop where
  rights : out.rights &&& fwpsRightActionWrite ≠ 0
  acquired : ∃ h ch, Acquired proxyAppProcessID k i h ch
  writable : k.writable = true
  history : ∀ u ∈ c.history, u.modifierFilterId ≠ filter.filterId

/-- From the walk on, a call comes by one of the last three exits, or the allocation loop still
runs. -/
theorem modifyLayer_exit {h ch : ℕ} (ha : Acquired proxyAppProcessID k i h ch)
    (hw : k.writable = true) :
    (∃ t, modifyLayer platform proxyAppProcessID k filter c fuel h (.asked k out h ch) = some t ∧
        ClassifyExit platform proxyAppProcessID k i filter out c t) ∨
      modifyLayer platform proxyAppProcessID k filter c fuel h (.asked k out h ch) = none ∧
        (∀ u ∈ c.history, u.modifierFilterId ≠ filter.filterId) ∧
        hlprNewArray (8 * platform.sizeofPtr) sizeofSockAddrStorage 2 k.pool fuel 0 = none := by
  unfold modifyLayer
  by_cases hbefore : redirectedBefore filter.filterId c.history 0 = true
  · rw [if_pos hbefore]
    exact .inl ⟨_, rfl, .ownVersion ha hw (redirectedBefore_iff.mp hbefore)⟩
  have hown : ∀ u ∈ c.history, u.modifierFilterId ≠ filter.filterId := fun u hu he =>
    hbefore (redirectedBefore_iff.mpr ⟨u, hu, he⟩)
  rw [if_neg hbefore]
  cases hnew : hlprNewArray (8 * platform.sizeofPtr) sizeofSockAddrStorage 2 k.pool fuel 0 with
  | none => exact .inr ⟨rfl, hown, rfl⟩
  | some b =>
    -- the pointer is not null, since the size fits
    obtain ⟨-, m, a, -, hpool, rfl⟩ :=
      (hlprNewArray_eq_some hnew).resolve_left fun hnot => hnot.1 platform.sizeFits
    by_cases hp : k.stringToAddress = false
    · simp only [if_pos hp]
      exact .inl ⟨_, rfl, .notParsed (b := ⟨a, []⟩) ha hw hown hpool hp⟩
    · simp only [if_neg hp]
      have hp' := Bool.eq_true_of_not_eq_false hp
      exact .inl ⟨_, rfl, .applied (b := ⟨a, _⟩) ha hw hown hpool hp'⟩

/-- A call that has the right to decide comes by one of the exits, or the allocation loop still
runs. -/
theorem classifyToExit_exit (hrights : out.rights &&& fwpsRightActionWrite ≠ 0) :
    (∃ t, classifyToExit platform proxyAppProcessID k i filter out c fuel = some t ∧
        ClassifyExit platform proxyAppProcessID k i filter out c t) ∨
      classifyToExit platform proxyAppProcessID k i filter out c fuel = none ∧
        Proceeds proxyAppProcessID k i filter out c ∧
        hlprNewArray (8 * platform.sizeofPtr) sizeofSockAddrStorage 2 k.pool fuel 0 = none := by
  unfold classifyToExit
  by_cases hport : redirectPort = i.sourcePort
  · rw [if_pos hport]
    exact .inl ⟨_, rfl, .port hport⟩
  by_cases hpid : proxyAppProcessID = i.processId.toUInt32.toInt32
  · rw [if_neg hport, if_pos hpid]
    exact .inl ⟨_, rfl, .process hpid⟩
  rw [if_neg hport, if_neg hpid]
  cases hh : k.redirectHandle with
  | none => exact .inl ⟨_, rfl, .notCreated hport hpid hh⟩
  | some h =>
    have hc : Created proxyAppProcessID k i h := ⟨hport, hpid, hh⟩
    by_cases hstate : k.redirectState = .redirectedBySelf
    · simp only [if_pos hstate]
      exact .inl ⟨_, rfl, .bySelf hc hstate⟩
    simp only [if_neg hstate]
    cases hch : k.classifyHandle with
    | none => exact .inl ⟨_, rfl, .notAcquired hc hstate hch⟩
    | some ch =>
      have ha : Acquired proxyAppProcessID k i h ch := ⟨hc, hstate, hch⟩
      by_cases hw : k.writable = false
      · simp only [if_pos hw]
        exact .inl ⟨_, rfl, .notWritable ha hw⟩
      · simp only [if_neg hw]
        have hw' := Bool.eq_true_of_not_eq_false hw
        refine (modifyLayer_exit ha hw').imp_right fun ⟨hnone, hown, hnew⟩ => ?_
        exact ⟨hnone, ⟨hrights, ⟨h, ch, ha⟩, hw', hown⟩, hnew⟩

/-- A call that returns does so at once, without the right to decide, or by one of the exits. -/
theorem classifyCallback_exit {r : ClassifyResult}
    (hr : classifyCallback platform proxyAppProcessID k i filter out c fuel = some r) :
    out.rights &&& fwpsRightActionWrite = 0 ∧ r = ⟨out, []⟩ ∨
      out.rights &&& fwpsRightActionWrite ≠ 0 ∧
        ∃ t, ClassifyExit platform proxyAppProcessID k i filter out c t ∧ r = t.exit filter := by
  unfold classifyCallback at hr
  split_ifs at hr with hrights
  · exact .inl ⟨hrights, (Option.some.inj hr).symm⟩
  · obtain ⟨t, ht, rfl⟩ := Option.map_eq_some_iff.mp hr
    rcases classifyToExit_exit hrights with ⟨t', ht', hexit⟩ | ⟨hnone, -⟩
    · obtain rfl : t' = t := Option.some.inj (ht'.symm.trans ht)
      exact .inr ⟨hrights, t', hexit, rfl⟩
    · cases hnone.symm.trans ht

/-- What the decision to redirect depends on. -/
structure Redirects (proxyAppProcessID : Int32) (k : KernelOutcomes) (i : ClassifyInput)
    (filter : Filter) (out : ClassifyOut) (c : Connection) : Prop where
  rights : out.rights &&& fwpsRightActionWrite ≠ 0
  port : redirectPort ≠ i.sourcePort
  process : proxyAppProcessID ≠ i.processId.toUInt32.toInt32
  state : k.redirectState ≠ .redirectedBySelf
  history : ∀ u ∈ c.history, u.modifierFilterId ≠ filter.filterId
  writable : k.writable = true
  address : k.stringToAddress = true

/-- Only the last exit has applied a version. -/
theorem ClassifyExit.applied_eq {t : ClassifyLocals}
    (ht : ClassifyExit platform proxyAppProcessID k i filter out c t) {v : ConnectRequest}
    (hv : t.applied = some v) :
    ∃ h ch b, Acquired proxyAppProcessID k i h ch ∧ k.writable = true ∧
      (∀ u ∈ c.history, u.modifierFilterId ≠ filter.filterId) ∧ k.stringToAddress = true ∧
      v = ((c.writableLayer filter.filterId).storeContext platform b).redirectTo h
        proxyAppProcessID := by
  cases ht with
  | port | process | notCreated | bySelf | notAcquired | notWritable | ownVersion | notParsed =>
    cases hv
  | applied ha hw hown _ hp => exact ⟨_, _, _, ha, hw, hown, hp, (Option.some.inj hv).symm⟩

/-- A version is applied only if all checks pass and all calls succeed. -/
theorem classifyCallback_applied {r : ClassifyResult}
    (hr : classifyCallback platform proxyAppProcessID k i filter out c fuel = some r)
    {v : ConnectRequest} (hv : r.applied = some v) :
    Redirects proxyAppProcessID k i filter out c ∧ ∃ h ∈ k.redirectHandle, ∃ b,
      v = ((c.writableLayer filter.filterId).storeContext platform b).redirectTo h
        proxyAppProcessID := by
  rcases classifyCallback_exit hr with ⟨-, rfl⟩ | ⟨hrights, t, ht, rfl⟩
  · cases hv
  · rw [t.applied_exit] at hv
    obtain ⟨h, ch, b, ha, hw, hown, hp, rfl⟩ := ht.applied_eq hv
    exact ⟨⟨hrights, ha.port, ha.process, ha.state, hown, hw, hp⟩, h, ha.redirectHandle, b, rfl⟩

/-- A call does not return only while the allocation loop runs. -/
theorem classifyCallback_eq_none
    (hr : classifyCallback platform proxyAppProcessID k i filter out c fuel = none) :
    Proceeds proxyAppProcessID k i filter out c ∧
      hlprNewArray (8 * platform.sizeofPtr) sizeofSockAddrStorage 2 k.pool fuel 0 = none := by
  unfold classifyCallback at hr
  split_ifs at hr with hrights
  rw [Option.map_eq_none_iff] at hr
  rcases classifyToExit_exit hrights with ⟨t, ht, -⟩ | ⟨-, hproceeds, hnew⟩
  · cases hr.symm.trans ht
  · exact ⟨hproceeds, hnew⟩

/-- A call that gets to the allocation comes by one of the last two exits. -/
theorem Proceeds.exit (hp : Proceeds proxyAppProcessID k i filter out c) {t : ClassifyLocals}
    (ht : ClassifyExit platform proxyAppProcessID k i filter out c t) :
    ∃ h ch m b, Acquired proxyAppProcessID k i h ch ∧ k.pool m = some b.addr ∧
      (k.stringToAddress = false ∧
          t = (ClassifyLocals.asked k out h ch).call (.allocatePool b.addr) ∨
        k.stringToAddress = true ∧
          t = ((ClassifyLocals.asked k out h ch).call (.allocatePool b.addr)).call
            (.applyModifiedLayerData
              (((c.writableLayer filter.filterId).storeContext platform b).redirectTo h
                proxyAppProcessID))) := by
  obtain ⟨h, ch, ha⟩ := hp.acquired
  cases ht with
  | port hport => exact absurd hport ha.port
  | process hpid => exact absurd hpid ha.process
  | notCreated _ _ hh => cases hh.symm.trans ha.redirectHandle
  | bySelf _ hstate => exact absurd hstate ha.state
  | notAcquired _ _ hh => cases hh.symm.trans ha.classifyHandle
  | notWritable _ hw => cases hw.symm.trans hp.writable
  | ownVersion _ _ hown =>
    obtain ⟨u, hu, he⟩ := hown
    exact absurd he (hp.history u hu)
  | notParsed ha' _ _ hb hstr => exact ⟨_, _, _, _, ha', hb, .inl ⟨hstr, rfl⟩⟩
  | applied ha' _ _ hb hstr => exact ⟨_, _, _, _, ha', hb, .inr ⟨hstr, rfl⟩⟩

/-- `ClassifyCallback` returns exactly when it does not get to the allocation or an allocation
succeeds. -/
theorem classifyCallback_returns_iff :
    (∃ fuel r, classifyCallback platform proxyAppProcessID k i filter out c fuel = some r) ↔
      ¬ Proceeds proxyAppProcessID k i filter out c ∨ ∃ m, k.pool m ≠ none := by
  constructor
  · rintro ⟨fuel, r, hr⟩
    by_cases hp : Proceeds proxyAppProcessID k i filter out c
    · obtain ⟨-, t, ht, -⟩ := (classifyCallback_exit hr).resolve_left fun he => hp.rights he.1
      obtain ⟨-, -, m, b, -, hb, -⟩ := hp.exit ht
      exact .inr ⟨m, by simp [hb]⟩
    · exact .inl hp
  · intro h
    by_contra hnone
    push Not at hnone
    have hstuck : ∀ fuel,
        classifyCallback platform proxyAppProcessID k i filter out c fuel = none := fun fuel =>
      Option.eq_none_iff_forall_ne_some.mpr (hnone fuel)
    obtain ⟨m, hm⟩ := h.resolve_left (not_not.mpr (classifyCallback_eq_none (hstuck 0)).1)
    obtain ⟨fuel, a, hfuel⟩ := exists_hlprNewArray platform.sizeFits (Nat.zero_le m) hm
    cases hfuel.symm.trans (classifyCallback_eq_none (hstuck fuel)).2

/-- The loop of `HLPR_NEW_ARRAY` ends, with a null pointer or zeroed memory of the right size,
exactly when the size is zero or too large or some allocation succeeds. `ClassifyCallback` returns
exactly when it does not get there or some allocation succeeds, and never finds a null pointer. -/
theorem newArray_terminates_iff (bits size count : ℕ) (pool : ℕ → Option ℕ) (platform : Platform)
    (proxyAppProcessID : Int32) (k : KernelOutcomes) (i : ClassifyInput) (filter : Filter)
    (out : ClassifyOut) (c : Connection) :
    ((∃ fuel b, hlprNewArray bits size count pool fuel 0 = some b ∧
        ∀ block ∈ b, block.bytes = List.replicate (size * count) 0) ↔
      count = 0 ∨ 2 ^ bits ≤ size * count ∨ ∃ m, pool m ≠ none) ∧
    ((∃ fuel r, classifyCallback platform proxyAppProcessID k i filter out c fuel = some r) ↔
      ¬ Proceeds proxyAppProcessID k i filter out c ∨ ∃ m, k.pool m ≠ none) ∧
    ∀ fuel, hlprNewArray (8 * platform.sizeofPtr) sizeofSockAddrStorage 2 k.pool fuel 0 ≠
      some none := by
  refine ⟨hlprNewArray_terminates_iff, classifyCallback_returns_iff, fun fuel hnull => ?_⟩
  rcases hlprNewArray_eq_some hnull with ⟨hnot, -⟩ | ⟨-, m, a, -, -, hb⟩
  · exact hnot platform.sizeFits
  · cases hb

/-- No allocation succeeds: the loop never ends, and a call that gets there never returns. -/
theorem newArray_diverges :
    (∀ fuel, hlprNewArray 64 sizeofSockAddrStorage 2 (fun _ => none) fuel 0 = none) ∧
      ∀ fuel, classifyCallback .x64 42 { kernelOk with pool := fun _ => none } ⟨50000, 43⟩ ⟨7, 0⟩
        ⟨0, fwpsRightActionWrite⟩ ⟨webRequest, []⟩ fuel = none := by
  have hproceeds : Proceeds 42 { kernelOk with pool := fun _ => none } ⟨50000, 43⟩ ⟨7, 0⟩
      ⟨0, fwpsRightActionWrite⟩ ⟨webRequest, []⟩ :=
    ⟨by decide, ⟨1, 2, ⟨by decide, by decide, rfl⟩, by decide, rfl⟩, rfl, by decide⟩
  refine ⟨fun fuel => ?_, fun fuel => ?_⟩
  · rw [Option.eq_none_iff_forall_ne_some]
    intro b hb
    rcases hlprNewArray_eq_some hb with ⟨hnot, -⟩ | ⟨-, m, a, -, hpool, -⟩
    · exact hnot Platform.x64.sizeFits
    · cases hpool
  · rw [Option.eq_none_iff_forall_ne_some]
    intro r hr
    rcases classifyCallback_returns_iff.mp ⟨fuel, r, hr⟩ with hnot | ⟨m, hm⟩
    · exact hnot hproceeds
    · exact hm rfl

end IocpProxy
