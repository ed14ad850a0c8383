import IocpProxy.Driver.Versions

/-!
# The resources of the callout

A call of `ClassifyCallback` may get a redirect handle, a classify handle and a block of memory.
The label `Exit` gives the two handles back on all paths, and the block on none: so a call that gets
to the allocation either loses the block, when the address cannot be parsed, or destroys the
redirect handle that the version it has just applied names.

The calls are followed over any number of connections, which other filters may change too.

## Main definitions

* `IocpProxy.Connections`, `IocpProxy.callouts` : the system.
* `IocpProxy.Connections.Tidy` : what the last call should have done with its resources.
* `IocpProxy.StopsEarly` : the call does not get to the allocation.

## Main results

* `IocpProxy.ClassifyExit.calls_of_not_proceeds` : the calls made on the early exits.
* `IocpProxy.resources_iff`, `IocpProxy.resources_fail`.
-/

namespace IocpProxy

/-! ### Connections -/

/-- The connections that are alive, and the calls made in the last call of `ClassifyCallback`, if
that was the last step. -/
structure Connections (κ : Type*) where
  connection : κ → Option Connection
  calls : List KernelCall

/-- What happens to the connections. -/
inductive CalloutAction (κ : Type*)
  | connect (x : κ) (original : ConnectRequest)
  | classify (x : κ) (k : ClassifyCall)
  /-- Another filter applies a version. -/
  | modify (x : κ) (v : ConnectRequest)
  | close (x : κ)

variable {κ : Type*}

/-- Change one connection. -/
def Connections.set [DecidableEq κ] (s : Connections κ) (x : κ) (c : Option Connection)
    (calls : List KernelCall) : Connections κ :=
  ⟨Function.update s.connection x c, calls⟩

/-- The connections, where this driver's filter has the id `filterId`. -/
def callouts (κ : Type*) [DecidableEq κ] (platform : Platform) (filterId : UInt64) :
    TransitionSystem (Connections κ) (CalloutAction κ) where
  init := ⟨fun _ => none, []⟩
  step s
    | .connect x original =>
      if s.connection x = none then some (s.set x (some ⟨original, []⟩) []) else none
    | .classify x k =>
      (s.connection x).bind fun c => (k.run platform filterId c).map fun r =>
        s.set x (some (r.applied.elim c c.push)) r.calls
    | .modify x v =>
      (s.connection x).bind fun c =>
        if v.modifierFilterId ≠ filterId then some (s.set x (some (c.push v)) []) else none
    | .close x => (s.connection x).map fun _ => s.set x none []

/-- What the last call did with its resources is in order. -/
structure Connections.Tidy (filterId : UInt64) (s : Connections κ) : Prop where
  released : ∀ h, KernelCall.acquireClassifyHandle h ∈ s.calls →
    s.calls.count (.releaseClassifyHandle h) = 1
  destroyed : (∀ v, KernelCall.applyModifiedLayerData v ∉ s.calls) →
    ∀ h, KernelCall.redirectHandleCreate h ∈ s.calls →
      s.calls.count (.redirectHandleDestroy h) = 1
  /-- No handle is destroyed that a version made by this driver's filter names. -/
  named : ∀ h, KernelCall.redirectHandleDestroy h ∈ s.calls → ∀ x, ∀ c ∈ s.connection x,
    ∀ v ∈ c.versions, v.modifierFilterId = filterId → v.localRedirectHandle ≠ h
  owned : ∀ a, KernelCall.allocatePool a ∈ s.calls → KernelCall.freePool a ∈ s.calls ∨
    ∃ v, KernelCall.applyModifiedLayerData v ∈ s.calls ∧ ∃ b ∈ v.localRedirectContext, b.addr = a

/-- A handle that a successful call returns is not zero. -/
def HandlesNonzero (_ : Connections κ) : CalloutAction κ → Prop
  | .classify _ k => k.kernel.redirectHandle ≠ some 0 ∧ k.kernel.classifyHandle ≠ some 0
  | .connect _ _ | .modify _ _ | .close _ => True

instance (s : Connections κ) : DecidablePred (HandlesNonzero s)
  | .classify _ k =>
    inferInstanceAs (Decidable (k.kernel.redirectHandle ≠ some 0 ∧
      k.kernel.classifyHandle ≠ some 0))
  | .connect _ _ | .modify _ _ | .close _ => instDecidableTrue

/-- A call of `ClassifyCallback` does not get to the allocation. -/
def StopsEarly (filterId : UInt64) (s : Connections κ) : CalloutAction κ → Prop
  | .classify x k => ∀ c ∈ s.connection x,
      ¬ Proceeds k.proxyAppProcessID k.kernel k.input ⟨filterId, k.flags⟩ k.classifyOut c
  | .connect _ _ | .modify _ _ | .close _ => True

/-! ### The calls of one call -/

section Calls

variable {platform : Platform} {proxyAppProcessID : Int32} {k : KernelOutcomes} {i : ClassifyInput}
  {filter : Filter} {out : ClassifyOut} {c : Connection} {t : ClassifyLocals}

/-- The calls of a call of `ClassifyCallback` that stops early. -/
inductive EarlyCalls : List KernelCall → Prop
  | nothing : EarlyCalls []
  | created (h : ℕ) : EarlyCalls [.redirectHandleCreate h, .redirectHandleDestroy h]
  | acquired (h ch : ℕ) : EarlyCalls [.redirectHandleCreate h, .acquireClassifyHandle ch,
      .releaseClassifyHandle ch, .redirectHandleDestroy h]

namespace ClassifyLocals

theorem calls_exit_permit : (t.permit.exit filter).calls = (t.exit filter).calls := rfl

theorem calls_exit_created {h : ℕ} (hh : h ≠ 0) :
    (((start out).created h).exit filter).calls =
      [.redirectHandleCreate h, .redirectHandleDestroy h] := by
  simp [exit, start, created, call, hh]

/-- Both handles are given back, in whatever way the call went on after it had got them. -/
theorem calls_exit_of_ne_zero (hh : t.redirectHandle ≠ 0) (hch : t.classifyHandle ≠ 0) :
    (t.exit filter).calls = t.calls ++
      [.releaseClassifyHandle t.classifyHandle, .redirectHandleDestroy t.redirectHandle] := by
  rw [exit, if_pos hh, if_pos hch, List.append_assoc]
  rfl

end ClassifyLocals

theorem ClassifyExit.calls_of_not_proceeds
    (ht : ClassifyExit platform proxyAppProcessID k i filter out c t)
    (hrights : out.rights &&& fwpsRightActionWrite ≠ 0)
    (hp : ¬ Proceeds proxyAppProcessID k i filter out c) (hh : k.redirectHandle ≠ some 0)
    (hch : k.classifyHandle ≠ some 0) : EarlyCalls (t.exit filter).calls := by
  have hcreated : ∀ {h}, Created proxyAppProcessID k i h → h ≠ 0 := by
    rintro h hc rfl
    exact hh hc.redirectHandle
  have hacquired : ∀ {h ch}, Acquired proxyAppProcessID k i h ch → ch ≠ 0 := by
    rintro h ch ha rfl
    exact hch ha.classifyHandle
  cases ht with
  | port | process | notCreated => exact .nothing
  | bySelf hc =>
    rw [ClassifyLocals.calls_exit_permit, ClassifyLocals.calls_exit_created (hcreated hc)]
    exact .created _
  | notAcquired hc =>
    rw [ClassifyLocals.calls_exit_created (hcreated hc)]
    exact .created _
  | notWritable ha =>
    rw [ClassifyLocals.calls_exit_of_ne_zero (hcreated ha.toCreated) (hacquired ha)]
    exact .acquired _ _
  | ownVersion ha =>
    rw [ClassifyLocals.calls_exit_permit,
      ClassifyLocals.calls_exit_of_ne_zero (hcreated ha.toCreated) (hacquired ha)]
    exact .acquired _ _
  | notParsed ha hw hown | applied ha hw hown =>
    exact absurd ⟨hrights, ⟨_, _, ha⟩, hw, hown⟩ hp

/-- A call that gets to the allocation either has a block it does not give back, or destroys the
handle that the version it applied names. -/
theorem Proceeds.calls (hp : Proceeds proxyAppProcessID k i filter out c)
    (ht : ClassifyExit platform proxyAppProcessID k i filter out c t)
    (hh : k.redirectHandle ≠ some 0) (hch : k.classifyHandle ≠ some 0) :
    (∃ a, KernelCall.allocatePool a ∈ (t.exit filter).calls ∧
        KernelCall.freePool a ∉ (t.exit filter).calls ∧
        ∀ v, KernelCall.applyModifiedLayerData v ∉ (t.exit filter).calls) ∨
      ∃ v, (t.exit filter).applied = some v ∧ v.modifierFilterId = filter.filterId ∧
        KernelCall.redirectHandleDestroy v.localRedirectHandle ∈ (t.exit filter).calls := by
  obtain ⟨h, ch, m, b, ha, -, ht⟩ := hp.exit ht
  have hh' : h ≠ 0 := by
    rintro rfl
    exact hh ha.redirectHandle
  have hch' : ch ≠ 0 := by
    rintro rfl
    exact hch ha.classifyHandle
  rcases ht with ⟨-, rfl⟩ | ⟨-, rfl⟩
  · rw [ClassifyLocals.calls_exit_of_ne_zero hh' hch']
    exact .inl ⟨b.addr, by simp⟩
  · rw [ClassifyLocals.calls_exit_of_ne_zero hh' hch', ClassifyLocals.applied_exit]
    exact .inr ⟨_, rfl, rfl, List.mem_append_right _ (.tail _ (.head _))⟩

end Calls

/-! ### Runs -/

variable {platform : Platform} {filterId : UInt64} {s s' t : Connections κ}
  {as : List (CalloutAction κ)}

/-- No version was made by this driver's filter. -/
def Connections.Unredirected (filterId : UInt64) (s : Connections κ) : Prop :=
  ∀ x, ∀ c ∈ s.connection x, ∀ v ∈ c.versions, v.modifierFilterId ≠ filterId

/-- The calls that are made early leave nothing behind. -/
theorem EarlyCalls.tidy (hs : EarlyCalls s.calls) (hun : s.Unredirected filterId) :
    s.Tidy filterId := by
  refine ⟨?_, ?_, fun h _ x c hc v hv he => absurd he (hun x c hc v hv), ?_⟩
  all_goals
    generalize s.calls = calls at hs
    cases hs <;> simp

/-- Nothing is applied early. -/
theorem EarlyCalls.applied_eq_none {r : ClassifyResult} (hr : EarlyCalls r.calls) :
    r.applied = none := by
  obtain ⟨out, calls⟩ := r
  cases hr <;> rfl

variable [DecidableEq κ]

theorem Connections.Unredirected.set (hs : s.Unredirected filterId) {x : κ} {c : Option Connection}
    {calls : List KernelCall}
    (hc : ∀ d ∈ c, ∀ v ∈ d.versions, v.modifierFilterId ≠ filterId) :
    (s.set x c calls).Unredirected filterId := by
  intro y d hd
  by_cases hy : y = x
  · subst hy
    exact hc d (by simpa [Connections.set] using hd)
  · exact hs y d (by simpa [Connections.set, hy] using hd)

/-- A step that stops early makes no version of this filter and leaves its resources in order. -/
theorem callouts_step_early {a : CalloutAction κ} (hs : s.Unredirected filterId)
    (hnz : HandlesNonzero s a) (hearly : StopsEarly filterId s a)
    (h : (callouts κ platform filterId).step s a = some s') :
    s'.Unredirected filterId ∧ EarlyCalls s'.calls := by
  cases a with
  | connect x original =>
    simp only [callouts] at h
    split_ifs at h
    cases h
    refine ⟨hs.set fun d hd v hv => ?_, .nothing⟩
    obtain rfl := Option.some.inj hd
    cases hv
  | classify x k =>
    obtain ⟨c, hc, h⟩ := Option.bind_eq_some_iff.mp h
    obtain ⟨r, hr, rfl⟩ := Option.map_eq_some_iff.mp h
    have hcalls : EarlyCalls r.calls := by
      rcases classifyCallback_exit hr with ⟨-, rfl⟩ | ⟨hrights, t, ht, rfl⟩
      · exact .nothing
      · exact ht.calls_of_not_proceeds hrights (hearly c hc) hnz.1 hnz.2
    refine ⟨hs.set fun d hd => ?_, hcalls⟩
    rw [hcalls.applied_eq_none] at hd
    obtain rfl := Option.some.inj hd
    exact hs x c hc
  | modify x v =>
    obtain ⟨c, hc, h⟩ := Option.bind_eq_some_iff.mp h
    split_ifs at h with hv
    cases h
    refine ⟨hs.set fun d hd => ?_, .nothing⟩
    obtain rfl := Option.some.inj hd
    exact List.forall_mem_cons.mpr ⟨hv, hs x c hc⟩
  | close x =>
    obtain ⟨c, -, rfl⟩ := Option.map_eq_some_iff.mp h
    exact ⟨hs.set fun d hd => (by cases hd), .nothing⟩

/-- A call that leaves its resources in order stopped early. -/
theorem stopsEarly_of_tidy {a : CalloutAction κ} (hnz : HandlesNonzero s a)
    (h : (callouts κ platform filterId).step s a = some s') (htidy : s'.Tidy filterId) :
    StopsEarly filterId s a := by
  cases a with
  | connect | modify | close => trivial
  | classify x k =>
    intro c hc hp
    obtain ⟨d, hd, h⟩ := Option.bind_eq_some_iff.mp h
    obtain rfl : c = d := Option.some.inj (hc.symm.trans hd)
    obtain ⟨r, hr, rfl⟩ := Option.map_eq_some_iff.mp h
    obtain ⟨-, t, ht, rfl⟩ := (classifyCallback_exit hr).resolve_left fun he => hp.rights he.1
    rcases hp.calls ht hnz.1 hnz.2 with ⟨a, halloc, hfree, hnone⟩ | ⟨v, hv, hown, hdestroy⟩
    · rcases htidy.owned a halloc with hfreed | ⟨v, hv, -⟩
      · exact hfree hfreed
      · exact hnone v hv
    · -- the connection is alive, and its newest version names the handle
      refine htidy.named _ hdestroy x (c.push v) ?_ v List.mem_cons_self hown rfl
      simp [Connections.set, hv]

/-- In every run in which a successful call returns a handle that is not zero, the calls of
`ClassifyCallback` leave their resources in order if and only if each stops before the
allocation. -/
theorem resources_iff (hrun : (callouts κ platform filterId).run as = some t)
    (hnz : (callouts κ platform filterId).StepsMeet as HandlesNonzero) :
    (callouts κ platform filterId).Along as (Connections.Tidy filterId) ↔
      (callouts κ platform filterId).StepsMeet as (StopsEarly filterId) := by
  constructor
  · intro halong k s a hs ha
    obtain ⟨s', hstep, hs'⟩ := TransitionSystem.exists_step_of_run hrun hs ha
    exact stopsEarly_of_tidy (hnz k s a hs ha) hstep (halong (k + 1) s' hs')
  · intro hearly k s hs
    have hboth : (callouts κ platform filterId).StepsMeet as fun s a =>
        HandlesNonzero s a ∧ StopsEarly filterId s a :=
      fun k s a hs ha => ⟨hnz k s a hs ha, hearly k s a hs ha⟩
    obtain ⟨hun, hcalls⟩ := (TransitionSystem.reachable_of_stepsMeet hboth k s hs).invariant
      (I := fun s => s.Unredirected filterId ∧ EarlyCalls s.calls)
      ⟨fun x c hc => (by cases hc), .nothing⟩
      fun s a s' hI hG h => callouts_step_early hI.1 hG.1 hG.2 h
    exact hcalls.tidy hun

/-- A call for the request of process 43 to the web server. -/
def webCall (k : KernelOutcomes) : ClassifyCall :=
  ⟨42, k, ⟨50000, 43⟩, 0, ⟨0, fwpsRightActionWrite⟩, 1⟩

/-- The classify handle cannot be acquired. -/
theorem resources_iff_notAcquired :
    ∃ t, (callouts Unit .x64 7).run [.connect () webRequest,
        .classify () (webCall { kernelOk with classifyHandle := none })] = some t ∧
      t.calls = [.redirectHandleCreate 1, .redirectHandleDestroy 1] ∧ t.Tidy 7 := by
  obtain ⟨t, ht, hcalls⟩ : ∃ t, (callouts Unit .x64 7).runChecked HandlesNonzero
      (callouts Unit .x64 7).init [.connect () webRequest,
        .classify () (webCall { kernelOk with classifyHandle := none })] = some t ∧
      t.calls = [.redirectHandleCreate 1, .redirectHandleDestroy 1] := ⟨_, rfl, rfl⟩
  obtain ⟨hrun, hnz⟩ := TransitionSystem.run_of_runChecked ht
  refine ⟨t, hrun, hcalls, (resources_iff hrun hnz).mpr (fun k s a _ ha => ?_) 2 t hrun⟩
  have hmem := List.mem_of_getElem? ha
  rcases List.mem_cons.mp hmem with rfl | hmem
  · trivial
  · obtain rfl := List.mem_singleton.mp hmem
    rintro c - ⟨-, ⟨h, ch, ha⟩, -⟩
    cases ha.classifyHandle

/-- The request is redirected, and the handle that its new version names is destroyed; or the
address is not parsed, and the block is lost. -/
theorem resources_fail :
    (∃ t, (callouts Unit .x64 7).Reachable HandlesNonzero t ∧
      (∃ c ∈ t.connection (), c.latest.localRedirectHandle = 1) ∧
      KernelCall.redirectHandleDestroy 1 ∈ t.calls ∧ ¬ t.Tidy 7) ∧
    ∃ t, (callouts Unit .x64 7).Reachable HandlesNonzero t ∧
      t.calls = [.redirectHandleCreate 1, .acquireClassifyHandle 2, .allocatePool 0x1000,
        .releaseClassifyHandle 2, .redirectHandleDestroy 1] ∧ ¬ t.Tidy 7 := by
  constructor
  · obtain ⟨t, ht, hdestroy, hnames⟩ : ∃ t, (callouts Unit .x64 7).Reachable HandlesNonzero t ∧
        KernelCall.redirectHandleDestroy 1 ∈ t.calls ∧
        ∃ c ∈ t.connection (), c.latest ∈ c.versions ∧ c.latest.modifierFilterId = 7 ∧
          c.latest.localRedirectHandle = 1 :=
      TransitionSystem.exists_reachable_of_runChecked [.connect () webRequest,
        .classify () (webCall kernelOk)] (by decide +kernel)
    obtain ⟨c, hc, hmem, hown, hh⟩ := hnames
    exact ⟨t, ht, ⟨c, hc, hh⟩, hdestroy, fun htidy => htidy.named 1 hdestroy () c hc _ hmem hown hh⟩
  · obtain ⟨t, ht, hcalls⟩ : ∃ t, (callouts Unit .x64 7).Reachable HandlesNonzero t ∧
        t.calls = [.redirectHandleCreate 1, .acquireClassifyHandle 2, .allocatePool 0x1000,
          .releaseClassifyHandle 2, .redirectHandleDestroy 1] :=
      TransitionSystem.exists_reachable_of_runChecked [.connect () webRequest,
        .classify () (webCall { kernelOk with stringToAddress := false })] (by decide +kernel)
    refine ⟨t, ht, hcalls, fun htidy => ?_⟩
    rcases htidy.owned 0x1000 (by simp [hcalls]) with hfree | ⟨v, hv, -⟩
    · simp [hcalls] at hfree
    · simp [hcalls] at hv

end IocpProxy
