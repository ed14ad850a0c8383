import IocpProxy.Driver.FilterEngine

/-!
# Loading and unloading the filter

`InitializeWfp` opens the filter engine, registers and adds the callout, and adds the sublayer and
the filter; each call may fail. `UnInitializeWfp` deletes these objects in the opposite order. It
runs when the driver is unloaded, and when one of the calls of `InitializeWfp` fails: then the saved
handle and identifiers tell which objects there are, but nothing tells whether the sublayer was
added.

## Main definitions

* `IocpProxy.Wfp` : the globals of the driver and the filter engine.
* `IocpProxy.Wfp.unInitializeWfp`, `IocpProxy.Wfp.initializeWfp`.

## Main results

* `IocpProxy.load_unload` : unloading undoes loading.
* `IocpProxy.rollback_iff`, `IocpProxy.rollback_fails` : when a failed load leaves no trace.
-/

namespace IocpProxy

/-- `WFP_ALE_REDIRECT_CALLOUT_V4`. -/
def wfpAleRedirectCalloutV4 : Guid :=
  ⟨0x96ebd471, 0x62ea, 0x4b06, [0x8c, 0x3e, 0x33, 0xab, 0x71, 0xb6, 0xc6, 0xd7]⟩

/-- `WFP_SAMPLE_SUBLAYER_GUID`. -/
def wfpSampleSublayerGuid : Guid :=
  ⟨0xe69fd434, 0x1b88, 0x4334, [0xb2, 0x07, 0x7a, 0xc1, 0xe8, 0xd3, 0xfd, 0x97]⟩

/-- The globals of the driver, and the objects in the filter engine. -/
structure Wfp where
  filterEngineHandle : ℕ
  regCalloutId : UInt32
  addCalloutId : UInt32
  filterId : UInt64
  engine : FilterObjects
  deriving DecidableEq

/-- The outcomes of the calls of `InitializeWfp`, with the handle and the identifiers that they
return. The engine may refuse a call all the same. -/
structure WfpCalls where
  engineOpen : Option ℕ
  calloutRegister : Option UInt32
  calloutAdd : Option UInt32
  subLayerAdd : Bool
  filterAdd : Option UInt64
  deriving DecidableEq

namespace Wfp

/-- The driver is loaded; its globals are zero. -/
def atLoad (e : FilterObjects) : Wfp := ⟨0, 0, 0, 0, e⟩

/-! ### Unloading -/

/-- What deletions leave in the engine, and how many of them were refused. -/
structure Cleanup where
  engine : FilterObjects
  refused : ℕ
  deriving DecidableEq

/-- Go on with a deletion; its result is ignored. -/
def Cleanup.delete (c : Cleanup) (f : FilterObjects → Option FilterObjects) : Cleanup :=
  match f c.engine with
  | some e => { c with engine := e }
  | none => { c with refused := c.refused + 1 }

/-- `UnInitializeWfp`. -/
def unInitializeWfp (s : Wfp) : Cleanup :=
  let h := s.filterEngineHandle
  let c : Cleanup := ⟨s.engine, 0⟩
  if h ≠ 0 then
    let c := if s.filterId ≠ 0 then c.delete (·.filterDeleteById h s.filterId) else c
    let c := c.delete (·.subLayerDeleteByKey h wfpSampleSublayerGuid)
    let c := if s.addCalloutId ≠ 0 then c.delete (·.calloutDeleteById h s.addCalloutId) else c
    let c := if s.regCalloutId ≠ 0 then c.delete (·.calloutUnregisterById s.regCalloutId) else c
    c.delete (·.engineClose h)
  else c

/-! ### Loading -/

/-- `FwpmEngineOpen0`, as `InitializeWfp` calls it. -/
def engineOpen (s : Wfp) (a : Option ℕ) : Option Wfp :=
  a.bind fun h =>
    (s.engine.engineOpen h).map fun e => { s with filterEngineHandle := h, engine := e }

/-- `WfpRegisterCallout`. -/
def wfpRegisterCallout (s : Wfp) (a : Option UInt32) : Option Wfp :=
  a.bind fun id =>
    (s.engine.calloutRegister ⟨wfpAleRedirectCalloutV4, id⟩).map fun e =>
      { s with regCalloutId := id, engine := e }

/-- `WfpAddCallout`. -/
def wfpAddCallout (s : Wfp) (a : Option UInt32) : Option Wfp :=
  a.bind fun id =>
    (s.engine.calloutAdd s.filterEngineHandle ⟨wfpAleRedirectCalloutV4, id⟩).map fun e =>
      { s with addCalloutId := id, engine := e }

/-- `WfpAddSublayer`. -/
def wfpAddSublayer (s : Wfp) (a : Bool) : Option Wfp :=
  if a then
    (s.engine.subLayerAdd s.filterEngineHandle wfpSampleSublayerGuid).map fun e =>
      { s with engine := e }
  else none

/-- `WfpAddFilter`. -/
def wfpAddFilter (s : Wfp) (a : Option UInt64) : Option Wfp :=
  a.bind fun id =>
    (s.engine.filterAdd s.filterEngineHandle
      ⟨id, wfpSampleSublayerGuid, some wfpAleRedirectCalloutV4⟩).map fun e =>
      { s with filterId := id, engine := e }

/-- The error path of `InitializeWfp`. -/
def failed (s : Wfp) : Bool × Wfp := (false, { s with engine := s.unInitializeWfp.engine })

/-- `InitializeWfp`, with whether it succeeded. -/
def initializeWfp (s : Wfp) (k : WfpCalls) : Bool × Wfp :=
  match s.engineOpen k.engineOpen with
  | none => s.failed
  | some s₁ =>
    match s₁.wfpRegisterCallout k.calloutRegister with
    | none => s₁.failed
    | some s₂ =>
      match s₂.wfpAddCallout k.calloutAdd with
      | none => s₂.failed
      | some s₃ =>
        match s₃.wfpAddSublayer k.subLayerAdd with
        | none => s₃.failed
        | some s₄ =>
          match s₄.wfpAddFilter k.filterAdd with
          | none => s₄.failed
          | some s₅ => (true, s₅)

/-! ### What a call does -/

variable {s s' : Wfp}

/-- What opening the engine does. -/
theorem engineOpen_eq_some {a : Option ℕ} (h : s.engineOpen a = some s') :
    ∃ e hd, hd ≠ 0 ∧ s.engine.engineOpen hd = some e ∧
      s' = { s with filterEngineHandle := hd, engine := e } := by
  obtain ⟨hd, -, h⟩ := Option.bind_eq_some_iff.mp h
  obtain ⟨e, he, rfl⟩ := Option.map_eq_some_iff.mp h
  exact ⟨e, hd, (Option.ite_none_right_eq_some.mp he).1.1, he, rfl⟩

/-- What registering the callout does. -/
theorem wfpRegisterCallout_eq_some {a : Option UInt32} (h : s.wfpRegisterCallout a = some s') :
    ∃ e id, id ≠ 0 ∧ s.engine.calloutRegister ⟨wfpAleRedirectCalloutV4, id⟩ = some e ∧
      s' = { s with regCalloutId := id, engine := e } := by
  obtain ⟨id, -, h⟩ := Option.bind_eq_some_iff.mp h
  obtain ⟨e, he, rfl⟩ := Option.map_eq_some_iff.mp h
  exact ⟨e, id, (Option.ite_none_right_eq_some.mp he).1.1, he, rfl⟩

/-- What adding the callout does. -/
theorem wfpAddCallout_eq_some {a : Option UInt32} (h : s.wfpAddCallout a = some s') :
    ∃ e id, id ≠ 0 ∧
      s.engine.calloutAdd s.filterEngineHandle ⟨wfpAleRedirectCalloutV4, id⟩ = some e ∧
      s' = { s with addCalloutId := id, engine := e } := by
  obtain ⟨id, -, h⟩ := Option.bind_eq_some_iff.mp h
  obtain ⟨e, he, rfl⟩ := Option.map_eq_some_iff.mp h
  exact ⟨e, id, (Option.ite_none_right_eq_some.mp he).1.2.1, he, rfl⟩

/-- What adding the sublayer does. -/
theorem wfpAddSublayer_eq_some {a : Bool} (h : s.wfpAddSublayer a = some s') :
    ∃ e, s.engine.subLayerAdd s.filterEngineHandle wfpSampleSublayerGuid = some e ∧
      s' = { s with engine := e } := by
  obtain ⟨-, h⟩ := Option.ite_none_right_eq_some.mp h
  obtain ⟨e, he, rfl⟩ := Option.map_eq_some_iff.mp h
  exact ⟨e, he, rfl⟩

/-- What adding the filter does. -/
theorem wfpAddFilter_eq_some {a : Option UInt64} (h : s.wfpAddFilter a = some s') :
    ∃ e id, id ≠ 0 ∧ s.engine.filterAdd s.filterEngineHandle
        ⟨id, wfpSampleSublayerGuid, some wfpAleRedirectCalloutV4⟩ = some e ∧
      s' = { s with filterId := id, engine := e } := by
  obtain ⟨id, -, h⟩ := Option.bind_eq_some_iff.mp h
  obtain ⟨e, he, rfl⟩ := Option.map_eq_some_iff.mp h
  exact ⟨e, id, (Option.ite_none_right_eq_some.mp he).1.2.1, he, rfl⟩

/-! ### The parts of the clean-up -/

theorem Cleanup.delete_of_some {c : Cleanup} {f : FilterObjects → Option FilterObjects}
    {e : FilterObjects} (h : f c.engine = some e) : c.delete f = ⟨e, c.refused⟩ := by
  rw [Cleanup.delete, h]

theorem Cleanup.delete_of_none {c : Cleanup} {f : FilterObjects → Option FilterObjects}
    (h : f c.engine = none) : c.delete f = ⟨c.engine, c.refused + 1⟩ := by
  rw [Cleanup.delete, h]

/-- The clean-up from the deletion of the callout on. -/
def deleteCallouts (s : Wfp) (c : Cleanup) : Cleanup :=
  let c := if s.addCalloutId ≠ 0 then
    c.delete (·.calloutDeleteById s.filterEngineHandle s.addCalloutId) else c
  let c := if s.regCalloutId ≠ 0 then c.delete (·.calloutUnregisterById s.regCalloutId) else c
  c.delete (·.engineClose s.filterEngineHandle)

/-- The clean-up after a failure before the filter was added. -/
theorem unInitializeWfp_of_filterId (h : s.filterEngineHandle ≠ 0) (hf : s.filterId = 0) :
    s.unInitializeWfp = s.deleteCallouts ((⟨s.engine, 0⟩ : Cleanup).delete
      (·.subLayerDeleteByKey s.filterEngineHandle wfpSampleSublayerGuid)) := by
  simp only [unInitializeWfp, deleteCallouts, h, hf, ne_eq, not_true_eq_false, not_false_eq_true,
    if_true, if_false]

/-- The clean-up when the filter was added. -/
theorem unInitializeWfp_of_filter (h : s.filterEngineHandle ≠ 0) (hf : s.filterId ≠ 0) :
    s.unInitializeWfp = s.deleteCallouts (((⟨s.engine, 0⟩ : Cleanup).delete
      (·.filterDeleteById s.filterEngineHandle s.filterId)).delete
        (·.subLayerDeleteByKey s.filterEngineHandle wfpSampleSublayerGuid)) := by
  simp only [unInitializeWfp, deleteCallouts, h, hf, ne_eq, not_false_eq_true, if_true]

/-- A deletion of something else does not touch the sublayers. -/
theorem Cleanup.sublayers_delete {f : FilterObjects → Option FilterObjects}
    (hf : ∀ e e', f e = some e' → e'.sublayers = e.sublayers) (c : Cleanup) :
    (c.delete f).engine.sublayers = c.engine.sublayers := by
  cases he : f c.engine with
  | none => rw [Cleanup.delete_of_none he]
  | some e => rw [Cleanup.delete_of_some he, hf _ _ he]

theorem sublayers_deleteCallouts (s : Wfp) (c : Cleanup) :
    (s.deleteCallouts c).engine.sublayers = c.engine.sublayers := by
  have hclose : ∀ e e' : FilterObjects, e.engineClose s.filterEngineHandle = some e' →
      e'.sublayers = e.sublayers := fun e e' he => by
    obtain ⟨-, ⟨⟩⟩ := Option.ite_none_right_eq_some.mp he
    rfl
  have hunregister : ∀ e e' : FilterObjects, e.calloutUnregisterById s.regCalloutId = some e' →
      e'.sublayers = e.sublayers := fun e e' he => by
    obtain ⟨-, ⟨⟩⟩ := Option.ite_none_right_eq_some.mp he
    rfl
  have hdelete : ∀ e e' : FilterObjects,
      e.calloutDeleteById s.filterEngineHandle s.addCalloutId = some e' →
        e'.sublayers = e.sublayers := fun e e' he => by
    obtain ⟨-, ⟨⟩⟩ := Option.ite_none_right_eq_some.mp he
    rfl
  unfold deleteCallouts
  rw [Cleanup.sublayers_delete hclose]
  split_ifs
  · rw [Cleanup.sublayers_delete hunregister, Cleanup.sublayers_delete hdelete]
  · rw [Cleanup.sublayers_delete hunregister]
  · rw [Cleanup.sublayers_delete hdelete]
  · rfl

/-! ### A load under way -/

/-- The calls of `InitializeWfp` before the sublayer have got from the objects `e` to the state
`s`, and the last deletions undo them. -/
structure Underway (e : FilterObjects) (s : Wfp) : Prop where
  handle : s.filterEngineHandle ≠ 0
  session : s.filterEngineHandle ∈ s.engine.sessions
  filterId : s.filterId = 0
  sublayers : s.engine.sublayers = e.sublayers
  filters : s.engine.filters = e.filters
  referenced : s.engine.Referenced
  undone : ∀ n, s.deleteCallouts ⟨s.engine, n⟩ = ⟨e, n⟩

variable {e : FilterObjects}

theorem underway_engineOpen (he : e.Referenced) {a : Option ℕ}
    (h : (atLoad e).engineOpen a = some s) :
    Underway e s ∧ s.regCalloutId = 0 ∧ s.addCalloutId = 0 := by
  obtain ⟨e', hd, hne, ho, rfl⟩ := engineOpen_eq_some h
  obtain ⟨hsub, hfil⟩ := FilterObjects.engineOpen_frame ho
  refine ⟨⟨hne, ?_, rfl, hsub, hfil, he.engineOpen ho, fun n => ?_⟩, rfl, rfl⟩
  · obtain ⟨-, ⟨⟩⟩ := Option.ite_none_right_eq_some.mp ho
    exact Finset.mem_insert_self _ _
  · exact Cleanup.delete_of_some (c := ⟨e', n⟩) (f := (·.engineClose hd))
      (FilterObjects.engineOpen_undo ho)

theorem Underway.wfpRegisterCallout (hs : Underway e s) (hreg : s.regCalloutId = 0)
    (hadd : s.addCalloutId = 0) {a : Option UInt32} (h : s.wfpRegisterCallout a = some s') :
    Underway e s' ∧ s'.addCalloutId = 0 := by
  obtain ⟨e', id, hne, ho, rfl⟩ := wfpRegisterCallout_eq_some h
  obtain ⟨hses, hsub, hfil⟩ := FilterObjects.calloutRegister_frame ho
  have hundo := FilterObjects.calloutRegister_undo ho
  refine ⟨⟨hs.handle, hses ▸ hs.session, hs.filterId, hsub.trans hs.sublayers,
    hfil.trans hs.filters, hs.referenced.calloutRegister ho, fun n => ?_⟩, hadd⟩
  rw [← hs.undone n, deleteCallouts, deleteCallouts]
  simp only [hadd, hreg, hne, ne_eq, not_true_eq_false, not_false_eq_true, if_true, if_false]
  rw [Cleanup.delete_of_some (c := ⟨e', n⟩) hundo]

theorem Underway.wfpAddCallout (hs : Underway e s) (hadd : s.addCalloutId = 0) {a : Option UInt32}
    (h : s.wfpAddCallout a = some s') : Underway e s' := by
  obtain ⟨e', id, hne, ho, rfl⟩ := wfpAddCallout_eq_some h
  obtain ⟨hses, hsub, hfil⟩ := FilterObjects.calloutAdd_frame ho
  have hundo := FilterObjects.calloutAdd_undo hs.referenced ho
  refine ⟨hs.handle, hses ▸ hs.session, hs.filterId, hsub.trans hs.sublayers,
    hfil.trans hs.filters, hs.referenced.calloutAdd ho, fun n => ?_⟩
  rw [← hs.undone n, deleteCallouts, deleteCallouts]
  simp only [hadd, hne, ne_eq, not_true_eq_false, not_false_eq_true, if_true, if_false]
  rw [Cleanup.delete_of_some (c := ⟨e', n⟩) hundo]

/-- The clean-up after a failure before the sublayer was added restores the objects exactly when it
does not delete a sublayer. -/
theorem Underway.cleanup_iff (hs : Underway e s) :
    s.unInitializeWfp.engine = e ↔
      wfpSampleSublayerGuid ∉ e.sublayers ∨
        ∃ f ∈ e.filters, f.subLayerKey = wfpSampleSublayerGuid := by
  have hclean := unInitializeWfp_of_filterId hs.handle hs.filterId
  cases hdel : s.engine.subLayerDeleteByKey s.filterEngineHandle wfpSampleSublayerGuid with
  | none =>
    have hengine : s.unInitializeWfp.engine = e := by
      rw [hclean, Cleanup.delete_of_none (c := ⟨s.engine, 0⟩) hdel, hs.undone]
    refine iff_of_true hengine ?_
    by_contra hcon
    rw [not_or, not_not, not_exists] at hcon
    refine Option.ne_none_iff_exists'.mpr ⟨_, if_pos ⟨hs.session, ?_, fun f hf hk => ?_⟩⟩ hdel
    · exact hs.sublayers ▸ hcon.1
    · exact hcon.2 f ⟨hs.filters ▸ hf, hk⟩
  | some e' =>
    obtain ⟨⟨-, hmem, hfree⟩, ⟨⟩⟩ := Option.ite_none_right_eq_some.mp hdel
    rw [hs.sublayers] at hmem
    rw [hs.filters] at hfree
    refine iff_of_false (fun hengine => ?_) (not_or.mpr ⟨not_not.mpr hmem, ?_⟩)
    · rw [hclean, Cleanup.delete_of_some (c := ⟨s.engine, 0⟩) hdel] at hengine
      have hsub := s.sublayers_deleteCallouts
        ⟨{ s.engine with sublayers := s.engine.sublayers.erase wfpSampleSublayerGuid }, 0⟩
      rw [hengine] at hsub
      have herased : e.sublayers = s.engine.sublayers.erase wfpSampleSublayerGuid := hsub
      rw [herased] at hmem
      exact Finset.notMem_erase _ _ hmem
    · rintro ⟨f, hf, hk⟩
      exact hfree f hf hk

/-- The clean-up after a failure to add the filter restores the objects. -/
theorem Underway.cleanup_of_subLayer (hs : Underway e s) {a : Bool}
    (h : s.wfpAddSublayer a = some s') :
    s'.unInitializeWfp = ⟨e, 0⟩ ∧ wfpSampleSublayerGuid ∉ e.sublayers := by
  obtain ⟨e', ho, rfl⟩ := wfpAddSublayer_eq_some h
  have hundo := FilterObjects.subLayerAdd_undo hs.referenced ho
  refine ⟨?_, fun hmem => ?_⟩
  · rw [unInitializeWfp_of_filterId (s := { s with engine := e' }) hs.handle hs.filterId,
      Cleanup.delete_of_some (c := ⟨e', 0⟩) hundo]
    exact hs.undone 0
  · exact (Option.ite_none_right_eq_some.mp ho).1.2 (hs.sublayers ▸ hmem)

/-- The clean-up after all calls succeeded restores the objects. -/
theorem Underway.cleanup_of_filter (hs : Underway e s) {a : Bool} {a' : Option UInt64} {s'' : Wfp}
    (h : s.wfpAddSublayer a = some s') (h' : s'.wfpAddFilter a' = some s'') :
    s''.unInitializeWfp = ⟨e, 0⟩ := by
  obtain ⟨e', ho, rfl⟩ := wfpAddSublayer_eq_some h
  obtain ⟨e'', id, hne, ho', rfl⟩ := wfpAddFilter_eq_some h'
  have hundo := FilterObjects.subLayerAdd_undo hs.referenced ho
  have hundo' := FilterObjects.filterAdd_undo ho'
  rw [unInitializeWfp_of_filter (s := { s with filterId := id, engine := e'' }) hs.handle hne,
    Cleanup.delete_of_some (c := ⟨e'', 0⟩) hundo', Cleanup.delete_of_some (c := ⟨e', 0⟩) hundo]
  exact hs.undone 0

/-- All identifiers of the driver are set. -/
structure Loaded (s : Wfp) : Prop where
  handle : s.filterEngineHandle ≠ 0
  regCalloutId : s.regCalloutId ≠ 0
  addCalloutId : s.addCalloutId ≠ 0
  filterId : s.filterId ≠ 0

theorem loaded_of_calls {s₁ s₂ s₃ s₄ s₅ : Wfp} {k : WfpCalls}
    (h₁ : s.engineOpen k.engineOpen = some s₁)
    (h₂ : s₁.wfpRegisterCallout k.calloutRegister = some s₂)
    (h₃ : s₂.wfpAddCallout k.calloutAdd = some s₃) (h₄ : s₃.wfpAddSublayer k.subLayerAdd = some s₄)
    (h₅ : s₄.wfpAddFilter k.filterAdd = some s₅) : s₅.Loaded := by
  obtain ⟨e₁, hd, hd₀, -, rfl⟩ := engineOpen_eq_some h₁
  obtain ⟨e₂, reg, hreg, -, rfl⟩ := wfpRegisterCallout_eq_some h₂
  obtain ⟨e₃, add, hadd, -, rfl⟩ := wfpAddCallout_eq_some h₃
  obtain ⟨e₄, -, rfl⟩ := wfpAddSublayer_eq_some h₄
  obtain ⟨e₅, f, hf, -, rfl⟩ := wfpAddFilter_eq_some h₅
  exact ⟨hd₀, hreg, hadd, hf⟩

/-- Where `InitializeWfp` ends: when opening the engine fails, before the sublayer was added, when
adding the filter fails, or with success. -/
theorem initializeWfp_cases (he : e.Referenced) (k : WfpCalls) :
    ((atLoad e).engineOpen k.engineOpen = none ∧
        initializeWfp (atLoad e) k = (atLoad e).failed) ∨
      ∃ s₁, (atLoad e).engineOpen k.engineOpen = some s₁ ∧ ∃ s, Underway e s ∧
        (initializeWfp (atLoad e) k = s.failed ∨
          ∃ s', s.wfpAddSublayer k.subLayerAdd = some s' ∧
            (initializeWfp (atLoad e) k = s'.failed ∨
              ∃ s'', s'.wfpAddFilter k.filterAdd = some s'' ∧ s''.Loaded ∧
                initializeWfp (atLoad e) k = (true, s''))) := by
  cases h₁ : (atLoad e).engineOpen k.engineOpen with
  | none => exact .inl ⟨rfl, by rw [initializeWfp, h₁]⟩
  | some s₁ =>
    obtain ⟨hu₁, hreg, hadd⟩ := underway_engineOpen he h₁
    refine .inr ⟨s₁, rfl, ?_⟩
    cases h₂ : s₁.wfpRegisterCallout k.calloutRegister with
    | none => exact ⟨s₁, hu₁, .inl (by simp only [initializeWfp, h₁, h₂])⟩
    | some s₂ =>
      obtain ⟨hu₂, hadd⟩ := hu₁.wfpRegisterCallout hreg hadd h₂
      cases h₃ : s₂.wfpAddCallout k.calloutAdd with
      | none => exact ⟨s₂, hu₂, .inl (by simp only [initializeWfp, h₁, h₂, h₃])⟩
      | some s₃ =>
        have hu₃ := hu₂.wfpAddCallout hadd h₃
        refine ⟨s₃, hu₃, ?_⟩
        cases h₄ : s₃.wfpAddSublayer k.subLayerAdd with
        | none => exact .inl (by simp only [initializeWfp, h₁, h₂, h₃, h₄])
        | some s₄ =>
          refine .inr ⟨s₄, rfl, ?_⟩
          cases h₅ : s₄.wfpAddFilter k.filterAdd with
          | none => exact .inl (by simp only [initializeWfp, h₁, h₂, h₃, h₄, h₅])
          | some s₅ =>
            exact .inr ⟨s₅, rfl, loaded_of_calls h₁ h₂ h₃ h₄ h₅,
              by simp only [initializeWfp, h₁, h₂, h₃, h₄, h₅]⟩

/-! ### Changes by others -/

/-- The objects without those that the driver added. -/
def withoutOwn (s : Wfp) (e : FilterObjects) : FilterObjects where
  sessions := e.sessions.erase s.filterEngineHandle
  registered := e.registered.filter (·.id ≠ s.regCalloutId)
  callouts := e.callouts.filter (·.id ≠ s.addCalloutId)
  sublayers := e.sublayers.erase wfpSampleSublayerGuid
  filters := e.filters.filter (·.filterId ≠ s.filterId)

/-- Others may have changed the objects to `e`, but the objects of the driver are still there, and
only the driver's own filter refers to them. -/
structure LeftAlone (s : Wfp) (e : FilterObjects) : Prop where
  session : s.filterEngineHandle ∈ e.sessions
  registered : ∃ c ∈ e.registered, c.id = s.regCalloutId
  callout : ∃ c ∈ e.callouts, c.id = s.addCalloutId
  callout_key : ∀ c ∈ e.callouts, c.id = s.addCalloutId → c.key = wfpAleRedirectCalloutV4
  sublayer : wfpSampleSublayerGuid ∈ e.sublayers
  filter : ∃ f ∈ e.filters, f.filterId = s.filterId
  refers : ∀ f ∈ e.filters,
    f.subLayerKey = wfpSampleSublayerGuid ∨ f.calloutKey = some wfpAleRedirectCalloutV4 →
      f.filterId = s.filterId

/-- Unloading deletes the objects of the driver and nothing else. -/
theorem Loaded.cleanup (hs : s.Loaded) (he : s.LeftAlone e) :
    ({ s with engine := e } : Wfp).unInitializeWfp = ⟨s.withoutOwn e, 0⟩ := by
  have hfilter : e.filterDeleteById s.filterEngineHandle s.filterId =
      some { e with filters := (s.withoutOwn e).filters } := if_pos ⟨he.session, he.filter⟩
  have hsub : ({ e with filters := (s.withoutOwn e).filters } : FilterObjects).subLayerDeleteByKey
      s.filterEngineHandle wfpSampleSublayerGuid = some { e with
        filters := (s.withoutOwn e).filters, sublayers := (s.withoutOwn e).sublayers } := by
    refine if_pos ⟨he.session, he.sublayer, fun f hf hk => ?_⟩
    obtain ⟨hm, hne⟩ := Finset.mem_filter.mp hf
    exact hne (he.refers f hm (.inl hk))
  have hcallout : ({ e with
      filters := (s.withoutOwn e).filters, sublayers := (s.withoutOwn e).sublayers } :
      FilterObjects).calloutDeleteById s.filterEngineHandle s.addCalloutId = some { e with
        filters := (s.withoutOwn e).filters, sublayers := (s.withoutOwn e).sublayers
        callouts := (s.withoutOwn e).callouts } := by
    refine if_pos ⟨he.session, he.callout, fun c hc hid f hf hk => ?_⟩
    obtain ⟨hm, hne⟩ := Finset.mem_filter.mp hf
    exact hne (he.refers f hm (.inr (he.callout_key c hc hid ▸ hk)))
  have hregistered : ({ e with
      filters := (s.withoutOwn e).filters, sublayers := (s.withoutOwn e).sublayers
      callouts := (s.withoutOwn e).callouts } : FilterObjects).calloutUnregisterById
        s.regCalloutId = some { s.withoutOwn e with sessions := e.sessions } :=
    if_pos he.registered
  have hclose : ({ s.withoutOwn e with sessions := e.sessions } : FilterObjects).engineClose
      s.filterEngineHandle = some (s.withoutOwn e) := if_pos he.session
  rw [unInitializeWfp_of_filter (s := { s with engine := e }) hs.handle hs.filterId,
    Cleanup.delete_of_some (c := ⟨e, 0⟩) hfilter, Cleanup.delete_of_some hsub, deleteCallouts]
  simp only [hs.addCalloutId, hs.regCalloutId, ne_eq, not_false_eq_true, if_true]
  rw [Cleanup.delete_of_some (f := (·.calloutDeleteById _ s.addCalloutId)) hcallout,
    Cleanup.delete_of_some (f := (·.calloutUnregisterById s.regCalloutId)) hregistered,
    Cleanup.delete_of_some (f := (·.engineClose _)) hclose]

end Wfp

open Wfp

/-- Unloading after a successful `InitializeWfp` gives the objects that the filter engine held
before, and no deletion is refused. When others have changed the engine in between, but left the
driver's objects alone, it deletes these objects and nothing else. -/
theorem load_unload (e : FilterEngine) (k : WfpCalls) {s : Wfp}
    (h : initializeWfp (atLoad e.toFilterObjects) k = (true, s)) :
    s.unInitializeWfp = ⟨e.toFilterObjects, 0⟩ ∧
      ∀ e', s.LeftAlone e' →
        ({ s with engine := e' } : Wfp).unInitializeWfp = ⟨s.withoutOwn e', 0⟩ := by
  rcases initializeWfp_cases e.referenced k with
    ⟨-, hk⟩ | ⟨s₁, -, s₀, hs, hk | ⟨s', hs', hk | ⟨s'', hs'', hl, hk⟩⟩⟩
  · simp [hk, Wfp.failed] at h
  · simp [hk, Wfp.failed] at h
  · simp [hk, Wfp.failed] at h
  · obtain rfl : s'' = s := congrArg Prod.snd (hk.symm.trans h)
    exact ⟨hs.cleanup_of_filter hs' hs'', fun e' => hl.cleanup⟩

/-- An engine in which only a sublayer with the given key was added. -/
def onlySublayer (key : Guid) : FilterObjects := ⟨∅, ∅, ∅, {key}, ∅⟩

theorem referenced_onlySublayer (key : Guid) : (onlySublayer key).Referenced where
  subLayer f hf := absurd hf (Finset.notMem_empty f)
  callout f hf := absurd hf (Finset.notMem_empty f)

/-- The key of another driver's sublayer, and a filter in it. -/
def otherKey : Guid := ⟨7, 0, 0, []⟩

def otherFilter : FwpmFilter := ⟨6, otherKey, none⟩

/-- All calls of `InitializeWfp` are answered. -/
def allAnswered : WfpCalls := ⟨some 1, some 2, some 3, true, some 5⟩

/-- The driver is loaded next to another one, which then adds a filter. -/
def loadedRun : Wfp := (initializeWfp (atLoad (onlySublayer otherKey)) allAnswered).2

def loadedRunFilter : FilterObjects :=
  { loadedRun.engine with filters := insert otherFilter loadedRun.engine.filters }

theorem load_unload_run :
    loadedRun.unInitializeWfp = ⟨onlySublayer otherKey, 0⟩ ∧
      ({ loadedRun with engine := loadedRunFilter } : Wfp).unInitializeWfp =
        ⟨loadedRun.withoutOwn loadedRunFilter, 0⟩ := by
  have hrun : initializeWfp (atLoad (onlySublayer otherKey)) allAnswered = (true, loadedRun) :=
    Prod.ext (by decide +kernel) rfl
  have halone : loadedRun.LeftAlone loadedRunFilter := by constructor <;> decide +kernel
  obtain ⟨hclean, hafter⟩ :=
    load_unload ⟨onlySublayer otherKey, referenced_onlySublayer otherKey⟩ _ hrun
  exact ⟨hclean, hafter _ halone⟩

/-- The other driver's filter stays. -/
example : loadedRun.withoutOwn loadedRunFilter =
    { onlySublayer otherKey with filters := {otherFilter} } := by decide +kernel

/-- A failed `InitializeWfp` leaves the objects in the filter engine as they were exactly when the
engine could not be opened, or no sublayer has the driver's key, or a filter is in that sublayer. -/
theorem rollback_iff (e : FilterEngine) (k : WfpCalls)
    (h : (initializeWfp (atLoad e.toFilterObjects) k).1 = false) :
    (initializeWfp (atLoad e.toFilterObjects) k).2.engine = e.toFilterObjects ↔
      (atLoad e.toFilterObjects).engineOpen k.engineOpen = none ∨
        wfpSampleSublayerGuid ∉ e.sublayers ∨
          ∃ f ∈ e.filters, f.subLayerKey = wfpSampleSublayerGuid := by
  rcases initializeWfp_cases e.referenced k with
    ⟨hopen, hk⟩ | ⟨s₁, hopen, s, hs, hk | ⟨s', hs', hk | ⟨s'', -, -, hk⟩⟩⟩
  · exact iff_of_true (by rw [hk]; rfl) (.inl hopen)
  · rw [hk, Wfp.failed, hs.cleanup_iff, hopen]
    simp
  · obtain ⟨hclean, hnot⟩ := hs.cleanup_of_subLayer hs'
    exact iff_of_true (by rw [hk, Wfp.failed, hclean]) (.inr (.inl hnot))
  · simp [hk] at h

/-- No earlier load has left a sublayer, and the callout cannot be added. -/
theorem rollback_iff_run :
    (initializeWfp (atLoad (onlySublayer otherKey)) { allAnswered with calloutAdd := none }).1 =
        false ∧
      (initializeWfp (atLoad (onlySublayer otherKey))
        { allAnswered with calloutAdd := none }).2.engine = onlySublayer otherKey := by
  have hfail : (initializeWfp (atLoad (onlySublayer otherKey))
      { allAnswered with calloutAdd := none }).1 = false := by decide +kernel
  have hnot : wfpSampleSublayerGuid ∉ (onlySublayer otherKey).sublayers := by decide +kernel
  exact ⟨hfail, (rollback_iff ⟨onlySublayer otherKey, referenced_onlySublayer otherKey⟩ _
    hfail).mpr (.inr (.inl hnot))⟩

/-- An earlier load has left its sublayer: adding the sublayer fails, and the clean-up deletes the
one that was there. -/
theorem rollback_fails :
    (onlySublayer wfpSampleSublayerGuid).Referenced ∧
      (initializeWfp (atLoad (onlySublayer wfpSampleSublayerGuid)) allAnswered).1 = false ∧
      wfpSampleSublayerGuid ∈ (onlySublayer wfpSampleSublayerGuid).sublayers ∧
      wfpSampleSublayerGuid ∉ (initializeWfp (atLoad (onlySublayer wfpSampleSublayerGuid))
        allAnswered).2.engine.sublayers :=
  ⟨referenced_onlySublayer _, by decide +kernel⟩

end IocpProxy
