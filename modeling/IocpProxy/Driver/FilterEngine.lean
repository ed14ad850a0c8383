import Mathlib

/-!
# The filter engine

The filter engine of the system holds sessions, callouts that drivers have registered, and the
callouts, sublayers and filters that were added through sessions. A filter is in a sublayer and may
name a callout, and while it does neither can be deleted. An object is added only under a key and
an identifier that no other object of its kind has, and identifiers are not zero.

Every operation returns the objects afterwards, or nothing when it is refused. Deleting what was
added last gives the objects before it was added.

## Main definitions

* `IocpProxy.FilterObjects` : the objects in the engine, with the operations on them.
* `IocpProxy.FilterObjects.Referenced`, `IocpProxy.FilterEngine` : no reference dangles.

## Main results

* `IocpProxy.FilterObjects.filterAdd_undo` and its companions : deletion undoes addition.
-/

namespace IocpProxy

/-- `GUID`. -/
structure Guid where
  data1 : UInt32
  data2 : UInt16
  data3 : UInt16
  data4 : List UInt8
  deriving DecidableEq

/-- A callout, with the identifier the engine gave it. -/
structure Callout where
  key : Guid
  id : UInt32
  deriving DecidableEq

/-- A filter in a sublayer, with the callout its action names. -/
structure FwpmFilter where
  filterId : UInt64
  subLayerKey : Guid
  calloutKey : Option Guid
  deriving DecidableEq

/-- The objects in the filter engine. -/
@[ext]
structure FilterObjects where
  sessions : Finset ℕ
  registered : Finset Callout
  callouts : Finset Callout
  sublayers : Finset Guid
  filters : Finset FwpmFilter
  deriving DecidableEq

namespace FilterObjects

variable {e e' : FilterObjects} {h : ℕ}

/-! ### Operations -/

/-- `FwpmEngineOpen0`, with the handle `h`. -/
def engineOpen (e : FilterObjects) (h : ℕ) : Option FilterObjects :=
  if h ≠ 0 ∧ h ∉ e.sessions then some { e with sessions := insert h e.sessions } else none

/-- `FwpmEngineClose`. -/
def engineClose (e : FilterObjects) (h : ℕ) : Option FilterObjects :=
  if h ∈ e.sessions then some { e with sessions := e.sessions.erase h } else none

/-- `FwpsCalloutRegister1`. -/
def calloutRegister (e : FilterObjects) (c : Callout) : Option FilterObjects :=
  if c.id ≠ 0 ∧ ∀ c' ∈ e.registered, c'.key ≠ c.key ∧ c'.id ≠ c.id then
    some { e with registered := insert c e.registered }
  else none

/-- `FwpsCalloutUnregisterById`. -/
def calloutUnregisterById (e : FilterObjects) (id : UInt32) : Option FilterObjects :=
  if ∃ c ∈ e.registered, c.id = id then
    some { e with registered := e.registered.filter (·.id ≠ id) }
  else none

/-- `FwpmCalloutAdd`. -/
def calloutAdd (e : FilterObjects) (h : ℕ) (c : Callout) : Option FilterObjects :=
  if h ∈ e.sessions ∧ c.id ≠ 0 ∧ ∀ c' ∈ e.callouts, c'.key ≠ c.key ∧ c'.id ≠ c.id then
    some { e with callouts := insert c e.callouts }
  else none

/-- `FwpmCalloutDeleteById`. -/
def calloutDeleteById (e : FilterObjects) (h : ℕ) (id : UInt32) : Option FilterObjects :=
  if h ∈ e.sessions ∧ (∃ c ∈ e.callouts, c.id = id) ∧
      ∀ c ∈ e.callouts, c.id = id → ∀ f ∈ e.filters, f.calloutKey ≠ some c.key then
    some { e with callouts := e.callouts.filter (·.id ≠ id) }
  else none

/-- `FwpmSubLayerAdd`. -/
def subLayerAdd (e : FilterObjects) (h : ℕ) (key : Guid) : Option FilterObjects :=
  if h ∈ e.sessions ∧ key ∉ e.sublayers then
    some { e with sublayers := insert key e.sublayers }
  else none

/-- `FwpmSubLayerDeleteByKey`. -/
def subLayerDeleteByKey (e : FilterObjects) (h : ℕ) (key : Guid) : Option FilterObjects :=
  if h ∈ e.sessions ∧ key ∈ e.sublayers ∧ ∀ f ∈ e.filters, f.subLayerKey ≠ key then
    some { e with sublayers := e.sublayers.erase key }
  else none

/-- `FwpmFilterAdd`. -/
def filterAdd (e : FilterObjects) (h : ℕ) (f : FwpmFilter) : Option FilterObjects :=
  if h ∈ e.sessions ∧ f.filterId ≠ 0 ∧ (∀ f' ∈ e.filters, f'.filterId ≠ f.filterId) ∧
      f.subLayerKey ∈ e.sublayers ∧ ∀ key ∈ f.calloutKey, ∃ c ∈ e.callouts, c.key = key then
    some { e with filters := insert f e.filters }
  else none

/-- `FwpmFilterDeleteById`. -/
def filterDeleteById (e : FilterObjects) (h : ℕ) (id : UInt64) : Option FilterObjects :=
  if h ∈ e.sessions ∧ ∃ f ∈ e.filters, f.filterId = id then
    some { e with filters := e.filters.filter (·.filterId ≠ id) }
  else none

/-! ### References -/

/-- The sublayers of all filters, and the callouts they name, are in the engine. -/
structure Referenced (e : FilterObjects) : Prop where
  subLayer : ∀ f ∈ e.filters, f.subLayerKey ∈ e.sublayers
  callout : ∀ f ∈ e.filters, ∀ key ∈ f.calloutKey, ∃ c ∈ e.callouts, c.key = key

theorem Referenced.congr (he : e.Referenced) (hf : e'.filters ⊆ e.filters)
    (hs : e.sublayers ⊆ e'.sublayers) (hc : e.callouts ⊆ e'.callouts) : e'.Referenced where
  subLayer f hm := hs (he.subLayer f (hf hm))
  callout f hm key hk := by
    obtain ⟨c, hcm, hck⟩ := he.callout f (hf hm) key hk
    exact ⟨c, hc hcm, hck⟩

theorem Referenced.engineOpen (he : e.Referenced) (ho : e.engineOpen h = some e') :
    e'.Referenced := by
  obtain ⟨-, ⟨⟩⟩ := Option.ite_none_right_eq_some.mp ho
  exact he.congr subset_rfl subset_rfl subset_rfl

theorem Referenced.engineClose (he : e.Referenced) (ho : e.engineClose h = some e') :
    e'.Referenced := by
  obtain ⟨-, ⟨⟩⟩ := Option.ite_none_right_eq_some.mp ho
  exact he.congr subset_rfl subset_rfl subset_rfl

theorem Referenced.calloutRegister {c : Callout} (he : e.Referenced)
    (ho : e.calloutRegister c = some e') : e'.Referenced := by
  obtain ⟨-, ⟨⟩⟩ := Option.ite_none_right_eq_some.mp ho
  exact he.congr subset_rfl subset_rfl subset_rfl

theorem Referenced.calloutUnregisterById {id : UInt32} (he : e.Referenced)
    (ho : e.calloutUnregisterById id = some e') : e'.Referenced := by
  obtain ⟨-, ⟨⟩⟩ := Option.ite_none_right_eq_some.mp ho
  exact he.congr subset_rfl subset_rfl subset_rfl

theorem Referenced.calloutAdd {c : Callout} (he : e.Referenced)
    (ho : e.calloutAdd h c = some e') : e'.Referenced := by
  obtain ⟨-, ⟨⟩⟩ := Option.ite_none_right_eq_some.mp ho
  exact he.congr subset_rfl subset_rfl (Finset.subset_insert _ _)

theorem Referenced.calloutDeleteById {id : UInt32} (he : e.Referenced)
    (ho : e.calloutDeleteById h id = some e') : e'.Referenced := by
  obtain ⟨⟨-, -, hfree⟩, ⟨⟩⟩ := Option.ite_none_right_eq_some.mp ho
  refine ⟨he.subLayer, fun f hf key hk => ?_⟩
  obtain ⟨c, hc, rfl⟩ := he.callout f hf key hk
  exact ⟨c, Finset.mem_filter.mpr ⟨hc, fun hid => hfree c hc hid f hf hk⟩, rfl⟩

theorem Referenced.subLayerAdd {key : Guid} (he : e.Referenced)
    (ho : e.subLayerAdd h key = some e') : e'.Referenced := by
  obtain ⟨-, ⟨⟩⟩ := Option.ite_none_right_eq_some.mp ho
  exact he.congr subset_rfl (Finset.subset_insert _ _) subset_rfl

theorem Referenced.subLayerDeleteByKey {key : Guid} (he : e.Referenced)
    (ho : e.subLayerDeleteByKey h key = some e') : e'.Referenced := by
  obtain ⟨⟨-, -, hfree⟩, ⟨⟩⟩ := Option.ite_none_right_eq_some.mp ho
  exact ⟨fun f hf => Finset.mem_erase.mpr ⟨hfree f hf, he.subLayer f hf⟩, he.callout⟩

theorem Referenced.filterAdd {f : FwpmFilter} (he : e.Referenced)
    (ho : e.filterAdd h f = some e') : e'.Referenced := by
  obtain ⟨⟨-, -, -, hs, hc⟩, ⟨⟩⟩ := Option.ite_none_right_eq_some.mp ho
  refine ⟨fun f' hf' => ?_, fun f' hf' => ?_⟩
  · rcases Finset.mem_insert.mp hf' with rfl | hf'
    · exact hs
    · exact he.subLayer f' hf'
  · rcases Finset.mem_insert.mp hf' with rfl | hf'
    · exact hc
    · exact he.callout f' hf'

theorem Referenced.filterDeleteById {id : UInt64} (he : e.Referenced)
    (ho : e.filterDeleteById h id = some e') : e'.Referenced := by
  obtain ⟨-, ⟨⟩⟩ := Option.ite_none_right_eq_some.mp ho
  exact he.congr (Finset.filter_subset _ _) subset_rfl subset_rfl

/-! ### What an operation leaves alone -/

theorem engineOpen_frame (ho : e.engineOpen h = some e') :
    e'.sublayers = e.sublayers ∧ e'.filters = e.filters := by
  obtain ⟨-, ⟨⟩⟩ := Option.ite_none_right_eq_some.mp ho
  exact ⟨rfl, rfl⟩

theorem calloutRegister_frame {c : Callout} (ho : e.calloutRegister c = some e') :
    e'.sessions = e.sessions ∧ e'.sublayers = e.sublayers ∧ e'.filters = e.filters := by
  obtain ⟨-, ⟨⟩⟩ := Option.ite_none_right_eq_some.mp ho
  exact ⟨rfl, rfl, rfl⟩

theorem calloutAdd_frame {c : Callout} (ho : e.calloutAdd h c = some e') :
    e'.sessions = e.sessions ∧ e'.sublayers = e.sublayers ∧ e'.filters = e.filters := by
  obtain ⟨-, ⟨⟩⟩ := Option.ite_none_right_eq_some.mp ho
  exact ⟨rfl, rfl, rfl⟩

/-! ### Deletion undoes addition -/

/-- An element that was inserted is filtered out again. -/
private theorem filter_insert_of_ne {α β : Type*} [DecidableEq α] [DecidableEq β] {s : Finset α}
    {a : α} (g : α → β) (hs : ∀ x ∈ s, g x ≠ g a) : (insert a s).filter (g · ≠ g a) = s := by
  rw [Finset.filter_insert, if_neg (not_not.mpr rfl)]
  exact Finset.filter_true_of_mem hs

theorem engineOpen_undo (ho : e.engineOpen h = some e') : e'.engineClose h = some e := by
  obtain ⟨⟨-, hh⟩, ⟨⟩⟩ := Option.ite_none_right_eq_some.mp ho
  rw [engineClose, if_pos (Finset.mem_insert_self h _)]
  simp only [Finset.erase_insert hh]

theorem calloutRegister_undo {c : Callout} (ho : e.calloutRegister c = some e') :
    e'.calloutUnregisterById c.id = some e := by
  obtain ⟨⟨-, hc⟩, ⟨⟩⟩ := Option.ite_none_right_eq_some.mp ho
  rw [calloutUnregisterById, if_pos ⟨c, Finset.mem_insert_self c _, rfl⟩]
  simp only [filter_insert_of_ne Callout.id fun c' hm => (hc c' hm).2]

theorem calloutAdd_undo {c : Callout} (he : e.Referenced) (ho : e.calloutAdd h c = some e') :
    e'.calloutDeleteById h c.id = some e := by
  obtain ⟨⟨hh, -, hc⟩, ⟨⟩⟩ := Option.ite_none_right_eq_some.mp ho
  rw [calloutDeleteById, if_pos]
  · simp only [filter_insert_of_ne Callout.id fun c' hm => (hc c' hm).2]
  · refine ⟨hh, ⟨c, Finset.mem_insert_self c _, rfl⟩, fun c' hm hid f hf hk => ?_⟩
    -- the callout is new, so no filter names it yet
    obtain ⟨c'', hm', hkey⟩ := he.callout f hf c'.key hk
    rcases Finset.mem_insert.mp hm with rfl | hm
    · exact (hc c'' hm').1 hkey
    · exact (hc c' hm).2 hid

theorem subLayerAdd_undo {key : Guid} (he : e.Referenced) (ho : e.subLayerAdd h key = some e') :
    e'.subLayerDeleteByKey h key = some e := by
  obtain ⟨⟨hh, hkey⟩, ⟨⟩⟩ := Option.ite_none_right_eq_some.mp ho
  have hfree : ∀ f ∈ e.filters, f.subLayerKey ≠ key := fun f hf hk => hkey (hk ▸ he.subLayer f hf)
  rw [subLayerDeleteByKey, if_pos ⟨hh, Finset.mem_insert_self key _, hfree⟩]
  simp only [Finset.erase_insert hkey]

theorem filterAdd_undo {f : FwpmFilter} (ho : e.filterAdd h f = some e') :
    e'.filterDeleteById h f.filterId = some e := by
  obtain ⟨⟨hh, -, hf, -⟩, ⟨⟩⟩ := Option.ite_none_right_eq_some.mp ho
  rw [filterDeleteById, if_pos ⟨hh, f, Finset.mem_insert_self f _, rfl⟩]
  simp only [filter_insert_of_ne FwpmFilter.filterId hf]

end FilterObjects

/-- A filter engine: objects among which no reference dangles. -/
structure FilterEngine extends FilterObjects where
  referenced : toFilterObjects.Referenced

end IocpProxy
