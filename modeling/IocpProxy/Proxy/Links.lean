import IocpProxy.Proxy.Moves

/-!
# Linked contexts and living contexts

Two invariants of the memory of the proxy. `Paired` is about the buddy pointers: a client owns its
remote, the remote points back without owning, and both were made by one call of
`AcceptConnection`. `Alive` is about references: a context is alive exactly while some strong
reference to it exists. The file gives the rules by which a change of the state keeps each of
them; the moves are gone through in `IocpProxy.Proxy.Invariant`.

## Main definitions

* `IocpProxy.State.Partner` : the buddy pointer of one context leads to another.
* `IocpProxy.State.Paired`, `IocpProxy.State.Alive`.
* `IocpProxy.State.SameLinks` : a change of the state that leaves the buddy pointers alone.

## Main results

* `IocpProxy.State.Paired.partner_symm`, `IocpProxy.State.Paired.partner_unique`.
* `IocpProxy.State.AliveBut.release` : giving up a reference and destroying what it kept alive.
* `IocpProxy.State.Alive.cleanClientList`.
-/

namespace IocpProxy

namespace State

variable {n : ℕ} {s s' : State n}

/-- The non-owning buddy pointer of a context. -/
def weakOf (s : State n) (x : CtxId) : Option CtxId := (s.ctx x).buddy.weak

/-- The buddy pointer of `x` holds `y`. -/
def Partner (s : State n) (x y : CtxId) : Prop := s.strongOf x = some y ∨ s.weakOf x = some y

/-! ### Buddy pointers -/

/-- A client owns its remote, which points back; both belong to one call of `AcceptConnection`. -/
structure Paired (s : State n) : Prop where
  own : ∀ {c r}, s.strongOf c = some r →
    s.weakOf c = none ∧ s.strongOf r = none ∧ s.weakOf r = some c
  back : ∀ {r c}, s.weakOf r = some c → s.strongOf c = some r
  conn : ∀ {c r}, s.strongOf c = some r →
    (s.ctx c).conn = (s.ctx r).conn ∧ (s.ctx c).proxySocket = false ∧
      (s.ctx r).proxySocket = true
  unused : ∀ x, s.next ≤ x → s.strongOf x = none ∧ s.weakOf x = none

/-- The buddy pointers, and what else is fixed when a context is made, are the same. -/
def SameLinks (s s' : State n) : Prop :=
  (∀ x, (s'.ctx x).buddy = (s.ctx x).buddy ∧ (s'.ctx x).conn = (s.ctx x).conn ∧
    (s'.ctx x).proxySocket = (s.ctx x).proxySocket ∧ (s'.ctx x).socket = (s.ctx x).socket) ∧
  s'.next = s.next

namespace SameLinks

theorem of_ctx (hc : s'.ctx = s.ctx) (hn : s'.next = s.next) : s.SameLinks s' :=
  ⟨fun x => by rw [hc]; exact ⟨rfl, rfl, rfl, rfl⟩, hn⟩

/-- Changing the records of a context leaves the buddy pointers alone. -/
theorem setCtx {x : CtxId} {c : SocketContext} (hb : c.buddy = (s.ctx x).buddy)
    (hc : c.conn = (s.ctx x).conn) (hp : c.proxySocket = (s.ctx x).proxySocket)
    (hk : c.socket = (s.ctx x).socket) : s.SameLinks (s.setCtx x c) := by
  refine ⟨fun y => ?_, rfl⟩
  simp only [State.setCtx, Function.update_apply]
  split_ifs with hy
  · exact hy ▸ ⟨hb, hc, hp, hk⟩
  · exact ⟨rfl, rfl, rfl, rfl⟩

theorem resetRecv (x : CtxId) : s.SameLinks (s.resetRecv x) := .setCtx rfl rfl rfl rfl

theorem storeSend (b : CtxId) (io : IoOperationData) : s.SameLinks (s.storeSend b io) :=
  .setCtx rfl rfl rfl rfl

theorem trans {s'' : State n} (h : s.SameLinks s') (h' : s'.SameLinks s'') : s.SameLinks s'' :=
  ⟨fun x => ⟨(h'.1 x).1.trans (h.1 x).1, (h'.1 x).2.1.trans (h.1 x).2.1,
    (h'.1 x).2.2.1.trans (h.1 x).2.2.1, (h'.1 x).2.2.2.trans (h.1 x).2.2.2⟩, h'.2.trans h.2⟩

theorem strongOf (h : s.SameLinks s') (x : CtxId) : s'.strongOf x = s.strongOf x :=
  congrArg BuddySocketContextPtr.strong (h.1 x).1

theorem weakOf (h : s.SameLinks s') (x : CtxId) : s'.weakOf x = s.weakOf x :=
  congrArg BuddySocketContextPtr.weak (h.1 x).1

theorem partner_iff (h : s.SameLinks s') {x y : CtxId} : s'.Partner x y ↔ s.Partner x y := by
  rw [Partner, Partner, h.strongOf, h.weakOf]

theorem socket (h : s.SameLinks s') (x : CtxId) : (s'.ctx x).socket = (s.ctx x).socket :=
  (h.1 x).2.2.2

theorem paired (h : s.SameLinks s') (hs : s.Paired) : s'.Paired where
  own hc := by
    rw [h.strongOf] at hc
    rw [h.weakOf, h.strongOf, h.weakOf]
    exact hs.own hc
  back hr := by
    rw [h.weakOf] at hr
    rw [h.strongOf]
    exact hs.back hr
  conn {c r} hc := by
    rw [h.strongOf] at hc
    rw [(h.1 c).2.1, (h.1 r).2.1, (h.1 c).2.2.1, (h.1 r).2.2.1]
    exact hs.conn hc
  unused x hx := by
    rw [h.strongOf, h.weakOf]
    exact hs.unused x (h.2 ▸ hx)

end SameLinks

namespace Paired

theorem of_ctx (hs : s.Paired) (hc : s'.ctx = s.ctx) (hn : s'.next = s.next) : s'.Paired :=
  (SameLinks.of_ctx hc hn).paired hs

/-- A client has no non-owning pointer and its remote no owning one, so each points at the
other. -/
theorem partner_symm (hs : s.Paired) {x y : CtxId} (h : s.Partner x y) : s.Partner y x := by
  rcases h with h | h
  · exact .inr (hs.own h).2.2
  · exact .inl (hs.back h)

/-- Partners belong to one call of `AcceptConnection`. -/
theorem conn_eq (hs : s.Paired) {x y : CtxId} (h : s.Partner x y) :
    (s.ctx x).conn = (s.ctx y).conn :=
  h.elim (fun h => (hs.conn h).1) fun h => (hs.conn (hs.back h)).1.symm

theorem partner_unique (hs : s.Paired) {x y z : CtxId} (hy : s.Partner x y)
    (hz : s.Partner x z) : y = z := by
  rcases hy with hy | hy <;> rcases hz with hz | hz
  · exact Option.some.inj (hy.symm.trans hz)
  · rw [(hs.own hy).1] at hz
    cases hz
  · rw [(hs.own hz).1] at hy
    cases hy
  · exact Option.some.inj (hy.symm.trans hz)

theorem partner_lt (hs : s.Paired) {x y : CtxId} (h : s.Partner x y) : x < s.next := by
  by_contra hx
  obtain ⟨h₁, h₂⟩ := hs.unused x (not_lt.mp hx)
  rcases h with h | h
  · rw [h₁] at h
    cases h
  · rw [h₂] at h
    cases h

/-- The two contexts of a pair are different. -/
theorem partner_ne (hs : s.Paired) {x y : CtxId} (h : s.Partner x y) : x ≠ y := by
  rintro rfl
  rcases h with h | h
  · rw [(hs.own h).2.1] at h
    cases h
  · have h' := hs.back h
    rw [(hs.own h').2.1] at h'
    cases h'

/-- A buddy that `GetBuddySocketContext` finds is the partner. -/
theorem partner_of_getBuddy {x y : CtxId} (h : s.getBuddySocketContext x = some y) :
    s.Partner x y := by
  unfold getBuddySocketContext BuddySocketContextPtr.get at h
  split at h
  · rename_i hs
    exact .inl (hs.trans h)
  · exact .inr (Option.filter_eq_some_iff.mp h).1

/-- A new context, not yet linked, may be stored. -/
theorem make (hs : s.Paired) {c : SocketContext} (hc : c.buddy = ⟨none, none⟩) :
    (s.make c).Paired := by
  have hnew : ∀ x, (s.make c).strongOf x = if x = s.next then none else s.strongOf x := by
    intro x
    simp only [strongOf, State.make, Function.update_apply]
    split_ifs <;> simp [hc]
  have hweak : ∀ x, (s.make c).weakOf x = if x = s.next then none else s.weakOf x := by
    intro x
    simp only [weakOf, State.make, Function.update_apply]
    split_ifs <;> simp [hc]
  have hctx : ∀ x, x ≠ s.next → (s.make c).ctx x = s.ctx x := fun x hx =>
    Function.update_of_ne hx _ _
  -- the id of the new context occurs in no pointer
  have hpart : ∀ {x y}, s.Partner x y → x ≠ s.next ∧ y ≠ s.next := fun h =>
    ⟨(hs.partner_lt h).ne, (hs.partner_lt (hs.partner_symm h)).ne⟩
  constructor
  · intro x y h
    rw [hnew] at h
    split_ifs at h with hx
    obtain ⟨hxn, hyn⟩ := hpart (.inl h)
    rw [hweak, hnew, hweak, if_neg hxn, if_neg hyn, if_neg hyn]
    exact hs.own h
  · intro x y h
    rw [hweak] at h
    split_ifs at h with hx
    obtain ⟨hxn, hyn⟩ := hpart (.inr h)
    rw [hnew, if_neg hyn]
    exact hs.back h
  · intro x y h
    rw [hnew] at h
    split_ifs at h with hx
    obtain ⟨hxn, hyn⟩ := hpart (.inl h)
    rw [hctx x hxn, hctx y hyn]
    exact hs.conn h
  · intro x hx
    have hx' : s.next < x := Nat.lt_of_succ_le hx
    rw [hnew, hweak, if_neg hx'.ne', if_neg hx'.ne']
    exact hs.unused x hx'.le

end Paired

/-! ### Linking -/

/-- A context whose buddy pointer is still empty. -/
def Unlinked (s : State n) (x : CtxId) : Prop := (s.ctx x).buddy = ⟨none, none⟩

/-- The memory after the two calls of `SetBuddySocketContext`. -/
def linkedCtx (s : State n) (c r : CtxId) : CtxId → SocketContext :=
  Function.update (Function.update s.ctx c { s.ctx c with buddy := ⟨some r, none⟩ }) r
    { s.ctx r with buddy := ⟨none, some c⟩ }

/-- Linking two contexts without buddies only sets their pointers: the client owns the remote. -/
theorem linked_eq {c r : CtxId} (hcr : c ≠ r) (hc : s.Unlinked c) (hr : s.Unlinked r) :
    s.linked c r = ({ s with ctx := s.linkedCtx c r } : State n).acceptAt (.assoc .client) := by
  have hgr : s.getBuddySocketContext r = none := by
    simp [getBuddySocketContext, BuddySocketContextPtr.get, show
      (s.ctx r).buddy = ⟨none, none⟩ from hr]
  have h₁ : s.setBuddySocketContext c r =
      s.setCtx c { s.ctx c with buddy := ⟨some r, none⟩ } := by
    simp [setBuddySocketContext, hgr, strongOf, show (s.ctx c).buddy = ⟨none, none⟩ from hc,
      releaseOpt]
  unfold linked
  rw [h₁]
  simp [setBuddySocketContext, getBuddySocketContext, BuddySocketContextPtr.get, setCtx, strongOf,
    releaseOpt, linkedCtx, Function.update_of_ne hcr.symm,
    show (s.ctx r).buddy = ⟨none, none⟩ from hr]

theorem strongOf_linkedCtx {c r : CtxId} (hcr : c ≠ r) (x : CtxId) :
    ({ s with ctx := s.linkedCtx c r } : State n).strongOf x =
      if x = c then some r else if x = r then none else s.strongOf x := by
  simp only [strongOf, linkedCtx, Function.update_apply]
  by_cases hxc : x = c
  · subst hxc
    simp [hcr]
  · by_cases hxr : x = r <;> simp [hxc, hxr, hcr.symm]

theorem weakOf_linkedCtx {c r : CtxId} (hcr : c ≠ r) (x : CtxId) :
    ({ s with ctx := s.linkedCtx c r } : State n).weakOf x =
      if x = r then some c else if x = c then none else s.weakOf x := by
  simp only [weakOf, linkedCtx, Function.update_apply]
  by_cases hxr : x = r
  · simp [hxr]
  · by_cases hxc : x = c <;> simp [hxc, hxr, hcr]

/-- Two contexts made by one call may be linked. -/
theorem Paired.link (hs : s.Paired) {c r : CtxId} (hcr : c ≠ r) (hc : s.Unlinked c)
    (hr : s.Unlinked r) (hcl : c < s.next) (hrl : r < s.next)
    (hconn : (s.ctx c).conn = (s.ctx r).conn) (hpc : (s.ctx c).proxySocket = false)
    (hpr : (s.ctx r).proxySocket = true) :
    ({ s with ctx := s.linkedCtx c r } : State n).Paired := by
  -- neither context occurs in a pointer so far
  have hout : ∀ {x y}, s.Partner x y → x ≠ c ∧ x ≠ r ∧ y ≠ c ∧ y ≠ r := by
    have hnone : ∀ {z}, s.Unlinked z → ∀ y, ¬ s.Partner z y := fun hz y hy => by
      simp only [Partner, strongOf, weakOf, show (s.ctx _).buddy = ⟨none, none⟩ from hz,
        reduceCtorEq, or_self] at hy
    intro x y h
    have h' := hs.partner_symm h
    exact ⟨fun e => hnone hc y (e ▸ h), fun e => hnone hr y (e ▸ h),
      fun e => hnone hc x (e ▸ h'), fun e => hnone hr x (e ▸ h')⟩
  have hfield : ∀ x, (s.linkedCtx c r x).conn = (s.ctx x).conn ∧
      (s.linkedCtx c r x).proxySocket = (s.ctx x).proxySocket := fun x => by
    simp only [linkedCtx, Function.update_apply]
    split_ifs with h₁ h₂
    · exact h₁ ▸ ⟨rfl, rfl⟩
    · exact h₂ ▸ ⟨rfl, rfl⟩
    · exact ⟨rfl, rfl⟩
  constructor
  · intro x y h
    rw [strongOf_linkedCtx hcr] at h
    split_ifs at h with hxc hxr
    · obtain rfl := Option.some.inj h
      subst hxc
      simp [weakOf_linkedCtx hcr, strongOf_linkedCtx hcr, hcr, hcr.symm]
    · obtain ⟨-, -, hyc, hyr⟩ := hout (.inl h)
      simpa only [weakOf_linkedCtx hcr, strongOf_linkedCtx hcr, if_neg hxc, if_neg hxr, if_neg hyc,
        if_neg hyr] using hs.own h
  · intro x y h
    rw [weakOf_linkedCtx hcr] at h
    split_ifs at h with hxr hxc
    · obtain rfl := Option.some.inj h
      simp [strongOf_linkedCtx hcr, hxr]
    · obtain ⟨-, -, hyc, hyr⟩ := hout (.inr h)
      simpa only [strongOf_linkedCtx hcr, if_neg hyc, if_neg hyr] using hs.back h
  · intro x y h
    rw [strongOf_linkedCtx hcr] at h
    simp only [(hfield _).1, (hfield _).2]
    split_ifs at h with hxc hxr
    · obtain rfl := Option.some.inj h
      subst hxc
      exact ⟨hconn, hpc, hpr⟩
    · exact hs.conn h
  · intro x hx
    have hxc : x ≠ c := (hcl.trans_le hx).ne'
    have hxr : x ≠ r := (hrl.trans_le hx).ne'
    simpa only [strongOf_linkedCtx hcr, weakOf_linkedCtx hcr, if_neg hxc, if_neg hxr] using
      hs.unused x hx

/-! ### References -/

/-- A context is alive exactly while a strong reference to it exists. -/
structure Alive (s : State n) : Prop where
  live_of_owned : ∀ x, s.Owned x → x ∈ s.live
  owned_of_live : ∀ x ∈ s.live, s.Owned x
  live_lt : ∀ x ∈ s.live, x < s.next

/-- The same, where the last reference to `x` may just have been given up. -/
structure AliveBut (s : State n) (x : CtxId) : Prop where
  live_of_owned : ∀ z, s.Owned z → z ∈ s.live
  owned_of_live : ∀ z ∈ s.live, z ≠ x → s.Owned z
  live_lt : ∀ z ∈ s.live, z < s.next

/-- A release destroys contexts that no variable refers to. -/
theorem not_root_of_doomed {x z : CtxId} (hz : z ∈ s.doomed x) : ¬ s.Root z :=
  (Ownership.cascade_sound hz).2

theorem mem_live_release {x z : CtxId} : z ∈ (s.release x).live ↔ z ∈ s.live ∧ z ∉ s.doomed x :=
  Finset.mem_filter

theorem AliveBut.release {x : CtxId} (h : s.AliveBut x) : (s.release x).Alive where
  live_of_owned z hz := by
    rw [mem_live_release]
    rcases hz with hr | ⟨y, hy, hyz⟩
    · exact ⟨h.live_of_owned z (.inl hr), fun hd => not_root_of_doomed hd hr⟩
    · obtain ⟨hyl, hyd⟩ := mem_live_release.mp hy
      exact ⟨h.live_of_owned z (.inr ⟨y, hyl, hyz⟩), fun hd =>
        Ownership.cascade_not_referenced hd hyl hyd hyz⟩
  owned_of_live z hz := by
    obtain ⟨hzl, hzd⟩ := mem_live_release.mp hz
    exact Ownership.owned_of_survives le_rfl h.owned_of_live hzl hzd
  live_lt z hz := h.live_lt z (mem_live_release.mp hz).1

namespace Alive

/-- Variables that refer to living contexts may come, and variables may be renamed. -/
theorem of_root (h : s.Alive) (hr : ∀ x, s'.Root x → x ∈ s.live)
    (hr' : ∀ x, s.Root x → s'.Root x) (hs : ∀ x, s'.strongOf x = s.strongOf x)
    (hl : s'.live = s.live) (hn : s'.next = s.next) : s'.Alive where
  live_of_owned x hx := by
    rw [hl]
    rcases hx with hx | ⟨y, hy, hyx⟩
    · exact hr x hx
    · rw [hl] at hy
      rw [hs] at hyx
      exact h.live_of_owned x (.inr ⟨y, hy, hyx⟩)
  owned_of_live x hx := by
    rw [hl] at hx
    rcases h.owned_of_live x hx with hx | ⟨y, hy, hyx⟩
    · exact .inl (hr' x hx)
    · refine .inr ⟨y, ?_, (hs y).trans hyx⟩
      rw [hl]
      exact hy
  live_lt x hx := by
    rw [hn]
    exact h.live_lt x (hl ▸ hx)

/-- The variables refer to the same contexts. -/
theorem congr (h : s.Alive) (hr : ∀ x, s'.Root x ↔ s.Root x)
    (hs : ∀ x, s'.strongOf x = s.strongOf x) (hl : s'.live = s.live) (hn : s'.next = s.next) :
    s'.Alive :=
  h.of_root (fun x hx => h.live_of_owned x (.inl ((hr x).mp hx))) (fun x => (hr x).mpr) hs hl hn

/-- Only variables that referred to `x` are gone. -/
theorem but (h : s.Alive) {x : CtxId} (hr : ∀ z, s'.Root z → s.Root z)
    (hr' : ∀ z, z ≠ x → s.Root z → s'.Root z) (hs : ∀ z, s'.strongOf z = s.strongOf z)
    (hl : s'.live = s.live) (hn : s'.next = s.next) : s'.AliveBut x where
  live_of_owned z hz := by
    rw [hl]
    rcases hz with hz | ⟨y, hy, hyz⟩
    · exact h.live_of_owned z (.inl (hr z hz))
    · rw [hl] at hy
      rw [hs] at hyz
      exact h.live_of_owned z (.inr ⟨y, hy, hyz⟩)
  owned_of_live z hz hzx := by
    rw [hl] at hz
    rcases h.owned_of_live z hz with hz | ⟨y, hy, hyz⟩
    · exact .inl (hr' z hzx hz)
    · refine .inr ⟨y, ?_, (hs y).trans hyz⟩
      rw [hl]
      exact hy
  live_lt z hz := by
    rw [hn]
    exact h.live_lt z (hl ▸ hz)

/-- Giving up a possibly null reference. -/
theorem releaseOpt (h : s.Alive) {o : Option CtxId} (hr : ∀ z, s'.Root z → s.Root z)
    (hr' : ∀ z, o ≠ some z → s.Root z → s'.Root z) (hs : ∀ z, s'.strongOf z = s.strongOf z)
    (hl : s'.live = s.live) (hn : s'.next = s.next) : (s'.releaseOpt o).Alive := by
  cases o with
  | none => exact h.congr (fun z => ⟨hr z, hr' z (by simp)⟩) hs hl hn
  | some x =>
    exact (h.but hr (fun z hz => hr' z fun e => hz (Option.some.inj e).symm) hs hl hn).release

/-- A context stored in a variable as it is made. -/
theorem make (h : s.Alive) {c : SocketContext} (hc : c.buddy = ⟨none, none⟩)
    (hr : ∀ x, s'.Root x ↔ s.Root x ∨ x = s.next) (hx : s'.ctx = (s.make c).ctx)
    (hl : s'.live = (s.make c).live) (hn : s'.next = (s.make c).next) : s'.Alive := by
  have hs : ∀ x ∈ s.live, s'.strongOf x = s.strongOf x := fun x hxl => by
    simp only [strongOf, hx, State.make, Function.update_of_ne (h.live_lt x hxl).ne]
  have hnew : s'.strongOf s.next = none := by
    simp [strongOf, hx, State.make, hc]
  constructor
  · intro x hx
    rw [hl, State.make, Finset.mem_insert]
    rcases hx with hx | ⟨y, hy, hyx⟩
    · rcases (hr x).mp hx with hx | rfl
      · exact .inr (h.live_of_owned x (.inl hx))
      · exact .inl rfl
    · rw [hl, State.make, Finset.mem_insert] at hy
      rcases hy with rfl | hy
      · rw [hnew] at hyx
        cases hyx
      · rw [hs y hy] at hyx
        exact .inr (h.live_of_owned x (.inr ⟨y, hy, hyx⟩))
  · intro x hxl
    rw [hl, State.make, Finset.mem_insert] at hxl
    rcases hxl with rfl | hxl
    · exact .inl ((hr _).mpr (.inr rfl))
    · rcases h.owned_of_live x hxl with hx | ⟨y, hy, hyx⟩
      · exact .inl ((hr x).mpr (.inl hx))
      · refine .inr ⟨y, ?_, (hs y hy).trans hyx⟩
        rw [hl, State.make]
        exact Finset.mem_insert_of_mem hy
  · intro x hxl
    rw [hl, State.make, Finset.mem_insert] at hxl
    rw [hn]
    rcases hxl with rfl | hxl
    · exact Nat.lt_succ_self _
    · exact Nat.lt_succ_of_lt (h.live_lt x hxl)

/-- Linking two contexts, of which a variable refers to the remote. -/
theorem link (h : s.Alive) {c r : CtxId} (hcr : c ≠ r) (hc : s.Unlinked c) (hu : s.Unlinked r)
    (hrr : s.Root r) : ({ s with ctx := s.linkedCtx c r } : State n).Alive := by
  have hcs : s.strongOf c = none := congrArg BuddySocketContextPtr.strong hc
  have hrs : s.strongOf r = none := congrArg BuddySocketContextPtr.strong hu
  constructor
  · rintro x (hx | ⟨y, hy, hyx⟩)
    · exact h.live_of_owned x (.inl hx)
    · rw [strongOf_linkedCtx hcr] at hyx
      split_ifs at hyx with hyc hyr
      · exact h.live_of_owned x (.inl (Option.some.inj hyx ▸ hrr))
      · exact h.live_of_owned x (.inr ⟨y, hy, hyx⟩)
  · intro x hx
    rcases h.owned_of_live x hx with hx | ⟨y, hy, hyx⟩
    · exact .inl hx
    · refine .inr ⟨y, hy, ?_⟩
      have hyc : y ≠ c := by
        rintro rfl
        rw [hcs] at hyx
        cases hyx
      have hyr : y ≠ r := by
        rintro rfl
        rw [hrs] at hyx
        cases hyx
      rw [strongOf_linkedCtx hcr, if_neg hyc, if_neg hyr]
      exact hyx
  · exact h.live_lt

/-- Taking an entry off the list and giving up the reference it was. -/
theorem erase_release (h : s.Alive) (x : CtxId) :
    (({ s with clientContext := s.clientContext.erase x } : State n).release x).Alive := by
  have hb : ({ s with clientContext := s.clientContext.erase x } : State n).AliveBut x :=
    h.but (fun z hz => hz.imp_left List.mem_of_mem_erase)
      (fun z hzx hz => hz.imp_left (List.mem_erase_of_ne hzx).mpr) (fun _ => rfl) rfl rfl
  exact hb.release

theorem cleanClientList (h : s.Alive) : s.cleanClientList.Alive := by
  unfold State.cleanClientList
  generalize s.clientContext = l
  induction l generalizing s with
  | nil => exact h
  | cons x l ih => exact ih (h.erase_release x)

end Alive

/-- Taking a context off the list that another variable refers to loses no reference. -/
theorem root_erase_iff {x : CtxId} (hx : s.accept.Holds x ∨ ∃ w, (s.worker w).Holds x)
    (z : CtxId) :
    ({ s with clientContext := s.clientContext.erase x } : State n).Root z ↔ s.Root z := by
  refine ⟨fun hz => hz.imp_left List.mem_of_mem_erase, fun hz => ?_⟩
  by_cases hzx : z = x
  · exact .inr (hzx ▸ hx)
  · exact hz.imp_left (List.mem_erase_of_ne hzx).mpr

/-- A worker that refers to the same contexts as before. -/
theorem root_setWorker_iff {w : Fin n} {v : Worker} {z : CtxId}
    (h : v.Holds z ↔ (s.worker w).Holds z) : (s.setWorker w v).Root z ↔ s.Root z := by
  have hw : (∃ w', ((s.setWorker w v).worker w').Holds z) ↔ ∃ w', (s.worker w').Holds z := by
    refine exists_congr fun w' => ?_
    simp only [setWorker, Function.update_apply]
    split_ifs with hw
    · rw [h, hw]
    · exact Iff.rfl
  exact or_congr_right (or_congr_right hw)

/-- A worker that refers to more contexts than before. -/
theorem root_of_setWorker {w : Fin n} {v : Worker} {z : CtxId} (h : (s.setWorker w v).Root z) :
    s.Root z ∨ v.Holds z := by
  rcases h with h | h | ⟨w', h⟩
  · exact .inl (.inl h)
  · exact .inl (.inr (.inl h))
  · simp only [setWorker, Function.update_apply] at h
    split_ifs at h with hw
    · exact .inr h
    · exact .inl (.inr (.inr ⟨w', h⟩))

theorem root_setWorker {w : Fin n} {v : Worker} {z : CtxId}
    (h : (s.worker w).Holds z → v.Holds z) (hz : s.Root z) : (s.setWorker w v).Root z := by
  rcases hz with hz | hz | ⟨w', hz⟩
  · exact .inl hz
  · exact .inr (.inl hz)
  · refine .inr (.inr ⟨w', ?_⟩)
    simp only [setWorker, Function.update_apply]
    split_ifs with hw
    · exact h (hw ▸ hz)
    · exact hz

end State

end IocpProxy
