import IocpProxy.Proxy.Handles

/-!
# Linking in any order

`BuddySocketContextPtr::Set` owns the new buddy only if that one has no buddy itself. `linking n`
makes contexts and links them in any order, while the references to them from outside come and go.
Owning makes no cycle: its newest reference would lead to a context that owned something before,
and `Set` does not own such a context.

The references from outside are the entries of `g_ClientContext`.

## Main definitions

* `IocpProxy.linking` : the transition system.
* `IocpProxy.State.Owns` : the graph of the owning buddy pointers.
* `IocpProxy.State.Tidy` : the invariant.

## Main results

* `IocpProxy.ownership_acyclic`.
-/

namespace IocpProxy

open State

variable {n : ℕ} {s s' : State n}

/-! ### The system -/

/-- What can happen to contexts and to the references to them. -/
inductive LinkAction
  /-- A context is made for a socket with this number. -/
  | make (v : ℕ)
  /-- Another reference to a context is stored. -/
  | take (x : CtxId)
  /-- A reference from outside is given up. -/
  | drop (x : CtxId)
  /-- `SetBuddySocketContext` on `x`, with the context `sc`. -/
  | link (x sc : CtxId)
  deriving DecidableEq

/-- A step on the contexts. -/
def linkStep (s : State n) : LinkAction → Option (State n)
  | .make v =>
    if s.handles.owner v = none then
      some { s.make { SocketContext.new with socket := some (s.handles.fresh v) } with
        handles := s.handles.open v
        clientContext := s.clientContext ++ [s.next] }
    else none
  | .take x =>
    if x ∈ s.live then some { s with clientContext := s.clientContext ++ [x] } else none
  | .drop x =>
    if x ∈ s.clientContext then
      some (({ s with clientContext := s.clientContext.erase x } : State n).release x)
    else none
  | .link x sc =>
    if x ∈ s.live ∧ sc ∈ s.live ∧ x ≠ sc then some (s.setBuddySocketContext x sc) else none

/-- Contexts that are linked in any order. -/
def linking (n : ℕ) : TransitionSystem (State n) LinkAction where
  init := .initial n
  step := linkStep

namespace State

/-- The living context `x` owns `y`. -/
def Owns (s : State n) : CtxId → CtxId → Prop := Ownership.Refers s.strongOf s.live

/-- What always holds of contexts that are linked in any order. -/
structure Tidy (s : State n) : Prop extends s.Accounted where
  alive : s.Alive
  acyclic : Ownership.Acyclic s.strongOf s.live
  idle : ∀ x, ¬ s.accept.Holds x ∧ ∀ w, ¬ (s.worker w).Holds x
  noListen : s.listenSocket = none

/-- The references from outside are the entries of the list. -/
theorem Tidy.root_iff (h : s.Tidy) {x : CtxId} : s.Root x ↔ x ∈ s.clientContext :=
  ⟨fun hx => hx.resolve_right fun ho => ho.elim (h.idle x).1 fun ⟨w, hw⟩ => (h.idle x).2 w hw,
    .inl⟩

/-! ### Linking -/

/-- Without a buddy, a context owns nothing. -/
theorem strongOf_of_getBuddy {x : CtxId} (h : s.getBuddySocketContext x = none) :
    s.strongOf x = none := by
  cases hx : s.strongOf x with
  | none => rfl
  | some y =>
    have hstrong : (s.ctx x).buddy.strong = some y := hx
    simp [getBuddySocketContext, BuddySocketContextPtr.get, hstrong] at h

/-- The memory after `Set`, before the buddy owned so far is given up. -/
theorem strongOf_setBuddy (s : State n) (x sc : CtxId) :
    (s.setBuddySocketContext x sc).strongOf = Function.update s.strongOf x
      (if s.getBuddySocketContext sc = none then some sc else none) := by
  funext z
  by_cases hz : z = x
  · subst hz
    simp only [strongOf, setBuddySocketContext, releaseOpt_frame, setCtx, Function.update_self]
    split_ifs <;> rfl
  · simp [strongOf, setBuddySocketContext, setCtx, Function.update_of_ne hz]

/-- A living context gets another buddy pointer, and what it owned so far is given up. -/
theorem Alive.relink (h : s.Alive) (x : CtxId) {b : BuddySocketContextPtr}
    (hb : ∀ y ∈ b.strong, y ∈ s.live) :
    ((s.setCtx x { s.ctx x with buddy := b }).releaseOpt (s.strongOf x)).Alive := by
  have hself : (s.setCtx x { s.ctx x with buddy := b }).strongOf x = b.strong := by
    simp [strongOf, setCtx]
  have hother : ∀ z ≠ x, (s.setCtx x { s.ctx x with buddy := b }).strongOf z = s.strongOf z :=
    fun z hz => by simp [strongOf, setCtx, Function.update_of_ne hz]
  have hlive : ∀ z, (s.setCtx x { s.ctx x with buddy := b }).Owned z → z ∈ s.live := by
    rintro z (hroot | ⟨y, hy, hyz⟩)
    · exact h.live_of_owned z (.inl hroot)
    · by_cases hyx : y = x
      · exact hb z (hself.symm.trans (hyx ▸ hyz))
      · exact h.live_of_owned z (.inr ⟨y, hy, (hother y hyx).symm.trans hyz⟩)
  have howned : ∀ z ∈ s.live, s.strongOf x ≠ some z →
      (s.setCtx x { s.ctx x with buddy := b }).Owned z := by
    intro z hz hxz
    rcases h.owned_of_live z hz with hroot | hstrong
    · exact .inl hroot
    · obtain ⟨y, hy, hyz⟩ := hstrong
      have hyx : y ≠ x := by
        rintro rfl
        exact hxz hyz
      exact .inr ⟨y, hy, (hother y hyx).trans hyz⟩
  cases hx : s.strongOf x with
  | none => exact ⟨hlive, fun z hz => howned z hz (by simp [hx]), h.live_lt⟩
  | some o =>
    refine AliveBut.release ⟨hlive, fun z hz hzo => howned z hz fun e => hzo ?_, h.live_lt⟩
    exact Option.some.inj (e.symm.trans hx)

/-- Giving up a possibly null reference leaves fewer contexts. -/
theorem live_releaseOpt_subset (s : State n) (o : Option CtxId) :
    (s.releaseOpt o).live ⊆ s.live := by
  cases o with
  | none => exact Finset.Subset.refl _
  | some x => exact Finset.filter_subset _ _

/-- Linking two different living contexts, whatever they were linked to. -/
theorem Tidy.setBuddy (h : s.Tidy) {x sc : CtxId} (hsc : sc ∈ s.live) (hne : x ≠ sc) :
    (s.setBuddySocketContext x sc).Tidy where
  toAccounted := by
    refine h.toAccounted.releaseOpt (fun z => ?_) rfl rfl rfl rfl rfl
    by_cases hz : z = x
    · subst hz
      simp [setCtx]
    · simp [setCtx, Function.update_of_ne hz]
  alive := by
    refine h.alive.relink x fun y hy => ?_
    split_ifs at hy
    · exact Option.some.inj hy ▸ hsc
    · cases hy
  acyclic := by
    have hmem : ∀ {z}, z ∈ (s.setBuddySocketContext x sc).live → z ∈ s.live := fun hz =>
      live_releaseOpt_subset (s.setCtx x _) (s.strongOf x) hz
    rw [strongOf_setBuddy]
    split_ifs with hget
    · exact (h.acyclic.update hne (strongOf_of_getBuddy hget)).mono fun a b hab =>
        ⟨hmem hab.1, hab.2⟩
    · refine h.acyclic.mono fun a b hedge => ⟨hmem hedge.1, ?_⟩
      have hab := hedge.2
      by_cases hax : a = x
      · simp [hax] at hab
      · exact (Function.update_of_ne hax _ _).symm.trans hab
  idle := by simpa [setBuddySocketContext, setCtx] using h.idle
  noListen := by simpa [setBuddySocketContext, setCtx] using h.noListen

/-! ### References from outside -/

/-- A new context, with a reference to it. -/
theorem Tidy.make (h : s.Tidy) {v : ℕ} (hv : s.handles.owner v = none) :
    ({ s.make { SocketContext.new with socket := some (s.handles.fresh v) } with
      handles := s.handles.open v
      clientContext := s.clientContext ++ [s.next] } : State n).Tidy where
  toAccounted := h.toAccounted.make hv rfl rfl rfl rfl rfl rfl rfl
  alive := by
    refine h.alive.make rfl (fun x => ?_) rfl rfl rfl
    simp only [Root, List.mem_append, List.mem_singleton]
    exact or_right_comm
  acyclic := by
    refine h.acyclic.mono fun a b hedge => ?_
    obtain ⟨ha, hab⟩ := hedge
    by_cases han : a = s.next
    · simp [strongOf, State.make, han, SocketContext.new] at hab
    · exact ⟨(Finset.mem_insert.mp ha).resolve_left han,
        by simpa [strongOf, State.make, Function.update_of_ne han] using hab⟩
  idle := h.idle
  noListen := h.noListen

/-- One more reference to a living context. -/
theorem Tidy.take (h : s.Tidy) {x : CtxId} (hx : x ∈ s.live) :
    ({ s with clientContext := s.clientContext ++ [x] } : State n).Tidy where
  toAccounted := h.toAccounted.congr (fun _ => rfl) rfl rfl rfl rfl (.inl h.noListen)
  alive := by
    refine h.alive.of_root (fun z hz => ?_) (fun z hz => hz.imp_left (List.mem_append_left _))
      (fun _ => rfl) rfl rfl
    rcases hz with hz | hz
    · rcases List.mem_append.mp hz with hz | hz
      · exact h.alive.live_of_owned z (.inl (.inl hz))
      · exact List.mem_singleton.mp hz ▸ hx
    · exact h.alive.live_of_owned z (.inl (.inr hz))
  acyclic := h.acyclic
  idle := h.idle
  noListen := h.noListen

/-- One reference less. -/
theorem Tidy.drop (h : s.Tidy) (x : CtxId) :
    (({ s with clientContext := s.clientContext.erase x } : State n).release x).Tidy where
  toAccounted := h.toAccounted.releaseOpt (o := some x) (fun _ => rfl) rfl rfl rfl rfl rfl
  alive := h.alive.erase_release x
  acyclic := h.acyclic.mono fun _ _ hab => ⟨(Finset.mem_filter.mp hab.1).1, hab.2⟩
  idle := h.idle
  noListen := h.noListen

theorem tidy_initial : (State.initial n).Tidy where
  toAccounted := (accounted_of_reachable .init).2
  alive := sound_initial.alive
  acyclic x hx := by
    obtain ⟨y, hy, -⟩ := Relation.TransGen.head'_iff.mp hx
    exact absurd hy.1 (Finset.notMem_empty x)
  idle := by simp [initial, AcceptThread.Holds, Worker.Holds]
  noListen := rfl

theorem tidy_of_reachable {G : State n → LinkAction → Prop} (hs : (linking n).Reachable G s) :
    s.Tidy := by
  refine hs.invariant tidy_initial fun s a s' h _ hstep => ?_
  change linkStep s a = some s' at hstep
  cases a with
  | make v =>
    obtain ⟨hv, ⟨⟩⟩ := Option.ite_none_right_eq_some.mp hstep
    exact h.make hv
  | take x =>
    obtain ⟨hx, ⟨⟩⟩ := Option.ite_none_right_eq_some.mp hstep
    exact h.take hx
  | drop x =>
    obtain ⟨-, ⟨⟩⟩ := Option.ite_none_right_eq_some.mp hstep
    exact h.drop x
  | link x sc =>
    obtain ⟨⟨-, hsc, hne⟩, ⟨⟩⟩ := Option.ite_none_right_eq_some.mp hstep
    exact h.setBuddy hsc hne

end State

/-- Whatever order contexts are linked in, owning makes no cycle, a context that no reference from
outside leads to is destroyed, and the socket of a context is closed once, when the context is
destroyed. -/
theorem ownership_acyclic (hs : (linking n).Reachable (fun _ _ => True) s) :
    (∀ x, ¬ Relation.TransGen s.Owns x x) ∧
    (∀ x, (∀ r ∈ s.clientContext, ¬ Relation.ReflTransGen s.Owns r x) → x ∉ s.live) ∧
    ∀ x < s.next, ∃ h ∈ (s.ctx x).socket,
      (s.handles.closed.map Closing.arg).count (some h) = if x ∈ s.live then 0 else 1 := by
  have htidy := tidy_of_reachable hs
  refine ⟨htidy.acyclic, fun x hout hx => ?_, fun x hx => ?_⟩
  · obtain ⟨r, -, hroot, hpath⟩ := htidy.acyclic.exists_root htidy.alive.owned_of_live hx
    exact hout r (htidy.root_iff.mp hroot) hpath
  · obtain ⟨h, hh, hissued⟩ := htidy.issued x hx
    have hused : s.InUse h ↔ x ∈ s.live := by
      simp only [InUse, htidy.noListen, reduceCtorEq, false_and, false_or]
      refine ⟨fun huse => ?_, fun hlive => ⟨x, hlive, hh⟩⟩
      obtain ⟨y, hy, hyh⟩ := huse
      exact htidy.inj y (htidy.live_lt y hy) x hx (hyh.trans hh.symm) ▸ hy
    exact ⟨h, hh, (htidy.balanced.count_closed hissued).trans (if_congr hused rfl rfl)⟩

/-- The first context is linked to the second, back, and then to the third; the references to the
second and the third are given up. -/
def relinked : List LinkAction :=
  [.make 10, .make 11, .make 12, .link 0 1, .link 1 0, .link 0 2, .link 2 1, .drop 1, .drop 2]

/-- The third context lives on, owned by the first; the second is destroyed. -/
theorem ownership_acyclic_run :
    ∃ s : State 0, s.Owns 0 2 ∧ ¬ Relation.TransGen s.Owns 0 0 ∧ 1 ∉ s.live ∧
      (s.handles.closed.map Closing.arg).count (some ⟨11, 1⟩) = 1 := by
  obtain ⟨s, hs, hlive, hown, hsock, hnext⟩ : ∃ s : State 0,
      (linking 0).Reachable (fun _ _ => True) s ∧ s.live = {0, 2} ∧ s.strongOf 0 = some 2 ∧
        (s.ctx 1).socket = some ⟨11, 1⟩ ∧ s.next = 3 :=
    TransitionSystem.exists_reachable_of_runChecked relinked (by decide +kernel)
  obtain ⟨hacyclic, -, hclosed⟩ := ownership_acyclic hs
  obtain ⟨h, hh, hcount⟩ := hclosed 1 (by simp [hnext])
  obtain rfl : h = ⟨11, 1⟩ := (Option.some.inj (hsock.symm.trans hh)).symm
  have hdead : 1 ∉ s.live := by simp [hlive]
  exact ⟨s, ⟨by simp [hlive], hown⟩, hacyclic 0, hdead, by rw [hcount, if_neg hdead]⟩

end IocpProxy
