import IocpProxy.Proxy.Operations

/-!
# Pairs of contexts are isolated

When every completion is dequeued with the context that posted its operation, a worker only ever
handles contexts that are linked and were put on the list, together with their buddy, and what it
reaches through the buddy pointer is the other context of the same call of `AcceptConnection`.

## Main definitions

* `IocpProxy.IdealKeys` : every completion is dequeued with the context of its operation.
* `IocpProxy.State.Listed` : the list holds linked contexts, each at most once.
* `IocpProxy.State.Settled`, `IocpProxy.State.Served`.

## Main results

* `IocpProxy.State.listed_of_reachable`, `IocpProxy.State.served_of_reachable`.
* `IocpProxy.pair_isolation`.
-/

namespace IocpProxy

variable {n : ℕ} {s s' : State n}

/-- The completion key of a dequeued operation leads to the context that posted it. -/
def IdealKeys (_ : State n) : Action n → Prop
  | .worker _ (.dequeue o c) => c = o.ctx
  | _ => True

instance (s : State n) : DecidablePred (IdealKeys s)
  | .worker _ (.dequeue o c) => inferInstanceAs (Decidable (c = o.ctx))
  | .worker _ .ok | .worker _ .fail | .main _ | .accept _ | .net _ =>
    instDecidableTrue

open State

/-! ### Links once made stay -/

/-- The buddy pointer of a linked context never changes. -/
theorem Move.buddy_eq {a : Action n} (hm : Move s a s') (h : s.Sound) {x y : CtxId}
    (hp : s.Partner x y) : (s'.ctx x).buddy = (s.ctx x).buddy := by
  rcases hm with hm | hm | hm | hm
  · rw [hm.frame.1]
  · have hx : x < s.next := h.paired.partner_lt hp
    have same : s'.ctx x = s.ctx x → (s'.ctx x).buddy = (s.ctx x).buddy := congrArg _
    cases hm with
    | accepted => exact same (Function.update_of_ne hx.ne _ _)
    | remoteMade => exact same (Function.update_of_ne hx.ne _ _)
    | @linked c r hpc hc hr =>
      obtain ⟨hcr, hfc, hfr, -⟩ := h.acceptOk.at_link hpc hc hr
      have hne : ∀ {z}, s.Unlinked z → x ≠ z := by
        rintro z hz rfl
        simp [Partner, strongOf, weakOf, show (s.ctx x).buddy = ⟨none, none⟩ from hz] at hp
      refine same ?_
      rw [linked_eq hcr hfc.1 hfr.1]
      simp only [acceptAt, linkedCtx, Function.update_of_ne (hne hfr.1),
        Function.update_of_ne (hne hfc.1)]
    | posted | notPosted => exact ((SameLinks.resetRecv _).1 x).1
    | exitClosed | exitRemoved | exitNulled | returned =>
      refine same ?_
      simp [State.acceptAt, State.exitNulled, State.acceptReturned]
    | _ => exact same rfl
  · exact (hm.sameLinks.1 x).1
  · exact (hm.sameLinks.1 x).1

/-- Linked contexts stay linked. -/
theorem Move.partner_mono {a : Action n} (hm : Move s a s') (h : s.Sound) {x y : CtxId}
    (hp : s.Partner x y) : s'.Partner x y := by
  rwa [Partner, strongOf, weakOf, hm.buddy_eq h hp]

/-- The accept thread links only two contexts that are not yet on the list. -/
theorem AcceptMove.partner_cases {o : AcceptOutcome} (hm : AcceptMove s o s') (h : s.Sound)
    {x y : CtxId} (hp : s'.Partner x y) : s.Partner x y ∨ x ∉ s.added ∧ y ∉ s.added := by
  have same : s'.ctx x = s.ctx x → s.Partner x y := fun hc => by
    rwa [Partner, strongOf, weakOf, hc] at hp
  have make : ∀ {c : SocketContext}, c.buddy = ⟨none, none⟩ →
      s'.ctx = Function.update s.ctx s.next c → s.Partner x y := by
    intro c hc hctx
    by_cases hx : x = s.next
    · subst hx
      simp [Partner, strongOf, weakOf, hctx, hc] at hp
    · exact same (by rw [hctx, Function.update_of_ne hx])
  cases hm with
  | accepted | remoteMade => exact .inl (make rfl rfl)
  | @linked c r hpc hc hr =>
    obtain ⟨hcr, hfc, hfr, -⟩ := h.acceptOk.at_link hpc hc hr
    rw [linked_eq hcr hfc.1 hfr.1] at hp
    have hp' : ({ s with ctx := s.linkedCtx c r } : State n).Partner x y := hp
    rw [Partner, strongOf_linkedCtx hcr, weakOf_linkedCtx hcr] at hp'
    by_cases hxc : x = c
    · subst hxc
      simp only [if_pos, if_neg hcr, Option.some.injEq, reduceCtorEq, or_false] at hp'
      exact .inr ⟨hfc.2, hp' ▸ hfr.2⟩
    · by_cases hxr : x = r
      · subst hxr
        simp only [if_pos, if_neg hxc, Option.some.injEq, reduceCtorEq, false_or] at hp'
        exact .inr ⟨hfr.2, hp' ▸ hfc.2⟩
      · rw [if_neg hxc, if_neg hxr, if_neg hxr, if_neg hxc] at hp'
        exact .inl hp'
  | posted | notPosted =>
    exact .inl (((SameLinks.resetRecv _).trans (.of_ctx rfl rfl)).partner_iff.mp hp)
  | exitClosed | exitRemoved | exitNulled | returned =>
    refine .inl (same ?_)
    simp [State.acceptAt, State.exitNulled, State.acceptReturned]
  | _ => exact .inl (same rfl)

/-! ### The client list -/

namespace State

theorem cleanClientList_clientContext (s : State n) : s.cleanClientList.clientContext = [] := by
  unfold cleanClientList
  generalize hl : s.clientContext = l
  induction l generalizing s with
  | nil => exact hl
  | cons x l ih =>
    refine ih _ ?_
    change s.clientContext.erase x = l
    rw [hl, List.erase_cons_head]

theorem removeFromClientList_sublist (s : State n) (o : Option CtxId) :
    (s.removeFromClientList o).clientContext.Sublist s.clientContext := by
  cases o with
  | none => exact List.Sublist.refl _
  | some x => exact List.erase_sublist

end State

/-- A step puts at most one context on the list, the next one of the accept thread. -/
theorem Move.list_cases {a : Action n} (hm : Move s a s') :
    (s'.clientContext.Sublist s.clientContext ∧ s'.added = s.added) ∨
      ∃ d x, s.accept.pc = .add d ∧ s.accept.side d = some x ∧
        s'.clientContext = s.clientContext ++ [x] ∧ s'.added = insert x s.added := by
  rcases hm with hm | hm | hm | hm
  · refine .inl ⟨?_, hm.frame.2.2.2.1⟩
    cases hm with
    | sweep =>
      change s.cleanClientList.clientContext.Sublist _
      rw [cleanClientList_clientContext]
      exact List.nil_sublist _
    | _ => exact List.Sublist.refl _
  · cases hm with
    | added hpc hx => exact .inr ⟨_, _, hpc, hx, rfl, rfl⟩
    | linked hpc hc hr =>
      obtain ⟨-, hadd, -, hlist, -⟩ := s.linked_frame _ _
      exact .inl ⟨hlist ▸ List.Sublist.refl _, hadd⟩
    | associateFailed => exact .inl ⟨s.removeFromClientList_sublist (some _), rfl⟩
    | exitRemoved =>
      exact .inl ⟨s.removeFromClientList_sublist _, by simp [acceptAt]⟩
    | exitClosed | exitNulled | returned =>
      simp [State.exitNulled, State.acceptReturned]
    | _ => exact .inl ⟨List.Sublist.refl _, rfl⟩
  · refine .inl ⟨?_, hm.frame.2.2.1⟩
    cases hm with
    | removed => exact s.removeFromClientList_sublist (some _)
    | _ => exact List.Sublist.refl _
  · exact .inl ⟨hm.frame.2.2.2.2.2.2.2.2.1 ▸ List.Sublist.refl _, hm.frame.2.2.1⟩

/-- Contexts that were put on the list stay marked so. -/
theorem Move.added_subset {a : Action n} (hm : Move s a s') : s.added ⊆ s'.added := by
  rcases hm.list_cases with ⟨-, h⟩ | ⟨d, x, -, -, -, h⟩
  · exact h.ge
  · exact h ▸ Finset.subset_insert _ _

namespace State

/-- The list holds contexts that were linked before they were put on it, each once. -/
structure Listed (s : State n) : Prop where
  added : ∀ x ∈ s.clientContext, x ∈ s.added
  nodup : s.clientContext.Nodup
  linked : ∀ x ∈ s.added, ∃ y, s.Partner x y

theorem AcceptOk.not_added (h : s.AcceptOk) {d : Side} {x : CtxId} (hpc : s.accept.pc = .add d)
    (hx : s.accept.side d = some x) : x ∉ s.added ∧ ∃ c r, s.Accepting c r ∧ (x = c ∨ x = r) := by
  cases d with
  | client =>
    simp only [AcceptOk, hpc] at h
    obtain ⟨c, r, hacc, hc, hr⟩ := h
    obtain rfl : c = x := Option.some.inj (hacc.1.symm.trans hx)
    exact ⟨hc, c, r, hacc, .inl rfl⟩
  | remote =>
    simp only [AcceptOk, hpc] at h
    obtain ⟨c, r, hacc, hc, hr⟩ := h
    obtain rfl : r = x := Option.some.inj (hacc.2.1.symm.trans hx)
    exact ⟨hr, c, r, hacc, .inr rfl⟩

theorem Listed.step {a : Action n} (h : s.Listed) (hs : s.Sound) (hm : Move s a s') :
    s'.Listed := by
  rcases hm.list_cases with ⟨hsub, hadd⟩ | ⟨d, x, hpc, hx, hlist, hadd⟩
  · refine ⟨fun z hz => ?_, hsub.nodup h.nodup, fun z hz => ?_⟩
    · exact hadd ▸ h.added z (hsub.subset hz)
    · obtain ⟨y, hy⟩ := h.linked z (hadd ▸ hz)
      exact ⟨y, hm.partner_mono hs hy⟩
  · obtain ⟨hnot, c, r, hacc, hxc⟩ := hs.acceptOk.not_added hpc hx
    refine ⟨fun z hz => ?_, ?_, fun z hz => ?_⟩
    · rw [hlist, List.mem_append, List.mem_singleton] at hz
      rw [hadd, Finset.mem_insert]
      exact hz.symm.imp_right (h.added z)
    · rw [hlist]
      have hmem : x ∉ s.clientContext := fun hm' => hnot (h.added x hm')
      simpa [List.nodup_append, h.nodup] using fun z hz (e : z = x) => hmem (e ▸ hz)
    · rw [hadd, Finset.mem_insert] at hz
      rcases hz with rfl | hz
      · rcases hxc with rfl | rfl
        · exact ⟨r, hm.partner_mono hs (.inl hacc.2.2)⟩
        · exact ⟨c, hm.partner_mono hs (hs.paired.partner_symm (.inl hacc.2.2))⟩
      · obtain ⟨y, hy⟩ := h.linked z hz
        exact ⟨y, hm.partner_mono hs hy⟩

theorem listed_of_reachable {G : State n → Action n → Prop} (hs : (proxy n).Reachable G s) :
    s.Listed := by
  refine hs.invariant_step ⟨?_, List.nodup_nil, ?_⟩ fun s a s' hr h _ hstep =>
    h.step (sound_of_reachable hr) (step_move hstep).2.2
  · simp [proxy, initial]
  · simp [proxy, initial]

/-! ### What the workers handle -/

/-- A context that is linked and was put on the list together with its buddy. -/
def Settled (s : State n) (x : CtxId) : Prop :=
  x ∈ s.added ∧ ∃ y, s.Partner x y ∧ y ∈ s.added

theorem Settled.partner (h : s.Settled x) (hs : s.Sound) {y : CtxId} (hp : s.Partner x y) :
    s.Settled y := by
  obtain ⟨hx, z, hz, hza⟩ := h
  obtain rfl := hs.paired.partner_unique hp hz
  exact ⟨hza, x, hs.paired.partner_symm hp, hx⟩

theorem Settled.step {a : Action n} {x : CtxId} (h : s.Settled x) (hs : s.Sound)
    (hm : Move s a s') : s'.Settled x := by
  obtain ⟨hx, y, hy, hya⟩ := h
  exact ⟨hm.added_subset hx, y, hm.partner_mono hs hy, hm.added_subset hya⟩

/-- Operations and workers have to do with settled contexts only, and a worker sends on the
partner of the context whose completion it handles. -/
structure Served (s : State n) : Prop where
  ops : ∀ k x, 0 < s.outstanding k x → s.Settled x
  jobs : ∀ w j st, s.worker w = .busy j st → j.owner = j.ctx ∧ s.Settled j.ctx
  targets : ∀ w j b, s.worker w = .busy j (.send b) ∨ s.worker w = .busy j (.fill b) →
    s.Partner j.ctx b

/-- The context an action posts an operation on is settled. -/
theorem Served.posts (h : s.Served) (hs : s.Sound) {a : Action n} {k : OpKind} {x : CtxId}
    (hp : s.posts a = some (k, x)) : s.Settled x := by
  rcases posts_eq_some hp with ⟨d, -, hpc, hx, -⟩ | ⟨w, j, -, -, hw, -⟩ | ⟨w, j, -, hw, rfl, -⟩
  · have hok := hs.acceptOk
    simp only [AcceptOk, hpc] at hok
    obtain ⟨c, r, hacc, hc, hr⟩ := hok
    have hset : s.Settled c := ⟨hc, r, .inl hacc.2.2, hr⟩
    cases d with
    | client => exact Option.some.inj (hacc.1.symm.trans hx) ▸ hset
    | remote => exact Option.some.inj (hacc.2.1.symm.trans hx) ▸ hset.partner hs (.inl hacc.2.2)
  · exact (h.jobs w j _ hw).2.partner hs (h.targets w j x (.inr hw))
  · exact (h.jobs w j _ hw).2

theorem Served.step {a : Action n} (h : s.Served) (hs : s.Sound) (hG : IdealKeys s a)
    (hm : Move s a s') : s'.Served := by
  have hops : ∀ k x, 0 < s'.outstanding k x → s'.Settled x := fun k x hx =>
    ((hm.outstanding_pos hx).elim (h.ops k x) (h.posts hs)).step hs hm
  have hmono := fun x y => hm.partner_mono hs (x := x) (y := y)
  have hstay : ∀ x, s.Settled x → s'.Settled x := fun x hx => hx.step hs hm
  refine ⟨hops, fun w j st hj => ?_, fun w j b hj => hmono _ _ ?_⟩
  · rcases hm.busy hj with hw | ⟨op, c, ok, bytes, rfl, ho, hst, rfl, rfl⟩ | ⟨o, st₀, rfl, hw, -⟩
    · obtain ⟨ho, hset⟩ := h.jobs w j st hw
      exact ⟨ho, hstay _ hset⟩
    · have hc : c = op.ctx := hG
      have hset : s.Settled c := hc ▸ h.ops _ _ (outstanding_pos ho)
      exact ⟨hc.symm, hstay c hset⟩
    · obtain ⟨ho, hset⟩ := h.jobs w j st₀ hw
      exact ⟨ho, hstay _ hset⟩
  · have hold : ∀ {st}, s'.worker w = .busy j st → st = .send b ∨ st = .fill b →
        s.Partner j.ctx b := fun hw hst => (hm.target hw hst).elim id (h.targets w j b)
    rcases hj with hj | hj
    · exact hold hj (.inl rfl)
    · exact hold hj (.inr rfl)

theorem served_initial : (initial n).Served :=
  ⟨by simp [initial, outstanding], by simp [initial], by simp [initial]⟩

theorem served_of_reachable (hs : (proxy n).Reachable IdealKeys s) : s.Served :=
  hs.invariant_step served_initial fun _ _ _ hr h hG hstep =>
    h.step (sound_of_reachable hr) hG (step_move hstep).2.2

end State

/-! ### The pairs -/

/-- The buddy of a context is the other context of its `AcceptConnection` call: the client's
buddy lives as long as the client, and the remote sees no buddy exactly once its client is
destroyed. The workers only handle contexts that are linked and were put on the list. -/
theorem pair_isolation (hs : (proxy n).Reachable IdealKeys s) :
    (∀ x y, s.getBuddySocketContext x = some y →
      x ≠ y ∧ (s.ctx y).conn = (s.ctx x).conn ∧
        ∀ z < s.next, (s.ctx z).conn = (s.ctx x).conn → z = x ∨ z = y) ∧
    (∀ c r, s.Partner c r → (s.ctx c).proxySocket = false → c ∈ s.live →
      s.getBuddySocketContext c = some r ∧ r ∈ s.live) ∧
    (∀ r c, s.Partner r c → (s.ctx r).proxySocket = true →
      (s.getBuddySocketContext r = none ↔ c ∉ s.live)) ∧
    ∀ w j st, s.worker w = .busy j st → ∀ x, x = j.ctx ∨ x = j.owner →
      x ∈ s.added ∧ ∃ y, s.Partner x y := by
  have hsound := sound_of_reachable hs
  have hserved := served_of_reachable hs
  have hpair := hsound.paired
  refine ⟨fun x y hb => ?_, fun c r hp hc hlive => ?_, fun r c hp hr => ?_,
    fun w j st hw x hx => ?_⟩
  · have hp := Paired.partner_of_getBuddy hb
    have hconn : (s.ctx y).conn = (s.ctx x).conn ∧
        (s.ctx y).proxySocket = !(s.ctx x).proxySocket := by
      rcases hp with hp | hp
      · obtain ⟨h₁, h₂, h₃⟩ := hpair.conn hp
        exact ⟨h₁.symm, by rw [h₂, h₃]; rfl⟩
      · obtain ⟨h₁, h₂, h₃⟩ := hpair.conn (hpair.back hp)
        exact ⟨h₁, by rw [h₂, h₃]; rfl⟩
    have hx := hpair.partner_lt hp
    have hy := hpair.partner_lt (hpair.partner_symm hp)
    refine ⟨hpair.partner_ne hp, hconn.1, fun z hz hzx => ?_⟩
    by_cases hflag : (s.ctx z).proxySocket = (s.ctx x).proxySocket
    · exact .inl (hsound.conn_inj z hz x hx hzx hflag)
    · refine .inr (hsound.conn_inj z hz y hy (hzx.trans hconn.1.symm) ?_)
      rw [hconn.2]
      exact Bool.eq_not.mpr hflag
  · have hstrong : s.strongOf c = some r := by
      rcases hp with hp | hp
      · exact hp
      · have hflag := (hpair.conn (hpair.back hp)).2.2
        rw [hc] at hflag
        cases hflag
    have hr : r ∈ s.live := hsound.alive.live_of_owned r (.inr ⟨c, hlive, hstrong⟩)
    refine ⟨?_, hr⟩
    rw [getBuddySocketContext, BuddySocketContextPtr.get,
      show (s.ctx c).buddy.strong = some r from hstrong]
  · have hweak : s.strongOf r = none ∧ s.weakOf r = some c := by
      rcases hp with hp | hp
      · have hflag := (hpair.conn hp).2.1
        rw [hr] at hflag
        cases hflag
      · exact ⟨(hpair.own (hpair.back hp)).2.1, hp⟩
    rw [getBuddySocketContext, BuddySocketContextPtr.get,
      show (s.ctx r).buddy.strong = none from hweak.1,
      show (s.ctx r).buddy.weak = some c from hweak.2]
    simp [Option.filter_eq_none_iff]
  · obtain ⟨ho, hadd, y, hy, -⟩ := hserved.jobs w j st hw
    obtain rfl : x = j.ctx := hx.elim id fun e => e.trans ho
    exact ⟨hadd, y, hy⟩

/-- The main thread starts the accept thread. -/
def startUp : List (Action 2) :=
  [.main .ok, .main (.socket 10), .main .ok, .main .ok, .main .ok, .main .ok, .main .ok]

/-- The calls of `InitRemoteConnection` all succeed, with the socket number `v`. -/
def remoteOk (v : ℕ) : InitCalls := ⟨true, some [], some v, true, true⟩

/-- `AcceptConnection` up to the first reads, for sockets with the numbers `v` and `v'`. -/
def connection (v v' : ℕ) : List (Action 2) :=
  [.accept (.socket v), .accept (.remote (remoteOk v')), .accept .ok, .accept (.slot 100),
    .accept .ok, .accept (.slot 100), .accept .ok, .accept .ok, .accept .ok, .accept .ok,
    .accept .ok, .accept .ok]

set_option maxRecDepth 10000 in
/-- Two connections are made, and a worker takes the end of the first one's client. -/
theorem pair_isolation_run :
    ∃ s : State 2, s.getBuddySocketContext 3 = some 2 ∧ 0 ∈ s.live ∧
      s.getBuddySocketContext 0 = some 1 ∧ 1 ∈ s.live := by
  obtain ⟨s, hs, h₃, h₀, hp, hf⟩ : ∃ s : State 2, (proxy 2).Reachable IdealKeys s ∧
      s.getBuddySocketContext 3 = some 2 ∧ 0 ∈ s.live ∧
        (s.ctx 0).buddy.strong = some 1 ∧ (s.ctx 0).proxySocket = false :=
    TransitionSystem.exists_reachable_of_runChecked (startUp ++ connection 11 12 ++
      connection 13 14 ++ [.net (.receive (.posted 0 .recv 2048) []),
        .worker 0 (.dequeue { Op.posted 0 .recv 2048 with status := .done true 0 } 0)])
      (by decide +kernel)
  have hiso := (pair_isolation hs).2.1 0 1 (.inl hp) hf h₀
  exact ⟨s, h₃, h₀, hiso⟩

end IocpProxy
