import IocpProxy.Proxy.Buffers

/-!
# The relayed stream

What a context receives comes out on its buddy. In between, a byte is in the receive record of the
source (`State.Waiting`) or in the send record of the buddy (`State.InFlight`).

## Main definitions

* `IocpProxy.State.InFlight`, `IocpProxy.State.Waiting`.
* `IocpProxy.State.Conveys`, `IocpProxy.State.Relayed` : the invariant.

## Main results

* `IocpProxy.relay_fidelity` : along runs that meet the condition the transmitted bytes are a
  prefix of the received ones.
* `IocpProxy.relay_fidelity_fails`.
-/

namespace IocpProxy

open State

variable {n : ℕ} {s s' : State n}

namespace State

/-! ### Bytes in the send record -/

/-- The bytes of the send record of `y` that are still to be transmitted are `l`. -/
def InFlight (s : State n) (y : CtxId) (l : List UInt8) : Prop :=
  (∀ o ∈ s.ops, o.Unsent y → l = (s.ctx y).ioSend.buffer.slice o.off (o.len - o.off)) ∧
    ((∀ o ∈ s.ops, ¬ o.Unsent y) → l = [])

theorem unsent_eq_zero_iff {y : CtxId} : s.unsent y = 0 ↔ ∀ o ∈ s.ops, ¬ o.Unsent y := by
  simp only [unsent, List.countP_eq_zero, decide_eq_true_eq]

/-- Besides the one send that transmits there is no other. -/
theorem not_unsent_of_mem_erase {y : CtxId} (h : s.unsent y ≤ 1) {o p : Op} (ho : o ∈ s.ops)
    (hu : o.Unsent y) (hp : p ∈ s.ops.erase o) : ¬ p.Unsent y := by
  intro hpu
  have hperm := (List.perm_cons_erase ho).countP_eq fun o => decide (o.Unsent y)
  have hpos : 0 < (s.ops.erase o).countP fun o => decide (o.Unsent y) :=
    List.countP_pos_iff.mpr ⟨p, hp, decide_eq_true hpu⟩
  rw [unsent, hperm, List.countP_cons, if_pos (decide_eq_true hu)] at h
  omega

theorem InFlight.congr {y : CtxId} {l : List UInt8} (h : s.InFlight y l)
    (hops : ∀ o, o.Unsent y → (o ∈ s'.ops ↔ o ∈ s.ops))
    (hbuf : (s'.ctx y).ioSend = (s.ctx y).ioSend ∨ s.unsent y = 0) : s'.InFlight y l := by
  refine ⟨fun o ho hu => ?_, fun hno => h.2 fun o ho hu => hno o ((hops o hu).mpr ho) hu⟩
  have ho' := (hops o hu).mp ho
  rcases hbuf with e | hzero
  · rw [e]
    exact h.1 o ho' hu
  · exact absurd hu (unsent_eq_zero_iff.mp hzero o ho')

/-! ### Bytes in the receive record -/

/-- The bytes in the receive record of `x` that are still to be forwarded are `c`. -/
def Waiting (s : State n) (x : CtxId) (c : List UInt8) : Prop :=
  (∀ o ∈ s.ops, o.ctx = x → o.kind = .recv →
    c = (s.ctx x).ioRecv.buffer.slice 0 o.delivered) ∧
  (∀ w j, (s.worker w).carries x = some j → c = (s.ctx x).ioRecv.buffer.slice 0 j.bytes) ∧
  (s.Vacant x → c = [])

theorem waiting_of_vacant {x : CtxId} (h : s.Vacant x) : s.Waiting x [] := by
  refine ⟨fun o ho hx hk => absurd hk (h.not_mem ho hx), fun w j hj => ?_, fun _ => rfl⟩
  rw [h.2 w] at hj
  cases hj

/-- A read of `x` is under way, or the accept thread is about to post the first one. -/
def Active (s : State n) (x : CtxId) : Prop := s.First x ∨ 0 < s.load x

/-- What is transmitted on `y` is the beginning of what `x` received. Unless the socket transmits
nothing any more, the bytes in the send record come next, and while reads go on, the bytes in the
receive record come after these and are the last ones. -/
def Conveys (s : State n) (x y : CtxId) : Prop :=
  s.sent y <+: s.received x ∧ (s.broken y = false → ∃ l, s.InFlight y l ∧
    s.sent y ++ l <+: s.received x ∧
    (s.Active x → ∃ c, s.Waiting x c ∧ s.sent y ++ l ++ c = s.received x))

/-- The bytes stay where they are. -/
theorem Conveys.of_stay {x y : CtxId} (h : s.Conveys x y) (hsent : s'.sent y = s.sent y)
    (hrec : s'.received x = s.received x) (hb : s.broken y = true → s'.broken y = true)
    (hin : ∀ l, s'.broken y = false → s.InFlight y l → s'.InFlight y l)
    (hwait : ∀ c, s'.Active x → s.Active x ∧ (s.Waiting x c → s'.Waiting x c)) :
    s'.Conveys x y := by
  rw [Conveys, hsent, hrec]
  refine ⟨h.1, fun hb' => ?_⟩
  have hopen : s.broken y = false := by
    by_contra hne
    rw [hb (Bool.eq_true_of_not_eq_false hne)] at hb'
    cases hb'
  obtain ⟨l, hl, hpre, hact⟩ := h.2 hopen
  refine ⟨l, hin l hb' hl, hpre, fun ha => ?_⟩
  obtain ⟨c, hc, heq⟩ := hact (hwait [] ha).1
  exact ⟨c, (hwait c ha).2 hc, heq⟩

/-- Nothing has come to contexts that are not settled. -/
theorem flow_of_vacant {x y : CtxId} (hrec : s.received x = []) (hsent : s.sent y = [])
    (hy : s.outstanding .send y = 0) (hx : s.Vacant x) : s.Conveys x y := by
  have hno : ∀ o ∈ s.ops, ¬ o.Unsent y := fun o ho hu => by
    have hpos : 0 < s.outstanding .send y := outstanding_pos_iff.mpr ⟨o, ho, hu.1, hu.2.1⟩
    omega
  rw [Conveys, hrec, hsent]
  exact ⟨List.nil_prefix, fun _ => ⟨[], ⟨fun o ho hu => absurd hu (hno o ho), fun _ => rfl⟩,
    List.nil_prefix, fun _ => ⟨[], waiting_of_vacant hx, rfl⟩⟩⟩

/-! ### The steps that move no bytes -/

end State

/-- A socket that transmits nothing any more stays so. -/
theorem Move.broken_mono {a : Action n} (hm : Move s a s') {y : CtxId}
    (h : s.broken y = true) : s'.broken y = true := by
  rcases hm with hm | hm | hm | hm
  · exact hm.kept.2 y h
  · rcases hm.ops_eq with ⟨hk, -⟩ | ⟨-, -, hb, -⟩
    · exact hk.2 y h
    · rwa [hb]
  · rcases hm.ops_eq with hk | ⟨_, _, -, -, -, hb, -⟩ | ⟨_, -, -, hb, -⟩ |
      ⟨_, _, _, -, -, -, hk⟩
    · exact hk.2 y h
    · rwa [hb]
    · rwa [hb]
    · exact hk.2 y h
  · cases hm with
    | failed => simp [opFailed, h]
    | _ => exact h

/-- The bytes in a send record are transmitted by the network only. -/
theorem Move.inFlight {a : Action n} (hm : Move s a s') (hz : s.Prepared) (ho : s.Orderly)
    (hf : s.fault = none) (hG : Undisturbed s a) (hnet : ∀ b, a ≠ .net b) {x y : CtxId}
    (hp : s.Partner x y) (hposts : s.posts a ≠ some (.send, y)) (hb : s'.broken y = false)
    {l : List UInt8} (h : s.InFlight y l) : s'.InFlight y l := by
  have kept : ∀ {t : State n}, t.Kept s' → ∀ o : Op, o.Unsent y → (o ∈ s'.ops ↔ o ∈ t.ops) :=
    fun hk o hu => hk.mem_iff (hu.1.symm ▸ hb)
  have cons : ∀ {t : State n} {z k len}, t.ops = .posted z k len :: s.ops →
      ¬ (z = y ∧ k = .send) → ∀ o : Op, o.Unsent y → (o ∈ t.ops ↔ o ∈ s.ops) := by
    intro t z k len hops hne o hu
    rw [hops, List.mem_cons]
    refine or_iff_right fun e => hne ?_
    rw [e] at hu
    exact ⟨hu.1, hu.2.1⟩
  have hy : y ≠ s.next := (ho.sound.paired.partner_lt (ho.sound.paired.partner_symm hp)).ne
  rcases hm with hm | hm | hm | hm
  · exact h.congr (kept hm.kept) (.inl (by rw [hm.frame.1]))
  · refine h.congr ?_ (.inl ((hm.records_eq y).1.resolve_right fun e => hy e.1))
    rcases hm.ops_eq with ⟨hk, -⟩ | ⟨z, -, -, hops⟩
    · exact kept hk
    · exact cons hops fun e => nomatch e.2
  · refine h.congr ?_ ?_
    · rcases hm.ops_eq with hk | ⟨op, c, -, -, hst, -, hops⟩ | ⟨j, -, -, -, hops⟩ |
        ⟨j, b, io, hw, rfl, hfill, hk⟩
      · exact kept hk
      · intro o hu
        rw [hops]
        refine List.mem_erase_of_ne ?_
        rintro rfl
        exact hst hu.2.2.1
      · exact cons hops fun e => nomatch e.2
      · intro o hu
        refine (kept hk o hu).trans (cons rfl (fun e => hposts ?_) o hu)
        simp [posts, hw, hfill, ← e.1]
    · rcases hm.ioSend_eq y with ⟨e, -⟩ | ⟨j, hw, -⟩ | ⟨j, hw, -⟩
      · exact .inl e
      · exact .inr (by simpa only [Undisturbed, hw] using hG)
      · exact .inr (hz.zeroed hf _ j y hw).2
  · exact absurd rfl (hnet _)

/-- A receive record that is rewritten by a thread holds nothing. -/
theorem Move.ioRecv_eq_or_vacant {a : Action n} (hm : Move s a s') (ho : s.Orderly)
    (hnet : ∀ b, a ≠ .net b) (x : CtxId) :
    (s'.ctx x).ioRecv = (s.ctx x).ioRecv ∨ s.Vacant x := by
  rcases ho.ioRecv_cases hm x with e | ⟨hv, -⟩ | ⟨_, _, ha, -⟩
  · exact .inl e
  · exact .inr hv
  · exact absurd ha (hnet _)

/-- What a receive brought is still there after a step of a thread. -/
theorem Move.waiting_op {a : Action n} (hm : Move s a s') (ho : s.Orderly)
    (hnet : ∀ b, a ≠ .net b) {x : CtxId} {c : List UInt8} (h : s.Waiting x c) {o : Op}
    (hmem : o ∈ s.ops) (hx : o.ctx = x) (hk : o.kind = .recv) :
    c = (s'.ctx x).ioRecv.buffer.slice 0 o.delivered := by
  rcases hm.ioRecv_eq_or_vacant ho hnet x with e | hv
  · rw [e]
    exact h.1 o hmem hx hk
  · exact absurd hk (hv.not_mem hmem hx)

/-- What a worker carries is still there after a step of a thread. -/
theorem Move.waiting_carried {a : Action n} (hm : Move s a s') (ho : s.Orderly)
    (hnet : ∀ b, a ≠ .net b) {x : CtxId} {c : List UInt8} (h : s.Waiting x c) {w : Fin n} {j : Job}
    (hj : (s.worker w).carries x = some j) :
    c = (s'.ctx x).ioRecv.buffer.slice 0 j.bytes := by
  rcases hm.ioRecv_eq_or_vacant ho hnet x with e | hv
  · rw [e]
    exact h.2.1 w j hj
  · rw [hv.2 w] at hj
    cases hj

/-- Operations that are kept deliver what they delivered. -/
theorem State.Kept.waiting (hk : s.Kept s') {x : CtxId} {c : List UInt8} {b : Buffer}
    (h : ∀ o ∈ s.ops, o.ctx = x → o.kind = .recv → c = b.slice 0 o.delivered) :
    ∀ o ∈ s'.ops, o.ctx = x → o.kind = .recv → c = b.slice 0 o.delivered := by
  refine hk.forall_ops (fun o ho hx hr => ?_) h
  rw [Op.ctx_abort] at hx
  rw [Op.kind_abort] at hr
  rw [Op.delivered_abort]
  exact ho hx hr

/-- The main thread leaves the bytes in the receive records alone. -/
theorem MainMove.waiting {o : MainOutcome} (hm : MainMove s o s') {x : CtxId} {c : List UInt8}
    (h : s.Waiting x c) : s'.Waiting x c := by
  have hw := hm.frame.2.2.2.2.2.1
  have hvac : s'.Vacant x ↔ s.Vacant x := by rw [Vacant, Vacant, hm.outstanding, hw]
  rw [Waiting, hvac, hw, hm.frame.1]
  exact ⟨hm.kept.waiting h.1, h.2⟩

/-- The accept thread leaves the bytes in the receive records alone. -/
theorem AcceptMove.waiting {o : AcceptOutcome} (hm : AcceptMove s o s') (ho : s.Orderly)
    {x : CtxId} {c : List UInt8} (h : s.Waiting x c) : s'.Waiting x c := by
  have hmove : Move s (.accept o) s' := .accept hm
  refine ⟨?_, fun w j hj => ?_, fun hv => h.2.2 ⟨?_, hm.frame.1 ▸ hv.2⟩⟩
  · rcases hm.ops_eq with ⟨hk, -⟩ | ⟨z, hp, -, hops⟩
    · exact hk.waiting fun o hmem => hmove.waiting_op ho (by simp) h hmem
    · intro o hmem hx hk
      rw [hops] at hmem
      rcases List.mem_cons.mp hmem with rfl | hmem
      · have hfirst : s.First z := by
          rcases posts_eq_some hp with ⟨d, -, hpc, hz, -⟩ | ⟨w, j, -, ha, -⟩ | ⟨w, j, ha, -⟩
          · exact .of_side hpc hz
          · cases ha
          · cases ha
        have hz : z = x := hx
        exact h.2.2 (vacant_of_load (ho.single.first x (hz ▸ hfirst)))
      · exact hmove.waiting_op ho (by simp) h hmem hx hk
  · rw [hm.frame.1] at hj
    exact hmove.waiting_carried ho (by simp) h hj
  · have hout := hm.outstanding .recv x
    have hzero := hv.1
    omega

/-- A worker that forwards nothing leaves the bytes in the receive records alone, while reads go
on. -/
theorem WorkerMove.waiting {w : Fin n} {o : WorkerOutcome} (hm : WorkerMove s w o s')
    (ho : s.Orderly) {x y : CtxId} (hp : s.Partner x y)
    (hposts : s.posts (.worker w o) ≠ some (.send, y)) (ha : s'.Active x) {c : List UInt8}
    (h : s.Waiting x c) : s'.Waiting x c := by
  have hmove : Move s (.worker w o) s' := .worker hm
  have old := fun o hmem => hmove.waiting_op ho (by simp) h (o := o) hmem
  refine ⟨?_, fun w' j hj => ?_, fun hv => ?_⟩
  · rcases hm.ops_eq with hk | ⟨op, c', -, -, -, -, hops⟩ | ⟨j, hw, -, -, hops⟩ |
      ⟨j, b, io, -, -, -, hk⟩
    · exact hk.waiting old
    · intro o hmem hx hk
      exact old o (List.mem_of_mem_erase (hops ▸ hmem)) hx hk
    · intro o hmem hx hk
      rw [hops] at hmem
      rcases List.mem_cons.mp hmem with rfl | hmem
      · have hj : j.ctx = x := hx
        exact h.2.2 (hj ▸ ho.vacant_of_recv hw)
      · exact old o hmem hx hk
    · refine hk.waiting fun o hmem hx hk => ?_
      rcases List.mem_cons.mp hmem with rfl | hmem
      · cases hk
      · exact old o hmem hx hk
  · rcases hm.carries_cases hj with hj | ⟨rfl, -, op, c', rfl, hmem, hx, hk, hst, -⟩
    · exact hmove.waiting_carried ho (by simp) h hj
    · have hdel : op.delivered = j.bytes := by simp [Op.delivered, hst]
      rw [← hdel]
      exact old op hmem hx hk
  · rcases hm.turn ho.sound ho.served ho.typed hp with ⟨hc, -, -, -, hout⟩ | ⟨j, hc, -⟩ |
      ⟨hc, hr, hw, -, -, -⟩ | ⟨j, io, hc, hw, -, hf, -, -, -, rfl⟩ | ⟨-, -, -, -, -, hout⟩ |
      ⟨hr, hr', -, -, hout⟩
    · refine h.2.2 ⟨hout ▸ hv.1, fun v => ?_⟩
      by_cases hvw : v = w
      · rw [hvw, ← hc]
        exact hv.2 w
      · rw [← hm.worker_of_ne hvw]
        exact hv.2 v
    · rw [hv.2 w] at hc
      cases hc
    · -- the completion brought nothing
      cases hj : s'.worker w with
      | busy j st =>
        rw [hj] at hr hc
        rcases hm.busy hj with ⟨op, c', ok, bytes, -, rfl, hmem, hst, rfl, rfl, -⟩ | ⟨st₀, hw', -⟩
        · have hgone : ok = false ∨ bytes = 0 := by
            by_contra hgone
            rw [Worker.carries, if_pos ⟨hr.1, hr.2.1, hgone, trivial⟩] at hc
            cases hc
          have hdel : op.delivered = 0 := by
            rcases hgone with rfl | rfl
            · simp [Op.delivered, hst]
            · cases ok <;> simp [Op.delivered, hst]
          rw [old op hmem hr.1 hr.2.1, hdel]
          rfl
        · rw [hw] at hw'
          cases hw'
      | _ => simp [hj, Worker.Reading] at hr
    · obtain ⟨-, rfl⟩ := ho.sender_unique hp hc (.inr hw)
      exact absurd (by simp [posts, hw, hf]) hposts
    · have hzero := hv.1
      omega
    · have hzero := ho.single.load_of_gaveUp hm hr hr' hout
      rcases ha with hfirst | hpos
      · rw [First, hm.frame.1] at hfirst
        exact absurd (ho.single.first x hfirst) (load_pos_of_reading hr).ne'
      · omega

/-! ### The step that forwards a chunk -/

/-- The worker that posts the send of a chunk of `x` moves the bytes from the receive record of `x`
to the send record of its buddy. -/
theorem WorkerMove.forwards {w : Fin n} {o : WorkerOutcome} (hm : WorkerMove s w o s')
    (ho : s.Orderly) (hl : s.Legible) (hz : s.Prepared) (hf : s.fault = none) {x y : CtxId}
    (hp : s.Partner x y) (hposts : s.posts (.worker w o) = some (.send, y)) :
    (∀ l, s.InFlight y l → l = []) ∧ s.Active x ∧
      ∀ c, s.Waiting x c → s'.Waiting x [] ∧ (s'.broken y = false → s'.InFlight y c) := by
  obtain ⟨j, io, hw, hfill, rfl⟩ := hm.eq_of_posts hposts
  obtain ⟨hc, hp'⟩ := ho.carries_of_send (.inr hw)
  obtain rfl : j.ctx = x := ho.sound.paired.partner_unique (ho.sound.paired.partner_symm hp')
    (ho.sound.paired.partner_symm hp)
  have hread := Worker.reading_of_carries hc
  obtain ⟨st, -, -, hkind, hgone, -⟩ := Worker.carries_eq_some hc
  obtain ⟨hzero, hunsent⟩ := hz.zeroed hf w j y hw
  have hno := unsent_eq_zero_iff.mp hunsent
  refine ⟨fun l h => h.2 hno, .inr (load_pos_of_reading hread), fun c h => ⟨?_, fun hb => ?_⟩⟩
  · refine waiting_of_vacant ⟨?_, fun v => ?_⟩
    · have hout := hm.outstanding .recv j.ctx
      rw [hposts, if_neg (by simp), ho.single.outstanding_of_reading hread] at hout
      exact Nat.le_zero.mp hout
    · by_contra hne
      obtain ⟨j₁, hj₁⟩ := Option.ne_none_iff_exists'.mp hne
      rcases hm.carries_cases hj₁ with hold | ⟨-, hwait, -⟩
      · obtain rfl := ho.single.reading_unique hread (Worker.reading_of_carries hold)
        simp [setWorker, Worker.carries, Stage.Carrying] at hj₁
      · rw [hw] at hwait
        cases hwait
  · -- the record of `y` now holds the chunk, and only the new send transmits it
    have hchunk : c = io.buffer.slice 0 j.bytes := by
      rw [h.2.1 w j hc]
      exact (IoOperationData.slice_of_fill hzero hfill (hl.carried _ w j hc)).symm
    have hlen : io.dataBufLen = j.bytes := ho.sized.dataBufLen_eq hw hkind hfill
    let t : State n :=
      (s.postSend y io ⟨j.ctx, j.seq, io.dataBufLen⟩).setWorker w (.busy j .recv)
    have hmem : ∀ o : Op, o.ctx = y →
        (o ∈ (t.release y).ops ↔ o = .posted y .send io.dataBufLen ∨ o ∈ s.ops) := by
      intro o hy
      have hb' : (t.release y).broken o.ctx = false := by rwa [hy]
      exact ((Kept.release y).mem_iff hb').trans List.mem_cons
    have hbuf : ((t.release y).ctx y).ioSend = io := by
      simp only [t, release_frame, setWorker, postSend, storeSend, setCtx, Function.update_self]
    refine ⟨fun o hmem' hu => ?_, fun hnone => ?_⟩
    · rcases (hmem o hu.1).mp hmem' with rfl | hold
      · rw [hbuf, hchunk, ← hlen]
        rfl
      · exact absurd hu (hno o hold)
    · refine absurd ⟨rfl, rfl, rfl, ?_⟩ (hnone _ ((hmem _ rfl).mpr (.inl rfl)))
      rw [hlen]
      exact Nat.pos_of_ne_zero fun hzero => hgone (.inr hzero)

/-! ### The steps of the network -/

namespace State

/-- An operation without bytes to transmit is replaced by another one without. -/
theorem InFlight.replaceOp {y : CtxId} {l : List UInt8} (h : s.InFlight y l) {o : Op} (o' : Op)
    (ho : ¬ o.Unsent y) (ho' : ¬ o'.Unsent y) (hops : s'.ops = o' :: s.ops.erase o)
    (hbuf : (s'.ctx y).ioSend = (s.ctx y).ioSend) : s'.InFlight y l := by
  refine h.congr (fun p hu => ?_) (.inl hbuf)
  have hne : p ≠ o := by
    rintro rfl
    exact ho hu
  rw [hops, List.mem_cons, List.mem_erase_of_ne hne]
  refine or_iff_right ?_
  rintro rfl
  exact ho' hu

/-- An operation is replaced by one that delivered as much. -/
theorem Waiting.replaceOp {x : CtxId} {c : List UInt8} (h : s.Waiting x c) {o : Op} (o' : Op)
    (ho : o ∈ s.ops) (hc : o'.ctx = o.ctx) (hk : o'.kind = o.kind)
    (hd : o'.kind = .recv → o'.ctx = x → o'.delivered = o.delivered)
    (hops : s'.ops = o' :: s.ops.erase o) (hw : s'.worker = s.worker)
    (hbuf : (s'.ctx x).ioRecv = (s.ctx x).ioRecv) : s'.Waiting x c := by
  have hout : s'.outstanding .recv x = s.outstanding .recv x := by
    rw [← outstanding_replaceOp ho o' hc hk .recv x, State.outstanding, hops]
    rfl
  have hvac : s'.Vacant x ↔ s.Vacant x := by rw [Vacant, Vacant, hout, hw]
  rw [Waiting, hvac, hw, hbuf]
  refine ⟨fun p hp hx hr => ?_, h.2⟩
  rw [hops] at hp
  rcases List.mem_cons.mp hp with rfl | hp
  · rw [hd hr hx]
    exact h.1 o ho (hc.symm.trans hx) (hk.symm.trans hr)
  · exact h.1 p (List.mem_of_mem_erase hp) hx hr

end State

theorem NetMove.active_iff {a : NetAction} (hm : NetMove s a s') {x : CtxId} :
    s'.Active x ↔ s.Active x := by
  rw [Active, Active, First, First, hm.frame.1, hm.load_eq]

/-- Bytes that arrive on `x` come last. -/
theorem NetMove.flow_of_receive {o : Op} {bs : List UInt8} (hm : NetMove s (.receive o bs) s')
    (ho : s.Orderly) {x y : CtxId} (hp : s.Partner x y) (h : s.Conveys x y) : s'.Conveys x y := by
  have hact : s'.Active x ↔ s.Active x := hm.active_iff
  have hsame : ∀ z, (s'.ctx z).ioSend = (s.ctx z).ioSend := fun z => (hm.records_eq z).1
  cases hm with
  | arrived hmem hk hst hl =>
    have hin : ∀ l, s.InFlight y l → (s.arrived o bs).InFlight y l := by
      refine fun l hl => hl.replaceOp { o with status := .done true bs.length } (fun hu => ?_)
        (fun hu => ?_) rfl (hsame y)
      · exact nomatch hk.symm.trans hu.2.1
      · cases hu.2.2.1
    by_cases hx : o.ctx = x
    · subst hx
      have hrec : (s.arrived o bs).received o.ctx = s.received o.ctx ++ bs :=
        Function.update_self _ _ _
      have hpos : 0 < s.outstanding .recv o.ctx := hk ▸ outstanding_pos hmem
      have hlen : bs.length ≤ maxBufferLen := hl.trans_eq (ho.sized.ops o hmem hk).1
      rw [Conveys, hrec]
      refine ⟨h.1.trans (List.prefix_append _ _), fun hb => ?_⟩
      obtain ⟨l, hl, hpre, hactive⟩ := h.2 hb
      obtain ⟨c, hc, heq⟩ := hactive (.inr (Nat.add_pos_left hpos _))
      have hnil : c = [] := by
        rw [hc.1 o hmem rfl hk, show o.delivered = 0 by simp [Op.delivered, hst]]
        rfl
      rw [hnil, List.append_nil] at heq
      refine ⟨l, hin l hl, hpre.trans (List.prefix_append _ _), fun _ => ⟨bs, ⟨?_, ?_, ?_⟩, ?_⟩⟩
      · have hle : s.outstanding o.kind o.ctx ≤ 1 := by
          rw [hk]
          exact (Nat.le_add_right _ _).trans (ho.single.load_le o.ctx)
        intro p hp' hpx hpk
        rcases List.mem_cons.mp hp' with rfl | hp'
        · simp only [State.arrived, setCtx, Function.update_self]
          exact (Buffer.slice_receive _ hlen).symm
        · exact absurd hp' (not_mem_erase hle hmem hpx (hpk.trans hk.symm))
      · intro w j hj
        exact absurd (Worker.reading_of_carries hj) (ho.single.not_reading hpos w)
      · intro hv
        exfalso
        have hmem' : { o with status := .done true bs.length } ∈ (s.arrived o bs).ops :=
          List.mem_cons_self
        exact hv.not_mem hmem' rfl hk
      · exact congrArg (· ++ bs) heq
    · refine h.of_stay rfl (Function.update_of_ne (Ne.symm hx) _ _) id (fun l _ => hin l)
        fun c ha => ⟨hact.mp ha, fun hc => ?_⟩
      refine hc.replaceOp { o with status := .done true bs.length } hmem rfl rfl
        (fun _ e => absurd e hx) rfl rfl ?_
      simp only [State.arrived, setCtx, Function.update_of_ne (Ne.symm hx)]
      rfl

/-- Bytes that leave on `y` are the next ones. -/
theorem NetMove.flow_of_transmit {o : Op} {k : ℕ} (hm : NetMove s (.transmit o k) s')
    (hz : s.Prepared) {x y : CtxId} (h : s.Conveys x y) : s'.Conveys x y := by
  have hact : s'.Active x ↔ s.Active x := hm.active_iff
  cases hm with
  | transmitted hmem hk hst hl hb =>
    have hwait : ∀ c, s.Waiting x c → (s.transmitted o k).Waiting x c := fun c hc =>
      hc.replaceOp { o with off := o.off + k } hmem rfl rfl (fun _ _ => rfl) rfl rfl rfl
    by_cases hy : o.ctx = y
    · subst hy
      obtain ⟨l, hfl, hpre, hactive⟩ := h.2 hb
      have hsent : (s.transmitted o k).sent o.ctx =
          s.sent o.ctx ++ (s.ctx o.ctx).ioSend.buffer.slice o.off k := Function.update_self _ _ _
      -- the rest of the record goes on from where the transmitted bytes end
      obtain ⟨l', hl', heq⟩ : ∃ l', (s.transmitted o k).InFlight o.ctx l' ∧
          l = (s.ctx o.ctx).ioSend.buffer.slice o.off k ++ l' := by
        by_cases hu : o.Unsent o.ctx
        · refine ⟨(s.ctx o.ctx).ioSend.buffer.slice (o.off + k) (o.len - (o.off + k)),
            ⟨fun p hp' hpu => ?_, fun hno => ?_⟩, ?_⟩
          · rcases List.mem_cons.mp hp' with rfl | hp'
            · rfl
            · exact absurd hpu (not_unsent_of_mem_erase (hz.unsent_le _) hmem hu hp')
          · have hdone : ¬ o.off + k < o.len := fun hlt =>
              hno { o with off := o.off + k } List.mem_cons_self ⟨rfl, hk, hst, hlt⟩
            rw [Nat.sub_eq_zero_of_le (by omega)]
            rfl
          · rw [hfl.1 o hmem hu, Buffer.slice_append]
            congr 1
            omega
        · have hzero : k = 0 := by
            have hoff : ¬ o.off < o.len := fun hlt => hu ⟨rfl, hk, hst, hlt⟩
            omega
          subst hzero
          exact ⟨l, hfl.replaceOp { o with off := o.off + 0 } hu hu rfl rfl, rfl⟩
      rw [Conveys, hsent]
      rw [heq, ← List.append_assoc] at hpre
      refine ⟨(List.prefix_append _ _).trans hpre, fun _ => ⟨l', hl', hpre, fun ha => ?_⟩⟩
      obtain ⟨c, hc, hrec⟩ := hactive (hact.mp ha)
      refine ⟨c, hwait c hc, ?_⟩
      rw [heq, ← List.append_assoc] at hrec
      exact hrec
    · refine h.of_stay (Function.update_of_ne (Ne.symm hy) _ _) rfl id (fun l _ hfl => ?_)
        fun c ha => ⟨hact.mp ha, hwait c⟩
      exact hfl.replaceOp { o with off := o.off + k } (fun hu => hy hu.1) (fun hu => hy hu.1) rfl
        rfl

theorem NetMove.flow {a : NetAction} (hm : NetMove s a s') (ho : s.Orderly) (hz : s.Prepared)
    (hG : Undisturbed s (.net a)) {x y : CtxId} (hp : s.Partner x y) (h : s.Conveys x y) :
    s'.Conveys x y := by
  have hact : s'.Active x ↔ s.Active x := hm.active_iff
  cases a with
  | receive o bs => exact hm.flow_of_receive ho hp h
  | transmit o k => exact hm.flow_of_transmit hz h
  | complete o =>
    cases hm with
    | completed hmem hk hst =>
      have hall : o.off = o.len := hG
      refine h.of_stay rfl rfl id (fun l _ hl => ?_) fun c ha => ⟨hact.mp ha, fun hc => ?_⟩
      · exact hl.replaceOp { o with status := .done true o.off }
          (fun hu => absurd hu.2.2.2 (by omega)) (fun hu => nomatch hu.2.2.1) rfl rfl
      · exact hc.replaceOp { o with status := .done true o.off } hmem rfl rfl
          (fun hr _ => nomatch hk.symm.trans hr) rfl rfl rfl
  | fail o =>
    cases hm with
    | failed hmem hst =>
      refine h.of_stay rfl rfl (fun hb => by simp [opFailed, hb]) (fun l hb hl => ?_)
        fun c ha => ⟨hact.mp ha, fun hc => ?_⟩
      · refine hl.replaceOp { o with status := .done false 0 } (fun hu => ?_)
          (fun hu => nomatch hu.2.2.1) rfl rfl
        simp [opFailed, hu.1, hu.2.1] at hb
      · refine hc.replaceOp { o with status := .done false 0 } hmem rfl rfl (fun _ _ => ?_) rfl
          rfl rfl
        simp [Op.delivered, hst]

/-! ### The stream -/

namespace State

/-- Whatever a context received comes out on its buddy unchanged. -/
structure Relayed (s : State n) : Prop where
  start : ∀ x, ¬ s.Settled x → s.received x = [] ∧ s.sent x = []
  flow : ∀ x y, s.Partner x y → s.Conveys x y
  fault : s.fault = none ∨ s.fault = some .nullBuddy

end State

/-- Bytes come to and leave from settled contexts only. -/
theorem Move.start {a : Action n} (hm : Move s a s') (h : s.Relayed) (ho : s.Orderly) {x : CtxId}
    (hx : ¬ s.Settled x) : s'.received x = [] ∧ s'.sent x = [] := by
  obtain ⟨hrec, hsent⟩ := h.start x hx
  have hne : ∀ {o : Op}, o ∈ s.ops → x ≠ o.ctx := by
    rintro o ho' rfl
    exact hx (ho.served.ops _ _ (State.outstanding_pos ho'))
  rcases hm with hm | hm | hm | hm
  · obtain ⟨-, -, -, -, -, -, er, es, -⟩ := hm.frame
    rw [er, es]
    exact ⟨hrec, hsent⟩
  · obtain ⟨-, -, -, er, es, -⟩ := hm.frame
    rw [er, es]
    exact ⟨hrec, hsent⟩
  · obtain ⟨-, -, -, -, -, -, er, es⟩ := hm.frame
    rw [er, es]
    exact ⟨hrec, hsent⟩
  · cases hm with
    | arrived hmem => exact ⟨(Function.update_of_ne (hne hmem) _ _).trans hrec, hsent⟩
    | transmitted hmem => exact ⟨hrec, (Function.update_of_ne (hne hmem) _ _).trans hsent⟩
    | _ => exact ⟨hrec, hsent⟩

theorem MainMove.flow {o : MainOutcome} (hm : MainMove s o s') (ho : s.Orderly) (hz : s.Prepared)
    (hf : s.fault = none) {x y : CtxId} (hp : s.Partner x y) (h : s.Conveys x y) :
    s'.Conveys x y := by
  have hmove : Move s (.main o) s' := .main hm
  obtain ⟨-, -, -, -, -, -, hrec, hsent, -⟩ := hm.frame
  refine h.of_stay (congrFun hsent y) (congrFun hrec x) hmove.broken_mono
    (fun l hb hl => hmove.inFlight hz ho hf trivial (by simp) hp (by simp [posts]) hb hl)
    fun c ha => ⟨?_, hm.waiting⟩
  rw [Active, hm.load_eq] at ha
  exact ha.imp_left hm.first

/-- Contexts are linked, put on the list and given their first receives before bytes come. -/
theorem AcceptMove.flow {o : AcceptOutcome} (hm : AcceptMove s o s') (h : s.Relayed)
    (ho : s.Orderly) (hz : s.Prepared) (hf : s.fault = none) {x y : CtxId} (hp : s'.Partner x y) :
    s'.Conveys x y := by
  have hmove : Move s (.accept o) s' := .accept hm
  have hsends : ∀ z, s.posts (.accept o) ≠ some (.send, z) := by
    intro z hz'
    rcases posts_eq_some hz' with ⟨d, -, -, -, hk⟩ | ⟨w, j, io, ha, -⟩ | ⟨w, j, ha, -⟩
    · cases hk
    · cases ha
    · cases ha
  by_cases hset : s.Settled x ∧ s.Settled y
  · have hp' : s.Partner x y :=
      (hm.partner_cases ho.sound hp).resolve_right fun hn => hn.1 hset.1.1
    obtain ⟨-, -, -, hrec, hsent, -⟩ := hm.frame
    refine (h.flow x y hp').of_stay (congrFun hsent y) (congrFun hrec x) hmove.broken_mono
      (fun l hb hl => hmove.inFlight hz ho hf trivial (by simp) hp' (hsends y) hb hl)
      fun c ha => ⟨?_, hm.waiting ho⟩
    rcases ha with hfirst | hpos
    · exact .inl ((hm.first_cases ho.sound hfirst).1.resolve_right fun hn => hn hset.1)
    · rw [hm.load_eq] at hpos
      split_ifs at hpos with hpost
      · rcases posts_eq_some hpost with ⟨d, -, hpc, hx, -⟩ | ⟨w, j, -, ha, -⟩ | ⟨w, j, ha, -⟩
        · exact .inl (.of_side hpc hx)
        · cases ha
        · cases ha
      · exact .inr hpos
  · -- neither of the two was settled, so nothing has come to them yet
    have hboth : ¬ s.Settled x ∧ ¬ s.Settled y := by
      rcases hm.partner_cases ho.sound hp with hp' | ⟨hx, hy⟩
      · refine ⟨fun hx => hset ⟨hx, hx.partner ho.sound hp'⟩, fun hy => hset ⟨?_, hy⟩⟩
        exact hy.partner ho.sound (ho.sound.paired.partner_symm hp')
      · exact ⟨fun hx' => hx hx'.1, fun hy' => hy hy'.1⟩
    have hpost : s.posts (.accept o) ≠ some (.recv, x) := fun hp =>
      hboth.1 (ho.served.posts ho.sound hp)
    refine flow_of_vacant (hmove.start h ho hboth.1).1 (hmove.start h ho hboth.2).2 ?_ ?_
    · rw [hm.outstanding, if_neg (hsends y), Nat.add_zero]
      by_contra hne
      exact hboth.2 (ho.served.ops _ y (Nat.pos_of_ne_zero hne))
    · refine vacant_of_load ?_
      rw [hm.load_eq, if_neg hpost, ho.served.load_eq_zero hboth.1]

theorem WorkerMove.flow {w : Fin n} {o : WorkerOutcome} (hm : WorkerMove s w o s')
    (ho : s.Orderly) (hl : s.Legible) (hz : s.Prepared) (hf : s.fault = none)
    (hG : Undisturbed s (.worker w o)) {x y : CtxId} (hp : s.Partner x y) (h : s.Conveys x y) :
    s'.Conveys x y := by
  have hmove : Move s (.worker w o) s' := .worker hm
  obtain ⟨-, -, -, -, -, -, hrec, hsent⟩ := hm.frame
  by_cases hposts : s.posts (.worker w o) = some (.send, y)
  · obtain ⟨hnil, hact, hmoved⟩ := hm.forwards ho hl hz hf hp hposts
    rw [Conveys, hsent, hrec]
    refine ⟨h.1, fun hb => ?_⟩
    have hopen : s.broken y = false := by
      by_contra hne
      rw [hmove.broken_mono (Bool.eq_true_of_not_eq_false hne)] at hb
      cases hb
    obtain ⟨l, hfl, -, hactive⟩ := h.2 hopen
    obtain ⟨c, hc, heq⟩ := hactive hact
    obtain ⟨hwait, hin⟩ := hmoved c hc
    rw [hnil l hfl, List.append_nil] at heq
    refine ⟨c, hin hb, heq ▸ List.prefix_rfl, fun _ => ⟨[], hwait, ?_⟩⟩
    rw [List.append_nil, heq]
  · refine h.of_stay (congrFun hsent y) (congrFun hrec x) hmove.broken_mono
      (fun l hb hfl => hmove.inFlight hz ho hf hG (by simp) hp hposts hb hfl)
      fun c ha => ⟨?_, hm.waiting ho hp hposts ha⟩
    rw [Active, First, hm.frame.1] at ha
    exact ha.imp_right fun hpos => hpos.trans_le (hm.load_le ho.served ho.typed x)

/-- A step that meets the condition runs into no fault but a null buddy. -/
theorem Move.fault {a : Action n} (hm : Move s a s') (hl : s.Legible) (ho : s.Orderly)
    (hG : Survives s a) (hf : s.fault = none) : s'.fault = none ∨ s'.fault = some .nullBuddy := by
  cases hm with
  | main hm =>
    cases hm with
    | sweep => exact .inl (s.cleanClientList_frame.2.2.2.2.2.2.2.2.2.2.1.trans hf)
    | _ => exact .inl hf
  | accept hm =>
    cases hm with
    | linked => simp [State.linked, setBuddySocketContext, acceptAt, setCtx, hf]
    | exitClosed | exitRemoved | exitNulled | returned =>
      simp [acceptAt, State.exitNulled, acceptReturned, hf]
    | _ => exact .inl hf
  | net hm => cases hm <;> exact .inl hf
  | worker hm =>
    cases hm with
    | nullBuddy => exact .inr rfl
    | dead hw ho hd =>
      simp only [Survives, hw] at hG
      exact absurd hG hd
    | overrun hw hfill =>
      obtain ⟨hc, -⟩ := ho.carries_of_send (.inr hw)
      obtain ⟨i, hi⟩ := (hl.carried _ _ _ hc).2
      exact absurd hi (IoOperationData.fill_eq_none_iff.mp hfill i)
    | _ => exact .inl hf

namespace State

theorem Relayed.step {a : Action n} (h : s.Relayed) (ho : s.Orderly) (hl : s.Legible)
    (hz : s.Prepared) (hf : s.fault = none) (hG : RelayReady s a) (hm : Move s a s') :
    s'.Relayed := by
  refine ⟨fun x hx => ?_, fun x y hp => ?_, hm.fault hl ho hG.2.2.1 hf⟩
  · exact hm.start h ho fun hset => hx (hset.step ho.sound hm)
  · rcases hm with hm | hm | hm | hm
    · have hp' := (SameLinks.of_ctx hm.frame.1 hm.frame.2.1).partner_iff.mp hp
      exact hm.flow ho hz hf hp' (h.flow x y hp')
    · exact hm.flow h ho hz hf hp
    · have hp' := hm.sameLinks.partner_iff.mp hp
      exact hm.flow ho hl hz hf hG.2.2.2 hp' (h.flow x y hp')
    · have hp' := hm.sameLinks.partner_iff.mp hp
      exact hm.flow ho hz hG.2.2.2 hp' (h.flow x y hp')

/-- Along runs that meet the condition the buffers and the streams are as they should be. -/
theorem relayed_of_reachable (hs : (proxy n).Reachable RelayReady s) :
    s.Orderly ∧ s.Legible ∧ s.Prepared ∧ s.Relayed := by
  refine hs.invariant (I := fun s => s.Orderly ∧ s.Legible ∧ s.Prepared ∧ s.Relayed)
    ⟨orderly_initial, ?_, ?_, ?_⟩ fun s a s' ⟨ho, hl, hz, h⟩ hG hstep => ?_
  · constructor <;> simp [proxy, initial, Worker.carries]
  · constructor <;> simp [proxy, initial, unsent]
  · refine ⟨fun _ _ => ⟨rfl, rfl⟩, fun x y hp => ?_, .inl rfl⟩
    simp [proxy, initial, Partner, strongOf, weakOf, SocketContext.new] at hp
  · obtain ⟨hf, -, hm⟩ := step_move hstep
    exact ⟨ho.step hG.1 hG.2.1 hm, hl.step ho hG.2.2.2 hm, hz.step ho hf hG.2.2.2 hm,
      h.step ho hl hz hf hG hm⟩

end State

/-- In every state of a run in which every chunk survives the copy, no send record is cleared while
its bytes are being transmitted and no write completion is taken for a read, what was transmitted
on a socket is the beginning of what its buddy received. -/
theorem relay_fidelity (hs : (proxy n).Reachable RelayReady s) :
    (s.fault = none ∨ s.fault = some .nullBuddy) ∧
      ∀ x y, s.Partner x y → s.sent y <+: s.received x := by
  obtain ⟨-, -, -, h⟩ := relayed_of_reachable hs
  exact ⟨h.fault, fun x y hp => (h.flow x y hp).1⟩

set_option maxRecDepth 10000 in
/-- Two chunks of the client come out at the remote side, the second one in part so far. -/
theorem relay_fidelity_run :
    ∃ s : State 2, s.sent 1 = [65, 66, 67] ∧ s.received 0 = [65, 66, 67, 68] ∧
      s.sent 1 <+: s.received 0 := by
  obtain ⟨s, hs, hsent, hrec, hp⟩ : ∃ s : State 2,
      (proxy 2).Reachable (fun s a => KeyedAtomic s a ∧ Survives s a ∧ Undisturbed s a) s ∧
        s.sent 1 = [65, 66, 67] ∧ s.received 0 = [65, 66, 67, 68] ∧
          (s.ctx 0).buddy.strong = some 1 :=
    TransitionSystem.exists_reachable_of_runChecked (startUp ++ connection 11 12 ++
      relay 0 0 [65, 66] ++ sendDone 1 1 2 ++ relay 1 0 [67, 68] ++
        [.net (.transmit (.posted 1 .send 2) 1)]) (by decide +kernel)
  have hready : (proxy 2).Reachable RelayReady s :=
    hs.mono fun s a ⟨hkey, hrest⟩ => ⟨hkey.1, hkey.2.typeSafe, hrest⟩
  exact ⟨s, hsent, hrec, (relay_fidelity hready).2 0 1 (.inl hp)⟩

set_option maxRecDepth 10000 in
/-- A chunk with a zero inside: the bytes after the zero are lost. -/
theorem relay_fidelity_fails :
    ∃ s : State 2, (proxy 2).Reachable KeyedAtomic s ∧ s.fault = none ∧ s.Partner 0 1 ∧
      s.received 0 = [65, 0, 66] ∧ s.sent 1 = [65, 0, 0] ∧ ¬ s.sent 1 <+: s.received 0 := by
  obtain ⟨s, hs, hf, hp, hrec, hsent⟩ : ∃ s : State 2, (proxy 2).Reachable KeyedAtomic s ∧
      s.fault = none ∧ (s.ctx 0).buddy.strong = some 1 ∧ s.received 0 = [65, 0, 66] ∧
        s.sent 1 = [65, 0, 0] :=
    TransitionSystem.exists_reachable_of_runChecked (startUp ++ connection 11 12 ++
      relay 0 0 [65, 0, 66] ++ [.net (.transmit (.posted 1 .send 3) 3)]) (by decide +kernel)
  refine ⟨s, hs, hf, .inl hp, hrec, hsent, ?_⟩
  rw [hrec, hsent]
  decide

end IocpProxy
