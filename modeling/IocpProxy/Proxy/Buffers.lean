import IocpProxy.Proxy.Sends

/-!
# The bytes in the records

The bytes a context receives are copied, one chunk at a time, as a zero-terminated string into the
send record of its buddy, and are transmitted from there. A chunk survives the copy when nothing
but zeros follows a zero in it and the buffer holds a zero; it survives in the send record when
`Send` is not entered while the bytes of the last chunk are being transmitted.

## Main definitions

* `IocpProxy.TextChunk` : the chunks that survive the copy.
* `IocpProxy.RelayReady` : the condition on the steps.
* `IocpProxy.State.Legible` : what waits in a receive record survives the copy.
* `IocpProxy.State.Prepared` : one send transmits at a time, and none while a record is refilled.

## Main results

* `IocpProxy.State.Legible.step`, `IocpProxy.State.Prepared.step`.
-/

namespace IocpProxy

open State

variable {n : ℕ} {s s' : State n}

/-! ### Chunks that survive the copy -/

/-- Only zeros follow a zero of the chunk, and there is a zero after it or in it. -/
def TextChunk (bs : List UInt8) : Prop :=
  bs.Pairwise (fun b c => b = 0 → c = 0) ∧ (bs.length < maxBufferLen ∨ 0 ∈ bs)

instance (bs : List UInt8) : Decidable (TextChunk bs) := inferInstanceAs (Decidable (_ ∧ _))

/-- The first `k` bytes of the buffer survive the copy. -/
def Buffer.Text (b : Buffer) (k : ℕ) : Prop := CString.ZeroTail k b ∧ ∃ i, b i = 0

theorem Buffer.text_zero_of_exists {b : Buffer} (h : ∃ i, b i = 0) : b.Text 0 :=
  ⟨fun _ _ _ hj => absurd hj (Nat.not_lt_zero _), h⟩

theorem Buffer.text_zero : (0 : Buffer).Text 0 := text_zero_of_exists ⟨⟨0, by decide⟩, rfl⟩

/-- A received chunk lies in the zeroed buffer as it was sent. -/
theorem TextChunk.text {bs : List UInt8} (h : TextChunk bs) (hl : bs.length ≤ maxBufferLen) :
    ((0 : Buffer).receive bs).Text bs.length := by
  have hget : ∀ (i : Fin maxBufferLen) (hi : (i : ℕ) < bs.length),
      (0 : Buffer).receive bs i = bs[(i : ℕ)] := fun i hi => List.getD_eq_getElem _ _ hi
  refine ⟨fun i j hij hj hi => ?_, ?_⟩
  · have hij' : (i : ℕ) < j := hij
    rw [hget i (hij'.trans hj)] at hi
    rw [hget j hj]
    exact List.pairwise_iff_getElem.mp h.1 i j (hij'.trans hj) hj hij' hi
  · rcases h.2 with hlt | hmem
    · exact ⟨⟨bs.length, hlt⟩, List.getD_eq_default _ _ le_rfl⟩
    · obtain ⟨i, hi, he⟩ := List.getElem_of_mem hmem
      exact ⟨⟨i, hi.trans_le hl⟩, (hget _ hi).trans he⟩

/-- A filled record holds the bytes that survive the copy. -/
theorem IoOperationData.slice_of_fill {io io' : IoOperationData} {b : Buffer} {m : UInt16} {k : ℕ}
    (hz : io.buffer = 0) (hf : io.fill b m = some io') (hb : b.Text k) :
    io'.buffer.slice 0 k = b.slice 0 k := by
  obtain ⟨hcopy, -⟩ := fill_eq_some hf
  rw [hz] at hcopy
  exact Buffer.slice_congr ((CString.strcpy_faithful_iff hcopy k).mpr hb.1)

/-- The number of bytes that a receive has delivered. -/
def Op.delivered (o : Op) : ℕ :=
  match o.status with
  | .done true k => k
  | _ => 0

theorem Op.delivered_abort (o : Op) : o.abort.delivered = o.delivered := by
  by_cases h : o.status = .pending
  · simp [abort, delivered, h]
  · rw [abort, if_neg h]

/-- What a receive will store, or has stored, in the buffer survives the copy. -/
def Op.Text (o : Op) (b : Buffer) : Prop :=
  match o.status with
  | .pending => b = 0
  | .done _ k => b.Text k

theorem Op.Text.abort {o : Op} {b : Buffer} (h : o.Text b) : o.abort.Text b := by
  by_cases hst : o.status = .pending
  · have hb : b = 0 := by simpa [Op.Text, hst] using h
    have hab : o.abort.status = .done false 0 := by simp [Op.abort, hst]
    rw [Op.Text, hab, hb]
    exact Buffer.text_zero
  · rwa [Op.abort, if_neg hst]

/-- The operation is a send on `y` with bytes still to be transmitted. -/
def Op.Unsent (y : CtxId) (o : Op) : Prop :=
  o.ctx = y ∧ o.kind = .send ∧ o.status = .pending ∧ o.off < o.len

instance (y : CtxId) : DecidablePred (Op.Unsent y) := fun o =>
  inferInstanceAs (Decidable (o.ctx = y ∧ o.kind = .send ∧ o.status = .pending ∧ o.off < o.len))

theorem Op.Unsent.of_abort {y : CtxId} {o : Op} (h : o.abort.Unsent y) : o.Unsent y := by
  by_cases hst : o.status = .pending
  · have hab : o.abort.status = .done false 0 := by simp [Op.abort, hst]
    have hpend := h.2.2.1
    rw [hab] at hpend
    cases hpend
  · rwa [Op.abort, if_neg hst] at h

/-! ### The condition on the steps -/

namespace State

/-- The number of sends on a context with bytes still to be transmitted. -/
def unsent (s : State n) (y : CtxId) : ℕ := s.ops.countP (Op.Unsent y)

end State

/-- The call of the step is not made on a handle that was closed and handed out again, and the
step takes no completion of a destroyed context. -/
def Survives (s : State n) (a : Action n) : Prop :=
  match a with
  | .worker w o =>
    match s.worker w, o with
    | .waiting, .dequeue op c => c ∈ s.live ∧ op.ctx ∈ s.live
    | .busy _ (.fill b), _ => s.target b ≠ .foreign
    | .busy j .recv, _ => s.target j.ctx ≠ .foreign
    | _, _ => True
  | .accept _ =>
    match s.accept.pc with
    | .recv d => ∀ x ∈ s.accept.side d, s.target x ≠ .foreign
    | _ => True
  | _ => True

instance (s : State n) : DecidablePred (Survives s)
  | .worker w o => by
    dsimp only [Survives]
    exact match s.worker w, o with
    | .waiting, .dequeue op c => inferInstanceAs (Decidable (c ∈ s.live ∧ op.ctx ∈ s.live))
    | .busy _ (.fill b), _ => inferInstanceAs (Decidable (s.target b ≠ .foreign))
    | .busy j .recv, _ => inferInstanceAs (Decidable (s.target j.ctx ≠ .foreign))
    | .busy _ .dispatch, _ | .busy _ .forward, _ | .busy _ .forwardSend, _ | .busy _ (.send _), _
    | .busy _ .failed, _ | .busy _ .finish, _ | .waiting, .ok | .waiting, .fail | .exited, _ =>
      instDecidableTrue
  | .accept _ => by
    dsimp only [Survives]
    exact match s.accept.pc with
    | .recv d => inferInstanceAs (Decidable (∀ x ∈ s.accept.side d, s.target x ≠ .foreign))
    | .notStarted | .loop | .initRemote | .link | .assoc _ | .assocRet _ | .add _ | .exitClose
    | .exitRemove _ | .exitNull _ | .ret | .done => instDecidableTrue
  | .main _ | .net _ => instDecidableTrue

/-- The chunk that arrives survives the copy, a send completes with all its bytes, and `Send` does
not clear a record whose bytes are still being transmitted. -/
def Undisturbed (s : State n) (a : Action n) : Prop :=
  match a with
  | .net (.receive _ bs) => TextChunk bs
  | .net (.complete o) => o.off = o.len
  | .worker w _ =>
    match s.worker w with
    | .busy _ (.send b) => s.unsent b = 0
    | _ => True
  | _ => True

instance (s : State n) : DecidablePred (Undisturbed s)
  | .net (.receive _ bs) => inferInstanceAs (Decidable (TextChunk bs))
  | .net (.complete o) => inferInstanceAs (Decidable (o.off = o.len))
  | .worker w _ => by
    dsimp only [Undisturbed]
    exact match s.worker w with
    | .busy _ (.send b) => inferInstanceAs (Decidable (s.unsent b = 0))
    | .busy _ .dispatch | .busy _ .forward | .busy _ .forwardSend | .busy _ (.fill _)
    | .busy _ .recv | .busy _ .failed | .busy _ .finish | .waiting | .exited =>
      instDecidableTrue
  | .main _ | .accept _ | .net (.transmit _ _) | .net (.fail _) => instDecidableTrue

/-- The completion keys are right, no write completion is looked at while `Send` has its record
cleared, and the step survives and disturbs no bytes. -/
def RelayReady (s : State n) (a : Action n) : Prop :=
  IdealKeys s a ∧ TypeSafe s a ∧ Survives s a ∧ Undisturbed s a

namespace State

/-! ### The receive records -/

/-- No chunk waits in the receive record of `x`, and none is on its way there. -/
def Vacant (s : State n) (x : CtxId) : Prop :=
  s.outstanding .recv x = 0 ∧ ∀ w, (s.worker w).carries x = none

theorem vacant_of_load {x : CtxId} (h : s.load x = 0) : s.Vacant x := by
  refine ⟨(Nat.add_eq_zero_iff.mp h).1, fun w => ?_⟩
  by_contra hw
  obtain ⟨j, hj⟩ := Option.ne_none_iff_exists'.mp hw
  exact (load_pos_of_reading (Worker.reading_of_carries hj)).ne' h

theorem Vacant.not_mem {x : CtxId} (h : s.Vacant x) {o : Op} (ho : o ∈ s.ops) (hx : o.ctx = x) :
    o.kind ≠ .recv := fun hk => by
  have hpos := outstanding_pos ho
  rw [hx, hk, h.1] at hpos
  exact absurd hpos (lt_irrefl 0)

/-- Nothing waits in the record on which a worker is about to call `Recv`. -/
theorem Orderly.vacant_of_recv (h : s.Orderly) {w : Fin n} {j : Job}
    (hw : s.worker w = .busy j .recv) : s.Vacant j.ctx := by
  have hread := h.reading_of_recv hw
  refine ⟨h.single.outstanding_of_reading hread, fun w' => ?_⟩
  by_contra hc
  obtain ⟨j', hj'⟩ := Option.ne_none_iff_exists'.mp hc
  obtain rfl := h.single.reading_unique hread (Worker.reading_of_carries hj')
  simp [hw, Worker.carries, Stage.Carrying] at hj'

/-- The receive record of `x` changes when bytes arrive for it, and when it is made or reset while
nothing waits in it. -/
theorem Orderly.ioRecv_cases {a : Action n} (h : s.Orderly) (hm : Move s a s') (x : CtxId) :
    (s'.ctx x).ioRecv = (s.ctx x).ioRecv ∨
      s.Vacant x ∧ (s'.ctx x).ioRecv.buffer = 0 ∨
      ∃ o bs, a = .net (.receive o bs) ∧ o ∈ s.ops ∧ o.ctx = x ∧ o.kind = .recv ∧
        o.status = .pending ∧
        (s'.ctx x).ioRecv.buffer = (s.ctx x).ioRecv.buffer.receive bs := by
  rcases hm with hm | hm | hm | hm
  · exact .inl (by rw [hm.frame.1])
  · rcases (hm.records_eq x).2 with e | ⟨rfl, e⟩ | ⟨d, hpc, hx, e⟩
    · exact .inl e
    · have hnew : ¬ s.Settled s.next := fun hset =>
        lt_irrefl _ (h.sound.added_lt _ hset.1)
      exact .inr (.inl ⟨vacant_of_load (h.served.load_eq_zero hnew), by rw [e]; rfl⟩)
    · exact .inr (.inl ⟨vacant_of_load (h.single.first x (.of_side hpc hx)), by rw [e]; rfl⟩)
  · rcases hm.ioRecv_eq x with e | ⟨j, hw, rfl, e⟩
    · exact .inl e
    · exact .inr (.inl ⟨h.vacant_of_recv hw, by rw [e]; rfl⟩)
  · rcases (hm.records_eq x).2 with e | ⟨o, bs, ha, ho, hx, hk, hst, e⟩
    · exact .inl e
    · exact .inr (.inr ⟨o, bs, congrArg _ ha, ho, hx, hk, hst, by rw [e]⟩)

end State

/-- The receive record is zeroed when a receive is posted on it. -/
theorem Move.ioRecv_of_posts {a : Action n} (hm : Move s a s') {x : CtxId}
    (hp : s.posts a = some (.recv, x)) : (s'.ctx x).ioRecv.buffer = 0 := by
  have reset : ((s.resetRecv x).ctx x).ioRecv.buffer = 0 := by
    simp only [resetRecv, setCtx, Function.update_self]
    rfl
  rcases posts_eq_some hp with ⟨d, rfl, hpc, hx, -⟩ | ⟨w, j, -, -, -, hk, -⟩ |
    ⟨w, j, rfl, hw, rfl, -⟩
  · obtain hm | hm | hm | hm := hm
    cases hm with
    | @posted d' y hpc' hy =>
      obtain rfl : d' = d := AcceptPc.recv.inj (hpc'.symm.trans hpc)
      obtain rfl : y = x := Option.some.inj (hy.symm.trans hx)
      exact reset
    | stop hpc' | linked hpc' | associated hpc' | added hpc' | exitClosed hpc' | exitRemoved hpc'
    | exitNulled hpc' | returned hpc' => exact absurd (hpc'.symm.trans hpc) (by simp)
  · cases hk
  · obtain hm | hm | hm | hm := hm
    cases hm with
    | received hw' =>
      obtain ⟨rfl, -⟩ := Worker.busy.inj (hw'.symm.trans hw)
      exact reset
    | exit hw' | dispatched hw' | noBuddy hw' | buddy hw' | nullBuddy hw' | sending hw'
    | zeroed hw' | overrun hw' | sent hw' | removed hw' | finished hw' =>
      exact absurd (hw'.symm.trans hw) (by simp)

namespace State

/-- Whatever waits in a receive record survives the copy. -/
structure Legible (s : State n) : Prop where
  ops : ∀ o ∈ s.ops, o.kind = .recv → o.Text (s.ctx o.ctx).ioRecv.buffer
  carried : ∀ x w j, (s.worker w).carries x = some j → (s.ctx x).ioRecv.buffer.Text j.bytes

/-- An operation on a record that is not written by this step is as legible as before. -/
theorem Legible.of_mem {a : Action n} (h : s.Legible) (ho : s.Orderly) (hm : Move s a s')
    (hnet : ∀ b, a ≠ .net b) {o : Op} (hmem : o ∈ s.ops) (hk : o.kind = .recv) :
    o.Text (s'.ctx o.ctx).ioRecv.buffer := by
  rcases ho.ioRecv_cases hm o.ctx with e | ⟨hv, -⟩ | ⟨_, _, ha, -⟩
  · rw [e]
    exact h.ops o hmem hk
  · exact absurd hk (hv.not_mem hmem rfl)
  · exact absurd ha (hnet _)

/-- Operations that are kept or aborted are as legible as before. -/
theorem Kept.text {t : State n} (hk : t.Kept s')
    (ht : ∀ o ∈ t.ops, o.kind = .recv → o.Text (s'.ctx o.ctx).ioRecv.buffer) :
    ∀ o ∈ s'.ops, o.kind = .recv → o.Text (s'.ctx o.ctx).ioRecv.buffer := by
  refine hk.forall_ops (fun o ht hr => ?_) ht
  rw [Op.kind_abort] at hr
  rw [Op.ctx_abort]
  exact (ht hr).abort

/-- A new operation joins the legible ones. -/
theorem Legible.text_cons {a : Action n} (h : s.Legible) (ho : s.Orderly) (hm : Move s a s')
    (hnet : ∀ b, a ≠ .net b) {t : State n} {o' : Op} (hops : t.ops = o' :: s.ops)
    (hnew : o'.kind = .recv → o'.Text (s'.ctx o'.ctx).ioRecv.buffer) :
    ∀ o ∈ t.ops, o.kind = .recv → o.Text (s'.ctx o.ctx).ioRecv.buffer := by
  intro o hmem hr
  rw [hops] at hmem
  rcases List.mem_cons.mp hmem with rfl | hmem
  · exact hnew hr
  · exact h.of_mem ho hm hnet hmem hr

/-- An operation changes its form while the records stay. -/
theorem Legible.text_replaceOp (h : s.Legible) {o₀ o' : Op} (hops : s'.ops = o' :: s.ops.erase o₀)
    (hctx : s'.ctx = s.ctx) (hnew : o'.kind = .recv → o'.Text (s.ctx o'.ctx).ioRecv.buffer) :
    ∀ o ∈ s'.ops, o.kind = .recv → o.Text (s'.ctx o.ctx).ioRecv.buffer := by
  intro o hmem hr
  rw [hctx]
  rw [hops] at hmem
  rcases List.mem_cons.mp hmem with rfl | hmem
  · exact hnew hr
  · exact h.ops o (List.mem_of_mem_erase hmem) hr

/-- The record of a pending receive is zeroed. -/
theorem Legible.buffer_eq_zero (h : s.Legible) {o : Op} (ho : o ∈ s.ops) (hk : o.kind = .recv)
    (hst : o.status = .pending) : (s.ctx o.ctx).ioRecv.buffer = 0 := by
  simpa [Op.Text, hst] using h.ops o ho hk

end State

/-- The network keeps the operations legible when what it delivers is. -/
theorem NetMove.text_ops {b : NetAction} (hm : NetMove s b s') (h : s.Legible) (ho : s.Orderly)
    (hG : Undisturbed s (.net b)) :
    ∀ o ∈ s'.ops, o.kind = .recv → o.Text (s'.ctx o.ctx).ioRecv.buffer := by
  cases hm with
  | @arrived o bs hmem hk hst hl =>
    intro o' hmem' hk'
    have hle : s.outstanding o.kind o.ctx ≤ 1 := by
      rw [hk]
      exact (Nat.le_add_right _ _).trans (ho.single.load_le o.ctx)
    rcases List.mem_cons.mp hmem' with rfl | hmem'
    · have hzero := h.buffer_eq_zero hmem hk hst
      have hlen : bs.length ≤ maxBufferLen := hl.trans_eq (ho.sized.ops o hmem hk).1
      simp only [State.arrived, setCtx, Function.update_self, Op.Text, hzero]
      exact hG.text hlen
    · have hne : o'.ctx ≠ o.ctx := fun hc =>
        not_mem_erase hle hmem hc (hk'.trans hk.symm) hmem'
      simp only [State.arrived, setCtx, Function.update_of_ne hne]
      exact h.ops o' (List.mem_of_mem_erase hmem') hk'
  | @transmitted o k hmem hk | @completed o hmem hk =>
    refine h.text_replaceOp rfl rfl fun hr => ?_
    rw [show o.kind = .recv from hr] at hk
    cases hk
  | @failed o hmem hst =>
    refine h.text_replaceOp rfl rfl fun hr => ?_
    rw [Op.Text, h.buffer_eq_zero hmem hr hst]
    exact Buffer.text_zero

namespace State

theorem Legible.ops_step {a : Action n} (h : s.Legible) (ho : s.Orderly) (hG : Undisturbed s a)
    (hm : Move s a s') : ∀ o ∈ s'.ops, o.kind = .recv → o.Text (s'.ctx o.ctx).ioRecv.buffer := by
  have hmove := hm
  rcases hm with hm | hm | hm | hm
  · exact hm.kept.text fun o => h.of_mem ho hmove (by simp)
  · rcases hm.ops_eq with ⟨hk, -⟩ | ⟨x, hp, -, hops⟩
    · exact hk.text fun o => h.of_mem ho hmove (by simp)
    · exact h.text_cons ho hmove (by simp) hops fun _ => hmove.ioRecv_of_posts hp
  · rcases hm.ops_eq with hk | ⟨op, c, -, -, -, -, hops⟩ | ⟨j, hw, rfl, -, hops⟩ |
      ⟨j, b, io, -, -, -, hk⟩
    · exact hk.text fun o => h.of_mem ho hmove (by simp)
    · exact fun o hmem => h.of_mem ho hmove (by simp) (List.mem_of_mem_erase (hops ▸ hmem))
    · exact h.text_cons ho hmove (by simp) hops fun _ =>
        hmove.ioRecv_of_posts (show s.posts _ = some (.recv, j.ctx) by simp [posts, hw])
    · exact hk.text (h.text_cons ho hmove (by simp) rfl (by rintro ⟨⟩))
  · exact hm.text_ops h ho hG

/-- The chunk that a worker carries stays in its record. -/
theorem Legible.text_of_carries {a : Action n} (h : s.Legible) (ho : s.Orderly)
    (hm : Move s a s') {x : CtxId} {w : Fin n} {j : Job} (hj : (s.worker w).carries x = some j) :
    (s'.ctx x).ioRecv.buffer.Text j.bytes := by
  rcases ho.ioRecv_cases hm x with e | ⟨hv, -⟩ | ⟨o, bs, -, hmem, rfl, hk, -⟩
  · exact e ▸ h.carried x w j hj
  · rw [hv.2 w] at hj
    cases hj
  · have hpos : 0 < s.outstanding .recv o.ctx := hk ▸ outstanding_pos hmem
    exact absurd (Worker.reading_of_carries hj) (ho.single.not_reading hpos w)

theorem Legible.carried_step {a : Action n} (h : s.Legible) (ho : s.Orderly) (hm : Move s a s')
    {x : CtxId} {w : Fin n} {j : Job} (hj : (s'.worker w).carries x = some j) :
    (s'.ctx x).ioRecv.buffer.Text j.bytes := by
  have hmove := hm
  rcases hm with hm | hm | hm | hm
  · exact h.text_of_carries ho hmove (hm.frame.2.2.2.2.2.1 ▸ hj)
  · exact h.text_of_carries ho hmove (hm.frame.1 ▸ hj)
  · rcases hm.carries_cases hj with hj | ⟨-, -, op, c, rfl, hmem, rfl, hk, hst, -⟩
    · exact h.text_of_carries ho hmove hj
    · have htext := h.of_mem ho hmove (by simp) hmem hk
      rwa [Op.Text, hst] at htext
  · exact h.text_of_carries ho hmove (hm.frame.2.2.2.2.2.2.1 ▸ hj)

theorem Legible.step {a : Action n} (h : s.Legible) (ho : s.Orderly) (hG : Undisturbed s a)
    (hm : Move s a s') : s'.Legible :=
  ⟨h.ops_step ho hG hm, fun _ _ _ hj => h.carried_step ho hm hj⟩

/-! ### The send records -/

theorem Kept.unsent_le (hk : s.Kept s') (y : CtxId) : s'.unsent y ≤ s.unsent y := by
  obtain ⟨f, hf, hfo⟩ := hk.exists_map
  rw [unsent, unsent, hf, List.countP_map]
  refine List.countP_mono_left fun o ho hu => ?_
  simp only [Function.comp_apply, decide_eq_true_eq] at hu ⊢
  rcases (hfo o ho).2.2 with e | ⟨e, -⟩
  · exact e ▸ hu
  · exact Op.Unsent.of_abort (e ▸ hu)

/-- An operation replaced by one that transmits no more than before. -/
theorem unsent_replaceOp_le {o : Op} (ho : o ∈ s.ops) (o' : Op) {y : CtxId}
    (h : o'.Unsent y → o.Unsent y) : (s.replaceOp o o').unsent y ≤ s.unsent y := by
  have hperm := (List.perm_cons_erase ho).countP_eq fun o => decide (o.Unsent y)
  rw [unsent, unsent, hperm]
  simp only [replaceOp, List.countP_cons, decide_eq_true_eq]
  split_ifs with h₁ h₂
  · exact le_rfl
  · exact absurd (h h₁) h₂
  · exact Nat.le_succ _
  · exact le_rfl

end State

/-- Only a posted send adds bytes to be transmitted. -/
theorem Move.unsent_le {a : Action n} (hm : Move s a s') (y : CtxId) :
    s'.unsent y ≤ s.unsent y + if s.posts a = some (.send, y) then 1 else 0 := by
  have posted : ∀ {t : State n} {x k len}, t.ops = .posted x k len :: s.ops →
      s.posts a = some (k, x) →
      t.unsent y ≤ s.unsent y + if s.posts a = some (.send, y) then 1 else 0 := by
    intro t x k len hops hp
    rw [unsent, hops, List.countP_cons, hp]
    refine Nat.add_le_add_left ?_ _
    split_ifs with hu hne
    · exact le_rfl
    · have hu' : x = y ∧ k = .send := ⟨(of_decide_eq_true hu).1, (of_decide_eq_true hu).2.1⟩
      exact absurd (by rw [hu'.1, hu'.2]) hne
    · exact Nat.zero_le _
    · exact le_rfl
  rcases hm with hm | hm | hm | hm
  · exact (hm.kept.unsent_le y).trans (Nat.le_add_right _ _)
  · rcases hm.ops_eq with ⟨hk, -⟩ | ⟨x, hp, -, hops⟩
    · exact (hk.unsent_le y).trans (Nat.le_add_right _ _)
    · exact posted hops hp
  · rcases hm.ops_eq with hk | ⟨op, c, -, ho, -, -, hops⟩ | ⟨j, hw, rfl, -, hops⟩ |
      ⟨j, b, io, hw, rfl, hf, hk⟩
    · exact (hk.unsent_le y).trans (Nat.le_add_right _ _)
    · rw [unsent, hops]
      exact List.erase_sublist.countP_le.trans (Nat.le_add_right _ _)
    · exact posted hops (by simp [posts, hw])
    · exact (hk.unsent_le y).trans (posted rfl (by simp [posts, hw, hf]))
  · refine le_trans ?_ (Nat.le_add_right _ _)
    cases hm with
    | @arrived o bs ho hk =>
      refine unsent_replaceOp_le ho { o with status := .done true bs.length } fun hu => ?_
      cases hu.2.2.1
    | @transmitted o k ho hk hst hl =>
      refine unsent_replaceOp_le ho { o with off := o.off + k } fun hu => ?_
      exact ⟨hu.1, hk, hst, (Nat.le_add_right _ _).trans_lt hu.2.2.2⟩
    | @completed o ho hk =>
      refine unsent_replaceOp_le ho { o with status := .done true o.off } fun hu => ?_
      cases hu.2.2.1
    | @failed o ho hst =>
      refine unsent_replaceOp_le ho { o with status := .done false 0 } fun hu => ?_
      cases hu.2.2.1

namespace State

/-- While a worker is between the two halves of `Send`, the record is zeroed and nothing is being
transmitted from it; otherwise one send transmits at most. -/
structure Prepared (s : State n) : Prop where
  zeroed : s.fault = none → ∀ w j b, s.worker w = .busy j (.fill b) →
    (s.ctx b).ioSend.buffer = 0 ∧ s.unsent b = 0
  unsent_le : ∀ y, s.unsent y ≤ 1

/-- Nobody else touches the send record of a worker between the two halves of `Send`. -/
theorem Prepared.stay {a : Action n} (h : s.Prepared) (ho : s.Orderly) (hm : Move s a s')
    (hf : s.fault = none) (hf' : s'.fault = none) {w : Fin n} {j : Job} {b : CtxId}
    (hw : s.worker w = .busy j (.fill b)) (hw' : s'.worker w = .busy j (.fill b)) :
    (s'.ctx b).ioSend.buffer = 0 ∧ s'.unsent b = 0 := by
  obtain ⟨hzero, hunsent⟩ := h.zeroed hf w j b hw
  obtain ⟨hc, hp⟩ := ho.carries_of_send (.inr hw)
  have only : ∀ {v j'}, s.worker v = .busy j' (.send b) ∨ s.worker v = .busy j' (.fill b) →
      v = w := fun hv => (ho.sender_unique hp hc hv).1
  have hposts : s.posts a ≠ some (.send, b) := by
    intro hposts
    rcases posts_eq_some hposts with ⟨d, -, -, -, hk⟩ | ⟨v, j', io, rfl, hv, -⟩ |
      ⟨v, j', -, -, -, hk⟩
    · cases hk
    · obtain rfl := only (.inr hv)
      obtain hm | hm | hm | hm := hm
      obtain ⟨j'', hrecv⟩ := hm.worker_of_posts hposts
      rw [hw'] at hrecv
      cases hrecv
    · cases hk
  refine ⟨?_, ?_⟩
  · rcases hm with hm | hm | hm | hm
    · rw [hm.frame.1, hzero]
    · rcases (hm.records_eq b).1 with e | ⟨rfl, -⟩
      · rw [e, hzero]
      · have hlt := ho.sound.paired.partner_lt (ho.sound.paired.partner_symm hp)
        exact absurd hlt (lt_irrefl _)
    · rcases hm.ioSend_eq b with ⟨e, -⟩ | ⟨j', hv, hv', e⟩ | ⟨j', hv, -⟩
      · rw [e, hzero]
      · rw [e]
        rfl
      · obtain rfl := only (.inr hv)
        rcases hm.busy hw' with ⟨-, -, -, -, hwait, -⟩ | ⟨st, hst, ⟨hfault, -⟩ | hn⟩
        · rw [hw] at hwait
          cases hwait
        · exact absurd hf' hfault
        · obtain ⟨-, rfl⟩ := Worker.busy.inj (hw.symm.trans hst)
          cases hn
    · rw [(hm.records_eq b).1, hzero]
  · have hle := hm.unsent_le b
    rw [if_neg hposts, hunsent] at hle
    omega

theorem Prepared.step {a : Action n} (h : s.Prepared) (ho : s.Orderly) (hf : s.fault = none)
    (hG : Undisturbed s a) (hm : Move s a s') : s'.Prepared := by
  refine ⟨fun hf' w j b hj => ?_, fun y => ?_⟩
  · generalize hst : Stage.fill b = st' at hj
    rcases hm.busy hj with hw | ⟨op, c, ok, bytes, -, -, -, rfl, -⟩ | ⟨o, st₀, rfl, hw, hn⟩
    · subst hst
      exact h.stay ho hm hf hf' hw hj
    · cases hst
    · cases hn with
      | zeroed c =>
        obtain rfl := Stage.fill.inj hst
        -- this worker has just cleared the record
        have hclear : s.unsent b = 0 := by simpa only [Undisturbed, hw] using hG
        have hle := hm.unsent_le b
        have hposts : s.posts (.worker w o) = none := by
          cases o <;> simp [posts, hw]
        rw [hposts, hclear] at hle
        refine ⟨?_, Nat.le_zero.mp hle⟩
        rcases hm with - | - | hm | -
        rw [hm.ioSend_of_send hw]
        rfl
      | dispatch =>
        unfold State.dispatch at hst
        split_ifs at hst
      | _ => cases hst
  · have hle := hm.unsent_le y
    split_ifs at hle with hp
    · rcases posts_eq_some hp with ⟨d, -, -, -, hk⟩ | ⟨w, j, io, -, hw, -⟩ | ⟨w, j, -, -, -, hk⟩
      · cases hk
      · rwa [(h.zeroed hf w j y hw).2] at hle
      · cases hk
    · exact hle.trans (h.unsent_le y)

end State

end IocpProxy
