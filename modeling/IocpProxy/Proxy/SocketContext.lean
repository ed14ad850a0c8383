import IocpProxy.Library.CString
import IocpProxy.Library.HandleTable
import IocpProxy.Library.Ownership

/-!
# Socket contexts

A `SocketContext` owns one socket, one record for its receives, one record for its sends, and a
pointer to its buddy, the context of the other side of the connection. This file has the data of a
context and the parts of its member functions that touch only the context itself; the parts that
go through the system (posting an operation, dropping a reference) are in
`IocpProxy.Proxy.State`.

The `OVERLAPPED` of a record belongs to the operating system while an operation is outstanding and
no function reads it, so it is represented by the operations of `IocpProxy.Proxy.State`. The
fields `m_Id` and `pFwd_SocketContext` are only printed or unused and are left out.

## Main definitions

* `IocpProxy.Buffer`, `IocpProxy.IoOperationData` : the record of an operation.
* `IocpProxy.IoOperationData.forRecv`, `IocpProxy.IoOperationData.fill` : what `Recv` and `Send`
  store in a record.
* `IocpProxy.BuddySocketContextPtr`, `IocpProxy.SocketContext`.
-/

namespace IocpProxy

/-- `MAX_BUFFER_LEN`. -/
abbrev maxBufferLen : ℕ := 2048

/-- `OP_READ`. -/
abbrev opRead : UInt8 := 0

/-- `OP_WRITE`. -/
abbrev opWrite : UInt8 := 1

/-- The buffer of a record. -/
abbrev Buffer := Fin maxBufferLen → UInt8

namespace Buffer

/-- The byte at an index, zero past the end. -/
def byteAt (b : Buffer) (i : ℕ) : UInt8 := if h : i < maxBufferLen then b ⟨i, h⟩ else 0

/-- The `k` bytes from the index `off` on. -/
def slice (b : Buffer) (off k : ℕ) : List UInt8 := (List.range k).map fun i => b.byteAt (off + i)

/-- The buffer after the operating system stored received bytes at its start. -/
def receive (b : Buffer) (bs : List UInt8) : Buffer := fun i => bs.getD i (b i)

@[simp] theorem length_slice (b : Buffer) (off k : ℕ) : (b.slice off k).length = k := by
  simp [slice]

/-- Adjacent slices concatenate. -/
theorem slice_append (b : Buffer) (off k l : ℕ) :
    b.slice off k ++ b.slice (off + k) l = b.slice off (k + l) := by
  simp only [slice, List.range_add, List.map_append, List.map_map]
  congr 1
  exact List.map_congr_left fun i _ => by simp [Nat.add_assoc]

/-- Slices of buffers that agree on the bytes of the slice agree. -/
theorem slice_congr {b b' : Buffer} {k : ℕ} (h : ∀ j : Fin maxBufferLen, j < k → b j = b' j) :
    b.slice 0 k = b'.slice 0 k := by
  refine List.map_congr_left fun i hi => ?_
  rw [List.mem_range] at hi
  simp only [byteAt, Nat.zero_add]
  split_ifs with hlt
  · exact h ⟨i, hlt⟩ hi
  · rfl

/-- The received bytes are found at the start of the buffer. -/
theorem slice_receive (b : Buffer) {bs : List UInt8} (h : bs.length ≤ maxBufferLen) :
    (b.receive bs).slice 0 bs.length = bs := by
  refine List.ext_getElem (by simp) fun i h₁ h₂ => ?_
  have hi : i < maxBufferLen := h₂.trans_le h
  simp [slice, byteAt, receive, hi, h₂]

end Buffer

/-! ### The record of an operation -/

/-- `IO_OPERATION_DATA`. Its `dataBuf.buf` always points at its own `buffer`. -/
structure IoOperationData where
  ioType : UInt8
  /-- Actual length of the data transmission. -/
  len : UInt16
  /-- `dataBuf.len`. -/
  dataBufLen : ℕ
  buffer : Buffer

namespace IoOperationData

/-- `ZeroMemory`. -/
def zero : IoOperationData := ⟨0, 0, 0, 0⟩

/-- The record as `Recv` hands it to `WSARecv`. -/
def forRecv : IoOperationData := { zero with ioType := opRead, dataBufLen := maxBufferLen }

/-- The record as `Send` hands it to `WSASend`, from the zeroed record: the copy of the
zero-terminated string `szBuffer` may leave the buffer, which is an error. -/
def fill (io : IoOperationData) (szBuffer : Buffer) (length : UInt16) : Option IoOperationData :=
  (CString.strcpy io.buffer szBuffer).map fun b =>
    { io with ioType := opWrite, buffer := b, len := length, dataBufLen := length.toNat }

/-- What a filled record holds. -/
theorem fill_eq_some {io io' : IoOperationData} {szBuffer : Buffer} {length : UInt16}
    (h : io.fill szBuffer length = some io') :
    CString.strcpy io.buffer szBuffer = some io'.buffer ∧ io'.ioType = opWrite ∧
      io'.len = length ∧ io'.dataBufLen = length.toNat := by
  obtain ⟨b, hb, rfl⟩ := Option.map_eq_some_iff.mp h
  exact ⟨hb, rfl, rfl, rfl⟩

/-- Filling leaves the buffers exactly when the string has no terminating zero. -/
theorem fill_eq_none_iff {io : IoOperationData} {szBuffer : Buffer} {length : UInt16} :
    io.fill szBuffer length = none ↔ ∀ j, szBuffer j ≠ 0 := by
  rw [fill, Option.map_eq_none_iff, CString.strcpy_eq_none_iff]

end IoOperationData

/-! ### Contexts -/

/-- A context is named by the position of its creation; the memory of a destroyed context is never
mistaken for another one. -/
abbrev CtxId := ℕ

/-- `BuddySocketContextPtr`: an owning and a non-owning pointer. -/
structure BuddySocketContextPtr where
  strong : Option CtxId
  weak : Option CtxId
  deriving DecidableEq

/-- `BuddySocketContextPtr::Get`: the owning pointer, else the non-owning one if its context is
still alive. -/
def BuddySocketContextPtr.get (p : BuddySocketContextPtr) (live : Finset CtxId) : Option CtxId :=
  match p.strong with
  | some y => some y
  | none => p.weak.filter (· ∈ live)

/-- `SocketContext`. A missing `socket` is `SOCKET_ERROR`; `conn` is the number of the
`AcceptConnection` call that made the context, which the program does not store. -/
structure SocketContext where
  socket : Option Handle
  proxySocket : Bool
  ioRecv : IoOperationData
  ioSend : IoOperationData
  buddy : BuddySocketContextPtr
  conn : ℕ

/-- The constructor of `SocketContext`. -/
def SocketContext.new : SocketContext where
  socket := none
  proxySocket := false
  ioRecv := { IoOperationData.zero with dataBufLen := maxBufferLen, ioType := opRead }
  ioSend := { IoOperationData.zero with dataBufLen := maxBufferLen, ioType := opWrite }
  buddy := ⟨none, none⟩
  conn := 0

end IocpProxy
