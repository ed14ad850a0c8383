import Mathlib

/-!
# Socket addresses

The driver and the proxy exchange addresses as `SOCKADDR_STORAGE` values, blocks of 128 bytes. An
IPv4 address is a `sockaddr_in` at the start of such a block: two bytes of address family, two
bytes of port in network order, four bytes of address in network order.

## Main definitions

* `IocpProxy.SockAddrStorage`, with the fields `sinFamily`, `sinPort`, `sinAddr`.
* `IocpProxy.RedirectContext` : the two addresses the driver hands to the proxy.

## Main results

* `IocpProxy.RedirectContext.ofBytes_take` : what arrives when only the start of the array is handed
  over.
* `IocpProxy.RedirectContext.ofBytes_take_eq_iff` : when that is the whole array.
-/

namespace IocpProxy

/-- `sizeof(SOCKADDR_STORAGE)`. -/
abbrev sizeofSockAddrStorage : ℕ := 128

/-- `SOCKADDR_STORAGE`, as bytes. -/
abbrev SockAddrStorage := Fin sizeofSockAddrStorage → UInt8

namespace SockAddrStorage

/-- `sin_family`. -/
def sinFamily (a : SockAddrStorage) : UInt8 × UInt8 := (a 0, a 1)

/-- `sin_port`. -/
def sinPort (a : SockAddrStorage) : UInt8 × UInt8 := (a 2, a 3)

/-- `sin_addr`. -/
def sinAddr (a : SockAddrStorage) : UInt8 × UInt8 × UInt8 × UInt8 := (a 4, a 5, a 6, a 7)

/-- Store a port in network order. -/
def setPort (a : SockAddrStorage) (p : UInt8 × UInt8) : SockAddrStorage :=
  fun i => if i = 2 then p.1 else if i = 3 then p.2 else a i

/-- Store an address in network order. -/
def setAddr (a : SockAddrStorage) (p : UInt8 × UInt8 × UInt8 × UInt8) : SockAddrStorage :=
  fun i => if i = 4 then p.1 else if i = 5 then p.2.1 else if i = 6 then p.2.2.1
    else if i = 7 then p.2.2.2 else a i

@[simp] theorem sinPort_setPort (a : SockAddrStorage) (p : UInt8 × UInt8) :
    (a.setPort p).sinPort = p := rfl

@[simp] theorem sinAddr_setPort (a : SockAddrStorage) (p : UInt8 × UInt8) :
    (a.setPort p).sinAddr = a.sinAddr := rfl

@[simp] theorem sinAddr_setAddr (a : SockAddrStorage) (p : UInt8 × UInt8 × UInt8 × UInt8) :
    (a.setAddr p).sinAddr = p := rfl

/-- Addresses with the same first eight bytes are the same IPv4 address. -/
theorem sockaddrIn_eq {a b : SockAddrStorage}
    (h : ∀ i : Fin sizeofSockAddrStorage, (i : ℕ) < 8 → a i = b i) :
    a.sinFamily = b.sinFamily ∧ a.sinPort = b.sinPort ∧ a.sinAddr = b.sinAddr := by
  simp only [sinFamily, sinPort, sinAddr, Prod.mk.injEq]
  refine ⟨⟨h 0 ?_, h 1 ?_⟩, ⟨h 2 ?_, h 3 ?_⟩, h 4 ?_, h 5 ?_, h 6 ?_, h 7 ?_⟩ <;> decide

end SockAddrStorage

/-- An array of two `SOCKADDR_STORAGE`: the original remote and local address of a connection. -/
abbrev RedirectContext := Fin 2 → SockAddrStorage

/-- The bytes of the array in memory order. -/
def RedirectContext.bytes (c : RedirectContext) : List UInt8 := List.ofFn (c 0) ++ List.ofFn (c 1)

/-- Bytes stored at the start of zeroed memory, read as the array. -/
def RedirectContext.ofBytes (bs : List UInt8) : RedirectContext :=
  fun e i => bs.getD (e * sizeofSockAddrStorage + i) 0

/-- The first element, the remote address. -/
def RedirectContext.remote (c : RedirectContext) : SockAddrStorage := c 0

/-- Overwrite the two elements. -/
def RedirectContext.store (c : RedirectContext) (remoteAddr localAddr : SockAddrStorage) :
    RedirectContext :=
  Function.update (Function.update c 0 remoteAddr) 1 localAddr

@[simp] theorem RedirectContext.remote_store (c : RedirectContext) (a b : SockAddrStorage) :
    (c.store a b).remote = a := by
  simp [store, remote]

theorem RedirectContext.getElem?_bytes (c : RedirectContext) (e : Fin 2)
    (i : Fin sizeofSockAddrStorage) :
    c.bytes[(e : ℕ) * sizeofSockAddrStorage + i]? = some (c e i) := by
  obtain rfl | rfl : e = 0 ∨ e = 1 := by omega
  · rw [Fin.val_zero, Nat.zero_mul, Nat.zero_add, bytes,
      List.getElem?_append_left (by rw [List.length_ofFn]; exact i.2), List.getElem?_ofFn,
      dif_pos i.2]
  · rw [Fin.val_one, Nat.one_mul, bytes,
      List.getElem?_append_right (by rw [List.length_ofFn]; omega), List.length_ofFn,
      Nat.add_sub_cancel_left, List.getElem?_ofFn, dif_pos i.2]

/-- The bytes that are handed over arrive, and the others are zero. -/
theorem RedirectContext.ofBytes_take (c : RedirectContext) (m : ℕ) (e : Fin 2)
    (i : Fin sizeofSockAddrStorage) :
    ofBytes (c.bytes.take m) e i =
      if (e : ℕ) * sizeofSockAddrStorage + i < m then c e i else 0 := by
  rw [ofBytes, List.getD_eq_getElem?_getD, List.getElem?_take]
  split_ifs with hm
  · rw [c.getElem?_bytes, Option.getD_some]
  · rfl

/-- Of the first element, the bytes that are handed over arrive, and the others are zero. -/
theorem RedirectContext.remote_ofBytes_take (c : RedirectContext) (m : ℕ)
    (i : Fin sizeofSockAddrStorage) :
    (ofBytes (c.bytes.take m)).remote i = if (i : ℕ) < m then c.remote i else 0 := by
  rw [remote, c.ofBytes_take, Fin.val_zero, Nat.zero_mul, Nat.zero_add, remote]

/-- When no more than the first element is handed over, the array arrives exactly if the rest of it
is zero. -/
theorem RedirectContext.ofBytes_take_eq_iff (c : RedirectContext) {m : ℕ}
    (hm : m ≤ sizeofSockAddrStorage) :
    ofBytes (c.bytes.take m) = c ↔
      (∀ i : Fin sizeofSockAddrStorage, m ≤ (i : ℕ) → c 0 i = 0) ∧ ∀ i, c 1 i = 0 := by
  constructor
  · intro h
    have hbyte := fun e i => (c.ofBytes_take m e i).symm.trans (congrFun (congrFun h e) i)
    refine ⟨fun i hi => ?_, fun i => ?_⟩
    · rw [← hbyte 0 i, if_neg (by rw [Fin.val_zero, Nat.zero_mul, Nat.zero_add]; omega)]
    · rw [← hbyte 1 i, if_neg (by rw [Fin.val_one, Nat.one_mul]; omega)]
  · rintro ⟨h₀, h₁⟩
    ext e i : 2
    rw [c.ofBytes_take]
    split_ifs with hlt
    · rfl
    · obtain rfl | rfl : e = 0 ∨ e = 1 := by omega
      · rw [Fin.val_zero, Nat.zero_mul, Nat.zero_add] at hlt
        exact (h₀ i (not_lt.mp hlt)).symm
      · exact (h₁ i).symm

end IocpProxy
