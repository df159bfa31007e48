import Mathlib.Data.BitVec

/-!
# MiniGC.Platform

Machine words, result codes, and what `MiniGCPlatform.h` takes from the operating system: pages
and the pointer compare-exchange.

The page allocator is outside the repository. `Pages size` is what `mmap` and `VirtualAlloc`
document about a mapping of `size` bytes made without an address hint: it is not at null, it starts
on a page, and it lies in the user half of the address space.
-/

namespace MiniGC

/-- A pointer, a `size_t` or a `uintptr_t` of the 64-bit targets. -/
abbrev W := BitVec 64

/-- Pointer arithmetic that stays inside the address space does not wrap. -/
theorem toNat_add_of_lt {x y : W} (h : x.toNat + y.toNat < 2 ^ 64) :
    (x + y).toNat = x.toNat + y.toNat := by
  rw [BitVec.toNat_add, Nat.mod_eq_of_lt h]

/-- The `size_t` cast of a pointer difference, where the pointers are in order. -/
theorem toNat_sub_of_le {x y : W} (h : y.toNat ≤ x.toNat) :
    (x - y).toNat = x.toNat - y.toNat := by
  rw [BitVec.toNat_sub_of_le h]

/-- The `HRESULT` values the collector returns. -/
inductive HResult where
  | sOk
  | eFail
  | eOutOfMemory
  | eInvalidArg
  deriving DecidableEq, Repr

structure Pages (size : W) where
  addr : W
  ne_null : addr ≠ 0
  aligned : addr.toNat % 4096 = 0
  user : addr.toNat + size.toNat ≤ 2 ^ 63

/-- One call's worth of answers of the operating system: a mapping of each size, or none, and
whether unmapping an address succeeds. -/
structure Os where
  map : (size : W) → Option (Pages size)
  unmap : W → Bool

/-- The mapping at `addr`, where the operating system may put one there. -/
def Pages.at? (addr size : W) : Option (Pages size) :=
  if h : addr ≠ 0 ∧ addr.toNat % 4096 = 0 ∧ addr.toNat + size.toNat ≤ 2 ^ 63 then
    some ⟨addr, h.1, h.2.1, h.2.2⟩
  else none

/-- `MiniGCAllocatePages`, with the list of mappings the collector holds. -/
def allocatePages (os : Os) (held : List (W × W)) (size : W) : List (W × W) × W :=
  match os.map size with
  | some result => ((result.addr, size) :: held, result.addr)
  | none => (held, 0)

/-- `MiniGCFreePages`. -/
def freePages (os : Os) (held : List (W × W)) (address size : W) : List (W × W) × Bool :=
  if address ≠ 0 ∧ os.unmap address then (held.erase (address, size), true) else (held, false)

/-- Where unmapping succeeds, the mapping made last can be given back. -/
theorem freePages_cons {os : Os} {address : W} (hne : address ≠ 0) (hos : os.unmap address = true)
    (held : List (W × W)) (size : W) :
    freePages os ((address, size) :: held) address size = (held, true) := by
  rw [freePages, if_pos ⟨hne, hos⟩, List.erase_cons_head]

/-- `MiniGCCompareExchangePointer`: what `*target` holds afterwards, and the value returned. -/
def compareExchangePointer (target exchange comparand : W) : W × W :=
  -- a failed exchange overwrites `expected`, which starts as the comparand, with `*target`
  if target = comparand then (exchange, comparand) else (target, target)

/-- The call returns the old content, whether it exchanged or not. -/
@[simp] theorem compareExchangePointer_result (target exchange comparand : W) :
    (compareExchangePointer target exchange comparand).2 = target := by
  unfold compareExchangePointer
  split
  · exact Eq.symm ‹_›
  · rfl

@[simp] theorem compareExchangePointer_target (target exchange comparand : W) :
    (compareExchangePointer target exchange comparand).1 =
      if target = comparand then exchange else target := by
  unfold compareExchangePointer
  split <;> rfl

end MiniGC
