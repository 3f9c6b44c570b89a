import Wilupgu.Backend.Dtype
import Mathlib.Algebra.BigOperators.Group.List.Basic
import Mathlib.Algebra.Ring.Nat
import Mathlib.Data.List.Perm.Basic

/-! # Freed buffers kept for reuse

src/backend/pool.rs. The map from a key to its buffers is one list of keyed
buffers, the last one recycled first: what `pop` takes is the first of its
key. Who holds the pool's lock can't panic, so the lock is left out. -/

namespace Wilupgu.Backend

open Rounding

/-- The kind and length a buffer was made for. -/
abbrev Key := DataKind × Nat

structure BufferPool (Buf : Type) where
  maxFreeBytes : Nat
  blocks : List (Key × Buf)
  bytes : Nat
  deriving DecidableEq

namespace BufferPool

variable {Buf : Type} (size : Buf → Nat) {pool pool' : BufferPool Buf} {key : Key} {buf : Buf}

/-- An empty pool that keeps at most `maxFreeBytes` of free buffers. -/
def new (maxFreeBytes : Nat) : BufferPool Buf := ⟨maxFreeBytes, [], 0⟩

/-- The buffers it keeps. -/
def buffers (pool : BufferPool Buf) : List Buf := pool.blocks.map Prod.snd

/-- A free buffer made for `kind` and `elemCount`, if one is kept. -/
def take (kind : DataKind) (elemCount : Nat) (pool : BufferPool Buf) :
    Option Buf × BufferPool Buf :=
  match pool.blocks.find? fun b => b.1 == (kind, elemCount) with
  | none => (none, pool)
  | some (_, buf) =>
    (some buf,
      { pool with
        blocks := pool.blocks.eraseP fun b => b.1 == (kind, elemCount)
        bytes := wrapSub pool.bytes (size buf) })

/-- Hands `buf` back when keeping it would go over `maxFreeBytes`. -/
def recycle (kind : DataKind) (elemCount : Nat) (buf : Buf) (pool : BufferPool Buf) :
    Option Buf × BufferPool Buf :=
  if pool.maxFreeBytes < wrap (pool.bytes + size buf) then
    (some buf, pool)
  else
    (none,
      { pool with
        blocks := ((kind, elemCount), buf) :: pool.blocks
        bytes := wrap (pool.bytes + size buf) })

/-- Empties the pool. -/
def drain (pool : BufferPool Buf) : List Buf × BufferPool Buf :=
  (pool.buffers, { pool with blocks := [], bytes := 0 })

/-! ## Where the buffers are -/

theorem find?_perm {α : Type} {p : α → Bool} {l : List α} {a : α} (h : l.find? p = some a) :
    l.Perm (a :: l.eraseP p) := by
  obtain ⟨hp, l₁, l₂, rfl, hl₁⟩ := List.find?_eq_some_iff_append.mp h
  have hno : ∀ b ∈ l₁, ¬p b = true := fun b hb => by simpa using hl₁ b hb
  rw [List.eraseP_append_right _ hno, List.eraseP_cons_of_pos hp]
  exact List.perm_middle

/-- Taking a buffer hands out one kept under the key and keeps the others. -/
theorem take_some {kind : DataKind} {elemCount : Nat}
    (h : pool.take size kind elemCount = (some buf, pool')) :
    pool.blocks.Perm (((kind, elemCount), buf) :: pool'.blocks) := by
  unfold take at h
  split at h
  · cases h
  · rename_i k b hf
    have hk : k = (kind, elemCount) := by simpa using List.find?_some hf
    cases h
    subst hk
    exact find?_perm hf

theorem take_none {kind : DataKind} {elemCount : Nat}
    (h : pool.take size kind elemCount = (none, pool')) : pool' = pool := by
  unfold take at h
  split at h
  · cases h; rfl
  · cases h

/-- A recycled buffer is handed back, or kept with the others under its key. -/
theorem recycle_cases (kind : DataKind) (elemCount : Nat) (buf : Buf) (pool : BufferPool Buf) :
    pool.recycle size kind elemCount buf = (some buf, pool) ∨
      ∃ pool', pool.recycle size kind elemCount buf = (none, pool') ∧
        pool'.blocks = ((kind, elemCount), buf) :: pool.blocks := by
  unfold recycle
  split
  · exact .inl rfl
  · exact .inr ⟨_, rfl, rfl⟩

/-! ## What it counts -/

/-- It counts the bytes of the buffers it keeps, and keeps no more than it may. -/
structure Counts (pool : BufferPool Buf) : Prop where
  bytes : pool.bytes = (pool.buffers.map size).sum
  bounded : pool.bytes ≤ pool.maxFreeBytes

theorem Counts.new (maxFreeBytes : Nat) : (new maxFreeBytes : BufferPool Buf).Counts size :=
  ⟨rfl, Nat.zero_le _⟩

theorem Counts.take {kind : DataKind} {elemCount : Nat} (h : pool.Counts size)
    (hlt : pool.bytes < limit) (ht : pool.take size kind elemCount = (some buf, pool')) :
    pool'.Counts size ∧ pool'.maxFreeBytes = pool.maxFreeBytes := by
  have hsum := (((take_some size ht).map Prod.snd).map size).sum_eq
  rw [List.map_cons, List.map_cons, List.sum_cons] at hsum
  have hbytes : pool.bytes = size buf + (pool'.buffers.map size).sum := h.bytes.trans hsum
  unfold BufferPool.take at ht
  split at ht
  · cases ht
  · cases ht
    have hwrap := wrapSub_of_le (n := pool.bytes) (m := size buf) (by omega) hlt
    refine ⟨⟨hwrap.trans (by omega), ?_⟩, rfl⟩
    exact hwrap.le.trans ((Nat.sub_le _ _).trans h.bounded)

theorem Counts.recycle {kind : DataKind} {elemCount : Nat} {back : Option Buf}
    (h : pool.Counts size) (hlt : pool.bytes + size buf < limit)
    (hr : pool.recycle size kind elemCount buf = (back, pool')) :
    pool'.Counts size ∧ pool'.maxFreeBytes = pool.maxFreeBytes := by
  unfold BufferPool.recycle at hr
  rw [wrap_of_lt hlt] at hr
  split at hr <;> cases hr
  · exact ⟨h, rfl⟩
  · refine ⟨⟨?_, Nat.not_lt.mp ‹_›⟩, rfl⟩
    rw [buffers, List.map_cons, List.map_cons, List.sum_cons, Nat.add_comm, h.bytes]
    rfl

end BufferPool
end Wilupgu.Backend
