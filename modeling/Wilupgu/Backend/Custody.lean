import Mathlib.Algebra.BigOperators.Group.List.Basic
import Mathlib.Algebra.Order.BigOperators.Group.List
import Mathlib.Algebra.Ring.Nat
import Mathlib.Logic.Function.Basic
import Wilupgu.Backend.Pool
import Wilupgu.Lib.Transition

/-! # Who has a buffer

The calls of a pool's threads run one after another, in the order its lock lets
them in. What they return says where each buffer is: kept, or with a caller,
who can pass it in again. The pool's map and its count of bytes agree with that
after every call. -/

namespace Wilupgu.Backend

open Rounding Transition

/-- Where a buffer is. -/
inductive Place where
  /-- It wasn't passed in so far. -/
  | fresh
  | refused (key : Key)
  | kept (key : Key)
  | taken (key : Key)
  | drained
  deriving DecidableEq, Repr

/-- A call and what it returned. -/
inductive PoolCall (Buf : Type) where
  | recycle (key : Key) (buf : Buf) (back : Option Buf)
  | take (key : Key) (got : Option Buf)
  | drain (got : List Buf)

/-- The buffers of a program, each of a size, together less than 64 bits count. -/
structure Stock (Buf : Type) where
  bufs : List Buf
  size : Buf → Nat
  nodup : bufs.Nodup
  total : (bufs.map size).sum < limit

/-- A pool and where its buffers are. -/
structure Custody (Buf : Type) where
  pool : BufferPool Buf
  place : Buf → Place

namespace Custody

variable {Buf : Type} {stock : Stock Buf} {c c' : Custody Buf}
  {call : PoolCall Buf} {calls : List (PoolCall Buf)}

def start (maxFreeBytes : Nat) : Custody Buf := ⟨.new maxFreeBytes, fun _ => .fresh⟩

/-- The pool keeps what the calls left with it, and counts its bytes. -/
structure Exact (stock : Stock Buf) (c : Custody Buf) : Prop where
  kept : ∀ key buf, (key, buf) ∈ c.pool.blocks ↔ c.place buf = .kept key
  once : c.pool.buffers.Nodup
  known : ∀ buf ∈ c.pool.buffers, buf ∈ stock.bufs
  bytes : c.pool.bytes = (c.pool.buffers.map stock.size).sum
  bounded : c.pool.bytes ≤ c.pool.maxFreeBytes

/-- What a call returns comes from where it should, and its count neither runs
over nor under. -/
def Sound (stock : Stock Buf) (c : Custody Buf) : PoolCall Buf → Prop
  | .recycle _ buf back =>
    c.pool.bytes + stock.size buf < limit ∧ ∀ b, back = some b → b = buf
  | .take key got =>
    ∀ buf, got = some buf → c.place buf = .kept key ∧ stock.size buf ≤ c.pool.bytes
  | .drain got => got.Nodup ∧ ∀ buf, buf ∈ got ↔ ∃ key, c.place buf = .kept key

/-- It passes this buffer in. -/
def PassesIn (buf : Buf) : PoolCall Buf → Prop
  | .recycle _ b _ => b = buf
  | _ => False

/-- A call of some thread. Only who has a buffer can pass it in. -/
inductive Step [DecidableEq Buf] (stock : Stock Buf) : Custody Buf → PoolCall Buf → Custody Buf → Prop
  | recycle {c : Custody Buf} {key : Key} {buf : Buf} {back : Option Buf} {pool : BufferPool Buf} :
      buf ∈ stock.bufs → (∀ key, c.place buf ≠ .kept key) →
      c.pool.recycle stock.size key.1 key.2 buf = (back, pool) →
      Step stock c (.recycle key buf back)
        ⟨pool, Function.update c.place buf (if back = none then .kept key else .refused key)⟩
  | takeNone {c : Custody Buf} {key : Key} {pool : BufferPool Buf} :
      c.pool.take stock.size key.1 key.2 = (none, pool) →
      Step stock c (.take key none) ⟨pool, c.place⟩
  | takeSome {c : Custody Buf} {key : Key} {buf : Buf} {pool : BufferPool Buf} :
      c.pool.take stock.size key.1 key.2 = (some buf, pool) →
      Step stock c (.take key (some buf)) ⟨pool, Function.update c.place buf (.taken key)⟩
  | drain {c : Custody Buf} {got : List Buf} {pool : BufferPool Buf} :
      c.pool.drain = (got, pool) →
      Step stock c (.drain got) ⟨pool, fun buf => if buf ∈ got then .drained else c.place buf⟩

/-! ## One call -/

theorem mem_buffers {pool : BufferPool Buf} {buf : Buf} :
    buf ∈ pool.buffers ↔ ∃ key, (key, buf) ∈ pool.blocks := by
  simp [BufferPool.buffers]

/-- Buffers without duplicates are together no more than all of them. -/
theorem sum_le_stock (stock : Stock Buf) {l : List Buf} (hl : l.Nodup)
    (hin : ∀ buf ∈ l, buf ∈ stock.bufs) : (l.map stock.size).sum < limit := by
  have hsub : l.Subperm stock.bufs := List.subperm_of_subset hl hin
  obtain ⟨l', hperm, hsublist⟩ := hsub
  have hsum : (l.map stock.size).sum = (l'.map stock.size).sum :=
    ((hperm.map stock.size).sum_eq).symm
  have hle : (l'.map stock.size).sum ≤ (stock.bufs.map stock.size).sum :=
    (hsublist.map stock.size).sum_le_sum fun _ _ => Nat.zero_le _
  rw [hsum]
  exact Nat.lt_of_le_of_lt hle stock.total

theorem start_exact (maxFreeBytes : Nat) : Exact stock (start maxFreeBytes) where
  kept _ _ := by simp [start, BufferPool.new]
  once := .nil
  known _ hbuf := by cases hbuf
  bytes := rfl
  bounded := Nat.zero_le _

namespace Exact

/-- With a buffer that isn't kept the count stays below its limit. -/
theorem add_lt (h : Exact stock c) {buf : Buf} (hin : buf ∈ stock.bufs)
    (hout : buf ∉ c.pool.buffers) : c.pool.bytes + stock.size buf < limit := by
  have hlt : ((buf :: c.pool.buffers).map stock.size).sum < limit :=
    sum_le_stock stock (List.nodup_cons.mpr ⟨hout, h.once⟩) (List.forall_mem_cons.mpr ⟨hin, h.known⟩)
  rw [List.map_cons, List.sum_cons, ← h.bytes] at hlt
  omega

theorem not_mem_buffers (h : Exact stock c) {buf : Buf} (hplace : ∀ key, c.place buf ≠ .kept key) :
    buf ∉ c.pool.buffers := by
  intro hmem
  obtain ⟨key, hkey⟩ := mem_buffers.mp hmem
  exact hplace key ((h.kept key buf).mp hkey)

/-- What `take` finds. -/
theorem take_spec (h : Exact stock c) {key : Key} {buf : Buf} {pool : BufferPool Buf}
    (hcall : c.pool.take stock.size key.1 key.2 = (some buf, pool)) :
    c.place buf = .kept key ∧ stock.size buf ≤ c.pool.bytes ∧
      c.pool.buffers.Perm (buf :: pool.buffers) := by
  have hperm := BufferPool.take_some stock.size hcall
  have hbuffers : c.pool.buffers.Perm (buf :: pool.buffers) := hperm.map Prod.snd
  have hmem : (key, buf) ∈ c.pool.blocks := hperm.mem_iff.mpr List.mem_cons_self
  refine ⟨(h.kept key buf).mp hmem, ?_, hbuffers⟩
  rw [h.bytes, (hbuffers.map stock.size).sum_eq, List.map_cons, List.sum_cons]
  exact Nat.le_add_right _ _

section Calls

variable [DecidableEq Buf]

theorem recycle (h : Exact stock c) {key : Key} {buf : Buf} {back : Option Buf}
    {pool : BufferPool Buf} (hin : buf ∈ stock.bufs) (hplace : ∀ key, c.place buf ≠ .kept key)
    (hcall : c.pool.recycle stock.size key.1 key.2 buf = (back, pool)) :
    Exact stock
      ⟨pool, Function.update c.place buf (if back = none then .kept key else .refused key)⟩ := by
  have hout := h.not_mem_buffers hplace
  unfold BufferPool.recycle at hcall
  split at hcall
  · -- refused: the pool is as it was
    cases hcall
    refine ⟨fun k b => ?_, h.once, h.known, h.bytes, h.bounded⟩
    show (k, b) ∈ c.pool.blocks ↔ Function.update c.place buf (.refused key) b = .kept k
    rw [h.kept, Function.update_apply]
    split
    · rename_i hb
      subst hb
      simp [hplace]
    · rfl
  · rename_i hfits
    have hwrap := wrap_of_lt (h.add_lt hin hout)
    rw [hwrap] at hfits hcall
    cases hcall
    refine ⟨fun k b => ?_, List.nodup_cons.mpr ⟨hout, h.once⟩,
      List.forall_mem_cons.mpr ⟨hin, h.known⟩, ?_, Nat.le_of_not_lt hfits⟩
    · show (k, b) ∈ (key, buf) :: c.pool.blocks ↔
        Function.update c.place buf (.kept key) b = .kept k
      rw [List.mem_cons, h.kept, Function.update_apply]
      split
      · rename_i hb
        subst hb
        simp [hplace, eq_comm]
      · rename_i hb
        simp [hb]
    · show c.pool.bytes + stock.size buf = ((buf :: c.pool.buffers).map stock.size).sum
      rw [List.map_cons, List.sum_cons, h.bytes, Nat.add_comm]

theorem take (h : Exact stock c) {key : Key} {buf : Buf} {pool : BufferPool Buf}
    (hcall : c.pool.take stock.size key.1 key.2 = (some buf, pool)) :
    Exact stock ⟨pool, Function.update c.place buf (.taken key)⟩ := by
  obtain ⟨hplace, hle, hbuffers⟩ := h.take_spec hcall
  have hperm := BufferPool.take_some stock.size hcall
  obtain ⟨hgone, hnodup⟩ := List.nodup_cons.mp (hbuffers.nodup_iff.mp h.once)
  have hlt : c.pool.bytes < limit := by
    rw [h.bytes]
    exact sum_le_stock stock h.once h.known
  have hbytes : pool.bytes = c.pool.bytes - stock.size buf ∧
      pool.maxFreeBytes = c.pool.maxFreeBytes := by
    unfold BufferPool.take at hcall
    split at hcall
    · cases hcall
    · cases hcall
      exact ⟨wrapSub_of_le hle hlt, rfl⟩
  refine ⟨fun k b => ?_, hnodup, fun b hb => h.known b ?_, ?_, ?_⟩
  · show (k, b) ∈ pool.blocks ↔ Function.update c.place buf (.taken key) b = .kept k
    rw [Function.update_apply]
    split
    · rename_i hb
      subst hb
      simp only [reduceCtorEq, iff_false]
      exact fun hmem => hgone (mem_buffers.mpr ⟨k, hmem⟩)
    · rename_i hb
      rw [← h.kept, hperm.mem_iff]
      simp [hb]
  · exact hbuffers.mem_iff.mpr (List.mem_cons_of_mem _ hb)
  · have hsum := h.bytes
    rw [(hbuffers.map stock.size).sum_eq, List.map_cons, List.sum_cons] at hsum
    show pool.bytes = (pool.buffers.map stock.size).sum
    rw [hbytes.1]
    omega
  · have hbounded := h.bounded
    show pool.bytes ≤ pool.maxFreeBytes
    rw [hbytes.1, hbytes.2]
    omega

theorem drain (h : Exact stock c) {got : List Buf} {pool : BufferPool Buf}
    (hcall : c.pool.drain = (got, pool)) :
    Exact stock ⟨pool, fun buf => if buf ∈ got then .drained else c.place buf⟩ := by
  cases hcall
  refine ⟨fun key buf => ?_, .nil, fun _ hbuf => ?_, rfl, Nat.zero_le _⟩
  · constructor
    · intro hmem
      cases hmem
    · intro hkept
      have hkept : (if buf ∈ c.pool.buffers then .drained else c.place buf) = .kept key := hkept
      split at hkept
      · cases hkept
      · rename_i hout
        exact absurd (mem_buffers.mpr ⟨key, (h.kept key buf).mpr hkept⟩) hout
  · cases hbuf

theorem step (h : Exact stock c) (hs : Step stock c call c') : Exact stock c' := by
  cases hs with
  | recycle hin hplace hcall => exact h.recycle hin hplace hcall
  | takeNone hcall =>
    obtain rfl := BufferPool.take_none stock.size hcall
    exact ⟨h.kept, h.once, h.known, h.bytes, h.bounded⟩
  | takeSome hcall => exact h.take hcall
  | drain hcall => exact h.drain hcall

theorem sound (h : Exact stock c) (hs : Step stock c call c') : Sound stock c call := by
  cases hs with
  | @recycle key buf back pool hin hplace hcall =>
    refine ⟨h.add_lt hin (h.not_mem_buffers hplace), fun b hb => ?_⟩
    rcases BufferPool.recycle_cases stock.size key.1 key.2 buf c.pool with hr | ⟨_, hr, -⟩
    · rw [hr] at hcall
      cases hcall
      exact (Option.some.inj hb).symm
    · rw [hr] at hcall
      cases hcall
      cases hb
  | takeNone hcall => exact fun b hb => by cases hb
  | takeSome hcall =>
    intro b hb
    cases hb
    exact ⟨(h.take_spec hcall).1, (h.take_spec hcall).2.1⟩
  | drain hcall =>
    cases hcall
    refine ⟨h.once, fun buf => mem_buffers.trans ?_⟩
    simp only [h.kept]

/-- A call takes a buffer from its first place only by passing it in. -/
theorem fresh_step (h : Exact stock c) (hs : Step stock c call c') (buf : Buf) :
    c'.place buf = .fresh ↔ c.place buf = .fresh ∧ ¬PassesIn buf call := by
  cases hs with
  | @recycle key b back pool hin hplace hcall =>
    by_cases hb : buf = b
    · subst hb
      simp only [Function.update_self, PassesIn, not_true, and_false, iff_false]
      split <;> simp
    · have hb' : ¬ b = buf := fun h => hb h.symm
      simp [PassesIn, Function.update_of_ne hb, hb']
  | takeNone hcall => simp [PassesIn]
  | @takeSome key b pool hcall =>
    have hkept := (h.take_spec hcall).1
    by_cases hb : buf = b
    · subst hb
      simp [PassesIn, hkept]
    · simp [PassesIn, Function.update_of_ne hb]
  | @drain got pool hcall =>
    have hsound := h.sound (.drain hcall)
    by_cases hmem : buf ∈ got
    · obtain ⟨key, hkept⟩ := (hsound.2 buf).mp hmem
      simp [PassesIn, hmem, hkept]
    · simp [PassesIn, hmem]

end Calls
end Exact

/-! ## Whole runs -/

variable [DecidableEq Buf]

theorem runs_exact {maxFreeBytes : Nat} (h : Runs (Step stock) (start maxFreeBytes) calls c) :
    Exact stock c :=
  h.preserves (fun _ _ _ => Exact.step) (start_exact maxFreeBytes)

theorem runs_fresh (h : Runs (Step stock) c calls c') (hc : Exact stock c) (buf : Buf) :
    c'.place buf = .fresh ↔ c.place buf = .fresh ∧ ∀ call ∈ calls, ¬PassesIn buf call := by
  induction h with
  | nil => simp
  | cons hs _ ih => rw [ih (hc.step hs), hc.fresh_step hs, List.forall_mem_cons, and_assoc]

theorem step_max (hs : Step stock c call c') : c'.pool.maxFreeBytes = c.pool.maxFreeBytes := by
  cases hs with
  | recycle _ _ hcall =>
    unfold BufferPool.recycle at hcall
    split at hcall <;> (cases hcall; rfl)
  | takeNone hcall => rw [BufferPool.take_none stock.size hcall]
  | takeSome hcall =>
    unfold BufferPool.take at hcall
    split at hcall <;> (cases hcall; try rfl)
  | drain hcall => cases hcall; rfl

/-- **The pool accounts exactly.** After any calls of any threads its count is
the size of the buffers it keeps and within its bound, it keeps each buffer
that was passed in and is with no caller, once and under its key, and whatever
call comes next returns what it should, its count never running over or under. -/
theorem pool_accounts_exactly (stock : Stock Buf) (maxFreeBytes : Nat)
    (h : Runs (Step stock) (start maxFreeBytes) calls c) :
    c.pool.bytes = (c.pool.buffers.map stock.size).sum ∧ c.pool.bytes ≤ maxFreeBytes ∧
      c.pool.buffers.Nodup ∧
      (∀ key buf, (key, buf) ∈ c.pool.blocks ↔ c.place buf = .kept key) ∧
      (∀ buf, c.place buf = .fresh ↔ ∀ call ∈ calls, ¬PassesIn buf call) ∧
      ∀ call c', Step stock c call c' → Sound stock c call := by
  have hexact := runs_exact h
  have hmax : c.pool.maxFreeBytes = maxFreeBytes :=
    h.preserves (I := fun c => c.pool.maxFreeBytes = maxFreeBytes)
      (fun _ _ _ hI hs => (step_max hs).trans hI) rfl
  refine ⟨hexact.bytes, hmax ▸ hexact.bounded, hexact.once, hexact.kept, fun buf => ?_,
    fun _ _ hs => hexact.sound hs⟩
  rw [runs_fresh h (start_exact maxFreeBytes)]
  simp [start]

namespace Sample

/-- Two buffers of 60 bytes. -/
def twoBuffers : Stock Bool := ⟨[false, true], fun _ => 60, by decide, by decide⟩

def key : Key := (.F32, 15)

/-- The first one is kept, for the second one is no room. -/
def twoCalls : List (PoolCall Bool) := [.recycle key false none, .recycle key true (some true)]

def full : Custody Bool :=
  ⟨⟨100, [(key, false)], 60⟩,
    Function.update (Function.update (fun _ => .fresh) false (.kept key)) true (.refused key)⟩

theorem runs_full : Runs (Step twoBuffers) (start 100) twoCalls full := by
  refine .cons (.recycle (by decide) (fun _ => Place.noConfusion) rfl) ?_
  refine .cons (.recycle (by decide) (fun _ => Place.noConfusion) rfl) ?_
  exact .nil full

theorem full_accounts_exactly :
    full.pool.bytes = (full.pool.buffers.map twoBuffers.size).sum ∧ full.pool.bytes ≤ 100 :=
  let h := pool_accounts_exactly twoBuffers 100 runs_full
  ⟨h.1, h.2.1⟩

end Sample
end Custody
end Wilupgu.Backend
