import Mathlib.Data.List.Nodup
import Mathlib.Data.List.Perm.Basic
import Mathlib.Algebra.BigOperators.Group.List.Basic
import Mathlib.Tactic.Common

/-! # Threads of a grid

A launch runs one program for each thread of a grid. A thread reads memory,
computes, and ends with one write at most; what it touches is logged. Between
two barriers the threads of a block see what each other stored before the
first one: `peers` is that. A launch runs its threads one after another, each
as one step, in any order. -/

namespace Simt

variable {F α β σ : Type}

/-- Slots of elements. -/
abbrev Memory (F : Type) := Nat → Nat → F

/-- What a thread computes an index or a count for. -/
inductive Touch where
  | load (slot index : Nat)
  | store (slot index : Nat)
  | rounds (n : Nat)
  deriving DecidableEq, Repr

/-- The program of a thread. -/
@[ext] structure Thread (F α : Type) where
  run : Memory F → α × List Touch

/-- A write. -/
structure Store (F : Type) where
  slot : Nat
  index : Nat
  value : F

/-- The write at a thread's end, if it makes one. -/
abbrev Ends (F : Type) := Option (Store F)

namespace Thread

instance : CoeFun (Thread F α) fun _ => Memory F → α × List Touch := ⟨run⟩

instance : Monad (Thread F) where
  pure a := ⟨fun _ => (a, [])⟩
  bind p f := ⟨fun mem => ((f (p mem).1 mem).1, (p mem).2 ++ (f (p mem).1 mem).2)⟩

def load (slot index : Nat) : Thread F F := ⟨fun mem => (mem slot index, [.load slot index])⟩

/-- A loop of `n` rounds is about to run. -/
def rounds (n : Nat) : Thread F Unit := ⟨fun _ => ((), [.rounds n])⟩

def store (slot index : Nat) (value : F) : Thread F (Ends F) :=
  ⟨fun _ => (some ⟨slot, index, value⟩, [.store slot index])⟩

/-- What the threads of the block stored, by the place each stored it at. Their
loads are in their own logs. -/
def peers (p : Nat → Thread F α) : Thread F (Nat → α) :=
  ⟨fun mem => (fun i => (p i mem).1, [])⟩

/-- `for i in 0..n`. -/
def loop (n : Nat) (s : σ) (body : σ → Nat → Thread F σ) : Thread F σ :=
  (List.range n).foldlM body s

/-! ## Values and logs -/

variable {mem : Memory F}

@[simp] theorem pure_run (a : α) : (pure a : Thread F α) mem = (a, []) := rfl

@[simp] theorem bind_val (p : Thread F α) (f : α → Thread F β) :
    ((p >>= f) mem).1 = (f (p mem).1 mem).1 := rfl

@[simp] theorem bind_log (p : Thread F α) (f : α → Thread F β) :
    ((p >>= f) mem).2 = (p mem).2 ++ (f (p mem).1 mem).2 := rfl

@[simp] theorem load_run (slot index : Nat) :
    (load slot index : Thread F F) mem = (mem slot index, [.load slot index]) := rfl

@[simp] theorem rounds_run (n : Nat) : (rounds n : Thread F Unit) mem = ((), [.rounds n]) := rfl

@[simp] theorem store_run (slot index : Nat) (value : F) :
    store slot index value mem = (some ⟨slot, index, value⟩, [.store slot index]) := rfl

@[simp] theorem peers_run (p : Nat → Thread F α) :
    peers p mem = (fun i => (p i mem).1, []) := rfl

theorem foldlM_val (l : List Nat) (s : σ) (body : σ → Nat → Thread F σ) :
    ((l.foldlM body s : Thread F σ) mem).1 = l.foldl (fun s i => (body s i mem).1) s := by
  induction l generalizing s with
  | nil => rfl
  | cons i l ih =>
    rw [List.foldlM_cons, bind_val, ih]
    rfl

theorem loop_val (n : Nat) (s : σ) (body : σ → Nat → Thread F σ) :
    (loop n s body mem).1 = (List.range n).foldl (fun s i => (body s i mem).1) s :=
  foldlM_val _ s body

/-- What a loop logs, where a round logs the same from every state. -/
theorem mem_foldlM_log {l : List Nat} {s : σ} {body : σ → Nat → Thread F σ} {e : Touch}
    {Q : Nat → Prop} (h : ∀ s i, e ∈ (body s i mem).2 ↔ Q i) :
    e ∈ ((l.foldlM body s : Thread F σ) mem).2 ↔ ∃ i ∈ l, Q i := by
  induction l generalizing s with
  | nil => simp
  | cons i l ih => simp [h, ih]

theorem mem_loop_log {n : Nat} {s : σ} {body : σ → Nat → Thread F σ} {e : Touch}
    {Q : Nat → Prop} (h : ∀ s i, e ∈ (body s i mem).2 ↔ Q i) :
    e ∈ (loop n s body mem).2 ↔ ∃ i < n, Q i := by
  rw [loop, mem_foldlM_log h]
  simp

/-- A loop that touches nothing. -/
@[simp] theorem loop_pure (n : Nat) (s : σ) (f : σ → Nat → σ) :
    (loop n s fun s i => pure (f s i) : Thread F σ) = pure ((List.range n).foldl f s) := by
  have hfold : ∀ (l : List Nat) (s : σ),
      (l.foldlM (fun s i => pure (f s i)) s : Thread F σ) = pure (l.foldl f s) := by
    intro l
    induction l with
    | nil => exact fun _ => rfl
    | cons i l ih =>
      intro s
      rw [List.foldlM_cons, List.foldl_cons, ← ih]
      rfl
  exact hfold _ s

/-- Two loops with the same rounds are the same. -/
theorem loop_congr {n : Nat} {s : σ} {body body' : σ → Nat → Thread F σ}
    (h : ∀ i < n, ∀ s, body s i = body' s i) : loop n s body = loop n s body' := by
  have hfold : ∀ (l : List Nat) (s : σ), (∀ i ∈ l, i < n) →
      (l.foldlM body s : Thread F σ) = l.foldlM body' s := by
    intro l
    induction l with
    | nil => exact fun _ _ => rfl
    | cons i l ih =>
      intro s hl
      obtain ⟨hi, hl⟩ := List.forall_mem_cons.mp hl
      rw [List.foldlM_cons, List.foldlM_cons, h i hi s]
      exact congrArg _ (funext fun t => ih t hl)
  exact hfold _ s fun i hi => List.mem_range.mp hi

end Thread

/-! ## Launches -/

/-- Memory after a thread's end. -/
def written (ends : Ends F) (mem : Memory F) : Memory F :=
  match ends with
  | none => mem
  | some s => fun slot index =>
    if slot = s.slot ∧ index = s.index then s.value else mem slot index

/-- A thread for each of these ids, in this order. -/
def launch {ι : Type} (k : ι → Thread F (Ends F)) (order : List ι) (mem : Memory F) : Memory F :=
  order.foldl (fun mem id => written (k id mem).1 mem) mem

section Launch

variable {ι : Type} {k : ι → Thread F (Ends F)} {out : Nat} {target : ι → Option Nat}
  {value : ι → Nat → F → F} {mem : Memory F} {order : List ι}

/-- Each thread writes an element of one slot at most: from its old value and
from the other slots, which nothing writes. -/
def WritesTo (k : ι → Thread F (Ends F)) (out : Nat) (target : ι → Option Nat)
    (value : ι → Nat → F → F) (mem : Memory F) (order : List ι) : Prop :=
  ∀ id ∈ order, ∀ mem', (∀ slot, slot ≠ out → mem' slot = mem slot) →
    (k id mem').1 = (target id).map fun i => ⟨out, i, value id i (mem' out i)⟩

/-- An element goes through the values of the threads that write it, in their order. -/
def through (target : ι → Option Nat) (value : ι → Nat → F → F) (order : List ι) (i : Nat)
    (old : F) : F :=
  (order.filter fun id => target id = some i).foldl (fun old id => value id i old) old

theorem launch_cons (k : ι → Thread F (Ends F)) (id : ι) (order : List ι) (mem : Memory F) :
    launch k (id :: order) mem = launch k order (written (k id mem).1 mem) := rfl

theorem launch_congr {k' : ι → Thread F (Ends F)} (h : ∀ id ∈ order, k id = k' id)
    (mem : Memory F) : launch k order mem = launch k' order mem :=
  List.foldl_ext _ _ _ fun mem id hid => by rw [h id hid]

/-- **What a launch leaves.** -/
theorem launch_eq (h : WritesTo k out target value mem order) :
    (∀ slot, slot ≠ out → launch k order mem slot = mem slot) ∧
      ∀ i, launch k order mem out i = through target value order i (mem out i) := by
  -- the slots nothing writes stay those of the start, so every thread meets them so
  have hrun : ∀ mem', (∀ slot, slot ≠ out → mem' slot = mem slot) →
      (∀ slot, slot ≠ out → launch k order mem' slot = mem slot) ∧
        ∀ i, launch k order mem' out i = through target value order i (mem' out i) := by
    induction order with
    | nil => exact fun mem' hmem' => ⟨hmem', fun _ => rfl⟩
    | cons id order ih =>
      intro mem' hmem'
      have hend := h id List.mem_cons_self mem' hmem'
      obtain ⟨hothers, hout⟩ := ih (fun id hid => h id (List.mem_cons_of_mem _ hid))
        (written (k id mem').1 mem') fun slot hslot => by
          rw [hend]
          cases target id with
          | none => exact hmem' slot hslot
          | some i =>
            funext j
            exact (if_neg fun h => hslot h.1).trans (congrFun (hmem' slot hslot) j)
      refine ⟨hothers, fun i => ?_⟩
      rw [launch_cons, hout, hend]
      cases ht : target id with
      | none => simp [through, ht, written]
      | some j =>
        by_cases hij : j = i
        · subst hij
          simp [through, ht, written]
        · have hij' : ¬ i = j := fun h => hij h.symm
          simp [through, ht, written, hij, hij']
  exact hrun mem fun _ _ => rfl

/-- Nothing writes it. -/
theorem through_none {i : Nat} (h : ∀ id ∈ order, target id ≠ some i) (old : F) :
    through target value order i old = old := by
  have hnil : order.filter (fun id => target id = some i) = [] :=
    List.filter_eq_nil_iff.mpr fun id hid => by simpa using h id hid
  rw [through, hnil]
  rfl

/-- What is written doesn't look at the old value, and all write the same. -/
theorem through_overwrite {i : Nat} {v : F} {id : ι} (hid : id ∈ order) (ht : target id = some i)
    (h : ∀ id ∈ order, target id = some i → ∀ old, value id i old = v) (old : F) :
    through target value order i old = v := by
  have hall : ∀ (l : List ι) (old : F), l ≠ [] → (∀ id ∈ l, ∀ old, value id i old = v) →
      l.foldl (fun old id => value id i old) old = v := by
    intro l old hne hl
    rw [← List.dropLast_append_getLast hne, List.foldl_append]
    exact hl _ (List.getLast_mem hne) _
  refine hall _ old (List.ne_nil_of_mem (List.mem_filter.mpr ⟨hid, by simpa using ht⟩)) ?_
  intro id hid old
  obtain ⟨hid, ht⟩ := List.mem_filter.mp hid
  exact h id hid (by simpa using ht) old

/-- One thread writes it. -/
theorem through_once {i : Nat} {id : ι} (hd : order.Nodup) (hid : id ∈ order)
    (ht : target id = some i) (h : ∀ id' ∈ order, target id' = some i → id' = id) (old : F) :
    through target value order i old = value id i old := by
  have hone : order.filter (fun id => target id = some i) = [id] := by
    refine List.perm_singleton.mp ((List.perm_ext_iff_of_nodup (hd.filter _)
      (List.nodup_singleton id)).mpr fun id' => ?_)
    rw [List.mem_filter, List.mem_singleton]
    constructor
    · exact fun h' => h id' h'.1 (by simpa using h'.2)
    · rintro rfl
      exact ⟨hid, by simpa using ht⟩
  rw [through, hone]
  rfl

/-- Threads that all do the same to an element do it again and again. -/
theorem through_iterate (f : Nat → F → F) (i : Nat) (old : F) :
    through target (fun _ => f) order i old =
      (f i)^[order.countP fun id => target id = some i] old := by
  rw [through, List.countP_eq_length_filter]
  induction order.filter fun id => target id = some i generalizing old with
  | nil => rfl
  | cons id l ih => rw [List.foldl_cons, ih, List.length_cons, Function.iterate_succ_apply]

/-- What several threads add to an element is the sum of what each adds. -/
theorem through_add [AddMonoid F] (addend : ι → F) (i : Nat) (old : F) :
    through target (fun id _ old => old + addend id) order i old =
      old + ((order.filter fun id => target id = some i).map addend).sum := by
  rw [through]
  induction order.filter fun id => target id = some i generalizing old with
  | nil => exact (add_zero old).symm
  | cons id l ih => rw [List.foldl_cons, ih, List.map_cons, List.sum_cons, add_assoc]

end Launch

end Simt
