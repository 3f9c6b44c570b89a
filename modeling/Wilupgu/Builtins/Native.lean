import Wilupgu.Lib.Loops
import Mathlib.Algebra.Order.Ring.Rat
import Mathlib.Data.Rat.Cast.Defs

/-! # Native code

src/tools/builtins/codes/native. The code is the same for any type of
elements with the operations it uses; native code runs it on `f32`s. All
indices are products and sums of `u32` meta words, so they fit a `usize`. -/

namespace Wilupgu.Builtins

open Loops

/-- What sums of products are made of. -/
class Arith (F : Type) where
  zero : F
  add : F → F → F
  mul : F → F → F

/-- The operations of `f32`. `negZero` is what `sum` starts from, `ofUInt32` is
`as f32`. -/
class Floats (F : Type) extends Arith F where
  negZero : F
  div : F → F → F
  max : F → F → F
  min : F → F → F
  lt : F → F → Bool
  le : F → F → Bool
  ofBits : UInt32 → F
  ofUInt32 : UInt32 → F

/-- Exact arithmetic. -/
instance : Arith ℚ where
  zero := 0
  add := (· + ·)
  mul := (· * ·)

/-- The value of a finite `f32`; what is not finite counts as 0. -/
def valueOfBits (bits : UInt32) : ℚ :=
  let sign : ℚ := if bits.toNat / 2 ^ 31 = 0 then 1 else -1
  let exponent : Nat := bits.toNat / 2 ^ 23 % 2 ^ 8
  let fraction : Nat := bits.toNat % 2 ^ 23
  if exponent = 255 then 0
  else if exponent = 0 then sign * fraction / 2 ^ 149
  else sign * (2 ^ 23 + fraction) * 2 ^ exponent / 2 ^ 150

instance : Floats ℚ where
  negZero := 0
  div := (· / ·)
  max := Max.max
  min := Min.min
  lt x y := decide (x < y)
  le x y := decide (x ≤ y)
  ofBits := valueOfBits
  ofUInt32 v := v.toNat

/-- One tensor slot's elements, given to native code. -/
inductive Slot (F : Type) where
  | Read (x : List F)
  | Write (x : List F)
  deriving DecidableEq

namespace Slot

variable {F : Type}

def elems : Slot F → List F
  | Read x | Write x => x

def isWrite : Slot F → Bool
  | Read _ => false
  | Write _ => true

end Slot

namespace Native

variable {F : Type}

/-! ## common.rs -/

/-- Slots count from 1. -/
def readF32 (slots : List (Slot F)) (slot : Nat) : Outcome Empty (List F) := do
  return (← .expect slots[slot - 1]?).elems

/-- The whole slot, or a panic if it's bound for reading or of another length. -/
def writeF32 (slots : List (Slot F)) (slot : Nat) (data : List F) :
    Outcome Empty (List (Slot F)) := do
  match ← .expect slots[slot - 1]? with
  | .Write x =>
    if data.length = x.length then return slots.set (slot - 1) (.Write data) else .panic
  | .Read _ => .panic

/-- `meta[i] as usize`. -/
def word (m : List UInt32) (i : Nat) : Outcome Empty Nat := do
  return (← .expect m[i]?).toNat

/-! ## Elementwise -/

/-- `for (i, xi) in x.iter_mut().enumerate().take(n)`, from position `i` on. -/
def eachFirst (f : Nat → F → Outcome Empty F) : Nat → Nat → List F → Outcome Empty (List F)
  | n + 1, i, x :: xs => do return (← f i x) :: (← eachFirst f n (i + 1) xs)
  | _, _, xs => return xs

/-- `for (xi, yi) in x.iter_mut().zip(&y).take(n)`. -/
def zipFirst (op : F → F → F) : Nat → List F → List F → List F
  | n + 1, x :: xs, y :: ys => op x y :: zipFirst op n xs ys
  | _, xs, _ => xs

/-- `x[i] = f(i, x[i])` for `i < n`. -/
def inPlace (f : Nat → F → Outcome Empty F) (n : Nat) (slots : List (Slot F)) :
    Outcome Empty (List (Slot F)) := do
  let x ← readF32 slots 1
  let x ← eachFirst f n 0 x
  writeF32 slots 1 x

/-- `x[i] = op(x[i], y[i])` for `i < n`. -/
def withOther (op : F → F → F) (m : List UInt32) (slots : List (Slot F)) :
    Outcome Empty (List (Slot F)) := do
  let n ← word m 0
  let x ← readF32 slots 1
  let y ← readF32 slots 2
  writeF32 slots 1 (zipFirst op n x y)

section Elementwise

variable [Floats F]

def add : List UInt32 → List (Slot F) → Outcome Empty (List (Slot F)) := withOther Arith.add

def mul : List UInt32 → List (Slot F) → Outcome Empty (List (Slot F)) := withOther Arith.mul

def max : List UInt32 → List (Slot F) → Outcome Empty (List (Slot F)) := withOther Floats.max

def min : List UInt32 → List (Slot F) → Outcome Empty (List (Slot F)) := withOther Floats.min

def scale (m : List UInt32) (slots : List (Slot F)) : Outcome Empty (List (Slot F)) := do
  let n ← word m 0
  let factor := Floats.ofBits (← .expect m[1]?)
  inPlace (fun _ x => return Arith.mul x factor) n slots

/-- `f32::clamp`, which panics unless `lo <= hi`. -/
def clampF32 (x lo hi : F) : Outcome Empty F :=
  if Floats.le lo hi then
    let x := if Floats.lt x lo then lo else x
    .ok (if Floats.lt hi x then hi else x)
  else .panic

def clamp (m : List UInt32) (slots : List (Slot F)) : Outcome Empty (List (Slot F)) := do
  let n ← word m 0
  let lo := Floats.ofBits (← .expect m[1]?)
  let hi := Floats.ofBits (← .expect m[2]?)
  inPlace (fun _ x => clampF32 x lo hi) n slots

def zeroTensor (m : List UInt32) (slots : List (Slot F)) : Outcome Empty (List (Slot F)) := do
  let n ← word m 0
  inPlace (fun _ _ => return Arith.zero) n slots

def fillConstant (m : List UInt32) (slots : List (Slot F)) : Outcome Empty (List (Slot F)) := do
  let n ← word m 0
  let value := Floats.ofBits (← .expect m[1]?)
  inPlace (fun _ _ => return value) n slots

def hash (v : UInt32) : UInt32 :=
  let h := v ^^^ (v >>> 16)
  let h := h * 0x7feb352d
  let h := h ^^^ (h >>> 15)
  let h := h * 0x846ca68b
  h ^^^ (h >>> 16)

/-- `hash(i ^ seed) as f32 / u32::MAX as f32`. -/
def random (seed : UInt32) (i : Nat) : F :=
  Floats.div (Floats.ofUInt32 (hash (UInt32.ofNat i ^^^ seed))) (Floats.ofUInt32 0xFFFFFFFF)

def fillRandom (m : List UInt32) (slots : List (Slot F)) : Outcome Empty (List (Slot F)) := do
  let n ← word m 0
  let seed ← .expect m[1]?
  inPlace (fun i _ => return random seed i) n slots

/-! ## Reductions -/

/-- `iter().sum()`. -/
def sumF32 (x : List F) : F := x.foldl Arith.add Floats.negZero

def sum (m : List UInt32) (slots : List (Slot F)) : Outcome Empty (List (Slot F)) := do
  let n ← word m 0
  let x ← readF32 slots 1
  let part ← readF32 slots 2
  let x ← slice x n
  let part ← update part 0 fun _ => sumF32 x
  writeF32 slots 2 part

def dot (m : List UInt32) (slots : List (Slot F)) : Outcome Empty (List (Slot F)) := do
  let n ← word m 0
  let a ← readF32 slots 1
  let b ← readF32 slots 2
  let part ← readF32 slots 3
  let a ← slice a n
  let b ← slice b n
  let part ← update part 0 fun _ => sumF32 (List.zipWith Arith.mul a b)
  writeF32 slots 3 part

end Elementwise

/-! ## Linear algebra -/

section LinearAlgebra

variable [Arith F]

/-- `for kk in 0..k { sum += a[..] * b[..] }`. -/
def sumProducts (k : Nat) (a b : List F) (aIndex bIndex : Nat → Nat) : Outcome Empty F :=
  forRange k Arith.zero fun sum kk => do
    return Arith.add sum (Arith.mul (← index a (aIndex kk)) (← index b (bIndex kk)))

/-- The three matrix products: where `B`'s element is, and what becomes of
`C`'s old element and the sum. -/
def matmulWith (bIndex : Nat → Nat → Nat → Nat → Nat) (put : F → F → F) (mm : List UInt32)
    (slots : List (Slot F)) : Outcome Empty (List (Slot F)) := do
  let m ← word mm 0
  let n ← word mm 1
  let k ← word mm 2
  let a ← readF32 slots 1
  let b ← readF32 slots 2
  let c ← readF32 slots 3
  let c ← forRange m c fun c row => forRange n c fun c col => do
    let sum ← sumProducts k a b (fun kk => row * k + kk) (fun kk => bIndex n k kk col)
    update c (row * n + col) fun old => put old sum
  writeF32 slots 3 c

/-- `b[kk * n + col]`. -/
def rowMajor (n _k kk col : Nat) : Nat := kk * n + col

/-- `b[col * k + kk]`. -/
def colMajor (_n k kk col : Nat) : Nat := col * k + kk

/-- `c = sum`. -/
def assign (_old sum : F) : F := sum

def matmul : List UInt32 → List (Slot F) → Outcome Empty (List (Slot F)) :=
  matmulWith rowMajor assign

def matmulAdd : List UInt32 → List (Slot F) → Outcome Empty (List (Slot F)) :=
  matmulWith rowMajor Arith.add

def matmulTrp : List UInt32 → List (Slot F) → Outcome Empty (List (Slot F)) :=
  matmulWith colMajor assign

/-- The two row products; `M` is ignored. -/
def gemvWith (put : F → F → F) (mm : List UInt32) (slots : List (Slot F)) :
    Outcome Empty (List (Slot F)) := do
  let n ← word mm 1
  let k ← word mm 2
  let a ← readF32 slots 1
  let b ← readF32 slots 2
  let c ← readF32 slots 3
  let c ← forRange n c fun c col => do
    let sum ← sumProducts k a b (fun kk => kk) (fun kk => kk * n + col)
    update c col fun old => put old sum
  writeF32 slots 3 c

def gemv : List UInt32 → List (Slot F) → Outcome Empty (List (Slot F)) := gemvWith assign

def gemvAdd : List UInt32 → List (Slot F) → Outcome Empty (List (Slot F)) := gemvWith Arith.add

end LinearAlgebra

def transpose (mm : List UInt32) (slots : List (Slot F)) : Outcome Empty (List (Slot F)) := do
  let rows ← word mm 0
  let cols ← word mm 1
  let src ← readF32 slots 1
  let dst ← readF32 slots 2
  let dst ← forRange rows dst fun dst r => forRange cols dst fun dst c => do
    let v ← index src (r * cols + c)
    update dst (c * rows + r) fun _ => v
  writeF32 slots 2 dst

end Native
end Wilupgu.Builtins
