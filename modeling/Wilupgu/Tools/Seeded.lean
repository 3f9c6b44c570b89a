import Wilupgu.Builtins.Table
import Wilupgu.Tools.Parity
import Mathlib.Data.UInt

/-! # Seeded data

What src/tools/parity/mod.rs puts in the slots before a run. Each slot that is
read has its own stretch of one sequence of generator states, which goes through
all `2 ^ 64` of them. Two slots have data of their own as long as the stretches
don't meet, and that depends on how far apart they start. -/

namespace Wilupgu.Parity

open Backend Builtins

/-! ## The generator -/

/-- What splitmix64 adds to its state each time. -/
def gamma : UInt64 := 0x9E3779B97F4A7C15

/-- The state that a slot's elements start from. Slots count from 0 here. -/
def start (seed : UInt64) (slot : Nat) : UInt64 := seed ^^^ (UInt64.ofNat slot + 1) * gamma

/-- The next `len` states, one for each element. -/
def states (state : UInt64) : Nat → List UInt64
  | 0 => []
  | len + 1 => (state + gamma) :: states (state + gamma) len

/-- The bits of an element, from its state. -/
def mix (state : UInt64) : UInt64 :=
  let z := state
  let z := (z ^^^ (z >>> 30)) * 0xBF58476D1CE4E5B9
  let z := (z ^^^ (z >>> 27)) * 0x94D049BB133111EB
  z ^^^ (z >>> 31)

section Random

variable {F : Type} [Floats F]

/-- `(z >> 40) as f32 / (1u64 << 23) as f32 - 1.0`, the top 24 bits. -/
def unit (z : UInt64) : F :=
  Arith.add (Floats.div (Floats.ofUInt32 (z >>> 40).toUInt32) (Floats.ofUInt32 0x800000))
    (Floats.ofBits 0xBF800000)

/-- `len` values in [-1, 1). -/
def random (seed : UInt64) (slot len : Nat) : List F :=
  (states (start seed slot) len).map fun state => unit (mix state)

/-- How many words of `PAD` there are behind each slot. -/
def padLen (signature : Signature) : Nat :=
  let (x, y, z) := signature.workgroupSize
  max (x * y * z).toNat 1

/-- What slot `i` starts with. -/
def startSlot (signature : Signature) (seed : UInt64) (i : Nat) (role : BindingRole) (check : Check)
    (len : Nat) : List F :=
  let data := match role, check with
    | .Output _, .Total _ _ => List.replicate len Arith.zero
    | .Output _, _ => List.replicate len (Floats.ofBits 0x7FC00000)
    | _, _ => random seed i len
  data ++ List.replicate (padLen signature) (Floats.ofBits PAD)

def startData (signature : Signature) (checks : List Check) (seed : UInt64) (lens : List Nat) :
    List (List F) :=
  ((signature.layout.zip checks).zip lens).zipIdx.map fun x =>
    startSlot signature seed x.2 x.1.1.1 x.1.1.2 x.1.2

end Random

/-! ## Where the states are -/

/-- `gamma` is odd, so that its multiples are all there is. -/
def gammaInv : UInt64 := 0xF1DE83E19937733D

theorem gamma_mul_gammaInv : gamma * gammaInv = 1 := by decide

theorem length_states (state : UInt64) (len : Nat) : (states state len).length = len := by
  induction len generalizing state with
  | zero => rfl
  | succ len ih => rw [states, List.length_cons, ih]

/-- Element `i` has been given `i + 1` steps. -/
theorem getElem?_states {state : UInt64} {len i : Nat} (h : i < len) :
    (states state len)[i]? = some (state + (UInt64.ofNat i + 1) * gamma) := by
  induction len generalizing state i with
  | zero => exact absurd h (Nat.not_lt_zero i)
  | succ len ih =>
    cases i with
    | zero => grind [states]
    | succ i =>
      have hi : UInt64.ofNat (i + 1) = UInt64.ofNat i + 1 := UInt64.ofNat_add i 1
      rw [states, List.getElem?_cons_succ, ih (Nat.lt_of_succ_lt_succ h), hi]
      grind

theorem mem_states {state x : UInt64} {len : Nat} :
    x ∈ states state len ↔ ∃ i < len, x = state + (UInt64.ofNat i + 1) * gamma := by
  rw [List.mem_iff_getElem?]
  constructor
  · intro h
    obtain ⟨i, hi⟩ := h
    have hlt : i < len := by
      rw [← length_states state len]
      exact (List.getElem?_eq_some_iff.mp hi).1
    exact ⟨i, hlt, Option.some.inj (hi.symm.trans (getElem?_states hlt))⟩
  · intro h
    obtain ⟨i, hi, rfl⟩ := h
    exact ⟨i, getElem?_states hi⟩

/-- How many steps a state is ahead of another one. -/
def ahead (a b : UInt64) : Nat := ((a - b) * gammaInv).toNat

/-- Two states that meet after some steps of each are as far apart as these. -/
theorem meet_iff {a b : UInt64} {i j : Nat} :
    a + (UInt64.ofNat i + 1) * gamma = b + (UInt64.ofNat j + 1) * gamma ↔
      (ahead a b + i) % 2 ^ 64 = j % 2 ^ 64 := by
  have hinv := gamma_mul_gammaInv
  have hsteps : a + (UInt64.ofNat i + 1) * gamma = b + (UInt64.ofNat j + 1) * gamma ↔
      (a - b) * gammaInv + UInt64.ofNat i = UInt64.ofNat j := by
    constructor
    · intro h
      have hmul : (a + (UInt64.ofNat i + 1) * gamma) * gammaInv =
          (b + (UInt64.ofNat j + 1) * gamma) * gammaInv := by rw [h]
      grind
    · intro h
      have hmul : ((a - b) * gammaInv + UInt64.ofNat i) * gamma = UInt64.ofNat j * gamma := by rw [h]
      grind
  rw [hsteps, ← UInt64.toNat_inj, UInt64.toNat_add, UInt64.toNat_ofNat', UInt64.toNat_ofNat',
    Nat.add_mod_mod, ahead]

/-! ## Stretches that don't meet -/

/-- The stretch from `a` on ends before `b`'s, and the other way round. -/
def Clear (a b : UInt64) (lenA lenB : Nat) : Prop := lenB ≤ ahead a b ∧ ahead a b + lenA ≤ 2 ^ 64

instance {a b : UInt64} {lenA lenB : Nat} : Decidable (Clear a b lenA lenB) :=
  inferInstanceAs (Decidable (_ ∧ _))

theorem Clear.disjoint {a b : UInt64} {lenA lenB : Nat} (h : Clear a b lenA lenB) :
    (states a lenA).Disjoint (states b lenB) := by
  obtain ⟨hbefore, hafter⟩ := h
  intro x hx hx'
  obtain ⟨i, hi, rfl⟩ := mem_states.mp hx
  obtain ⟨j, hj, he⟩ := mem_states.mp hx'
  have hmeet := meet_iff.mp he
  omega

/-- Stretches that aren't clear of each other meet where the one that starts
later does. -/
theorem exists_meet {a b : UInt64} {lenA lenB : Nat} (ha : 0 < lenA) (hb : 0 < lenB)
    (h : ¬Clear a b lenA lenB) :
    ∃ i < lenA, ∃ j < lenB, (i = 0 ∨ j = 0) ∧ (ahead a b + i) % 2 ^ 64 = j % 2 ^ 64 := by
  have hlt : ahead a b < 2 ^ 64 := UInt64.toNat_lt _
  rcases Nat.lt_or_ge (ahead a b) lenB with hb' | hb'
  · exact ⟨0, ha, ahead a b, hb', .inl rfl, by rw [Nat.add_zero]⟩
  · have hafter : 2 ^ 64 < ahead a b + lenA := Nat.lt_of_not_le fun hle => h ⟨hb', hle⟩
    refine ⟨2 ^ 64 - ahead a b, by omega, 0, hb, .inr rfl, ?_⟩
    rw [Nat.add_sub_cancel' (Nat.le_of_lt hlt), Nat.mod_self, Nat.zero_mod]

/-- **When two slots have states of their own**: one of them is empty, or they
are clear of each other. -/
theorem seeded_slots_are_apart_iff (seed : UInt64) (s t lenS lenT : Nat) :
    (states (start seed s) lenS).Disjoint (states (start seed t) lenT) ↔
      lenS = 0 ∨ lenT = 0 ∨ Clear (start seed s) (start seed t) lenS lenT := by
  constructor
  · intro h
    by_contra hnone
    obtain ⟨hs, ht, hclear⟩ := not_or.mp hnone |>.imp_right not_or.mp
    obtain ⟨i, hi, j, hj, -, hmeet⟩ :=
      exists_meet (Nat.pos_of_ne_zero hs) (Nat.pos_of_ne_zero ht) hclear
    exact h (mem_states.mpr ⟨i, hi, rfl⟩) (mem_states.mpr ⟨j, hj, meet_iff.mpr hmeet⟩)
  · intro h
    rcases h with rfl | rfl | h
    · exact List.disjoint_nil_left _
    · exact List.disjoint_nil_right _
    · exact h.disjoint

/-! ## Shifted copies -/

/-- A slot that is read starts with seeded data, and with `PAD` behind it. -/
theorem getElem?_startData {F : Type} [Floats F] {signature : Signature} {checks : List Check}
    {seed : UInt64} {lens : List Nat} {i len : Nat} {role : BindingRole} {check : Check}
    (hrole : signature.layout[i]? = some role) (hread : ∀ kind, role ≠ .Output kind)
    (hcheck : checks[i]? = some check) (hlen : lens[i]? = some len) :
    (startData signature checks seed lens : List (List F))[i]? =
      some (random seed i len ++ List.replicate (padLen signature) (Floats.ofBits PAD)) := by
  have hzip : ((signature.layout.zip checks).zip lens)[i]? = some ((role, check), len) :=
    List.getElem?_zip_eq_some.mpr ⟨List.getElem?_zip_eq_some.mpr ⟨hrole, hcheck⟩, hlen⟩
  rw [startData, List.getElem?_map, List.getElem?_zipIdx, hzip, Option.map_some, Option.map_some,
    Nat.zero_add]
  cases role with
  | Output kind => exact absurd rfl (hread kind)
  | _ => rfl

theorem getElem?_random {F : Type} [Floats F] {seed : UInt64} {slot len i : Nat} (h : i < len) :
    (random seed slot len : List F)[i]? =
      some (unit (mix (start seed slot + (UInt64.ofNat i + 1) * gamma))) := by
  rw [random, List.getElem?_map, getElem?_states h]
  rfl

/-- From where two stretches meet on, one slot's data is a copy of the other's. -/
theorem random_shifted {F : Type} [Floats F] {seed : UInt64} {s t lenS lenT i j : Nat}
    (hmeet : (ahead (start seed s) (start seed t) + i) % 2 ^ 64 = j % 2 ^ 64) {k : Nat}
    (hs : i + k < lenS) (ht : j + k < lenT) :
    (random seed s lenS : List F)[i + k]? = (random seed t lenT)[j + k]? := by
  have hmeet' : (ahead (start seed s) (start seed t) + (i + k)) % 2 ^ 64 = (j + k) % 2 ^ 64 := by
    omega
  rw [getElem?_random hs, getElem?_random ht, meet_iff.mpr hmeet']

/-- The seed 0, which is a case's unless it is given another one, leaves each
slot's states one step ahead of the slot's before it. -/
theorem ahead_of_seed_zero {s t : Nat} (h : t ≤ s) (hs : s < 2 ^ 64) :
    ahead (start 0 s) (start 0 t) = s - t := by
  have hinv := gamma_mul_gammaInv
  have hstart : ∀ slot, start 0 slot = (UInt64.ofNat slot + 1) * gamma := fun slot =>
    UInt64.zero_xor
  have hsteps : (start 0 s - start 0 t) * gammaInv = UInt64.ofNat s - UInt64.ofNat t := by
    rw [hstart, hstart]
    grind
  rw [ahead, hsteps, ← UInt64.ofNat_sub h]
  exact UInt64.toNat_ofNat_of_lt' (Nat.lt_of_le_of_lt (Nat.sub_le s t) hs)

namespace Sample

/-- Three elements of each factor of a `dot`. -/
def dotData : List (List ℚ) :=
  startData Builtin.dot.signature [.Ignore, .Ignore, .Ignore] 0 [3, 3, 1]

/-- What a factor starts with. -/
theorem getElem?_dotData {i : Nat} (hi : i = 0 ∨ i = 1) {k : Nat} (hk : k < 3) :
    (dotData[i]?.bind fun x => x[k]?) = (random 0 i 3)[k]? := by
  have hdata : dotData[i]? = some (random 0 i 3 ++ List.replicate (padLen Builtin.dot.signature)
      (Floats.ofBits PAD)) := by
    rcases hi with rfl | rfl
    · have hrole : Builtin.dot.signature.layout[0]? = some (.Input .F32) := rfl
      exact getElem?_startData hrole (fun _ h => by cases h) rfl rfl
    · have hrole : Builtin.dot.signature.layout[1]? = some (.Input .F32) := rfl
      exact getElem?_startData hrole (fun _ h => by cases h) rfl rfl
  rw [hdata, Option.bind_some, List.getElem?_append_left]
  rw [random, List.length_map, length_states]
  exact hk

/-- The second factor is the first one from its second element on. -/
theorem second_factor_is_the_first_shifted :
    ¬(states (start 0 0) 3).Disjoint (states (start 0 1) 3) ∧
      ∀ k < 2, (dotData[1]?.bind fun x => x[k]?) = (dotData[0]?.bind fun x => x[k + 1]?) := by
  constructor
  · intro h
    exact h (a := 0x9E3779B97F4A7C15 * 3) (by decide) (by decide)
  · intro k hk
    have hmeet : (ahead (start 0 1) (start 0 0) + 0) % 2 ^ 64 = 1 % 2 ^ 64 := by decide
    rw [getElem?_dotData (.inr rfl) (by omega), getElem?_dotData (.inl rfl) (by omega)]
    have hshifted : (random 0 1 3 : List ℚ)[0 + k]? = (random 0 0 3)[1 + k]? :=
      random_shifted hmeet (by omega) (by omega)
    rwa [Nat.zero_add, Nat.add_comm 1] at hshifted

end Sample
end Wilupgu.Parity
