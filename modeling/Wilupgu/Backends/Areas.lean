import Wilupgu.Lib.Cutting
import Wilupgu.Lib.Lists
import Wilupgu.Lib.Transition
import Wilupgu.Backends.Cpu
import Mathlib.Algebra.BigOperators.Ring.List
import Mathlib.Algebra.Ring.Nat

/-! # Areas

The areas of src/backends/cpu.rs and src/backends/cuda.rs, with the machine's
arithmetic. A `carve` touches its area in one atomic step, so the carves of
any threads are those steps in some order; the text of a failed one reads the
room left later, with a second step that changes nothing. -/

namespace Wilupgu.Backends

open Backend ByteMemory Rounding Cutting

/-- Why nothing was carved. `bytes` is what the text says was asked. -/
inductive Refusal where
  | OtherDevice
  | Full (bytes : Nat)
  deriving DecidableEq

/-- No allocation is larger: `collect` panics with a capacity overflow. -/
def isizeMax : Nat := 2 ^ 63 - 1

/-! ## The CPU's -/

namespace CpuArea

/-- The block is put at `ptr`. -/
def reserve (owner ptr totalBytes : Nat) : Outcome Empty CpuArea :=
  let words := divCeil totalBytes 4
  if words * 4 ≤ isizeMax then .ok ⟨ptr, words, 0, owner⟩ else .panic

def sizeBytes (area : CpuArea) : Nat := wrap (area.words * 4)

def remainingBytes (area : CpuArea) : Nat := wrap (wrapSub area.words area.next * 4)

/-- By the device `owner`. -/
def carve (owner bytes : Nat) : Call CpuArea Refusal CpuBuffer where
  run area :=
    if area.owner ≠ owner then (.err .OtherDevice, area)
    else
      let words := divCeil bytes 4
      match cut area.words words area.next with
      | some next => (.ok ⟨.Part (area.ptr + area.next * 4) words, owner⟩, { area with next })
      | none => (.err (.Full bytes), area)

/-- What a failed `carve` says, with the room left when it says so. -/
def refusalText (left : Nat) : Refusal → String
  | .OtherDevice => "carve: the area belongs to another device"
  | .Full bytes => s!"carve: {bytes} bytes asked, the area has {left} left"

end CpuArea

/-! ## CUDA's -/

/-- `MIN_BYTES`. -/
def minBytes : Nat := copyAlign

/-- `CARVE_ALIGN`: where buffers cut out of an area start. -/
def carveAlign : Nat := 256

/-- Device memory from the driver: a block inside the address space, not at null. -/
structure CudaSlice (bytes : Nat) where
  ptr : Nat
  notNull : 0 < ptr
  inSpace : ptr + bytes ≤ limit

/-- A part of an area. -/
structure CudaBuffer where
  ptr : Nat
  bytes : Nat
  owner : Nat
  deriving DecidableEq

/-- One allocation, cut out front to back. -/
structure CudaArea where
  bytes : Nat
  mem : CudaSlice bytes
  next : Nat
  owner : Nat

namespace CudaArea

def base (area : CudaArea) : Nat := area.mem.ptr

/-- `driver` is what the driver answers an allocation with. -/
def reserve (driver : (bytes : Nat) → Option (CudaSlice bytes)) (owner totalBytes : Nat) :
    Outcome Empty CudaArea := do
  let bytes := max totalBytes minBytes
  return ⟨bytes, ← .expect (driver bytes), 0, owner⟩

def sizeBytes (area : CudaArea) : Nat := area.bytes

def remainingBytes (area : CudaArea) : Nat := wrapSub area.bytes area.next

/-- By the device `owner`. -/
def carve (owner bytes : Nat) : Call CudaArea Refusal CudaBuffer where
  run area :=
    if area.owner ≠ owner then (.err .OtherDevice, area)
    else
      let bytes := max bytes minBytes
      let taken := nextMultipleOf bytes carveAlign
      match cut area.bytes taken area.next with
      | some next => (.ok ⟨wrap (area.base + area.next), bytes, owner⟩, { area with next })
      | none => (.err (.Full bytes), area)

def refusalText (left : Nat) : Refusal → String
  | .OtherDevice => "cuda: carve: the area belongs to another device"
  | .Full bytes => s!"carve: {bytes} bytes asked, the area has {left} left"

end CudaArea

/-! ## Carving, by either backend -/

/-- An area as those who carve it see it. `next` and `total` are the counter
and what it is subtracted from, `taken` the bytes a buffer takes up. -/
class Carving (A : Type) where
  Buf : Type
  range : Buf → Range
  taken : Buf → Nat
  block : A → Range
  next : A → Nat
  total : A → Nat
  sizeBytes : A → Nat
  remainingBytes : A → Nat
  carve : Nat → Nat → Call A Refusal Buf

instance : Carving CpuArea where
  Buf := CpuBuffer
  range := CpuBuffer.range
  taken := CpuBuffer.bytes
  block := CpuArea.range
  next := CpuArea.next
  total := CpuArea.words
  sizeBytes := CpuArea.sizeBytes
  remainingBytes := CpuArea.remainingBytes
  carve := CpuArea.carve

instance : Carving CudaArea where
  Buf := CudaBuffer
  range buf := ⟨buf.ptr, buf.bytes⟩
  taken buf := roundUp buf.bytes carveAlign
  block area := ⟨area.base, area.bytes⟩
  next := CudaArea.next
  total := CudaArea.bytes
  sizeBytes := CudaArea.sizeBytes
  remainingBytes := CudaArea.remainingBytes
  carve := CudaArea.carve

variable {A : Type} [Carving A]

/-- One `carve` by the device `owner`, and how it ended. -/
structure Carve (A : Type) [Carving A] where
  owner : Nat
  bytes : Nat
  out : Outcome Refusal (Carving.Buf A)

/-- The part it was given. -/
def Carve.part (e : Carve A) : Option (Carving.Buf A) :=
  match e.out with
  | .ok buf => some buf
  | _ => none

/-- One carve of at most `2 ^ 63` bytes. -/
def CarveStep (area : A) (e : Carve A) (area' : A) : Prop :=
  e.bytes ≤ 2 ^ 63 ∧ Carving.carve e.owner e.bytes area = (e.out, area')

/-- Carves, in the order of their atomic steps. -/
abbrev Carves (area : A) (es : List (Carve A)) (area' : A) : Prop :=
  Transition.Runs CarveStep area es area'

/-- The parts they were given, in order. -/
def parts (es : List (Carve A)) : List (Carving.Buf A) := es.filterMap Carve.part

/-- What carves of a fresh area are to give: disjoint parts inside the block,
each as long as asked, and an account of the bytes that adds up. -/
structure CarvesApart (area : A) (es : List (Carve A)) (area' : A) : Prop where
  apart : (parts es).Pairwise fun b c => (Carving.range b).Disjoint (Carving.range c)
  inside : ∀ b ∈ parts es, (Carving.block area).start ≤ (Carving.range b).start ∧
    (Carving.range b).start + (Carving.range b).len ≤
      (Carving.block area).start + (Carving.block area).len
  long : ∀ e ∈ es, ∀ b, e.out = .ok b → e.bytes ≤ (Carving.range b).len
  counted : Carving.next area' ≤ Carving.total area'
  added : ((parts es).map Carving.taken).sum + Carving.remainingBytes area' =
    Carving.sizeBytes area'
  size : Carving.sizeBytes area' = Carving.sizeBytes area

/-- Carves made one after the other, by device and bytes. -/
def carveAll (area : A) : List (Nat × Nat) → List (Carve A) × A
  | [] => ([], area)
  | (owner, bytes) :: rest =>
    let carved := Carving.carve owner bytes area
    let after := carveAll carved.2 rest
    (⟨owner, bytes, carved.1⟩ :: after.1, after.2)

theorem carves_carveAll {requests : List (Nat × Nat)} (h : ∀ r ∈ requests, r.2 ≤ 2 ^ 63) (area : A) :
    Carves area (carveAll area requests).1 (carveAll area requests).2 := by
  induction requests generalizing area with
  | nil => exact .nil area
  | cons r rest ih =>
    obtain ⟨hr, hrest⟩ := List.forall_mem_cons.mp h
    exact .cons ⟨hr, rfl⟩ (ih hrest _)

/-! ### What a carve does -/

theorem CpuArea.carve_cases {area : CpuArea} (hn : area.next ≤ area.words)
    (hw : area.words < limit) (owner bytes : Nat) :
    (CpuArea.carve owner bytes area =
        (.ok ⟨.Part (area.ptr + area.next * 4) (divCeil bytes 4), owner⟩,
          { area with next := area.next + divCeil bytes 4 }) ∧ area.owner = owner ∧
      area.next + divCeil bytes 4 ≤ area.words) ∨
    ∃ e, CpuArea.carve owner bytes area = (.err e, area) ∧
      (area.owner = owner → area.words < area.next + divCeil bytes 4) := by
  simp only [CpuArea.carve, cut_eq hn hw]
  by_cases ho : area.owner = owner
  · rw [if_neg (not_not.mpr ho)]
    by_cases hroom : divCeil bytes 4 ≤ area.words - area.next
    · rw [if_pos hroom]
      exact .inl ⟨rfl, ho, by omega⟩
    · rw [if_neg hroom]
      exact .inr ⟨_, rfl, fun _ => by omega⟩
  · rw [if_pos ho]
    exact .inr ⟨_, rfl, fun h => absurd h ho⟩

/-- The bytes a CUDA part takes up. -/
theorem taken_eq {bytes : Nat} (hb : bytes ≤ 2 ^ 63) :
    nextMultipleOf (max bytes minBytes) carveAlign = roundUp (max bytes minBytes) carveAlign := by
  have hmax : max bytes minBytes ≤ 2 ^ 63 := Nat.max_le.mpr ⟨hb, by decide⟩
  refine nextMultipleOf_eq (by decide) (Nat.lt_of_lt_of_le (roundUp_lt (by decide)) ?_)
  exact Nat.le_trans (Nat.add_le_add_right hmax _) (by decide)

/-- The carve of the device's contract is this one, as long as no more is cut
out than there is. -/
theorem CpuBackend.carve_eq {area : CpuArea} (hn : area.next ≤ area.words)
    (hw : area.words < limit) (bytes : Nat) (raw : CpuBackend) :
    CpuBackend.carve area bytes raw =
      match CpuArea.carve raw.owner bytes area with
      | (.ok buf, area') => (.ok (buf, area'), raw)
      | (.err e, _) => (.err (CpuArea.refusalText ((area.words - area.next) * 4) e), raw)
      | (.panic, _) => (.panic, raw) := by
  simp only [CpuBackend.carve, CpuArea.carve, cut_eq hn hw]
  by_cases ho : area.owner = raw.owner
  · by_cases hroom : divCeil bytes 4 ≤ area.words - area.next
    · simp [ho, hroom]
    · simp [ho, hroom, CpuArea.refusalText]
  · simp [ho, CpuArea.refusalText]

/-- A block's size is a `u64`. -/
theorem CudaArea.bytes_lt (area : CudaArea) : area.bytes < limit := by
  have hnull := area.mem.notNull
  have hspace := area.mem.inSpace
  omega

theorem CudaArea.carve_cases {area : CudaArea} (hn : area.next ≤ area.bytes) (owner : Nat) {bytes : Nat} (hb : bytes ≤ 2 ^ 63) :
    (CudaArea.carve owner bytes area =
        (.ok ⟨area.base + area.next, max bytes minBytes, owner⟩,
          { area with next := area.next + roundUp (max bytes minBytes) carveAlign }) ∧
      area.owner = owner ∧
      area.next + roundUp (max bytes minBytes) carveAlign ≤ area.bytes) ∨
    ∃ e, CudaArea.carve owner bytes area = (.err e, area) ∧
      (area.owner = owner → area.bytes < area.next + roundUp (max bytes minBytes) carveAlign) := by
  simp only [CudaArea.carve, taken_eq hb, cut_eq hn area.bytes_lt]
  by_cases ho : area.owner = owner
  · rw [if_neg (not_not.mpr ho)]
    by_cases hroom : roundUp (max bytes minBytes) carveAlign ≤ area.bytes - area.next
    · rw [if_pos hroom]
      have hlt : area.base + area.next < limit := by
        have hspace := area.mem.inSpace
        have hpos : 0 < roundUp (max bytes minBytes) carveAlign :=
          Nat.lt_of_lt_of_le (Nat.lt_of_lt_of_le (by decide) (Nat.le_max_right _ _))
            (le_roundUp (by decide))
        have hle : area.base + area.bytes ≤ limit := hspace
        omega
      rw [wrap_of_lt hlt]
      exact .inl ⟨rfl, ho, by omega⟩
    · rw [if_neg hroom]
      exact .inr ⟨_, rfl, fun _ => by omega⟩
  · rw [if_pos ho]
    exact .inr ⟨_, rfl, fun h => absurd h ho⟩

/-! ### What carves do -/

@[simp] theorem parts_nil : parts ([] : List (Carve A)) = [] := rfl

theorem parts_cons_ok {e : Carve A} {buf : Carving.Buf A} (h : e.out = .ok buf)
    (es : List (Carve A)) : parts (e :: es) = buf :: parts es :=
  List.filterMap_cons_some (by rw [Carve.part, h])

theorem parts_cons_err {e : Carve A} {r : Refusal} (h : e.out = .err r) (es : List (Carve A)) :
    parts (e :: es) = parts es := List.filterMap_cons_none (by rw [Carve.part, h])

/-- The part that a cut of some words is. -/
def CpuArea.part (area : CpuArea) (c : Range) : CpuBuffer :=
  ⟨.Part (area.ptr + c.start * 4) c.len, area.owner⟩

/-- Whatever is carved of a CPU area, the parts are what is cut from where its
counter stood to where it gets. -/
theorem CpuArea.carves_cuts {area area' : CpuArea} {es : List (Carve CpuArea)}
    (h : Carves area es area') (hn : area.next ≤ area.words) (hw : area.words < limit) :
    ∃ cs, Cuts area.next area'.next cs ∧ parts es = cs.map area.part ∧
      area'.next ≤ area'.words ∧ area' = { area with next := area'.next } ∧
      ∀ e ∈ es, ∀ b, e.out = .ok b → e.bytes ≤ CpuBuffer.bytes b := by
  induction h with
  | nil area => exact ⟨[], .nil _, rfl, hn, rfl, by simp⟩
  | @cons area mid area' e es hs hr ih =>
    obtain ⟨-, hs⟩ := hs
    rcases CpuArea.carve_cases hn hw e.owner e.bytes with ⟨hc, ho, hle⟩ | ⟨r, hc, -⟩
    · obtain ⟨hout, rfl⟩ := Prod.mk.inj (hs.symm.trans hc)
      obtain ⟨cs, hcuts, hparts, hle', hsame, hlong⟩ := ih hle hw
      refine ⟨⟨area.next, divCeil e.bytes 4⟩ :: cs, .cons hcuts, ?_, hle', hsame, ?_⟩
      · rw [parts_cons_ok hout, hparts, List.map_cons]
        exact congrArg₂ List.cons (by rw [CpuArea.part, ho]) rfl
      · refine List.forall_mem_cons.mpr ⟨fun b hb => ?_, hlong⟩
        obtain rfl := Outcome.ok.inj (hout.symm.trans hb)
        exact le_divCeil_mul e.bytes
    · obtain ⟨hout, rfl⟩ := Prod.mk.inj (hs.symm.trans hc)
      obtain ⟨cs, hcuts, hparts, hle', hsame, hlong⟩ := ih hn hw
      refine ⟨cs, hcuts, (parts_cons_err hout es).trans hparts, hle', hsame, ?_⟩
      refine List.forall_mem_cons.mpr ⟨fun b hb => ?_, hlong⟩
      rw [hout] at hb
      cases hb

/-- A CUDA part is the start of a cut, and takes the whole of it. -/
structure CudaBuffer.PartOf (base : Nat) (b : CudaBuffer) (c : Range) : Prop where
  ptr : b.ptr = base + c.start
  bytes : roundUp b.bytes carveAlign = c.len

/-- So it is with a CUDA area. -/
theorem CudaArea.carves_cuts {area area' : CudaArea} {es : List (Carve CudaArea)}
    (h : Carves area es area') (hn : area.next ≤ area.bytes) :
    ∃ cs, Cuts area.next area'.next cs ∧ List.Forall₂ (CudaBuffer.PartOf area.base) (parts es) cs ∧
      area'.next ≤ area'.bytes ∧ area' = { area with next := area'.next } ∧
      ∀ e ∈ es, ∀ b, e.out = .ok b → e.bytes ≤ CudaBuffer.bytes b := by
  induction h with
  | nil area => exact ⟨[], .nil _, .nil, hn, rfl, by simp⟩
  | @cons area mid area' e es hs hr ih =>
    obtain ⟨hb, hs⟩ := hs
    rcases CudaArea.carve_cases hn e.owner hb with ⟨hc, ho, hle⟩ | ⟨r, hc, -⟩
    · obtain ⟨hout, rfl⟩ := Prod.mk.inj (hs.symm.trans hc)
      obtain ⟨cs, hcuts, hparts, hle', hsame, hlong⟩ := ih hle
      refine ⟨⟨area.next, roundUp (max e.bytes minBytes) carveAlign⟩ :: cs, .cons hcuts, ?_, hle',
        hsame, ?_⟩
      · rw [parts_cons_ok hout]
        exact .cons ⟨rfl, rfl⟩ hparts
      · refine List.forall_mem_cons.mpr ⟨fun b hb => ?_, hlong⟩
        obtain rfl := Outcome.ok.inj (hout.symm.trans hb)
        exact Nat.le_max_left _ _
    · obtain ⟨hout, rfl⟩ := Prod.mk.inj (hs.symm.trans hc)
      obtain ⟨cs, hcuts, hparts, hle', hsame, hlong⟩ := ih hn
      refine ⟨cs, hcuts, parts_cons_err hout es ▸ hparts, hle', hsame, ?_⟩
      refine List.forall_mem_cons.mpr ⟨fun b hb => ?_, hlong⟩
      rw [hout] at hb
      cases hb

/-! ## Parts never overlap -/

theorem CpuArea.reserve_ok {owner ptr totalBytes : Nat} {area : CpuArea}
    (h : CpuArea.reserve owner ptr totalBytes = .ok area) :
    area = ⟨ptr, divCeil totalBytes 4, 0, owner⟩ ∧ area.words * 4 < limit := by
  simp only [CpuArea.reserve] at h
  split at h
  · rename_i hle
    cases h
    exact ⟨rfl, Nat.lt_of_le_of_lt hle (by decide)⟩
  · cases h

theorem CudaArea.reserve_ok {driver : (bytes : Nat) → Option (CudaSlice bytes)}
    {owner totalBytes : Nat} {area : CudaArea}
    (h : CudaArea.reserve driver owner totalBytes = .ok area) :
    area.bytes = max totalBytes minBytes ∧ area.next = 0 ∧ area.owner = owner := by
  simp only [CudaArea.reserve, Outcome.bind_eq_ok] at h
  obtain ⟨mem, -, h⟩ := h
  cases h
  exact ⟨rfl, rfl, rfl⟩

theorem CpuArea.sizeBytes_eq {area : CpuArea} (hw : area.words * 4 < limit) :
    area.sizeBytes = area.words * 4 := wrap_of_lt hw

theorem CpuArea.remainingBytes_eq {area : CpuArea} (hn : area.next ≤ area.words)
    (hw : area.words * 4 < limit) : area.remainingBytes = (area.words - area.next) * 4 := by
  rw [remainingBytes, wrapSub_eq hn (by omega), wrap_of_lt (by omega)]

theorem CudaArea.remainingBytes_eq {area : CudaArea} (hn : area.next ≤ area.bytes) :
    area.remainingBytes = area.bytes - area.next := wrapSub_eq hn area.bytes_lt

theorem CpuArea.carvesApart {owner ptr totalBytes : Nat} {area area' : CpuArea}
    {es : List (Carve CpuArea)} (h : CpuArea.reserve owner ptr totalBytes = .ok area)
    (hr : Carves area es area') : CarvesApart area es area' := by
  obtain ⟨hfresh, hw⟩ := CpuArea.reserve_ok h
  have hzero : area.next = 0 := by rw [hfresh]
  obtain ⟨cs, hcuts, hparts, hle, hsame, hlong⟩ :=
    CpuArea.carves_cuts hr (hzero ▸ Nat.zero_le _) (by omega)
  rw [hzero] at hcuts
  rw [hsame] at hle ⊢
  have hle' : area'.next ≤ area.words := hle
  refine ⟨?_, ?_, hlong, hle, ?_, rfl⟩
  · rw [hparts, List.pairwise_map]
    refine hcuts.apart.imp fun {c c'} hcc => Range.disjoint_iff.mpr (.inr (.inr (.inl ?_)))
    show area.ptr + c.start * 4 + c.len * 4 ≤ area.ptr + c'.start * 4
    omega
  · rw [hparts]
    intro b hb
    obtain ⟨c, hc, rfl⟩ := List.mem_map.mp hb
    obtain ⟨-, hend⟩ := hcuts.inside c hc
    show area.ptr ≤ area.ptr + c.start * 4 ∧
      area.ptr + c.start * 4 + c.len * 4 ≤ area.ptr + area.words * 4
    omega
  · have htaken : (parts es).map Carving.taken = cs.map fun c => c.len * 4 := by
      rw [hparts, List.map_map]
      rfl
    have hsum : 0 + (cs.map Range.len).sum = area'.next := hcuts.sum
    show _ + remainingBytes _ = sizeBytes area
    rw [htaken, List.sum_map_mul_right cs Range.len 4, remainingBytes_eq hle hw, sizeBytes_eq hw]
    show _ + (area.words - area'.next) * 4 = _
    omega

theorem CudaArea.carvesApart {driver : (bytes : Nat) → Option (CudaSlice bytes)}
    {owner totalBytes : Nat} {area area' : CudaArea} {es : List (Carve CudaArea)}
    (h : CudaArea.reserve driver owner totalBytes = .ok area) (hr : Carves area es area') :
    CarvesApart area es area' ∧
      ∀ b ∈ parts es, ((b : CudaBuffer).ptr - area.base) % carveAlign = 0 := by
  obtain ⟨-, hzero, -⟩ := CudaArea.reserve_ok h
  obtain ⟨cs, hcuts, hparts, hle, hsame, hlong⟩ :=
    CudaArea.carves_cuts hr (hzero ▸ Nat.zero_le _)
  rw [hzero] at hcuts
  have hlen : ∀ b c, CudaBuffer.PartOf area.base b c → b.bytes ≤ c.len := fun b c h =>
    h.bytes ▸ le_roundUp (by decide)
  rw [hsame] at hle ⊢
  have hle' : area'.next ≤ area.bytes := hle
  refine ⟨⟨?_, ?_, hlong, hle, ?_, rfl⟩, ?_⟩
  · refine hparts.pairwise hcuts.apart fun b c b' c' h h' hcc =>
      Range.disjoint_iff.mpr (.inr (.inr (.inl ?_)))
    have := hlen b c h
    show b.ptr + b.bytes ≤ b'.ptr
    rw [h.ptr, h'.ptr]
    omega
  · intro b hb
    obtain ⟨c, hc, h⟩ := hparts.exists_of_mem_left hb
    obtain ⟨-, hend⟩ := hcuts.inside c hc
    have := hlen b c h
    show area.base ≤ b.ptr ∧ b.ptr + b.bytes ≤ area.base + area.bytes
    rw [h.ptr]
    omega
  · have htaken : (parts es).map Carving.taken = cs.map Range.len :=
      hparts.map_eq_map fun b c h => h.bytes
    have hsum : 0 + (cs.map Range.len).sum = area'.next := hcuts.sum
    show _ + remainingBytes _ = sizeBytes _
    rw [htaken, remainingBytes_eq hle]
    show _ + (area.bytes - area'.next) = area.bytes
    omega
  · have hmult : ∀ c ∈ cs, c.len % carveAlign = 0 := by
      intro c hc
      obtain ⟨b, -, h⟩ := hparts.exists_of_mem_right hc
      exact h.bytes ▸ roundUp_mod _ _
    intro b hb
    obtain ⟨c, hc, h⟩ := hparts.exists_of_mem_left hb
    rw [h.ptr, Nat.add_sub_cancel_left]
    exact (hcuts.aligned (by decide) hmult).2 c hc

theorem CpuArea.carve_failed {area area' : CpuArea} {e : Carve CpuArea}
    (h : CarveStep area e area') (hf : e.out.isOk = false) : area' = area := by
  obtain ⟨-, hrun⟩ := h
  simp only [Carving.carve, CpuArea.carve] at hrun
  split at hrun
  · exact (congrArg Prod.snd hrun).symm
  · split at hrun
    · obtain ⟨hout, -⟩ := Prod.mk.inj hrun
      rw [← hout] at hf
      cases hf
    · exact (congrArg Prod.snd hrun).symm

theorem CudaArea.carve_failed {area area' : CudaArea} {e : Carve CudaArea}
    (h : CarveStep area e area') (hf : e.out.isOk = false) : area' = area := by
  obtain ⟨-, hrun⟩ := h
  simp only [Carving.carve, CudaArea.carve] at hrun
  split at hrun
  · exact (congrArg Prod.snd hrun).symm
  · split at hrun
    · obtain ⟨hout, -⟩ := Prod.mk.inj hrun
      rw [← hout] at hf
      cases hf
    · exact (congrArg Prod.snd hrun).symm

/-- **The parts of an area never overlap**, on either backend: whatever is
carved, by whom and in whichever order, and a carve that fails changes nothing. -/
theorem carves_apart :
    (∀ {owner ptr totalBytes : Nat} {area area' : CpuArea} {es : List (Carve CpuArea)},
      CpuArea.reserve owner ptr totalBytes = .ok area → Carves area es area' →
        CarvesApart area es area') ∧
    (∀ {driver : (bytes : Nat) → Option (CudaSlice bytes)} {owner totalBytes : Nat}
        {area area' : CudaArea} {es : List (Carve CudaArea)},
      CudaArea.reserve driver owner totalBytes = .ok area → Carves area es area' →
        CarvesApart area es area' ∧
          ∀ b ∈ parts es, ((b : CudaBuffer).ptr - area.base) % carveAlign = 0) ∧
    (∀ {area area' : CpuArea} {e : Carve CpuArea},
      CarveStep area e area' → e.out.isOk = false → area' = area) ∧
    (∀ {area area' : CudaArea} {e : Carve CudaArea},
      CarveStep area e area' → e.out.isOk = false → area' = area) := by
  exact ⟨CpuArea.carvesApart, CudaArea.carvesApart, CpuArea.carve_failed, CudaArea.carve_failed⟩

namespace Sample

/-- A CPU area of ten bytes, so of three words. -/
def cpuArea : CpuArea := ⟨4096, 3, 0, 0⟩

/-- A driver that puts every block of less than 2 ^ 32 bytes at 512. -/
def driver (bytes : Nat) : Option (CudaSlice bytes) :=
  if h : bytes < 2 ^ 32 then some ⟨512, by decide, Nat.le_of_lt (by unfold limit; omega)⟩ else none

/-- A CUDA area of a thousand bytes. -/
def cudaArea : CudaArea := ⟨1000, ⟨512, by decide, by decide⟩, 0, 0⟩

/-- Two requests with room for them and two without, one of another device. -/
def cpuCarves : List (Carve CpuArea) × CpuArea :=
  carveAll cpuArea [(0, 5), (1, 4), (0, 5), (0, 4)]

/-- Two requests that leave no whole step, and a third. -/
def cudaCarves : List (Carve CudaArea) × CudaArea := carveAll cudaArea [(0, 5), (0, 300), (0, 1)]

end Sample

open Backends.Sample

theorem carves_apart_sample :
    CarvesApart cpuArea cpuCarves.1 cpuCarves.2 ∧ (parts cpuCarves.1).length = 2 ∧
    CarvesApart cudaArea cudaCarves.1 cudaCarves.2 ∧ (parts cudaCarves.1).length = 2 := by
  refine ⟨carves_apart.1 (by decide : CpuArea.reserve 0 4096 10 = .ok cpuArea) ?_, by decide,
    (carves_apart.2.1 (by rfl : CudaArea.reserve Sample.driver 0 1000 = .ok cudaArea) ?_).1,
    by decide⟩
  · exact carves_carveAll (by decide) cpuArea
  · exact carves_carveAll (by decide) cudaArea

/-! ## Room left -/

/-- A CPU area gives out all the room it has left. -/
theorem CpuArea.carve_ok {area : CpuArea} (hn : area.next ≤ area.words)
    (hw : area.words * 4 < limit) {bytes : Nat}
    (hroom : roundUp bytes copyAlign ≤ area.remainingBytes) :
    (CpuArea.carve area.owner bytes area).1.isOk = true := by
  rw [remainingBytes_eq hn hw] at hroom
  have hwords : divCeil bytes 4 ≤ area.words - area.next :=
    Nat.le_of_mul_le_mul_right hroom (by decide)
  rcases CpuArea.carve_cases hn (by omega) area.owner bytes with ⟨hc, -⟩ | ⟨r, -, hfull⟩
  · rw [hc]
    rfl
  · have := hfull rfl
    omega

/-- A CUDA area gives out a request that its whole steps have room for. -/
theorem CudaArea.carve_isOk {area : CudaArea} (hn : area.next ≤ area.bytes) {bytes : Nat}
    (hb : bytes ≤ 2 ^ 63) : (CudaArea.carve area.owner bytes area).1.isOk = true ↔
      roundUp (max bytes minBytes) carveAlign ≤ area.remainingBytes := by
  rw [remainingBytes_eq hn]
  rcases CudaArea.carve_cases hn area.owner hb with ⟨hc, -, hle⟩ | ⟨r, hc, hfull⟩
  · rw [hc]
    simp only [Outcome.isOk, true_iff]
    omega
  · have := hfull rfl
    rw [hc]
    simp only [Outcome.isOk, Bool.false_eq_true, false_iff]
    omega

/-- The request that is carved of CUDA's area has room in what is left exactly
if it has in the whole steps of it. -/
theorem CudaArea.room_iff (bytes left : Nat) :
    roundUp (max bytes minBytes) carveAlign ≤ left ↔
      max bytes minBytes ≤ left / carveAlign * carveAlign := by
  constructor
  · intro h
    have hsteps : divCeil (max bytes minBytes) carveAlign ≤ left / carveAlign :=
      (Nat.le_div_iff_mul_le (by decide)).mpr h
    calc max bytes minBytes
        ≤ divCeil (max bytes minBytes) carveAlign * carveAlign := le_roundUp (by decide)
      _ ≤ left / carveAlign * carveAlign := Nat.mul_le_mul_right _ hsteps
  · intro h
    calc roundUp (max bytes minBytes) carveAlign
        ≤ roundUp (left / carveAlign * carveAlign) carveAlign := roundUp_mono (by decide) h
      _ = left / carveAlign * carveAlign := roundUp_of_mod (Nat.mul_mod_left _ _)
      _ ≤ left := Nat.div_mul_le_self _ _

/-- **An area gives out all the room it reports** on the CPU backend always, and
on the CUDA backend exactly if the request doesn't need the last, incomplete step
of what is left: a buffer of `n` bytes can be carved from a fresh reserve of `n`
if they are whole steps. -/
theorem carve_room_iff (driver : (bytes : Nat) → Option (CudaSlice bytes))
    (owner ptr totalBytes bytes : Nat) :
    (∀ {area area' : CpuArea} {es : List (Carve CpuArea)},
      CpuArea.reserve owner ptr totalBytes = .ok area → Carves area es area' →
      bytes ≤ 2 ^ 63 → roundUp bytes copyAlign ≤ area'.remainingBytes →
        (CpuArea.carve area'.owner bytes area').1.isOk = true) ∧
    (∀ {area area' : CudaArea} {es : List (Carve CudaArea)},
      CudaArea.reserve driver owner totalBytes = .ok area → Carves area es area' →
      bytes ≤ 2 ^ 63 → ((roundUp bytes copyAlign ≤ area'.remainingBytes →
          (CudaArea.carve area'.owner bytes area').1.isOk = true) ↔
        (max bytes minBytes ≤ (area'.bytes - area'.next) / carveAlign * carveAlign ∨
          area'.bytes - area'.next < roundUp bytes copyAlign))) ∧
    (∀ {area : CpuArea}, CpuArea.reserve owner ptr bytes = .ok area →
      (CpuArea.carve owner bytes area).1.isOk = true) ∧
    (∀ {area : CudaArea}, bytes ≤ 2 ^ 63 → CudaArea.reserve driver owner bytes = .ok area →
      ((CudaArea.carve owner bytes area).1.isOk = true ↔
        max bytes minBytes % carveAlign = 0)) := by
  refine ⟨?_, ?_, ?_, ?_⟩
  · intro area area' es h hr _ hroom
    obtain ⟨rfl, hw⟩ := CpuArea.reserve_ok h
    obtain ⟨-, -, -, hle, hsame, -⟩ := CpuArea.carves_cuts hr (Nat.zero_le _) (by omega)
    rw [hsame] at hle hroom ⊢
    exact CpuArea.carve_ok hle hw hroom
  · intro area area' es h hr hb
    obtain ⟨-, hzero, -⟩ := CudaArea.reserve_ok h
    obtain ⟨-, -, -, hle, -, -⟩ := CudaArea.carves_cuts hr (hzero ▸ Nat.zero_le _)
    rw [CudaArea.carve_isOk hle hb, CudaArea.room_iff, CudaArea.remainingBytes_eq hle]
    constructor
    · intro himp
      by_cases hroom : roundUp bytes copyAlign ≤ area'.bytes - area'.next
      · exact .inl (himp hroom)
      · exact .inr (by omega)
    · intro h hroom
      rcases h with h | h
      · exact h
      · omega
  · intro area h
    obtain ⟨rfl, hw⟩ := CpuArea.reserve_ok h
    refine CpuArea.carve_ok (Nat.zero_le _) hw ?_
    rw [CpuArea.remainingBytes_eq (Nat.zero_le _) hw]
    exact Nat.le_refl _
  · intro area hb h
    obtain ⟨hbytes, hzero, rfl⟩ := CudaArea.reserve_ok h
    have hn : area.next ≤ area.bytes := hzero ▸ Nat.zero_le _
    rw [CudaArea.carve_isOk hn hb, CudaArea.remainingBytes_eq hn, hzero, hbytes, Nat.sub_zero]
    constructor
    · intro hle
      have := le_roundUp (n := max bytes minBytes) (m := carveAlign) (by decide)
      rw [← Nat.le_antisymm hle this]
      exact roundUp_mod _ _
    · intro hmod
      rw [roundUp_of_mod hmod]

/-- After a first carve, four more bytes of the CPU area and 300 of the CUDA area. -/
theorem carve_room_sample :
    (CpuArea.carve 0 4 (carveAll cpuArea [(0, 5)]).2).1.isOk = true ∧
    (CudaArea.carve 0 300 (carveAll cudaArea [(0, 5)]).2).1.isOk = true := by
  constructor
  · exact (carve_room_iff Sample.driver 0 4096 10 4).1 (by decide)
      (carves_carveAll (by decide) cpuArea) (by decide) (by decide)
  · have hreserve : CudaArea.reserve Sample.driver 0 1000 = .ok cudaArea := by rfl
    exact ((carve_room_iff Sample.driver 0 4096 1000 300).2.1 hreserve
      (carves_carveAll (by decide) cudaArea) (by decide)).mpr (.inl (by decide)) (by decide)

/-- Four bytes of a fresh CUDA area reserved for four. -/
theorem fresh_cuda_area_has_no_room : ∃ area : CudaArea,
    CudaArea.reserve Sample.driver 0 4 = .ok area ∧ area.remainingBytes = 4 ∧
    roundUp 4 copyAlign = 4 ∧ (CudaArea.carve 0 4 area).1 = .err (.Full 4) ∧
    CudaArea.refusalText area.remainingBytes (.Full 4) =
      "carve: 4 bytes asked, the area has 4 left" :=
  ⟨⟨4, ⟨512, by decide, by decide⟩, 0, 0⟩, by rfl, by decide, by decide, by decide, by decide⟩

end Wilupgu.Backends
