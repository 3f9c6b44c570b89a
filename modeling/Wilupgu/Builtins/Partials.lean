import Wilupgu.Builtins.Tiled

/-! # Reductions with barriers

A workgroup of a reduction stores one term a thread in `scratch`, adds the
upper half to the lower one until one value is left, and writes that. In
lockstep this is a sum in a tree. -/

namespace Wilupgu.Builtins

open Backend Simt Lockstep Lockstep.Prog

/-- An element of another slot than the one that is written. -/
def NotOut (out : Nat) (c : Cell) : Prop := ∃ s i, c = .slot s i ∧ s ≠ out

namespace Reduction

variable {F : Type} [Arith F]

/-- What is summed up: element `i` of the input, or of the two. -/
def summand (r : Reduction) (mem : Memory F) (i : Nat) : F :=
  match r with
  | sum => mem 1 i
  | dot => Arith.mul (mem 1 i) (mem 2 i)

/-- It's 0 from `n` on. -/
def padded (r : Reduction) (mm : List UInt32) (mem : Memory F) (i : Nat) : F :=
  if i < dim mm 0 then r.summand mem i else Arith.zero

/-- **Both formats** store the same terms. -/
theorem term_looks (r : Reduction) (format : Format) (ar : Ints) (mm : List UInt32) (id : Ids) :
    Looks (r.term (F := F) format ar mm id) (NotOut r.out) fun m =>
      r.padded mm (slotsOf m) (Gpu.idx ar id) := by
  have h₁ : ∀ r : Reduction, NotOut r.out (.slot 1 (Gpu.idx ar id)) := by
    intro r
    exact ⟨1, _, rfl, by cases r <;> decide⟩
  have h₂ : NotOut dot.out (.slot 2 (Gpu.idx ar id)) := ⟨2, _, rfl, by decide⟩
  cases r with
  | sum =>
    cases format with
    | wgsl => exact (Looks.read (h₁ _)).bind fun x => .pure _
    | cuda =>
      simp only [term, padded]
      split
      · exact .read (h₁ _)
      · exact .pure _
  | dot =>
    cases format with
    | wgsl => exact (Looks.read (h₁ _)).bind fun a => (Looks.read h₂).bind fun b => .pure _
    | cuda =>
      simp only [term, padded]
      split
      · exact (Looks.read (h₁ _)).bind fun a => (Looks.read h₂).bind fun b => .pure _
      · exact .pure _

end Reduction

namespace Shared

variable {F : Type} [Arith F] {ar : Ints} {mm : List UInt32} {id : Ids} {m : Cell → F}

/-! ## One stride -/

/-- A round of the tree, and what comes after. -/
def halve (id : Ids) (stride : Nat) (rest : Shared F Unit) : Shared F Unit :=
  if id.threadIdx.x < stride then
    .load (scratch id id.threadIdx.x) fun a =>
      .load (scratch id (id.threadIdx.x + stride)) fun b =>
        .store (scratch id id.threadIdx.x) (Arith.add a b) (.barrier 1 rest)
  else .barrier 1 rest

theorem tree_bind {stride : Nat} (h : stride ≠ 0) (k : Unit → Shared F Unit) :
    tree id stride >>= k = halve id stride (tree id (stride / 2) >>= k) := by
  rw [tree, if_neg h, halve]
  split <;> rfl

theorem tree_zero (k : Unit → Shared F Unit) : tree id 0 >>= k = k () := by
  rw [tree, if_pos rfl]
  rfl

section Halve

variable {stride : Nat} {rest : Shared F Unit}

theorem halve_stop : (halve id stride rest).stop m = .barrier 1 rest := by
  unfold halve
  split <;> rfl

theorem halve_after (h : id.threadIdx.x < stride) : (halve id stride rest).after m =
    Function.update m (scratch id id.threadIdx.x)
      (Arith.add (m (scratch id id.threadIdx.x)) (m (scratch id (id.threadIdx.x + stride)))) := by
  rw [halve, if_pos h]
  rfl

theorem halve_stores (m : Cell → F) (h : id.threadIdx.x < stride) :
    (halve id stride rest).May false .store (scratch id id.threadIdx.x) := by
  rw [halve, if_pos h]
  exact .inr ⟨m (scratch id 0), .inr ⟨m (scratch id 0), .inl ⟨rfl, rfl⟩⟩⟩

theorem halve_may {a : Access} {c : Cell} (h : (halve id stride rest).May false a c) :
    id.threadIdx.x < stride ∧ (c = scratch id id.threadIdx.x ∨
      (a = .load ∧ c = scratch id (id.threadIdx.x + stride))) := by
  unfold halve at h
  split at h
  · rename_i hlt
    refine ⟨hlt, ?_⟩
    obtain ⟨-, rfl⟩ | ⟨_, ⟨rfl, rfl⟩ | ⟨_, ⟨-, rfl⟩ | h⟩⟩ := h
    · exact .inl rfl
    · exact .inr ⟨rfl, rfl⟩
    · exact .inl rfl
    · cases h.1
  · cases h.1

end Halve

/-! ## A workgroup -/

section Workgroup

variable {b : Builtin} {wg : Workgroups} {g : Dim3}

omit [Arith F] in
/-- The threads of a workgroup are in a row. -/
theorem launched_row (hblock : b.block = ⟨256, 1, 1⟩) (i : Launched b wg) :
    i.1.threadIdx.x < 256 ∧ i.1.threadIdx.y = 0 ∧ i.1.threadIdx.z = 0 := by
  obtain ⟨-, hd, -, hthread⟩ := mem_grid.mp i.2
  rw [hd, hblock] at hthread
  obtain ⟨hx, hy, hz⟩ := mem_places.mp hthread
  exact ⟨hx, Nat.lt_one_iff.mp hy, Nat.lt_one_iff.mp hz⟩

omit [Arith F] in
theorem row_ext (hblock : b.block = ⟨256, 1, 1⟩) {i j : Launched b wg}
    (hg : workgroup i = workgroup j) (hx : i.1.threadIdx.x = j.1.threadIdx.x) : i = j := by
  obtain ⟨-, hy, hz⟩ := launched_row hblock i
  obtain ⟨-, hy', hz'⟩ := launched_row hblock j
  obtain ⟨hgrid, hd, -, -⟩ := mem_grid.mp i.2
  obtain ⟨hgrid', hd', -, -⟩ := mem_grid.mp j.2
  rcases i with ⟨⟨group, ⟨x, y, z⟩, gridDim, blockDim⟩, hi⟩
  rcases j with ⟨⟨group', ⟨x', y', z'⟩, gridDim', blockDim'⟩, hj⟩
  simp only at hy hz hy' hz' hgrid hd hgrid' hd' hx
  obtain rfl : group = group' := hg
  subst hx hy hz hy' hz' hgrid hgrid' hd hd'
  rfl

/-- The thread in column `x` of the workgroup of `id`. -/
def inRow (id : Ids) (x : Nat) : Ids := { id with threadIdx := ⟨x, 0, 0⟩ }

omit [Arith F] in
theorem inRow_launched (hblock : b.block = ⟨256, 1, 1⟩) (hid : id ∈ grid b wg) {x : Nat}
    (hx : x < 256) : inRow id x ∈ grid b wg := by
  obtain ⟨hg, hd, hgroup, -⟩ := mem_grid.mp hid
  refine mem_grid.mpr ⟨hg, hd, hgroup, ?_⟩
  change (⟨x, 0, 0⟩ : Dim3) ∈ id.blockDim.places
  rw [hd, hblock]
  exact mem_places.mpr ⟨hx, Nat.one_pos, Nat.one_pos⟩

omit [Arith F] in
theorem scratch_inj {id' : Ids} {x x' : Nat} (h : scratch id x = scratch id' x') : x = x' :=
  (Cell.own.inj h).2.2

theorem halve_quiet (hblock : b.block = ⟨256, 1, 1⟩) {stride : Nat}
    {rest : Launched b wg → Shared F Unit} :
    Quiet workgroup g fun i : Launched b wg => halve i.1 stride (rest i) := by
  intro i j hi hj hne a c hstore hmay
  have hx : i.1.threadIdx.x ≠ j.1.threadIdx.x :=
    fun he => hne (row_ext hblock (hi.trans hj.symm) he)
  obtain ⟨hj, rfl | ⟨h, -⟩⟩ := halve_may hstore
  · obtain ⟨-, hc | ⟨-, hc⟩⟩ := halve_may hmay
    · exact hx (scratch_inj hc).symm
    · have := scratch_inj hc
      omega
  · cases h

/-- **The loop over strides in lockstep** is a sum in a tree. -/
theorem plays_tree (hblock : b.block = ⟨256, 1, 1⟩) {Q : (Cell → F) → Prop} {stride : Nat}
    (hstride : stride ≤ 128) {k : Launched b wg → Unit → Shared F Unit} {x : Nat → F}
    (hx : ∀ i, i = 0 ∨ i < 2 * stride → m (.own g 0 i) = x i)
    (hg : ∃ i : Launched b wg, workgroup i = g)
    (h : ∀ m', slotsOf m' = slotsOf m → m' (.own g 0 0) = Gpu.treeSum stride x 0 →
      Plays workgroup g Q (fun i : Launched b wg => k i ()) m') :
    Plays workgroup g Q (fun i : Launched b wg => tree i.1 stride >>= k i) m := by
  induction stride using Nat.strong_induction_on generalizing m x with
  | _ stride ih =>
    by_cases hzero : stride = 0
    · subst hzero
      simp only [tree_zero]
      refine h m rfl ?_
      rw [Gpu.treeSum, if_pos rfl]
      exact hx 0 (.inl rfl)
    simp only [tree_bind hzero]
    have hquiet : Quiet workgroup g fun i : Launched b wg =>
      halve i.1 stride (tree i.1 (stride / 2) >>= k i) := halve_quiet hblock
    obtain ⟨m', hleaves⟩ := hquiet.exists_leaves m
    have hslots : slotsOf m' = slotsOf m := by
      funext s j
      refine hleaves.kept (.slot s j) fun i _ hstore => ?_
      obtain ⟨-, h | ⟨-, h⟩⟩ := halve_may hstore <;> cases h
    -- the lower half holds the sums
    have hsums : ∀ i < stride, m' (.own g 0 i) = Arith.add (x i) (x (i + stride)) := by
      intro i hi
      obtain ⟨t, ht⟩ := hg
      have hmem := inRow_launched hblock t.2 (x := i) (by omega)
      have hown : ∀ j, scratch (inRow t.1 i) j = .own g 0 j := fun j => ht ▸ rfl
      have hstored := hleaves.stored ⟨_, hmem⟩ ht _ (halve_stores m hi)
      rw [halve_after hi, Function.update_self] at hstored
      simp only [hown] at hstored
      exact hstored.trans (congrArg₂ _ (hx i (.inr (by omega))) (hx (i + stride) (.inr (by omega))))
    refine .meets 1 hquiet (fun i _ => halve_stop) hleaves ?_
    refine ih (stride / 2) (by omega) (by omega)
      (x := fun i => if i < stride then Arith.add (x i) (x (i + stride)) else x i)
      (fun i hi => ?_) fun m'' hm'' htotal => h m'' (hm''.trans hslots) ?_
    · have hlt : i < stride := by omega
      rw [hsums i hlt, if_pos hlt]
    · conv_rhs => rw [Gpu.treeSum, if_neg hzero]
      exact htotal

/-! ## All of it -/

variable {out : Nat} {term : Ids → Shared F F} {value : Ids → Memory F → F}

theorem reduceWith_eq (t : Shared F F) : reduceWith ar id out t = t >>= fun x =>
    .store (scratch id id.threadIdx.x) x (.barrier 0 (tree id 128 >>= fun _ =>
      putPartial ar id out)) := rfl

omit [Arith F] in
theorem putPartial_stop : (putPartial (F := F) ar id out).stop m = .done () := by
  unfold putPartial
  split <;> rfl

omit [Arith F] in
theorem putPartial_after (h : id.threadIdx.x = 0) : (putPartial ar id out).after m =
    Function.update m (.slot out (Gpu.group ar id)) (m (scratch id 0)) := by
  rw [putPartial, if_pos h]
  rfl

omit [Arith F] in
theorem putPartial_stores (m : Cell → F) (h : id.threadIdx.x = 0) :
    (putPartial (F := F) ar id out).May false .store (.slot out (Gpu.group ar id)) := by
  rw [putPartial, if_pos h]
  exact .inr ⟨m (scratch id 0), .inl ⟨rfl, rfl⟩⟩

omit [Arith F] in
theorem putPartial_may {ever : Bool} {a : Access} {c : Cell}
    (h : (putPartial (F := F) ar id out).May ever a c) : id.threadIdx.x = 0 ∧
      ((a = .load ∧ c = scratch id 0) ∨ (a = .store ∧ c = .slot out (Gpu.group ar id))) := by
  unfold putPartial at h
  split at h
  · rename_i hx
    obtain ⟨rfl, rfl⟩ | ⟨_, ⟨rfl, rfl⟩ | h⟩ := h
    · exact ⟨hx, .inl ⟨rfl, rfl⟩⟩
    · exact ⟨hx, .inr ⟨rfl, rfl⟩⟩
    · cases h
  · cases h

theorem tree_may {stride : Nat} {ever : Bool} {a : Access} {c : Cell}
    (h : (tree (F := F) id stride).May ever a c) : IsOwn id c := by
  induction stride using Nat.strong_induction_on with
  | _ stride ih =>
    by_cases hzero : stride = 0
    · subst hzero
      rw [tree, if_pos rfl] at h
      cases h
    have h : (tree (F := F) id stride >>= pure).May ever a c := by rwa [bind_pure]
    rw [tree_bind hzero, bind_pure, halve] at h
    split at h
    · obtain ⟨-, rfl⟩ | ⟨_, ⟨-, rfl⟩ | ⟨_, ⟨-, rfl⟩ | ⟨-, h⟩⟩⟩ := h
      · exact ⟨0, _, rfl⟩
      · exact ⟨0, _, rfl⟩
      · exact ⟨0, _, rfl⟩
      · exact ih _ (by omega) h
    · exact ih _ (by omega) h.2

/-- What a thread of the reduction does in all, in any run. -/
theorem reduceWith_may (hterm : Looks (term id) (NotOut out) fun m => value id (slotsOf m))
    {a : Access} {c : Cell} (h : (reduceWith ar id out (term id)).May true a c) :
    (a = .load ∧ NotOut out c) ∨ IsOwn id c ∨
      (id.threadIdx.x = 0 ∧ a = .store ∧ c = .slot out (Gpu.group ar id)) := by
  rw [reduceWith_eq] at h
  rcases hterm.bind_may h with h | ⟨_, ⟨-, rfl⟩ | ⟨-, h⟩⟩
  · exact .inl h
  · exact .inr (.inl ⟨0, _, rfl⟩)
  rcases may_bind.mp h with h | ⟨_, -, h⟩
  · exact .inr (.inl (tree_may h))
  · obtain ⟨hx, ⟨-, rfl⟩ | h⟩ := putPartial_may h
    · exact .inr (.inl ⟨0, _, rfl⟩)
    · exact .inr (.inr ⟨hx, h⟩)

/-- Workgroup `g` in lockstep writes the sum of its threads' terms. -/
theorem plays_reduceWith (hblock : b.block = ⟨256, 1, 1⟩)
    (hterm : ∀ id, Looks (term id) (NotOut out) fun m => value id (slotsOf m)) (m : Cell → F)
    (hg : ∃ i : Launched b wg, workgroup i = g) : Plays workgroup g
      (fun m' => ∀ i : Launched b wg, workgroup i = g → i.1.threadIdx.x = 0 →
        m' (.slot out (Gpu.group ar i.1)) =
          Gpu.treeSum 128 (fun x => value (inRow i.1 x) (slotsOf m)) 0)
      (fun i : Launched b wg => reduceWith ar i.1 out (term i.1)) m := by
  obtain ⟨t, ht⟩ := hg
  -- up to the first barrier each thread stores its term
  have hmay : ∀ i : Launched b wg, ∀ a c, (reduceWith ar i.1 out (term i.1)).May false a c →
      (a = .load ∧ NotOut out c) ∨ c = scratch i.1 i.1.threadIdx.x := by
    intro i a c h
    rw [reduceWith_eq] at h
    rcases (hterm i.1).bind_may h with h | ⟨_, ⟨-, rfl⟩ | h⟩
    · exact .inl h
    · exact .inr rfl
    · cases h.1
  have hquiet : Quiet workgroup g fun i : Launched b wg => reduceWith ar i.1 out (term i.1) := by
    intro i j hi hj hne a c hstore h
    rcases hmay j _ _ hstore with ⟨h', -⟩ | rfl
    · cases h'
    rcases hmay i _ _ h with ⟨-, s, k, h', -⟩ | h'
    · cases h'
    · exact hne (row_ext hblock (hi.trans hj.symm) (scratch_inj h').symm)
  obtain ⟨m₁, hleaves⟩ := hquiet.exists_leaves m
  have hslots : slotsOf m₁ = slotsOf m := by
    funext s j
    refine hleaves.kept (.slot s j) fun i _ hstore => ?_
    rcases hmay i _ _ hstore with ⟨h, -⟩ | h <;> cases h
  have hterms : ∀ x < 256, m₁ (.own g 0 x) = value (inRow t.1 x) (slotsOf m) := by
    intro x hx
    have hmem := inRow_launched hblock t.2 hx
    have hown : scratch (inRow t.1 x) x = .own g 0 x := ht ▸ rfl
    have hstores : (reduceWith ar (inRow t.1 x) out (term (inRow t.1 x))).May false .store
        (scratch (inRow t.1 x) x) := by
      rw [reduceWith_eq]
      exact (hterm _).bind_may_of m (.inl ⟨rfl, rfl⟩)
    have hstored := hleaves.stored ⟨_, hmem⟩ ht _ hstores
    rw [reduceWith_eq, (hterm _).bind_after, hown] at hstored
    rw [hstored]
    exact (congrArg _ hown.symm).trans (Function.update_self _ _ _)
  refine .meets 0 hquiet (fun i _ => by rw [reduceWith_eq, (hterm _).bind_stop]; rfl) hleaves ?_
  refine plays_tree hblock le_rfl (x := fun x => value (inRow t.1 x) (slotsOf m))
    (fun x hx => hterms x (by omega)) ⟨t, ht⟩ fun m₂ _ htotal => ?_
  -- the first thread writes what is left
  have hquiet' : Quiet workgroup g fun i : Launched b wg => putPartial (F := F) ar i.1 out := by
    intro i j hi hj hne a c hstore h
    exact hne (row_ext hblock (hi.trans hj.symm)
      ((putPartial_may h).1.trans (putPartial_may hstore).1.symm))
  obtain ⟨m', hleaves'⟩ := hquiet'.exists_leaves m₂
  refine .ends hquiet' (fun i _ => putPartial_stop) hleaves' fun i hi hx => ?_
  have hown : scratch i.1 0 = .own g 0 0 := hi ▸ rfl
  have hrow : inRow i.1 = inRow t.1 := by
    obtain ⟨hgrid, hd, -, -⟩ := mem_grid.mp i.2
    obtain ⟨hgrid', hd', -, -⟩ := mem_grid.mp t.2
    have hgroup : i.1.blockIdx = t.1.blockIdx := hi.trans ht.symm
    funext x
    simp only [inRow, hgrid, hd, hgrid', hd', hgroup]
  rw [hleaves'.stored i hi _ (putPartial_stores m₂ hx), putPartial_after hx, Function.update_self,
    hown, htotal, hrow]

/-- Workgroups have nothing to do with each other. -/
theorem reduceWith_apart
    (hterm : ∀ id, Looks (term id) (NotOut out) fun m => value id (slotsOf m))
    (hone : ∀ i j : Launched b wg, Gpu.group ar i.1 = Gpu.group ar j.1 →
      workgroup i = workgroup j) :
    Apart workgroup fun i : Launched b wg => reduceWith ar i.1 out (term i.1) := by
  intro i j hne a c hstore hmay
  rcases reduceWith_may (hterm _) hstore with ⟨h, -⟩ | ⟨array, k, rfl⟩ | ⟨-, -, rfl⟩
  · cases h
  · rcases reduceWith_may (hterm _) hmay with ⟨-, s, k', h, -⟩ | ⟨array', k', h⟩ | ⟨-, -, h⟩
    · cases h
    · exact hne (Cell.own.inj h).1.symm
    · cases h
  · rcases reduceWith_may (hterm _) hmay with ⟨-, s, k', h, hs⟩ | ⟨array', k', h⟩ | ⟨-, -, h⟩
    · exact hs (Cell.slot.inj h).1.symm
    · cases h
    · exact hne (hone i j (Cell.slot.inj h).2.symm)

variable (out term value) in
/-- **A launch**, in any order of its threads' actions, leaves for each
workgroup the sum of its terms, and nothing else. -/
theorem correct_reduceWith (hblock : b.block = ⟨256, 1, 1⟩)
    (hterm : ∀ id, Looks (term id) (NotOut out) fun m => value id (slotsOf m))
    (hone : ∀ i j : Launched b wg, Gpu.group ar i.1 = Gpu.group ar j.1 →
      workgroup i = workgroup j) (m₀ : Cell → F) : Correct workgroup
      (fun m => (∀ i : Launched b wg, i.1.threadIdx.x = 0 → m (.slot out (Gpu.group ar i.1)) =
          Gpu.treeSum 128 (fun x => value (inRow i.1 x) (slotsOf m₀)) 0) ∧
        ∀ s j, (∀ i : Launched b wg, (s, j) ≠ (out, Gpu.group ar i.1)) →
          m (.slot s j) = m₀ (.slot s j))
      (fun i : Launched b wg => reduceWith ar i.1 out (term i.1)) m₀ := by
  refine correct_of_plays (reduceWith_apart hterm hone)
    (fun g hg => plays_reduceWith hblock hterm m₀ hg) fun m hends hkept =>
      ⟨fun i hx => ?_, fun s j hnone => hkept _ fun i hstore => ?_⟩
  · obtain ⟨m', hm', hown⟩ := hends (workgroup i) ⟨i, rfl⟩
    rw [hown, hm' i rfl hx]
    intro j hj hstore
    rcases reduceWith_may (hterm _) hstore with ⟨h, -⟩ | ⟨_, _, h⟩ | ⟨-, -, h⟩
    · cases h
    · cases h
    · exact hj (hone j i (Cell.slot.inj h).2.symm)
  · rcases reduceWith_may (hterm _) hstore with ⟨h, -⟩ | ⟨_, _, h⟩ | ⟨-, -, h⟩
    · cases h
    · cases h
    · exact hnone i (by rw [(Cell.slot.inj h).1, (Cell.slot.inj h).2])

end Workgroup

end Shared

end Wilupgu.Builtins
