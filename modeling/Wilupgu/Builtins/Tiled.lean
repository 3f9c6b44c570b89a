import Wilupgu.Builtins.Extra
import Wilupgu.Builtins.Shared

/-! # Tiles and barriers

A workgroup of a matrix product stores a tile of each matrix, waits, sums up,
waits, and so on, and then writes its part of the result. In lockstep a round
comes to what it does where every thread sees all of both tiles at once. -/

namespace Wilupgu.Builtins

open Backend Simt Lockstep Lockstep.Prog

namespace Shared

variable {F : Type} [Arith F] {ar : Ints} {mm : List UInt32} {id : Ids} {m : Cell → F}
  {bIndex : Nat → Nat → Nat}

/-! ## One thread -/

/-- An element of the matrices that are multiplied. -/
def IsFactor (c : Cell) : Prop := ∃ s i, c = .slot s i ∧ s ≠ 3

/-- An element of one of the workgroup's own arrays. -/
def IsOwn (id : Ids) (c : Cell) : Prop := ∃ array i, c = .own id.blockIdx array i

omit [Arith F] in
@[simp] theorem slotsOf_update_own (g : Dim3) (array i : Nat) (v : F) :
    slotsOf (Function.update m (.own g array i) v) = slotsOf m := by
  funext s j
  exact Function.update_of_ne (by simp) _ _

theorem elemA_looks (t : Nat) : Looks (elemA (F := F) ar mm id t) IsFactor fun m =>
    (Gpu.tileA ar mm id t (slotsOf m)).1 := by
  simp only [elemA, Gpu.tileA]
  split
  · exact .read ⟨1, _, rfl, by decide⟩
  · exact .pure _

theorem elemB_looks (t : Nat) : Looks (elemB (F := F) ar mm id bIndex t) IsFactor fun m =>
    (Gpu.tileB ar mm id bIndex t (slotsOf m)).1 := by
  simp only [elemB, Gpu.tileB]
  split
  · exact .read ⟨2, _, rfl, by decide⟩
  · exact .pure _

theorem addTiles_looks (id : Ids) (sum : F) (k : Nat) : Looks (addTiles id sum k) (IsOwn id) fun m =>
    Arith.add sum (Arith.mul (m (tile_A id id.threadIdx.y k)) (m (tile_B id k id.threadIdx.x))) :=
  (Looks.read ⟨0, _, rfl⟩).bind fun _ => (Looks.read ⟨1, _, rfl⟩).bind fun _ => .pure _

/-- What a thread does in a round after the first barrier. -/
def sumRound {α : Type} (id : Ids) (sum : F) (k : F → Shared F α) : Shared F α :=
  loop (List.range 16) sum (addTiles id) >>= fun sum => .barrier 1 (k sum)

theorem round_bind {α : Type} (sum : F) (t : Nat) (k : F → Shared F α) :
    round ar mm id bIndex sum t >>= k = elemA ar mm id t >>= fun a =>
      .store (tile_A id id.threadIdx.y id.threadIdx.x) a (elemB ar mm id bIndex t >>= fun b =>
        .store (tile_B id id.threadIdx.y id.threadIdx.x) b (.barrier 0 (sumRound id sum k))) := by
  simp only [round, sumRound, bind_assoc, write_bind, wait_bind, store_bind, barrier_bind, pure_bind]

section Round

variable {sum : F} {t : Nat} {k : F → Shared F Unit}

theorem round_stop : (round ar mm id bIndex sum t >>= k).stop m =
    .barrier 0 (sumRound id sum k) := by
  rw [round_bind, (elemA_looks t).bind_stop, stop, (elemB_looks t).bind_stop, stop, stop]

/-- Up to the first barrier a thread stores its element of each tile. -/
theorem round_after : (round ar mm id bIndex sum t >>= k).after m =
    Function.update (Function.update m (tile_A id id.threadIdx.y id.threadIdx.x)
      (Gpu.tileA ar mm id t (slotsOf m)).1) (tile_B id id.threadIdx.y id.threadIdx.x)
      (Gpu.tileB ar mm id bIndex t (slotsOf m)).1 := by
  rw [round_bind, (elemA_looks t).bind_after, after, (elemB_looks t).bind_after, after, after,
    tile_A, slotsOf_update_own]

theorem round_may {a : Access} {c : Cell} (h : (round ar mm id bIndex sum t >>= k).May false a c) :
    (a = .load ∧ IsFactor c) ∨ (a = .store ∧ (c = tile_A id id.threadIdx.y id.threadIdx.x ∨
      c = tile_B id id.threadIdx.y id.threadIdx.x)) := by
  rw [round_bind] at h
  rcases (elemA_looks t).bind_may h with h | ⟨_, ⟨rfl, rfl⟩ | h⟩
  · exact .inl h
  · exact .inr ⟨rfl, .inl rfl⟩
  · rcases (elemB_looks t).bind_may h with h | ⟨_, ⟨rfl, rfl⟩ | h⟩
    · exact .inl h
    · exact .inr ⟨rfl, .inr rfl⟩
    · cases h.1

theorem round_stores (m : Cell → F) :
    (round ar mm id bIndex sum t >>= k).May false .store
        (tile_A id id.threadIdx.y id.threadIdx.x) ∧
      (round ar mm id bIndex sum t >>= k).May false .store
        (tile_B id id.threadIdx.y id.threadIdx.x) := by
  rw [round_bind]
  exact ⟨(elemA_looks t).bind_may_of m (.inl ⟨rfl, rfl⟩),
    (elemA_looks t).bind_may_of m (.inr ((elemB_looks t).bind_may_of m (.inl ⟨rfl, rfl⟩)))⟩

/-- Up to the second one it sums up a row of one tile with a column of the other. -/
theorem sumRound_spec : (sumRound id sum k).stop m = .barrier 1 (k
      ((List.range 16).foldl (fun sum k => Arith.add sum (Arith.mul
        (m (tile_A id id.threadIdx.y k)) (m (tile_B id k id.threadIdx.x)))) sum)) ∧
    (sumRound id sum k).after m = m ∧
    ∀ a c, (sumRound id sum k).May false a c → a = .load ∧ IsOwn id c := by
  have hlooks := Looks.loop (List.range 16) sum fun sum k _ => addTiles_looks id sum k
  refine ⟨hlooks.bind_stop _, hlooks.bind_after _, fun a c h => ?_⟩
  rcases hlooks.bind_may h with h | ⟨_, h⟩
  · exact h
  · cases h.1

end Round

/-! ## A workgroup -/

/-- The value of a round where all of both tiles is seen at once. -/
theorem round_val (sum : F) (t : Nat) (mem : Memory F) :
    (Gpu.round ar mm id bIndex sum t mem).1 = (List.range 16).foldl (fun sum k => Arith.add sum
      (Arith.mul (Gpu.tileA ar mm (id.lane (id.threadIdx.y * 16 + k)) t mem).1
        (Gpu.tileB ar mm (id.lane (k * 16 + id.threadIdx.x)) bIndex t mem).1)) sum := by
  simp only [Gpu.round, Thread.bind_val, Thread.peers_run, Thread.loop_pure, Thread.pure_run]

section Workgroup

variable {b : Builtin} {wg : Workgroups} {g : Dim3}

omit [Arith F] in
/-- The thread of its workgroup that stores at a place of the tiles. -/
theorem lane_launched (hblock : b.block = ⟨16, 16, 1⟩) (hid : id ∈ grid b wg) {r c : Nat}
    (hr : r < 16) (hc : c < 16) : id.lane (r * 16 + c) ∈ grid b wg ∧
      (id.lane (r * 16 + c)).threadIdx = ⟨c, r, id.threadIdx.z⟩ := by
  obtain ⟨hg, hd, hgroup, hthread⟩ := mem_grid.mp hid
  obtain ⟨hdiv, hmod⟩ := div_mod_of_lt r hc
  have hlane : (id.lane (r * 16 + c)).threadIdx = ⟨c, r, id.threadIdx.z⟩ := by
    simp only [Ids.lane, hd, hblock, hdiv, hmod]
  refine ⟨mem_grid.mpr ⟨hg, hd, hgroup, ?_⟩, hlane⟩
  rw [hlane]
  refine mem_places.mpr ⟨?_, ?_, (mem_places.mp hthread).2.2⟩
  · simpa [Ids.lane, hd, hblock] using hc
  · simpa [Ids.lane, hd, hblock] using hr

omit [Arith F] in
theorem launched_bounds (hblock : b.block = ⟨16, 16, 1⟩) (i : Launched b wg) :
    i.1.threadIdx.x < 16 ∧ i.1.threadIdx.y < 16 ∧ i.1.threadIdx.z = 0 := by
  obtain ⟨-, hd, -, hthread⟩ := mem_grid.mp i.2
  rw [hd, hblock] at hthread
  obtain ⟨hx, hy, hz⟩ := mem_places.mp hthread
  exact ⟨hx, hy, Nat.lt_one_iff.mp hz⟩

omit [Arith F] in
/-- Threads of a workgroup are told apart by their places. -/
theorem launched_ext (hblock : b.block = ⟨16, 16, 1⟩) {i j : Launched b wg}
    (hg : workgroup i = workgroup j) (hplace : i.1.threadIdx.y * 16 + i.1.threadIdx.x =
      j.1.threadIdx.y * 16 + j.1.threadIdx.x) : i = j := by
  obtain ⟨hx, hy, hz⟩ := launched_bounds hblock i
  obtain ⟨hx', hy', hz'⟩ := launched_bounds hblock j
  obtain ⟨hgrid, hd, -, -⟩ := mem_grid.mp i.2
  obtain ⟨hgrid', hd', -, -⟩ := mem_grid.mp j.2
  rcases i with ⟨⟨group, ⟨x, y, z⟩, gridDim, blockDim⟩, hi⟩
  rcases j with ⟨⟨group', ⟨x', y', z'⟩, gridDim', blockDim'⟩, hj⟩
  simp only at hx hy hz hx' hy' hz' hgrid hd hgrid' hd' hplace
  obtain rfl : group = group' := hg
  obtain ⟨rfl, rfl⟩ : x = x' ∧ y = y' := by omega
  subst hz hz' hgrid hgrid' hd hd'
  rfl

variable {sums : Launched b wg → F} {t : Nat} {k : Launched b wg → F → Shared F Unit}

theorem round_quiet (hblock : b.block = ⟨16, 16, 1⟩) :
    Quiet workgroup g fun i : Launched b wg => round ar mm i.1 bIndex (sums i) t >>= k i := by
  intro i j hi hj hne a c hstore hmay
  have hplace : i.1.threadIdx.y * 16 + i.1.threadIdx.x ≠
      j.1.threadIdx.y * 16 + j.1.threadIdx.x :=
    fun he => hne (launched_ext hblock (hi.trans hj.symm) he)
  rcases round_may hstore with ⟨h, -⟩ | ⟨-, hc⟩
  · cases h
  · rcases round_may hmay with ⟨-, s, idx, rfl, -⟩ | ⟨-, hc'⟩
    · rcases hc with hc | hc <;> cases hc
    · rcases hc with rfl | rfl <;> rcases hc' with hc' | hc' <;>
        simp only [tile_A, tile_B, Cell.own.injEq] at hc' <;> omega

/-- **A round in lockstep** is a round in which all of both tiles is seen at once. -/
theorem plays_round (hblock : b.block = ⟨16, 16, 1⟩) {Q : (Cell → F) → Prop} {mem : Memory F}
    (hm : slotsOf m = mem)
    (h : ∀ m', slotsOf m' = mem → Plays workgroup g Q (fun i : Launched b wg =>
      k i (Gpu.round ar mm i.1 bIndex (sums i) t mem).1) m') :
    Plays workgroup g Q
      (fun i : Launched b wg => round ar mm i.1 bIndex (sums i) t >>= k i) m := by
  have hquiet : Quiet workgroup g fun i : Launched b wg =>
    round ar mm i.1 bIndex (sums i) t >>= k i := round_quiet hblock
  obtain ⟨m', hleaves⟩ := hquiet.exists_leaves m
  have hslots : slotsOf m' = mem := by
    rw [← hm]
    funext s j
    refine hleaves.kept (.slot s j) fun i _ hstore => ?_
    rcases round_may hstore with ⟨h, -⟩ | ⟨-, h | h⟩ <;> cases h
  -- by the first barrier both tiles are there
  have htiles : ∀ i : Launched b wg, workgroup i = g → ∀ r < 16, ∀ c < 16,
      m' (tile_A i.1 r c) = (Gpu.tileA ar mm (i.1.lane (r * 16 + c)) t mem).1 ∧
        m' (tile_B i.1 r c) = (Gpu.tileB ar mm (i.1.lane (r * 16 + c)) bIndex t mem).1 := by
    intro i hi r hr c hc
    obtain ⟨hmem, hlane⟩ := lane_launched hblock i.2 hr hc
    have hstored := hleaves.stored ⟨_, hmem⟩ hi
    have hboth : tile_A (i.1.lane (r * 16 + c)) r c ≠ tile_B (i.1.lane (r * 16 + c)) r c := by
      simp [tile_A, tile_B]
    have hA := hstored _ (round_stores m).1
    have hB := hstored _ (round_stores m).2
    rw [round_after, hm, hlane] at hA hB
    rw [Function.update_of_ne hboth, Function.update_self] at hA
    rw [Function.update_self] at hB
    exact ⟨hA, hB⟩
  obtain ⟨hquiet', hleaves'⟩ : Quiet workgroup g (fun i : Launched b wg =>
      sumRound i.1 (sums i) (k i)) ∧ Leaves workgroup g (fun i => sumRound i.1 (sums i) (k i)) m' m' :=
    leaves_of_looks (fun i _ c hstore => by cases (sumRound_spec (m := m').2.2 _ _ hstore).1) m'
  refine .meets 0 hquiet (fun i _ => round_stop) hleaves (.meets 1 hquiet'
    (fun i _ => sumRound_spec.1) hleaves' ((h m' hslots).congr fun i hi => congrArg (k i) ?_))
  obtain ⟨hx, hy, -⟩ := launched_bounds hblock i
  rw [round_val]
  refine List.foldl_ext _ _ _ fun sum kk hkk => ?_
  have hkk := List.mem_range.mp hkk
  rw [(htiles i hi _ hy _ hkk).1, (htiles i hi _ hkk _ hx).2]

/-- So is the whole loop. -/
theorem plays_rounds (hblock : b.block = ⟨16, 16, 1⟩) {Q : (Cell → F) → Prop} {mem : Memory F}
    (hm : slotsOf m = mem) (l : List Nat)
    (h : ∀ m', slotsOf m' = mem → Plays workgroup g Q (fun i : Launched b wg =>
      k i (l.foldl (fun sum t => (Gpu.round ar mm i.1 bIndex sum t mem).1) (sums i))) m') :
    Plays workgroup g Q
      (fun i : Launched b wg => loop l (sums i) (round ar mm i.1 bIndex) >>= k i) m := by
  induction l generalizing sums m with
  | nil => exact h m hm
  | cons t l ih =>
    simp only [loop, bind_assoc]
    exact plays_round hblock hm fun m' hm' => ih hm' h

end Workgroup

/-! ## The end of a thread -/

/-- `C` has an element for the thread. -/
def HasResult (ar : Ints) (mm : List UInt32) (id : Ids) : Prop :=
  Gpu.row ar id < dim mm 0 ∧ Gpu.col ar id < dim mm 1

/-- The one it has. -/
def resultAt (ar : Ints) (mm : List UInt32) (id : Ids) : Nat :=
  ar.add (ar.mul (Gpu.row ar id) (dim mm 1)) (Gpu.col ar id)

instance : Decidable (HasResult ar mm id) := inferInstanceAs (Decidable (_ ∧ _))

/-- What a thread ended with is in memory. -/
def Holds (m : Cell → F) (ends : Ends F) : Prop :=
  ∀ s, ends = some s → m (.slot s.slot s.index) = s.value

section Result

variable {accumulate : Bool} {sum : F}

theorem putResult_stop : (putResult ar mm id accumulate sum).stop m = .done () := by
  unfold putResult
  split
  · cases accumulate <;> rfl
  · rfl

theorem putResult_may {ever : Bool} {a : Access} {c : Cell}
    (h : (putResult ar mm id accumulate sum).May ever a c) :
    HasResult ar mm id ∧ c = .slot 3 (resultAt ar mm id) := by
  unfold putResult at h
  split at h
  · rename_i hin
    refine ⟨hin, ?_⟩
    cases accumulate with
    | false =>
      obtain ⟨-, rfl⟩ | h := h
      · rfl
      · cases h
    | true =>
      obtain ⟨-, rfl⟩ | ⟨_, ⟨-, rfl⟩ | h⟩ := h
      · rfl
      · rfl
      · cases h
  · cases h

theorem putResult_after (h : HasResult ar mm id) : (putResult ar mm id accumulate sum).after m =
    Function.update m (.slot 3 (resultAt ar mm id)) (if accumulate then
      Arith.add (m (.slot 3 (resultAt ar mm id))) sum else sum) := by
  rw [putResult, if_pos (show _ ∧ _ from h)]
  cases accumulate <;> rfl

theorem putResult_stores (m : Cell → F) (h : HasResult ar mm id) :
    (putResult ar mm id accumulate sum).May false .store (.slot 3 (resultAt ar mm id)) := by
  rw [putResult, if_pos (show _ ∧ _ from h)]
  cases accumulate with
  | false => exact .inl ⟨rfl, rfl⟩
  | true => exact .inr ⟨m (.slot 3 0), .inl ⟨rfl, rfl⟩⟩

/-- What a thread of the product does in all, in any run. -/
theorem matmulWith_may {a : Access} {c : Cell}
    (h : (matmulWith ar mm id bIndex accumulate : Shared F Unit).May true a c) :
    (a = .load ∧ IsFactor c) ∨ IsOwn id c ∨
      (HasResult ar mm id ∧ c = .slot 3 (resultAt ar mm id)) := by
  rcases may_bind.mp h with h | ⟨sum, -, h⟩
  · obtain ⟨sum, t, -, h⟩ := may_loop h
    have hround : (round ar mm id bIndex sum t >>= pure).May true a c := by rwa [bind_pure]
    rw [round_bind] at hround
    rcases (elemA_looks t).bind_may hround with h | ⟨_, ⟨-, rfl⟩ | h⟩
    · exact .inl h
    · exact .inr (.inl ⟨0, _, rfl⟩)
    rcases (elemB_looks t).bind_may h with h | ⟨_, ⟨-, rfl⟩ | h⟩
    · exact .inl h
    · exact .inr (.inl ⟨1, _, rfl⟩)
    have hlooks := Looks.loop (List.range 16) sum fun sum k _ => addTiles_looks id sum k
    rcases hlooks.bind_may h.2 with h | ⟨_, -, h⟩
    · exact .inr (.inl h.2)
    · cases h
  · exact .inr (.inr (putResult_may h))

/-- The same thread where all of both tiles is seen at once. -/
theorem gpu_matmulWith_val (mem : Memory F) : (Gpu.matmulWith ar mm id bIndex accumulate mem).1 =
    if HasResult ar mm id then
      let sum := (List.range (Gpu.numTiles ar mm)).foldl
        (fun sum t => (Gpu.round ar mm id bIndex sum t mem).1) Arith.zero
      some ⟨3, resultAt ar mm id,
        if accumulate then Arith.add (mem 3 (resultAt ar mm id)) sum else sum⟩
    else none := by
  rw [Gpu.matmulWith, Thread.bind_val, Thread.bind_val]
  by_cases h : HasResult ar mm id
  · rw [if_pos h, if_pos (show _ ∧ _ from h), put_val, Thread.loop_val]
    rfl
  · rw [if_neg h, if_neg (show ¬(_ ∧ _) from h)]
    rfl

end Result

/-! ## A launch -/

section Launch

variable {b : Builtin} {wg : Workgroups} {g : Dim3} {accumulate : Bool}

/-- No two threads have one element. -/
def OneResult (ar : Ints) (mm : List UInt32) (b : Builtin) (wg : Workgroups) : Prop :=
  ∀ i j : Launched b wg, HasResult ar mm i.1 → HasResult ar mm j.1 →
    resultAt ar mm i.1 = resultAt ar mm j.1 → i = j

/-- Workgroup `g` in lockstep writes what its threads do where all of both tiles
is seen at once. -/
theorem plays_matmulWith (hblock : b.block = ⟨16, 16, 1⟩) (hone : OneResult ar mm b wg)
    (m : Cell → F) : Plays workgroup g
      (fun m' => ∀ i : Launched b wg, workgroup i = g →
        Holds m' (Gpu.matmulWith ar mm i.1 bIndex accumulate (slotsOf m)).1)
      (fun i : Launched b wg => matmulWith ar mm i.1 bIndex accumulate) m := by
  refine plays_rounds hblock rfl _ fun m₁ hm₁ => ?_
  have hquiet : Quiet workgroup g fun i : Launched b wg => putResult ar mm i.1 accumulate
      ((List.range (Gpu.numTiles ar mm)).foldl
        (fun sum t => (Gpu.round ar mm i.1 bIndex sum t (slotsOf m)).1) Arith.zero) := by
    intro i j _ _ hne a c hstore hmay
    obtain ⟨hj, rfl⟩ := putResult_may hstore
    obtain ⟨hi, hc⟩ := putResult_may hmay
    exact hne (hone i j hi hj (by simpa using hc.symm))
  obtain ⟨m', hleaves⟩ := hquiet.exists_leaves m₁
  refine .ends hquiet (fun i _ => putResult_stop) hleaves fun i hi s hs => ?_
  rw [gpu_matmulWith_val] at hs
  split at hs
  · rename_i hin
    cases hs
    have hold : m₁ (.slot 3 (resultAt ar mm i.1)) = slotsOf m 3 (resultAt ar mm i.1) := by
      rw [← hm₁]
      rfl
    rw [hleaves.stored i hi _ (putResult_stores m₁ hin), putResult_after hin,
      Function.update_self, hold]
  · cases hs

/-- Workgroups have nothing to do with each other. -/
theorem matmulWith_apart (hone : OneResult ar mm b wg) :
    Apart workgroup fun i : Launched b wg =>
      (matmulWith ar mm i.1 bIndex accumulate : Shared F Unit) := by
  intro i j hne a c hstore hmay
  rcases matmulWith_may hstore with ⟨h, -⟩ | ⟨array, k, rfl⟩ | ⟨hj, rfl⟩
  · cases h
  · rcases matmulWith_may hmay with ⟨-, s, k', h, -⟩ | ⟨array', k', h⟩ | ⟨-, h⟩
    · cases h
    · exact hne (Cell.own.inj h).1.symm
    · cases h
  · rcases matmulWith_may hmay with ⟨-, s, k', h, hs⟩ | ⟨array', k', h⟩ | ⟨hi, h⟩
    · exact hs (Cell.slot.inj h).1.symm
    · cases h
    · exact hne (congrArg workgroup (hone i j hi hj (by simpa using h.symm)))

/-- **A launch**, in any order of its threads' actions, leaves what the threads
write where all of both tiles is seen at once, and nothing else. -/
theorem correct_matmulWith (hblock : b.block = ⟨16, 16, 1⟩) (hone : OneResult ar mm b wg)
    (m₀ : Cell → F) : Correct workgroup
      (fun m => (∀ i : Launched b wg,
          Holds m (Gpu.matmulWith ar mm i.1 bIndex accumulate (slotsOf m₀)).1) ∧
        ∀ s j, (∀ i : Launched b wg, HasResult ar mm i.1 → (s, j) ≠ (3, resultAt ar mm i.1)) →
          m (.slot s j) = m₀ (.slot s j))
      (fun i : Launched b wg => matmulWith ar mm i.1 bIndex accumulate) m₀ := by
  refine correct_of_plays (matmulWith_apart hone)
    (fun g _ => plays_matmulWith hblock hone m₀) fun m hends hkept => ⟨fun i s hs => ?_, ?_⟩
  · obtain ⟨m', hm', hown⟩ := hends (workgroup i) ⟨i, rfl⟩
    have hs' := hs
    rw [gpu_matmulWith_val] at hs'
    split at hs'
    · rename_i hin
      rw [hown, hm' i rfl s hs]
      cases hs'
      intro j hj hstore
      rcases matmulWith_may hstore with ⟨h, -⟩ | ⟨_, _, h⟩ | ⟨hin', h⟩
      · cases h
      · cases h
      · exact hj (congrArg workgroup (hone j i hin' hin (by simpa using h.symm)))
    · cases hs'
  · intro s j hnone
    refine hkept _ fun i hstore => ?_
    rcases matmulWith_may hstore with ⟨h, -⟩ | ⟨_, _, h⟩ | ⟨hin, h⟩
    · cases h
    · cases h
    · exact hnone i hin (by rw [(Cell.slot.inj h).1, (Cell.slot.inj h).2])

end Launch

end Shared

end Wilupgu.Builtins
