import Wilupgu.Builtins.Owned

/-! # Laws of native linear algebra

The products, sums and transposes of native code say the same things in
different words. These are equalities of results, with the same operations in
the same order, so they hold whatever the elements are. -/

namespace Wilupgu.Builtins

open Backend Loops Native

variable {F : Type} {wg : Workgroups}

/-! ## The matrix that is transposed -/

/-- `y` is the matrix `x`, transposed, and as `y₀` was behind it. -/
structure IsTransposed (rows cols : Nat) (x y₀ y : List F) : Prop where
  length : y.length = y₀.length
  entry : ∀ r < rows, ∀ c < cols, y[c * rows + r]? = x[r * cols + c]?
  behind : ∀ i, rows * cols ≤ i → y[i]? = y₀[i]?

theorem bound_transpose {rows cols : UInt32} {x y : List F} :
    Bound .transpose [rows, cols] wg [.Read x, .Write y] ↔
      rows.toNat * cols.toNat ≤ x.length ∧ rows.toNat * cols.toNat ≤ y.length := by
  constructor
  · intro h
    obtain ⟨x', y', he, hx, hy⟩ := bound_in_out h rfl
    cases he
    exact ⟨hx, hy⟩
  · intro h
    exact .cons ⟨rfl, h.1⟩ (.cons ⟨rfl, h.2⟩ .nil)

/-- **What `transpose` leaves.** -/
theorem exists_transposed [Floats F] {rows cols : UInt32} {x y : List F}
    (h : Bound .transpose [rows, cols] wg [.Read x, .Write y]) :
    ∃ y', Builtin.transpose.native [rows, cols] [.Read x, .Write y] = .ok [.Read x, .Write y'] ∧
      IsTransposed rows.toNat cols.toNat x y y' := by
  obtain ⟨hx, hy⟩ := bound_transpose.mp h
  refine ⟨_, transpose_eq rfl hx hy, length_fillTo, fun r hr c hc => ?_, fun i hi =>
    getElem?_fillTo_of_le hi⟩
  show (fillTo (rows.toNat * cols.toNat) (fun i _ =>
    x[i % rows.toNat * cols.toNat + i / rows.toNat]?.getD Arith.zero) y)[c * rows.toNat + r]? = _
  obtain ⟨hdiv, hmod⟩ := div_mod_of_lt c hr
  have hin : c * rows.toNat + r < rows.toNat * cols.toNat := by
    rw [Nat.mul_comm rows.toNat]
    exact row_col_lt hc hr
  have hsource := Nat.lt_of_lt_of_le (row_col_lt hr hc) hx
  rw [getElem?_fillTo_of_lt hin, List.getElem?_eq_getElem (Nat.lt_of_lt_of_le hin hy), hdiv, hmod,
    List.getElem?_eq_getElem hsource]
  rfl

/-- Transposed back. -/
theorem IsTransposed.back {rows cols : Nat} {x y₀ y z₀ z : List F} (hx : rows * cols ≤ x.length)
    (h : IsTransposed rows cols x y₀ y) (h' : IsTransposed cols rows y z₀ z) :
    z = x.take (rows * cols) ++ z₀.drop (rows * cols) := by
  have htake : (x.take (rows * cols)).length = rows * cols := List.length_take_of_le hx
  refine List.ext_getElem? fun i => ?_
  rcases Nat.lt_or_ge i (rows * cols) with hi | hi
  · rw [List.getElem?_append_left (htake.symm ▸ hi), List.getElem?_take_of_lt hi]
    obtain ⟨r, hr, c, hc, rfl⟩ := exists_row_col hi
    rw [h'.entry c hc r hr, h.entry r hr c hc]
  · rw [List.getElem?_append_right (htake.symm ▸ hi), htake, List.getElem?_drop,
      Nat.add_sub_cancel' hi]
    exact h'.behind i (Nat.mul_comm rows cols ▸ hi)

/-! ## Products -/

/-- Element `i` of a buffer. -/
def at_ [Arith F] (x : List F) (i : Nat) : F := x[i]?.getD Arith.zero

/-- `new` has in each place what `put` makes of its old element and of a row of
one matrix by a column of another, and is as `old` was behind them. -/
structure IsProduct [Arith F] (put : F → F → F) (rows cols inner : Nat) (a b : Nat → Nat → F)
    (old new : List F) : Prop where
  length : new.length = old.length
  entry : ∀ m < rows, ∀ n < cols, new[m * cols + n]? =
    old[m * cols + n]?.map fun x => put x (dotTo inner (fun k => a m k) fun k => b k n)
  behind : ∀ i, rows * cols ≤ i → new[i]? = old[i]?

/-- Two products of the same elements are the same. -/
theorem IsProduct.unique [Arith F] {put : F → F → F} {rows cols inner : Nat}
    {a b b' : Nat → Nat → F} {c₀ c c' : List F} (h : IsProduct put rows cols inner a b c₀ c)
    (h' : IsProduct put rows cols inner a b' c₀ c')
    (hb : ∀ k < inner, ∀ n < cols, b k n = b' k n) : c = c' := by
  refine List.ext_getElem? fun i => ?_
  rcases Nat.lt_or_ge i (rows * cols) with hi | hi
  · obtain ⟨m, hm, n, hn, rfl⟩ := exists_row_col hi
    rw [h.entry m hm n hn, h'.entry m hm n hn,
      dotTo_congr (fun _ _ => rfl) fun k hk => hb k hk n hn]
  · rw [h.behind i hi, h'.behind i hi]

/-- **What the matrix products leave.** -/
theorem exists_product [Arith F] (bIndex : Nat → Nat → Nat → Nat → Nat) (put : F → F → F)
    {M N K : UInt32} {a b c : List F} (ha : M.toNat * K.toNat ≤ a.length)
    (hb : ∀ k < K.toNat, ∀ n < N.toNat, bIndex N.toNat K.toNat k n < b.length)
    (hc : M.toNat * N.toNat ≤ c.length) :
    ∃ c', matmulWith bIndex put [M, N, K] [.Read a, .Read b, .Write c] =
        .ok [.Read a, .Read b, .Write c'] ∧
      IsProduct put M.toNat N.toNat K.toNat (fun m k => at_ a (m * K.toNat + k))
        (fun k n => at_ b (bIndex N.toNat K.toNat k n)) c c' := by
  refine ⟨_, matmulWith_eq rfl ha hb hc, length_fillTo, fun m hm n hn => ?_, fun i hi =>
    getElem?_fillTo_of_le hi⟩
  obtain ⟨hdiv, hmod⟩ := div_mod_of_lt m hn
  refine (getElem?_fillTo_of_lt (row_col_lt hm hn)).trans ?_
  have hcols : dim [M, N, K] 1 = N.toNat := rfl
  have hinner : dim [M, N, K] 2 = K.toNat := rfl
  simp only [hcols, hinner, hdiv, hmod, at_]

/-- Factors and a result that are long enough. -/
theorem bound_matmul {b : Builtin} (hb : b = .matmul ∨ b = .matmulAdd) {M N K : UInt32}
    {x y z : List F} (h : Bound b [M, N, K] wg [.Read x, .Read y, .Write z]) :
    M.toNat * K.toNat ≤ x.length ∧ K.toNat * N.toNat ≤ y.length ∧ M.toNat * N.toNat ≤ z.length := by
  have hlens : List.Forall₂ Fits [(.Input .F32, M.toNat * K.toNat), (.Input .F32, K.toNat * N.toNat),
      (if b = .matmul then .Output .F32 else .Accumulate .F32, M.toNat * N.toNat)]
      [.Read x, .Read y, .Write z] := by
    rcases hb with rfl | rfl <;> exact h
  obtain ⟨x', y', z', he, hx, hy, hz⟩ := bound_in_in_out hlens (by split <;> rfl)
  cases he
  exact ⟨hx, hy, hz⟩

/-- **A product with the transposed matrix** is the product with the matrix. -/
theorem matmulTrp_transposed [Floats F] {M N K : UInt32} {a b bt₀ bt c : List F}
    (hp : Bound .matmul [M, N, K] wg [.Read a, .Read b, .Write c])
    (hlen : K.toNat * N.toNat ≤ bt₀.length) (ht : IsTransposed K.toNat N.toNat b bt₀ bt) :
    ∃ c', Builtin.matmulTrp.native [M, N, K] [.Read a, .Read bt, .Write c] =
        .ok [.Read a, .Read bt, .Write c'] ∧
      Builtin.matmul.native [M, N, K] [.Read a, .Read b, .Write c] =
        .ok [.Read a, .Read b, .Write c'] := by
  obtain ⟨ha, hb, hc⟩ := bound_matmul (.inl rfl) hp
  have hinside : ∀ k < K.toNat, ∀ n < N.toNat, n * K.toNat + k < bt.length := by
    intro k hk n hn
    rw [ht.length]
    refine Nat.lt_of_lt_of_le ?_ hlen
    rw [Nat.mul_comm K.toNat]
    exact row_col_lt hn hk
  obtain ⟨c', htrp, hc'⟩ := exists_product colMajor assign ha hinside hc
  obtain ⟨c'', hmul, hc''⟩ := exists_product rowMajor assign ha
    (fun k hk n hn => Nat.lt_of_lt_of_le (row_col_lt hk hn) hb) hc
  obtain rfl : c' = c'' := by
    refine hc'.unique hc'' fun k hk n hn => ?_
    show at_ bt (n * K.toNat + k) = at_ b (k * N.toNat + n)
    rw [at_, at_, ht.entry k hk n hn]
  exact ⟨c', htrp, hmul⟩

/-- **One row.** The row products are the matrix products with `M = 1`, panics
included. -/
theorem gemvWith_eq_matmulWith [Arith F] (put : F → F → F) (M N K : UInt32) :
    gemvWith put [M, N, K] = matmulWith rowMajor put [1, N, K] := by
  funext slots
  have hrow : word [1, N, K] 0 = .ok 1 := rfl
  have hone : ∀ (c : List F) (body : List F → Nat → Outcome Empty (List F)),
      forRange 1 c body = body c 0 := fun c body => by
    rw [forRange_succ]
    rfl
  rw [gemvWith, matmulWith, hrow, Outcome.ok_bind]
  simp only [hone, Nat.zero_mul, Nat.zero_add, rowMajor]
  rfl

/-! ## Sums -/

/-- **The sum of the products.** -/
theorem sum_mul_eq_dot [Floats F] {n : UInt32} {a b part : List F}
    (hd : Bound .dot [n] wg [.Read a, .Read b, .Write part]) :
    ∃ a' part', Builtin.mul.native [n] [.Write a, .Read b] = .ok [.Write a', .Read b] ∧
      Builtin.sum.native [n] [.Read a', .Write part] = .ok [.Read a', .Write part'] ∧
      Builtin.dot.native [n] [.Read a, .Read b, .Write part] =
        .ok [.Read a, .Read b, .Write part'] := by
  obtain ⟨x, y, z, he, ha, hb, hpart⟩ := bound_in_in_out hd rfl
  cases he
  have hpos : 0 < part.length := Nat.lt_of_lt_of_le (partials_pos wg) hpart
  have hmul := withOther_eq Arith.mul (m := [n]) (x := a) Nat.one_pos hb
  refine ⟨_, _, hmul, sum_eq rfl (by rwa [length_fillTo]) hpos, ?_⟩
  have hterms : ∀ j < n.toNat, Arith.mul (a[j]?.getD Arith.zero) (b[j]?.getD Arith.zero) =
      (fillTo n.toNat (fun i v => Arith.mul v (b[i]?.getD Arith.zero)) a)[j]?.getD Arith.zero := by
    intro j hj
    rw [getElem?_fillTo_of_lt hj, List.getElem?_eq_getElem (Nat.lt_of_lt_of_le hj ha)]
    rfl
  refine (dot_eq rfl ha hb hpos).trans ?_
  exact congrArg (fun v : F => Outcome.ok [Slot.Read a, Slot.Read b,
    Slot.Write (fillTo 1 (fun _ _ => v) part)]) (sumF32_congr hterms)

/-! ## A gradient -/

/-- **`MatMulWeightBwd`.** The product of the transposed `A` with `dC` is added
to `dB`. -/
theorem weight_gradient [Floats F] {M N K : UInt32} {a at₀ dC dB : List F}
    (ht : Bound .transpose [M, K] wg [.Read a, .Write at₀])
    (hp : Bound .matmulAdd [K, N, M] wg [.Read at₀, .Read dC, .Write dB]) :
    ∃ aT dB', Builtin.transpose.native [M, K] [.Read a, .Write at₀] = .ok [.Read a, .Write aT] ∧
      Builtin.matmulAdd.native [K, N, M] [.Read aT, .Read dC, .Write dB] =
        .ok [.Read aT, .Read dC, .Write dB'] ∧
      IsProduct Arith.add K.toNat N.toNat M.toNat (fun k m => at_ a (m * K.toNat + k))
        (fun m n => at_ dC (m * N.toNat + n)) dB dB' := by
  obtain ⟨aT, htransposed, hT⟩ := exists_transposed ht
  obtain ⟨hat, hC, hB⟩ := bound_matmul (.inr rfl) hp
  obtain ⟨dB', hproduct, hdB⟩ := exists_product rowMajor Arith.add (hT.length ▸ hat)
    (fun m hm n hn => Nat.lt_of_lt_of_le (row_col_lt hm hn) hC) hB
  refine ⟨aT, dB', htransposed, hproduct, hdB.length, fun k hk n hn => ?_, hdB.behind⟩
  have hrow : ∀ m < M.toNat, at_ aT (k * M.toNat + m) = at_ a (m * K.toNat + k) := by
    intro m hm
    rw [at_, at_, hT.entry m hm k hk]
  rw [hdB.entry k hk n hn, dotTo_congr hrow fun _ _ => rfl]
  rfl

/-! ## All of them -/

/-- **Native linear algebra agrees with itself**, over any elements: transposing
twice gives the matrix back; a product with the transposed matrix is the product
with the matrix; the row products are the products of one row; a dot product
sums up products; and the weight gradient is a transpose and a product. -/
theorem native_laws {F : Type} [Floats F] (wg : Workgroups) (M N K : UInt32) :
    (∀ x y z : List F, Bound .transpose [M, N] wg [.Read x, .Write y] →
      Bound .transpose [N, M] wg [.Read y, .Write z] →
      ∃ y', Builtin.transpose.native [M, N] [.Read x, .Write y] = .ok [.Read x, .Write y'] ∧
        Builtin.transpose.native [N, M] [.Read y', .Write z] = .ok [.Read y',
          .Write (x.take (M.toNat * N.toNat) ++ z.drop (M.toNat * N.toNat))]) ∧
    (∀ a b bt c : List F, Bound .transpose [K, N] wg [.Read b, .Write bt] →
      Bound .matmul [M, N, K] wg [.Read a, .Read b, .Write c] →
      ∃ bt' c', Builtin.transpose.native [K, N] [.Read b, .Write bt] = .ok [.Read b, .Write bt'] ∧
        Builtin.matmulTrp.native [M, N, K] [.Read a, .Read bt', .Write c] =
          .ok [.Read a, .Read bt', .Write c'] ∧
        Builtin.matmul.native [M, N, K] [.Read a, .Read b, .Write c] =
          .ok [.Read a, .Read b, .Write c']) ∧
    (∀ slots : List (Slot F),
      Builtin.gemv.native [M, N, K] slots = Builtin.matmul.native [1, N, K] slots ∧
        Builtin.gemvAdd.native [M, N, K] slots = Builtin.matmulAdd.native [1, N, K] slots) ∧
    (∀ a b part : List F, Bound .dot [M] wg [.Read a, .Read b, .Write part] →
      ∃ a' part', Builtin.mul.native [M] [.Write a, .Read b] = .ok [.Write a', .Read b] ∧
        Builtin.sum.native [M] [.Read a', .Write part] = .ok [.Read a', .Write part'] ∧
        Builtin.dot.native [M] [.Read a, .Read b, .Write part] =
          .ok [.Read a, .Read b, .Write part']) ∧
    (∀ a aT dC dB : List F, Bound .transpose [M, K] wg [.Read a, .Write aT] →
      Bound .matmulAdd [K, N, M] wg [.Read aT, .Read dC, .Write dB] →
      ∃ aT' dB', Builtin.transpose.native [M, K] [.Read a, .Write aT] = .ok [.Read a, .Write aT'] ∧
        Builtin.matmulAdd.native [K, N, M] [.Read aT', .Read dC, .Write dB] =
          .ok [.Read aT', .Read dC, .Write dB'] ∧
        dB'.length = dB.length ∧
        (∀ k < K.toNat, ∀ n < N.toNat, dB'[k * N.toNat + n]? =
          dB[k * N.toNat + n]?.map fun old => Arith.add old ((List.range M.toNat).foldl (fun sum m =>
            Arith.add sum (Arith.mul (at_ a (m * K.toNat + k)) (at_ dC (m * N.toNat + n))))
              Arith.zero)) ∧
        ∀ i, K.toNat * N.toNat ≤ i → dB'[i]? = dB[i]?) := by
  refine ⟨?_, ?_, ?_, ?_, ?_⟩
  · intro x y z hxy hyz
    obtain ⟨y', hy', hback⟩ := exists_transposed hxy
    obtain ⟨hy, hz⟩ := bound_transpose.mp hyz
    have hyz' : Bound .transpose [N, M] wg [.Read y', .Write z] :=
      bound_transpose.mpr ⟨hback.length.symm ▸ hy, hz⟩
    obtain ⟨z', hz', hforth⟩ := exists_transposed hyz'
    refine ⟨y', hy', ?_⟩
    rw [hz', hback.back (bound_transpose.mp hxy).1 hforth]
  · intro a b bt c ht hp
    obtain ⟨bt', hbt', htransposed⟩ := exists_transposed ht
    obtain ⟨c', htrp, hmul⟩ := matmulTrp_transposed hp (bound_transpose.mp ht).2 htransposed
    exact ⟨bt', c', hbt', htrp, hmul⟩
  · intro slots
    exact ⟨congrFun (gemvWith_eq_matmulWith assign M N K) slots,
      congrFun (gemvWith_eq_matmulWith Arith.add M N K) slots⟩
  · intro a b part hd
    exact sum_mul_eq_dot hd
  · intro a aT dC dB ht hp
    obtain ⟨aT', dB', htransposed, hproduct, hdB⟩ := weight_gradient ht hp
    exact ⟨aT', dB', htransposed, hproduct, hdB.length, hdB.entry, hdB.behind⟩

namespace Sample

/-- Two rows of three, transposed and back. -/
theorem two_rows_of_three : ∃ y : List ℚ,
    Builtin.transpose.native [2, 3] [.Read [1, 2, 3, 4, 5, 6], .Write [0, 0, 0, 0, 0, 0]] =
      .ok [.Read [1, 2, 3, 4, 5, 6], .Write y] ∧
    Builtin.transpose.native [3, 2] [.Read y, .Write [0, 0, 0, 0, 0, 0, 7]] =
      .ok [.Read y, .Write [1, 2, 3, 4, 5, 6, 7]] :=
  (native_laws ⟨1, 1, 1⟩ 2 3 1).1 _ _ _
    (.cons ⟨rfl, by decide⟩ (.cons ⟨rfl, by decide⟩ .nil))
    (.cons ⟨rfl, by decide⟩ (.cons ⟨rfl, by decide⟩ .nil))

end Sample
end Wilupgu.Builtins
