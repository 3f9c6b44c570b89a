import Wilupgu.Lib.Outcome

/-! # Counting loops that change a list

A loop `for i in 0..n` whose body may panic, the list entries it changes by
index, and the rule that turns what one round does into what the loop does.
`fillOn` is what such loops come to: some entries changed, each from its own
old value, the others as they were. -/

namespace Loops

variable {ε σ α : Type}

/-- `for i in 0..n`, `s` being what the body changes. -/
def forRange (n : Nat) (s : σ) (body : σ → Nat → Outcome ε σ) : Outcome ε σ :=
  (List.range n).foldlM body s

/-- `x[i]`. -/
def index (x : List α) (i : Nat) : Outcome ε α := .expect x[i]?

/-- `x[i] = f(x[i])`. -/
def update (x : List α) (i : Nat) (f : α → α) : Outcome ε (List α) := do
  return x.set i (f (← index x i))

/-- `&x[..n]`. -/
def slice (x : List α) (n : Nat) : Outcome ε (List α) :=
  .expect (if n ≤ x.length then some (x.take n) else none)

/-- The entries at the positions that `p` picks changed by `f`. -/
def fillOn (p : Nat → Bool) (f : Nat → α → α) (x : List α) : List α :=
  x.mapIdx fun i v => if p i then f i v else v

/-- The first `n` entries changed. -/
def fillTo (n : Nat) (f : Nat → α → α) (x : List α) : List α := fillOn (fun i => i < n) f x

/-! ## Rounds and loops -/

theorem forRange_succ (n : Nat) (s : σ) (body : σ → Nat → Outcome ε σ) :
    forRange (n + 1) s body = forRange n s body >>= fun t => body t n := by
  rw [forRange, List.range_succ, List.foldlM_append]
  simp only [List.foldlM_cons, List.foldlM_nil, bind_pure, forRange]

/-- If each round leads from one state of a sequence to the next, so does the loop. -/
theorem forRange_eq {n : Nat} {s : σ} {body : σ → Nat → Outcome ε σ} (at_ : Nat → σ)
    (h0 : at_ 0 = s) (hbody : ∀ i < n, body (at_ i) i = .ok (at_ (i + 1))) :
    forRange n s body = .ok (at_ n) := by
  induction n with
  | zero => exact congrArg Outcome.ok h0.symm
  | succ n ih =>
    rw [forRange_succ, ih fun i hi => hbody i (Nat.lt_succ_of_lt hi), Outcome.ok_bind,
      hbody n (Nat.lt_succ_self n)]

/-- A loop whose body never fails is a fold. -/
theorem forRange_foldl {n : Nat} {s : σ} {body : σ → Nat → Outcome ε σ} {f : σ → Nat → σ}
    (h : ∀ i < n, ∀ t, body t i = .ok (f t i)) :
    forRange n s body = .ok ((List.range n).foldl f s) := by
  refine forRange_eq (fun i => (List.range i).foldl f s) rfl fun i hi => ?_
  rw [h i hi, List.range_succ, List.foldl_append]
  rfl

/-- What each round keeps, a loop keeps. -/
theorem forRange_keeps {I : σ → Prop} {n : Nat} {s t : σ} {body : σ → Nat → Outcome ε σ}
    (hbody : ∀ i < n, ∀ s t, I s → body s i = .ok t → I t) (hs : I s)
    (h : forRange n s body = .ok t) : I t := by
  induction n generalizing t with
  | zero =>
    cases h
    exact hs
  | succ n ih =>
    rw [forRange_succ, Outcome.bind_eq_ok] at h
    obtain ⟨u, hu, ht⟩ := h
    exact hbody n (Nat.lt_succ_self n) u t
      (ih (fun i hi => hbody i (Nat.lt_succ_of_lt hi)) hu) ht

/-- Where it depends on a round only whether it ends well, a loop ends well
exactly if every round does. -/
theorem isOk_forRange {I : σ → Prop} {P : Nat → Prop} {n : Nat} {s : σ}
    {body : σ → Nat → Outcome ε σ} (hs : I s)
    (hbody : ∀ i < n, ∀ s t, I s → body s i = .ok t → I t)
    (hok : ∀ i < n, ∀ s, I s → ((body s i).isOk = true ↔ P i)) :
    (forRange n s body).isOk = true ↔ ∀ i < n, P i := by
  induction n with
  | zero => simp [forRange, Outcome.isOk]
  | succ n ih =>
    have ih := ih (fun i hi => hbody i (Nat.lt_succ_of_lt hi))
      fun i hi => hok i (Nat.lt_succ_of_lt hi)
    have hkeeps : ∀ t, forRange n s body = .ok t → I t := fun t =>
      forRange_keeps (fun i hi => hbody i (Nat.lt_succ_of_lt hi)) hs
    rw [forRange_succ, Outcome.isOk_bind]
    constructor
    · intro h
      obtain ⟨t, ht, hlast⟩ := h
      intro i hi
      rcases Nat.lt_succ_iff_lt_or_eq.mp hi with hlt | rfl
      · exact ih.mp (Outcome.isOk_iff.mpr ⟨t, ht⟩) i hlt
      · exact (hok i hi t (hkeeps t ht)).mp hlast
    · intro h
      obtain ⟨t, ht⟩ := Outcome.isOk_iff.mp (ih.mpr fun i hi => h i (Nat.lt_succ_of_lt hi))
      exact ⟨t, ht, (hok n (Nat.lt_succ_self n) t (hkeeps t ht)).mpr (h n (Nat.lt_succ_self n))⟩

@[simp] theorem isOk_index {x : List α} {i : Nat} :
    (index x i : Outcome ε α).isOk = true ↔ i < x.length := by
  rw [index, Outcome.isOk_expect, isSome_getElem?]

@[simp] theorem isOk_update {x : List α} {i : Nat} {f : α → α} :
    (update x i f : Outcome ε (List α)).isOk = true ↔ i < x.length := by
  rw [update, Outcome.isOk_bind, ← isOk_index (ε := ε), Outcome.isOk_iff]
  simp [Outcome.isOk]

theorem length_of_update {x y : List α} {i : Nat} {f : α → α}
    (h : (update x i f : Outcome ε (List α)) = .ok y) : y.length = x.length := by
  rw [update, Outcome.bind_eq_ok] at h
  obtain ⟨v, -, h⟩ := h
  cases h
  exact List.length_set

@[simp] theorem isOk_slice {x : List α} {n : Nat} :
    (slice x n : Outcome ε (List α)).isOk = true ↔ n ≤ x.length := by
  rw [slice, Outcome.isOk_expect]
  split <;> simp [*]

theorem index_eq {x : List α} {i : Nat} (h : i < x.length) (d : α) :
    (index x i : Outcome ε α) = .ok (x[i]?.getD d) := by
  rw [index, List.getElem?_eq_getElem h]
  rfl

theorem slice_eq {x : List α} {n : Nat} (h : n ≤ x.length) :
    (slice x n : Outcome ε (List α)) = .ok (x.take n) := by
  rw [slice, if_pos h]
  rfl

/-! ## Filling -/

variable {p q : Nat → Bool} {f g : Nat → α → α} {x : List α}

@[simp] theorem length_fillOn : (fillOn p f x).length = x.length := List.length_mapIdx

@[simp] theorem length_fillTo {n : Nat} : (fillTo n f x).length = x.length := length_fillOn

theorem getElem?_fillOn (i : Nat) :
    (fillOn p f x)[i]? = x[i]?.map fun v => if p i then f i v else v := List.getElem?_mapIdx

theorem getElem?_fillTo_of_le {n i : Nat} (h : n ≤ i) : (fillTo n f x)[i]? = x[i]? := by
  rw [fillTo, getElem?_fillOn]
  simp [Nat.not_lt.mpr h]

theorem getElem?_fillTo_of_lt {n i : Nat} (h : i < n) : (fillTo n f x)[i]? = x[i]?.map (f i) := by
  rw [fillTo, getElem?_fillOn]
  simp [h]

theorem fillOn_false (x : List α) : fillOn (fun _ => false) f x = x := by
  refine List.ext_getElem? fun i => ?_
  rw [getElem?_fillOn]
  simp

theorem fillOn_congr (h : ∀ i < x.length, p i = q i) : fillOn p f x = fillOn q f x := by
  refine List.ext_getElem? fun i => ?_
  rw [getElem?_fillOn, getElem?_fillOn]
  rcases Nat.lt_or_ge i x.length with hi | hi
  · rw [h i hi]
  · rw [List.getElem?_eq_none hi]
    rfl

theorem fillTo_zero (f : Nat → α → α) (x : List α) : fillTo 0 f x = x :=
  (fillOn_congr fun _ _ => by simp).trans (fillOn_false x)

theorem fillTo_succ_cons (n : Nat) (f : Nat → α → α) (v : α) (x : List α) :
    fillTo (n + 1) f (v :: x) = f 0 v :: fillTo n (fun i => f (i + 1)) x := by
  simp [fillTo, fillOn, List.mapIdx_cons]

/-- One more entry. -/
theorem update_fillOn {k : Nat} (hk : k < x.length) (hp : p k = false)
    (hq : ∀ i, q i = (p i || i == k)) :
    (update (fillOn p f x) k (f k) : Outcome ε (List α)) = .ok (fillOn q f x) := by
  have hlen : k < (fillOn p f x).length := by rwa [length_fillOn]
  have hold : (fillOn p f x)[k] = x[k] := by
    refine Option.some.inj ?_
    rw [← List.getElem?_eq_getElem hlen, getElem?_fillOn, List.getElem?_eq_getElem hk]
    simp [hp]
  rw [update, index, List.getElem?_eq_getElem hlen, hold]
  refine congrArg Outcome.ok (List.ext_getElem? fun i => ?_)
  rw [List.getElem?_set, getElem?_fillOn, getElem?_fillOn, hq]
  by_cases hi : k = i
  · subst hi
    simp [hk]
  · simp [hi, Ne.symm hi]

/-- One more entry of those at the start. -/
theorem update_fillTo {k : Nat} (hk : k < x.length) :
    (update (fillTo k f x) k (f k) : Outcome ε (List α)) = .ok (fillTo (k + 1) f x) := by
  refine update_fillOn hk (by simp) fun i => ?_
  rw [Bool.eq_iff_iff]
  simp only [decide_eq_true_eq, Bool.or_eq_true, beq_iff_eq]
  omega

end Loops
