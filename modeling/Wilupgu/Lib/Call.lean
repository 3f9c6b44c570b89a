import Wilupgu.Lib.Outcome

/-! # Calls that change a state

A `Call` runs on a state and ends with an `Outcome`. What it changed stays
changed also when it fails: nothing is rolled back. The second part are the
rules about what a sequence of calls does to the state. -/

/-- A call on a state `σ`, failing with `ε`. -/
structure Call (σ ε α : Type) where
  run : σ → Outcome ε α × σ

namespace Call

variable {σ τ ε ε' α β : Type}

instance : CoeFun (Call σ ε α) fun _ => σ → Outcome ε α × σ := ⟨run⟩

protected def pure (a : α) : Call σ ε α := ⟨fun s => (.ok a, s)⟩

protected def bind (x : Call σ ε α) (f : α → Call σ ε β) : Call σ ε β where
  run s :=
    match x s with
    | (.ok a, t) => f a t
    | (.err e, t) => (.err e, t)
    | (.panic, t) => (.panic, t)

instance : Monad (Call σ ε) where
  pure := Call.pure
  bind := Call.bind

/-- A call that looks at no state. -/
def lift (x : Outcome ε α) : Call σ ε α := ⟨fun s => (x, s)⟩

instance : MonadLift (Outcome ε) (Call σ ε) := ⟨lift⟩

/-- The state as it is. -/
def get : Call σ ε σ := ⟨fun s => (.ok s, s)⟩

def modify (f : σ → σ) : Call σ ε Unit := ⟨fun s => (.ok (), f s)⟩

/-- A call that always returns its value. -/
def total (f : σ → α × σ) : Call σ ε α := ⟨fun s => (.ok (f s).1, (f s).2)⟩

def mapErr (f : ε → ε') (c : Call σ ε α) : Call σ ε' α := ⟨fun s => ((c s).1.mapErr f, (c s).2)⟩

/-- A call on a part of the state. -/
def zoom (part : σ → τ) (put : τ → σ → σ) (c : Call τ ε α) : Call σ ε α :=
  ⟨fun s => ((c (part s)).1, put (c (part s)).2 s)⟩

/-- What a `match` on a call's result goes by; a panic passes through it. -/
def attempt (c : Call σ ε α) : Call σ ε' (Except ε α) where
  run s :=
    match c s with
    | (.ok a, t) => (.ok (.ok a), t)
    | (.err e, t) => (.ok (.error e), t)
    | (.panic, t) => (.panic, t)

/-- A call, and what is dropped where it doesn't return a value. -/
def orDrop (c : Call σ ε α) (drop : Call σ ε Unit) : Call σ ε α where
  run s :=
    match c s with
    | (.ok a, t) => (.ok a, t)
    | (.err e, t) => (.err e, (drop t).2)
    | (.panic, t) => (.panic, (drop t).2)

@[ext] theorem ext {c d : Call σ ε α} (h : ∀ s, c s = d s) : c = d := by
  cases c
  cases d
  congr
  exact funext h

/-! ## What they compute -/

theorem pure_run (a : α) (s : σ) : (pure a : Call σ ε α) s = (.ok a, s) := rfl

theorem bind_run (x : Call σ ε α) (f : α → Call σ ε β) (s : σ) : (x >>= f) s =
    match x s with
    | (.ok a, t) => f a t
    | (.err e, t) => (.err e, t)
    | (.panic, t) => (.panic, t) := rfl

theorem lift_run (x : Outcome ε α) (s : σ) : (liftM x : Call σ ε α) s = (x, s) := rfl

theorem get_run (s : σ) : (get : Call σ ε σ) s = (.ok s, s) := rfl

theorem modify_run (f : σ → σ) (s : σ) : (modify f : Call σ ε Unit) s = (.ok (), f s) := rfl

theorem total_run (f : σ → α × σ) (s : σ) : (total f : Call σ ε α) s = (.ok (f s).1, (f s).2) := rfl

theorem mapErr_run (f : ε → ε') (c : Call σ ε α) (s : σ) :
    c.mapErr f s = ((c s).1.mapErr f, (c s).2) := rfl

theorem attempt_run (c : Call σ ε α) (s : σ) : (c.attempt : Call σ ε' (Except ε α)) s =
    match c s with
    | (.ok a, t) => (.ok (.ok a), t)
    | (.err e, t) => (.ok (.error e), t)
    | (.panic, t) => (.panic, t) := rfl

theorem zoom_run (part : σ → τ) (put : τ → σ → σ) (c : Call τ ε α) (s : σ) :
    zoom part put c s = ((c (part s)).1, put (c (part s)).2 s) := rfl

theorem orDrop_run (c : Call σ ε α) (drop : Call σ ε Unit) (s : σ) : c.orDrop drop s =
    match c s with
    | (.ok a, t) => (.ok a, t)
    | (.err e, t) => (.err e, (drop t).2)
    | (.panic, t) => (.panic, (drop t).2) := rfl

instance : LawfulMonad (Call σ ε) := LawfulMonad.mk' (Call σ ε)
  (fun x => by
    ext1 s
    change (x >>= fun a => pure (id a)) s = x s
    rw [bind_run]
    split <;> simp_all [pure_run])
  (fun _ _ => rfl)
  (fun x f g => by
    ext1 s
    simp only [bind_run]
    rcases x s with ⟨_ | _ | _, t⟩ <;> rfl)

/-- A first call that returns its value hands over to the second. -/
theorem bind_of_ok {x : Call σ ε α} {f : α → Call σ ε β} {s t : σ} {a : α}
    (h : x s = (.ok a, t)) : (x >>= f) s = f a t := by
  rw [bind_run, h]

theorem bind_of_err {x : Call σ ε α} {f : α → Call σ ε β} {s t : σ} {e : ε}
    (h : x s = (.err e, t)) : (x >>= f) s = (.err e, t) := by
  rw [bind_run, h]

/-- **Taking a sequence apart.** It returns a value only if both calls do. -/
theorem bind_eq_ok {x : Call σ ε α} {f : α → Call σ ε β} {s u : σ} {b : β} :
    (x >>= f) s = (.ok b, u) ↔ ∃ a t, x s = (.ok a, t) ∧ f a t = (.ok b, u) := by
  rw [bind_run]
  rcases x s with ⟨a | e | _, t⟩
  · constructor
    · exact fun h => ⟨a, t, rfl, h⟩
    · rintro ⟨a', t', h, h'⟩
      cases h
      exact h'
  · simp
  · simp

/-- After a check that looks at no state. -/
theorem check_run (x : Outcome ε α) (f : α → Call σ ε β) (s : σ) :
    ((liftM x : Call σ ε α) >>= f) s =
      match x with
      | .ok a => f a s
      | .err e => (.err e, s)
      | .panic => (.panic, s) := by
  rw [bind_run, lift_run]
  cases x <;> rfl

theorem check_eq_ok {x : Outcome ε α} {f : α → Call σ ε β} {s u : σ} {b : β} :
    ((liftM x : Call σ ε α) >>= f) s = (.ok b, u) ↔ ∃ a, x = .ok a ∧ f a s = (.ok b, u) := by
  rw [check_run]
  cases x <;> simp

theorem mapErr_eq_ok {c : Call σ ε α} {f : ε → ε'} {s t : σ} {a : α} :
    c.mapErr f s = (.ok a, t) ↔ c s = (.ok a, t) := by
  rw [mapErr_run]
  rcases c s with ⟨_ | _ | _, _⟩ <;> simp

theorem attempt_eq_ok {c : Call σ ε α} {s t : σ} {a : α} :
    (c.attempt : Call σ ε' (Except ε α)) s = (.ok (.ok a), t) ↔ c s = (.ok a, t) := by
  rw [attempt_run]
  rcases c s with ⟨_ | _ | _, _⟩ <;> simp

theorem orDrop_eq_ok {c : Call σ ε α} {drop : Call σ ε Unit} {s t : σ} {a : α} :
    c.orDrop drop s = (.ok a, t) ↔ c s = (.ok a, t) := by
  rw [orDrop_run]
  rcases c s with ⟨_ | _ | _, _⟩ <;> simp

/-! ## How they end -/

theorem bind_out_congr {x : Call σ ε α} {f g : α → Call σ ε β} (h : ∀ a t, (f a t).1 = (g a t).1)
    (s : σ) : ((x >>= f) s).1 = ((x >>= g) s).1 := by
  rw [bind_run, bind_run]
  rcases x s with ⟨a | _ | _, t⟩
  · exact h a t
  · rfl
  · rfl

/-- What is dropped doesn't show in how a call ends. -/
theorem orDrop_bind_out (c : Call σ ε α) (drop : Call σ ε Unit) (f : α → Call σ ε β) (s : σ) :
    ((c.orDrop drop >>= f) s).1 = ((c >>= f) s).1 := by
  rw [bind_run, bind_run, orDrop_run]
  rcases c s with ⟨_ | _ | _, t⟩ <;> rfl

/-! ## Calls that return -/

theorem returns_bind {x : Call σ ε α} {f : α → Call σ ε β} {s : σ} (hx : (x s).1.returns = true)
    (hf : ∀ a t, x s = (.ok a, t) → (f a t).1.returns = true) :
    ((x >>= f) s).1.returns = true := by
  rw [bind_run]
  rcases h : x s with ⟨a | e | _, t⟩
  · exact hf a t h
  · rfl
  · rw [h] at hx
    cases hx

theorem returns_mapErr {f : ε → ε'} {c : Call σ ε α} {s : σ} (h : (c s).1.returns = true) :
    (c.mapErr f s).1.returns = true := by
  rw [mapErr_run]
  exact (Outcome.returns_mapErr f _).trans h

theorem returns_attempt {c : Call σ ε α} {s : σ} (h : (c s).1.returns = true) :
    ((c.attempt : Call σ ε' (Except ε α)) s).1.returns = true := by
  rw [attempt_run]
  rcases hc : c s with ⟨a | e | _, t⟩
  · rfl
  · rfl
  · rw [hc] at h
    cases h

/-! ## Calls that fail in some ways only -/

/-- Whatever state it starts in, every error that it ends with is of a kind. -/
def Fails (P : ε → Prop) (c : Call σ ε α) : Prop := ∀ s, (c s).1.Fails P

section Fails

variable {P : ε → Prop}

theorem fails_lift {x : Outcome ε α} (h : x.Fails P) : Fails P (liftM x : Call σ ε α) := fun _ => h

theorem fails_get : Fails P (get : Call σ ε σ) := fun s => Outcome.fails_ok s

theorem fails_modify (f : σ → σ) : Fails P (modify f : Call σ ε Unit) := fun _ => Outcome.fails_ok ()

theorem fails_total (f : σ → α × σ) : Fails P (total f : Call σ ε α) :=
  fun s => Outcome.fails_ok (f s).1

theorem fails_attempt (c : Call σ ε' α) : Fails P (c.attempt : Call σ ε (Except ε' α)) := by
  intro s
  rw [attempt_run]
  rcases c s with ⟨_ | _ | _, t⟩ <;> intro e he <;> cases he

theorem fails_mapErr {f : ε' → ε} {c : Call σ ε' α} (h : ∀ e, P (f e)) : Fails P (c.mapErr f) :=
  fun _ => Outcome.fails_mapErr h

theorem fails_zoom {part : σ → τ} {put : τ → σ → σ} {c : Call τ ε α} (h : Fails P c) :
    Fails P (zoom part put c) := fun s => h (part s)

/-- From the states that the first call leads to. -/
theorem fails_bind_at {x : Call σ ε α} {f : α → Call σ ε β} {s : σ} (hx : (x s).1.Fails P)
    (hf : ∀ a t, x s = (.ok a, t) → (f a t).1.Fails P) : ((x >>= f) s).1.Fails P := by
  rw [bind_run]
  rcases hxs : x s with ⟨a | e | _, t⟩ <;> rw [hxs] at hx
  · exact hf a t hxs
  · exact Outcome.fails_err (hx e rfl)
  · exact fun e he => by cases he

theorem fails_bind {x : Call σ ε α} {f : α → Call σ ε β} (hx : Fails P x)
    (hf : ∀ a, Fails P (f a)) : Fails P (x >>= f) :=
  fun s => fails_bind_at (hx s) fun a t _ => hf a t

theorem fails_orDrop {c : Call σ ε α} {drop : Call σ ε Unit} {s : σ} (h : (c s).1.Fails P) :
    (c.orDrop drop s).1.Fails P := by
  rw [orDrop_run]
  rcases hc : c s with ⟨a | e | _, t⟩ <;> rw [hc] at h <;> exact h

end Fails

/-! ## What a call does to the state -/

/-- A relation that a sequence of calls can be followed through. -/
structure Frame (R : σ → σ → Prop) : Prop where
  refl : ∀ s, R s s
  trans : ∀ {s t u}, R s t → R t u → R s u

theorem Frame.and {R S : σ → σ → Prop} (hR : Frame R) (hS : Frame S) :
    Frame fun s t => R s t ∧ S s t :=
  ⟨fun s => ⟨hR.refl s, hS.refl s⟩, fun h h' => ⟨hR.trans h.1 h'.1, hS.trans h.2 h'.2⟩⟩

/-- Not touching a part of the state. -/
theorem frame_eq (part : σ → τ) : Frame fun s t => part t = part s :=
  ⟨fun _ => rfl, fun h h' => h'.trans h⟩

/-- Following a part of the state. -/
theorem Frame.comap {R : τ → τ → Prop} (hR : Frame R) (part : σ → τ) :
    Frame fun s t => R (part s) (part t) :=
  ⟨fun s => hR.refl (part s), hR.trans⟩

/-- Following it from where an invariant holds, which is kept. -/
theorem Frame.under {R : σ → σ → Prop} (hR : Frame R) (I : σ → Prop) :
    Frame fun s t => I s → R s t ∧ I t :=
  ⟨fun s hs => ⟨hR.refl s, hs⟩, fun h h' hs =>
    ⟨hR.trans (h hs).1 (h' (h hs).2).1, (h' (h hs).2).2⟩⟩

/-- Whatever state the call starts in, `R` leads to the one it ends in. -/
def Keeps (R : σ → σ → Prop) (c : Call σ ε α) : Prop := ∀ s, R s (c s).2

namespace Frame

variable {R : σ → σ → Prop} (hR : Frame R)
include hR

theorem pure (a : α) : Keeps R (Pure.pure a : Call σ ε α) := hR.refl

theorem lift (x : Outcome ε α) : Keeps R (liftM x : Call σ ε α) := hR.refl

theorem get : Keeps R (Call.get : Call σ ε σ) := hR.refl

theorem bind {x : Call σ ε α} {f : α → Call σ ε β} (hx : Keeps R x) (hf : ∀ a, Keeps R (f a)) :
    Keeps R (x >>= f) := by
  intro s
  have h := hx s
  rw [bind_run]
  rcases hxs : x s with ⟨a | e | _, t⟩ <;> rw [hxs] at h
  · exact hR.trans h (hf a t)
  · exact h
  · exact h

/-- After a look at the state and what follows from it. -/
theorem get_bind {f : σ → Call σ ε β} (hf : ∀ s, Keeps R (f s)) : Keeps R (Call.get >>= f) :=
  hR.bind hR.get hf

/-- After a check that looks at no state. -/
theorem lift_bind {x : Outcome ε α} {f : α → Call σ ε β} (hf : ∀ a, Keeps R (f a)) :
    Keeps R ((liftM x : Call σ ε α) >>= f) := hR.bind (hR.lift x) hf

/-- After a check that passed, from the state it was made in. -/
theorem check_bind_at {x : Outcome ε α} {f : α → Call σ ε β} {s : σ}
    (hf : ∀ a, x = .ok a → R s (f a s).2) : R s (((liftM x : Call σ ε α) >>= f) s).2 := by
  rw [check_run]
  cases x with
  | ok a => exact hf a rfl
  | err e => exact hR.refl s
  | panic => exact hR.refl s

theorem check_bind {x : Outcome ε α} {f : α → Call σ ε β} (hf : ∀ a, x = .ok a → Keeps R (f a)) :
    Keeps R ((liftM x : Call σ ε α) >>= f) := fun s => hR.check_bind_at fun a ha => hf a ha s

/-- A loop, if each of its calls does. -/
theorem forM {f : α → Call σ ε PUnit} {l : List α} (hf : ∀ a ∈ l, Keeps R (f a)) :
    Keeps R (l.forM f) := by
  induction l with
  | nil => exact hR.pure _
  | cons a rest ih =>
    refine hR.bind (hf a List.mem_cons_self) fun _ => ih ?_
    exact fun b hb => hf b (List.mem_cons_of_mem a hb)

theorem orDrop {c : Call σ ε α} {drop : Call σ ε Unit} (hc : Keeps R c) (hd : Keeps R drop) :
    Keeps R (c.orDrop drop) := by
  intro s
  have h := hc s
  rw [orDrop_run]
  rcases hcs : c s with ⟨a | e | _, t⟩ <;> rw [hcs] at h
  · exact h
  · exact hR.trans h (hd t)
  · exact hR.trans h (hd t)

end Frame

theorem keeps_modify {R : σ → σ → Prop} {f : σ → σ} (h : ∀ s, R s (f s)) :
    Keeps R (modify f : Call σ ε Unit) := h

theorem keeps_mapErr {R : σ → σ → Prop} {f : ε → ε'} {c : Call σ ε α} (h : Keeps R c) :
    Keeps R (c.mapErr f) := h

theorem keeps_attempt {R : σ → σ → Prop} {c : Call σ ε α} (h : Keeps R c) :
    Keeps R (c.attempt : Call σ ε' (Except ε α)) := by
  intro s
  have hs := h s
  rw [attempt_run]
  rcases hc : c s with ⟨a | e | _, t⟩ <;> rw [hc] at hs <;> exact hs

theorem keeps_zoom {R : σ → σ → Prop} {S : τ → τ → Prop} {part : σ → τ} {put : τ → σ → σ}
    (hput : ∀ s t, S (part s) t → R s (put t s)) {c : Call τ ε α} (h : Keeps S c) :
    Keeps R (zoom part put c) := fun s => hput s _ (h (part s))

theorem Keeps.mono {R S : σ → σ → Prop} {c : Call σ ε α} (h : Keeps R c)
    (hsub : ∀ s t, R s t → S s t) : Keeps S c := fun s => hsub _ _ (h s)

/-! ## Two calls that do the same -/

/-- From related states they end the same way, in related states. -/
def Matches (R : σ → τ → Prop) (c : Call σ ε α) (d : Call τ ε α) : Prop :=
  ∀ s t, R s t → (c s).1 = (d t).1 ∧ R (c s).2 (d t).2

namespace Matches

variable {R : σ → τ → Prop} {c : Call σ ε α} {d : Call τ ε α}

theorem pure (a : α) : Matches R (Pure.pure a : Call σ ε α) (Pure.pure a : Call τ ε α) :=
  fun _ _ h => ⟨rfl, h⟩

theorem bind {f : α → Call σ ε β} {g : α → Call τ ε β} (h : Matches R c d)
    (hf : ∀ a, Matches R (f a) (g a)) : Matches R (c >>= f) (d >>= g) := by
  intro s t hst
  obtain ⟨hout, hR⟩ := h s t hst
  rw [bind_run, bind_run]
  rcases hc : c s with ⟨a | e | _, s'⟩ <;> rcases hd : d t with ⟨a' | e' | _, t'⟩ <;>
    rw [hc, hd] at hout hR <;> cases hout
  · exact hf a s' t' hR
  · exact ⟨rfl, hR⟩
  · exact ⟨rfl, hR⟩

theorem mapErr (h : Matches R c d) (f : ε → ε') : Matches R (c.mapErr f) (d.mapErr f) :=
  fun s t hst => ⟨congrArg (Outcome.mapErr f) (h s t hst).1, (h s t hst).2⟩

/-- Two loops, if each call of the one does what its place in the other does. -/
theorem forM {γ : Type} {f : β → Call σ ε PUnit} {g : γ → Call τ ε PUnit} {l : List β}
    {l' : List γ} (h : List.Forall₂ (fun b b' => Matches R (f b) (g b')) l l') :
    Matches R (l.forM f) (l'.forM g) := by
  induction h with
  | nil => exact .pure _
  | cons hfirst _ ih => exact hfirst.bind fun _ => ih

end Matches

end Call
