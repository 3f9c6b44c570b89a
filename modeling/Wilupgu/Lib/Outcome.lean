import Mathlib.Data.List.Forall2

/-! # How a call ends

A function of the language being modelled returns its value, returns an
error, or panics. `Outcome` is that, with the sequencing that stops at the
first call that doesn't return its value, and the rules that take a sequence
of calls apart again. -/

inductive Outcome (ε α : Type) where
  | ok (a : α)
  | err (e : ε)
  | panic
  deriving DecidableEq

namespace Outcome

variable {ε ε' α β γ : Type}

/-- What `?` does after a call. -/
protected def bind (x : Outcome ε α) (f : α → Outcome ε β) : Outcome ε β :=
  match x with
  | .ok a => f a
  | .err e => .err e
  | .panic => .panic

instance : Monad (Outcome ε) where
  pure := .ok
  bind := Outcome.bind

@[simp] theorem pure_def (a : α) : (pure a : Outcome ε α) = .ok a := rfl
@[simp] theorem ok_bind (a : α) (f : α → Outcome ε β) : (ok a >>= f) = f a := rfl
@[simp] theorem err_bind (e : ε) (f : α → Outcome ε β) : (err e >>= f) = err e := rfl
@[simp] theorem panic_bind (f : α → Outcome ε β) : ((panic : Outcome ε α) >>= f) = panic := rfl

instance : LawfulMonad (Outcome ε) := LawfulMonad.mk' (Outcome ε)
  (fun x => by cases x <;> rfl)
  (fun _ _ => rfl)
  (fun x _ _ => by cases x <;> rfl)

def isOk : Outcome ε α → Bool
  | .ok _ => true
  | _ => false

/-- Did the call return, with a value or with an error? -/
def returns : Outcome ε α → Bool
  | .panic => false
  | _ => true

def mapErr (f : ε → ε') : Outcome ε α → Outcome ε' α
  | .ok a => .ok a
  | .err e => .err (f e)
  | .panic => .panic

/-- A result that a function gives back without ever panicking. -/
def ofExcept : Except ε α → Outcome ε α
  | .ok a => .ok a
  | .error e => .err e

/-- `expect`, an index, a pointer: a panic unless there is a value. -/
def expect : Option α → Outcome ε α
  | some a => .ok a
  | none => .panic

/-- `ok_or`. -/
def okOr (e : ε) : Option α → Outcome ε α
  | some a => .ok a
  | none => .err e

/-- A value that keeps the check it passed. -/
def checked (x : Outcome ε Unit) (f : x = .ok () → α) : Outcome ε α :=
  match x, f with
  | .ok (), f => .ok (f rfl)
  | .err e, _ => .err e
  | .panic, _ => .panic

@[simp] theorem mapErr_ok (f : ε → ε') (a : α) : (ok a).mapErr f = .ok a := rfl
@[simp] theorem mapErr_err (f : ε → ε') (e : ε) : (err e : Outcome ε α).mapErr f = .err (f e) := rfl
@[simp] theorem mapErr_panic (f : ε → ε') : (panic : Outcome ε α).mapErr f = .panic := rfl

/-! ## Taking a sequence of calls apart -/

theorem bind_eq_ok {x : Outcome ε α} {f : α → Outcome ε β} {b : β} :
    (x >>= f) = .ok b ↔ ∃ a, x = .ok a ∧ f a = .ok b := by
  cases x <;> simp

/-- After a check, which returns nothing. -/
theorem check_bind_eq_ok {x : Outcome ε Unit} {f : Unit → Outcome ε β} {b : β} :
    (x >>= f) = .ok b ↔ x = .ok () ∧ f () = .ok b := by
  rw [bind_eq_ok, Unique.exists_iff]

@[simp] theorem expect_eq_ok {x : Option α} {a : α} :
    (expect x : Outcome ε α) = .ok a ↔ x = some a := by
  cases x <;> simp [expect]

@[simp] theorem okOr_eq_ok {x : Option α} {e : ε} {a : α} : okOr e x = .ok a ↔ x = some a := by
  cases x <;> simp [okOr]

theorem checked_eq_ok {x : Outcome ε Unit} {f : x = .ok () → α} {a : α} :
    checked x f = .ok a ↔ ∃ h, f h = a := by
  cases x <;> simp [checked]

theorem checked_of_err {x : Outcome ε Unit} {f : x = .ok () → α} {e : ε} (h : x = .err e) :
    checked x f = .err e := by
  subst h
  rfl

/-- A loop of checks succeeds exactly if each of them does. -/
theorem forM_eq_ok {f : α → Outcome ε PUnit} {l : List α} :
    forM l f = .ok ⟨⟩ ↔ ∀ a ∈ l, f a = .ok ⟨⟩ := by
  induction l with
  | nil => simp
  | cons a rest ih =>
    simp only [List.forM_cons, bind_eq_ok, ih, List.mem_cons, forall_eq_or_imp]
    exact ⟨fun ⟨_, ha, hr⟩ => ⟨ha, hr⟩, fun ⟨ha, hr⟩ => ⟨_, ha, hr⟩⟩

/-- Two loops of checks whose checks are the same. -/
theorem forM_congr {f : α → Outcome ε PUnit} {g : β → Outcome ε PUnit} {l : List α} {l' : List β}
    (h : List.Forall₂ (fun a b => f a = g b) l l') : l.forM f = l'.forM g := by
  induction h with
  | nil => rfl
  | cons hfg _ ih =>
    rw [List.forM_eq_forM, List.forM_eq_forM, List.forM_cons, List.forM_cons, hfg]
    exact congrArg _ (funext fun _ => ih)

/-- A loop that collects results succeeds exactly if each of its calls does. -/
theorem mapM_eq_ok {f : α → Outcome ε β} {l : List α} {l' : List β} :
    l.mapM f = .ok l' ↔ List.Forall₂ (fun a b => f a = .ok b) l l' := by
  induction l generalizing l' with
  | nil => cases l' <;> simp
  | cons a rest ih =>
    cases l' with
    | nil => simp [bind_eq_ok]
    | cons b rest' => simp [bind_eq_ok, ih]

/-- A loop whose calls can fail in one way only fails so, if one of them does. -/
theorem mapM_ok_or_err {f : α → Outcome ε β} {e : ε} {l : List α}
    (h : ∀ a ∈ l, (∃ b, f a = .ok b) ∨ f a = .err e) :
    ((∃ l', l.mapM f = .ok l') ∧ ∀ a ∈ l, ∃ b, f a = .ok b) ∨
      (l.mapM f = .err e ∧ ∃ a ∈ l, f a = .err e) := by
  induction l with
  | nil => exact .inl ⟨⟨[], rfl⟩, nofun⟩
  | cons a rest ih =>
    rcases h a List.mem_cons_self with ⟨b, hb⟩ | he
    · rcases ih fun a' ha' => h a' (List.mem_cons_of_mem a ha') with
        ⟨⟨l', hl'⟩, hall⟩ | ⟨hl', a', ha', he⟩
      · refine .inl ⟨⟨b :: l', by simp [hb, hl']⟩, fun a' ha' => ?_⟩
        rcases List.mem_cons.mp ha' with rfl | ha'
        · exact ⟨b, hb⟩
        · exact hall a' ha'
      · exact .inr ⟨by simp [hb, hl'], a', List.mem_cons_of_mem a ha', he⟩
    · exact .inr ⟨by simp [he], a, List.mem_cons_self, he⟩

/-! ## Sequences that end well -/

theorem isOk_iff {x : Outcome ε α} : x.isOk = true ↔ ∃ a, x = .ok a := by
  cases x <;> simp [isOk]

theorem isOk_bind {x : Outcome ε α} {f : α → Outcome ε β} :
    (x >>= f).isOk = true ↔ ∃ a, x = .ok a ∧ (f a).isOk = true := by
  cases x <;> simp [isOk]

/-- What comes after may not depend on the value. -/
theorem isOk_bind_of {x : Outcome ε α} {f : α → Outcome ε β} {Q : Prop}
    (h : ∀ a, (f a).isOk = true ↔ Q) : (x >>= f).isOk = true ↔ x.isOk = true ∧ Q := by
  rw [isOk_bind, isOk_iff]
  simp only [h]
  exact ⟨fun ⟨a, ha, hq⟩ => ⟨⟨a, ha⟩, hq⟩, fun ⟨⟨a, ha⟩, hq⟩ => ⟨a, ha, hq⟩⟩

/-- Or it may end well whenever the first part does. -/
theorem isOk_bind_ok {x : Outcome ε α} {f : α → Outcome ε β}
    (h : ∀ a, x = .ok a → (f a).isOk = true) : (x >>= f).isOk = true ↔ x.isOk = true := by
  rw [isOk_bind, isOk_iff]
  exact ⟨fun ⟨a, ha, _⟩ => ⟨a, ha⟩, fun ⟨a, ha⟩ => ⟨a, ha, h a ha⟩⟩

@[simp] theorem isOk_expect {x : Option α} : (expect x : Outcome ε α).isOk = x.isSome := by
  cases x <;> rfl

/-! ## Sequences that return -/

theorem returns_bind {x : Outcome ε α} {f : α → Outcome ε β} (hx : x.returns = true)
    (hf : ∀ a, x = .ok a → (f a).returns = true) : (x >>= f).returns = true := by
  cases x with
  | ok a => exact hf a rfl
  | err e => rfl
  | panic => cases hx

@[simp] theorem returns_mapErr (f : ε → ε') (x : Outcome ε α) :
    (x.mapErr f).returns = x.returns := by cases x <;> rfl

/-- A loop returns if each of its calls does. -/
theorem returns_forM {f : α → Outcome ε PUnit} {l : List α} (h : ∀ a ∈ l, (f a).returns = true) :
    (forM l f).returns = true := by
  induction l with
  | nil => rfl
  | cons a rest ih =>
    rw [List.forM_cons]
    exact returns_bind (h a (.head _)) fun _ _ => ih fun b hb => h b (.tail _ hb)

theorem returns_mapM {f : α → Outcome ε β} {l : List α} (h : ∀ a ∈ l, (f a).returns = true) :
    (l.mapM f).returns = true := by
  induction l with
  | nil => rfl
  | cons a rest ih =>
    rw [List.mapM_cons]
    refine returns_bind (h a List.mem_cons_self) fun _ _ => returns_bind (ih ?_) fun _ _ => rfl
    exact fun a' ha' => h a' (List.mem_cons_of_mem a ha')

/-- What returns, returns nothing or an error. -/
theorem returns_iff {x : Outcome ε Unit} : x.returns = true ↔ x = .ok () ∨ ∃ e, x = .err e := by
  cases x <;> simp [returns]

/-! ## Sequences that fail in some ways only -/

/-- Every error that it may end with is of a kind. -/
def Fails (P : ε → Prop) (x : Outcome ε α) : Prop := ∀ e, x = .err e → P e

section Fails

variable {P : ε → Prop}

theorem fails_ok (a : α) : (ok a : Outcome ε α).Fails P := fun e h => by cases h

theorem fails_err {e : ε} (h : P e) : (err e : Outcome ε α).Fails P :=
  fun e' he => by cases he; exact h

theorem fails_expect (x : Option α) : (expect x : Outcome ε α).Fails P := by
  cases x with
  | none => exact fun e h => by cases h
  | some a => exact fails_ok a

theorem fails_okOr {x : Option α} {e : ε} (h : P e) : (okOr e x).Fails P := by
  cases x with
  | none => exact fails_err h
  | some a => exact fails_ok a

theorem fails_mapErr {f : ε' → ε} {x : Outcome ε' α} (h : ∀ e, P (f e)) : (x.mapErr f).Fails P := by
  cases x with
  | ok a => exact fails_ok a
  | err e => exact fails_err (h e)
  | panic => exact fun e he => by cases he

theorem fails_bind {x : Outcome ε α} {f : α → Outcome ε β} (hx : x.Fails P)
    (hf : ∀ a, x = .ok a → (f a).Fails P) : (x >>= f).Fails P := by
  cases x with
  | ok a => exact hf a rfl
  | err e => exact fails_err (hx e rfl)
  | panic => exact fun e he => by cases he

theorem fails_forM {f : α → Outcome ε PUnit} {l : List α} (h : ∀ a ∈ l, (f a).Fails P) :
    (forM l f).Fails P := by
  induction l with
  | nil => exact fails_ok _
  | cons a rest ih =>
    rw [List.forM_cons]
    exact fails_bind (h a (.head _)) fun _ _ => ih fun b hb => h b (.tail _ hb)

theorem fails_mapM {f : α → Outcome ε β} {l : List α} (h : ∀ a ∈ l, (f a).Fails P) :
    (l.mapM f).Fails P := by
  induction l with
  | nil => exact fails_ok _
  | cons a rest ih =>
    rw [List.mapM_cons]
    exact fails_bind (h a (.head _)) fun _ _ =>
      fails_bind (ih fun b hb => h b (.tail _ hb)) fun _ _ => fails_ok _

end Fails

end Outcome
