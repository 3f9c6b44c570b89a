/-! # Programs of atomic actions on shared memory

A thread's program is the actions it takes on a memory it shares with others,
each one atomic; what it goes on with depends on what it found. Between two of
its actions the others do what they may. A program meets a condition if its
actions keep the invariant and do what it guarantees, and the condition holds
at its end, whatever the others did meanwhile. -/

namespace Atomic

/-- A program has ended, or takes one action and goes on from what it found. -/
inductive Prog (σ α : Type) where
  | done (a : α)
  | act (put : σ → σ) (rest : σ → Prog σ α)

/-- What others may do, what a program itself does, and how these compose. -/
structure Agreement {σ : Type} (rely guarantee : σ → σ → Prop) : Prop where
  refl : ∀ s, rely s s
  trans : ∀ {s t u}, rely s t → rely t u → rely s u
  keeps : ∀ {s t}, guarantee s t → rely s t

namespace Prog

variable {σ α β : Type} {I : σ → Prop} {R G : σ → σ → Prop} {Q : σ → α → Prop}
  {Q' : σ → β → Prop} {p : Prog σ α} {s t : σ}

/-- One program after the other. -/
def bind (p : Prog σ α) (k : α → Prog σ β) : Prog σ β :=
  match p with
  | done a => k a
  | act put rest => act put fun s => (rest s).bind k

/-- What it comes to if nobody else acts. -/
def solo (p : Prog σ α) (s : σ) : α × σ :=
  match p with
  | done a => (a, s)
  | act put rest => (rest s).solo (put s)

theorem solo_bind (p : Prog σ α) (k : α → Prog σ β) (s : σ) :
    (p.bind k).solo s = (k (p.solo s).1).solo (p.solo s).2 := by
  induction p generalizing s with
  | done a => rfl
  | act put rest ih => exact ih s (put s)

/-- From `s` on, whatever others do by `R`: every action keeps `I` and is one of
`G`, and `Q` holds at the end and stays so. -/
def Meets (I : σ → Prop) (R G : σ → σ → Prop) (Q : σ → α → Prop) : Prog σ α → σ → Prop
  | done a, s => ∀ t, R s t → I t → Q t a
  | act put rest, s => ∀ t, R s t → I t → I (put t) ∧ G t (put t) ∧ Meets I R G Q (rest t) (put t)

/-- What others do, changes nothing about it. -/
theorem Meets.later (hA : Agreement R G) (h : Meets I R G Q p s) (hst : R s t) :
    Meets I R G Q p t := by
  cases p with
  | done a => exact fun u hu hI => h u (hA.trans hst hu) hI
  | act put rest => exact fun u hu hI => h u (hA.trans hst hu) hI

/-- **Sequencing rule.** The second program may count on what the first ended with. -/
theorem Meets.bind {k : α → Prog σ β} (hA : Agreement R G) (hs : I s) (h : Meets I R G Q p s)
    (hk : ∀ a t, R s t → I t → Q t a → Meets I R G Q' (k a) t) : Meets I R G Q' (p.bind k) s := by
  induction p generalizing s with
  | done a => exact hk a s (hA.refl s) hs (h s (hA.refl s) hs)
  | act put rest ih =>
    intro t hst hI
    obtain ⟨hI', hput, hrest⟩ := h t hst hI
    refine ⟨hI', hput, ih t hI' hrest ?_⟩
    intro a u hu
    exact hk a u (hA.trans (hA.trans hst (hA.keeps hput)) hu)

/-- With nobody else acting, it keeps all this, and takes actions of `G` only. -/
theorem Meets.solo (hA : Agreement R G) (hrefl : ∀ s, G s s)
    (htrans : ∀ {a b c}, G a b → G b c → G a c) (hs : I s) (h : Meets I R G Q p s) :
    I (p.solo s).2 ∧ G s (p.solo s).2 ∧ Q (p.solo s).2 (p.solo s).1 := by
  induction p generalizing s with
  | done a => exact ⟨hs, hrefl s, h s (hA.refl s) hs⟩
  | act put rest ih =>
    obtain ⟨hI', hput, hrest⟩ := h s (hA.refl s) hs
    obtain ⟨hI, hG, hQ⟩ := ih s hI' hrest
    exact ⟨hI, htrans hput hG, hQ⟩

end Prog

end Atomic
