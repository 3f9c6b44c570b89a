import Wilupgu.Plan.Memo

/-! # Deferred values are a consistent memo

What reads return, whatever the interleaving; how often a resolver is handed
out; and, where one thread does everything, how often a relation's function
runs. -/

namespace Wilupgu.Plan

open Atomic Atomic.Prog Call Transition

variable {ι : Type} {El : ι → Type} {w w' : Memo El} {m m' : Slots El}
  {es : List (Nat × Event El)} {th : Nat} {s t : ι} {r : Resolvable El t}

theorem Memo.Good.init : (Memo.init : Memo El).Good where
  sound := by
    refine ⟨?_, ?_, ?_, fun _ => ⟨fun _ => rfl, rfl⟩, ?_⟩ <;> intros <;>
      exact absurd ‹(Slots.empty : Slots El).Made _› List.not_mem_nil
  held hheld := absurd hheld List.not_mem_nil
  reads hrd := absurd hrd (Option.some_ne_none _).symm
  before hrd := absurd hrd (Option.some_ne_none _).symm
  after hrd := absurd hrd (Option.some_ne_none _).symm
  ended hd := absurd hd List.not_mem_nil
  ordered _ hd := absurd hd List.not_mem_nil
  counted hd := absurd hd List.not_mem_nil

theorem valueIn_eq_ok {v : El t} : r.valueIn m = .ok v ↔ r.eval m = some v := by
  rw [Resolvable.valueIn]
  cases r.eval m <;> simp

/-- What a read returned is right at its end, or at its start. -/
theorem Returns.worth {res : Outcome Error (El t)} (h : Returns r m m' res) :
    ∃ now, (now = m ∨ now = m') ∧ res = r.valueIn now := by
  rcases h with ⟨v, rfl, hv⟩ | ⟨rfl, hnone⟩
  · exact ⟨m', .inr rfl, (valueIn_eq_ok.mpr hv).symm⟩
  · exact ⟨m, .inl rfl, by rw [Resolvable.valueIn, hnone]⟩

/-- A value is returned exactly if all it depends on was given. -/
theorem exists_valueIn_iff :
    (∃ v, r.valueIn m = .ok v) ↔ ∀ s a, r.DependsOn s a → (m.value s a).isSome := by
  simp only [valueIn_eq_ok, ← Option.isSome_iff_exists, Resolvable.eval_isSome_iff]

/-- What was returned once, is returned by every read called later. -/
theorem Memo.Good.stays (hg : w.Good) {i n n' : Nat} {v : El t} {start stop start' stop' : Slots El}
    {res : Outcome Error (El t)} (hd : w.ended[i]? = some ⟨t, r, start, n, stop, .ok v⟩)
    (hd' : ⟨t, r, start', n', stop', res⟩ ∈ w.ended) (hi : i < n') : res = .ok v := by
  obtain ⟨-, -, hret⟩ := hg.ended (List.mem_of_getElem? hd)
  obtain ⟨hlater, -, hret'⟩ := hg.ended hd'
  have hmore := hg.ordered hd hd' hi
  have hv : r.eval stop = some v := by
    rcases hret with ⟨v', hv', heval⟩ | ⟨he, -⟩
    · cases hv'
      exact heval
    · cases he
  rcases hret' with ⟨v', hres, heval⟩ | ⟨-, hnone⟩
  · have hsame : some v' = some v := heval.symm.trans ((hmore.trans hlater).eval hv)
    exact hres.trans (congrArg _ (Option.some.inj hsame))
  · have hsome := hmore.eval hv
    rw [hnone] at hsome
    cases hsome

/-- Each relation's function ran at most once, and not at all while its slot is empty. -/
structure Once (m : Slots El) : Prop where
  ran {t : ι} {r : Resolvable El t} : m.Made r →
    m.ran r.addr ≤ 1 ∧ (m.value t r.addr = none → m.ran r.addr = 0)
  unused {a : Nat} : m.next ≤ a → m.ran a = 0

/-- Nothing happened to the slot at `a`. -/
def SameAt (a : Nat) (m m' : Slots El) : Prop :=
  (∀ s, m'.value s a = m.value s a) ∧ m'.ran a = m.ran a

theorem SameAt.trans {a : Nat} {m'' : Slots El} (h : SameAt a m m') (h' : SameAt a m' m'') :
    SameAt a m m'' :=
  ⟨fun s => (h'.1 s).trans (h.1 s), h'.2.trans h.2⟩

theorem Once.withSource (ho : Once m) {c : Nat → Resolvable El t}
    (haddr : (c m.next).addr = m.next) : Once (Plan.withSource c m).2 := by
  refine ⟨?_, fun ha => ho.unused (Nat.le_of_succ_le ha)⟩
  intro s q hq
  rcases List.mem_cons.mp hq with heq | hq
  · cases heq
    have hran : m.ran (c m.next).addr = 0 := ho.unused (Nat.le_of_eq haddr.symm)
    exact ⟨hran ▸ Nat.zero_le 1, fun _ => hran⟩
  · exact ho.ran hq

/-- The slots once the read under way has ended. -/
def Memo.settled (th : Nat) (w : Memo El) : Slots El :=
  match w.reads th with
  | some rd => (rd.rest.solo w.slots).2
  | none => w.slots

theorem Memo.settled_idle (h : w.reads th = none) : w.settled th = w.slots := by
  rw [settled, h]

theorem Memo.settled_read {rd : Read El} (h : w.reads th = some rd) :
    w.settled th = (rd.rest.solo w.slots).2 := by
  rw [settled, h]

theorem once_idle {held : List (ι × Nat)} (hidle : w.reads th = none)
    (hm : Once w.slots → Once m) (ho : Once (w.settled th)) :
    Once (({ w with slots := m, resolvers := held } : Memo El).settled th) := by
  rw [Memo.settled_idle hidle] at ho
  rw [Memo.settled_idle (w := { w with slots := m, resolvers := held }) hidle]
  exact hm ho

theorem solo_andThen {σ ε α β : Type} (p : Prog σ (Outcome ε α)) (k : α → Prog σ (Outcome ε β))
    (s : σ) : (andThen p k).solo s =
      match p.solo s with
      | (.ok a, t) => (k a).solo t
      | (.err e, t) => (.err e, t)
      | (.panic, t) => (.panic, t) := by
  rw [andThen, solo_bind]
  rcases p.solo s with ⟨_ | _ | _, t⟩ <;> rfl

theorem solo_valueOr (m : Slots El) (a : Nat) (source : Prog (Slots El) (Outcome Error (El t))) :
    (valueOr t a source).solo m =
      match m.value t a with
      | some v => (.ok v, m)
      | none => source.solo m := by
  rw [valueOr, solo]
  cases m.value t a <;> rfl

variable [DecidableEq ι]

theorem Memo.Run.good (h : Memo.Run es w) : w.Good :=
  Reachable.invariant ⟨es, h⟩ .init fun _ _ _ hg hs => (hg.step hs).1

/-! ## Resolvers -/

/-- A step that hands out a resolver finds it free and leaves it taken. -/
theorem Memo.Step.taken {e : Nat × Event El} {a : Nat} (hs : w.Step e w')
    (ha : handsOut a e = true) :
    w.slots.resolverTaken a = false ∧ w'.slots.resolverTaken a = true := by
  cases hs with
  | @resolver th t r hidle hr =>
    cases hout : (r.resolver w.slots).1 with
    | ok b =>
      rw [hout, handsOut, decide_eq_true_eq] at ha
      subst ha
      exact (resolver_ok hout).2
    | err e =>
      rw [hout] at ha
      cases ha
    | panic =>
      rw [hout] at ha
      cases ha
  | _ => cases ha

/-- **At most one resolver**, and none where it is taken already. -/
theorem countP_handsOut_le (hg : w.Good) (h : Runs Memo.Step w es w') (a : Nat) :
    es.countP (handsOut a) ≤ if w.slots.resolverTaken a then 0 else 1 := by
  induction h with
  | nil => exact Nat.zero_le _
  | @cons w w₁ w₂ e es hs hr ih =>
    obtain ⟨hg₁, hl⟩ := hg.step hs
    have hrest := ih hg₁
    rw [List.countP_cons]
    by_cases ha : handsOut a e = true
    · obtain ⟨hfree, htaken⟩ := hs.taken ha
      rw [htaken, if_pos rfl] at hrest
      rw [if_pos ha, hfree, if_neg Bool.false_ne_true]
      omega
    · rw [if_neg ha, Nat.add_zero]
      refine hrest.trans ?_
      cases htaken : w.slots.resolverTaken a with
      | true => rw [hl.taken htaken]
      | false =>
        rw [if_neg Bool.false_ne_true]
        split <;> omega

/-! ## Reads -/

/-- An action of a read changes nothing's worth. -/
theorem Memo.Good.unmoved (hg : w.Good) (hs : w.Step (th, .act) w') :
    Unmoved w.slots w'.slots := by
  cases hs with
  | act hrd => exact (Memo.Good.act hg hrd rfl).1

/-! ## One thread -/

theorem once_collect {I : Nat} {x : Fin I → Resolvable El t} (hs : Sound m)
    (hr : ∀ i, m.Made (x i)) (ho : Once m)
    (h : ∀ i m, Sound m → m.Made (x i) → Once m → Once ((x i).read.solo m).2 ∧
      ∀ a, (x i).addr < a → SameAt a m ((x i).read.solo m).2) :
    Once ((collect fun i => (x i).read).solo m).2 ∧
      ∀ a, (∀ i, (x i).addr < a) → SameAt a m ((collect fun i => (x i).read).solo m).2 := by
  induction I generalizing m with
  | zero => exact ⟨ho, fun _ _ => ⟨fun _ => rfl, rfl⟩⟩
  | succ I ih =>
    obtain ⟨ho₁, hsame₁⟩ := h 0 m hs (hr 0) ho
    obtain ⟨-, hs₁, hmoved⟩ := read_solo hs (hr 0)
    rw [collect, solo_andThen]
    rcases hread : (x 0).read.solo m with ⟨v | e | _, m₁⟩ <;> rw [hread] at ho₁ hsame₁ hs₁ hmoved
    · obtain ⟨ho₂, hsame₂⟩ := ih (x := fun i => x i.succ) hs₁
        (fun i => hmoved.later.made (hr i.succ)) ho₁ fun i => h i.succ
      simp only [solo_andThen]
      rcases hrest : (collect fun i => (x i.succ).read).solo m₁ with ⟨vs | e | _, m₂⟩ <;>
        rw [hrest] at ho₂ hsame₂ <;>
        exact ⟨ho₂, fun a ha => (hsame₁ a (ha 0)).trans (hsame₂ a fun i => ha i.succ)⟩
    · exact ⟨ho₁, fun a ha => hsame₁ a (ha 0)⟩
    · exact ⟨ho₁, fun a ha => hsame₁ a (ha 0)⟩

/-- A slot that is filled after its function ran for the first time. -/
theorem Once.fill (ho : Once m) (hs : Sound m) {a : Nat} {v : El t} (hr : m.Made r)
    (ha : r.addr = a) (hran : m.ran a = 0) : Once ((m.run a).set t a v) := by
  have hrun : ∀ b, ((m.run a).set t a v).ran b = if b = a then 1 else m.ran b := by
    intro b
    rw [Slots.set_ran, Slots.run]
    by_cases hb : b = a
    · subst hb
      simp [hran]
    · simp [hb]
  refine ⟨?_, ?_⟩
  · intro s q hq
    have hq' : m.Made q := (Slots.made_set (m := m.run a)).mp hq
    rw [hrun]
    by_cases hqa : q.addr = a
    · rw [if_pos hqa]
      refine ⟨Nat.le_refl _, ?_⟩
      intro hnone
      obtain ⟨rfl, -⟩ := Sigma.mk.inj (hs.unique hq' hr (hqa.trans ha.symm))
      rw [hqa, Slots.set_value_self] at hnone
      cases hnone
    · rw [if_neg hqa, Slots.set_value_of_ne _ _ fun hsame => hqa hsame.2]
      exact ho.ran hq'
  · intro b hb
    rw [Slots.set_next] at hb
    have hlt := hs.below hr
    rw [hrun, if_neg (by intro hba; subst hba ha; exact absurd hb (Nat.not_le_of_lt hlt))]
    exact ho.unused hb

/-- **A read alone**: the function of every relation runs when its slot is filled. -/
theorem once_read (hs : Sound m) (hr : m.Made r) (ho : Once m) : Once (r.read.solo m).2 ∧
    ∀ a, r.addr < a → SameAt a m (r.read.solo m).2 := by
  induction r generalizing m with
  | @given t a =>
    rw [Resolvable.read, solo_valueOr]
    cases m.value t a <;> exact ⟨ho, fun _ _ => ⟨fun _ => rfl, rfl⟩⟩
  | @computed s t a I inputs f ih =>
    rw [Resolvable.read, solo_valueOr]
    cases hv : m.value t a with
    | some v => exact ⟨ho, fun _ _ => ⟨fun _ => rfl, rfl⟩⟩
    | none =>
      have hin := fun i => (hs.older hr i).1
      obtain ⟨ho₁, hsame⟩ := once_collect (x := inputs) hs hin ho fun i _ => ih i
      obtain ⟨hs₁, hmoved, -⟩ := (meets_collect (x := inputs) (.refl m) hs fun i _ =>
        meets_read hs (hin i)).solo agreement Unmoved.refl Unmoved.trans hs
      have hup : ∀ b, a < b → SameAt b m ((collect fun i => (inputs i).read).solo m).2 :=
        fun b hb => hsame b fun i => Nat.lt_trans (hs.older hr i).2 hb
      have hran := (hsame a fun i => (hs.older hr i).2).2.trans ((ho.ran hr).2 hv)
      simp only [compute, solo_andThen]
      rcases hcollect : (collect fun i => (inputs i).read).solo m with ⟨vs | e | _, m₁⟩ <;>
        rw [hcollect] at ho₁ hs₁ hmoved hup hran
      · refine ⟨ho₁.fill hs₁ (hmoved.later.made hr) rfl hran, ?_⟩
        intro b hb
        have hne : b ≠ a := Nat.ne_of_gt hb
        refine (hup b hb).trans ⟨?_, ?_⟩
        · intro u
          exact Slots.set_value_of_ne _ _ fun hsame => hne hsame.2
        · show ((m₁.run a).set t a (f vs)).ran b = m₁.ran b
          rw [Slots.set_ran]
          exact Function.update_of_ne hne _ _
      · exact ⟨ho₁, hup⟩
      · exact ⟨ho₁, hup⟩

theorem Once.set (ho : Once m) (a : Nat) (v : El t) : Once (m.set t a v) := by
  refine ⟨?_, ?_⟩
  · intro s q hq
    rw [Slots.set_ran]
    obtain ⟨hle, hnone⟩ := ho.ran (Slots.made_set.mp hq)
    refine ⟨hle, fun h => hnone ?_⟩
    cases hv : m.value s q.addr with
    | none => rfl
    | some v' =>
      rw [(Slots.later_set m a v).value hv] at h
      cases h
  · intro b hb
    rw [Slots.set_next] at hb
    rw [Slots.set_ran]
    exact ho.unused hb

/-- **A step of a thread that is alone.** -/
theorem once_step {e : Event El} (hg : w.Good) (ho : Once (w.settled th))
    (hs : w.Step (th, e) w') : Once (w'.settled th) := by
  cases hs with
  | new hidle => exact once_idle hidle (fun ho => ho.withSource rfl) ho
  | @fixed _ t v hidle =>
    refine once_idle hidle (fun ho => ?_) ho
    rw [fixed_run hg.sound]
    obtain ⟨hran, hunused⟩ := ho.withSource (c := (.given : Nat → Resolvable El t)) rfl
    have hnew : Once { ((Resolvable.new : Call _ _ (Resolvable El t)) w.slots).2 with
      resolverTaken := Function.update w.slots.resolverTaken w.slots.next true } := ⟨hran, hunused⟩
    exact hnew.set _ v
  | relation hidle => exact once_idle hidle (fun ho => ho.withSource rfl) ho
  | @resolver _ t r hidle hr =>
    refine once_idle hidle (fun ho => ?_) ho
    cases r with
    | given a =>
      rw [resolver_given]
      exact ⟨ho.ran, ho.unused⟩
    | computed => exact ho
  | resolve hidle => exact once_idle hidle (fun ho => ho.set _ _) ho
  | value hidle hr =>
    rw [Memo.settled_idle hidle] at ho
    rw [Memo.settled_read (Memo.setRead_self ..)]
    exact (once_read hg.sound hr ho).1
  | act hrd =>
    rw [Memo.settled_read hrd] at ho
    rw [Memo.settled_read (Memo.setRead_self ..)]
    exact ho
  | ends hrd =>
    rw [Memo.settled_read hrd] at ho
    rw [Memo.settled_idle (Memo.setRead_self ..)]
    exact ho

/-- **A run of one thread.** -/
theorem once_run (hg : w.Good) (ho : Once (w.settled th)) (h : Runs Memo.Step w es w')
    (hth : ∀ e ∈ es, e.1 = th) : Once (w'.settled th) := by
  induction h with
  | nil => exact ho
  | @cons w w₁ w₂ e es hs _ ih =>
    obtain ⟨n, e⟩ := e
    obtain rfl : n = th := hth _ (.head _)
    exact ih (hg.step hs).1 (once_step hg ho hs) fun e' he' => hth e' (.tail _ he')

omit [DecidableEq ι] in
/-- Also within a read, no function has run twice. -/
theorem ran_le_one (hg : w.Good) (ho : Once (w.settled th)) (hr : w.slots.Made r) :
    w.slots.ran r.addr ≤ 1 := by
  cases hrd : w.reads th with
  | none =>
    rw [Memo.settled_idle hrd] at ho
    exact (ho.ran hr).1
  | some rd =>
    rw [Memo.settled_read hrd] at ho
    obtain ⟨-, -, -, hmeets⟩ := hg.reads hrd
    obtain ⟨-, hmoved, -⟩ := hmeets.solo agreement Unmoved.refl Unmoved.trans hg.sound
    exact (hmoved.later.ran _).trans (ho.ran (hmoved.later.made hr)).1

/-! ## All of it -/

/-- What makes a run's Resolvables one consistent memo. -/
structure IsMemo (es : List (Nat × Event El)) (w : Memo El) : Prop where
  /-- Each read returned what its Resolvable was worth at its start or its end. -/
  worth : ∀ d ∈ w.ended, ∃ now, (now = d.start ∨ now = d.stop) ∧ d.result = d.r.valueIn now
  /-- That is a value exactly if all it depends on was given, and the relations' value of these. -/
  value (m : Slots El) (t : ι) (r : Resolvable El t) : ((∃ v, r.valueIn m = .ok v) ↔
    ∀ s a, r.DependsOn s a → (m.value s a).isSome) ∧
    ∀ v, r.valueIn m = .ok v ↔ r.eval m = some v
  /-- Once returned, the same value is returned by every read that is called later. -/
  stays {i n n' : Nat} {t : ι} {r : Resolvable El t} {v : El t}
    {start stop start' stop' : Slots El} {res : Outcome Error (El t)} :
    w.ended[i]? = some ⟨t, r, start, n, stop, .ok v⟩ →
      ⟨t, r, start', n', stop', res⟩ ∈ w.ended → i < n' → res = .ok v
  /-- No action of a read, whatever it returns, changes what a read would return. -/
  unmoved {th : Nat} {w' : Memo El} {t : ι} {r : Resolvable El t} : w.Step (th, .act) w' →
    w.slots.Made r → r.valueIn w'.slots = r.valueIn w.slots
  resolver (a : Nat) : es.countP (handsOut a) ≤ 1
  /-- Where one thread did everything, no relation's function ran twice. -/
  ran {th : Nat} {t : ι} {r : Resolvable El t} : (∀ e ∈ es, e.1 = th) → w.slots.Made r →
    w.slots.ran r.addr ≤ 1

namespace Sample

/-- Numbers only. -/
abbrev Num : Unit → Type := fun _ => Nat

abbrev half : Resolvable Num () := .given 0

abbrev whole : Resolvable Num () := .computed 1 1 (fun _ => half) fun v => v 0 + v 0

/-- The sum is read before its input is given, by two threads. -/
def events : List (Nat × Event Num) := [
  (0, .new ()), (0, .relation 1 (fun _ => half) fun v => v 0 + v 0), (1, .value whole),
  (1, .act), (1, .act), (0, .resolver half (.ok 0)), (1, .ends), (0, .resolve () 0 21),
  (0, .value whole), (0, .act), (1, .value whole), (1, .act), (0, .act), (1, .act), (1, .act),
  (0, .act), (0, .act), (1, .act), (0, .ends), (1, .ends)]

set_option maxRecDepth 8000 in
theorem run_events : ∃ w : Memo Num, Memo.Run events w ∧
    (w.ended.map fun d => (d.result : Outcome Error Nat)) = [.err .NotGivenYet, .ok 42, .ok 42] := by
  refine ⟨?final, ?run, ?ended⟩
  case run =>
    refine .cons (.new rfl) ?_
    refine .cons (.relation rfl fun _ => .head _) ?_
    refine .cons (.value rfl (.head _)) ?_
    refine .cons (.act rfl) ?_
    refine .cons (.act rfl) ?_
    refine .cons (.resolver rfl (.tail _ (.head _))) ?_
    refine .cons (.ends rfl) ?_
    refine .cons (.resolve rfl (.head _)) ?_
    refine .cons (.value rfl (.head _)) ?_
    refine .cons (.act rfl) ?_
    refine .cons (.value rfl (.head _)) ?_
    refine .cons (.act rfl) ?_
    refine .cons (.act rfl) ?_
    refine .cons (.act rfl) ?_
    refine .cons (.act rfl) ?_
    refine .cons (.act rfl) ?_
    refine .cons (.act rfl) ?_
    refine .cons (.act rfl) ?_
    refine .cons (.ends rfl) ?_
    refine .cons (.ends rfl) ?_
    exact .nil _
  case ended => rfl

end Sample

end Wilupgu.Plan
