import Mathlib.Data.List.Infix
import Mathlib.Data.List.Nodup

/-! # A queue of command batches and writes

A device is handed batches of commands, and writes of host data between them,
and does both when it likes, in an order that keeps some rules. The rules
leave it no choice (`did_iff`): what it has done is always a first part of
what it was handed, in the order it was handed. Whoever keeps commands back
to hand them over as one batch has to do so before every write. -/

namespace CommandQueue

variable {C W M : Type*}

/-- What the queue is handed at once. -/
inductive Item (C W : Type*) where
  | submit (cmds : List C)
  | write (w : W)

/-- What the device does, one by one. -/
def Item.acts : Item C W → List (C ⊕ W)
  | submit cmds => cmds.map .inl
  | write w => [.inr w]

/-- One thing to do: the number of the item it is from, and its place in the batch. -/
structure Job (C W : Type*) where
  item : Nat
  place : Nat
  act : C ⊕ W

def jobsFrom (n : Nat) : List (Item C W) → List (Job C W)
  | [] => []
  | x :: log => x.acts.mapIdx (fun i a => ⟨n, i, a⟩) ++ jobsFrom (n + 1) log

/-- All there is to do for what the queue was handed, in order. -/
def jobs (log : List (Item C W)) : List (Job C W) := jobsFrom 0 log

variable {log log' : List (Item C W)} {n : Nat}

theorem jobsFrom_append (n : Nat) (log log' : List (Item C W)) :
    jobsFrom n (log ++ log') = jobsFrom n log ++ jobsFrom (n + log.length) log' := by
  induction log generalizing n with
  | nil => rfl
  | cons x log ih =>
    rw [List.cons_append, jobsFrom, jobsFrom, ih, List.append_assoc, List.length_cons,
      Nat.add_assoc, Nat.add_comm 1]

theorem jobs_mono (h : log <+: log') : jobs log <+: jobs log' := by
  obtain ⟨rest, rfl⟩ := h
  rw [jobs, jobs, jobsFrom_append]
  exact List.prefix_append _ _

theorem act_jobsFrom (n : Nat) (log : List (Item C W)) :
    (jobsFrom n log).map Job.act = log.flatMap Item.acts := by
  induction log generalizing n with
  | nil => rfl
  | cons x log ih =>
    rw [jobsFrom, List.map_append, ih, List.flatMap_cons]
    congr 1
    exact List.ext_getElem (by simp) fun i _ _ => by simp

theorem act_jobs (log : List (Item C W)) : (jobs log).map Job.act = log.flatMap Item.acts :=
  act_jobsFrom 0 log

/-! ## The rules -/

/-- What has to be done before what. -/
inductive Before : Job C W → Job C W → Prop
  /-- Commands of one batch run in order. -/
  | batch {a b : Job C W} : a.item = b.item → a.place < b.place → Before a b
  /-- Batches run in order. -/
  | submits {a b : Job C W} {c c' : C} :
      a.act = .inl c → b.act = .inl c' → a.item < b.item → Before a b
  /-- A write lands after everything submitted before it. -/
  | submitted {a b : Job C W} {c : C} {w : W} :
      a.act = .inl c → b.act = .inr w → a.item < b.item → Before a b
  /-- A write lands before the commands submitted next. -/
  | next {a b : Job C W} {c : C} {w : W} :
      a.act = .inr w → b.act = .inl c → a.item < b.item → Before a b
  /-- Writes land in order. -/
  | writes {a b : Job C W} {w w' : W} :
      a.act = .inr w → b.act = .inr w' → a.item < b.item → Before a b

variable {a b : Job C W}

theorem before_iff : Before a b ↔ a.item < b.item ∨ a.item = b.item ∧ a.place < b.place := by
  constructor
  · intro h
    cases h with
    | batch hi hp => exact .inr ⟨hi, hp⟩
    | submits _ _ hlt | submitted _ _ hlt | next _ _ hlt | writes _ _ hlt => exact .inl hlt
  · intro h
    rcases h with hlt | ⟨hi, hp⟩
    · cases ha : a.act with
      | inl c => cases hb : b.act with
        | inl c' => exact .submits ha hb hlt
        | inr w => exact .submitted ha hb hlt
      | inr w => cases hb : b.act with
        | inl c => exact .next ha hb hlt
        | inr w' => exact .writes ha hb hlt
    · exact .batch hi hp

theorem le_item (h : a ∈ jobsFrom n log) : n ≤ a.item := by
  induction log generalizing n with
  | nil => cases h
  | cons x log ih =>
    rw [jobsFrom, List.mem_append, List.mem_mapIdx] at h
    rcases h with ⟨i, hi, rfl⟩ | h
    · exact Nat.le_refl n
    · exact (Nat.le_succ n).trans (ih h)

theorem pairwise_jobsFrom (n : Nat) (log : List (Item C W)) :
    (jobsFrom n log).Pairwise Before := by
  induction log generalizing n with
  | nil => exact .nil
  | cons x log ih =>
    rw [jobsFrom, List.pairwise_append]
    refine ⟨?_, ih (n + 1), ?_⟩
    · rw [List.pairwise_iff_getElem]
      intro i j _ _ hij
      rw [List.getElem_mapIdx, List.getElem_mapIdx]
      exact .batch rfl hij
    · intro a ha b hb
      obtain ⟨i, hi, rfl⟩ := List.mem_mapIdx.mp ha
      exact before_iff.mpr (.inl (Nat.lt_of_succ_le (le_item hb)))

/-- A device that has done these jobs, in this order, keeps the rules: so far,
and with all that it has still to do. -/
def Did (log : List (Item C W)) (ran : List (Job C W)) : Prop :=
  ∃ rest, (ran ++ rest).Perm (jobs log) ∧ (ran ++ rest).Pairwise fun a b => ¬Before b a

/-- **The rules leave one order**, that of the queue. -/
theorem did_iff {ran : List (Job C W)} : Did log ran ↔ ran <+: jobs log := by
  have hpw : (jobs log).Pairwise Before := pairwise_jobsFrom 0 log
  have hasymm : ∀ {a b : Job C W}, Before a b → ¬Before b a := by
    intro a b h h'
    rw [before_iff] at h h'
    omega
  have hsorted : (jobs log).Pairwise fun a b => ¬Before b a := hpw.imp hasymm
  constructor
  · intro h
    obtain ⟨rest, hperm, hrules⟩ := h
    refine ⟨rest, hperm.eq_of_pairwise ?_ hrules hsorted⟩
    -- of two different jobs, one has to come first
    intro a b ha hb hab hba
    by_contra hne
    obtain ⟨i, hi, rfl⟩ := List.getElem_of_mem (hperm.mem_iff.mp ha)
    obtain ⟨j, hj, rfl⟩ := List.getElem_of_mem hb
    have horder := List.pairwise_iff_getElem.mp hpw
    rcases Nat.lt_trichotomy i j with hlt | rfl | hlt
    · exact hba (horder i j hi hj hlt)
    · exact hne rfl
    · exact hab (horder j i hj hi hlt)
  · intro h
    obtain ⟨rest, hrest⟩ := h
    exact ⟨rest, .of_eq hrest, hrest ▸ hsorted⟩

/-- All commands of the log are done. -/
def Waited (log : List (Item C W)) (ran : List (Job C W)) : Prop :=
  ∀ j ∈ jobs log, j.act.isLeft = true → j ∈ ran

/-- Whoever waited for a log that ends in a command has all of it done. -/
theorem Did.of_waited {ran : List (Job C W)} (h : Did log' ran) (hle : log <+: log')
    (hlast : ∃ init cmds c, log = init ++ [.submit (cmds ++ [c])])
    (hwait : Waited log ran) : jobs log <+: ran := by
  have hran := did_iff.mp h
  have hjobs := jobs_mono hle
  rcases List.prefix_or_prefix_of_prefix hjobs hran with hdone | hpart
  · exact hdone
  obtain ⟨rest, hrest⟩ := hpart
  -- nothing is left, or the last command is left too
  rcases List.eq_nil_or_concat rest with rfl | ⟨rest, last, rfl⟩
  · rw [List.append_nil] at hrest
    exact hrest ▸ List.prefix_refl _
  rw [List.concat_eq_append] at hrest
  obtain ⟨init, cmds, c, hlog⟩ := hlast
  have hact : (ran ++ (rest ++ [last])).map Job.act =
      init.flatMap Item.acts ++ cmds.map .inl ++ [.inl c] := by
    rw [hrest, act_jobs, hlog]
    simp [Item.acts]
  have hcmd : last.act = .inl c := by simpa using congrArg List.getLast? hact
  have hmem : last ∈ jobs log := by
    rw [← hrest]
    simp
  have hpw : (ran ++ (rest ++ [last])).Pairwise Before := hrest ▸ pairwise_jobsFrom 0 log
  have hself : Before last last :=
    (List.pairwise_append.mp hpw).2.2 last (hwait last hmem (by rw [hcmd]; rfl)) last (by simp)
  rw [before_iff] at hself
  omega

/-! ## Keeping commands back -/

/-- All that the queue was handed, then the commands that are kept back. -/
def handed (log : List (Item C W)) (kept : List C) : List (C ⊕ W) :=
  log.flatMap Item.acts ++ kept.map .inl

theorem handed_nil (log : List (Item C W)) : handed log [] = (jobs log).map Job.act := by
  rw [handed, act_jobs, List.map_nil, List.append_nil]

/-- Another command kept back is the next thing done. -/
theorem handed_record (log : List (Item C W)) (kept : List C) (c : C) :
    handed log (kept ++ [c]) = handed log kept ++ [.inl c] := by
  simp [handed]

/-- Handing over what is kept back changes nothing. -/
theorem handed_submit (log : List (Item C W)) (kept : List C) :
    handed (log ++ [.submit kept]) [] = handed log kept := by
  simp [handed, Item.acts]

/-- **A write is the next thing done** where no command is kept back. -/
theorem handed_write (log : List (Item C W)) (w : W) :
    handed (log ++ [.write w]) [] = handed log [] ++ [.inr w] := by
  simp [handed, Item.acts]

/-- The memory after these. -/
def effect (run : C ⊕ W → M → M) (acts : List (C ⊕ W)) (m : M) : M :=
  acts.foldl (fun m a => run a m) m

/-- What the device did is a first part of what was handed over. -/
theorem Did.acts_begin {ran : List (Job C W)} (h : Did log ran) (kept : List C) :
    ran.map Job.act <+: handed log kept := by
  have hjobs : (jobs log).map Job.act <+: handed log kept := by
    rw [act_jobs]
    exact List.prefix_append _ _
  exact ((did_iff.mp h).map Job.act).trans hjobs

theorem effect_append (run : C ⊕ W → M → M) (acts acts' : List (C ⊕ W)) (m : M) :
    effect run (acts ++ acts') m = effect run acts' (effect run acts m) :=
  List.foldl_append

end CommandQueue
