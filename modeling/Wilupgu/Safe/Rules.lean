import Wilupgu.Error
import Wilupgu.Backend.Contract

/-! # The checks made in more than one place

src/safe/rules.rs. Below each check stands when it passes. -/

namespace Wilupgu.Rules

open Backend

variable {B : Type}

/-- Devices are numbered, and two are the same one if their numbers are. -/
def sameDevice (expected got : Nat) (what : String) : Outcome Error Unit :=
  if expected = got then .ok () else .err (.OtherDevice what)

def sameKind (expected got : DataKind) : Outcome Error Unit :=
  if expected = got then .ok () else .err (.KindMismatch expected got)

def sameLen (expected got : Nat) : Outcome Error Unit :=
  if expected = got then .ok () else .err (.LenMismatch expected got)

def slotCount (shader : Signature) (got : Nat) : Outcome Error Unit :=
  if shader.layout.length = got then .ok ()
  else .err (.SlotCount shader.name shader.layout.length got)

/-- One tensor per slot, each of its slot's kind. -/
def slotKinds (shader : Signature) (kinds : List DataKind) : Outcome Error Unit := do
  slotCount shader kinds.length
  (shader.layout.zip kinds).zipIdx.forM fun ((role, got), slot) =>
    if role.kind = got then .ok () else .err (.SlotKind shader.name slot role.kind got)

/-- One value per meta field, each of its field's type. -/
def metaTypes (shader : Signature) (types : List MetaType) : Outcome Error Unit :=
  if shader.metaFields.length = types.length then
    (shader.metaFields.zip types).forM fun (field, got) =>
      if field.ty = got then .ok () else .err (.MetaType shader.name field.name field.ty got)
  else .err (.MetaCount shader.name shader.metaFields.length types.length)

def accepted (B : Type) [Storage B] [Dispatch B] (shader : Shader) : Outcome Error Unit :=
  if Dispatch.accepts B shader.binary then .ok ()
  else .err (.UnsupportedBinary shader.signature.name)

def hasWorkgroups (shader : Signature) (workgroups : Workgroups) : Outcome Error Unit :=
  if 0 ∈ workgroups.dims then .err (.NoWorkgroups shader.name) else .ok ()

def supportedKind [Topology B] (raw : B) (kind : DataKind) : Outcome Error Unit :=
  if Topology.supportsKind raw kind then .ok ()
  else .err (.UnsupportedKind (Topology.label raw) kind)

/-- `Arg.Read` for an `Input` slot, `Arg.Write` for the others. -/
def slotAccess (shader : Signature) (slot : Nat) (role : BindingRole) (write : Bool) :
    Outcome Error Unit :=
  if write ≠ !role.isInput then .err (.SlotAccess shader.name slot role) else .ok ()

def longEnough (shader : Signature) (slot needs holds : Nat) : Outcome Error Unit :=
  if holds ≥ needs then .ok () else .err (.TooShort shader.name slot needs holds)

/-- A written slot's tensor, named by `tensors` in slot order, is in no other slot. -/
def notAliased {T : Type} [DecidableEq T] (shader : Signature) (tensors : List T) :
    Outcome Error Unit :=
  (shader.layout.zip tensors).zipIdx.forM fun ((role, written), slot) =>
    if role.isInput then .ok ()
    else if tensors.zipIdx.any fun (tensor, other) => other ≠ slot ∧ tensor = written then
      .err (.Aliased shader.name slot)
    else .ok ()

/-! ## When they pass -/

@[simp] theorem sameDevice_eq_ok {expected got : Nat} {what : String} :
    sameDevice expected got what = .ok () ↔ expected = got := by
  unfold sameDevice
  split <;> simp [*]

@[simp] theorem sameKind_eq_ok {expected got : DataKind} :
    sameKind expected got = .ok () ↔ expected = got := by
  unfold sameKind
  split <;> simp [*]

@[simp] theorem sameLen_eq_ok {expected got : Nat} :
    sameLen expected got = .ok () ↔ expected = got := by
  unfold sameLen
  split <;> simp [*]

@[simp] theorem slotCount_eq_ok {shader : Signature} {got : Nat} :
    slotCount shader got = .ok () ↔ shader.layout.length = got := by
  unfold slotCount
  split <;> simp [*]

@[simp] theorem slotAccess_eq_ok {shader : Signature} {slot : Nat} {role : BindingRole}
    {write : Bool} : slotAccess shader slot role write = .ok () ↔ write = !role.isInput := by
  unfold slotAccess
  split <;> simp_all [Bool.eq_not]

@[simp] theorem longEnough_eq_ok {shader : Signature} {slot needs holds : Nat} :
    longEnough shader slot needs holds = .ok () ↔ needs ≤ holds := by
  unfold longEnough
  split <;> simp_all

/-- A check of every entry and its position, as a statement about positions. -/
theorem forM_zipIdx_eq_ok {α : Type} {f : α × Nat → Outcome Error Unit} {l : List α} :
    l.zipIdx.forM f = .ok () ↔ ∀ i a, l[i]? = some a → f (a, i) = .ok () := by
  refine Outcome.forM_eq_ok.trans ⟨fun h i a hi => h _ ?_, fun h x hx => ?_⟩
  · exact List.mem_zipIdx_iff_getElem?.mpr hi
  · exact h x.2 x.1 (List.mem_zipIdx_iff_getElem?.mp hx)

theorem slotKinds_eq_ok {shader : Signature} {kinds : List DataKind} :
    slotKinds shader kinds = .ok () ↔ shader.layout.map BindingRole.kind = kinds := by
  simp only [slotKinds, Outcome.check_bind_eq_ok, slotCount_eq_ok, forM_zipIdx_eq_ok]
  constructor
  · rintro ⟨hlen, h⟩
    refine List.ext_getElem (by simpa using hlen) fun i h₁ h₂ => ?_
    have hi : i < shader.layout.length := by simpa using h₁
    have := h i (shader.layout[i], kinds[i]) (by simp [hi, h₂])
    simp only [ite_eq_left_iff, reduceCtorEq, imp_false, Decidable.not_not] at this
    simpa using this
  · rintro rfl
    refine ⟨by simp, fun i ⟨role, got⟩ hi => ?_⟩
    obtain ⟨h₁, h₂⟩ := List.getElem?_zip_eq_some.mp hi
    simp only [List.getElem?_map, h₁, Option.map_some, Option.some.injEq] at h₂
    exact if_pos h₂

theorem metaTypes_eq_ok {shader : Signature} {types : List MetaType} :
    metaTypes shader types = .ok () ↔ shader.metaFields.map MetaField.ty = types := by
  unfold metaTypes
  split
  · rename_i hlen
    refine Outcome.forM_eq_ok.trans ⟨fun h => ?_, ?_⟩
    · refine List.ext_getElem (by simpa using hlen) fun i h₁ h₂ => ?_
      have hi : i < shader.metaFields.length := by simpa using h₁
      have := h (shader.metaFields[i], types[i])
        (List.mem_iff_getElem?.mpr ⟨i, by simp [hi, h₂]⟩)
      simp only [ite_eq_left_iff, reduceCtorEq, imp_false, Decidable.not_not] at this
      simpa using this
    · rintro rfl ⟨field, got⟩ hm
      obtain ⟨i, hi⟩ := List.mem_iff_getElem?.mp hm
      obtain ⟨h₁, h₂⟩ := List.getElem?_zip_eq_some.mp hi
      simp only [List.getElem?_map, h₁, Option.map_some, Option.some.injEq] at h₂
      exact if_pos h₂
  · rename_i hlen
    simp only [reduceCtorEq, false_iff]
    rintro rfl
    simp at hlen

theorem notAliased_eq_ok {T : Type} [DecidableEq T] {shader : Signature} {tensors : List T} :
    notAliased shader tensors = .ok () ↔
      ∀ (slot : Nat) (role : BindingRole) (t : T), shader.layout[slot]? = some role →
        role.isInput = false →
        tensors[slot]? = some t → ∀ other, other ≠ slot → tensors[other]? ≠ some t := by
  simp only [notAliased, forM_zipIdx_eq_ok, Prod.forall, List.getElem?_zip_eq_some]
  constructor
  · intro h slot role t hr hw ht other hne hother
    have := h slot role t ⟨hr, ht⟩
    rw [hw, if_neg (by simp), if_pos] at this
    · cases this
    · exact List.any_eq_true.mpr ⟨(t, other), List.mem_zipIdx_iff_getElem?.mpr hother, by simp [hne]⟩
  · rintro h slot role t ⟨hr, ht⟩
    split
    · rfl
    · rename_i hw
      rw [if_neg]
      intro hany
      obtain ⟨⟨t', other⟩, hm, hx⟩ := List.any_eq_true.mp hany
      obtain ⟨hne, rfl⟩ : other ≠ slot ∧ t' = t := by simpa using hx
      exact h slot role t' hr (by simpa using hw) ht other hne
        (List.mem_zipIdx_iff_getElem?.mp hm)

/-! ## They never panic -/

theorem supportedKind_returns [Topology B] (raw : B) (kind : DataKind) :
    (supportedKind raw kind).returns = true := by
  unfold supportedKind
  split <;> rfl

theorem slotAccess_returns (shader : Signature) (slot : Nat) (role : BindingRole) (write : Bool) :
    (slotAccess shader slot role write).returns = true := by
  unfold slotAccess
  split <;> rfl

theorem longEnough_returns (shader : Signature) (slot needs holds : Nat) :
    (longEnough shader slot needs holds).returns = true := by
  unfold longEnough
  split <;> rfl

theorem slotKinds_returns (shader : Signature) (kinds : List DataKind) :
    (slotKinds shader kinds).returns = true := by
  refine Outcome.returns_bind ?_ fun _ _ => Outcome.returns_forM ?_
  · unfold slotCount
    split <;> rfl
  · rintro ⟨⟨role, got⟩, slot⟩ -
    simp only
    split <;> rfl

theorem metaTypes_returns (shader : Signature) (types : List MetaType) :
    (metaTypes shader types).returns = true := by
  unfold metaTypes
  split
  · refine Outcome.returns_forM fun ⟨field, got⟩ _ => ?_
    simp only
    split <;> rfl
  · rfl

theorem notAliased_returns {T : Type} [DecidableEq T] (shader : Signature) (tensors : List T) :
    (notAliased shader tensors).returns = true := by
  refine Outcome.returns_forM ?_
  rintro ⟨⟨role, written⟩, slot⟩ -
  simp only
  repeat' split
  all_goals rfl

end Wilupgu.Rules
