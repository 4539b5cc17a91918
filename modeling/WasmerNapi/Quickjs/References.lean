import WasmerNapi.Lib.Run

/-!
# References of the QuickJS backend

`napi_ref__` in `src/quickjs/src/internal/napi_ref.cc`, under `napi_reference_ref`,
`napi_reference_unref`, `napi_get_reference_value` and `napi_delete_reference` of
`src/quickjs/src/js_native_api_quickjs.cc`: one reference and its target.

The engine frees a counted value when nobody holds it, in two steps. In between the value is
no longer alive and its weak links are still attached: a finalizer of the same cycle can run
there.
-/

namespace WasmerNapi.Quickjs.References

open Run

inductive Value where
  | uninitialized
  | undefined
  | null
  /-- A value without a reference count: a number, a boolean, a short BigInt. -/
  | immediate (bits : UInt64)
  | bigint (id : ℕ)
  | string (id : ℕ)
  | symbol (id : ℕ)
  | object (id : ℕ)
  deriving DecidableEq

/-- `IsEmptyValue` -/
def Value.isEmpty : Value → Bool
  | .uninitialized => true
  | .undefined => true
  | .null => true
  | _ => false

/-- `JS_VALUE_HAS_REF_COUNT` -/
def Value.hasRefCount : Value → Bool
  | .bigint _ => true
  | .string _ => true
  | .symbol _ => true
  | .object _ => true
  | _ => false

def Value.isObject : Value → Bool
  | .object _ => true
  | _ => false

/-- A value being freed is not alive, and not yet gone. -/
inductive Life where
  | alive
  | dying
  | gone
  deriving DecidableEq

/-- `napi_ref__`, whose `env_` is set while it is active and whose link is attached while it is
    weak, with the target it was made for and what it has done to the target's count.
    `expected` is the count N-API asks for. -/
structure State where
  active : Bool
  value : Value
  refCount : ℕ
  linked : Bool
  target : Value
  life : Life
  dups : ℕ
  frees : ℕ
  expected : ℕ
  deriving DecidableEq

/-- `JS_DupValue`, of the reference's own value. -/
def dupValue (s : State) : State :=
  if s.value.hasRefCount then { s with dups := s.dups + 1 } else s

/-- `JS_FreeValue` -/
def freeValue (value : Value) (s : State) : State :=
  if value.hasRefCount then { s with frees := s.frees + 1 } else s

/-- `delete_weak_handle` -/
def deleteWeakHandle (s : State) : State := if s.active then { s with linked := false } else s

/-- `make_weak`: the engine takes the link or refuses it. -/
def makeWeak (attaches : Bool) (s : State) : State :=
  let s := deleteWeakHandle s
  if !s.active || s.value.isEmpty then s else { s with linked := attaches }

/-- `napi_ref__::napi_ref__` -/
def create (target : Value) (initialRefCount : UInt32) (attaches : Bool) : State :=
  let s : State :=
    { active := true, value := target, refCount := initialRefCount.toNat, linked := false
      target := target, life := .alive, dups := 0, frees := 0
      expected := initialRefCount.toNat }
  if 0 < s.refCount then dupValue s
  else
    let s := makeWeak attaches s
    if s.linked then s else dupValue s

/-- `++ref_count_` -/
def increment (s : State) : State := { s with refCount := (s.refCount + 1) % 2 ^ 32 }

/-- `add_ref` -/
def addRef (s : State) : State :=
  if s.value.isEmpty then s
  else if s.refCount = 0 then
    let wasWeak := s.linked
    let s := deleteWeakHandle s
    increment (if wasWeak then dupValue s else s)
  else increment s

/-- `rem_ref`. What the last free brings about comes in steps of its own. -/
def remRef (attaches : Bool) (s : State) : State :=
  if s.refCount = 0 then s
  else
    let s := { s with refCount := s.refCount - 1 }
    if s.refCount = 0 then
      let value := s.value
      let s := makeWeak attaches s
      if s.linked && s.active then freeValue value s else s
    else s

/-- `clear_weak_target`, which the engine calls on an attached link. -/
def clearWeakTarget (s : State) : State :=
  { s with value := .undefined, refCount := 0, linked := false }

/-- `clear_for_teardown`, which the destructor calls as well. -/
def clearForTeardown (s : State) : State :=
  if !s.active then s
  else
    let value := s.value
    let ownsStrongValue := !s.linked && !value.isEmpty && value.hasRefCount
    let s := { deleteWeakHandle s with active := false, value := .undefined, refCount := 0 }
    if ownsStrongValue then freeValue value s else s

/-- `napi_get_reference_value`, none for `nullptr`. -/
def getReferenceValue (s : State) : Option Value :=
  if s.value.isEmpty then none
  else if s.value.isObject && s.active && s.life ≠ .alive then none
  else some s.value

/-! ## Runs -/

inductive Act where
  | ref
  | unref (attaches : Bool)
  /-- The engine begins to free the target, and ends. -/
  | beginFree
  | endFree
  | delete
  | teardown
  deriving DecidableEq

def step (s : State) : Act → Option State
  | .ref => some { addRef s with expected := s.expected + 1 }
  | .unref attaches => some { remRef attaches s with expected := s.expected - 1 }
  | .beginFree =>
    -- Nobody holds the target any more, the reference included.
    if s.life = .alive ∧ s.target.hasRefCount ∧ s.dups = s.frees then
      some { s with life := .dying }
    else none
  | .endFree =>
    if s.life = .dying then
      some { (if s.linked then clearWeakTarget s else s) with life := .gone }
    else none
  | .delete => some (clearForTeardown s)
  | .teardown => some (clearForTeardown s)

/-- What a reference owes: the count while it is active and its target alive, the target while
    the count is positive, and one strong reference exactly while its value is counted and it is
    not weak. A strong reference is one to a target that is alive. -/
structure Keeps (s : State) : Prop where
  count : s.active = true → s.life = .alive → s.refCount = s.expected
  value : 0 < s.refCount → getReferenceValue s = some s.target
  strong : s.dups = s.frees + if s.value.hasRefCount && !s.linked then 1 else 0
  held : s.dups ≠ s.frees → s.life = .alive

/-- The condition on a step: what is counted up is a reference to a value that is neither
    undefined nor null, that is not being freed, and whose count fits 32 bits. -/
def Sound (s : State) : Act → Prop
  | .ref =>
    s.active = true → s.life ≠ .dying ∧
      (s.life = .alive → s.target.isEmpty = false ∧ s.refCount + 1 < 2 ^ 32)
  | _ => True

/-- What a reference is like in a run of sound steps. -/
structure Inv (s : State) : Prop where
  active : s.active = true → s.life ≠ .gone → s.value = s.target
  cleared : s.active = false ∨ s.life = .gone → s.value = .undefined ∧ s.refCount = 0
  linked : s.linked = true → s.active = true ∧ s.refCount = 0 ∧ s.life ≠ .gone
  count : s.active = true → s.life = .alive → s.refCount = s.expected
  positive : 0 < s.refCount → s.life = .alive ∧ s.target.isEmpty = false ∧ s.refCount < 2 ^ 32
  strong : s.dups = s.frees + if s.value.hasRefCount && !s.linked then 1 else 0
  held : s.value.hasRefCount = true → s.linked = false → s.life = .alive
  counted : s.life ≠ .alive → s.target.hasRefCount = true

theorem undefined_hasRefCount : Value.undefined.hasRefCount = false := rfl

theorem Value.isEmpty_hasRefCount {v : Value} (h : v.isEmpty = true) :
    v.hasRefCount = false := by
  cases v with
  | uninitialized => rfl
  | undefined => rfl
  | null => rfl
  | immediate bits => simp [Value.isEmpty] at h
  | bigint id => simp [Value.isEmpty] at h
  | string id => simp [Value.isEmpty] at h
  | symbol id => simp [Value.isEmpty] at h
  | object id => simp [Value.isEmpty] at h

variable {s : State}

theorem Inv.keeps (inv : Inv s) : Keeps s := by
  refine ⟨inv.count, ?_, inv.strong, ?_⟩
  · intro hpos
    obtain ⟨halive, hempty, _⟩ := inv.positive hpos
    have hactive : s.active = true := by
      cases ha : s.active with
      | true => rfl
      | false => simp [(inv.cleared (.inl ha)).2] at hpos
    have hvalue := inv.active hactive (by simp [halive])
    simp [getReferenceValue, hvalue, hempty, halive]
  · intro hne
    cases hc : s.value.hasRefCount with
    | false => exact absurd inv.strong (by simpa [hc] using hne)
    | true =>
      cases hl : s.linked with
      | true => exact absurd inv.strong (by simpa [hc, hl] using hne)
      | false => exact inv.held hc hl

/-- The reference as it is made, but for one of undefined or null that starts counted. -/
theorem inv_create {target : Value} {initial : UInt32} (attaches : Bool)
    (h : target.isEmpty = true → initial = 0) : Inv (create target initial attaches) := by
  have hlt : initial.toNat < 4294967296 := initial.toNat_lt
  unfold create
  by_cases hpos : 0 < initial.toNat
  · have hempty : target.isEmpty = false := by
      cases he : target.isEmpty with
      | false => rfl
      | true => simp [h he] at hpos
    cases hc : target.hasRefCount with
    | false => constructor <;> simp [hpos, dupValue, hc, hempty, hlt]
    | true => constructor <;> simp [hpos, dupValue, hc, hempty, hlt]
  · have hzero : initial.toNat = 0 := by omega
    cases he : target.isEmpty with
    | true =>
      have hc := Value.isEmpty_hasRefCount he
      constructor <;> simp [hzero, makeWeak, deleteWeakHandle, he, dupValue, hc]
    | false =>
      cases attaches with
      | true => constructor <;> simp [hzero, makeWeak, deleteWeakHandle, he]
      | false =>
        cases hc : target.hasRefCount with
        | false => constructor <;> simp [hzero, makeWeak, deleteWeakHandle, he, dupValue, hc]
        | true => constructor <;> simp [hzero, makeWeak, deleteWeakHandle, he, dupValue, hc]

/-- A reference that is gone counts nothing. -/
theorem Inv.inert (inv : Inv s) (h : s.active = false ∨ s.life = .gone) :
    s.value = .undefined ∧ s.refCount = 0 ∧ s.linked = false := by
  obtain ⟨hvalue, hcount⟩ := inv.cleared h
  refine ⟨hvalue, hcount, ?_⟩
  cases hl : s.linked with
  | false => rfl
  | true =>
    obtain ⟨ha, _, hg⟩ := inv.linked hl
    rcases h with h | h
    · simp [ha] at h
    · exact absurd h hg

/-- What `napi_reference_ref` does to a live reference. -/
theorem addRef_active (ha : s.active = true) (he : s.value.isEmpty = false) :
    addRef s =
      { s with
        refCount := (s.refCount + 1) % 2 ^ 32
        linked := if s.refCount = 0 then false else s.linked
        dups := s.dups +
          if s.refCount = 0 ∧ s.linked = true ∧ s.value.hasRefCount = true then 1 else 0 } := by
  unfold addRef
  by_cases hz : s.refCount = 0
  · cases hl : s.linked with
    | false => simp [he, hz, deleteWeakHandle, ha, increment]
    | true =>
      cases hc : s.value.hasRefCount with
      | false => simp [he, hz, deleteWeakHandle, ha, increment, dupValue, hc]
      | true => simp [he, hz, deleteWeakHandle, ha, increment, dupValue, hc]
  · simp [he, hz, increment]

/-- What `napi_reference_unref` does to a reference that is counted. -/
theorem remRef_positive (attaches : Bool) (ha : s.active = true) (he : s.value.isEmpty = false)
    (hpos : 0 < s.refCount) :
    remRef attaches s =
      { s with
        refCount := s.refCount - 1
        linked := if s.refCount = 1 then attaches else s.linked
        frees := s.frees +
          if s.refCount = 1 ∧ attaches = true ∧ s.value.hasRefCount = true then 1 else 0 } := by
  unfold remRef
  have hne : s.refCount ≠ 0 := by omega
  by_cases hone : s.refCount = 1
  · cases attaches with
    | false => simp [hone, makeWeak, deleteWeakHandle, ha, he]
    | true =>
      cases hc : s.value.hasRefCount with
      | false => simp [hone, makeWeak, deleteWeakHandle, ha, he, freeValue, hc]
      | true => simp [hone, makeWeak, deleteWeakHandle, ha, he, freeValue, hc]
  · have hmore : s.refCount - 1 ≠ 0 := by omega
    simp [hne, hmore, hone]

/-- What deletion and teardown do to a live reference. -/
theorem clearForTeardown_active (ha : s.active = true) :
    clearForTeardown s =
      { s with
        active := false
        value := .undefined
        refCount := 0
        linked := false
        frees := s.frees + if s.value.hasRefCount && !s.linked then 1 else 0 } := by
  unfold clearForTeardown
  cases hc : s.value.hasRefCount with
  | false => simp [ha, deleteWeakHandle, hc]
  | true =>
    have he : s.value.isEmpty = false := by
      cases he : s.value.isEmpty with
      | false => rfl
      | true => simp [Value.isEmpty_hasRefCount he] at hc
    cases hl : s.linked with
    | false => simp [ha, deleteWeakHandle, he, freeValue, hc]
    | true => simp [ha, deleteWeakHandle]

theorem addRef_empty (he : s.value.isEmpty = true) : addRef s = s := by
  simp [addRef, he]

theorem remRef_zero (attaches : Bool) (hz : s.refCount = 0) :
    remRef attaches s = s := by
  simp [remRef, hz]

/-- A reference that is gone stays as it is, whatever is expected of it. -/
theorem Inv.expect (inv : Inv s) (h : s.active = false ∨ s.life ≠ .alive) (expected : ℕ) :
    Inv { s with expected := expected } := by
  refine { inv with count := ?_ }
  intro ha hl
  rcases h with h | h
  · simp [h] at ha
  · exact absurd hl h

theorem inv_ref (inv : Inv s) (sound : Sound s .ref) :
    Inv { addRef s with expected := s.expected + 1 } := by
  by_cases hout : s.active = false ∨ s.life = .gone
  · have hundef : s.value.isEmpty = true := by simp [(inv.inert hout).1, Value.isEmpty]
    rw [addRef_empty hundef]
    apply inv.expect
    rcases hout with h | h
    · exact .inl h
    · exact .inr (by simp [h])
  · obtain ⟨hactive, hgone⟩ := not_or.mp hout
    have ha : s.active = true := by simpa using hactive
    obtain ⟨hdying, hsound⟩ := sound ha
    have halive : s.life = .alive := by
      cases hl : s.life with
      | alive => rfl
      | dying => exact absurd hl hdying
      | gone => exact absurd hl hgone
    obtain ⟨hempty, hfits⟩ := hsound halive
    have hvalue := inv.active ha hgone
    have hmod : (s.refCount + 1) % 2 ^ 32 = s.refCount + 1 := Nat.mod_eq_of_lt hfits
    have hcount := inv.count ha halive
    have hstrong := inv.strong
    rw [addRef_active ha (by simpa [hvalue] using hempty), hmod]
    refine ⟨fun _ _ => hvalue, ?_, ?_, ?_, ?_, ?_, fun _ _ => halive, ?_⟩
    · intro h
      simp [ha, halive] at h
    · -- A reference that is counted is no longer weak, and one that was counted never was.
      intro hl
      by_cases hz : s.refCount = 0
      · simp [hz] at hl
      · simp only [hz, if_false] at hl
        exact absurd (inv.linked hl).2.1 hz
    · intro _ _
      simp [hcount]
    · intro _
      exact ⟨halive, hempty, hfits⟩
    · by_cases hz : s.refCount = 0
      · cases hc : s.value.hasRefCount with
        | false => simpa [hz, hc] using hstrong
        | true =>
          cases hl : s.linked with
          | false => simpa [hz, hc, hl] using hstrong
          | true => simpa [hz, hc, hl] using hstrong
      · simpa [hz] using hstrong
    · intro h
      exact absurd halive h

theorem inv_unref (inv : Inv s) (attaches : Bool) :
    Inv { remRef attaches s with expected := s.expected - 1 } := by
  by_cases hz : s.refCount = 0
  · rw [remRef_zero attaches hz]
    refine { inv with count := ?_ }
    intro ha hl
    have := inv.count ha hl
    simp only
    omega
  · have hpos : 0 < s.refCount := Nat.pos_of_ne_zero hz
    obtain ⟨halive, hempty, hfits⟩ := inv.positive hpos
    have ha : s.active = true := by
      cases ha : s.active with
      | true => rfl
      | false => exact absurd (inv.cleared (.inl ha)).2 hz
    have hvalue := inv.active ha (by simp [halive])
    have hcount := inv.count ha halive
    have hstrong := inv.strong
    have hstrongly : s.linked = false := by
      cases hl : s.linked with
      | false => rfl
      | true => exact absurd (inv.linked hl).2.1 hz
    rw [remRef_positive attaches ha (by simpa [hvalue] using hempty) hpos]
    refine ⟨fun _ _ => hvalue, ?_, ?_, ?_, ?_, ?_, fun _ _ => halive, ?_⟩
    · intro h
      simp [ha, halive] at h
    · intro hl
      by_cases hone : s.refCount = 1
      · exact ⟨ha, by simp [hone], by simp [halive]⟩
      · simp [hone, hstrongly] at hl
    · intro _ _
      simp [hcount]
    · intro _
      refine ⟨halive, hempty, ?_⟩
      simp only
      omega
    · by_cases hone : s.refCount = 1
      · cases hc : s.value.hasRefCount with
        | false => simpa [hone, hc] using hstrong
        | true =>
          cases attaches with
          | false => simpa [hone, hc, hstrongly] using hstrong
          | true => simpa [hone, hc, hstrongly] using hstrong
      · simpa [hone] using hstrong
    · intro h
      exact absurd halive h

theorem inv_beginFree (inv : Inv s) (halive : s.life = .alive) (hc : s.target.hasRefCount = true)
    (hfree : s.dups = s.frees) :
    Inv { s with life := .dying } := by
  -- Nothing is held, so a value that is counted is held weakly.
  have hweak : s.value.hasRefCount = true → s.linked = true := by
    intro hv
    cases hl : s.linked with
    | true => rfl
    | false =>
      have := inv.strong
      simp [hv, hl, hfree] at this
  have hzero : s.refCount = 0 := by
    by_contra hne
    have ha : s.active = true := by
      cases ha : s.active with
      | true => rfl
      | false => exact absurd (inv.cleared (.inl ha)).2 hne
    have hvalue := inv.active ha (by simp [halive])
    exact hne (inv.linked (hweak (by simpa [hvalue] using hc))).2.1
  refine ⟨fun ha _ => inv.active ha (by simp [halive]), ?_, ?_, ?_, ?_, inv.strong, ?_,
    fun _ => hc⟩
  · intro h
    rcases h with h | h
    · exact inv.cleared (.inl h)
    · simp at h
  · intro hl
    exact ⟨(inv.linked hl).1, hzero, by simp⟩
  · intro _ h
    simp at h
  · intro h
    simp [hzero] at h
  · intro hv hl
    simp [hweak hv] at hl

theorem inv_endFree (inv : Inv s) (hdying : s.life = .dying) :
    Inv { (if s.linked then clearWeakTarget s else s) with life := .gone } := by
  cases hl : s.linked with
  | true =>
    have hstrong := inv.strong
    simp only [hl, Bool.not_true, Bool.and_false, Bool.false_eq_true, if_false, if_true]
      at hstrong ⊢
    have hc := inv.counted (by simp [hdying])
    constructor <;> simp [clearWeakTarget, undefined_hasRefCount, hstrong, hc]
  | false =>
    -- Not attached, so the reference was gone before its target.
    have hactive : s.active = false := by
      cases ha : s.active with
      | false => rfl
      | true =>
        have hvalue := inv.active ha (by simp [hdying])
        have hc := inv.counted (by simp [hdying])
        have := inv.held (by simpa [hvalue] using hc) hl
        simp [hdying] at this
    obtain ⟨hvalue, hcount, _⟩ := inv.inert (.inl hactive)
    have hstrong := inv.strong
    have hc := inv.counted (by simp [hdying])
    simp only [hvalue, undefined_hasRefCount, Bool.false_and, Bool.false_eq_true, if_false]
      at hstrong
    constructor <;> simp [hactive, hvalue, hcount, hl, undefined_hasRefCount, hstrong, hc]

theorem inv_clear (inv : Inv s) : Inv (clearForTeardown s) := by
  cases ha : s.active with
  | false => simpa [clearForTeardown, ha] using inv
  | true =>
    have hstrong := inv.strong
    rw [clearForTeardown_active ha]
    refine ⟨?_, ?_, ?_, ?_, ?_, ?_, ?_, inv.counted⟩
    · intro h
      simp at h
    · intro _
      exact ⟨rfl, rfl⟩
    · intro h
      simp at h
    · intro h
      simp at h
    · intro h
      simp at h
    · simpa [undefined_hasRefCount] using hstrong
    · intro h
      simp [undefined_hasRefCount] at h

/-- Sound steps keep the invariant. -/
theorem inv_step {s' : State} {a : Act} (h : step s a = some s') (sound : Sound s a) (inv : Inv s) :
    Inv s' := by
  cases a with
  | ref =>
    simp only [step, Option.some.injEq] at h
    exact h ▸ inv_ref inv sound
  | unref attaches =>
    simp only [step, Option.some.injEq] at h
    exact h ▸ inv_unref inv attaches
  | beginFree =>
    simp only [step] at h
    split_ifs at h with hg
    simp only [Option.some.injEq] at h
    exact h ▸ inv_beginFree inv hg.1 hg.2.1 hg.2.2
  | endFree =>
    by_cases hg : s.life = .dying
    · simp only [step, hg, if_true, Option.some.injEq] at h
      exact h ▸ inv_endFree inv hg
    · simp [step, hg] at h
  | delete =>
    simp only [step, Option.some.injEq] at h
    exact h ▸ inv_clear inv
  | teardown =>
    simp only [step, Option.some.injEq] at h
    exact h ▸ inv_clear inv

/-! ## Unsound steps -/

/-- Counting up a reference while its target is being freed makes it strong again: it holds a
    value that is about to be gone, and will not be told. -/
theorem not_keeps_dying (inv : Inv s) (ha : s.active = true) (hdying : s.life = .dying) :
    ¬ Keeps { addRef s with expected := s.expected + 1 } := by
  intro keeps
  have hvalue := inv.active ha (by simp [hdying])
  have hc : s.value.hasRefCount = true := by
    rw [hvalue]
    exact inv.counted (by simp [hdying])
  have hl : s.linked = true := by
    cases hl : s.linked with
    | true => rfl
    | false =>
      have := inv.held hc hl
      simp [hdying] at this
  have he : s.value.isEmpty = false := by
    cases he : s.value.isEmpty with
    | false => rfl
    | true => simp [Value.isEmpty_hasRefCount he] at hc
  have hstrong := inv.strong
  simp only [hl, Bool.not_true, Bool.and_false, Bool.false_eq_true, if_false, Nat.add_zero]
    at hstrong
  have hheld := keeps.held
  rw [addRef_active ha he] at hheld
  simp [(inv.linked hl).2.1, hl, hc, hstrong, hdying] at hheld

/-- An undefined or null value is not counted up. -/
theorem not_keeps_empty (inv : Inv s) (ha : s.active = true) (halive : s.life = .alive)
    (he : s.target.isEmpty = true) :
    ¬ Keeps { addRef s with expected := s.expected + 1 } := by
  intro keeps
  have hvalue := inv.active ha (by simp [halive])
  have hcount := keeps.count
  rw [addRef_empty (by simpa [hvalue] using he)] at hcount
  have := hcount ha halive
  have := inv.count ha halive
  simp only at *
  omega

/-- A count that is full goes to zero. -/
theorem not_keeps_full (inv : Inv s) (ha : s.active = true) (halive : s.life = .alive)
    (he : s.target.isEmpty = false) (hfull : ¬ s.refCount + 1 < 2 ^ 32) :
    ¬ Keeps { addRef s with expected := s.expected + 1 } := by
  intro keeps
  have hvalue := inv.active ha (by simp [halive])
  have hcount := keeps.count
  rw [addRef_active ha (by simpa [hvalue] using he)] at hcount
  have hwrapped : (s.refCount + 1) % 2 ^ 32 = s.expected + 1 := hcount ha halive
  have hlt := Nat.mod_lt (s.refCount + 1) (by decide : 0 < 2 ^ 32)
  have := inv.count ha halive
  omega

/-- A step keeps what the reference owes exactly when it is sound. -/
theorem keeps_iff_sound (inv : Inv s) (a : Act) :
    (∀ s', step s a = some s' → Keeps s') ↔ Sound s a := by
  constructor
  · intro hkeeps
    cases a with
    | ref =>
      have keeps := hkeeps _ rfl
      intro ha
      refine ⟨fun hdying => not_keeps_dying inv ha hdying keeps, ?_⟩
      intro halive
      cases he : s.target.isEmpty with
      | true => exact absurd keeps (not_keeps_empty inv ha halive he)
      | false =>
        refine ⟨rfl, ?_⟩
        by_contra hfull
        exact not_keeps_full inv ha halive he hfull keeps
    | unref attaches => trivial
    | beginFree => trivial
    | endFree => trivial
    | delete => trivial
    | teardown => trivial
  · intro sound s' h
    exact (inv_step h sound inv).keeps

/-- A reference of undefined or null that starts counted has no value from the start. -/
theorem create_keeps {target : Value} {initial : UInt32} {attaches : Bool}
    (keeps : Keeps (create target initial attaches)) (he : target.isEmpty = true) :
    initial = 0 := by
  have hc := Value.isEmpty_hasRefCount he
  by_contra hne
  have hpos : 0 < initial.toNat := by
    apply Nat.pos_of_ne_zero
    intro hz
    exact hne (UInt32.toNat_inj.mp (by simpa using hz))
  have hvalue := keeps.value
  simp [create, hpos, dupValue, hc, getReferenceValue, he] at hvalue

/-- In every state of a run the count is what N-API asks for, a counted reference yields its
    target, and the engine's count is held and released as it should be, exactly when a
    reference of undefined or null starts uncounted and every step is sound. -/
theorem keeps_iff (target : Value) (initial : UInt32) (attaches : Bool) (acts : List Act) :
    AllStates step Keeps (create target initial attaches) acts ↔
      (target.isEmpty = true → initial = 0) ∧
        AllSteps step Sound (create target initial attaches) acts := by
  have hsteps (inv : Inv (create target initial attaches)) :
      AllSteps step (fun s a => ∀ s', step s a = some s' → Keeps s')
        (create target initial attaches) acts ↔
      AllSteps step Sound (create target initial attaches) acts :=
    allSteps_iff_allSteps (fun s a s' h hok hi => inv_step h hok hi)
      (fun s a hi => keeps_iff_sound hi a) inv
  constructor
  · intro hall
    have hstart := create_keeps hall.1
    exact ⟨hstart, (hsteps (inv_create attaches hstart)).mp hall.2⟩
  · intro hall
    have inv := inv_create attaches hall.1
    exact ⟨inv.keeps, (hsteps inv).mpr hall.2⟩

/-- A reference of undefined with a count of one: its value is not there, and a second
    `napi_reference_ref` is not counted. -/
theorem undefined_not_counted :
    ¬ AllStates step Keeps (create .undefined 1 false) [.ref] := by
  intro hall
  have hvalue := hall.1.value (by decide)
  exact absurd hvalue (by decide)

/-- A finalizer of the same cycle that counts the reference up while the target is freed. -/
theorem dying_not_held :
    ¬ AllStates step Keeps (create (.object 0) 0 true) [.beginFree, .ref] := by
  intro hall
  have hstep : step (create (.object 0) 0 true) .beginFree =
      some { create (.object 0) 0 true with life := .dying } := by decide
  have hlast := (hall.2.2 _ hstep).1 _ rfl
  exact absurd (hlast.held (by decide)) (by decide)

end WasmerNapi.Quickjs.References
