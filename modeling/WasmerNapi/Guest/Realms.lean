import WasmerNapi.Guest.CompatAgree
import WasmerNapi.Guest.Tables

/-!
# The lookups agree

From envs in the same state the two layers' `currentRealm`, `realmFromContext`,
`bytecodeOpenRealm` and `moduleCreateRealm` fail with the same status or name the same realm.
The guest's layer falls behind in two ways: it asks for the global of another realm once more,
and that call may fail too; and it needs room for two ids, without which it fails.
-/

namespace WasmerNapi.Guest.Compat

open Bridge (NapiStatus)
open Fallible Scoped

variable {σ ν : Type} {T : Scoped.Table σ ν} {F : Facts ν} {fails : ℕ → Option Failure}
  {Inv : σ → Prop} {Room : σ → ℕ → Prop}

/-- `id` names `realm`: 0 the env's own, and a live id the realm its value is the global or
    sandbox of. -/
inductive NamesRealm (T : Scoped.Table σ ν) (F : Facts ν) (h : σ) : ℕ → Option ℕ → Prop
  | envOwn : NamesRealm T F h 0 none
  | global {id v realm} : T.load h id = some v → F.realmOf v = some realm →
      NamesRealm T F h id (some realm)

/-- `h'` is `h` with one id more, in the innermost scope. -/
structure OneMore (T : Scoped.Table σ ν) (h : σ) (id : ℕ) (v : ν) (h' : σ) : Prop where
  load : T.load h' id = some v
  others : ∀ other, other ≠ id → T.load h' other = T.load h other
  outer : T.outer h' = T.outer h
  frames : T.frames h' = T.frames h ∨
    ∃ frame ids rest, T.frames h = (frame, ids) :: rest ∧
      T.frames h' = (frame, id ::ₘ ids) :: rest

/-- The guest's layer has left its tables as they were. -/
structure Kept (T : Scoped.Table σ ν) (h : σ) (entered : List (ℕ × Option ℕ)) (s : State σ) :
    Prop where
  same : Same T h s.values
  entered : s.env.entered = entered

/-- How the guest's layer ends, from tables `h` with these realms entered, where the native one
    ends so. `Names` relates an id and a realm that are the same. -/
inductive Agrees (T : Scoped.Table σ ν) (F : Facts ν) (fails : ℕ → Option Failure)
    (Room : σ → ℕ → Prop) (Names : σ → ℕ → Option ℕ → Prop) (h : σ)
    (entered : List (ℕ × Option ℕ)) :
    Except NapiStatus ℕ × State σ → Except NapiStatus (Option ℕ) × State (Cc.Handles ν) → Prop
  | failed {e s t} : Kept T h entered s →
      Agrees T F fails Room Names h entered (.error e, s) (.error e, t)
  | named {id realm s t} : Kept T h entered s → Names s.values id realm →
      Agrees T F fails Room Names h entered (.ok id, s) (.ok realm, t)
  | current {id realm s t} : Elsewhere F entered realm →
      OneMore T h id (F.globalOf (currentOf entered)) s.values → s.env.entered = entered →
      Agrees T F fails Room Names h entered (.ok id, s) (.ok (some realm), t)
  | lastCall {failure realm s t} : Elsewhere F entered realm →
      fails t.env.calls = some failure → Kept T h entered s →
      Agrees T F fails Room Names h entered (.error failure.status, s) (.ok (some realm), t)
  | noRoom {s r} : ¬ Room h 2 → Kept T h entered s →
      Agrees T F fails Room Names h entered (.error .invalidArg, s) r

section Functions

variable {Names : σ → ℕ → Option ℕ → Prop} {h : σ} {c : Cc.Handles ν}
  {entered : List (ℕ × Option ℕ)} {s : State σ} {t : State (Cc.Handles ν)}

theorem Restored.kept (hat : At (Restored T Inv Room h c) entered s t) :
    Kept T h entered s :=
  ⟨hat.values.same, hat.entered⟩

theorem NoRoom.kept {e : NapiStatus} (hnone : NoRoom T Room h entered e s) : Kept T h entered s :=
  ⟨hnone.same, hnone.entered⟩

theorem Before.kept (hat : At (Before h c) entered s t) : Kept T h entered s := by
  obtain ⟨_, hentered, hs, _⟩ := hat
  exact ⟨by rw [hs]; exact ⟨rfl, rfl, fun _ => rfl⟩, hentered⟩

/-- What is stored once the lookup is over is one id more. -/
theorem Restored.oneMore (hT : Lawful T Inv Room) {h' : σ} {c' : Cc.Handles ν} (v : ν)
    (hroom : Room h 1) (hrestored : Restored T Inv Room h c h' c') :
    OneMore T h (T.store h' v).1 v (T.store h' v).2 := by
  obtain ⟨hsame, hinv, hrooms, _⟩ := hrestored
  have hne := (hT.store_room v hinv (hrooms 1 hroom)).1
  refine ⟨hT.store_load v hinv hne, ?_, ?_, ?_⟩
  · intro other hother
    rw [hT.store_other v hinv hother, hsame.load]
  · rw [hT.store_outer v hinv, hsame.outer]
  · have hframes := hT.store_frames v hinv
    rwa [hsame.frames] at hframes

theorem snapiBridgeGetGlobal_cases (s : State σ) :
    (∃ failure s', fails s.env.calls = some failure ∧
      Rs.snapiBridgeGetGlobal T F fails s = (.error failure.status, s') ∧
        s'.values = s.values ∧ s'.env.entered = s.env.entered) ∨
    ∃ v s', v = F.globalOf (currentOf s.env.entered) ∧
      Rs.snapiBridgeGetGlobal T F fails s = (.ok (T.store s.values v).1, s') ∧
        s'.values = (T.store s.values v).2 ∧ s'.env.entered = s.env.entered := by
  unfold Rs.snapiBridgeGetGlobal
  cases hfails : fails s.env.calls with
  | some failure =>
    have hget : engine (napiGetGlobal F fails) s = (.error failure.status,
        { s with env := { s.env with calls := s.env.calls + 1 } }) := by
      unfold engine napiGetGlobal engineCall
      rw [hfails]
    exact Or.inl ⟨failure, _, rfl, bind_error hget, rfl, rfl⟩
  | none =>
    have hget : engine (napiGetGlobal F fails) s = (.ok (F.globalOf (currentOf s.env.entered)),
        { s with env := { s.env with calls := s.env.calls + 1 } }) := by
      unfold engine napiGetGlobal engineCall
      rw [hfails]
    refine Or.inr ⟨F.globalOf (currentOf s.env.entered),
      { env := { s.env with calls := s.env.calls + 1 },
        values := (T.store s.values (F.globalOf (currentOf s.env.entered))).2 }, rfl, ?_, rfl, rfl⟩
    exact bind_ok hget

variable {id : ℕ} {context : Cc.NapiValue ν}

/-- The realm of a context that need not be live. -/
theorem simulates_contextRealm (hzero : ∀ h, T.load h 0 = none) (hcontext : Context T h id context) :
    Simulates (At (Before h c) entered)
      (fun named realm s t => (∃ v, T.load h id = some v ∧ context = .live v ∧
        realm = F.realmOf v) ∧ (named = 0 ↔ realm = none) ∧ (named ≠ 0 → named = id) ∧
          At (Before h c) entered s t)
      (fun _ => At (Before h c) entered) (fun _ _ => False)
      (Rs.realmOf T F fails id) (Cc.getRealm F fails context) := by
  have hdead : T.load h id = none → ∀ s t, At (Before h c) entered s t →
      Rs.realmOf T F fails id s = (.error .invalidArg, s) := by
    intro hload s t hat
    have hs : Rs.load T id s = (.error .invalidArg, s) := by
      rw [Rs.load, hat.values.1, hload]
    exact bind_error hs
  cases hcontext with
  | null =>
    intro s t hat
    rw [hdead (hzero h) s t hat]
    exact .error hat
  | dead _ hload =>
    intro s t hat
    rw [hdead hload s t hat]
    exact .error hat
  | live hload =>
    intro s t hat
    apply (simulates_getRealm hzero _ (fun _ _ _ hat => hat) s t hat).mono
    · intro named realm s t hgot
      obtain ⟨hrealm, hnamed, hid, hat⟩ := hgot
      exact ⟨⟨_, hload, rfl, hrealm⟩, hnamed, hid, hat⟩
    · intro e s t hat
      exact hat
    · intro e s hgaveUp
      exact hgaveUp
    · intro s t hat
      rw [hat.values.1]
      exact Or.inl hload

/-- Whether a context is nullish, as the guest's layer asks it. -/
theorem simulates_isNullish (hzero : ∀ h, T.load h 0 = none) (hcontext : Context T h id context) :
    Simulates (At (Before h c) entered)
      (fun nullish nullish' s t => nullish = nullish'.1 ∧ At (Before h c) entered s t)
      (fun _ _ _ => False) (fun _ _ => False)
      (Rs.isNullish T F fails id) (Cc.isNullish F fails context) := by
  unfold Rs.isNullish
  by_cases hid : id = 0
  · subst hid
    rw [if_pos rfl]
    cases hcontext with
    | null => exact fun s t hat => .ok ⟨rfl, hat⟩
    | dead hne => exact absurd rfl hne
    | live hload =>
      rw [hzero] at hload
      cases hload
  · rw [if_neg hid]
    apply (simulates_typeOf hzero hcontext).map
    intro type nullish s t ⟨hnullish, hat⟩
    refine ⟨?_, hat⟩
    rw [hnullish]
    simp [nullishOf, hid]

variable [DecidableEq ν]

theorem currentRealm_agrees (hT : Lawful T Inv Room) (hh : Inv h) (hat : At (Before h c) entered s t)
    (henvOwn : ∀ h, Names h 0 none) :
    Agrees T F fails Room Names h entered (Rs.currentRealm T F fails s)
      (Cc.currentRealm F fails t) := by
  have hlook : Outcome
      (fun other realm s t => FindsRealm F (Room h 1) entered other realm ∧
        At (Restored T Inv Room h c) entered s t)
      (fun _ => At (Restored T Inv Room h c) entered) (NoRoom T Room h entered)
      (Rs.inLookupScope T F fails (Rs.otherRealm T F fails) s)
      (Cc.inLookupScope F fails (Cc.findCurrentRealm F fails) t) := by
    apply simulates_inLookupScope hT hh (K := fun _ => True) (fun _ _ => trivial) _ s t hat
    intro scope
    exact simulates_findCurrentRealm hT hh
  unfold Rs.currentRealm Cc.currentRealm
  rcases hs : Rs.inLookupScope T F fails (Rs.otherRealm T F fails) s with ⟨r, s'⟩
  rcases ht : Cc.inLookupScope F fails (Cc.findCurrentRealm F fails) t with ⟨r', t'⟩
  rw [hs, ht] at hlook
  cases hlook with
  | error hat' =>
    rw [bind_error hs]
    exact .failed (Restored.kept hat')
  | gaveUp hnone =>
    rw [bind_error hs, hnone.status]
    exact .noRoom hnone.full hnone.kept
  | ok hfound =>
    rename_i other realm
    obtain ⟨hfinds, hat'⟩ := hfound
    rw [bind_ok hs]
    cases other with
    | false =>
      have hrealm : realm = none := hfinds
      rw [hrealm]
      exact .named (Restored.kept hat') (henvOwn _)
    | true =>
      obtain ⟨hroom, current, hcurrent, helsewhere⟩ := hfinds
      rw [hcurrent]
      -- the guest's layer makes the global once more
      show Agrees T F fails Room Names h entered (Rs.snapiBridgeGetGlobal T F fails s') _
      rcases snapiBridgeGetGlobal_cases (T := T) (F := F) s' with
        ⟨failure, s'', hfails, hget, hvalues, hentered⟩ | ⟨v, s'', hv, hget, hvalues, hentered⟩
      · rw [hget]
        refine .lastCall helsewhere ?_ ⟨?_, hentered.trans hat'.entered⟩
        · rw [← hat'.env, hfails]
        · rw [hvalues]
          exact hat'.values.same
      · rw [hget]
        rw [hat'.entered] at hv
        subst hv
        refine .current helsewhere ?_ (hentered.trans hat'.entered)
        rw [hvalues]
        exact hat'.values.oneMore hT _ hroom

/-- A context that is no realm's global or sandbox may still be the env's own global. -/
theorem envContext_agrees (hT : Lawful T Inv Room) (hh : Inv h) (hat : At (Before h c) entered s t)
    (henvOwn : ∀ h, Names h 0 none) {v : ν} (hload : T.load h id = some v) :
    Agrees T F fails Room Names h entered
      ((do
        let envOwn ← Rs.inLookupScope T F fails (Rs.isEnvGlobal T F fails id)
        if envOwn then pure 0 else fail .invalidArg) s)
      ((do
        let envOwn ← Cc.inLookupScope F fails (Cc.isEnvGlobal F fails (.live v))
        if envOwn then pure none else fail .invalidArg) t) := by
  have hlook : Outcome
      (fun own own' s t => own = own' ∧ At (Restored T Inv Room h c) entered s t)
      (fun _ => At (Restored T Inv Room h c) entered) (NoRoom T Room h entered)
      (Rs.inLookupScope T F fails (Rs.isEnvGlobal T F fails id) s)
      (Cc.inLookupScope F fails (Cc.isEnvGlobal F fails (.live v)) t) := by
    apply simulates_inLookupScope hT hh (K := fun h' => T.load h' id = some v) _ _ s t hat
    · intro h' hsame
      rw [hsame, hload]
    · intro scope s t hat
      apply (simulates_isEnvGlobal hT hh (Nat.zero_le 1) _ _ s t hat).mono
      · intro own own' s t ⟨heq, _, hat⟩
        exact ⟨heq, 1, hat⟩
      · intro e s t hfails
        exact hfails
      · intro e s hgives
        exact hgives
      · intro h' hload
        exact Or.inl hload
      · intro h' w hinv hload
        exact hT.load_stored hinv hload w
  rcases hs : Rs.inLookupScope T F fails (Rs.isEnvGlobal T F fails id) s with ⟨r, s'⟩
  rcases ht : Cc.inLookupScope F fails (Cc.isEnvGlobal F fails (.live v)) t with ⟨r', t'⟩
  rw [hs, ht] at hlook
  cases hlook with
  | error hat' =>
    rw [bind_error hs, bind_error ht]
    exact .failed (Restored.kept hat')
  | gaveUp hnone =>
    rw [bind_error hs, hnone.status]
    exact .noRoom hnone.full hnone.kept
  | ok hown =>
    rename_i own own'
    obtain ⟨heq, hat'⟩ := hown
    subst heq
    rw [bind_ok hs, bind_ok ht]
    cases own with
    | true => exact .named (Restored.kept hat') (henvOwn _)
    | false => exact .failed (Restored.kept hat')

theorem realmFromContext_agrees (hT : Lawful T Inv Room) (hh : Inv h)
    (hat : At (Before h c) entered s t) (henvOwn : ∀ h, Names h 0 none)
    (hglobal : ∀ {h id v realm}, T.load h id = some v → F.realmOf v = some realm →
      Names h id (some realm)) (hcontext : Context T h id context) (nullishIsCurrent : Bool) :
    Agrees T F fails Room Names h entered (Rs.realmFromContext T F fails id nullishIsCurrent s)
      (Cc.realmFromContext F fails context nullishIsCurrent t) := by
  have htyped : Outcome
      (fun type nullish s t => nullish = nullishOf id type ∧ At (Before h c) entered s t)
      (fun _ _ _ => False) (fun _ _ => False)
      (Rs.typeOf T F fails id s) (Cc.isNullish F fails context t) :=
    simulates_typeOf hT.load_zero hcontext s t hat
  unfold Rs.realmFromContext Cc.realmFromContext
  rcases hs : Rs.typeOf T F fails id s with ⟨r, s'⟩
  rcases ht : Cc.isNullish F fails context t with ⟨r', t'⟩
  rw [hs, ht] at htyped
  cases htyped with
  | error h => exact h.elim
  | gaveUp h => exact h.elim
  | ok htyped =>
    rename_i type nullish
    obtain ⟨hnullish, hat'⟩ := htyped
    rw [bind_ok hs, bind_ok ht, hnullish]
    by_cases hnull : (type = none ∧ id = 0) ∨ type = some .undefined ∨ type = some .null
    · have hnull' : (nullishOf id type).1 = true := decide_eq_true hnull
      rw [if_pos hnull, if_pos hnull']
      cases nullishIsCurrent with
      | true => exact currentRealm_agrees hT hh hat' henvOwn
      | false => exact .named (Before.kept hat') (henvOwn _)
    have hnull' : ¬ (nullishOf id type).1 = true := by
      unfold nullishOf
      rw [decide_eq_true_iff]
      exact hnull
    rw [if_neg hnull, if_neg hnull']
    by_cases hobject : type = some .object ∨ type = some .function
    · have hobject' : ¬ ((nullishOf id type).2 ≠ .object ∧ (nullishOf id type).2 ≠ .function) := by
        rcases hobject with htype | htype
        · rw [htype]
          exact fun h => h.1 rfl
        · rw [htype]
          exact fun h => h.2 rfl
      rw [if_pos hobject, if_neg hobject']
      have hrealm : Outcome
          (fun named realm s t => (∃ v, T.load h id = some v ∧ context = .live v ∧
            realm = F.realmOf v) ∧ (named = 0 ↔ realm = none) ∧ (named ≠ 0 → named = id) ∧
              At (Before h c) entered s t)
          (fun _ => At (Before h c) entered) (fun _ _ => False)
          (Rs.realmOf T F fails id s') (Cc.getRealm F fails context t') :=
        simulates_contextRealm hT.load_zero hcontext s' t' hat'
      rcases hs' : Rs.realmOf T F fails id s' with ⟨r, s''⟩
      rcases ht' : Cc.getRealm F fails context t' with ⟨r', t''⟩
      rw [hs', ht'] at hrealm
      have hattempt : attempt (Rs.realmOf T F fails id) s' = (.ok r, s'') := by
        rw [attempt, hs']
      have hattempt' : attempt (Cc.getRealm F fails context) t' = (.ok r', t'') := by
        rw [attempt, ht']
      rw [bind_ok hattempt, bind_ok hattempt']
      cases hrealm with
      | gaveUp h => exact h.elim
      | error hat'' => exact .failed (Before.kept hat'')
      | ok hrealm =>
        rename_i named realm
        obtain ⟨⟨v, hload, hlive, hrealm⟩, hnamed, hid, hat''⟩ := hrealm
        cases realm with
        | none =>
          have hzero := hnamed.2 rfl
          subst hzero hlive
          exact envContext_agrees hT hh hat'' henvOwn hload
        | some realm =>
          have hne : named ≠ 0 := fun hzero => Option.some_ne_none realm (hnamed.1 hzero)
          have heq := hid hne
          subst heq
          show Agrees T F fails Room Names h entered
            ((if named ≠ 0 then pure named else _ : Fallible NapiStatus (State σ) ℕ) s'') _
          rw [if_pos hne]
          refine .named (Before.kept hat'') (hglobal ?_ hrealm.symm)
          rw [hat''.values.1, hload]
    · have hobject' : (nullishOf id type).2 ≠ .object ∧ (nullishOf id type).2 ≠ .function := by
        cases type with
        | none => exact ⟨ValueType.noConfusion, ValueType.noConfusion⟩
        | some type =>
          constructor
          · intro htype
            exact hobject (Or.inl (congrArg some htype))
          · intro htype
            exact hobject (Or.inr (congrArg some htype))
      rw [if_neg hobject, if_pos hobject']
      exact .failed (Before.kept hat')

/-! ## Options -/

/-- The versions and sizes the decoders accept. -/
def Cc.BytecodeOpenOptions.Accepted (options : Cc.BytecodeOpenOptions) : Prop :=
  (options.version = 1 ∧ Cc.bytecodeOpenOptionsV1Size ≤ options.size) ∨
    (options.version = 2 ∧ Cc.bytecodeOpenOptionsSize ≤ options.size)

def Cc.ModuleCreateOptions.Accepted (options : Cc.ModuleCreateOptions ν) : Prop :=
  (options.version = 1 ∧ Cc.moduleCreateOptionsV1Size ≤ options.size) ∨
    (options.version = 2 ∧ Cc.moduleCreateOptionsSize ≤ options.size)

theorem bytecodeOpenRealm_agrees (hT : Lawful T Inv Room) (hh : Inv h)
    (hat : At (Before h c) entered s t) (henvOwn : ∀ h, Names h 0 none)
    {options : Cc.BytecodeOpenOptions} (haccepted : options.Accepted) {realmId : ℕ}
    (hgiven : ∀ h, Names h realmId options.realmOrNull) :
    Agrees T F fails Room Names h entered
      (Rs.bytecodeOpenRealm T F fails options.version realmId s)
      (Cc.bytecodeOpenRealm F fails (some options) t) := by
  unfold Rs.bytecodeOpenRealm Cc.bytecodeOpenRealm
  dsimp only
  rcases haccepted with ⟨hversion, hsize⟩ | ⟨hversion, hsize⟩
  · rw [if_pos hversion, if_pos hversion, if_neg (Nat.not_lt.2 hsize)]
    exact currentRealm_agrees hT hh hat henvOwn
  · have hv1 : options.version ≠ 1 := by
      rw [hversion]
      exact Nat.succ_ne_self 1
    have hv2 : ¬ (options.version ≠ 2 ∨ options.size < Cc.bytecodeOpenOptionsSize) :=
      not_or.2 ⟨not_not.2 hversion, Nat.not_lt.2 hsize⟩
    rw [if_neg hv1, if_neg hv1, if_neg hv2]
    exact .named (Before.kept hat) (hgiven _)

theorem moduleCreateRealm_agrees (hT : Lawful T Inv Room) (hh : Inv h)
    (hat : At (Before h c) entered s t) (henvOwn : ∀ h, Names h 0 none)
    (hglobal : ∀ {h id v realm}, T.load h id = some v → F.realmOf v = some realm →
      Names h id (some realm)) {options : Cc.ModuleCreateOptions ν} (haccepted : options.Accepted)
    {realmId : ℕ} (hcontext : Context T h id options.contextOrUndefined)
    (hnull : realmId = 0 ↔ options.realmOrNull = none)
    (hgiven : ∀ h, Names h realmId options.realmOrNull) :
    Agrees T F fails Room Names h entered
      (Rs.moduleCreateRealm T F fails options.version id realmId s)
      (Cc.moduleCreateRealm F fails (some options) t) := by
  have hsizes : ¬ (if options.version = 1 then options.size < Cc.moduleCreateOptionsV1Size
      else options.version ≠ 2 ∨ options.size < Cc.moduleCreateOptionsSize) := by
    rcases haccepted with ⟨hversion, hsize⟩ | ⟨hversion, hsize⟩
    · rw [if_pos hversion]
      exact Nat.not_lt.2 hsize
    · rw [if_neg (by rw [hversion]; exact Nat.succ_ne_self 1)]
      exact not_or.2 ⟨not_not.2 hversion, Nat.not_lt.2 hsize⟩
  have hboth : (2 ≤ options.version ∧ realmId ≠ 0) ↔
      (¬ options.version = 1 ∧ options.realmOrNull ≠ none) := by
    have hversion : 2 ≤ options.version ↔ ¬ options.version = 1 := by
      rcases haccepted with ⟨hversion, _⟩ | ⟨hversion, _⟩
      · simp [hversion]
      · simp [hversion]
    rw [hversion, ne_eq, ne_eq, hnull]
  unfold Rs.moduleCreateRealm Cc.moduleCreateRealm
  dsimp only
  rw [if_neg hsizes]
  by_cases hgivenRealm : 2 ≤ options.version ∧ realmId ≠ 0
  · rw [if_pos hgivenRealm, if_pos (hboth.1 hgivenRealm)]
    have hasked : Outcome
        (fun nullish nullish' s t => nullish = nullish'.1 ∧ At (Before h c) entered s t)
        (fun _ _ _ => False) (fun _ _ => False)
        (Rs.isNullish T F fails id s) (Cc.isNullish F fails options.contextOrUndefined t) :=
      simulates_isNullish hT.load_zero hcontext s t hat
    rcases hs : Rs.isNullish T F fails id s with ⟨r, s'⟩
    rcases ht : Cc.isNullish F fails options.contextOrUndefined t with ⟨r', t'⟩
    rw [hs, ht] at hasked
    cases hasked with
    | error h => exact h.elim
    | gaveUp h => exact h.elim
    | ok hasked =>
      rename_i nullish nullish'
      obtain ⟨heq, hat'⟩ := hasked
      subst heq
      rw [bind_ok hs, bind_ok ht]
      cases nullish'.1 with
      | true => exact .named (Before.kept hat') (hgiven _)
      | false => exact .failed (Before.kept hat')
  · rw [if_neg hgivenRealm, if_neg (mt hboth.2 hgivenRealm)]
    exact realmFromContext_agrees hT hh hat henvOwn hglobal hcontext _

theorem Cc.restores_bytecodeOpenRealm (options : Option Cc.BytecodeOpenOptions) :
    Cc.Restores (Cc.bytecodeOpenRealm F fails options) := by
  cases options with
  | none => exact Cc.restores_fail .invalidArg
  | some options =>
    unfold Cc.bytecodeOpenRealm
    dsimp only
    split
    · split
      · exact Cc.restores_fail .invalidArg
      · exact Cc.restores_currentRealm
    · split
      · exact Cc.restores_fail .invalidArg
      · exact Cc.restores_pure _

theorem Cc.restores_moduleCreateRealm (options : Option (Cc.ModuleCreateOptions ν)) :
    Cc.Restores (Cc.moduleCreateRealm F fails options) := by
  cases options with
  | none => exact Cc.restores_fail .invalidArg
  | some options =>
    have hsized : Cc.Restores (if ¬ options.version = 1 ∧ options.realmOrNull ≠ none then do
          let nullish ← Cc.isNullish F fails options.contextOrUndefined
          if !nullish.1 then fail .invalidArg else pure options.realmOrNull
        else Cc.realmFromContext F fails options.contextOrUndefined
          (decide (options.version = 1))) := by
      split
      · apply (Cc.restores_isNullish _).bind
        intro nullish
        split
        · exact Cc.restores_fail .invalidArg
        · exact Cc.restores_pure _
      · exact Cc.restores_realmFromContext _ _
    unfold Cc.moduleCreateRealm
    dsimp only
    split
    · split
      · exact Cc.restores_fail .invalidArg
      · exact hsized
    · split
      · exact Cc.restores_fail .invalidArg
      · exact hsized

/-! ## The layers -/

/-- Two lookups agree, and the native one leaves nothing. -/
def Agree (T : Scoped.Table σ ν) (F : Facts ν) (fails : ℕ → Option Failure) (Room : σ → ℕ → Prop)
    (Names : σ → ℕ → Option ℕ → Prop) (s : State σ) (t : State (Cc.Handles ν))
    (x : Fallible NapiStatus (State σ) ℕ)
    (y : Fallible NapiStatus (State (Cc.Handles ν)) (Option ℕ)) : Prop :=
  Agrees T F fails Room Names s.values s.env.entered (x s) (y t) ∧
    (y t).2.values = t.values ∧ (y t).2.env.entered = t.env.entered

/-- `realmId` names the realm a caller gives: it is the one the other layer is given. -/
def NamesGiven (T : Scoped.Table σ ν) (F : Facts ν) (realmId : ℕ) (realmOrNull : Option ℕ) (h : σ)
    (id : ℕ) (realm : Option ℕ) : Prop :=
  NamesRealm T F h id realm ∨ (id = realmId ∧ realm = realmOrNull)

structure LayersAgree (T : Scoped.Table σ ν) (F : Facts ν) (fails : ℕ → Option Failure)
    (Room : σ → ℕ → Prop) (s : State σ) (t : State (Cc.Handles ν)) : Prop where
  currentRealm : Agree T F fails Room (NamesRealm T F) s t (Rs.currentRealm T F fails)
    (Cc.currentRealm F fails)
  realmFromContext : ∀ {id context}, Context T s.values id context → ∀ nullishIsCurrent,
    Agree T F fails Room (NamesRealm T F) s t (Rs.realmFromContext T F fails id nullishIsCurrent)
      (Cc.realmFromContext F fails context nullishIsCurrent)
  bytecodeOpenRealm : ∀ {options : Cc.BytecodeOpenOptions}, options.Accepted → ∀ {realmId},
    (realmId = 0 ↔ options.realmOrNull = none) →
      Agree T F fails Room (NamesGiven T F realmId options.realmOrNull) s t
        (Rs.bytecodeOpenRealm T F fails options.version realmId)
        (Cc.bytecodeOpenRealm F fails (some options))
  moduleCreateRealm : ∀ {options : Cc.ModuleCreateOptions ν}, options.Accepted → ∀ {id realmId},
    Context T s.values id options.contextOrUndefined →
      (realmId = 0 ↔ options.realmOrNull = none) →
      Agree T F fails Room (NamesGiven T F realmId options.realmOrNull) s t
        (Rs.moduleCreateRealm T F fails options.version id realmId)
        (Cc.moduleCreateRealm F fails (some options))

theorem layersAgree (hT : Lawful T Inv Room) (hs : Inv s.values) (henv : s.env = t.env) :
    LayersAgree T F fails Room s t := by
  have hat : At (Before s.values t.values) s.env.entered s t := ⟨henv, rfl, rfl, rfl⟩
  have hnames : ∀ {h id v realm}, T.load h id = some v → F.realmOf v = some realm →
      NamesRealm T F h id (some realm) := NamesRealm.global
  refine ⟨?_, ?_, ?_, ?_⟩
  · exact ⟨currentRealm_agrees hT hs hat fun h => .envOwn, Cc.restores_currentRealm t⟩
  · intro id context hcontext nullishIsCurrent
    exact ⟨realmFromContext_agrees hT hs hat (fun h => .envOwn) hnames hcontext nullishIsCurrent,
      Cc.restores_realmFromContext context nullishIsCurrent t⟩
  · intro options haccepted realmId _
    exact ⟨bytecodeOpenRealm_agrees hT hs hat (fun h => Or.inl .envOwn) haccepted
      fun h => Or.inr ⟨rfl, rfl⟩, Cc.restores_bytecodeOpenRealm _ t⟩
  · intro options haccepted id realmId hcontext hnull
    exact ⟨moduleCreateRealm_agrees hT hs hat (fun h => Or.inl .envOwn)
      (fun hload hrealm => Or.inl (hnames hload hrealm)) haccepted hcontext hnull
      fun h => Or.inr ⟨rfl, rfl⟩, Cc.restores_moduleCreateRealm _ t⟩

end Functions

/-- **The two layers agree**, for a guest of either kind of agent: on every env state, every
    context, every options the decoders accept and every failure of the calls they make. -/
theorem layers_agree {ν : Type} [DecidableEq ν] (F : Facts ν) (G : Facts HostJs.JsValue)
    (fails : ℕ → Option Failure) :
    (∀ (s : State (Agent.State ν)) (t : State (Cc.Handles ν)), Agent.Tabled [] [] s.values →
      s.env = t.env → LayersAgree (Tables.agentTable ν) F fails Tables.HasRoom s t) ∧
    ∀ (s : State HostJs.HostJsAgent) (t : State (Cc.Handles HostJs.JsValue)),
      Tables.Handled s.values → s.env = t.env →
        LayersAgree Tables.hostJsTable G fails Tables.HasHandles s t := by
  constructor
  · intro s t hs henv
    exact layersAgree Tables.agentTable_lawful hs henv
  · intro s t hs henv
    exact layersAgree Tables.hostJsTable_lawful hs henv

/-- An engine whose realm 1 has the global 1. -/
def twoRealms : Facts ℕ where
  typeOf _ := .object
  realmOf v := if v = 1 then some 1 else none
  globalOf realm := realm.getD 0
  scopeFor calls := calls + 100

theorem twoRealms_agree :
    LayersAgree (Tables.agentTable ℕ) twoRealms (fun _ => none) Tables.HasRoom
      { env := { entered := [(0, some 1)] }, values := { valueLimit := 8 } }
      { env := { entered := [(0, some 1)] }, values := [[]] } :=
  (layers_agree twoRealms ⟨fun _ => .object, fun _ => none, fun _ => .undefined, id⟩
    fun _ => none).1 _ _ (Agent.tabled_init 8) rfl

/-- In realm 1 the seventh call fails: the guest's layer alone makes one. -/
theorem lastCall_not_agree :
    (Rs.currentRealm (Tables.agentTable ℕ) twoRealms
      (fun n => if n = 6 then some ⟨.genericFailure, NapiStatus.noConfusion⟩ else none)
      { env := { entered := [(0, some 1)] }, values := {} }).1 = .error .genericFailure ∧
    (Cc.currentRealm twoRealms
      (fun n => if n = 6 then some ⟨.genericFailure, NapiStatus.noConfusion⟩ else none)
      { env := { entered := [(0, some 1)] }, values := [] }).1 = .ok (some 1) := by
  decide

end WasmerNapi.Guest.Compat
