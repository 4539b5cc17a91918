import WasmerNapi.Guest.Compat

/-!
# The two layers agree

Both layers run from envs in the same state, call by call. `At V entered` relates their states:
the same env, with these realms entered, and tables that `V` relates. The guest's layer gives up
only when its table has no room for an id.
-/

namespace WasmerNapi.Guest.Compat

open Bridge (NapiStatus)
open Fallible Scoped

section Calls

variable {σ ν : Type} {T : Scoped.Table σ ν} {F : Facts ν}
  {fails : ℕ → Option Failure} {Inv : σ → Prop} {Room : σ → ℕ → Prop}

/-- The two layers are at the same point. -/
structure At (V : σ → Cc.Handles ν → Prop) (entered : List (ℕ × Option ℕ)) (s : State σ)
    (t : State (Cc.Handles ν)) : Prop where
  env : s.env = t.env
  entered : s.env.entered = entered
  values : V s.values t.values

variable {V : σ → Cc.Handles ν → Prop} {entered : List (ℕ × Option ℕ)} {α β γ : Type}
  {E : NapiStatus → State σ → State (Cc.Handles ν) → Prop} {G : NapiStatus → State σ → Prop}

/-- A call that leaves the env alone, apart from being counted. -/
theorem simulates_engine {r : Env → Except NapiStatus α} {P : α → Prop}
    (hP : ∀ env a, env.entered = entered → r env = .ok a → P a)
    (hE : ∀ e s t, At V entered s t → E e s t) :
    Simulates (At V entered) (fun a b s t => a = b ∧ P a ∧ At V entered s t) E G
      (engine (engineCall fails fun env => (r env, env)))
      (engine (engineCall fails fun env => (r env, env))) := by
  intro s t h
  obtain ⟨henv, hentered, hvalues⟩ := h
  unfold engine engineCall
  rw [← henv]
  cases hfails : fails s.env.calls with
  | some failure => exact .error (hE _ _ _ ⟨rfl, hentered, hvalues⟩)
  | none =>
    dsimp only
    cases hr : r { s.env with calls := s.env.calls + 1 } with
    | ok a => exact .ok ⟨rfl, hP { s.env with calls := s.env.calls + 1 } a hentered hr, rfl, hentered, hvalues⟩
    | error e => exact .error (hE _ _ _ ⟨rfl, hentered, hvalues⟩)

/-- A load has no counterpart: the value is there, or the table had no room for it. -/
theorem simulates_load {id : ℕ} {v : ν} {f : ν → Fallible NapiStatus (State σ) α}
    {y : Fallible NapiStatus (State (Cc.Handles ν)) β}
    {Q : α → β → State σ → State (Cc.Handles ν) → Prop}
    (hnamed : ∀ s t, At V entered s t → T.load s.values id = some v ∨
      T.load s.values id = none ∧ G .invalidArg s)
    (hf : Simulates (At V entered) Q E G (f v) y) :
    Simulates (At V entered) Q E G (Rs.load T id >>= f) y := by
  intro s t h
  rcases hnamed s t h with hload | ⟨hload, hG⟩
  · have hs : Rs.load T id s = (.ok v, s) := by rw [Rs.load, hload]
    rw [bind_ok hs]
    exact hf s t h
  · have hs : Rs.load T id s = (.error .invalidArg, s) := by rw [Rs.load, hload]
    rw [bind_error hs]
    exact .gaveUp hG

end Calls

section

variable {σ ν : Type} {T : Scoped.Table σ ν} {F : Facts ν} {fails : ℕ → Option Failure}
  {V : σ → Cc.Handles ν → Prop} {entered : List (ℕ × Option ℕ)} {id : ℕ} {v : ν}
  {E : NapiStatus → State σ → State (Cc.Handles ν) → Prop} {G : NapiStatus → State σ → Prop}

/-- The guest's realm id is the value's own, when the value is the global or sandbox of one. -/
theorem simulates_getRealm (hzero : ∀ h, T.load h 0 = none)
    (hnamed : ∀ s t, At V entered s t → T.load s.values id = some v ∨
      T.load s.values id = none ∧ G .invalidArg s)
    (hE : ∀ e s t, At V entered s t → E e s t) :
    Simulates (At V entered)
      (fun named realm s t => realm = F.realmOf v ∧ (named = 0 ↔ realm = none) ∧
        (named ≠ 0 → named = id) ∧ At V entered s t) E G
      (Rs.realmOf T F fails id) (Cc.getRealm F fails (.live v)) := by
  unfold Rs.realmOf Rs.snapiBridgeUnofficialGetRealm
  by_cases hid : id = 0
  · intro s t hat
    rcases hnamed s t hat with hload | ⟨hload, hG⟩
    · rw [hid, hzero] at hload
      cases hload
    · have hs : Rs.load T id s = (.error .invalidArg, s) := by rw [Rs.load, hload]
      rw [bind_error hs]
      exact .gaveUp hG
  apply simulates_load hnamed
  refine Simulates.map (simulates_engine (P := fun realm => realm = F.realmOf v) ?_ hE) ?_
  · intro env realm _ hrealm
    split at hrealm
    · exact (Except.ok.inj hrealm).symm
    · cases hrealm
  · intro realm realm' s t ⟨heq, hrealm, hat⟩
    subst heq
    refine ⟨hrealm, ?_, ?_, hat⟩
    · by_cases hnone : realm = none
      · simp [hnone]
      · simp [hnone, hid]
    · intro hne
      rw [if_pos]
      intro hnone
      rw [if_neg (not_not.2 hnone)] at hne
      exact hne rfl

end

/-! ## Inside a lookup -/

section Lookup

variable {σ ν : Type} {T : Scoped.Table σ ν} {F : Facts ν}
  {fails : ℕ → Option Failure} {Inv : σ → Prop} {Room : σ → ℕ → Prop}

/-- The tables in a lookup's own scope, with `n` values made there; `K` is what else is known of
    the guest's. -/
structure Inside (T : Scoped.Table σ ν) (h : σ) (c : Cc.Handles ν) (scope n : ℕ) (K : σ → Prop)
    (h' : σ) (c' : Cc.Handles ν) : Prop where
  above : Above T h scope n h'
  native : ∃ frame, c' = frame :: c
  known : K h'

/-- A failure inside a lookup leaves nothing but what its scope takes away. -/
def FailsInside (T : Scoped.Table σ ν) (h : σ) (c : Cc.Handles ν) (scope : ℕ)
    (entered : List (ℕ × Option ℕ)) (_ : NapiStatus) (s : State σ) (t : State (Cc.Handles ν)) :
    Prop :=
  ∃ n, At (Inside T h c scope n fun _ => True) entered s t

/-- The guest's layer gives up with `napi_invalid_arg`, when the table had no room for two ids. -/
structure GivesUp (T : Scoped.Table σ ν) (Room : σ → ℕ → Prop) (h : σ) (scope : ℕ)
    (entered : List (ℕ × Option ℕ)) (e : NapiStatus) (s : State σ) : Prop where
  status : e = .invalidArg
  full : ¬ Room h 2
  entered : s.env.entered = entered
  above : ∃ n, Above T h scope n s.values

/-- The id names the value, or there was no room for it. -/
def Named (T : Scoped.Table σ ν) (Room : σ → ℕ → Prop) (h : σ) (id : ℕ) (v : ν) (h' : σ) : Prop :=
  T.load h' id = some v ∨ id = 0 ∧ ¬ Room h 2

variable {h : σ} {c : Cc.Handles ν} {scope n : ℕ} {K : σ → Prop} {entered : List (ℕ × Option ℕ)}
  {s : State σ} {t : State (Cc.Handles ν)}

theorem At.failsInside (hat : At (Inside T h c scope n K) entered s t) (e : NapiStatus) :
    FailsInside T h c scope entered e s t :=
  ⟨n, hat.env, hat.entered, hat.values.above, hat.values.native, trivial⟩

theorem Named.stored (hT : Lawful T Inv Room) {h' : σ} (hh : Inv h') {id : ℕ} {v w : ν}
    (hnamed : Named T Room h id v h') : Named T Room h id v (T.store h' w).2 := by
  rcases hnamed with hload | hfull
  · exact Or.inl (hT.load_stored hh hload w)
  · exact Or.inr hfull

/-- What `simulates_load` asks of a value that is named. -/
theorem At.named (hT : Lawful T Inv Room) {id : ℕ} {v : ν}
    (hK : K s.values → Named T Room h id v s.values)
    (hat : At (Inside T h c scope n K) entered s t) :
    T.load s.values id = some v ∨
      T.load s.values id = none ∧ GivesUp T Room h scope entered .invalidArg s := by
  rcases hK hat.values.known with hload | ⟨rfl, hfull⟩
  · exact Or.inl hload
  · exact Or.inr ⟨hT.load_zero _, rfl, hfull, hat.entered, n, hat.values.above⟩

/-- The first value stored in a lookup tells that there was room for one. -/
theorem room_of_stored (hT : Lawful T Inv Room) (hh : Inv h) {h' : σ} {v : ν}
    (habove : Above T h scope 0 h') (hne : (T.store h' v).1 ≠ 0) : Room h 1 := by
  have hroom := hT.store_full v (hT.inv_above hh habove) hne
  generalize hm : (0 : ℕ) = m at habove
  cases habove with
  | opened p hopen =>
    apply (hT.open_room p hh).1
    rwa [hopen]
  | stored v habove => cases hm

/-- Both make the current global; the guest's layer has an id for it. -/
theorem simulates_getGlobal (hT : Lawful T Inv Room) (hh : Inv h) (hn : n ≤ 1)
    (hK : ∀ {h'} v, Inv h' → K h' → K (T.store h' v).2) :
    Simulates (At (Inside T h c scope n K) entered)
      (fun id v s t => v = F.globalOf (currentOf entered) ∧
        (n = 0 → id ≠ 0 → Room h 1) ∧
          At (Inside T h c scope (n + 1) fun h' => K h' ∧ Named T Room h id v h') entered s t)
      (FailsInside T h c scope entered) (GivesUp T Room h scope entered)
      (Rs.snapiBridgeGetGlobal T F fails) (Cc.getGlobal F fails) := by
  refine Simulates.bind (simulates_engine (P := fun v => v = F.globalOf (currentOf entered))
    ?_ fun e s t hat => hat.failsInside e) ?_
  · intro env v hentered hv
    rw [← hentered]
    exact (Except.ok.inj hv).symm
  · rintro v _ s t ⟨rfl, hv, hat⟩
    obtain ⟨habove, ⟨frame, hframe⟩, hknown⟩ := hat.values
    have hinv : Inv s.values := hT.inv_above hh habove
    refine .ok ⟨hv, ?_, hat.env, hat.entered, .stored v habove, ⟨v :: frame, ?_⟩,
      hK v hinv hknown, ?_⟩
    · intro hn
      subst hn
      exact room_of_stored hT hh habove
    · show Cc.wrapValue v t.values = _
      rw [hframe]
      rfl
    · by_cases hzero : (T.store s.values v).1 = 0
      · refine Or.inr ⟨hzero, fun hroom => ?_⟩
        have hroom' : Room s.values (2 - n) :=
          hT.room_above hh habove (by rwa [Nat.add_sub_cancel' (by omega)])
        rw [show 2 - n = (1 - n) + 1 by omega] at hroom'
        exact (hT.store_room v hinv hroom').1 hzero
      · exact Or.inl (hT.store_load v hinv hzero)

/-! ### The env's own global -/

/-- A realm scope is left. -/
def State.leaveTo {ρ : Type} (entered : List (ℕ × Option ℕ)) (u : State ρ) : State ρ :=
  { u with env := { u.env with entered := entered } }

/-- In the env's own realm, entered for it and left again. -/
theorem simulates_envGlobal (hT : Lawful T Inv Room) (hh : Inv h) (hn : n ≤ 1)
    (hK : ∀ {h'} v, Inv h' → K h' → K (T.store h' v).2) :
    Simulates (At (Inside T h c scope n K) entered)
      (fun id v s t => v = F.globalOf none ∧
        At (Inside T h c scope (n + 1) fun h' => K h' ∧ Named T Room h id v h') entered s t)
      (FailsInside T h c scope entered) (GivesUp T Room h scope entered)
      (Rs.envGlobal T F fails) (Cc.envGlobal F fails) := by
  -- the realm scope is the innermost one as long as the body runs
  have hleave : ∀ {ρ : Type} {token : ℕ} (u : State ρ), token ≠ 0 →
      u.env.entered = (token, none) :: entered →
      engine (unofficialNapiLeaveRealm token) u = (.ok (), u.leaveTo entered) := by
    intro ρ token u hne hentered
    unfold engine unofficialNapiLeaveRealm State.leaveTo
    rw [hentered, if_pos ⟨hne, rfl⟩]
    rfl
  apply Simulates.bracket
    (A := fun k l s t => k = l ∧ k ≠ 0 ∧ At (Inside T h c scope n K) ((k, none) :: entered) s t)
    (B := fun k l id v s t => k = l ∧ k ≠ 0 ∧ v = F.globalOf none ∧
      At (Inside T h c scope (n + 1) fun h' => K h' ∧ Named T Room h id v h')
        ((k, none) :: entered) s t)
    (F := fun k l e s t => k = l ∧ k ≠ 0 ∧ FailsInside T h c scope ((k, none) :: entered) e s t)
    (H := fun k e s => k ≠ 0 ∧ GivesUp T Room h scope ((k, none) :: entered) e s)
  · -- entering
    rintro s t ⟨henv, hentered, hvalues⟩
    unfold Rs.snapiBridgeUnofficialEnterEnvRealm unofficialNapiEnterRealm engine engineCall
    rw [← henv]
    cases fails s.env.calls with
    | some failure =>
      exact .error ⟨n, rfl, hentered, hvalues.above, hvalues.native, trivial⟩
    | none =>
      refine .ok ⟨rfl, Nat.succ_ne_zero _, rfl, ?_, hvalues⟩
      rw [← hentered]
  · rintro k l s t ⟨rfl, hne, hat⟩
    refine (simulates_getGlobal hT hh hn hK s t hat).mono ?_ ?_ ?_
    · rintro id v s t ⟨hv, _, hat⟩
      exact ⟨rfl, hne, hv, hat⟩
    · intro e s t hfails
      exact ⟨rfl, hne, hfails⟩
    · intro e s hgives
      exact ⟨hne, hgives⟩
  · rintro k l id v s t ⟨rfl, hne, hv, henv, hentered, hvalues⟩
    refine ⟨s.leaveTo entered, t.leaveTo entered, hleave s hne hentered, hleave t hne ?_, hv, ?_,
      rfl, hvalues⟩
    · rw [← henv, hentered]
    · rw [State.leaveTo, State.leaveTo, henv]
  · rintro k l e s t ⟨rfl, hne, m, henv, hentered, hvalues⟩
    refine ⟨s.leaveTo entered, t.leaveTo entered, hleave s hne hentered, hleave t hne ?_, m, ?_,
      rfl, hvalues⟩
    · rw [← henv, hentered]
    · rw [State.leaveTo, State.leaveTo, henv]
  · rintro k e s ⟨hne, hstatus, hfull, hentered, habove⟩
    exact ⟨s.leaveTo entered, hleave s hne hentered, hstatus, hfull, rfl, habove⟩

/-- Whether a value the guest has named is the env's own global. -/
theorem simulates_isEnvGlobal [DecidableEq ν] (hT : Lawful T Inv Room) (hh : Inv h) (hn : n ≤ 1) {id : ℕ} {v : ν}
    (hnamed : ∀ h', K h' → Named T Room h id v h')
    (hK : ∀ {h'} w, Inv h' → K h' → K (T.store h' w).2) :
    Simulates (At (Inside T h c scope n K) entered)
      (fun own own' s t => own = own' ∧ own = decide (v = F.globalOf none) ∧
        At (Inside T h c scope (n + 1) fun _ => True) entered s t)
      (FailsInside T h c scope entered) (GivesUp T Room h scope entered)
      (Rs.isEnvGlobal T F fails id) (Cc.isEnvGlobal F fails (.live v)) := by
  apply Simulates.bind (simulates_envGlobal hT hh hn hK)
  intro global w s t ⟨hw, hat⟩
  subst hw
  have hcompare : Simulates
      (At (Inside T h c scope (n + 1) fun h' => K h' ∧
        Named T Room h global (F.globalOf none) h') entered)
      (fun own own' s t => own = own' ∧ own = decide (v = F.globalOf none) ∧
        At (Inside T h c scope (n + 1) fun _ => True) entered s t)
      (FailsInside T h c scope entered) (GivesUp T Room h scope entered)
      (Rs.snapiBridgeStrictEquals T fails id global)
      (Cc.strictEquals fails (.live v) (F.globalOf none)) := by
    apply simulates_load
    · intro s t hat
      exact hat.named hT fun hK => hnamed _ hK.1
    apply simulates_load
    · intro s t hat
      exact hat.named hT fun hK => hK.2
    intro s t hat
    have hequal : Outcome
        (fun own own' s t => own = own' ∧ own = decide (v = F.globalOf none) ∧
          At (Inside T h c scope (n + 1) fun h' => K h' ∧
            Named T Room h global (F.globalOf none) h') entered s t)
        (FailsInside T h c scope entered) (GivesUp T Room h scope entered)
        (engine (napiStrictEquals fails v (F.globalOf none)) s)
        (engine (napiStrictEquals fails v (F.globalOf none)) t) :=
      simulates_engine (P := fun own => own = decide (v = F.globalOf none))
        (fun _ own _ hown => (Except.ok.inj hown).symm) (fun e s t hat => hat.failsInside e) s t hat
    apply hequal.mono
    · intro own own' s t ⟨heq, hown, hat⟩
      exact ⟨heq, hown, hat.env, hat.entered, hat.values.above, hat.values.native, trivial⟩
    · intro e s t hfails
      exact hfails
    · intro e s hgives
      exact hgives
  exact hcompare s t hat

/-! ### Which realm is current -/

/-- `realm` is current, and it is not the env's own: not even its global is the env's. -/
structure Elsewhere (F : Facts ν) (entered : List (ℕ × Option ℕ)) (realm : ℕ) : Prop where
  named : F.realmOf (F.globalOf (currentOf entered)) = some realm
  notEnvOwn : F.globalOf (currentOf entered) ≠ F.globalOf none

/-- The guest's layer asks only whether another realm than the env's own is current; the native
    one finds it. The guest's then had room for an id. -/
def FindsRealm (F : Facts ν) (room : Prop) (entered : List (ℕ × Option ℕ)) (other : Bool)
    (realm : Option ℕ) : Prop :=
  if other then room ∧ ∃ current, realm = some current ∧ Elsewhere F entered current
  else realm = none

theorem simulates_findCurrentRealm [DecidableEq ν] (hT : Lawful T Inv Room) (hh : Inv h) :
    Simulates (At (Inside T h c scope 0 fun _ => True) entered)
      (fun other realm s t => FindsRealm F (Room h 1) entered other realm ∧
        ∃ n, At (Inside T h c scope n fun _ => True) entered s t)
      (FailsInside T h c scope entered) (GivesUp T Room h scope entered)
      (Rs.otherRealm T F fails) (Cc.findCurrentRealm F fails) := by
  unfold Rs.otherRealm Cc.findCurrentRealm
  apply Simulates.bind (simulates_getGlobal hT hh (Nat.zero_le 1) fun _ _ _ => trivial)
  intro global v s t ⟨hv, hroom, hat⟩
  have hrealm : Simulates
      (At (Inside T h c scope 1 fun h' => True ∧ Named T Room h global v h') entered)
      (fun other realm s t => FindsRealm F (Room h 1) entered other realm ∧
        ∃ n, At (Inside T h c scope n fun _ => True) entered s t)
      (FailsInside T h c scope entered) (GivesUp T Room h scope entered)
      (do
        let realm ← Rs.realmOf T F fails global
        if realm = 0 then pure false
        else
          let envOwn ← Rs.isEnvGlobal T F fails global
          pure !envOwn)
      (do
        let realm ← Cc.getRealm F fails (.live v)
        if realm = none then pure none
        else
          let envOwn ← Cc.isEnvGlobal F fails (.live v)
          pure (if envOwn then none else realm)) := by
    apply Simulates.bind (simulates_getRealm hT.load_zero
      (fun s t hat => hat.named hT And.right) fun e s t hat => hat.failsInside e)
    intro named realm s t ⟨hrealm, hzero, heq, hat⟩
    by_cases hnamed : named = 0
    · have hnone := hzero.1 hnamed
      rw [if_pos hnamed, if_pos hnone]
      refine .ok ⟨rfl, 1, hat.env, hat.entered, hat.values.above, hat.values.native, trivial⟩
    · have hsome : realm ≠ none := fun hnone => hnamed (hzero.2 hnone)
      rw [if_neg hnamed, if_neg hsome]
      have hown : Simulates
          (At (Inside T h c scope 1 fun h' => True ∧ Named T Room h global v h') entered)
          (fun own own' s t => own = own' ∧ own = decide (v = F.globalOf none) ∧
            At (Inside T h c scope 2 fun _ => True) entered s t)
          (FailsInside T h c scope entered) (GivesUp T Room h scope entered)
          (Rs.isEnvGlobal T F fails global) (Cc.isEnvGlobal F fails (.live v)) := by
        apply simulates_isEnvGlobal hT hh le_rfl
        · intro h' hK
          exact hK.2
        · intro h' w hinv hK
          exact ⟨trivial, hK.2.stored hT hinv⟩
      refine hown.bind ?_ s t hat
      intro own own' s t ⟨hsame, hown, hat⟩
      subst hsame
      refine .ok ⟨?_, 2, hat⟩
      cases own with
      | true => rfl
      | false =>
        obtain ⟨current, hcurrent⟩ := Option.ne_none_iff_exists'.1 hsome
        have hother : v ≠ F.globalOf none := of_decide_eq_false hown.symm
        rw [hcurrent, hv] at hrealm
        rw [hv] at hother
        have hglobal : global ≠ 0 := fun hzero => hnamed ((heq hnamed).trans hzero)
        exact ⟨hroom rfl hglobal, current, hcurrent, hrealm.symm, hother⟩
  exact hrealm s t hat

end Lookup

/-! ## The lookup's scope -/

section Outside

variable {σ ν : Type} {T : Scoped.Table σ ν} {F : Facts ν}
  {fails : ℕ → Option Failure} {Inv : σ → Prop} {Room : σ → ℕ → Prop} {h : σ}
  {c : Cc.Handles ν} {entered : List (ℕ × Option ℕ)}

/-- Before a lookup. -/
def Before (h : σ) (c : Cc.Handles ν) (h' : σ) (c' : Cc.Handles ν) : Prop := h' = h ∧ c' = c

/-- After a lookup, the same scopes are open and the same ids are live. -/
structure Restored (T : Scoped.Table σ ν) (Inv : σ → Prop) (Room : σ → ℕ → Prop) (h : σ)
    (c : Cc.Handles ν) (h' : σ) (c' : Cc.Handles ν) : Prop where
  same : Same T h h'
  inv : Inv h'
  room : ∀ k, Room h k → Room h' k
  native : c' = c

/-- The guest's layer has given up: its table had no room. -/
structure NoRoom (T : Scoped.Table σ ν) (Room : σ → ℕ → Prop) (h : σ)
    (entered : List (ℕ × Option ℕ)) (e : NapiStatus) (s : State σ) : Prop where
  status : e = .invalidArg
  full : ¬ Room h 2
  entered : s.env.entered = entered
  same : Same T h s.values

theorem At.restored {s : State σ} {t : State (Cc.Handles ν)} (hh : Inv h)
    (hat : At (Before h c) entered s t) : At (Restored T Inv Room h c) entered s t := by
  obtain ⟨henv, hentered, hs, ht⟩ := hat
  refine ⟨henv, hentered, ⟨?_, ?_, ?_⟩, ?_, ?_, ht⟩
  · rw [hs]
  · rw [hs]
  · intro id
    rw [hs]
  · rwa [hs]
  · intro k hroom
    rwa [hs]

/-- A lookup's scope takes away what the lookup made, however it ended. -/
theorem simulates_inLookupScope {α β : Type} (hT : Lawful T Inv Room) (hh : Inv h)
    {K : σ → Prop} (hK : ∀ h', (∀ id, T.load h' id = T.load h id) → K h')
    {P : α → β → Prop} {look : Fallible NapiStatus (State σ) α}
    {look' : Fallible NapiStatus (State (Cc.Handles ν)) β}
    (hlook : ∀ scope, Simulates (At (Inside T h c scope 0 K) entered)
      (fun a b s t => P a b ∧ ∃ n, At (Inside T h c scope n fun _ => True) entered s t)
      (FailsInside T h c scope entered) (GivesUp T Room h scope entered) look look') :
    Simulates (At (Before h c) entered)
      (fun a b s t => P a b ∧ At (Restored T Inv Room h c) entered s t)
      (fun _ => At (Restored T Inv Room h c) entered) (NoRoom T Room h entered)
      (Rs.inLookupScope T F fails look) (Cc.inLookupScope F fails look') := by
  have hclose : ∀ {scope n : ℕ} (s : State σ), Above T h scope n s.values →
      ∃ s', Rs.snapiBridgeCloseHandleScope T scope s = (.ok (), s') ∧ s'.env = s.env ∧
        Same T h s'.values ∧ Inv s'.values ∧ ∀ k, Room h k → Room s'.values k := by
    intro scope n s habove
    obtain ⟨hclosed, hinv, hsame, hroom⟩ := hT.close hh habove
    refine ⟨{ s with values := (T.closeScope s.values scope).2 }, ?_, rfl, hsame, hinv, hroom⟩
    rw [Rs.snapiBridgeCloseHandleScope, hclosed, if_pos rfl]
  have hclose' : ∀ t : State (Cc.Handles ν), (∃ frame, t.values = frame :: c) →
      Cc.closeHandleScope (c.length + 1) t = (.ok (), { t with values := c }) := by
    intro t ⟨frame, hframe⟩
    rw [Cc.closeHandleScope, hframe, if_pos (List.length_cons)]
    rfl
  -- both scopes are closed from whatever state the lookups leave
  have hreleased : ∀ {scope n : ℕ} (s : State σ) (t : State (Cc.Handles ν)),
      At (Inside T h c scope n fun _ => True) entered s t →
      ∃ s' t', Rs.snapiBridgeCloseHandleScope T scope s = (.ok (), s') ∧
        Cc.closeHandleScope (c.length + 1) t = (.ok (), t') ∧
          At (Restored T Inv Room h c) entered s' t' := by
    intro scope n s t ⟨henv, hentered, habove, hnative, _⟩
    obtain ⟨s', hs', henv', hsame, hinv, hroom⟩ := hclose s habove
    refine ⟨s', _, hs', hclose' t hnative, ?_, ?_, hsame, hinv, hroom, rfl⟩
    · rw [henv', henv]
    · rw [henv', hentered]
  apply Simulates.bracket
    (A := fun k l s t => l = c.length + 1 ∧ At (Inside T h c k 0 K) entered s t)
    (B := fun k l a b s t => l = c.length + 1 ∧ P a b ∧
      ∃ n, At (Inside T h c k n fun _ => True) entered s t)
    (F := fun k l e s t => l = c.length + 1 ∧ FailsInside T h c k entered e s t)
    (H := fun k e s => GivesUp T Room h k entered e s)
  · -- opening
    refine Simulates.bind (simulates_engine (P := fun _ => True) (fun _ _ _ _ => trivial)
      fun e s t hat => hat.restored hh) ?_
    intro p _ s t ⟨heq, _, henv, hentered, hs, ht⟩
    subst heq hs ht
    refine .ok ⟨rfl, henv, hentered, .opened p rfl, ⟨[], rfl⟩, hK _ fun id => ?_⟩
    exact hT.open_load p id hh
  · intro k l s t ⟨hl, hat⟩
    refine (hlook k s t hat).mono ?_ ?_ ?_
    · intro a b s t hlooked
      exact ⟨hl, hlooked⟩
    · intro e s t hfails
      exact ⟨hl, hfails⟩
    · intro e s hgives
      exact hgives
  · intro k l a b s t ⟨hl, hP, n, hat⟩
    subst hl
    obtain ⟨s', t', hs', ht', hat'⟩ := hreleased s t hat
    exact ⟨s', t', hs', ht', hP, hat'⟩
  · intro k l e s t ⟨hl, n, hat⟩
    subst hl
    exact hreleased s t hat
  · intro k e s ⟨hstatus, hfull, hentered, n, habove⟩
    obtain ⟨s', hs', henv', hsame, _⟩ := hclose s habove
    exact ⟨s', hs', hstatus, hfull, by rw [henv', hentered], hsame⟩

/-! ## The type of a context -/

/-- A context argument as the two layers get it. -/
inductive Context (T : Scoped.Table σ ν) (h : σ) : ℕ → Cc.NapiValue ν → Prop
  | null : Context T h 0 .null
  | dead {id} : id ≠ 0 → T.load h id = none → Context T h id .dead
  | live {id v} : T.load h id = some v → Context T h id (.live v)

/-- What the native layer's `isNullish` says of a value whose type the guest's layer has asked
    for. -/
def nullishOf (id : ℕ) (type : Option ValueType) : Bool × ValueType :=
  (decide ((type = none ∧ id = 0) ∨ type = some .undefined ∨ type = some .null),
    type.getD .undefined)

/-- A type that cannot be found is no type; only NULL is nullish then. -/
theorem simulates_typeOf (hzero : ∀ h, T.load h 0 = none) {id : ℕ} {value : Cc.NapiValue ν}
    (hcontext : Context T h id value) :
    Simulates (At (Before h c) entered)
      (fun type nullish s t => nullish = nullishOf id type ∧ At (Before h c) entered s t)
      (fun _ _ _ => False) (fun _ _ => False)
      (Rs.typeOf T F fails id) (Cc.isNullish F fails value) := by
  cases hcontext with
  | null =>
    intro s t hat
    exact .ok ⟨rfl, hat⟩
  | dead hid hload =>
    intro s t hat
    have hload' : Rs.load T id s = (.error .invalidArg, s) := by
      rw [Rs.load, hat.values.1, hload]
    have hattempt : attempt (Rs.snapiBridgeTypeof T F fails id) s =
        (.ok (.error .invalidArg), s) := by
      rw [attempt, Rs.snapiBridgeTypeof, bind_error hload']
    rw [Rs.typeOf, if_neg hid, bind_ok hattempt]
    exact .ok ⟨by simp [nullishOf, hid], hat⟩
  | live hload =>
    rename_i v
    have hid : id ≠ 0 := by
      intro hid
      rw [hid, hzero] at hload
      cases hload
    rw [Rs.typeOf, if_neg hid]
    unfold Rs.snapiBridgeTypeof
    have hload' : Simulates (At (Before h c) entered)
        (fun type type' s t => type = type' ∧ True ∧ At (Before h c) entered s t)
        (fun _ => At (Before h c) entered) (fun _ _ => False)
        (Rs.load T id >>= fun value => engine (napiTypeof F fails value))
        (Cc.typeof F fails (.live v)) := by
      apply simulates_load
      · intro s t hat
        rw [hat.values.1]
        exact Or.inl hload
      · exact simulates_engine (fun _ _ _ _ => trivial) fun _ _ _ hat => hat
    apply Simulates.bind hload'.attempt
    intro type type' s t hmatches
    cases hmatches with
    | error hat => exact .ok ⟨by simp [nullishOf, hid], hat⟩
    | ok heq =>
      obtain ⟨rfl, _, hat⟩ := heq
      exact .ok ⟨by simp [nullishOf], hat⟩

/-! ## What the native layer leaves -/

namespace Cc

/-- The values and the realms entered are what they were, whatever became of the call. -/
def Restores {α : Type} (x : Fallible NapiStatus (State (Handles ν)) α) : Prop :=
  ∀ t, (x t).2.values = t.values ∧ (x t).2.env.entered = t.env.entered

/-- Nothing but the innermost handle scope has changed. -/
def Stays {α : Type} (x : Fallible NapiStatus (State (Handles ν)) α) : Prop :=
  ∀ t frame rest, t.values = frame :: rest →
    (∃ frame', (x t).2.values = frame' :: rest) ∧ (x t).2.env.entered = t.env.entered

variable {α β : Type} {x : Fallible NapiStatus (State (Handles ν)) α}
  {f : α → Fallible NapiStatus (State (Handles ν)) β}

theorem Restores.stays (hx : Restores x) : Stays x := by
  intro t frame rest hvalues
  rw [(hx t).1, (hx t).2]
  exact ⟨⟨frame, hvalues⟩, rfl⟩

theorem Restores.bind (hx : Restores x) (hf : ∀ a, Restores (f a)) : Restores (x >>= f) := by
  intro t
  rcases ht : x t with ⟨r, t'⟩
  have hx' := hx t
  rw [ht] at hx'
  cases r with
  | error e =>
    rw [bind_error ht]
    exact hx'
  | ok a =>
    rw [bind_ok ht, (hf a t').1, (hf a t').2]
    exact hx'

theorem Stays.bind (hx : Stays x) (hf : ∀ a, Stays (f a)) : Stays (x >>= f) := by
  intro t frame rest hvalues
  rcases ht : x t with ⟨r, t'⟩
  have hx' := hx t frame rest hvalues
  rw [ht] at hx'
  cases r with
  | error e =>
    rw [bind_error ht]
    exact hx'
  | ok a =>
    obtain ⟨⟨frame', hvalues'⟩, hentered⟩ := hx'
    have hf' := hf a t' frame' rest hvalues'
    rw [bind_ok ht, hf'.2]
    exact ⟨hf'.1, hentered⟩

theorem restores_pure (a : α) : Restores (ν := ν) (pure a) := fun _ => ⟨rfl, rfl⟩

theorem restores_fail (e : NapiStatus) : Restores (ν := ν) (α := α) (fail e) := fun _ => ⟨rfl, rfl⟩

theorem Restores.attempt (hx : Restores x) : Restores (attempt x) := hx

theorem restores_engine {r : Env → Except NapiStatus α} :
    Restores (ν := ν) (engine (engineCall fails fun env => (r env, env))) := by
  intro t
  unfold engine engineCall
  cases fails t.env.calls with
  | some failure => exact ⟨rfl, rfl⟩
  | none => exact ⟨rfl, rfl⟩

theorem restores_typeof [DecidableEq ν] (value : NapiValue ν) :
    Restores (typeof F fails value) := by
  cases value with
  | null => exact restores_fail .invalidArg
  | dead => exact restores_fail .invalidArg
  | live value => exact restores_engine

theorem restores_getRealm (value : NapiValue ν) : Restores (getRealm F fails value) := by
  cases value with
  | null => exact restores_fail .invalidArg
  | dead => exact restores_fail .invalidArg
  | live value => exact restores_engine

theorem restores_strictEquals [DecidableEq ν] (value : NapiValue ν) (w : ν) :
    Restores (strictEquals fails value w) := by
  cases value with
  | null => exact restores_fail .invalidArg
  | dead => exact restores_fail .invalidArg
  | live value => exact restores_engine

theorem stays_getGlobal : Stays (getGlobal F fails) := by
  apply restores_engine.stays.bind
  intro v
  apply Stays.bind (α := Unit)
  · intro t frame rest hvalues
    refine ⟨⟨v :: frame, ?_⟩, rfl⟩
    show wrapValue v t.values = _
    rw [hvalues]
    rfl
  · intro _
    exact (restores_pure v).stays

theorem enterRealm_cases (fails : ℕ → Option Failure) (realmOrNull : Option ℕ) (t : State (Handles ν)) :
    (∃ e t', engine (unofficialNapiEnterRealm fails realmOrNull) t = (.error e, t') ∧
      t'.values = t.values ∧ t'.env.entered = t.env.entered) ∨
    ∃ token t', engine (unofficialNapiEnterRealm fails realmOrNull) t = (.ok token, t') ∧
      token ≠ 0 ∧ t'.values = t.values ∧
        t'.env.entered = (token, realmOrNull) :: t.env.entered := by
  unfold engine unofficialNapiEnterRealm engineCall
  cases fails t.env.calls with
  | some failure => exact Or.inl ⟨_, _, rfl, rfl, rfl⟩
  | none => exact Or.inr ⟨_, _, rfl, Nat.succ_ne_zero _, rfl, rfl⟩

theorem openHandleScope_cases (F : Facts ν) (fails : ℕ → Option Failure) (t : State (Handles ν)) :
    (∃ e t', openHandleScope F fails t = (.error e, t') ∧
      t'.values = t.values ∧ t'.env.entered = t.env.entered) ∨
    ∃ t', openHandleScope F fails t = (.ok (t.values.length + 1), t') ∧
      t'.values = [] :: t.values ∧ t'.env.entered = t.env.entered := by
  rcases ht : engine (napiOpenHandleScope F fails) t with ⟨r, t'⟩
  have hsame : t'.values = t.values ∧ t'.env.entered = t.env.entered := by
    have hrestores : Restores (ν := ν) (engine (napiOpenHandleScope F fails)) := restores_engine
    have hsame := hrestores t
    rwa [ht] at hsame
  cases r with
  | error e => exact Or.inl ⟨e, t', bind_error ht, hsame⟩
  | ok p =>
    rw [← hsame.1, ← hsame.2]
    exact Or.inr ⟨{ t' with values := [] :: t'.values }, bind_ok ht, rfl, rfl⟩

/-- The realm entered for the global is left again. -/
theorem stays_envGlobal : Stays (envGlobal F fails) := by
  intro t frame rest hvalues
  rcases enterRealm_cases fails none t with
    ⟨e, t₁, henter, hsame, hentered⟩ | ⟨token, t₁, henter, hne, hsame, hentered⟩
  · rw [envGlobal, bracket_error henter, hsame]
    exact ⟨⟨frame, hvalues⟩, hentered⟩
  · rcases hbody : getGlobal F fails t₁ with ⟨r, t₂⟩
    have hglobal : Stays (getGlobal F fails) := stays_getGlobal
    have hstays := hglobal t₁ frame rest (hsame.trans hvalues)
    rw [hbody] at hstays
    obtain ⟨hvalues', hentered'⟩ := hstays
    have hleave : engine (unofficialNapiLeaveRealm token) t₂ =
        (.ok (), t₂.leaveTo t.env.entered) := by
      unfold engine unofficialNapiLeaveRealm State.leaveTo
      rw [hentered', hentered, if_pos ⟨hne, rfl⟩]
      rfl
    rw [envGlobal, bracket_apply henter hbody hleave]
    exact ⟨hvalues', rfl⟩

theorem stays_isEnvGlobal [DecidableEq ν] (value : NapiValue ν) :
    Stays (isEnvGlobal F fails value) :=
  stays_envGlobal.bind fun global => (restores_strictEquals value global).stays

theorem stays_findCurrentRealm [DecidableEq ν] : Stays (findCurrentRealm F fails) := by
  apply stays_getGlobal.bind
  intro global
  apply (restores_getRealm (.live global)).stays.bind
  intro realm
  split
  · exact (restores_pure none).stays
  · apply (stays_isEnvGlobal (.live global)).bind
    intro envOwn
    exact (restores_pure _).stays

/-- A lookup's scope takes away what the lookup made. -/
theorem restores_inLookupScope {look : Fallible NapiStatus (State (Handles ν)) α}
    (hlook : Stays look) : Restores (inLookupScope F fails look) := by
  intro t
  rcases openHandleScope_cases F fails t with
    ⟨e, t₁, hopen, hsame⟩ | ⟨t₁, hopen, hvalues, hentered⟩
  · rw [inLookupScope, bracket_error hopen]
    exact hsame
  · rcases hbody : look t₁ with ⟨r, t₂⟩
    have hstays := hlook t₁ [] t.values hvalues
    rw [hbody] at hstays
    obtain ⟨⟨frame, hvalues'⟩, hentered'⟩ := hstays
    have hclose : closeHandleScope (t.values.length + 1) t₂ =
        (.ok (), { t₂ with values := t.values }) := by
      rw [closeHandleScope, hvalues', if_pos (List.length_cons)]
      rfl
    rw [inLookupScope, bracket_apply hopen hbody hclose]
    exact ⟨rfl, hentered'.trans hentered⟩

theorem restores_isNullish [DecidableEq ν] (value : NapiValue ν) :
    Restores (isNullish F fails value) := by
  cases value with
  | null => exact restores_pure _
  | _ =>
    apply (restores_typeof _).attempt.bind
    intro type
    cases type with
    | error e => exact restores_pure _
    | ok type => exact restores_pure _

theorem restores_currentRealm [DecidableEq ν] : Restores (currentRealm F fails) :=
  restores_inLookupScope stays_findCurrentRealm

theorem restores_realmFromContext [DecidableEq ν] (context : NapiValue ν)
    (nullishIsCurrent : Bool) : Restores (realmFromContext F fails context nullishIsCurrent) := by
  apply (restores_isNullish context).bind
  intro nullish
  split
  · split
    · exact restores_currentRealm
    · exact restores_pure none
  split
  · exact restores_fail .invalidArg
  apply (restores_getRealm context).attempt.bind
  intro realm
  match realm with
  | .error _ => exact restores_fail .invalidArg
  | .ok (some realm) => exact restores_pure (some realm)
  | .ok none =>
    apply (restores_inLookupScope (stays_isEnvGlobal context)).bind
    intro envOwn
    split
    · exact restores_pure none
    · exact restores_fail .invalidArg

end Cc

end Outside

end WasmerNapi.Guest.Compat
