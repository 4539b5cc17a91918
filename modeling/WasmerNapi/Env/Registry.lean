import WasmerNapi.Env.Basic
import WasmerNapi.Lib.Run

/-!
# The envs of an application, registered and released

`src/src/env.rs` and the release import of `src/src/guest/napi.rs`, with what they rest on in
`src/src/napi_bridge_init.cc`. A release has two halves with the engine between them, and the engine
may run finalizers there that call the guest, so envs are made and released inside a release. A
release of a store goes through the same two halves for every scope the store has left.

What keeps an address from meaning two envs is the bridge's count of holders: one for the env until
it is torn down, and one for the registry. An address is handed out again when no one holds it.

Nothing between the question whether a release would be refused and the release itself runs
JavaScript or touches the registry, so the two are one step here. An agent has one env.
-/

namespace WasmerNapi.Env.Registry

open Function (update update_self update_of_ne)
open Run

/-- `SnapiEnvState`, with what its agent says about a release. `alive` is that the thread `owner`
    has it among the envs it owns. -/
structure EnvState where
  owner : ℕ
  alive : Bool := true
  closing : Bool := false
  guestCalls : ℕ := 0
  holders : ℕ := 1
  deriving DecidableEq

/-- `snapi_bridge_unofficial_env_release_refused`, on the thread `t`. -/
def envReleaseRefused (t : ℕ) : Option EnvState → Bool
  | none => false
  | some e => if !(e.alive && e.owner == t) then true else e.closing || e.guestCalls != 0

/-- How `DisposeBridgeState` begins: refused, or closing. -/
def disposeBridgeState (t : ℕ) (e : EnvState) : Option EnvState :=
  if !(e.alive && e.owner == t) then none
  else if e.guestCalls ≠ 0 then none
  else if e.closing then none
  else some { e with closing := true }

/-- The memory of the bridge: the env at each address that is in use. -/
abbrev Bridge := ℕ → Option EnvState

/-- `DropEnvStateHolder`. -/
def Bridge.dropHolder (b : Bridge) (a : ℕ) : Bridge :=
  match b a with
  | none => b
  | some e => update b a (if e.holders = 1 then none else some { e with holders := e.holders - 1 })

/-- What a call that the bookkeeping makes does to the holders. -/
def Bridge.perform (b : Bridge) : BridgeCall → Bridge
  | .retainEnv a =>
    match b a with
    | none => b
    | some e => update b a (some { e with holders := e.holders + 1 })
  | .unretainEnv a => b.dropHolder a
  | _ => b

/-- How `DisposeBridgeState` ends: the env is gone, and the bridge lets go of it. -/
def Bridge.tearDown (b : Bridge) (a : ℕ) : Bridge :=
  match b a with
  | none => b
  | some e => Bridge.dropHolder (update b a (some { e with alive := false })) a

/-- `begin_unregister_napi_scope`. -/
def beginUnregisterNapiScope (store : NapiEnv) (scope : ℕ) : Option (ℕ × ℕ) × NapiEnv :=
  match store.napiScopes.lookup scope with
  | none => (none, store)
  | some envId =>
    let store := { store with napiScopes := store.napiScopes.erase scope }
    ((store.napiEnvs.lookup envId).map fun env => (envId, env), store)

/-- `napi_scope_env`. -/
def napiScopeEnv (store : NapiEnv) (scope : ℕ) : Option ℕ :=
  (store.napiScopes.lookup scope).bind store.napiEnvs.lookup

/-- `resolve_napi_env`; `none` is the null env. -/
def resolveNapiEnv (store : NapiEnv) (guestEnv : ℕ) : Option ℕ :=
  if guestEnv = 0 then none else store.napiEnvs.lookup guestEnv

/-- A store serves its guest, or is being dropped with these scopes to go, or is gone. -/
inductive Phase where
  | live
  | dropping (scopes : List ℕ)
  | gone
  deriving DecidableEq

/-- An application. `underway` are the releases of a store that the engine is at, the innermost
    first. `issued`, `released` and `log` are what happened so far: the ids with the store and the
    env they were issued for, the ids released with a status other than a refusal, and the calls of
    the bookkeeping with the id they were made for. -/
structure World where
  registry : EnvRegistry := {}
  stores : ℕ → NapiEnv := fun _ => {}
  phase : ℕ → Phase := fun _ => .live
  underway : ℕ → List (ℕ × ℕ) := fun _ => []
  bridge : Bridge := fun _ => none
  issued : List (ℕ × ℕ × ℕ) := []
  released : List ℕ := []
  log : List (ℕ × BridgeCall) := []

namespace World

/-- The engine made an env at `a` on the thread `t`, and the store `s` registers it. When there is
    no id left the registration panics, and the env stays with the bridge. -/
def create (w : World) (t s a : ℕ) : World :=
  let bridge := update w.bridge a (some { owner := t })
  match registerNapiEnv w.registry (w.stores s) a with
  | none => { w with bridge }
  | some (envId, registry, store, calls) =>
    { w with
      registry
      stores := update w.stores s store
      bridge := calls.foldl Bridge.perform bridge
      issued := (s, envId, a) :: w.issued
      log := calls.map (Prod.mk envId) ++ w.log }

/-- `finish_unregister_napi_env`. -/
def finish (w : World) (s envId a : ℕ) (status : ℤ) : World :=
  let (registry, store, calls, _) := finishUnregisterNapiEnv w.registry (w.stores s) envId a status
  { w with
    registry
    stores := update w.stores s store
    bridge := calls.foldl Bridge.perform w.bridge
    released := if status = releaseRefused then w.released else envId :: w.released
    log := calls.map (Prod.mk envId) ++ w.log }

/-- The bridge is asked to release what `begin_unregister_napi_scope` gave, and refuses, or the
    release is under way. -/
def release (w : World) (t s envId a : ℕ) : World × Option ℤ :=
  match (w.bridge a).bind (disposeBridgeState t) with
  | none => (w.finish s envId a releaseRefused, some releaseRefused)
  | some e =>
    ({ w with
      bridge := update w.bridge a (some e)
      underway := update w.underway s ((envId, a) :: w.underway s) }, none)

def setStore (w : World) (s : ℕ) (store : NapiEnv) : World :=
  { w with stores := update w.stores s store }

/-- `guest_unofficial_napi_release_env` on the thread `t`, with the status it returns; `none` while
    the release is under way. -/
def releaseEnv (w : World) (t s scope : ℕ) : World × Option ℤ :=
  if ((napiScopeEnv (w.stores s) scope).map fun a => envReleaseRefused t (w.bridge a)) = some true then
    (w, some releaseRefused)
  else
    match beginUnregisterNapiScope (w.stores s) scope with
    | (none, store) => (w.setStore s store, some 1)
    | (some (envId, a), store) => (w.setStore s store).release t s envId a

/-- One scope of `NapiEnv::drop`. -/
def dropScope (w : World) (t s scope : ℕ) : World :=
  match beginUnregisterNapiScope (w.stores s) scope with
  | (none, store) => w.setStore s store
  | (some (envId, a), store) => ((w.setStore s store).release t s envId a).1

end World

/-- A status that ends a release is what the engine said, or 0 when the guest exited meanwhile. -/
inductive Act where
  | create (t s a : ℕ)
  | releaseEnv (t s scope : ℕ)
  | finish (s : ℕ) (status : ℤ)
  /-- Guest code that an env called into starts, and returns. -/
  | call (a : ℕ)
  | ret (a : ℕ)
  | drop (s : ℕ)
  | dropScope (t s scope : ℕ)
  | dropped (s : ℕ)
  deriving DecidableEq

def step (w : World) : Act → Option World
  | .create t s a => if w.phase s = .live ∧ w.bridge a = none then some (w.create t s a) else none
  | .releaseEnv t s scope => if w.phase s = .live then some (w.releaseEnv t s scope).1 else none
  | .finish s status =>
    match w.underway s with
    | [] => none
    | (envId, a) :: rest =>
      some ({ w with
        bridge := w.bridge.tearDown a
        underway := update w.underway s rest }.finish s envId a status)
  | .call a =>
    (w.bridge a).map fun e =>
      { w with bridge := update w.bridge a (some { e with guestCalls := e.guestCalls + 1 }) }
  | .ret a =>
    (w.bridge a).map fun e =>
      { w with bridge := update w.bridge a (some { e with guestCalls := e.guestCalls - 1 }) }
  | .drop s =>
    if w.phase s = .live ∧ w.underway s = [] then
      some { w with
        phase := update w.phase s (.dropping ((w.stores s).napiScopes.entries.map Sigma.fst)) }
    else none
  | .dropScope t s scope =>
    match w.phase s with
    | .dropping scopes =>
      if scope ∈ scopes ∧ w.underway s = [] then
        some ({ w with phase := update w.phase s (.dropping (scopes.erase scope)) }.dropScope
          t s scope)
      else none
    | _ => none
  | .dropped s =>
    if w.phase s = .dropping [] ∧ w.underway s = [] then
      some { w with
        phase := update w.phase s .gone
        stores := update w.stores s {} }
    else none

/-- The id was issued to the store for the env at `a`, and is not released. -/
def World.Holds (w : World) (s id a : ℕ) : Prop := (s, id, a) ∈ w.issued ∧ id ∉ w.released

/-- What the tables of the stores, the registry and the bridge say about the envs held. -/
structure Inv (w : World) : Prop where
  ids : ∀ {s id a}, (s, id, a) ∈ w.issued → 0 < id ∧ id ≤ w.registry.nextNativeId
  ids_once : (w.issued.map fun r => r.2.1).Nodup
  released : ∀ id ∈ w.released, id ≤ w.registry.nextNativeId
  registry : ∀ id a, w.registry.envs.lookup id = some a ↔ ∃ s, w.Holds s id a
  envs : ∀ s id a, (w.stores s).napiEnvs.lookup id = some a ↔ w.Holds s id a ∧ w.phase s ≠ .gone
  states : ∀ s id a, (w.stores s).napiStateToGuestEnv.lookup a = some id ↔
    w.Holds s id a ∧ w.phase s ≠ .gone
  scopes : ∀ {s scope id}, (w.stores s).napiScopes.lookup scope = some id →
    scope = id ∧ w.phase s ≠ .gone ∧ ∃ a e, w.Holds s id a ∧ w.bridge a = some e ∧ e.closing = false
  /-- Of a store that serves its guest, an env that no release has begun on has its scope. -/
  has_scope : ∀ {s id a e}, w.phase s = .live → w.Holds s id a → w.bridge a = some e →
    e.closing = false → (w.stores s).napiScopes.lookup id = some id
  held : ∀ {s id a}, w.Holds s id a → ∃ e, w.bridge a = some e ∧
    e.holders = (if e.alive then 2 else 1) ∧ (e.closing = false → e.alive = true)
  once : ∀ {s id a s' id'}, w.Holds s id a → w.Holds s' id' a → id = id'
  underway : ∀ {s id a}, (id, a) ∈ w.underway s → w.Holds s id a ∧ w.phase s ≠ .gone ∧
    ∃ e, w.bridge a = some e ∧ e.closing = true ∧ e.alive = true
  underway_once : ∀ s, (w.underway s).Nodup
  log_once : w.log.Nodup
  retained : ∀ id a, (id, .retainEnv a) ∈ w.log ↔ ∃ s, (s, id, a) ∈ w.issued
  unretained : ∀ id a, (id, .unretainEnv a) ∈ w.log ↔ (∃ s, (s, id, a) ∈ w.issued) ∧ id ∈ w.released

variable {w : World}

/-- An id means one env of one store. -/
theorem Inv.unique (hi : Inv w) {s id a s' a' : ℕ} (h : (s, id, a) ∈ w.issued)
    (h' : (s', id, a') ∈ w.issued) : s = s' ∧ a = a' := by
  have heq := List.inj_on_of_nodup_map hi.ids_once h h' rfl
  exact ⟨congrArg Prod.fst heq, congrArg (fun r : ℕ × ℕ × ℕ => r.2.2) heq⟩

/-- The bridge may change where nothing is held, and where something is in all but `closing`. -/
theorem Inv.setEngine (hi : Inv w) {b : Bridge} {u : ℕ → List (ℕ × ℕ)}
    (hb : ∀ {s id a e}, w.Holds s id a → w.bridge a = some e → ∃ e', b a = some e' ∧
      e'.holders = (if e'.alive then 2 else 1) ∧ (e'.closing = false → e'.alive = true) ∧
        e'.closing = e.closing)
    (hu : ∀ {s id a}, (id, a) ∈ u s → (id, a) ∈ w.underway s ∧
      ∀ e, b a = some e → e.alive = true)
    (hnodup : ∀ s, (u s).Nodup) : Inv { w with bridge := b, underway := u } where
  ids := hi.ids
  ids_once := hi.ids_once
  released := hi.released
  registry := hi.registry
  envs := hi.envs
  states := hi.states
  scopes hl := by
    obtain ⟨heq, hphase, a, e, hh, he, hclosing⟩ := hi.scopes hl
    obtain ⟨e', he', -, -, hsame⟩ := hb hh he
    exact ⟨heq, hphase, a, e', hh, he', hsame.trans hclosing⟩
  has_scope hphase hh he hclosing := by
    obtain ⟨e, hbridge, -⟩ := hi.held hh
    obtain ⟨e', he', -, -, hsame⟩ := hb hh hbridge
    obtain rfl := Option.some.inj (he'.symm.trans he)
    exact hi.has_scope hphase hh hbridge (hsame.symm.trans hclosing)
  held hh := by
    obtain ⟨e, hbridge, -⟩ := hi.held hh
    obtain ⟨e', he', hholders, halive, -⟩ := hb hh hbridge
    exact ⟨e', he', hholders, halive⟩
  once := hi.once
  underway hmem := by
    obtain ⟨hmem, halive⟩ := hu hmem
    obtain ⟨hh, hphase, e, he, hclosing, -⟩ := hi.underway hmem
    obtain ⟨e', he', -, -, hsame⟩ := hb hh he
    exact ⟨hh, hphase, e', he', hsame.trans hclosing, halive e' he'⟩
  underway_once := hnodup
  log_once := hi.log_once
  retained := hi.retained
  unretained := hi.unretained

/-- What the bookkeeping goes by stays as it is wherever something is held. -/
theorem Inv.setBridge (hi : Inv w) {b : Bridge} (hb : ∀ {s id a e}, w.Holds s id a → w.bridge a = some e →
      ∃ e', b a = some e' ∧ e'.holders = e.holders ∧ e'.alive = e.alive ∧ e'.closing = e.closing) :
    Inv { w with bridge := b } := by
  refine hi.setEngine ?_ ?_ hi.underway_once
  · intro s id a e hh he
    obtain ⟨e', he', hholders, halive, hclosing⟩ := hb hh he
    obtain ⟨e₁, he₁, hheld, hopen⟩ := hi.held hh
    obtain rfl := Option.some.inj (he₁.symm.trans he)
    refine ⟨e', he', ?_, ?_, hclosing⟩
    · rw [hholders, halive, hheld]
    · rw [hclosing, halive]
      exact hopen
  · intro s id a hmem
    obtain ⟨hh, -, e, he, -, halive⟩ := hi.underway hmem
    refine ⟨hmem, ?_⟩
    intro e₁ he₁
    obtain ⟨e', he', -, halive', -⟩ := hb hh he
    obtain rfl := Option.some.inj (he₁.symm.trans he')
    exact halive'.trans halive

theorem perform_retainEnv {b : Bridge} {a : ℕ} {e : EnvState} :
    Bridge.perform (update b a (some e)) (.retainEnv a) =
      update b a (some { e with holders := e.holders + 1 }) := by
  rw [Bridge.perform, update_self]
  exact Function.update_idem ..

/-- The address of a new env is not one that something is held at. -/
theorem Inv.ne_of_free (hi : Inv w) {a : ℕ} (ha : w.bridge a = none) {s' id' a' : ℕ}
    (hh : w.Holds s' id' a') : a' ≠ a := by
  rintro rfl
  obtain ⟨e, he, -⟩ := hi.held hh
  rw [ha] at he
  cases he

/-- What `create` leaves when there is an id. -/
def World.registered (w : World) (t s a : ℕ) : World :=
  let id := w.registry.nextNativeId + 1
  { w with
    registry := { nextNativeId := id, envs := w.registry.envs.insert id a }
    stores := update w.stores s { w.stores s with
      napiEnvs := (w.stores s).napiEnvs.insert id a
      napiStateToGuestEnv := (w.stores s).napiStateToGuestEnv.insert a id
      napiScopes := (w.stores s).napiScopes.insert id id }
    bridge := update w.bridge a (some { owner := t, holders := 2 })
    issued := (s, id, a) :: w.issued
    log := (id, .retainEnv a) :: w.log }

theorem create_eq_registered {t s a : ℕ} (h : w.registry.nextNativeId + 1 < 2 ^ 32) :
    w.create t s a = w.registered t s a := by
  rw [World.create, registerNapiEnv, Word.checkedAdd, if_pos h]
  simp only [Option.map_some, List.foldl_cons, List.foldl_nil, perform_retainEnv, List.map_cons,
    List.map_nil, List.singleton_append]
  rfl

section

variable {t s a : ℕ}

theorem holds_registered (hi : Inv w) {s' id' a' : ℕ} :
    (w.registered t s a).Holds s' id' a' ↔
      (s' = s ∧ id' = w.registry.nextNativeId + 1 ∧ a' = a) ∨ w.Holds s' id' a' := by
  have hnot : w.registry.nextNativeId + 1 ∉ w.released := by
    intro hmem
    have := hi.released _ hmem
    omega
  constructor
  · rintro ⟨hmem, hrel⟩
    rcases List.mem_cons.mp hmem with heq | hmem
    · exact .inl (by simpa using heq)
    · exact .inr ⟨hmem, hrel⟩
  · rintro (⟨rfl, rfl, rfl⟩ | ⟨hmem, hrel⟩)
    · exact ⟨List.mem_cons_self .., hnot⟩
    · exact ⟨List.mem_cons_of_mem _ hmem, hrel⟩

/-- No id issued before is the new one. -/
theorem Inv.id_ne (hi : Inv w) {s' id' a' : ℕ} (hmem : (s', id', a') ∈ w.issued) :
    id' ≠ w.registry.nextNativeId + 1 := by
  have := (hi.ids hmem).2
  omega

theorem registered_inv (hi : Inv w) (hphase : w.phase s = .live) (ha : w.bridge a = none) :
    Inv (w.registered t s a) where
  ids := by
    intro s' id' a' hmem
    rcases List.mem_cons.mp hmem with heq | hmem
    · obtain ⟨-, rfl, -⟩ : s' = s ∧ id' = w.registry.nextNativeId + 1 ∧ a' = a := by simpa using heq
      exact ⟨Nat.succ_pos _, le_refl _⟩
    · exact ⟨(hi.ids hmem).1, Nat.le_succ_of_le (hi.ids hmem).2⟩
  ids_once := by
    refine List.nodup_cons.mpr ⟨?_, hi.ids_once⟩
    intro hmem
    obtain ⟨⟨s', id', a'⟩, hmem, heq⟩ := List.mem_map.mp hmem
    exact hi.id_ne hmem heq
  released id hmem := Nat.le_succ_of_le (hi.released id hmem)
  registry id' a' := by
    show (w.registry.envs.insert _ a).lookup id' = some a' ↔ _
    rw [Table.lookup_insert_iff, hi.registry]
    simp only [holds_registered hi]
    constructor
    · rintro (⟨rfl, rfl⟩ | ⟨-, s', hh⟩)
      · exact ⟨s, .inl ⟨rfl, rfl, rfl⟩⟩
      · exact ⟨s', .inr hh⟩
    · rintro ⟨s', ⟨-, rfl, rfl⟩ | hh⟩
      · exact .inl ⟨rfl, rfl⟩
      · exact .inr ⟨hi.id_ne hh.1, s', hh⟩
  envs s' id' a' := by
    by_cases hs : s' = s
    · subst hs
      have hne : w.phase s' ≠ .gone := by rw [hphase]; simp
      show ((update w.stores s' _ s').napiEnvs).lookup id' = some a' ↔ _
      rw [update_self, Table.lookup_insert_iff, hi.envs, holds_registered hi]
      constructor
      · rintro (⟨rfl, rfl⟩ | ⟨-, hh, hp⟩)
        · exact ⟨.inl ⟨rfl, rfl, rfl⟩, hne⟩
        · exact ⟨.inr hh, hp⟩
      · rintro ⟨⟨-, rfl, rfl⟩ | hh, hp⟩
        · exact .inl ⟨rfl, rfl⟩
        · exact .inr ⟨hi.id_ne hh.1, hh, hp⟩
    · show ((update w.stores s _ s').napiEnvs).lookup id' = some a' ↔ _
      rw [update_of_ne hs, hi.envs, holds_registered hi]
      simp [hs, World.registered]
  states s' id' a' := by
    by_cases hs : s' = s
    · subst hs
      have hne : w.phase s' ≠ .gone := by rw [hphase]; simp
      show ((update w.stores s' _ s').napiStateToGuestEnv).lookup a' = some id' ↔ _
      rw [update_self, Table.lookup_insert_iff, hi.states, holds_registered hi]
      constructor
      · rintro (⟨rfl, rfl⟩ | ⟨-, hh, hp⟩)
        · exact ⟨.inl ⟨rfl, rfl, rfl⟩, hne⟩
        · exact ⟨.inr hh, hp⟩
      · rintro ⟨⟨-, rfl, rfl⟩ | hh, hp⟩
        · exact .inl ⟨rfl, rfl⟩
        · exact .inr ⟨hi.ne_of_free ha hh, hh, hp⟩
    · show ((update w.stores s _ s').napiStateToGuestEnv).lookup a' = some id' ↔ _
      rw [update_of_ne hs, hi.states, holds_registered hi]
      simp [hs, World.registered]
  scopes := by
    intro s' scope id' hl
    have hold : (w.stores s').napiScopes.lookup scope = some id' → scope = id' ∧ w.phase s' ≠ .gone ∧
        ∃ a' e, (w.registered t s a).Holds s' id' a' ∧ (w.registered t s a).bridge a' = some e ∧
          e.closing = false := by
      intro hl
      obtain ⟨heq, hp, a', e, hh, he, hclosing⟩ := hi.scopes hl
      refine ⟨heq, hp, a', e, (holds_registered hi).mpr (.inr hh), ?_, hclosing⟩
      exact (update_of_ne (hi.ne_of_free ha hh) _ _).trans he
    by_cases hs : s' = s
    · subst hs
      have hl : (update w.stores s' _ s').napiScopes.lookup scope = some id' := hl
      rw [update_self, Table.lookup_insert_iff] at hl
      rcases hl with ⟨rfl, rfl⟩ | ⟨-, hl⟩
      · refine ⟨rfl, by show w.phase s' ≠ _; rw [hphase]; simp, a, _,
          (holds_registered hi).mpr (.inl ⟨rfl, rfl, rfl⟩), update_self .., rfl⟩
      · exact hold hl
    · have hl : (update w.stores s _ s').napiScopes.lookup scope = some id' := hl
      rw [update_of_ne hs] at hl
      exact hold hl
  has_scope := by
    intro s' id' a' e hlive hh he hclosing
    show (update w.stores s _ s').napiScopes.lookup id' = some id'
    rcases (holds_registered hi).mp hh with ⟨rfl, rfl, rfl⟩ | hold
    · rw [update_self]
      exact AList.lookup_insert _
    · have he : update w.bridge a _ a' = some e := he
      rw [update_of_ne (hi.ne_of_free ha hold)] at he
      have hscope := hi.has_scope hlive hold he hclosing
      by_cases hs : s' = s
      · subst hs
        rw [update_self]
        exact (AList.lookup_insert_ne (hi.id_ne hold.1)).trans hscope
      · rw [update_of_ne hs]
        exact hscope
  held := by
    intro s' id' a' hh
    rcases (holds_registered hi).mp hh with ⟨rfl, rfl, rfl⟩ | hh
    · exact ⟨_, update_self .., rfl, fun _ => rfl⟩
    · obtain ⟨e, he, hrest⟩ := hi.held hh
      exact ⟨e, (update_of_ne (hi.ne_of_free ha hh) _ _).trans he, hrest⟩
  once := by
    intro s₁ id₁ a₁ s₂ id₂ h₁ h₂
    rcases (holds_registered hi).mp h₁ with ⟨-, hid₁, ha₁⟩ | hw₁
    · rcases (holds_registered hi).mp h₂ with ⟨-, hid₂, -⟩ | hw₂
      · exact hid₁.trans hid₂.symm
      · exact absurd ha₁ (hi.ne_of_free ha hw₂)
    · rcases (holds_registered hi).mp h₂ with ⟨-, -, ha₂⟩ | hw₂
      · exact absurd ha₂ (hi.ne_of_free ha hw₁)
      · exact hi.once hw₁ hw₂
  underway := by
    intro s' id' a' hmem
    obtain ⟨hh, hp, e, he, hrest⟩ := hi.underway hmem
    refine ⟨(holds_registered hi).mpr (.inr hh), hp, e, ?_, hrest⟩
    exact (update_of_ne (hi.ne_of_free ha hh) _ _).trans he
  underway_once := hi.underway_once
  log_once := by
    refine List.nodup_cons.mpr ⟨?_, hi.log_once⟩
    rw [hi.retained]
    rintro ⟨s', hmem⟩
    exact hi.id_ne hmem rfl
  retained id' a' := by
    show _ ∈ _ :: w.log ↔ ∃ s', _ ∈ _ :: w.issued
    simp only [List.mem_cons, hi.retained, Prod.mk.injEq, BridgeCall.retainEnv.injEq]
    constructor
    · rintro (⟨rfl, rfl⟩ | ⟨s', hmem⟩)
      · exact ⟨s, .inl ⟨rfl, rfl, rfl⟩⟩
      · exact ⟨s', .inr hmem⟩
    · rintro ⟨s', ⟨-, rfl, rfl⟩ | hmem⟩
      · exact .inl ⟨rfl, rfl⟩
      · exact .inr ⟨s', hmem⟩
  unretained id' a' := by
    show _ ∈ _ :: w.log ↔ (∃ s', _ ∈ _ :: w.issued) ∧ id' ∈ w.released
    simp only [List.mem_cons, hi.unretained, Prod.mk.injEq]
    constructor
    · rintro (⟨-, hcall⟩ | ⟨⟨s', hmem⟩, hrel⟩)
      · cases hcall
      · exact ⟨⟨s', .inr hmem⟩, hrel⟩
    · rintro ⟨⟨s', ⟨-, rfl, -⟩ | hmem⟩, hrel⟩
      · have := hi.released _ hrel
        omega
      · exact .inr ⟨⟨s', hmem⟩, hrel⟩

theorem create_inv (hi : Inv w) (hphase : w.phase s = .live) (ha : w.bridge a = none) :
    Inv (w.create t s a) := by
  by_cases hid : w.registry.nextNativeId + 1 < 2 ^ 32
  · rw [create_eq_registered hid]
    exact registered_inv hi hphase ha
  · have hcreate : w.create t s a = { w with bridge := update w.bridge a (some { owner := t }) } := by
      rw [World.create, registerNapiEnv, Word.checkedAdd, if_neg hid]
      rfl
    rw [hcreate]
    refine hi.setBridge ?_
    intro s' id' a' e hh he
    exact ⟨e, by rw [update_of_ne (hi.ne_of_free ha hh), he], rfl, rfl, rfl⟩

end

/-! ## A release -/

section

variable {t s id a : ℕ} {e : EnvState}

theorem finish_refused : w.finish s id a releaseRefused = w := by
  simp [World.finish, finishUnregisterNapiEnv]

/-- `w` with a release begun and under way. -/
def World.begun (w : World) (s id a : ℕ) (e : EnvState) : World :=
  { w with
    stores := update w.stores s { w.stores s with napiScopes := (w.stores s).napiScopes.erase id }
    bridge := update w.bridge a (some { e with closing := true })
    underway := update w.underway s ((id, a) :: w.underway s) }

theorem begun_inv (hi : Inv w) (hphase : w.phase s ≠ .gone) (hh : w.Holds s id a)
    (he : w.bridge a = some e) (hclosing : e.closing = false) : Inv (w.begun s id a e) := by
  have halive : e.alive = true := by
    obtain ⟨e', he', -, halive⟩ := hi.held hh
    obtain rfl := Option.some.inj (he'.symm.trans he)
    exact halive hclosing
  -- The tables but for the scopes, and every env but this one.
  have hother : ∀ {s' id' a'}, w.Holds s' id' a' → id' ≠ id → a' ≠ a := by
    rintro s' id' a' hh' hne rfl
    exact hne (hi.once hh' hh)
  exact {
    ids := hi.ids
    ids_once := hi.ids_once
    released := hi.released
    registry := hi.registry
    envs s' id' a' := by
      show (update w.stores s _ s').napiEnvs.lookup id' = some a' ↔ _
      by_cases hs : s' = s
      · rw [hs, update_self]
        exact hi.envs s id' a'
      · rw [update_of_ne hs]
        exact hi.envs s' id' a'
    states s' id' a' := by
      show (update w.stores s _ s').napiStateToGuestEnv.lookup a' = some id' ↔ _
      by_cases hs : s' = s
      · rw [hs, update_self]
        exact hi.states s id' a'
      · rw [update_of_ne hs]
        exact hi.states s' id' a'
    scopes := by
      intro s' scope id' hl
      have hl : (update w.stores s _ s').napiScopes.lookup scope = some id' := hl
      have hold : (w.stores s').napiScopes.lookup scope = some id' ∧ (s' = s → scope ≠ id) := by
        by_cases hs : s' = s
        · subst hs
          rw [update_self, Table.lookup_erase_iff] at hl
          exact ⟨hl.2, fun _ => hl.1⟩
        · rw [update_of_ne hs] at hl
          exact ⟨hl, fun heq => absurd heq hs⟩
      obtain ⟨heq, hphase', a', e', hh', he', hclosing'⟩ := hi.scopes hold.1
      have hne : id' ≠ id := by
        intro hid
        refine hold.2 ?_ (heq.trans hid)
        subst hid
        exact (hi.unique hh'.1 hh.1).1
      exact ⟨heq, hphase', a', e', hh', (update_of_ne (hother hh' hne) _ _).trans he', hclosing'⟩
    has_scope := by
      intro s' id' a' e' hlive hh' he' hclosing'
      have he' : update w.bridge a _ a' = some e' := he'
      have hne : a' ≠ a := by
        rintro rfl
        rw [update_self] at he'
        cases he'
        cases hclosing'
      rw [update_of_ne hne] at he'
      have hid : id' ≠ id := by
        rintro rfl
        exact hne (hi.unique hh'.1 hh.1).2
      have hscope := hi.has_scope hlive hh' he' hclosing'
      show (update w.stores s _ s').napiScopes.lookup id' = some id'
      by_cases hs : s' = s
      · subst hs
        rw [update_self]
        exact (AList.lookup_erase_ne hid).trans hscope
      · rw [update_of_ne hs]
        exact hscope
    held := by
      intro s' id' a' hh'
      obtain ⟨e', he', hholders, halive'⟩ := hi.held hh'
      by_cases heq : a' = a
      · subst heq
        obtain rfl := Option.some.inj (he'.symm.trans he)
        exact ⟨_, update_self .., hholders, nofun⟩
      · exact ⟨e', (update_of_ne heq _ _).trans he', hholders, halive'⟩
    once := hi.once
    underway := by
      intro s' id' a' hmem
      have hmem : (id', a') ∈ update w.underway s ((id, a) :: w.underway s) s' := hmem
      have hnew : (s' = s ∧ id' = id ∧ a' = a) ∨ (id', a') ∈ w.underway s' := by
        by_cases hs : s' = s
        · subst hs
          rw [update_self] at hmem
          rcases List.mem_cons.mp hmem with heq | hmem
          · exact .inl ⟨rfl, congrArg Prod.fst heq, congrArg Prod.snd heq⟩
          · exact .inr hmem
        · rw [update_of_ne hs] at hmem
          exact .inr hmem
      rcases hnew with ⟨rfl, rfl, rfl⟩ | hmem
      · exact ⟨hh, hphase, _, update_self .., rfl, halive⟩
      · obtain ⟨hh', hphase', e', he', hclosing', halive'⟩ := hi.underway hmem
        by_cases heq : a' = a
        · subst heq
          exact ⟨hh', hphase', _, update_self .., rfl, halive⟩
        · exact ⟨hh', hphase', e', (update_of_ne heq _ _).trans he', hclosing', halive'⟩
    underway_once s' := by
      show (update w.underway s _ s').Nodup
      by_cases hs : s' = s
      · subst hs
        rw [update_self]
        refine List.nodup_cons.mpr ⟨?_, hi.underway_once s'⟩
        intro hmem
        obtain ⟨-, -, e', he', hclosing', -⟩ := hi.underway hmem
        obtain rfl := Option.some.inj (he'.symm.trans he)
        rw [hclosing] at hclosing'
        cases hclosing'
      · rw [update_of_ne hs]
        exact hi.underway_once s'
    log_once := hi.log_once
    retained := hi.retained
    unretained := hi.unretained }

/-- `w` with an env gone from every table. -/
def World.left (w : World) (s id a : ℕ) : World :=
  { w with
    registry := { w.registry with envs := w.registry.envs.erase id }
    stores := update w.stores s { w.stores s with
      envHeapCharges := (w.stores s).envHeapCharges.erase id
      napiEnvs := (w.stores s).napiEnvs.erase id
      napiStateToGuestEnv := (w.stores s).napiStateToGuestEnv.erase a }
    bridge := update w.bridge a none
    released := id :: w.released
    log := (id, .unretainEnv a) :: w.log }

/-- With one holder left, the one that finishes the release is the last. -/
theorem finish_eq_left (hi : Inv w) (hh : w.Holds s id a) (he : w.bridge a = some e)
    (hholders : e.holders = 1) {status : ℤ} (hstatus : status ≠ releaseRefused) :
    w.finish s id a status = w.left s id a := by
  have hreg : w.registry.envs.lookup id = some a := (hi.registry id a).mpr ⟨s, hh⟩
  simp [World.finish, finishUnregisterNapiEnv, hstatus, hreg, World.left, Bridge.perform,
    Bridge.dropHolder, he, hholders]

theorem left_inv (hi : Inv w) (hh : w.Holds s id a) (hphase : w.phase s ≠ .gone)
    (he : w.bridge a = some e) (hclosing : e.closing = true)
    (hnot : ∀ s', (id, a) ∉ w.underway s') : Inv (w.left s id a) := by
  have hholds : ∀ {s' id' a'}, (w.left s id a).Holds s' id' a' ↔ w.Holds s' id' a' ∧ id' ≠ id := by
    intro s' id' a'
    show (s', id', a') ∈ w.issued ∧ id' ∉ id :: w.released ↔ _
    rw [List.mem_cons, not_or]
    exact ⟨fun h => ⟨⟨h.1, h.2.2⟩, h.2.1⟩, fun h => ⟨h.1.1, h.2, h.1.2⟩⟩
  have hother : ∀ {s' id' a'}, w.Holds s' id' a' → (a' ≠ a ↔ id' ≠ id) := by
    intro s' id' a' hh'
    refine not_congr ⟨?_, ?_⟩
    · rintro rfl
      exact hi.once hh' hh
    · rintro rfl
      exact (hi.unique hh'.1 hh.1).2
  have hstore : ∀ {s' id' a'}, w.Holds s' id' a' → s' ≠ s → id' ≠ id := by
    rintro s' id' a' hh' hs rfl
    exact hs (hi.unique hh'.1 hh.1).1
  have hle : id ≤ w.registry.nextNativeId := (hi.ids hh.1).2
  exact {
    ids := hi.ids
    ids_once := hi.ids_once
    released id' hmem := by
      rcases List.mem_cons.mp hmem with rfl | hmem
      · exact hle
      · exact hi.released id' hmem
    registry id' a' := by
      show (w.registry.envs.erase id).lookup id' = some a' ↔ _
      rw [Table.lookup_erase_iff, hi.registry]
      simp only [hholds]
      exact ⟨fun ⟨hne, s', hh'⟩ => ⟨s', hh', hne⟩, fun ⟨s', hh', hne⟩ => ⟨hne, s', hh'⟩⟩
    envs s' id' a' := by
      show (update w.stores s _ s').napiEnvs.lookup id' = some a' ↔ _ ∧ w.phase s' ≠ .gone
      rw [hholds]
      by_cases hs : s' = s
      · subst hs
        rw [update_self, Table.lookup_erase_iff, hi.envs]
        tauto
      · rw [update_of_ne hs, hi.envs]
        exact ⟨fun h => ⟨⟨h.1, hstore h.1 hs⟩, h.2⟩, fun h => ⟨h.1.1, h.2⟩⟩
    states s' id' a' := by
      show (update w.stores s _ s').napiStateToGuestEnv.lookup a' = some id' ↔ _ ∧ w.phase s' ≠ .gone
      rw [hholds]
      by_cases hs : s' = s
      · subst hs
        rw [update_self, Table.lookup_erase_iff, hi.states]
        exact ⟨fun h => ⟨⟨h.2.1, (hother h.2.1).mp h.1⟩, h.2.2⟩,
          fun h => ⟨(hother h.1.1).mpr h.1.2, h.1.1, h.2⟩⟩
      · rw [update_of_ne hs, hi.states]
        exact ⟨fun h => ⟨⟨h.1, hstore h.1 hs⟩, h.2⟩, fun h => ⟨h.1.1, h.2⟩⟩
    scopes := by
      intro s' scope id' hl
      have hl : (w.stores s').napiScopes.lookup scope = some id' := by
        have hl : (update w.stores s _ s').napiScopes.lookup scope = some id' := hl
        by_cases hs : s' = s
        · subst hs
          rwa [update_self] at hl
        · rwa [update_of_ne hs] at hl
      obtain ⟨heq, hphase', a', e', hh', he', hclosing'⟩ := hi.scopes hl
      have hne : a' ≠ a := by
        rintro rfl
        obtain rfl := Option.some.inj (he'.symm.trans he)
        rw [hclosing] at hclosing'
        cases hclosing'
      exact ⟨heq, hphase', a', e', hholds.mpr ⟨hh', (hother hh').mp hne⟩,
        (update_of_ne hne _ _).trans he', hclosing'⟩
    has_scope := by
      intro s' id' a' e' hlive hh' he' hclosing'
      obtain ⟨hh', hid⟩ := hholds.mp hh'
      have he' : update w.bridge a none a' = some e' := he'
      rw [update_of_ne ((hother hh').mpr hid)] at he'
      have hscope := hi.has_scope hlive hh' he' hclosing'
      show (update w.stores s _ s').napiScopes.lookup id' = some id'
      by_cases hs : s' = s
      · subst hs
        rw [update_self]
        exact hscope
      · rw [update_of_ne hs]
        exact hscope
    held := by
      intro s' id' a' hh'
      obtain ⟨hh', hid⟩ := hholds.mp hh'
      obtain ⟨e', he', hrest⟩ := hi.held hh'
      exact ⟨e', (update_of_ne ((hother hh').mpr hid) _ _).trans he', hrest⟩
    once := by
      intro s₁ id₁ a₁ s₂ id₂ h₁ h₂
      exact hi.once (hholds.mp h₁).1 (hholds.mp h₂).1
    underway := by
      intro s' id' a' hmem
      obtain ⟨hh', hphase', e', he', hrest⟩ := hi.underway hmem
      have hne : a' ≠ a := by
        rintro rfl
        obtain rfl := hi.once hh' hh
        exact hnot s' hmem
      exact ⟨hholds.mpr ⟨hh', (hother hh').mp hne⟩, hphase', e',
        (update_of_ne hne _ _).trans he', hrest⟩
    underway_once := hi.underway_once
    log_once := by
      refine List.nodup_cons.mpr ⟨?_, hi.log_once⟩
      rw [hi.unretained]
      exact fun h => hh.2 h.2
    retained id' a' := by
      show _ ∈ _ :: w.log ↔ _
      rw [List.mem_cons, hi.retained]
      exact or_iff_right (by simp)
    unretained id' a' := by
      show _ ∈ _ :: w.log ↔ _ ∧ id' ∈ id :: w.released
      rw [List.mem_cons, hi.unretained, List.mem_cons, Prod.mk.injEq, BridgeCall.unretainEnv.injEq]
      constructor
      · rintro (⟨rfl, rfl⟩ | ⟨hmem, hrel⟩)
        · exact ⟨⟨s, hh.1⟩, .inl rfl⟩
        · exact ⟨hmem, .inr hrel⟩
      · rintro ⟨⟨s', hmem⟩, rfl | hrel⟩
        · exact .inl ⟨rfl, (hi.unique hmem hh.1).2⟩
        · exact .inr ⟨⟨s', hmem⟩, hrel⟩ }

/-- The env that a release took down, and the releases around it. -/
theorem torn_inv (hi : Inv w) {rest : List (ℕ × ℕ)} (hu : w.underway s = (id, a) :: rest) :
    w.Holds s id a ∧ w.phase s ≠ .gone ∧
      (∃ e, w.bridge.tearDown a a = some e ∧ e.closing = true ∧ e.holders = 1) ∧
      (∀ s', (id, a) ∉ update w.underway s rest s') ∧
      Inv { w with bridge := w.bridge.tearDown a, underway := update w.underway s rest } := by
  have hmem : (id, a) ∈ w.underway s := hu ▸ List.mem_cons_self ..
  obtain ⟨hh, hphase, e, he, hclosing, halive⟩ := hi.underway hmem
  obtain ⟨e', he', hholders, -⟩ := hi.held hh
  obtain rfl := Option.some.inj (he'.symm.trans he)
  rw [halive, if_pos rfl] at hholders
  have htorn : w.bridge.tearDown a =
      update w.bridge a (some { e' with alive := false, holders := 1 }) := by
    simp [Bridge.tearDown, Bridge.dropHolder, he, hholders]
  have hnot : ∀ s', (id, a) ∉ update w.underway s rest s' := by
    intro s'
    by_cases hs : s' = s
    · subst hs
      rw [update_self]
      have hnodup := hi.underway_once s'
      rw [hu] at hnodup
      exact (List.nodup_cons.mp hnodup).1
    · rw [update_of_ne hs]
      intro hmem'
      exact hs (hi.unique (hi.underway hmem').1.1 hh.1).1
  have hold : ∀ {s' id' a'}, (id', a') ∈ update w.underway s rest s' → (id', a') ∈ w.underway s' := by
    intro s' id' a' hmem'
    by_cases hs : s' = s
    · subst hs
      rw [update_self] at hmem'
      exact hu ▸ List.mem_cons_of_mem _ hmem'
    · rwa [update_of_ne hs] at hmem'
  refine ⟨hh, hphase, ⟨{ e' with alive := false, holders := 1 }, ?_, hclosing, rfl⟩, hnot, ?_⟩
  · rw [htorn, update_self]
  rw [htorn]
  refine hi.setEngine ?_ ?_ ?_
  · intro s' id' a' e₁ hh' he₁
    by_cases heq : a' = a
    · subst heq
      obtain rfl := Option.some.inj (he₁.symm.trans he)
      refine ⟨_, update_self .., rfl, ?_, rfl⟩
      intro hopen
      rw [show (e₁.closing = true) from hclosing] at hopen
      cases hopen
    · obtain ⟨e₂, he₂, hrest⟩ := hi.held hh'
      obtain rfl := Option.some.inj (he₂.symm.trans he₁)
      exact ⟨e₂, (update_of_ne heq _ _).trans he₂, hrest.1, hrest.2, rfl⟩
  · intro s' id' a' hmem'
    refine ⟨hold hmem', ?_⟩
    intro e₁ he₁
    obtain ⟨hh', -, e₂, he₂, -, halive₂⟩ := hi.underway (hold hmem')
    have hne : a' ≠ a := by
      rintro rfl
      obtain rfl := hi.once hh' hh
      exact hnot s' hmem'
    rw [update_of_ne hne, he₂] at he₁
    cases he₁
    exact halive₂
  · intro s'
    by_cases hs : s' = s
    · subst hs
      rw [update_self]
      have hnodup := hi.underway_once s'
      rw [hu] at hnodup
      exact (List.nodup_cons.mp hnodup).2
    · rw [update_of_ne hs]
      exact hi.underway_once s'

theorem finish_inv (hi : Inv w) {rest : List (ℕ × ℕ)} (hu : w.underway s = (id, a) :: rest) (status : ℤ) :
    Inv (({ w with
      bridge := w.bridge.tearDown a
      underway := update w.underway s rest } : World).finish s id a status) := by
  obtain ⟨hh, hphase, ⟨e, he, hclosing, hholders⟩, hnot, htorn⟩ := torn_inv hi hu
  by_cases hstatus : status = releaseRefused
  · rw [hstatus, finish_refused]
    exact htorn
  · rw [finish_eq_left htorn hh he hholders hstatus]
    exact left_inv htorn hh hphase he hclosing hnot

/-- `begin_unregister_napi_scope` knows the scope, and with it an env that no release has begun
    on, or does nothing. -/
theorem begin_cases (hi : Inv w) (scope : ℕ) :
    (napiScopeEnv (w.stores s) scope = none ∧
      beginUnregisterNapiScope (w.stores s) scope = (none, w.stores s)) ∨
    ∃ a e, napiScopeEnv (w.stores s) scope = some a ∧ w.Holds s scope a ∧ w.phase s ≠ .gone ∧
      w.bridge a = some e ∧ e.closing = false ∧ e.alive = true ∧
      beginUnregisterNapiScope (w.stores s) scope = (some (scope, a),
        { w.stores s with napiScopes := (w.stores s).napiScopes.erase scope }) := by
  cases hl : (w.stores s).napiScopes.lookup scope with
  | none =>
    left
    simp [napiScopeEnv, beginUnregisterNapiScope, hl]
  | some id =>
    right
    obtain ⟨rfl, hphase, a, e, hh, he, hclosing⟩ := hi.scopes hl
    obtain ⟨e', he', -, halive⟩ := hi.held hh
    obtain rfl := Option.some.inj (he'.symm.trans he)
    have henv : (w.stores s).napiEnvs.lookup scope = some a := (hi.envs s scope a).mpr ⟨hh, hphase⟩
    refine ⟨a, e', ?_, hh, hphase, he, hclosing, halive hclosing, ?_⟩
    · simp [napiScopeEnv, hl, henv]
    · simp [beginUnregisterNapiScope, hl, henv]

/-- The question and the answer: an env that is not closing is refused just when the bridge said so. -/
theorem disposeBridgeState_eq (halive : e.alive = true) (hclosing : e.closing = false) :
    disposeBridgeState t e =
      if envReleaseRefused t (some e) = true then none else some { e with closing := true } := by
  by_cases howner : e.owner = t
  · by_cases hcalls : e.guestCalls = 0
    · simp [disposeBridgeState, envReleaseRefused, halive, hclosing, howner, hcalls]
    · simp [disposeBridgeState, envReleaseRefused, halive, hclosing, howner, hcalls]
  · simp [disposeBridgeState, envReleaseRefused, halive, howner]

theorem setStore_self : w.setStore s (w.stores s) = w := by
  simp [World.setStore]

/-- What the release of an env that is not closing does. -/
theorem release_eq (he : w.bridge a = some e) (halive : e.alive = true) (hclosing : e.closing = false) :
    (w.setStore s { w.stores s with napiScopes := (w.stores s).napiScopes.erase id }).release t s id a =
      if envReleaseRefused t (w.bridge a) = true then
        (w.setStore s { w.stores s with napiScopes := (w.stores s).napiScopes.erase id },
          some releaseRefused)
      else (w.begun s id a e, none) := by
  have hask : ((w.setStore s { w.stores s with
      napiScopes := (w.stores s).napiScopes.erase id }).bridge a).bind (disposeBridgeState t) =
        if envReleaseRefused t (w.bridge a) = true then none else some { e with closing := true } := by
    show (w.bridge a).bind _ = _
    rw [he, Option.bind_some, disposeBridgeState_eq halive hclosing]
  rw [World.release, hask]
  by_cases hrefused : envReleaseRefused t (w.bridge a) = true
  · rw [if_pos hrefused, if_pos hrefused]
    dsimp only
    rw [finish_refused]
  · rw [if_neg hrefused, if_neg hrefused]
    rfl

/-- **The release import.** It refuses, or does not know the scope, and leaves everything as it
    was; or the release of the env that the scope stands for is under way. -/
theorem releaseEnv_cases (hi : Inv w) (t s scope : ℕ) :
    (∃ status, w.releaseEnv t s scope = (w, some status) ∧
      ∀ a, napiScopeEnv (w.stores s) scope = some a → envReleaseRefused t (w.bridge a) = true) ∨
    ∃ a e, napiScopeEnv (w.stores s) scope = some a ∧ envReleaseRefused t (w.bridge a) = false ∧
      w.Holds s scope a ∧ w.phase s ≠ .gone ∧ w.bridge a = some e ∧ e.closing = false ∧
      w.releaseEnv t s scope = (w.begun s scope a e, none) := by
  rcases begin_cases hi (s := s) scope with ⟨hscope, hbegin⟩ |
    ⟨a, e, hscope, hh, hphase, he, hclosing, halive, hbegin⟩
  · left
    refine ⟨1, by simp [World.releaseEnv, hscope, hbegin, setStore_self], ?_⟩
    intro a ha
    rw [hscope] at ha
    cases ha
  · by_cases hrefused : envReleaseRefused t (w.bridge a) = true
    · left
      refine ⟨releaseRefused, by simp [World.releaseEnv, hscope, hrefused], ?_⟩
      intro a' ha'
      obtain rfl := Option.some.inj (hscope.symm.trans ha')
      exact hrefused
    · right
      refine ⟨a, e, hscope, by simpa using hrefused, hh, hphase, he, hclosing, ?_⟩
      have hask : (napiScopeEnv (w.stores s) scope).map (fun a => envReleaseRefused t (w.bridge a)) ≠
          some true := by
        rw [hscope]
        simpa using hrefused
      rw [World.releaseEnv, if_neg hask, hbegin]
      dsimp only
      rw [release_eq he halive hclosing, if_neg hrefused]

/-- The scopes of a store that is being dropped go one by one. -/
theorem erase_inv (hi : Inv w) (hphase : w.phase s ≠ .live) :
    Inv (w.setStore s { w.stores s with napiScopes := (w.stores s).napiScopes.erase id }) := by
  refine { hi with envs := ?_, states := ?_, scopes := ?_, has_scope := ?_ }
  · intro s' id' a'
    show (update w.stores s _ s').napiEnvs.lookup id' = some a' ↔ _
    by_cases hs : s' = s
    · rw [hs, update_self]
      exact hi.envs s id' a'
    · rw [update_of_ne hs]
      exact hi.envs s' id' a'
  · intro s' id' a'
    show (update w.stores s _ s').napiStateToGuestEnv.lookup a' = some id' ↔ _
    by_cases hs : s' = s
    · rw [hs, update_self]
      exact hi.states s id' a'
    · rw [update_of_ne hs]
      exact hi.states s' id' a'
  · intro s' scope id' hl
    have hl : (update w.stores s _ s').napiScopes.lookup scope = some id' := hl
    by_cases hs : s' = s
    · subst hs
      rw [update_self, Table.lookup_erase_iff] at hl
      exact hi.scopes hl.2
    · rw [update_of_ne hs] at hl
      exact hi.scopes hl
  · intro s' id' a' e' hlive hh he hclosing
    have hs : s' ≠ s := by
      rintro rfl
      exact hphase hlive
    show (update w.stores s _ s').napiScopes.lookup id' = some id'
    rw [update_of_ne hs]
    exact hi.has_scope hlive hh he hclosing

theorem dropScope_inv (hi : Inv w) (hphase : w.phase s ≠ .live) (scope : ℕ) :
    Inv (w.dropScope t s scope) := by
  rcases begin_cases hi (s := s) scope with ⟨-, hbegin⟩ | ⟨a, e, -, hh, hgone, he, hclosing, halive, hbegin⟩
  · rw [World.dropScope, hbegin]
    dsimp only
    rw [setStore_self]
    exact hi
  · rw [World.dropScope, hbegin]
    dsimp only
    rw [release_eq he halive hclosing]
    split
    · exact erase_inv hi hphase
    · exact begun_inv hi hgone hh he hclosing

/-- A store goes on to another phase: its own envs do not go by whether it serves its guest. -/
theorem setPhase_inv (hi : Inv w) {p : Phase} (hphase : w.phase s ≠ .gone) (hp : p ≠ .gone)
    (hlive : p ≠ .live) : Inv { w with phase := update w.phase s p } := by
  have hgone : ∀ s', update w.phase s p s' ≠ .gone ↔ w.phase s' ≠ .gone := by
    intro s'
    by_cases hs : s' = s
    · rw [hs, update_self]
      exact iff_of_true hp hphase
    · rw [update_of_ne hs]
  refine { hi with envs := ?_, states := ?_, scopes := ?_, has_scope := ?_, underway := ?_ }
  · intro s' id' a'
    exact (hi.envs s' id' a').trans (and_congr_right fun _ => (hgone s').symm)
  · intro s' id' a'
    exact (hi.states s' id' a').trans (and_congr_right fun _ => (hgone s').symm)
  · intro s' scope id' hl
    obtain ⟨heq, hp', hrest⟩ := hi.scopes hl
    exact ⟨heq, (hgone s').mpr hp', hrest⟩
  · intro s' id' a' e' hl hh he hclosing
    have hl : update w.phase s p s' = .live := hl
    by_cases hs : s' = s
    · rw [hs, update_self] at hl
      exact absurd hl hlive
    · rw [update_of_ne hs] at hl
      exact hi.has_scope hl hh he hclosing
  · intro s' id' a' hmem
    obtain ⟨hh, hp', hrest⟩ := hi.underway hmem
    exact ⟨hh, (hgone s').mpr hp', hrest⟩

theorem dropped_inv (hi : Inv w) (hu : w.underway s = []) :
    Inv { w with
      phase := update w.phase s .gone
      stores := update w.stores s {} } := by
  refine { hi with envs := ?_, states := ?_, scopes := ?_, has_scope := ?_, underway := ?_ }
  · intro s' id' a'
    show (update w.stores s _ s').napiEnvs.lookup id' = some a' ↔
      _ ∧ update w.phase s _ s' ≠ .gone
    by_cases hs : s' = s
    · rw [hs, update_self, update_self]
      simp
    · rw [update_of_ne hs, update_of_ne hs]
      exact hi.envs s' id' a'
  · intro s' id' a'
    show (update w.stores s _ s').napiStateToGuestEnv.lookup a' = some id' ↔
      _ ∧ update w.phase s _ s' ≠ .gone
    by_cases hs : s' = s
    · rw [hs, update_self, update_self]
      simp
    · rw [update_of_ne hs, update_of_ne hs]
      exact hi.states s' id' a'
  · intro s' scope id' hl
    have hl : (update w.stores s _ s').napiScopes.lookup scope = some id' := hl
    by_cases hs : s' = s
    · rw [hs, update_self] at hl
      cases hl
    · rw [update_of_ne hs] at hl
      obtain ⟨heq, hp', hrest⟩ := hi.scopes hl
      refine ⟨heq, ?_, hrest⟩
      show update w.phase s .gone s' ≠ .gone
      rw [update_of_ne hs]
      exact hp'
  · intro s' id' a' e' hl hh he hclosing
    have hl : update w.phase s .gone s' = .live := hl
    show (update w.stores s _ s').napiScopes.lookup id' = some id'
    by_cases hs : s' = s
    · rw [hs, update_self] at hl
      cases hl
    · rw [update_of_ne hs] at hl ⊢
      exact hi.has_scope hl hh he hclosing
  · intro s' id' a' hmem
    obtain ⟨hh, hp', hrest⟩ := hi.underway hmem
    have hs : s' ≠ s := by
      rintro rfl
      rw [hu] at hmem
      cases hmem
    refine ⟨hh, ?_, hrest⟩
    show update w.phase s .gone s' ≠ .gone
    rw [update_of_ne hs]
    exact hp'

end

/-! ## Runs -/

theorem setCalls_inv (hi : Inv w) {a n : ℕ} {e : EnvState} (he : w.bridge a = some e) :
    Inv { w with bridge := update w.bridge a (some { e with guestCalls := n }) } := by
  refine hi.setBridge ?_
  intro s' id' a' e' hh he'
  by_cases heq : a' = a
  · subst heq
    obtain rfl := Option.some.inj (he'.symm.trans he)
    exact ⟨_, update_self .., rfl, rfl, rfl⟩
  · exact ⟨e', (update_of_ne heq _ _).trans he', rfl, rfl, rfl⟩

theorem step_inv (w : World) (act : Act) (w' : World) (h : step w act = some w') (hi : Inv w) : Inv w' := by
  cases act with
  | create t s a =>
    simp only [step] at h
    split at h
    · next hok =>
      cases h
      exact create_inv hi hok.1 hok.2
    · cases h
  | releaseEnv t s scope =>
    simp only [step] at h
    split at h
    · cases h
      rcases releaseEnv_cases hi t s scope with ⟨status, heq, -⟩ | ⟨a, e, -, -, hh, hphase, he, hclosing, heq⟩
      · rw [heq]
        exact hi
      · rw [heq]
        exact begun_inv hi hphase hh he hclosing
    · cases h
  | finish s status =>
    simp only [step] at h
    cases hu : w.underway s with
    | nil => simp [hu] at h
    | cons p rest =>
      rw [hu] at h
      cases h
      exact finish_inv hi hu status
  | call a =>
    obtain ⟨e, he, rfl⟩ := Option.map_eq_some_iff.mp h
    exact setCalls_inv hi he
  | ret a =>
    obtain ⟨e, he, rfl⟩ := Option.map_eq_some_iff.mp h
    exact setCalls_inv hi he
  | drop s =>
    simp only [step] at h
    split at h
    · next hok =>
      cases h
      exact setPhase_inv hi (by rw [hok.1]; simp) (by simp) (by simp)
    · cases h
  | dropScope t s scope =>
    simp only [step] at h
    cases hphase : w.phase s with
    | live => simp [hphase] at h
    | gone => simp [hphase] at h
    | dropping scopes =>
      simp only [hphase] at h
      split at h
      · cases h
        refine dropScope_inv ?_ ?_ scope
        · exact setPhase_inv hi (by rw [hphase]; simp) (by simp) (by simp)
        · show update w.phase s _ s ≠ .live
          rw [update_self]
          simp
      · cases h
  | dropped s =>
    simp only [step] at h
    split at h
    · next hok =>
      cases h
      exact dropped_inv hi hok.2
    · cases h

theorem init_inv : Inv {} where
  ids hmem := by cases hmem
  ids_once := List.nodup_nil
  released _ hmem := by cases hmem
  registry id a := iff_of_false (by simp) (by rintro ⟨s, hmem, -⟩; cases hmem)
  envs s id a := iff_of_false (by simp) (by rintro ⟨⟨hmem, -⟩, -⟩; cases hmem)
  states s id a := iff_of_false (by simp) (by rintro ⟨⟨hmem, -⟩, -⟩; cases hmem)
  scopes hl := by cases hl
  has_scope _ hh := by cases hh.1
  held hh := by cases hh.1
  once hh := by cases hh.1
  underway hmem := by cases hmem
  underway_once _ := List.nodup_nil
  log_once := List.nodup_nil
  retained id a := iff_of_false (by simp) (by rintro ⟨s, hmem⟩; cases hmem)
  unretained id a := iff_of_false (by simp) (by rintro ⟨⟨s, hmem⟩, -⟩; cases hmem)

/-- What the tables of all stores, the registry and the bridge say together. -/
structure World.Consistent (w : World) : Prop where
  /-- No id is issued twice. -/
  ids_once : (w.issued.map fun r => r.2.1).Nodup
  inverse : ∀ s id a, (w.stores s).napiEnvs.lookup id = some a ↔
    (w.stores s).napiStateToGuestEnv.lookup a = some id
  /-- The registry has what was registered and is not released. -/
  registry : ∀ id a, w.registry.envs.lookup id = some a ↔
    (∃ s, (s, id, a) ∈ w.issued) ∧ id ∉ w.released
  /-- Every registration retains once, and an env that has left the registry was let go once. -/
  log_once : w.log.Nodup
  retained : ∀ id a, (id, .retainEnv a) ∈ w.log ↔ ∃ s, (s, id, a) ∈ w.issued
  unretained : ∀ id a, (id, .unretainEnv a) ∈ w.log ↔
    (∃ s, (s, id, a) ∈ w.issued) ∧ w.registry.envs.lookup id = none
  /-- An id resolves to its env, for the store it was issued to and until it is released; to
      another store, and once released, it is the null env. -/
  resolves : ∀ s id a, resolveNapiEnv (w.stores s) id = some a ↔
    (s, id, a) ∈ w.issued ∧ id ∉ w.released ∧ w.phase s ≠ .gone
  /-- A release that returns an error at once changes nothing. -/
  refused : ∀ t s scope status, (w.releaseEnv t s scope).2 = some status →
    (w.releaseEnv t s scope).1 = w
  /-- One that the bridge refuses is of an env that is alive, resolves and is not closing. -/
  usable : ∀ t s scope a, napiScopeEnv (w.stores s) scope = some a →
    envReleaseRefused t (w.bridge a) = true →
      w.releaseEnv t s scope = (w, some releaseRefused) ∧ resolveNapiEnv (w.stores s) scope = some a ∧
        ∃ e, w.bridge a = some e ∧ e.alive = true ∧ e.closing = false
  /-- An env of a store that serves its guest can be released until a release of it has begun. -/
  releasable : ∀ t s id a e, w.phase s = .live → (s, id, a) ∈ w.issued → id ∉ w.released →
    w.bridge a = some e → e.closing = false → envReleaseRefused t (w.bridge a) = false →
      (w.releaseEnv t s id).2 = none ∧ ((id, a) ∈ (w.releaseEnv t s id).1.underway s)

theorem consistent_of_inv (hi : Inv w) : w.Consistent where
  ids_once := hi.ids_once
  inverse s id a := (hi.envs s id a).trans (hi.states s id a).symm
  registry id a := by
    rw [hi.registry]
    exact ⟨fun ⟨s, hmem, hrel⟩ => ⟨⟨s, hmem⟩, hrel⟩, fun ⟨⟨s, hmem⟩, hrel⟩ => ⟨s, hmem, hrel⟩⟩
  log_once := hi.log_once
  retained := hi.retained
  unretained id a := by
    rw [hi.unretained]
    refine and_congr_right ?_
    rintro ⟨s, hmem⟩
    constructor
    · intro hrel
      cases hl : w.registry.envs.lookup id with
      | none => rfl
      | some a' =>
        obtain ⟨s', hh⟩ := (hi.registry id a').mp hl
        exact absurd hrel hh.2
    · intro hnone
      by_contra hrel
      rw [(hi.registry id a).mpr ⟨s, hmem, hrel⟩] at hnone
      cases hnone
  resolves s id a := by
    have hpos : (s, id, a) ∈ w.issued → id ≠ 0 := fun hmem => Nat.pos_iff_ne_zero.mp (hi.ids hmem).1
    by_cases hid : id = 0
    · rw [resolveNapiEnv, if_pos hid]
      exact iff_of_false (by simp) (fun h => hpos h.1 hid)
    · rw [resolveNapiEnv, if_neg hid, hi.envs]
      exact and_assoc
  refused t s scope status hstatus := by
    rcases releaseEnv_cases hi t s scope with ⟨status', heq, -⟩ | ⟨a, e, -, -, -, -, -, -, heq⟩
    · rw [heq]
    · rw [heq] at hstatus
      cases hstatus
  usable t s scope a hscope hrefused := by
    rcases begin_cases hi (s := s) scope with ⟨hnone, -⟩ | ⟨a', e, hscope', hh, hphase, he, hclosing, halive, -⟩
    · rw [hnone] at hscope
      cases hscope
    · obtain rfl := Option.some.inj (hscope'.symm.trans hscope)
      refine ⟨?_, ?_, e, he, halive, hclosing⟩
      · simp [World.releaseEnv, hscope, hrefused]
      · have hid : scope ≠ 0 := Nat.pos_iff_ne_zero.mp (hi.ids hh.1).1
        rw [resolveNapiEnv, if_neg hid]
        exact (hi.envs s scope a').mpr ⟨hh, hphase⟩
  releasable t s id a e hlive hmem hrel he hclosing hallowed := by
    have hscope := hi.has_scope hlive ⟨hmem, hrel⟩ he hclosing
    have henv := (hi.envs s id a).mpr ⟨⟨hmem, hrel⟩, by rw [hlive]; simp⟩
    have hsome : napiScopeEnv (w.stores s) id = some a := by
      simp [napiScopeEnv, hscope, henv]
    rcases releaseEnv_cases hi t s id with ⟨status, -, hask⟩ | ⟨a', e', hscope', -, -, -, -, -, heq⟩
    · have hrefused := hask a hsome
      rw [hallowed] at hrefused
      cases hrefused
    · obtain rfl := Option.some.inj (hscope'.symm.trans hsome)
      rw [heq]
      refine ⟨rfl, ?_⟩
      show (id, a') ∈ update w.underway s _ s
      rw [update_self]
      exact List.mem_cons_self ..

/-- Whatever the stores of an application do, and whatever the engine answers, their tables, the
    registry and the holders of the bridge agree. -/
theorem registry_consistent {acts : List Act} {w : World} (h : run step {} acts = some w) :
    w.Consistent :=
  consistent_of_inv (invariant step_inv h init_inv)

/-- Two stores; a release refused on another thread, one with an env made and released inside it,
    and a store dropped. -/
theorem releases_consistent : ∃ w : World,
    run step {} [.create 1 0 100, .create 2 1 200, .releaseEnv 2 0 1, .releaseEnv 1 0 1,
      .create 1 0 300, .releaseEnv 1 0 3, .finish 0 0, .finish 0 0, .drop 1, .dropScope 2 1 2,
      .finish 1 0, .dropped 1] = some w ∧ w.Consistent :=
  ⟨_, rfl, registry_consistent (show run step {} [.create 1 0 100, .create 2 1 200, .releaseEnv 2 0 1,
    .releaseEnv 1 0 1, .create 1 0 300, .releaseEnv 1 0 3, .finish 0 0, .finish 0 0, .drop 1,
    .dropScope 2 1 2, .finish 1 0, .dropped 1] = some _ from rfl)⟩

end WasmerNapi.Env.Registry
