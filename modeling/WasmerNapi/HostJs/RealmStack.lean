import WasmerNapi.Lib.Nesting
import WasmerNapi.Lib.Run

/-!
# The realm stack

The guest makes a realm current by entering it, and leaves it with the token it got. A callback or
finalizer starts in a realm of its own; what it leaves open is closed when it returns. All of that
is on one stack: a callback remembers how long the stack was and is cut off there, a scope is left
by its token if it is the last entry. `disciplined_run` says that this does what a `Nesting`
should, `nodup_tokens_iff` that no token comes twice until their 64-bit counter comes round.
-/

namespace WasmerNapi.HostJs.RealmStack

open Run

/-- The context of a realm; none is the env's own. -/
abbrev Realm := Option ℕ

/-- Callbacks have token 0. -/
structure RealmEntry where
  token : UInt64
  realm : Realm

/-- `context` is what the wrapper passes on at each call, `realm` the realm it was made in. -/
structure Function where
  context : Realm
  realm : Realm

/-- A deferred call of a function, with the realm it is to run in. -/
structure PendingCallback where
  function : Function
  realm : Realm

structure HostJsEnv where
  /-- The innermost last. -/
  realmStack : List RealmEntry := []
  nextRealmScope : UInt64 := 1
  pendingCallbacks : List PendingCallback := []

namespace HostJsEnv

def currentRealm (s : HostJsEnv) : Realm := s.realmStack.getLast?.bind RealmEntry.realm

/-- The depth to leave at. -/
def enterCallback (s : HostJsEnv) (realm : Realm) : ℕ × HostJsEnv :=
  let s := { s with realmStack := s.realmStack ++ [{ token := 0, realm }] }
  (s.realmStack.length - 1, s)

/-- The realm the callback ran in. -/
def leaveCallback (s : HostJsEnv) (depth : ℕ) : Realm × HostJsEnv :=
  if depth ≥ s.realmStack.length then (none, s)
  else
    let entries := s.realmStack.take (depth + 1)
    (entries.getLast?.bind RealmEntry.realm, { s with realmStack := entries.dropLast })

/-- The token of the scope; none where the call fails. `named` is the realm that the id names, if
    it is one's: 0 names the env's own. -/
def enterRealm (s : HostJsEnv) (named : Option Realm) (scopeOut : Bool) :
    Option UInt64 × HostJsEnv :=
  if !scopeOut then (none, s)
  else
    match named with
    | none => (none, s)
    | some realm =>
      let token := s.nextRealmScope
      (some token, { s with
        nextRealmScope := token + 1
        realmStack := s.realmStack ++ [{ token, realm }] })

/-- Whether the call returns `NAPI_OK`. -/
def leaveRealm (s : HostJsEnv) (scope : UInt64) : Bool × HostJsEnv :=
  if scope = 0 ∨ s.realmStack.getLast?.map RealmEntry.token ≠ some scope then (false, s)
  else (true, { s with realmStack := s.realmStack.dropLast })

end HostJsEnv

/-! ## Runs -/

/-- What guest code runs for: a call from JavaScript, a deferred one, or an object's end. -/
inductive Origin
  | call (function : Function)
  | deferred (function : Function)
  | finalizer

/-- The realm that guest code belongs in: its function's, and for a finalizer the env's own. -/
def Origin.home : Origin → Realm
  | .call function | .deferred function => function.realm
  | .finalizer => none

/-- Guest code on the stack: the depth its caller keeps, and the realm stack there was before. -/
structure Running where
  origin : Origin
  depth : ℕ
  before : List RealmEntry

/-- The env; the functions there are and the code that runs, innermost first; what the stack is
    for; and the tokens there have been. -/
structure State where
  env : HostJsEnv := {}
  functions : List Function := []
  running : List Running := []
  nest : Nesting UInt64 Realm := .outermost []
  issued : List UInt64 := []

inductive Act
  | enterRealm (named : Option Realm) (scopeOut : Bool)
  | leaveRealm (scope : UInt64)
  | createFunction
  /-- Guest code is started: a function called, or the first deferred call or a finalizer taken by
      a drain. -/
  | call (function : ℕ)
  | drain
  | finalize
  /-- The guest code that runs returns, or says that its call is deferred. -/
  | finish (deferred : Bool)

namespace State

def start (s : State) (origin : Origin) (realm : Realm) : State :=
  let entered := s.env.enterCallback realm
  { s with
    env := entered.2
    running := { origin, depth := entered.1, before := s.env.realmStack } :: s.running
    nest := .inside s.nest origin.home [] }

/-- A deferred call waits after the others, or before them if a drain had taken it. -/
def requeue (waiting : List PendingCallback) (realm : Realm) : Origin → List PendingCallback
  | .call function => waiting ++ [{ function, realm }]
  | .deferred function => { function, realm } :: waiting
  | .finalizer => waiting

def finish (s : State) (r : Running) (rest : List Running) (deferred : Bool) : State :=
  let left := s.env.leaveCallback r.depth
  let waiting := s.env.pendingCallbacks
  { s with
    env := { left.2 with
      pendingCallbacks := if deferred then requeue waiting left.1 r.origin else waiting }
    running := rest
    nest := s.nest.finish }

/-- 0 is no scope's token. -/
def step (s : State) : Act → Option State
  | .enterRealm named scopeOut =>
    let entered := s.env.enterRealm named scopeOut
    some (match entered.1 with
      | none => { s with env := entered.2 }
      | some token => { s with
          env := entered.2
          nest := s.nest.openScope (token, named.getD none)
          issued := s.issued ++ [token] })
  | .leaveRealm scope => some { s with
      env := (s.env.leaveRealm scope).2
      nest := if scope = 0 then s.nest else s.nest.closeScope scope }
  | .createFunction => some { s with
      functions := s.functions ++ [{ context := s.env.currentRealm, realm := s.nest.current none }] }
  | .call function => s.functions[function]?.map fun f => s.start (.call f) f.context
  | .drain =>
    match s.env.pendingCallbacks with
    | [] => none
    | p :: waiting => some
        ({ s with env := { s.env with pendingCallbacks := waiting } }.start
          (.deferred p.function) p.realm)
  | .finalize => some (s.start .finalizer none)
  | .finish deferred =>
    match s.running with
    | [] => none
    | r :: rest => some (s.finish r rest deferred)

/-- What the guest may rely on. -/
structure Disciplined (s : State) : Prop where
  /-- A scope is left exactly if the code that runs opened it, innermost of those still open. -/
  leaves : ∀ scope, (s.env.leaveRealm scope).1 = true ↔
    scope ≠ 0 ∧ s.nest.scopes.head?.map Prod.fst = some scope
  fails : ∀ scope, (s.env.leaveRealm scope).1 = false → (s.env.leaveRealm scope).2 = s.env
  /-- Guest code starts where it belongs, and leaves the stack as it was. -/
  starts : ∀ act t r, s.step act = some t → t.running = r :: s.running →
    t.env.currentRealm = r.origin.home
  returns : ∀ r rest deferred t, s.running = r :: rest → s.step (.finish deferred) = some t →
    t.env.realmStack = r.before
  current : s.env.currentRealm = s.nest.current none

/-! ## The stack is the nesting's -/

def mark (realm : Realm) : RealmEntry := { token := 0, realm }

def scope (c : UInt64 × Realm) : RealmEntry := { token := c.1, realm := c.2 }

structure Refines (s : State) : Prop where
  stack : s.env.realmStack = s.nest.layout mark scope
  befores : s.running.map Running.before = s.nest.befores mark scope
  depths : ∀ r ∈ s.running, r.depth = r.before.length
  homes : s.running.map (fun r => r.origin.home) = s.nest.started
  functions : ∀ f ∈ s.functions, f.context = f.realm
  pending : ∀ p ∈ s.env.pendingCallbacks, p.realm = p.function.realm

/-- The tokens are counted, from that of the callbacks. -/
structure Counted (s : State) : Prop where
  next : s.env.nextRealmScope = UInt64.ofNat (s.issued.length + 1)
  issued : 0 :: s.issued = (List.range (s.issued.length + 1)).map UInt64.ofNat

variable {s t : State} {act : Act}

/-- What a step can do. -/
inductive Move (s : State) : State → Prop
  | failed : Move s s
  | entered (realm : Realm) : Move s { s with
      env := { s.env with
        nextRealmScope := s.env.nextRealmScope + 1
        realmStack := s.env.realmStack ++ [scope (s.env.nextRealmScope, realm)] }
      nest := s.nest.openScope (s.env.nextRealmScope, realm)
      issued := s.issued ++ [s.env.nextRealmScope] }
  | left (key : UInt64) : Move s { s with
      env := (s.env.leaveRealm key).2
      nest := if key = 0 then s.nest else s.nest.closeScope key }
  | made : Move s { s with
      functions := s.functions ++ [{ context := s.env.currentRealm, realm := s.nest.current none }] }
  | started {origin : Origin} {realm : Realm} {waiting : List PendingCallback}
      (home : Refines s → realm = origin.home)
      (sublist : waiting.Sublist s.env.pendingCallbacks) :
      Move s ({ s with env := { s.env with pendingCallbacks := waiting } }.start origin realm)
  | finished {r : Running} {rest : List Running} (deferred : Bool)
      (running : s.running = r :: rest) : Move s (s.finish r rest deferred)

theorem move_of_step (hs : s.step act = some t) : Move s t := by
  cases act with
  | enterRealm named scopeOut =>
    cases hs
    cases scopeOut <;> cases named
    case true.some realm => exact .entered realm
    all_goals exact .failed
  | leaveRealm key =>
    cases hs
    exact .left key
  | createFunction =>
    cases hs
    exact .made
  | call function =>
    obtain ⟨f, hf, rfl⟩ := Option.map_eq_some_iff.mp hs
    exact .started (fun h => h.functions f (List.mem_of_getElem? hf)) (.refl _)
  | drain =>
    rw [State.step] at hs
    split at hs
    · cases hs
    · rename_i p waiting hwaiting
      cases hs
      refine .started (fun h => h.pending p (hwaiting ▸ List.mem_cons_self)) ?_
      exact hwaiting ▸ List.sublist_cons_self p waiting
  | finalize =>
    cases hs
    exact .started (fun _ => rfl) (.refl _)
  | finish deferred =>
    rw [State.step] at hs
    split at hs
    · cases hs
    · cases hs
      exact .finished deferred ‹_›

theorem leaveCallback_eq {e : HostJsEnv} {before entries : List RealmEntry} {realm : Realm}
    (h : e.realmStack = before ++ mark realm :: entries) :
    e.leaveCallback before.length = (realm, { e with realmStack := before }) := by
  have hlt : ¬ before.length ≥ e.realmStack.length := by simp [h]
  have htake : e.realmStack.take (before.length + 1) = before ++ [mark realm] := by
    simp [h, List.take_append]
  simp [HostJsEnv.leaveCallback, hlt, htake, mark]

namespace Refines

theorem currentRealm (h : Refines s) : s.env.currentRealm = s.nest.current none := by
  rw [HostJsEnv.currentRealm, h.stack, Nesting.current]
  rcases s.nest.eq_openScope with hnil | ⟨m, c, hnest⟩
  · rw [Nesting.getLast?_layout _ hnil, hnil]
    cases s.nest.started.head? <;> rfl
  · simp [hnest, scope]

theorem leaveRealm (h : Refines s) (key : UInt64) : s.env.leaveRealm key =
    if key ≠ 0 ∧ s.nest.scopes.head?.map Prod.fst = some key then
      (true, { s.env with realmStack := (s.nest.closeScope key).layout mark scope })
    else (false, s.env) := by
  rw [HostJsEnv.leaveRealm, h.stack]
  rcases s.nest.eq_openScope with hnil | ⟨m, c, hnest⟩
  · -- The last entry is a callback's, if there is one.
    rw [Nesting.getLast?_layout _ hnil, hnil]
    by_cases hkey : key = 0
    · simp [hkey]
    · cases s.nest.started.head? <;> simp [mark, hkey, Ne.symm hkey]
  · by_cases hkey : key = 0
    · simp [hkey]
    · by_cases hc : c.1 = key <;> simp [hnest, scope, hkey, hc]

theorem start {origin : Origin} (h : Refines s) : Refines (s.start origin origin.home) where
  stack := by simp [State.start, HostJsEnv.enterCallback, Nesting.layout, h.stack, mark]
  befores := by simp [State.start, Nesting.befores, h.befores, h.stack]
  depths := List.forall_mem_cons.mpr ⟨by simp [HostJsEnv.enterCallback], h.depths⟩
  homes := congrArg (origin.home :: ·) h.homes
  functions := h.functions
  pending := h.pending

/-- What a callback leaves is what it was started in. -/
theorem leave {r : Running} {rest : List Running} (h : Refines s) (hrunning : s.running = r :: rest) :
    ∃ outer scopes, s.nest = .inside outer r.origin.home scopes ∧ r.before = outer.layout mark scope ∧
      s.env.leaveCallback r.depth = (r.origin.home, { s.env with realmStack := r.before }) := by
  have hbefores := h.befores
  have hhomes := h.homes
  have hstack := h.stack
  rw [hrunning] at hbefores hhomes
  cases hnest : s.nest with
  | outermost scopes =>
    rw [hnest] at hbefores
    cases hbefores
  | inside outer realm scopes =>
    rw [hnest] at hbefores hhomes hstack
    have hbefore : r.before = outer.layout mark scope := (List.cons.inj hbefores).1
    obtain rfl : r.origin.home = realm := (List.cons.inj hhomes).1
    refine ⟨outer, scopes, rfl, hbefore, ?_⟩
    rw [h.depths r (hrunning ▸ List.mem_cons_self)]
    rw [Nesting.layout, ← hbefore] at hstack
    exact leaveCallback_eq hstack

/-- A call that is deferred waits with the realm it has left. -/
theorem finish {r : Running} {rest : List Running} {deferred : Bool} (h : Refines s)
    (hrunning : s.running = r :: rest) : Refines (s.finish r rest deferred) := by
  obtain ⟨outer, scopes, hnest, hbefore, hleave⟩ := h.leave hrunning
  obtain ⟨_, hbefores, hdepths, hhomes, hfunctions, hpending⟩ := h
  rw [hrunning] at hbefores hdepths hhomes
  rw [hnest] at hbefores hhomes
  rw [State.finish, hleave, hnest]
  refine ⟨hbefore, (List.cons.inj hbefores).2, fun q hq => hdepths q (List.mem_cons_of_mem r hq),
    (List.cons.inj hhomes).2, hfunctions, ?_⟩
  cases deferred with
  | false => exact hpending
  | true =>
    show ∀ p ∈ requeue s.env.pendingCallbacks r.origin.home r.origin, p.realm = p.function.realm
    cases r.origin with
    | finalizer => exact hpending
    | call function => exact List.forall_mem_append.mpr ⟨hpending, List.forall_mem_singleton.mpr rfl⟩
    | deferred function => exact List.forall_mem_cons.mpr ⟨rfl, hpending⟩

theorem step (h : Refines s) (hs : Move s t) : Refines t := by
  cases hs with
  | failed => exact h
  | entered realm =>
    refine { h with stack := ?_, befores := ?_, homes := ?_ }
    · simp [h.stack]
    · simp [h.befores]
    · simp [h.homes]
  | left key =>
    rw [h.leaveRealm key]
    by_cases hleft : key ≠ 0 ∧ s.nest.scopes.head?.map Prod.fst = some key
    · rw [if_pos hleft, if_neg hleft.1]
      obtain ⟨m, c, hnest⟩ := s.nest.eq_openScope.resolve_left fun hnil => by simp [hnil] at hleft
      obtain ⟨_, rfl⟩ : key ≠ 0 ∧ c.1 = key := by simpa [hnest] using hleft
      refine { h with stack := rfl, befores := ?_, homes := ?_ }
      · simpa [hnest] using h.befores
      · simpa [hnest] using h.homes
    · have hnest : (if key = 0 then s.nest else s.nest.closeScope key) = s.nest := by
        split_ifs with hkey
        · rfl
        · exact Nesting.closeScope_eq _ fun heq => hleft ⟨hkey, heq⟩
      rw [if_neg hleft, hnest]
      exact h
  | made =>
    exact { h with
      functions := List.forall_mem_append.mpr
        ⟨h.functions, List.forall_mem_singleton.mpr h.currentRealm⟩ }
  | started hhome hsublist =>
    rw [hhome h]
    exact start { h with pending := fun p hp => h.pending p (hsublist.subset hp) }
  | finished deferred hrunning => exact h.finish hrunning

/-- Only a start makes the code that runs more. -/
theorem starts {r : Running} (h : Refines s) (hs : Move s t) (hrunning : t.running = r :: s.running) :
    t.env.currentRealm = r.origin.home := by
  have hlength := congrArg List.length hrunning
  cases hs with
  | started hhome _ =>
    obtain ⟨rfl, -⟩ := List.cons.inj hrunning
    simp [State.start, HostJsEnv.enterCallback, HostJsEnv.currentRealm, hhome h]
  | finished deferred hrest =>
    simp only [State.finish, hrest, List.length_cons] at hlength
    omega
  | failed | entered _ | left _ | made => simp at hlength

theorem disciplined (h : Refines s) : Disciplined s where
  leaves key := by
    rw [h.leaveRealm key]
    split_ifs with hleft
    · exact iff_of_true rfl hleft
    · exact iff_of_false not_false hleft
  fails key hfails := by
    rw [h.leaveRealm key] at hfails ⊢
    split_ifs at hfails ⊢
    rfl
  starts act t r hs hrunning := h.starts (move_of_step hs) hrunning
  returns r rest deferred t hrunning hs := by
    obtain ⟨_, _, _, _, hleave⟩ := h.leave hrunning
    simp only [State.step, hrunning, State.finish, hleave, Option.some.injEq] at hs
    rw [← hs]
  current := h.currentRealm

end Refines

/-- Whatever is called, and however callbacks nest, the realm stack does as it should. -/
theorem disciplined_run {acts : List Act} (h : run State.step {} acts = some s) : Disciplined s := by
  have hinit : Refines ({} : State) := ⟨rfl, rfl, nofun, rfl, nofun, nofun⟩
  exact (invariant (fun _ _ _ hs hi => hi.step (move_of_step hs)) h hinit).disciplined

/-- A callback of realm 7 leaves a scope of realm 8 open, in a scope of the env's own realm. -/
def leftOpen : List Act :=
  [.enterRealm (some (some 7)) true, .createFunction, .leaveRealm 1, .enterRealm (some none) true,
    .call 0, .enterRealm (some (some 8)) true, .finish true, .drain, .finish false]

theorem leftOpen_disciplined : ∃ s, run State.step {} leftOpen = some s ∧ Disciplined s := by
  have hrun : run State.step {} leftOpen = some _ := rfl
  exact ⟨_, hrun, disciplined_run hrun⟩

/-! ## Tokens -/

theorem Counted.step (h : Counted s) (hs : Move s t) : Counted t := by
  cases hs with
  | entered realm =>
    refine ⟨by simp [h.next], ?_⟩
    rw [List.length_append, List.range_succ, List.map_append, List.length_singleton, ← h.issued]
    simp [h.next]
  | left key =>
    refine ⟨?_, h.issued⟩
    rw [← h.next, HostJsEnv.leaveRealm]
    split <;> rfl
  | finished deferred hrunning =>
    refine ⟨?_, h.issued⟩
    simp only [State.finish, HostJsEnv.leaveCallback]
    split <;> exact h.next
  | failed | made | started _ _ => exact ⟨h.next, h.issued⟩

/-- No scope has had the token of another, nor that of the callbacks, exactly until a realm has
    been entered `2 ^ 64` times. -/
theorem nodup_tokens_iff {acts : List Act} (h : run State.step {} acts = some s) :
    (0 :: s.issued).Nodup ↔ s.issued.length < 2 ^ 64 := by
  have hc : Counted s := invariant (fun _ _ _ hs hi => hi.step (move_of_step hs)) h ⟨rfl, rfl⟩
  rw [hc.issued]
  constructor
  · intro hnodup
    by_contra hmany
    have hmem : ∀ n ≤ 2 ^ 64, n ∈ List.range (s.issued.length + 1) := fun n hn =>
      List.mem_range.mpr (by omega)
    have hturn : UInt64.ofNat 0 = UInt64.ofNat (2 ^ 64) := rfl
    exact absurd (List.inj_on_of_nodup_map hnodup (hmem 0 (Nat.zero_le _)) (hmem _ le_rfl) hturn)
      (by decide)
  · intro hfew
    refine List.Nodup.map_on ?_ List.nodup_range
    intro m hm n hn heq
    have hlt : ∀ k ∈ List.range (s.issued.length + 1), k < 2 ^ 64 := fun k hk =>
      (List.mem_range.mp hk).trans_le hfew
    have hnat := congrArg UInt64.toNat heq
    rwa [UInt64.toNat_ofNat_of_lt' (hlt m hm), UInt64.toNat_ofNat_of_lt' (hlt n hn)] at hnat

theorem leftOpen_tokens : ∃ s, run State.step {} leftOpen = some s ∧ (0 :: s.issued).Nodup := by
  have hrun : run State.step {} leftOpen = some _ := rfl
  exact ⟨_, hrun, (nodup_tokens_iff hrun).mpr (by decide)⟩

end State

end WasmerNapi.HostJs.RealmStack
