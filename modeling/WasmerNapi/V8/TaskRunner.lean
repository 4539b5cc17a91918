import WasmerNapi.Lib.Run
import WasmerNapi.Lib.Table

/-!
# The foreground task runner of the V8 platform

`EdgeV8Platform::ForegroundTaskRunner` in `src/v8/src/edge_v8_platform.cc`: where a posted task
goes is in three atomics, the env that bound a target, its hook and the target. They are written
one after the other and read one after the other, each load and store a step of its own, and
nothing says which of them belong together.

`Writer` is a `BindTarget`, `ClearTarget` or `NotifyIsolateShutdown` that is underway, `Post` a
`PostTaskCommon`. `enqueueOwner` and `dataOwner` say whose binding the value in each atomic is
from; the program does not know.
-/

namespace WasmerNapi.V8.TaskRunner

open Function (update update_self update_of_ne)
open Run

variable {E C D : Type}

/-- By the load or store that comes next. -/
inductive Writer (E C D : Type) where
  | bindData (env : E) (callback : Option C) (target : Option D)
  | bindEnqueue (env : E) (callback : Option C) (target : Option D)
  | bindEnv (env : E)
  | clearLoad (env : E)
  | clearEnv (env : E)
  | clearEnqueue (env : E)
  | clearData (env : E)
  | shutFlag
  | shutEnv
  | shutEnqueue
  | shutData

inductive Post (C D : Type) where
  | loadFlag
  | loadEnqueue
  | loadData (enqueue : Option C)
  | deliver (enqueue : Option C) (target : Option D)

/-- What becomes of a task. -/
inductive Fate (C D : Type) where
  | hook (callback : C) (target : D)
  | fallback
  | destroyed

structure State (E C D : Type) where
  targetEnv : Option E := none
  targetEnqueue : Option C := none
  targetData : Option D := none
  shuttingDown : Bool := false
  nextWriter : ℕ := 0
  writers : ℕ → Option (Writer E C D) := fun _ => none
  nextPost : ℕ := 0
  posts : ℕ → Option (Post C D) := fun _ => none
  fates : ℕ → List (Fate C D) := fun _ => []
  /-- What the `BindTarget` calls so far supplied. -/
  bindings : List (E × Option C × Option D) := []
  enqueueOwner : Option E := none
  dataOwner : Option E := none
  /-- A `ClearTarget` overwrote a value from another env's binding. -/
  wronged : Bool := false

/-- `allocated`: there was memory for the record. `runner`: the fallback has a runner. -/
inductive Act (E C D : Type) where
  | bindTarget (env : E) (callback : Option C) (target : Option D)
  | clearTarget (env : E)
  | notifyIsolateShutdown
  | postTask
  | write (w : ℕ)
  | advance (p : ℕ) (allocated runner : Bool)

namespace State

def begin (s : State E C D) (writer : Writer E C D) : State E C D :=
  { s with writers := update s.writers s.nextWriter (some writer), nextWriter := s.nextWriter + 1 }

def goto (s : State E C D) (w : ℕ) (writer : Option (Writer E C D)) : State E C D :=
  { s with writers := update s.writers w writer }

/-- The task has gone where it goes. -/
def settle (s : State E C D) (p : ℕ) (fate : Fate C D) : State E C D :=
  { s with
    posts := update s.posts p none
    fates := update s.fates p (s.fates p ++ [fate]) }

def setPost (s : State E C D) (p : ℕ) (post : Post C D) : State E C D :=
  { s with posts := update s.posts p (some post) }

variable [DecidableEq E]

/-- The value is from the binding of another env than `e`. -/
def foreign (owner : Option E) (e : E) : Bool := owner.any fun o => o ≠ e

def write (s : State E C D) (w : ℕ) : Writer E C D → State E C D
  | .bindData e callback target =>
    { s with targetData := target, dataOwner := some e }.goto w (some (.bindEnqueue e callback target))
  | .bindEnqueue e callback _ =>
    { s with targetEnqueue := callback, enqueueOwner := some e }.goto w (some (.bindEnv e))
  | .bindEnv e => { s with targetEnv := some e }.goto w none
  | .clearLoad e => if s.targetEnv = some e then s.goto w (some (.clearEnv e)) else s.goto w none
  | .clearEnv e =>
    { s with targetEnv := none, wronged := s.wronged || foreign s.targetEnv e }.goto w
      (some (.clearEnqueue e))
  | .clearEnqueue e =>
    { s with
      targetEnqueue := none
      enqueueOwner := none
      wronged := s.wronged || foreign s.enqueueOwner e }.goto w (some (.clearData e))
  | .clearData e =>
    { s with
      targetData := none
      dataOwner := none
      wronged := s.wronged || foreign s.dataOwner e }.goto w none
  | .shutFlag => { s with shuttingDown := true }.goto w (some .shutEnv)
  | .shutEnv => { s with targetEnv := none }.goto w (some .shutEnqueue)
  | .shutEnqueue => { s with targetEnqueue := none, enqueueOwner := none }.goto w (some .shutData)
  | .shutData => { s with targetData := none, dataOwner := none }.goto w none

omit [DecidableEq E] in
/-- `PostTaskCommon`, with a task. -/
def advance (s : State E C D) (p : ℕ) (allocated runner : Bool) : Post C D → State E C D
  | .loadFlag => if s.shuttingDown then s.settle p .destroyed else s.setPost p .loadEnqueue
  | .loadEnqueue => s.setPost p (.loadData s.targetEnqueue)
  | .loadData enqueue => s.setPost p (.deliver enqueue s.targetData)
  | .deliver enqueue target =>
    match enqueue, target, allocated with
    | some callback, some target, true => s.settle p (.hook callback target)
    | _, _, _ => s.settle p (if runner then .fallback else .destroyed)

end State

variable [DecidableEq E]

def step (s : State E C D) : Act E C D → Option (State E C D)
  | .bindTarget e callback target =>
    some { s.begin (.bindData e callback target) with bindings := (e, callback, target) :: s.bindings }
  | .clearTarget e => some (s.begin (.clearLoad e))
  | .notifyIsolateShutdown => some (s.begin .shutFlag)
  | .postTask =>
    some { s with
      posts := update s.posts s.nextPost (some .loadFlag), nextPost := s.nextPost + 1 }
  | .write w => (s.writers w).map fun writer => s.write w writer
  | .advance p allocated runner => (s.posts p).map fun post => s.advance p allocated runner post

/-- What the runner is to do with tasks and bindings. -/
structure Delivers (s : State E C D) : Prop where
  paired : ∀ p callback target, Fate.hook callback target ∈ s.fates p →
    ∃ e, (e, some callback, some target) ∈ s.bindings
  kept : s.wronged = false
  once : ∀ p, p < s.nextPost → (s.fates p).length + (s.posts p).isSome.toNat = 1

/-- The post has read a hook and is to read the target. -/
def Post.between : Post C D → Bool
  | .loadData (some _) => true
  | .loadData none | .loadFlag | .loadEnqueue | .deliver _ _ => false

/-- The bind has stored its target, and not its hook. -/
def Writer.half : Writer E C D → Bool
  | .bindEnqueue _ _ _ => true
  | .bindData _ _ _ | .bindEnv _ | .clearLoad _ | .clearEnv _ | .clearEnqueue _ | .clearData _
  | .shutFlag | .shutEnv | .shutEnqueue | .shutData => false

def Writer.storesTarget : Writer E C D → Bool
  | .bindData _ _ _ => true
  | .bindEnqueue _ _ _ | .bindEnv _ | .clearLoad _ | .clearEnv _ | .clearEnqueue _ | .clearData _
  | .shutFlag | .shutEnv | .shutEnqueue | .shutData => false

namespace State

/-- No `BindTarget`, `ClearTarget` or `NotifyIsolateShutdown` is underway. -/
def Quiet (s : State E C D) : Prop := ∀ w < s.nextWriter, (s.writers w).isNone = true

def NoneBetween (s : State E C D) : Prop := ∀ p < s.nextPost, (s.posts p).all (fun post => !post.between) = true

def NoneHalf (s : State E C D) : Prop :=
  ∀ w < s.nextWriter, (s.writers w).all (fun writer => !writer.half) = true

end State

def Post.readsHook : Post C D → Bool
  | .loadEnqueue => true
  | .loadFlag | .loadData _ | .deliver _ _ => false

/-- Writers do not overlap; a target is not stored over the head of a post that has read a hook;
    and no post reads a hook that a bind is about to replace. -/
def Safe (s : State E C D) : Act E C D → Prop
  | .bindTarget _ _ _ | .clearTarget _ | .notifyIsolateShutdown => s.Quiet
  | .postTask => True
  | .write w => (s.writers w).any (fun writer => writer.storesTarget) = true → s.NoneBetween
  | .advance p _ _ =>
    (s.posts p).any (fun post => post.readsHook) = true → s.targetEnqueue.isNone = true ∨ s.NoneHalf

section

omit [DecidableEq E]

instance (s : State E C D) : Decidable s.Quiet := inferInstanceAs (Decidable (∀ w < _, _ = _))

instance (s : State E C D) : Decidable s.NoneBetween := inferInstanceAs (Decidable (∀ p < _, _ = _))

instance (s : State E C D) : Decidable s.NoneHalf := inferInstanceAs (Decidable (∀ w < _, _ = _))

instance (s : State E C D) : ∀ a, Decidable (Safe s a)
  | .bindTarget _ _ _ | .clearTarget _ | .notifyIsolateShutdown => inferInstanceAs (Decidable s.Quiet)
  | .postTask => inferInstanceAs (Decidable True)
  | .write _ => inferInstanceAs (Decidable (_ → s.NoneBetween))
  | .advance _ _ _ => inferInstanceAs (Decidable (_ → _ ∨ s.NoneHalf))

end

/-! ## The invariant -/

namespace State

/-- The hook and the target are those of the env the atomics name. -/
def Owned (s : State E C D) : Prop := s.enqueueOwner = s.targetEnv ∧ s.dataOwner = s.targetEnv

/-- Some bind supplied the hook with a target. -/
def Supplied (s : State E C D) (callback : C) (target : D) : Prop :=
  ∃ e, (e, some callback, some target) ∈ s.bindings

/-- The hook and the target are from one bind, if both are there. -/
def Paired (s : State E C D) : Prop :=
  ∀ callback target, s.targetEnqueue = some callback → s.targetData = some target →
    s.Supplied callback target

end State

/-- What the only writer underway knows of the atomics. -/
def WriterOk (s : State E C D) : Writer E C D → Prop
  | .bindData e callback target => s.Owned ∧ s.Paired ∧ (e, callback, target) ∈ s.bindings
  | .bindEnqueue e callback target =>
    s.dataOwner = some e ∧ s.targetData = target ∧ (e, callback, target) ∈ s.bindings
  | .bindEnv e => s.enqueueOwner = some e ∧ s.dataOwner = some e ∧ s.Paired
  | .clearLoad _ | .shutFlag | .shutEnv => s.Owned ∧ s.Paired
  | .clearEnv e => s.Owned ∧ s.Paired ∧ s.targetEnv = some e
  | .clearEnqueue e =>
    s.enqueueOwner = some e ∧ s.dataOwner = some e ∧ s.Paired ∧ s.targetEnv = none
  | .clearData e =>
    s.enqueueOwner = none ∧ s.dataOwner = some e ∧ s.targetEnqueue = none ∧ s.targetEnv = none
  | .shutEnqueue => s.Paired ∧ s.targetEnv = none
  | .shutData => s.enqueueOwner = none ∧ s.targetEnqueue = none ∧ s.targetEnv = none

/-- What a post has read, or is about to, is from one bind. -/
def PostOk (s : State E C D) : Post C D → Prop
  | .loadData (some callback) => ∀ target, s.targetData = some target → s.Supplied callback target
  | .deliver (some callback) (some target) => s.Supplied callback target
  | .loadFlag | .loadEnqueue | .loadData none | .deliver none _ | .deliver (some _) none => True

structure Inv (s : State E C D) : Prop where
  freshWriter : ∀ w, s.nextWriter ≤ w → s.writers w = none
  single : ∀ w w' x x', s.writers w = some x → s.writers w' = some x' → w = w'
  writing : ∀ w x, s.writers w = some x → WriterOk s x
  quiet : (∀ w, s.writers w = none) → s.Owned ∧ s.Paired
  freshPost : ∀ p, s.nextPost ≤ p → s.posts p = none ∧ s.fates p = []
  posting : ∀ p post, s.posts p = some post → PostOk s post
  delivers : Delivers s

section

variable {s t : State E C D} {w p : ℕ}

omit [DecidableEq E]

theorem Inv.noWriters (hi : Inv s) (hq : s.Quiet) (w : ℕ) : s.writers w = none := by
  rcases Nat.lt_or_ge w s.nextWriter with hlt | hge
  · exact Option.isNone_iff_eq_none.mp (hq w hlt)
  · exact hi.freshWriter w hge

/-- Unless a bind is halfway, what can be read now is from one bind. -/
theorem Inv.paired_of_noneHalf (hi : Inv s) (hn : s.NoneHalf) : s.Paired := by
  by_cases hw : ∀ w, s.writers w = none
  · exact (hi.quiet hw).2
  · simp only [not_forall] at hw
    obtain ⟨w, hw⟩ := hw
    obtain ⟨x, hx⟩ := Option.ne_none_iff_exists'.mp hw
    have hlt : w < s.nextWriter := by
      by_contra hge
      exact hw (hi.freshWriter w (Nat.le_of_not_lt hge))
    have hok := hi.writing w x hx
    have hhalf := hn w hlt
    rw [hx] at hhalf
    have hempty : s.targetEnqueue = none → s.Paired := by
      intro hnone callback target hc _
      rw [hnone] at hc
      cases hc
    cases x with
    | bindData e callback target => exact hok.2.1
    | bindEnqueue e callback target => cases hhalf
    | bindEnv e => exact hok.2.2
    | clearLoad e => exact hok.2
    | clearEnv e => exact hok.2.1
    | clearEnqueue e => exact hok.2.2.1
    | clearData e => exact hempty hok.2.2.1
    | shutFlag => exact hok.2
    | shutEnv => exact hok.2
    | shutEnqueue => exact hok.1
    | shutData => exact hempty hok.2.1

/-- A new writer, where there is none. -/
theorem Inv.begin (hi : Inv s) (hq : s.Quiet) (x : Writer E C D) {bindings : List (E × Option C × Option D)}
    (hsub : ∀ b ∈ s.bindings, b ∈ bindings)
    (hok : WriterOk ({ s with bindings } : State E C D) x) :
    Inv { s.begin x with bindings } := by
  have hnone := hi.noWriters hq
  have hwriter : ∀ {w y}, update s.writers s.nextWriter (some x) w = some y →
      w = s.nextWriter ∧ y = x := by
    intro w y hw
    by_cases heq : w = s.nextWriter
    · rw [heq, update_self] at hw
      exact ⟨heq, (Option.some.inj hw).symm⟩
    · rw [update_of_ne heq, hnone w] at hw
      cases hw
  have hsupplied : ∀ callback target, s.Supplied callback target →
      ({ s.begin x with bindings } : State E C D).Supplied callback target := by
    rintro callback target ⟨e, hmem⟩
    exact ⟨e, hsub _ hmem⟩
  refine ⟨?_, ?_, ?_, ?_, hi.freshPost, ?_, ?_⟩
  · intro w hle
    have hle : s.nextWriter + 1 ≤ w := hle
    exact (update_of_ne (by omega) ..).trans (hnone w)
  · intro w w' y y' hy hy'
    exact (hwriter hy).1.trans (hwriter hy').1.symm
  · intro w y hy
    obtain ⟨_, rfl⟩ := hwriter hy
    exact hok
  · intro hall
    have hself := hall s.nextWriter
    rw [show ({ s.begin x with bindings } : State E C D).writers s.nextWriter = some x from
      update_self ..] at hself
    cases hself
  · intro p post hp
    have hpost := hi.posting p post hp
    match post, hpost with
    | .loadFlag, _ | .loadEnqueue, _ | .loadData none, _ | .deliver none _, _
    | .deliver (some _) none, _ => trivial
    | .loadData (some callback), hpost => exact fun target ht => hsupplied _ _ (hpost target ht)
    | .deliver (some callback) (some target), hpost => exact hsupplied _ _ hpost
  · exact ⟨fun p callback target hmem => hsupplied _ _ (hi.delivers.paired p callback target hmem),
      hi.delivers.kept, hi.delivers.once⟩

/-- All but the atomics and what is said about them. -/
structure Same (t s : State E C D) : Prop where
  nextWriter : t.nextWriter = s.nextWriter
  writers : t.writers = s.writers
  nextPost : t.nextPost = s.nextPost
  posts : t.posts = s.posts
  fates : t.fates = s.fates
  bindings : t.bindings = s.bindings

/-- The only writer underway stores something and goes on, or is done. -/
theorem Inv.goto {x : Writer E C D} {next : Option (Writer E C D)} (hi : Inv s)
    (hx : s.writers w = some x) (hsame : Same t s) (hnext : ∀ y, next = some y → WriterOk t y)
    (hdone : next = none → t.Owned ∧ t.Paired)
    (hposts : ∀ p post, s.posts p = some post → PostOk s post → PostOk t post)
    (hkept : t.wronged = false) : Inv (t.goto w next) := by
  have hwriter : ∀ {w' y}, update t.writers w next w' = some y → w' = w ∧ next = some y := by
    intro w' y hw
    by_cases heq : w' = w
    · rw [heq, update_self] at hw
      exact ⟨heq, hw⟩
    · rw [update_of_ne heq, hsame.writers] at hw
      exact absurd (hi.single w' w y x hw hx) heq
  refine ⟨?_, ?_, ?_, ?_, ?_, ?_, ?_⟩
  · intro w' hle
    have hnone := hi.freshWriter w' (hsame.nextWriter ▸ hle)
    have hne : w' ≠ w := by
      rintro rfl
      rw [hnone] at hx
      cases hx
    show update t.writers w next w' = none
    rw [update_of_ne hne, hsame.writers]
    exact hnone
  · intro w₁ w₂ y y' hy hy'
    exact (hwriter hy).1.trans (hwriter hy').1.symm
  · intro w' y hy
    exact hnext y (hwriter hy).2
  · intro hall
    apply hdone
    have hself : update t.writers w next w = none := hall w
    rwa [update_self] at hself
  · intro p hle
    have hfresh := hi.freshPost p (hsame.nextPost ▸ hle)
    exact ⟨(congrFun hsame.posts p).trans hfresh.1, (congrFun hsame.fates p).trans hfresh.2⟩
  · intro p post hp
    have hp : s.posts p = some post := (congrFun hsame.posts p).symm.trans hp
    exact hposts p post hp (hi.posting p post hp)
  · refine ⟨?_, hkept, ?_⟩
    · intro p callback target hmem
      have hmem : Fate.hook callback target ∈ s.fates p := hsame.fates ▸ hmem
      show ∃ e, _ ∈ t.bindings
      rw [hsame.bindings]
      exact hi.delivers.paired p callback target hmem
    · intro p hlt
      have hlt : p < s.nextPost := hsame.nextPost ▸ hlt
      show (t.fates p).length + (t.posts p).isSome.toNat = 1
      rw [hsame.fates, hsame.posts]
      exact hi.delivers.once p hlt

/-- What the posts know stays, if the target stays or goes. -/
theorem PostOk.mono {post : Post C D} (h : PostOk s post) (hb : t.bindings = s.bindings)
    (hd : ∀ target, t.targetData = some target → s.targetData = some target) : PostOk t post := by
  have hsupplied : ∀ callback target, s.Supplied callback target → t.Supplied callback target := by
    rintro callback target ⟨e, hmem⟩
    exact ⟨e, hb ▸ hmem⟩
  match post, h with
  | .loadFlag, _ | .loadEnqueue, _ | .loadData none, _ | .deliver none _, _
  | .deliver (some _) none, _ => trivial
  | .loadData (some callback), h => exact fun target ht => hsupplied _ _ (h target (hd target ht))
  | .deliver (some callback) (some target), h => exact hsupplied _ _ h

end

section

variable {s : State E C D} {w p : ℕ}

theorem State.not_foreign {owner : Option E} {e : E} (h : owner = some e) :
    State.foreign owner e = false := by
  rw [h]
  simp [State.foreign]

/-- Nothing of another env's binding is overwritten. -/
theorem Inv.not_wronged {owner : Option E} {e : E} (hi : Inv s) (h : owner = some e) :
    (s.wronged || State.foreign owner e) = false := by
  rw [hi.delivers.kept, State.not_foreign h]
  rfl

/-- A load or store of the writer underway, one by one. -/
theorem write_inv {x : Writer E C D} (hi : Inv s) (hx : s.writers w = some x)
    (hsafe : x.storesTarget = true → s.NoneBetween) : Inv (s.write w x) := by
  have hok := hi.writing w x hx
  have hstay : ∀ t : State E C D, t.bindings = s.bindings →
      (∀ target, t.targetData = some target → s.targetData = some target) →
      ∀ p post, s.posts p = some post → PostOk s post → PostOk t post :=
    fun t hb hd p post _ h => h.mono hb hd
  cases x with
  | bindData e callback target =>
    obtain ⟨_, _, hmem⟩ := hok
    refine hi.goto hx ⟨rfl, rfl, rfl, rfl, rfl, rfl⟩ ?_ nofun ?_ hi.delivers.kept
    · rintro y ⟨⟩
      exact ⟨rfl, rfl, hmem⟩
    · -- No post has a hook to go with the new target.
      intro p post hp hpost
      match post, hp, hpost with
      | .loadFlag, _, _ | .loadEnqueue, _, _ | .loadData none, _, _ | .deliver none _, _, _
      | .deliver (some _) none, _, _ => trivial
      | .loadData (some _), hp, _ =>
        have hlt : p < s.nextPost := by
          by_contra hge
          rw [(hi.freshPost p (Nat.le_of_not_lt hge)).1] at hp
          cases hp
        have hbetween := hsafe rfl p hlt
        rw [hp] at hbetween
        cases hbetween
      | .deliver (some _) (some _), _, hpost => exact hpost
  | bindEnqueue e callback target =>
    obtain ⟨howner, hdata, hmem⟩ := hok
    refine hi.goto hx ⟨rfl, rfl, rfl, rfl, rfl, rfl⟩ ?_ nofun
      (hstay _ rfl fun _ h => h) hi.delivers.kept
    rintro y ⟨⟩
    refine ⟨rfl, howner, ?_⟩
    intro c d hc hd
    have hc : callback = some c := hc
    have hd : s.targetData = some d := hd
    rw [hdata] at hd
    exact ⟨e, hc ▸ hd ▸ hmem⟩
  | bindEnv e =>
    obtain ⟨henqueue, hdata, hpaired⟩ := hok
    exact hi.goto hx ⟨rfl, rfl, rfl, rfl, rfl, rfl⟩ nofun
      (fun _ => ⟨⟨henqueue, hdata⟩, hpaired⟩) (hstay _ rfl fun _ h => h) hi.delivers.kept
  | clearLoad e =>
    simp only [State.write]
    split
    · next henv =>
      refine hi.goto hx ⟨rfl, rfl, rfl, rfl, rfl, rfl⟩ ?_ nofun
        (hstay _ rfl fun _ h => h) hi.delivers.kept
      rintro y ⟨⟩
      exact ⟨hok.1, hok.2, henv⟩
    · exact hi.goto hx ⟨rfl, rfl, rfl, rfl, rfl, rfl⟩ nofun (fun _ => hok)
        (hstay _ rfl fun _ h => h) hi.delivers.kept
  | clearEnv e =>
    obtain ⟨⟨henqueue, hdata⟩, hpaired, henv⟩ := hok
    refine hi.goto hx ⟨rfl, rfl, rfl, rfl, rfl, rfl⟩ ?_ nofun
      (hstay _ rfl fun _ h => h) (hi.not_wronged henv)
    rintro y ⟨⟩
    exact ⟨henqueue.trans henv, hdata.trans henv, hpaired, rfl⟩
  | clearEnqueue e =>
    obtain ⟨henqueue, hdata, _, henv⟩ := hok
    refine hi.goto hx ⟨rfl, rfl, rfl, rfl, rfl, rfl⟩ ?_ nofun
      (hstay _ rfl fun _ h => h) (hi.not_wronged henqueue)
    rintro y ⟨⟩
    exact ⟨rfl, hdata, rfl, henv⟩
  | clearData e =>
    obtain ⟨hnone, hdata, hempty, henv⟩ := hok
    refine hi.goto hx ⟨rfl, rfl, rfl, rfl, rfl, rfl⟩ nofun ?_
      (hstay _ rfl nofun) (hi.not_wronged hdata)
    intro _
    exact ⟨⟨hnone.trans henv.symm, henv.symm⟩, nofun⟩
  | shutFlag =>
    refine hi.goto hx ⟨rfl, rfl, rfl, rfl, rfl, rfl⟩ ?_ nofun
      (hstay _ rfl fun _ h => h) hi.delivers.kept
    rintro y ⟨⟩
    exact hok
  | shutEnv =>
    refine hi.goto hx ⟨rfl, rfl, rfl, rfl, rfl, rfl⟩ ?_ nofun
      (hstay _ rfl fun _ h => h) hi.delivers.kept
    rintro y ⟨⟩
    exact ⟨hok.2, rfl⟩
  | shutEnqueue =>
    refine hi.goto hx ⟨rfl, rfl, rfl, rfl, rfl, rfl⟩ ?_ nofun
      (hstay _ rfl fun _ h => h) hi.delivers.kept
    rintro y ⟨⟩
    exact ⟨rfl, rfl, hok.2⟩
  | shutData =>
    obtain ⟨hnone, _, henv⟩ := hok
    refine hi.goto hx ⟨rfl, rfl, rfl, rfl, rfl, rfl⟩ nofun ?_
      (hstay _ rfl nofun) hi.delivers.kept
    intro _
    exact ⟨⟨hnone.trans henv.symm, henv.symm⟩, nofun⟩

omit [DecidableEq E]

/-- A post that there is has not gone anywhere yet. -/
theorem Inv.waiting {post : Post C D} (hi : Inv s) (hp : s.posts p = some post) :
    p < s.nextPost ∧ s.fates p = [] := by
  have hlt : p < s.nextPost := by
    by_contra hge
    rw [(hi.freshPost p (Nat.le_of_not_lt hge)).1] at hp
    cases hp
  have honce := hi.delivers.once p hlt
  rw [hp] at honce
  exact ⟨hlt, List.eq_nil_of_length_eq_zero (Nat.succ.inj honce)⟩

theorem Inv.setPost {post post' : Post C D} (hi : Inv s) (hp : s.posts p = some post)
    (hok : PostOk s post') : Inv (s.setPost p post') := by
  obtain ⟨hlt, hfates⟩ := hi.waiting hp
  refine ⟨hi.freshWriter, hi.single, hi.writing, hi.quiet, ?_, ?_,
    ⟨hi.delivers.paired, hi.delivers.kept, ?_⟩⟩
  · intro p' hle
    have hne : p' ≠ p := Nat.ne_of_gt (Nat.lt_of_lt_of_le hlt hle)
    exact ⟨(update_of_ne hne ..).trans (hi.freshPost p' hle).1, (hi.freshPost p' hle).2⟩
  · intro p' post'' hp'
    rcases Table.update_cases hp' with ⟨_, rfl⟩ | ⟨_, hp'⟩
    · exact hok
    · exact hi.posting p' post'' hp'
  · intro p' hlt'
    show (s.fates p').length + (update s.posts p (some post') p').isSome.toNat = 1
    by_cases heq : p' = p
    · rw [heq, update_self, hfates]
      rfl
    · rw [update_of_ne heq]
      exact hi.delivers.once p' hlt'

theorem Inv.settle {post : Post C D} {fate : Fate C D} (hi : Inv s) (hp : s.posts p = some post)
    (hfate : ∀ callback target, fate = .hook callback target → s.Supplied callback target) :
    Inv (s.settle p fate) := by
  obtain ⟨hlt, hfates⟩ := hi.waiting hp
  refine ⟨hi.freshWriter, hi.single, hi.writing, hi.quiet, ?_, ?_, ⟨?_, hi.delivers.kept, ?_⟩⟩
  · intro p' hle
    have hne : p' ≠ p := Nat.ne_of_gt (Nat.lt_of_lt_of_le hlt hle)
    exact ⟨(update_of_ne hne ..).trans (hi.freshPost p' hle).1,
      (update_of_ne hne ..).trans (hi.freshPost p' hle).2⟩
  · intro p' post' hp'
    exact hi.posting p' post' (Table.update_none_cases hp').2
  · intro p' callback target hmem
    have hmem : Fate.hook callback target ∈ update s.fates p (s.fates p ++ [fate]) p' := hmem
    by_cases heq : p' = p
    · rw [heq, update_self, hfates] at hmem
      exact hfate callback target (List.mem_singleton.mp hmem).symm
    · rw [update_of_ne heq] at hmem
      exact hi.delivers.paired p' callback target hmem
  · intro p' hlt'
    show (update s.fates p (s.fates p ++ [fate]) p').length +
      (update s.posts p none p').isSome.toNat = 1
    by_cases heq : p' = p
    · rw [heq, update_self, update_self, hfates]
      rfl
    · rw [update_of_ne heq, update_of_ne heq]
      exact hi.delivers.once p' hlt'

theorem advance_inv {post : Post C D} (hi : Inv s) (hp : s.posts p = some post)
    (hsafe : post.readsHook = true → s.targetEnqueue.isNone = true ∨ s.NoneHalf)
    (allocated runner : Bool) : Inv (s.advance p allocated runner post) := by
  have hok := hi.posting p post hp
  cases post with
  | loadFlag =>
    simp only [State.advance]
    split
    · exact hi.settle hp nofun
    · exact hi.setPost hp trivial
  | loadEnqueue =>
    refine hi.setPost hp ?_
    cases henqueue : s.targetEnqueue with
    | none => trivial
    | some callback =>
      rcases hsafe rfl with hnone | hhalf
      · rw [henqueue] at hnone
        cases hnone
      · exact fun target ht => hi.paired_of_noneHalf hhalf callback target henqueue ht
  | loadData enqueue =>
    refine hi.setPost hp ?_
    cases enqueue with
    | none => trivial
    | some callback =>
      cases hdata : s.targetData with
      | none => trivial
      | some target => exact hok target hdata
  | deliver enqueue target =>
    have hother : Inv (s.settle p (if runner then .fallback else .destroyed)) := by
      apply hi.settle hp
      intro callback target h
      cases runner <;> cases h
    match enqueue, target, allocated with
    | some callback, some target, true =>
      apply hi.settle hp
      rintro _ _ ⟨⟩
      exact hok
    | none, _, _ | some _, none, _ | some _, some _, false => exact hother

end

theorem step_inv (s : State E C D) (a : Act E C D) (s' : State E C D) (hs : step s a = some s')
    (hsafe : Safe s a) (hi : Inv s) : Inv s' := by
  cases a with
  | bindTarget e callback target =>
    cases hs
    obtain ⟨howned, hpaired⟩ := hi.quiet (hi.noWriters hsafe)
    refine hi.begin hsafe _ (fun b hb => List.mem_cons_of_mem _ hb) ⟨howned, ?_, List.mem_cons_self ..⟩
    intro c d hc hd
    obtain ⟨e', hmem⟩ := hpaired c d hc hd
    exact ⟨e', List.mem_cons_of_mem _ hmem⟩
  | clearTarget e =>
    cases hs
    exact hi.begin hsafe _ (fun _ hb => hb) (hi.quiet (hi.noWriters hsafe))
  | notifyIsolateShutdown =>
    cases hs
    exact hi.begin hsafe _ (fun _ hb => hb) (hi.quiet (hi.noWriters hsafe))
  | postTask =>
    cases hs
    have hfresh := hi.freshPost s.nextPost (Nat.le_refl _)
    refine ⟨hi.freshWriter, hi.single, hi.writing, hi.quiet, ?_, ?_,
      ⟨hi.delivers.paired, hi.delivers.kept, ?_⟩⟩
    · intro p hle
      have hle : s.nextPost + 1 ≤ p := hle
      have hold := hi.freshPost p (Nat.le_of_succ_le hle)
      exact ⟨(update_of_ne (Nat.ne_of_gt hle) ..).trans hold.1, hold.2⟩
    · intro p post hp
      rcases Table.update_cases hp with ⟨_, rfl⟩ | ⟨_, hp⟩
      · trivial
      · exact hi.posting p post hp
    · intro p hlt
      have hlt : p < s.nextPost + 1 := hlt
      show (s.fates p).length +
        (update s.posts s.nextPost (some Post.loadFlag) p).isSome.toNat = 1
      by_cases heq : p = s.nextPost
      · rw [heq, update_self, hfresh.2]
        rfl
      · rw [update_of_ne heq]
        exact hi.delivers.once p (Nat.lt_of_le_of_ne (Nat.le_of_lt_succ hlt) heq)
  | write w =>
    obtain ⟨x, hx, rfl⟩ := Option.map_eq_some_iff.mp hs
    refine write_inv hi hx fun hstores => hsafe ?_
    rw [hx]
    exact hstores
  | advance p allocated runner =>
    obtain ⟨post, hp, rfl⟩ := Option.map_eq_some_iff.mp hs
    refine advance_inv hi hp (fun hreads => hsafe ?_) allocated runner
    rw [hp]
    exact hreads

omit [DecidableEq E] in
theorem init_inv : Inv ({} : State E C D) where
  freshWriter _ _ := rfl
  single _ _ _ _ h _ := by cases h
  writing _ _ h := by cases h
  quiet _ := ⟨⟨rfl, rfl⟩, fun _ _ h _ => by cases h⟩
  freshPost _ _ := ⟨rfl, rfl⟩
  posting _ _ h := by cases h
  delivers := ⟨nofun, rfl, fun _ h => absurd h (Nat.not_lt_zero _)⟩

/-- In every interleaving in which the writers and the posts keep out of each other's way, a hook
    is called with the target it was bound with, no env clears the binding of another, and every
    task goes to one place. -/
theorem tasks_delivered {acts : List (Act E C D)} {s : State E C D} (hr : run step {} acts = some s)
    (hsafe : AllSteps step Safe {} acts) : Delivers s :=
  (invariant_of_allSteps step_inv hr hsafe init_inv).delivers

/-- A rebind and a task on either side of it, a clear by the env that lost the binding, and a task
    after the isolate has gone. -/
def rebound : List (Act ℕ ℕ ℕ) :=
  [.bindTarget 1 (some 10) (some 20), .write 0, .write 0, .write 0,
    .postTask, .advance 0 true true, .advance 0 true true, .advance 0 true true, .advance 0 true true,
    .bindTarget 2 (some 11) (some 21), .write 1, .write 1, .write 1,
    .clearTarget 1, .write 2,
    .postTask, .advance 1 true true, .advance 1 true true, .advance 1 true true, .advance 1 true true,
    .notifyIsolateShutdown, .write 3, .write 3, .write 3, .write 3,
    .postTask, .advance 2 true true]

theorem rebound_delivers :
    ∃ s, run step {} rebound = some s ∧ AllSteps step Safe {} rebound ∧ Delivers s := by
  have hsafe : AllSteps step Safe {} rebound := by decide
  exact ⟨_, rfl, hsafe, tasks_delivered (show run step {} rebound = some _ from rfl) hsafe⟩

/-- A post reads the hook, another bind stores its target, and the post reads that. -/
def torn : List (Act ℕ ℕ ℕ) :=
  [.bindTarget 1 (some 10) (some 20), .write 0, .write 0, .write 0,
    .postTask, .advance 0 true true, .advance 0 true true,
    .bindTarget 2 (some 11) (some 21), .write 1,
    .advance 0 true true, .advance 0 true true]

theorem torn_not_delivers : ∃ s, run step {} torn = some s ∧ ¬ Delivers s := by
  refine ⟨_, rfl, ?_⟩
  intro h
  obtain ⟨e, hmem⟩ := h.paired 0 10 21 (List.mem_singleton.mpr rfl)
  have hmem : (e, some 10, some 21) ∈ [(2, some 11, some 21), (1, some 10, some 20)] := hmem
  simp at hmem

end WasmerNapi.V8.TaskRunner
