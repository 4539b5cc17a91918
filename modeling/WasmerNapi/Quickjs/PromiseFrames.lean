import WasmerNapi.Lib.Run
import WasmerNapi.Lib.Table

/-!
# Async context of the QuickJS engine

`src/quickjs/src/internal/napi_agent.cc`: the agent keeps the *continuation-preserved data*, and
for each promise the data that was current when it was made. The engine's promise hook tells the
agent when a promise is made (`INIT`), when a reaction of it starts and ends (`BEFORE`, `AFTER`)
and when it is resolved; the rejection tracker tells it of the rejections.

The frames are kept by the address of the promise. A promise that dies unsettled leaves its frame
behind, and `INIT` with `undefined` current stores nothing, so that the next promise at the
address finds the frame of the one before it. `context_follows` is about runs without this.
-/

namespace WasmerNapi.Quickjs.PromiseFrames

open Function (update update_self update_of_ne)
open Run

variable {A V : Type}

/-- What the world knows of a promise. -/
structure Promise (A V : Type) where
  address : A
  /-- The data that was current at its `INIT`. -/
  captured : Option V
  alive : Bool := true
  settled : Bool := false

/-- `none` is `undefined`. The last three fields are the world's: the promises so far, and those
    between `BEFORE` and `AFTER`, innermost first, with the data that was current before. -/
structure State (A V : Type) where
  data : Option V := none
  frames : A → Option V := fun _ => none
  stack : List (Option V) := []
  next : ℕ := 0
  promise : ℕ → Option (Promise A V) := fun _ => none
  opened : List (ℕ × Option V) := []

inductive Act (A V : Type) where
  | set (value : Option V)
  | init (a : A)
  | before (p : ℕ)
  | after (p : ℕ)
  | resolve (p : ℕ)
  /-- `tracked`: the rejection tracker is set. -/
  | reject (p : ℕ) (tracked : Bool)
  | free (p : ℕ)

namespace State

variable [DecidableEq A]

def captureContextFrame (s : State A V) (a : A) : State A V :=
  match s.data with
  | none => s
  | some v => { s with frames := update s.frames a (some v) }

omit [DecidableEq A] in
def enterContextFrame (s : State A V) (a : A) : State A V :=
  { s with stack := s.data :: s.stack, data := s.frames a }

omit [DecidableEq A] in
def leaveContextFrame (s : State A V) : State A V :=
  match s.stack with
  | [] => s
  | previous :: stack => { s with stack := stack, data := previous }

def releaseContextFrame (s : State A V) (a : A) : State A V :=
  { s with frames := update s.frames a none }

/-- A promise that is alive is there. -/
def occupied (s : State A V) (a : A) : Bool :=
  (List.range s.next).any fun p => (s.promise p).any fun q => q.alive && q.address = a

omit [DecidableEq A] in
def mark (s : State A V) (p : ℕ) (q : Promise A V) : State A V :=
  { s with promise := update s.promise p (some q) }

/-- `RESOLVE`, and a rejection. -/
def settle (s : State A V) (p : ℕ) (told : Bool) : Option (State A V) :=
  match s.promise p with
  | none => none
  | some q =>
    if q.alive then
      let s := if told then s.releaseContextFrame q.address else s
      some (s.mark p { q with settled := true })
    else none

end State

variable [DecidableEq A]

/-- The engine reports on promises that are alive, and `BEFORE` and `AFTER` nest. -/
def step (s : State A V) : Act A V → Option (State A V)
  | .set value => some { s with data := value }
  | .init a =>
    if s.occupied a then none
    else some { (s.captureContextFrame a).mark s.next ⟨a, s.data, true, false⟩ with next := s.next + 1 }
  | .before p =>
    match s.promise p with
    | none => none
    | some q =>
      if q.alive then
        some { s.enterContextFrame q.address with opened := (p, s.data) :: s.opened }
      else none
  | .after p =>
    match s.opened with
    | [] => none
    | (p', _) :: opened => if p' = p then some { s.leaveContextFrame with opened } else none
  | .resolve p => s.settle p true
  | .reject p tracked => s.settle p tracked
  | .free p =>
    match s.promise p with
    | none => none
    | some q => if q.alive then some (s.mark p { q with alive := false }) else none

/-- What `BEFORE` and `AFTER` are there for. -/
def Follows (s : State A V) : Act A V → Prop
  | .before p => ∀ q, s.promise p = some q → q.settled = false →
    ∀ t, step s (.before p) = some t → t.data = q.captured
  | .after p => ∀ p' previous opened, s.opened = (p', previous) :: opened →
    ∀ t, step s (.after p) = some t → t.data = previous
  | _ => True

/-- A promise that is made with `undefined` current finds no frame at its address. -/
def Safe (s : State A V) : Act A V → Prop
  | .init a => s.data = none → s.frames a = none
  | _ => True

instance [DecidableEq V] (s : State A V) : ∀ a, Decidable (Safe s a)
  | .init _ => inferInstanceAs (Decidable (_ → _))
  | .set _ | .before _ | .after _ | .resolve _ | .reject _ _ | .free _ =>
    inferInstanceAs (Decidable True)

/-! ## The invariant -/

/-- The frame at the address of a promise is the promise's own until it is settled. -/
structure Inv (s : State A V) : Prop where
  frames : ∀ p q, s.promise p = some q → q.alive = true → q.settled = false →
    s.frames q.address = q.captured
  apart : ∀ p q p' q', s.promise p = some q → s.promise p' = some q' → q.alive = true →
    q'.alive = true → q.address = q'.address → p = p'
  fresh : ∀ p, s.next ≤ p → s.promise p = none
  stack : s.stack = s.opened.map Prod.snd

section

variable {s t : State A V}

theorem occupied_false (hi : Inv s) {a : A} (h : s.occupied a = false) :
    ∀ p q, s.promise p = some q → q.alive = true → q.address ≠ a := by
  intro p q hq halive heq
  unfold State.occupied at h
  rw [List.any_eq_false] at h
  have hlt : p < s.next := by
    by_contra hle
    rw [hi.fresh p (not_lt.mp hle)] at hq
    cases hq
  refine h p (List.mem_range.mpr hlt) ?_
  rw [hq, Option.any_some, halive, decide_eq_true heq]
  rfl

theorem init_inv {a : A} (hi : Inv s) (hsafe : s.data = none → s.frames a = none)
    (hocc : s.occupied a = false) :
    Inv { (s.captureContextFrame a).mark s.next ⟨a, s.data, true, false⟩ with next := s.next + 1 } := by
  have haway := occupied_false hi hocc
  -- Afterwards the address has the data that is current, and the others have what they had.
  have hself : (s.captureContextFrame a).frames a = s.data := by
    unfold State.captureContextFrame
    split
    · rename_i hnone
      rw [hsafe hnone, hnone]
    · rename_i v hsome
      rw [hsome]
      exact update_self ..
  have hother : ∀ b, b ≠ a → (s.captureContextFrame a).frames b = s.frames b := by
    intro b hne
    unfold State.captureContextFrame
    split
    · rfl
    · exact update_of_ne hne ..
  have hkeep : (s.captureContextFrame a).promise = s.promise ∧
      (s.captureContextFrame a).stack = s.stack ∧ (s.captureContextFrame a).opened = s.opened := by
    unfold State.captureContextFrame
    split
    · exact ⟨rfl, rfl, rfl⟩
    · exact ⟨rfl, rfl, rfl⟩
  have hpromise : ∀ p q,
      update (s.captureContextFrame a).promise s.next (some ⟨a, s.data, true, false⟩) p = some q →
      p = s.next ∧ q = ⟨a, s.data, true, false⟩ ∨ p ≠ s.next ∧ s.promise p = some q := by
    intro p q hq
    rw [hkeep.1] at hq
    exact Table.update_cases hq
  refine ⟨?_, ?_, ?_, ?_⟩
  · intro p q hq halive hset
    rcases hpromise p q hq with ⟨_, rfl⟩ | ⟨_, hq'⟩
    · exact hself
    · exact (hother _ (haway p q hq' halive)).trans (hi.frames p q hq' halive hset)
  · intro p q p' q' hq hq' halive halive' haddr
    rcases hpromise p q hq with ⟨rfl, rfl⟩ | ⟨_, h₁⟩
    · rcases hpromise p' q' hq' with ⟨rfl, _⟩ | ⟨_, h₂⟩
      · rfl
      · exact absurd haddr.symm (haway p' q' h₂ halive')
    · rcases hpromise p' q' hq' with ⟨rfl, rfl⟩ | ⟨_, h₂⟩
      · exact absurd haddr (haway p q h₁ halive)
      · exact hi.apart p q p' q' h₁ h₂ halive halive' haddr
  · intro p hle
    show update (s.captureContextFrame a).promise s.next _ p = none
    rw [update_of_ne (Nat.ne_of_gt hle), hkeep.1]
    exact hi.fresh p (Nat.le_of_succ_le hle)
  · show (s.captureContextFrame a).stack = (s.captureContextFrame a).opened.map Prod.snd
    rw [hkeep.2.1, hkeep.2.2]
    exact hi.stack

omit [DecidableEq A] in
/-- A promise that is settled or dies, with the frames as they are but for its own. -/
theorem mark_inv {p : ℕ} {q q' : Promise A V} {frames : A → Option V} (hi : Inv s)
    (hq : s.promise p = some q) (halive : q.alive = true) (haddr : q'.address = q.address)
    (hdone : q'.alive = false ∨ q'.settled = true)
    (hframes : ∀ b, b ≠ q.address → frames b = s.frames b) :
    Inv ({ s with frames }.mark p q') := by
  refine ⟨?_, ?_, ?_, hi.stack⟩
  · intro p₁ q₁ h₁ ha hs
    rcases Table.update_cases h₁ with ⟨_, rfl⟩ | ⟨hne, h₁'⟩
    · rcases hdone with hd | hd
      · rw [hd] at ha
        cases ha
      · rw [hd] at hs
        cases hs
    · have haway : q₁.address ≠ q.address := fun heq => hne (hi.apart p₁ q₁ p q h₁' hq ha halive heq)
      exact (hframes _ haway).trans (hi.frames p₁ q₁ h₁' ha hs)
  · intro p₁ q₁ p₂ q₂ h₁ h₂ ha₁ ha₂ heq
    rcases Table.update_cases h₁ with ⟨rfl, rfl⟩ | ⟨_, h₁'⟩
    · rcases Table.update_cases h₂ with ⟨rfl, _⟩ | ⟨_, h₂'⟩
      · rfl
      · exact hi.apart p₁ q p₂ q₂ hq h₂' halive ha₂ (haddr.symm.trans heq)
    · rcases Table.update_cases h₂ with ⟨rfl, rfl⟩ | ⟨_, h₂'⟩
      · exact hi.apart p₁ q₁ p₂ q h₁' hq ha₁ halive (heq.trans haddr)
      · exact hi.apart p₁ q₁ p₂ q₂ h₁' h₂' ha₁ ha₂ heq
  · intro p₁ hle
    exact Table.update_fresh hi.fresh hq hle

theorem settle_inv {p : ℕ} {told : Bool} (hi : Inv s) (h : s.settle p told = some t) : Inv t := by
  unfold State.settle at h
  split at h
  · cases h
  rename_i q hq
  split at h
  · rename_i halive
    cases h
    cases told with
    | true => exact mark_inv hi hq halive rfl (.inr rfl) fun b hne => update_of_ne hne ..
    | false => exact mark_inv hi hq halive rfl (.inr rfl) fun _ _ => rfl
  · cases h

theorem step_inv {a : Act A V} (hi : Inv s) (hsafe : Safe s a) (h : step s a = some t) : Inv t := by
  cases a with
  | set value =>
    cases h
    exact { hi with }
  | init a =>
    unfold step at h
    dsimp only at h
    split at h
    · cases h
    · rename_i hocc
      cases h
      exact init_inv hi hsafe (Bool.eq_false_iff.mpr hocc)
  | before p =>
    unfold step at h
    dsimp only at h
    split at h
    · cases h
    split at h
    · cases h
      exact ⟨hi.frames, hi.apart, hi.fresh, congrArg (s.data :: ·) hi.stack⟩
    · cases h
  | after p =>
    unfold step at h
    dsimp only at h
    split at h
    · cases h
    rename_i p' previous opened hopened
    split at h
    · cases h
      have hstack := hi.stack
      rw [hopened, List.map_cons] at hstack
      unfold State.leaveContextFrame
      rw [hstack]
      exact ⟨hi.frames, hi.apart, hi.fresh, rfl⟩
    · cases h
  | resolve p => exact settle_inv hi h
  | reject p tracked => exact settle_inv hi h
  | free p =>
    unfold step at h
    dsimp only at h
    split at h
    · cases h
    rename_i q hq
    split at h
    · rename_i halive
      cases h
      exact mark_inv hi hq halive rfl (.inl rfl) fun _ _ => rfl
    · cases h

theorem step_follows {a : Act A V} (hi : Inv s) : Follows s a := by
  cases a with
  | before p =>
    intro q hq hset t ht
    unfold step at ht
    dsimp only at ht
    rw [hq] at ht
    dsimp only at ht
    split at ht
    · rename_i halive
      cases ht
      exact hi.frames p q hq halive hset
    · cases ht
  | after p =>
    intro p' previous opened hopened t ht
    unfold step at ht
    dsimp only at ht
    rw [hopened] at ht
    dsimp only at ht
    split at ht
    · cases ht
      have hstack := hi.stack
      rw [hopened, List.map_cons] at hstack
      unfold State.leaveContextFrame
      rw [hstack]
    · cases ht
  | set value => trivial
  | init a => trivial
  | resolve p => trivial
  | reject p tracked => trivial
  | free p => trivial

/-- In a run in which no promise is made over a frame that is left, with `undefined` current,
    each reaction of a promise that is not settled runs with the data of the promise's `INIT`,
    and leaves what was there before it. -/
theorem context_follows {acts : List (Act A V)} (hsafe : AllSteps step Safe ({} : State A V) acts) :
    AllSteps step Follows ({} : State A V) acts := by
  refine allSteps_of_invariant (fun _ _ _ h hsafe hi => step_inv hi hsafe h) (fun _ _ _ hi => step_follows hi)
    hsafe ⟨?_, ?_, fun _ _ => rfl, rfl⟩
  · nofun
  · nofun

end

/-- A reaction makes a promise of its own and changes the data; the first promise is resolved and
    dies, and its address is used again. -/
def reused : List (Act ℕ ℕ) :=
  [.set (some 7), .init 0, .set none, .before 0, .init 1, .set (some 8), .after 0, .resolve 0,
    .free 0, .init 0, .before 1, .after 1, .before 2, .after 2]

theorem reused_follows :
    (run step {} reused).isSome = true ∧ AllSteps step Follows ({} : State ℕ ℕ) reused :=
  ⟨by decide, context_follows (by decide)⟩

/-- A promise dies unsettled, and the next one at its address is made with `undefined` current. -/
def leftover : List (Act ℕ ℕ) :=
  [.set (some 7), .init 0, .free 0, .set none, .init 0, .before 1]

/-- Its reaction runs with the data of the dead one. -/
theorem leftover_not_follows :
    (run step {} leftover).isSome = true ∧ ¬ AllSteps step Follows ({} : State ℕ ℕ) leftover := by
  refine ⟨by decide, ?_⟩
  intro hall
  obtain ⟨_, hall⟩ := hall
  obtain ⟨_, hall⟩ := hall _ rfl
  obtain ⟨_, hall⟩ := hall _ rfl
  obtain ⟨_, hall⟩ := hall _ rfl
  obtain ⟨_, hall⟩ := hall _ rfl
  have hdata := (hall _ rfl).1 _ rfl rfl _ rfl
  cases hdata

end WasmerNapi.Quickjs.PromiseFrames
