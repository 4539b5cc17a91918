import WasmerNapi.Lib.Run
import WasmerNapi.Lib.Word

/-!
# The ids of serialized messages

A message is posted under a 32-bit id: twelve bits of the scope its host gave it, and
twenty bits of one counter, which every thread of the process draws from. The counter has
32 bits. It goes on counting when the twenty are used up, and the calls from there on
fail; but after `2 ^ 32` calls it stands where it began, and hands out the same ids again.

A call counts when its scope is in range, and the calls that count are numbered `0, 1, …`
in the order in which they reach the counter. `unique_iff_apart` says that ids are unique
as long as no two calls of one scope are a whole turn of the counter apart.
-/

namespace WasmerNapi.HostJs.MessageIds

open Function (update update_self update_of_ne)
open Word Run

def SERIALIZED_MESSAGE_SEQUENCE_BITS : ℕ := 20

def SERIALIZED_MESSAGE_SEQUENCE_MASK : ℕ := 2 ^ SERIALIZED_MESSAGE_SEQUENCE_BITS - 1

def SERIALIZED_MESSAGE_SCOPE_MAX : ℕ := 2 ^ (32 - SERIALIZED_MESSAGE_SEQUENCE_BITS) - 1

/-- What a call makes of what it fetched: zero and the sequences past the mask are no ids. -/
def messageId (scope sequence : ℕ) : Option ℕ :=
  if sequence = 0 ∨ SERIALIZED_MESSAGE_SEQUENCE_MASK < sequence then none
  else some (scope <<< SERIALIZED_MESSAGE_SEQUENCE_BITS ||| sequence)

/-- Where a thread stands in `next_serialized_message`. `number` counts the calls that
    fetched before it; the code does not know it. -/
inductive Pc where
  | idle
  | entered (scope : ℕ)
  | fetched (scope sequence number : ℕ)
  deriving DecidableEq

/-- A call that has returned, and the number it fetched under, if it came that far. -/
structure Answer where
  scope : ℕ
  number : Option ℕ
  id : Option ℕ
  deriving DecidableEq

/-- `NEXT_SERIALIZED_MESSAGE_SEQUENCE`, and the threads `ι`; and, to number the calls, how
    many of them fetched, and what has been returned, the last answer first. -/
structure State (ι : Type) where
  next : ℕ := 1
  pc : ι → Pc := fun _ => .idle
  fetches : ℕ := 0
  answers : List Answer := []

def init {ι : Type} : State ι := {}

inductive Act (ι : Type) where
  | call (i : ι) (scope : ℕ)
  | advance (i : ι)

section

variable {ι : Type} [DecidableEq ι]

def State.goto (s : State ι) (i : ι) (pc : Pc) : State ι :=
  { s with pc := update s.pc i pc }

def State.answer (s : State ι) (i : ι) (a : Answer) : State ι :=
  { s.goto i .idle with answers := a :: s.answers }

/-- `fetch_add(1, Relaxed)`: one atomic move, which wraps. -/
def State.fetch (s : State ι) (i : ι) (scope : ℕ) : State ι :=
  { s.goto i (.fetched scope s.next s.fetches) with
    next := wrappingAdd 32 s.next 1
    fetches := s.fetches + 1 }

def step (s : State ι) : Act ι → Option (State ι)
  | .call i scope => if s.pc i = .idle then some (s.goto i (.entered scope)) else none
  | .advance i =>
    match s.pc i with
    | .idle => none
    | .entered scope =>
      if SERIALIZED_MESSAGE_SCOPE_MAX < scope then
        some (s.answer i { scope, number := none, id := none })
      else some (s.fetch i scope)
    | .fetched scope sequence number =>
      some (s.answer i { scope, number := some number, id := messageId scope sequence })

@[simp] theorem pc_goto (s : State ι) (i : ι) (pc : Pc) :
    (s.goto i pc).pc = update s.pc i pc := rfl

@[simp] theorem pc_answer (s : State ι) (i : ι) (a : Answer) :
    (s.answer i a).pc = update s.pc i .idle := rfl

@[simp] theorem pc_fetch (s : State ι) (i : ι) (scope : ℕ) :
    (s.fetch i scope).pc = update s.pc i (.fetched scope s.next s.fetches) := rfl

/-- What the ids of the calls that have returned should be. -/
structure Unique (answers : List Answer) : Prop where
  same : answers.Pairwise fun a b => a.scope = b.scope → ∀ id, a.id = some id → b.id ≠ some id
  others : answers.Pairwise fun a b => a.scope ≠ b.scope → ∀ id, a.id = some id → b.id ≠ some id
  nonzero : ∀ a ∈ answers, a.id ≠ some 0

/-- The sequence the call with this number fetches. -/
def sequenceOf (number : ℕ) : ℕ := (number + 1) % 2 ^ 32

/-- Two calls of one scope meet when the counter came round between them, to a sequence that
    makes an id. -/
def Meet (a b : Answer) : Prop :=
  a.scope = b.scope ∧ ∃ m ∈ a.number, ∃ n ∈ b.number,
    sequenceOf m = sequenceOf n ∧ 0 < sequenceOf m ∧
      sequenceOf m ≤ SERIALIZED_MESSAGE_SEQUENCE_MASK

instance (a b : Answer) : Decidable (Meet a b) := inferInstanceAs (Decidable (_ ∧ _))

/-- No two calls meet. -/
def Apart (answers : List Answer) : Prop := answers.Pairwise fun a b => ¬ Meet a b

instance (answers : List Answer) : Decidable (Apart answers) :=
  inferInstanceAs (Decidable (answers.Pairwise _))

/-! ## The parts of an id -/

theorem sequence_lt {sequence : ℕ} (h : sequence ≤ SERIALIZED_MESSAGE_SEQUENCE_MASK) :
    sequence < 2 ^ SERIALIZED_MESSAGE_SEQUENCE_BITS :=
  Nat.lt_of_le_pred (Nat.two_pow_pos _) h

theorem messageId_eq_some {scope sequence id : ℕ} :
    messageId scope sequence = some id ↔
      0 < sequence ∧ sequence ≤ SERIALIZED_MESSAGE_SEQUENCE_MASK ∧
        id = scope * 2 ^ SERIALIZED_MESSAGE_SEQUENCE_BITS + sequence := by
  unfold messageId
  split
  · rename_i h
    simp only [reduceCtorEq, false_iff]
    omega
  · rename_i h
    push Not at h
    have hlt := sequence_lt h.2
    rw [← Nat.shiftLeft_add_eq_or_of_lt hlt, Nat.shiftLeft_eq]
    simp only [Option.some.injEq]
    constructor
    · intro hid
      exact ⟨Nat.pos_of_ne_zero h.1, h.2, hid.symm⟩
    · intro hid
      exact hid.2.2.symm

/-- The high bits are the scope, the low bits the sequence. -/
theorem messageId_parts {scope sequence id : ℕ} (h : messageId scope sequence = some id) :
    id / 2 ^ SERIALIZED_MESSAGE_SEQUENCE_BITS = scope ∧
      id % 2 ^ SERIALIZED_MESSAGE_SEQUENCE_BITS = sequence := by
  obtain ⟨_, hle, rfl⟩ := messageId_eq_some.mp h
  have hlt := sequence_lt hle
  constructor
  · rw [Nat.add_comm, Nat.add_mul_div_right _ _ (Nat.two_pow_pos _), Nat.div_eq_of_lt hlt,
      Nat.zero_add]
  · rw [Nat.mul_add_mod_self_right, Nat.mod_eq_of_lt hlt]

theorem messageId_ne_zero (scope sequence : ℕ) : messageId scope sequence ≠ some 0 := by
  intro h
  have hid := messageId_eq_some.mp h
  omega

/-! ## The invariant -/

/-- An answer follows from its scope and its number alone. -/
def Answer.Follows (a : Answer) : Prop :=
  a.id = a.number.bind fun number => messageId a.scope (sequenceOf number)

/-- The number a thread holds. -/
def Pc.number : Pc → Option ℕ
  | .fetched _ _ number => some number
  | _ => none

/-- The calls are numbered in the order they fetched: a number below the count of fetches is
    held by one thread or belongs to one answer. -/
structure Inv (s : State ι) : Prop where
  next : s.next = sequenceOf s.fetches
  follows : ∀ a ∈ s.answers, a.Follows
  fetched : ∀ i scope sequence number, s.pc i = .fetched scope sequence number →
    sequence = sequenceOf number
  held_lt : ∀ i n, (s.pc i).number = some n → n < s.fetches
  answered_lt : ∀ a ∈ s.answers, ∀ n, a.number = some n → n < s.fetches
  held : ∀ i j n, (s.pc i).number = some n → (s.pc j).number = some n → i = j
  between : ∀ i n, (s.pc i).number = some n → ∀ a ∈ s.answers, a.number ≠ some n
  answered : s.answers.Pairwise fun a b => ∀ n, a.number = some n → b.number ≠ some n

omit [DecidableEq ι] in
theorem inv_init : Inv (init : State ι) where
  next := rfl
  follows := by simp [init]
  fetched := by simp [init]
  held_lt := by simp [init, Pc.number]
  answered_lt := by simp [init]
  held := by simp [init, Pc.number]
  between := by simp [init]
  answered := by simp [init]

variable {s s' : State ι} {a : Act ι}

theorem Inv.call (hi : Inv s) (i : ι) (scope : ℕ) : Inv (s.goto i (.entered scope)) := by
  have hnumber : ∀ j n, ((s.goto i (.entered scope)).pc j).number = some n →
      (s.pc j).number = some n := by
    intro j n hj
    by_cases hji : j = i
    · subst hji
      rw [pc_goto, update_self] at hj
      cases hj
    · rwa [pc_goto, update_of_ne hji] at hj
  refine { hi with fetched := ?_, held_lt := ?_, held := ?_, between := ?_ }
  · intro j scope' sequence number hj
    by_cases hji : j = i
    · subst hji
      rw [pc_goto, update_self] at hj
      cases hj
    · rw [pc_goto, update_of_ne hji] at hj
      exact hi.fetched j scope' sequence number hj
  · intro j n hj
    exact hi.held_lt j n (hnumber j n hj)
  · intro j k n hj hk
    exact hi.held j k n (hnumber j n hj) (hnumber k n hk)
  · intro j n hj
    exact hi.between j n (hnumber j n hj)

/-- A call that returns gives its number, if it has one, from its thread to its answer. -/
theorem Inv.answer (hi : Inv s) {i : ι} {a : Answer} (hfollows : a.Follows)
    (hnumber : ∀ n, a.number = some n → (s.pc i).number = some n) : Inv (s.answer i a) := by
  have hother : ∀ j pc, (s.answer i a).pc j = pc → pc ≠ .idle → j ≠ i ∧ s.pc j = pc := by
    intro j pc hj hpc
    by_cases hji : j = i
    · subst hji
      rw [pc_answer, update_self] at hj
      exact absurd hj.symm hpc
    · rw [pc_answer, update_of_ne hji] at hj
      exact ⟨hji, hj⟩
  have hheld : ∀ j n, ((s.answer i a).pc j).number = some n →
      j ≠ i ∧ (s.pc j).number = some n := by
    intro j n hj
    obtain ⟨hji, hpc⟩ := hother j _ rfl (by intro hidle; rw [hidle] at hj; cases hj)
    exact ⟨hji, hpc ▸ hj⟩
  constructor
  · exact hi.next
  · intro b hb
    rcases List.mem_cons.mp hb with rfl | hb
    · exact hfollows
    · exact hi.follows b hb
  · intro j scope sequence number hj
    exact hi.fetched j scope sequence number (hother j _ hj (by simp)).2
  · intro j n hj
    exact hi.held_lt j n (hheld j n hj).2
  · intro b hb n hn
    rcases List.mem_cons.mp hb with rfl | hb
    · exact hi.held_lt i n (hnumber n hn)
    · exact hi.answered_lt b hb n hn
  · intro j k n hj hk
    exact hi.held j k n (hheld j n hj).2 (hheld k n hk).2
  · intro j n hj b hb hn
    obtain ⟨hji, hpc⟩ := hheld j n hj
    rcases List.mem_cons.mp hb with rfl | hb
    · exact hji (hi.held j i n hpc (hnumber n hn))
    · exact hi.between j n hpc b hb hn
  · refine List.pairwise_cons.mpr ⟨?_, hi.answered⟩
    intro b hb n hn
    exact hi.between i n (hnumber n hn) b hb

theorem sequenceOf_succ (number : ℕ) :
    wrappingAdd 32 (sequenceOf number) 1 = sequenceOf (number + 1) := by
  unfold wrappingAdd sequenceOf
  rw [Nat.mod_add_mod]

theorem Inv.fetch (hi : Inv s) (i : ι) (scope : ℕ) : Inv (s.fetch i scope) := by
  have hnumber : ∀ j n, ((s.fetch i scope).pc j).number = some n →
      j = i ∧ n = s.fetches ∨ j ≠ i ∧ (s.pc j).number = some n := by
    intro j n hj
    by_cases hji : j = i
    · subst hji
      rw [pc_fetch, update_self] at hj
      exact .inl ⟨rfl, (Option.some.inj hj).symm⟩
    · rw [pc_fetch, update_of_ne hji] at hj
      exact .inr ⟨hji, hj⟩
  constructor
  · show wrappingAdd 32 s.next 1 = sequenceOf (s.fetches + 1)
    rw [hi.next, sequenceOf_succ]
  · exact hi.follows
  · intro j scope' sequence number hj
    by_cases hji : j = i
    · subst hji
      rw [pc_fetch, update_self] at hj
      cases hj
      exact hi.next
    · rw [pc_fetch, update_of_ne hji] at hj
      exact hi.fetched j scope' sequence number hj
  · intro j n hj
    rcases hnumber j n hj with ⟨_, rfl⟩ | ⟨_, hpc⟩
    · exact Nat.lt_succ_self _
    · exact Nat.lt_succ_of_lt (hi.held_lt j n hpc)
  · intro a ha n hn
    exact Nat.lt_succ_of_lt (hi.answered_lt a ha n hn)
  · intro j k n hj hk
    rcases hnumber j n hj with ⟨hji, hn⟩ | ⟨_, hpcj⟩ <;>
      rcases hnumber k n hk with ⟨hki, hn'⟩ | ⟨_, hpck⟩
    · exact hji.trans hki.symm
    · exact absurd (hi.held_lt k n hpck) (by omega)
    · exact absurd (hi.held_lt j n hpcj) (by omega)
    · exact hi.held j k n hpcj hpck
  · intro j n hj a ha hn
    rcases hnumber j n hj with ⟨_, rfl⟩ | ⟨_, hpc⟩
    · exact absurd (hi.answered_lt a ha _ hn) (Nat.lt_irrefl _)
    · exact hi.between j n hpc a ha hn
  · exact hi.answered

theorem Inv.step (hs : step s a = some s') (hi : Inv s) : Inv s' := by
  cases a with
  | call i scope =>
    simp only [MessageIds.step, Option.ite_none_right_eq_some, Option.some.injEq] at hs
    obtain ⟨_, rfl⟩ := hs
    exact hi.call i scope
  | advance i =>
    simp only [MessageIds.step] at hs
    cases hpc : s.pc i with
    | idle =>
      rw [hpc] at hs
      cases hs
    | entered scope =>
      simp only [hpc] at hs
      split at hs
      · cases hs
        exact hi.answer rfl (by simp)
      · cases hs
        exact hi.fetch i scope
    | fetched scope sequence number =>
      simp only [hpc] at hs
      cases hs
      refine hi.answer ?_ (by simp [hpc, Pc.number])
      rw [hi.fetched i scope sequence number hpc]
      rfl

theorem inv_run {as : List (Act ι)} (hr : run MessageIds.step init as = some s) : Inv s :=
  invariant (fun _ _ _ hs hi => Inv.step hs hi) hr inv_init

/-! ## Unique ids -/

theorem Answer.Follows.id_eq_some {a : Answer} (ha : a.Follows) {id : ℕ} :
    a.id = some id ↔
      ∃ n, a.number = some n ∧ messageId a.scope (sequenceOf n) = some id := by
  rw [ha, Option.bind_eq_some_iff]

/-- Two answers share an id exactly when their calls meet. -/
theorem exists_id_iff_meet {a b : Answer} (ha : a.Follows) (hb : b.Follows) :
    (∃ id, a.id = some id ∧ b.id = some id) ↔ Meet a b := by
  constructor
  · rintro ⟨id, hida, hidb⟩
    obtain ⟨m, hm, hidm⟩ := ha.id_eq_some.mp hida
    obtain ⟨n, hn, hidn⟩ := hb.id_eq_some.mp hidb
    obtain ⟨hpos, hle, _⟩ := messageId_eq_some.mp hidm
    have hscope := (messageId_parts hidm).1.symm.trans (messageId_parts hidn).1
    have hsequence := (messageId_parts hidm).2.symm.trans (messageId_parts hidn).2
    exact ⟨hscope, m, hm, n, hn, hsequence, hpos, hle⟩
  · rintro ⟨hscope, m, hm, n, hn, hsequence, hpos, hle⟩
    have hid : messageId a.scope (sequenceOf m) = some _ :=
      messageId_eq_some.mpr ⟨hpos, hle, rfl⟩
    refine ⟨_, ha.id_eq_some.mpr ⟨m, hm, hid⟩, hb.id_eq_some.mpr ⟨n, hn, ?_⟩⟩
    rw [← hscope, ← hsequence]
    exact hid

omit [DecidableEq ι] in
theorem Inv.unique_iff (hi : Inv s) : Unique s.answers ↔ Apart s.answers := by
  have hmeet : ∀ {a b}, a ∈ s.answers → b ∈ s.answers →
      ((∃ id, a.id = some id ∧ b.id = some id) ↔ Meet a b) := by
    intro a b ha hb
    exact exists_id_iff_meet (hi.follows a ha) (hi.follows b hb)
  constructor
  · intro hu
    refine hu.same.imp_of_mem ?_
    intro a b ha hb hsame hm
    obtain ⟨id, hida, hidb⟩ := (hmeet ha hb).mpr hm
    exact hsame hm.1 id hida hidb
  · intro hapart
    refine ⟨?_, ?_, ?_⟩
    · refine hapart.imp_of_mem ?_
      intro a b ha hb hm _ id hida hidb
      exact hm ((hmeet ha hb).mp ⟨id, hida, hidb⟩)
    · refine List.pairwise_of_forall_mem_list ?_
      intro a ha b hb hscope id hida hidb
      exact hscope ((hmeet ha hb).mp ⟨id, hida, hidb⟩).1
    · intro a ha hzero
      obtain ⟨n, _, hid⟩ := (hi.follows a ha).id_eq_some.mp hzero
      exact messageId_ne_zero _ _ hid

/-- Whatever the threads do, the ids they got are unique exactly when no two of their calls
    meet. -/
theorem unique_iff_apart {as : List (Act ι)} (hr : run MessageIds.step init as = some s) :
    Unique s.answers ↔ Apart s.answers :=
  (inv_run hr).unique_iff

/-- Two threads of one scope, each between the other's moves. -/
def interleaved : List (Act Bool) :=
  [.call false 0, .call true 0, .advance false, .advance true, .advance true, .advance false]

theorem interleaved_unique :
    ∃ s, run MessageIds.step init interleaved = some s ∧ Unique s.answers := by
  have hrun : run MessageIds.step init interleaved = some _ := rfl
  exact ⟨_, hrun, (unique_iff_apart hrun).mpr (by decide)⟩

/-- The first `2 ^ 32` calls that count do not meet. -/
theorem apart_of_few {as : List (Act ι)} (hr : run MessageIds.step init as = some s)
    (hfew : s.fetches ≤ 2 ^ 32) : Apart s.answers := by
  have hi := inv_run hr
  refine hi.answered.imp_of_mem ?_
  rintro a b ha hb hne ⟨_, m, hm, n, hn, hsequence, _, _⟩
  have hmlt := hi.answered_lt a ha m hm
  have hnlt := hi.answered_lt b hb n hn
  refine hne m hm (hn.trans (congrArg some ?_))
  unfold sequenceOf at hsequence
  omega

/-- So their ids are unique, on whatever threads they are made. -/
theorem unique_of_few {as : List (Act ι)} (hr : run MessageIds.step init as = some s)
    (hfew : s.fetches ≤ 2 ^ 32) : Unique s.answers :=
  (inv_run hr).unique_iff.mpr (apart_of_few hr hfew)

theorem interleaved_few : ∃ s, run MessageIds.step init interleaved = some s ∧
    s.answers.map Answer.id = [some 1, some 2] ∧ Unique s.answers := by
  have hrun : run MessageIds.step init interleaved = some _ := rfl
  exact ⟨_, hrun, by decide, unique_of_few hrun (by decide)⟩

end

/-! ## One thread, and a turn of the counter -/

/-- The answer to the call of scope `0` with this number. -/
def answerTo (number : ℕ) : Answer :=
  { scope := 0, number := some number, id := messageId 0 (sequenceOf number) }

/-- The answers to so many calls, the last first. -/
def answersTo : ℕ → List Answer
  | 0 => []
  | n + 1 => answerTo n :: answersTo n

/-- So many calls of scope `0`, each to its end. -/
def calls : ℕ → List (Act Unit)
  | 0 => []
  | n + 1 => calls n ++ [.call () 0, .advance (), .advance ()]

theorem run_calls (n : ℕ) :
    run step (init : State Unit) (calls n) =
      some { next := sequenceOf n, fetches := n, answers := answersTo n } := by
  induction n with
  | zero => rfl
  | succ n ih =>
    rw [calls, run_append, ih]
    simp [run, step, State.goto, State.fetch, State.answer, SERIALIZED_MESSAGE_SCOPE_MAX,
      sequenceOf_succ, answersTo, answerTo, Function.update_idem]

theorem mem_answersTo {m n : ℕ} (h : m < n) : answerTo m ∈ answersTo n := by
  induction n with
  | zero => exact absurd h (Nat.not_lt_zero m)
  | succ n ih =>
    rcases Nat.lt_succ_iff_lt_or_eq.mp h with hlt | rfl
    · exact List.mem_cons_of_mem _ (ih hlt)
    · exact List.mem_cons_self

/-- One thread that calls once more than the counter can count gets its first id again. -/
theorem turn_not_unique :
    ∃ as s, run step (init : State Unit) as = some s ∧ ¬ Unique s.answers := by
  refine ⟨calls (2 ^ 32 + 1), _, run_calls (2 ^ 32 + 1), ?_⟩
  intro hu
  have hsame := (List.pairwise_cons.mp hu.same).1 (answerTo 0) (mem_answersTo (by decide))
  have hagain : sequenceOf (2 ^ 32) = sequenceOf 0 := by decide
  have hid : (answerTo (2 ^ 32)).id = (answerTo 0).id := by
    unfold answerTo
    rw [hagain]
  exact hsame rfl 1 (hid.trans (by decide)) (by decide)

end WasmerNapi.HostJs.MessageIds
