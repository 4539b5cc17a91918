import WasmerNapi.Lib.Ranked

/-!
# Cleanup hooks

At the release of an env its cleanup hooks run, and while one runs it may add hooks and
remove some. The V8 provider goes in rounds, as Node's `CleanupQueue::Drain` does: it takes
a snapshot of the hooks, runs those of it that are still registered, the most recent first,
and takes the next snapshot. The QuickJS provider pops the most recent hook until there is
none.

A hook that is added during a round waits for the next one in V8, and goes first in QuickJS.
And in V8 the hook that runs is still registered while it runs, in QuickJS it is not, so
that it can remove itself in one and not in the other. `run_alike`: while no hook does
either of these, the two call the same hooks in the same order.
-/

namespace WasmerNapi.V8.CleanupHooks

open Ranked

/-- A registered hook `H`, which is a function with its argument. `number` counts the hooks
    registered in the env. -/
structure Entry (H : Type) where
  hook : H
  number : ℕ
  deriving DecidableEq

/-- `env_cleanup_hook_counter++`, a `uint64_t`. -/
def Entry.order {H : Type} (e : Entry H) : ℕ := e.number % 2 ^ 64

/-- What a hook does when it is called, or the guest before the release: adds and removes,
    the second with its answer, and leaves the world behind as it is then. -/
inductive Body (ω H : Type)
  | done (world : ω)
  | add (hook : H) (next : Body ω H)
  | remove (hook : H) (ok invalid : Body ω H)

/-- `env_cleanup_hooks`, the first registered first, and what the hooks have made of the world.
    For the statements: how many were registered, which were removed before their turn, and
    which were called, the last one first. -/
structure Env (ω H : Type) where
  world : ω
  hooks : List (Entry H) := []
  added : ℕ := 0
  removed : List (Entry H) := []
  called : List (Entry H) := []

section

variable {ω H : Type} [DecidableEq H]

namespace Env

/-- `napi_add_env_cleanup_hook`. -/
def add (s : Env ω H) (hook : H) : Env ω H :=
  { s with
    hooks := s.hooks ++ [{ hook, number := s.added }]
    added := s.added + 1 }

/-- The hooks without `e`. A hook that is called has had its turn. -/
def without (s : Env ω H) (e : Entry H) (hooks : List (Entry H)) : Env ω H :=
  { s with
    hooks
    removed := if e ∈ s.called then s.removed else e :: s.removed }

/-- `napi_remove_env_cleanup_hook`: the first equal pair of the list, if there is one. -/
def remove (s : Env ω H) (hook : H) : Option (Env ω H) :=
  (s.hooks.find? fun e => e.hook = hook).map fun e =>
    s.without e (s.hooks.eraseP fun e => e.hook = hook)

end Env

def Body.exec : Body ω H → Env ω H → Env ω H
  | done world, s => { s with world }
  | add hook next, s => next.exec (s.add hook)
  | remove hook ok invalid, s =>
    match s.remove hook with
    | some s' => ok.exec s'
    | none => invalid.exec s

/-- What each hook does in each world. -/
abbrev Hooks (ω H : Type) : Type := H → ω → Body ω H

/-- The hook is called, with the env as it then is. -/
def Env.call (hooks : Hooks ω H) (s : Env ω H) (e : Entry H) : Env ω H :=
  (hooks e.hook s.world).exec { s with called := e :: s.called }

/-! ## V8 -/

/-- `find_hook`. -/
def Entry.found (e : Entry H) (o : Entry H) : Bool := o.hook = e.hook && o.order = e.order

/-- `std::sort`, by `a.order > b.order`. -/
def sortDescending (es : List (Entry H)) : List (Entry H) :=
  es.insertionSort fun a b => b.order < a.order

/-- `RunEnvCleanupHooks`, one turn of a loop: the outer one takes a snapshot, the inner one runs
    the next hook of it, if that is registered still. -/
def runEnvCleanupHooks (hooks : Hooks ω H) :
    Env ω H × List (Entry H) → Option (Env ω H × List (Entry H))
  | (s, []) => if s.hooks = [] then none else some (s, sortDescending s.hooks)
  | (s, e :: rest) =>
    if s.hooks.any e.found then
      let s := s.call hooks e
      some ({ s with hooks := s.hooks.eraseP e.found }, rest)
    else some (s, rest)

/-! ## QuickJS -/

/-- `run_cleanup_hooks`, one turn of its loop. -/
def runCleanupHooks (hooks : Hooks ω H) (s : Env ω H) : Option (Env ω H) :=
  match s.hooks.getLast? with
  | none => none
  | some e => some ({ s with hooks := s.hooks.dropLast }.call hooks e)

/-- The hooks registered and removed before the release. -/
def registered (world : ω) (setup : Body ω H) : Env ω H := setup.exec { world }

/-! ## What the two should do -/

/-- No hook is left, and each was called once or removed before its turn. -/
structure Settled (s : Env ω H) : Prop where
  none_left : s.hooks = []
  once : ((s.called ++ s.removed).map Entry.number).Perm (List.range s.added)

/-- Each comes to the calls the other comes to, in the same order; they end together; and then
    every hook is settled. -/
structure Alike (hooks : Hooks ω H) (s : Env ω H) : Prop where
  v8 : ∀ n, ∃ m, (after (runEnvCleanupHooks hooks) n (s, [])).1.called =
    (after (runCleanupHooks hooks) m s).called
  quickjs : ∀ m, ∃ n, (after (runEnvCleanupHooks hooks) n (s, [])).1.called =
    (after (runCleanupHooks hooks) m s).called
  ends : (∃ n, runEnvCleanupHooks hooks (after (runEnvCleanupHooks hooks) n (s, [])) = none) ↔
    ∃ m, runCleanupHooks hooks (after (runCleanupHooks hooks) m s) = none
  v8_settled : ∀ n, runEnvCleanupHooks hooks (after (runEnvCleanupHooks hooks) n (s, [])) = none →
    Settled (after (runEnvCleanupHooks hooks) n (s, [])).1
  /-- What is called next is the most recent of the hooks that are registered. -/
  recent : ∀ n t e rest, after (runEnvCleanupHooks hooks) n (s, []) = (t, e :: rest) →
    e ∈ t.hooks → ∀ o ∈ t.hooks, o.number ≤ e.number
  quickjs_settled : ∀ m, runCleanupHooks hooks (after (runCleanupHooks hooks) m s) = none →
    Settled (after (runCleanupHooks hooks) m s)

/-- A call of `e` does neither of the two things: it removes a pair equal to its own only while
    an older equal one is registered; and it leaves no hook that it added registered beside an
    older one. Nor does the counter overflow. -/
def Body.Allowed (e : Entry H) : Body ω H → Env ω H → Prop
  | done _, s => s.added ≤ 2 ^ 64 ∧
      ((∀ o ∈ s.hooks, o.number < e.number) ∨ ∀ o ∈ s.hooks, e.number < o.number)
  | add hook next, s => next.Allowed e (s.add hook)
  | remove hook ok invalid, s =>
    (hook = e.hook → ∃ o ∈ s.hooks, o.hook = hook ∧ o.number < e.number) ∧
      match s.remove hook with
      | some s' => ok.Allowed e s'
      | none => invalid.Allowed e s

instance Body.decidableAllowed (e : Entry H) :
    ∀ (b : Body ω H) (s : Env ω H), Decidable (b.Allowed e s)
  | done _, _ => inferInstanceAs (Decidable (_ ∧ (_ ∨ _)))
  | add hook next, s => decidableAllowed e next (s.add hook)
  | remove hook ok invalid, s =>
    match h : s.remove hook with
    | some s' =>
      have := decidableAllowed e ok s'
      decidable_of_iff ((hook = e.hook → ∃ o ∈ s.hooks, o.hook = hook ∧ o.number < e.number) ∧
        ok.Allowed e s') (by rw [Allowed, h])
    | none =>
      have := decidableAllowed e invalid s
      decidable_of_iff ((hook = e.hook → ∃ o ∈ s.hooks, o.hook = hook ∧ o.number < e.number) ∧
        invalid.Allowed e s) (by rw [Allowed, h])

/-- The call that comes next is an allowed one. -/
def NextAllowed (hooks : Hooks ω H) (s : Env ω H) : Prop :=
  ∀ e ∈ s.hooks.getLast?, (hooks e.hook s.world).Allowed e
    { s with hooks := s.hooks.dropLast, called := e :: s.called }

instance (hooks : Hooks ω H) (s : Env ω H) : Decidable (NextAllowed hooks s) :=
  inferInstanceAs (Decidable (∀ e ∈ s.hooks.getLast?, _))

variable {s t : Env ω H} {e o : Entry H} {hook : H}

/-! ## Removing -/

theorem remove_first {as bs : List (Entry H)} (h : s.hooks = as ++ o :: bs) (ho : o.hook = hook)
    (has : ∀ a ∈ as, a.hook ≠ hook) :
    s.remove hook = some (s.without o (as ++ bs)) := by
  have hfind : s.hooks.find? (fun e => e.hook = hook) = some o := by
    rw [h, List.find?_append, List.find?_eq_none.mpr (by simpa using has), Option.none_or,
      List.find?_cons_of_pos (by simpa using ho)]
  have herase : s.hooks.eraseP (fun e => e.hook = hook) = as ++ bs := by
    rw [h, List.eraseP_append_right _ (by simpa using has),
      List.eraseP_cons_of_pos (by simpa using ho)]
  rw [Env.remove, hfind, herase]
  rfl

theorem remove_none (h : ∀ e ∈ s.hooks, e.hook ≠ hook) : s.remove hook = none := by
  rw [Env.remove, List.find?_eq_none.mpr (by simpa using h)]
  rfl

/-- The first equal pair in a list, if there is one. -/
theorem first_cases (l : List (Entry H)) (hook : H) :
    (∀ e ∈ l, e.hook ≠ hook) ∨
      ∃ as o bs, l = as ++ o :: bs ∧ o.hook = hook ∧ ∀ a ∈ as, a.hook ≠ hook := by
  cases hfind : l.find? (fun e => e.hook = hook) with
  | none => exact .inl (by simpa using List.find?_eq_none.mp hfind)
  | some o =>
    obtain ⟨ho, as, bs, hl, has⟩ := List.find?_eq_some_iff_append.mp hfind
    exact .inr ⟨as, o, bs, hl, by simpa using ho, by simpa using has⟩

/-! ## Each hook once -/

/-- The hooks stand in the order of their numbers, and each number given out is that of one
    hook, registered, removed or called. -/
structure Inv (s : Env ω H) : Prop where
  ascending : s.hooks.Pairwise fun a b => a.number < b.number
  once : ((s.called ++ s.removed ++ s.hooks).map Entry.number).Perm (List.range s.added)

section

omit [DecidableEq H]

theorem Inv.below (hi : Inv s) : ∀ o ∈ s.hooks, o.number < s.added := by
  intro o ho
  have hmem : o.number ∈ (s.called ++ s.removed ++ s.hooks).map Entry.number :=
    List.mem_map_of_mem (List.mem_append_right _ ho)
  exact List.mem_range.mp (hi.once.mem_iff.mp hmem)

theorem Inv.not_called (hi : Inv s) (ho : o ∈ s.hooks) : o ∉ s.called := by
  intro hcalled
  have hnodup := hi.once.nodup_iff.mpr List.nodup_range
  rw [List.map_append, List.map_append, List.append_assoc] at hnodup
  have hdisjoint := (List.nodup_append.mp hnodup).2.2
  exact hdisjoint o.number (List.mem_map_of_mem hcalled) o.number
    (List.mem_append_right _ (List.mem_map_of_mem ho)) rfl

theorem inv_empty (world : ω) : Inv ({ world } : Env ω H) where
  ascending := List.Pairwise.nil
  once := List.Perm.refl _

theorem Inv.add (hi : Inv s) (hook : H) : Inv (s.add hook) where
  ascending := by
    refine List.pairwise_append.mpr ⟨hi.ascending, List.pairwise_singleton _ _, ?_⟩
    intro a ha b hb
    obtain rfl := List.mem_singleton.mp hb
    exact hi.below a ha
  once := by
    show ((s.called ++ s.removed ++ (s.hooks ++ [_])).map Entry.number).Perm
      (List.range (s.added + 1))
    rw [List.range_succ, ← List.append_assoc, List.map_append]
    exact hi.once.append_right _

end

theorem Inv.remove (hi : Inv s) (h : s.remove hook = some t) : Inv t := by
  rcases first_cases s.hooks hook with hnone | ⟨as, o, bs, hhooks, ho, has⟩
  · rw [remove_none hnone] at h
    cases h
  · have hmem : o ∈ s.hooks := by simp [hhooks]
    rw [remove_first hhooks ho has, Env.without, if_neg (hi.not_called hmem)] at h
    cases h
    have hasc := hi.ascending
    have honce := hi.once
    rw [hhooks] at hasc honce
    refine ⟨hasc.sublist ((List.sublist_cons_self o bs).append_left as), ?_⟩
    refine List.Perm.trans (List.Perm.map _ ?_) honce
    show (s.called ++ o :: s.removed ++ (as ++ bs)).Perm (s.called ++ s.removed ++ (as ++ o :: bs))
    rw [List.append_assoc, List.append_assoc, List.cons_append]
    refine List.Perm.append_left _ (List.Perm.trans ?_ (List.perm_middle.symm.append_left s.removed))
    exact List.perm_middle.symm

theorem exec_inv (b : Body ω H) (hi : Inv s) : Inv (b.exec s) := by
  induction b generalizing s with
  | done world => exact ⟨hi.ascending, hi.once⟩
  | add hook next ih => exact ih (hi.add hook)
  | remove hook ok invalid ihok ihinvalid =>
    rw [Body.exec]
    cases h : s.remove hook with
    | none => exact ihinvalid hi
    | some t => exact ihok (hi.remove h)

omit [DecidableEq H] in
/-- The env of a QuickJS call: the hook has been popped. -/
theorem Inv.pop {older : List (Entry H)} (hi : Inv s) (h : s.hooks = older ++ [e]) :
    Inv { s with hooks := older, called := e :: s.called } := by
  have hasc := hi.ascending
  have honce := hi.once
  rw [h] at hasc honce
  refine ⟨hasc.sublist (List.sublist_append_left _ _), ?_⟩
  refine List.Perm.trans (List.Perm.map _ ?_) honce
  show (e :: s.called ++ s.removed ++ older).Perm (s.called ++ s.removed ++ (older ++ [e]))
  rw [← List.append_assoc]
  exact (List.perm_append_singleton e _).symm

/-! ## The same call in both

In V8 the hook `e` that runs stands between the hooks that are older and those it adds; in
QuickJS it does not stand there. -/

/-- The env with the running hook in its list. -/
def Env.beside (s : Env ω H) (older : List (Entry H)) (e : Entry H) (newer : List (Entry H)) :
    Env ω H :=
  { s with hooks := older ++ e :: newer }

/-- An allowed call does the same in both, and leaves older hooks or newer ones, not both. -/
theorem exec_beside (b : Body ω H) {older newer : List (Entry H)} {start : ℕ}
    (hhooks : s.hooks = older ++ newer) (holder : ∀ o ∈ older, o.number < e.number)
    (hnewer : ∀ o ∈ newer, start ≤ o.number) (he : e.number < start) (hstart : start ≤ s.added)
    (hallowed : b.Allowed e s) :
    ∃ older' newer', (b.exec s).hooks = older' ++ newer' ∧
      b.exec (s.beside older e newer) = (b.exec s).beside older' e newer' ∧
      older'.Sublist older ∧ (∀ o ∈ newer', start ≤ o.number) ∧ (older' = [] ∨ newer' = []) ∧
      (b.exec s).added ≤ 2 ^ 64 := by
  induction b generalizing s older newer with
  | done world =>
    obtain ⟨hadded, hbeside⟩ := hallowed
    refine ⟨older, newer, hhooks, rfl, List.Sublist.refl _, hnewer, ?_, hadded⟩
    rw [hhooks] at hbeside
    rcases hbeside with hall | hall
    · right
      refine List.eq_nil_iff_forall_not_mem.mpr ?_
      intro o ho
      have hlt := hall o (List.mem_append_right _ ho)
      have hle := hnewer o ho
      omega
    · left
      refine List.eq_nil_iff_forall_not_mem.mpr ?_
      intro o ho
      exact absurd (hall o (List.mem_append_left _ ho)) (Nat.lt_asymm (holder o ho))
  | add hook next ih =>
    have hadd : (s.beside older e newer).add hook =
        (s.add hook).beside older e (newer ++ [{ hook, number := s.added }]) := by
      simp [Env.add, Env.beside]
    rw [Body.exec, Body.exec, hadd]
    refine ih ?_ holder ?_ (Nat.le_succ_of_le hstart) hallowed
    · show s.hooks ++ [_] = _
      rw [hhooks, List.append_assoc]
    · intro o ho
      rcases List.mem_append.mp ho with ho | ho
      · exact hnewer o ho
      · obtain rfl := List.mem_singleton.mp ho
        exact hstart
  | remove hook ok invalid ihok ihinvalid =>
    obtain ⟨hown, hnext⟩ := hallowed
    rw [Body.exec, Body.exec]
    rcases first_cases older hook with hnone | ⟨as, o, bs, rfl, ho, has⟩
    · -- No older one is equal, so the hook itself is not either.
      have hne : e.hook ≠ hook := by
        intro heq
        obtain ⟨o, hmem, hohook, hlt⟩ := hown heq.symm
        rw [hhooks] at hmem
        rcases List.mem_append.mp hmem with hmem | hmem
        · exact hnone o hmem hohook
        · have hle := hnewer o hmem
          omega
      rcases first_cases newer hook with hnone' | ⟨as, o, bs, rfl, ho, has⟩
      · have hs : s.remove hook = none := by
          refine remove_none ?_
          rw [hhooks]
          exact List.forall_mem_append.mpr ⟨hnone, hnone'⟩
        have hv : (s.beside older e newer).remove hook = none :=
          remove_none (List.forall_mem_append.mpr ⟨hnone, List.forall_mem_cons.mpr ⟨hne, hnone'⟩⟩)
        rw [hs] at hnext ⊢
        rw [hv]
        exact ihinvalid hhooks holder hnewer hstart hnext
      · have hs : s.remove hook = some (s.without o (older ++ (as ++ bs))) := by
          have hfirst := List.forall_mem_append.mpr ⟨hnone, has⟩
          rw [remove_first (hhooks.trans (List.append_assoc _ _ _).symm) ho hfirst,
            List.append_assoc]
        have hv : (s.beside older e (as ++ o :: bs)).remove hook =
            some ((s.without o (older ++ (as ++ bs))).beside older e (as ++ bs)) := by
          have hfirst := List.forall_mem_append.mpr ⟨hnone, List.forall_mem_cons.mpr ⟨hne, has⟩⟩
          have hlist : (s.beside older e (as ++ o :: bs)).hooks =
              (older ++ e :: as) ++ o :: bs := by simp [Env.beside]
          rw [remove_first hlist ho hfirst, List.append_assoc]
          rfl
        rw [hs] at hnext ⊢
        rw [hv]
        refine ihok rfl holder ?_ hstart hnext
        intro o' ho'
        refine hnewer o' ?_
        rcases List.mem_append.mp ho' with ho' | ho'
        · exact List.mem_append_left _ ho'
        · exact List.mem_append_right _ (List.mem_cons_of_mem _ ho')
    · have hs : s.remove hook = some (s.without o ((as ++ bs) ++ newer)) := by
        rw [remove_first (hhooks.trans (List.append_assoc _ _ _)) ho has, List.append_assoc]
        rfl
      have hv : (s.beside (as ++ o :: bs) e newer).remove hook =
          some ((s.without o ((as ++ bs) ++ newer)).beside (as ++ bs) e newer) := by
        have hlist : (s.beside (as ++ o :: bs) e newer).hooks = as ++ o :: (bs ++ e :: newer) := by
          simp [Env.beside]
        rw [remove_first hlist ho has, ← List.append_assoc]
        rfl
      rw [hs] at hnext ⊢
      rw [hv]
      have hsub : (as ++ bs).Sublist (as ++ o :: bs) := (List.sublist_cons_self o bs).append_left as
      have hallowed : ok.Allowed e (s.without o ((as ++ bs) ++ newer)) := hnext
      have hhooks' : (s.without o ((as ++ bs) ++ newer)).hooks = (as ++ bs) ++ newer := rfl
      obtain ⟨older', newer', hlist, hexec, hsub', hrest⟩ :=
        ihok hhooks' (fun o' ho' => holder o' (hsub.subset ho')) hnewer hstart hallowed
      exact ⟨older', newer', hlist, hexec, hsub'.trans hsub, hrest⟩

/-! ## Rounds against the stack -/

theorem found_iff (he : e.number < 2 ^ 64) (ho : o.number < 2 ^ 64) :
    e.found o = true ↔ o = e := by
  unfold Entry.found Entry.order
  rw [Nat.mod_eq_of_lt he, Nat.mod_eq_of_lt ho]
  cases e
  cases o
  simp

omit [DecidableEq H] in
theorem sortDescending_eq {es : List (Entry H)} (h : es.Pairwise fun a b => a.number < b.number)
    (hbound : ∀ o ∈ es, o.number < 2 ^ 64) : sortDescending es = es.reverse := by
  unfold sortDescending
  induction es with
  | nil => rfl
  | cons a es ih =>
    obtain ⟨hhead, htail⟩ := List.pairwise_cons.mp h
    rw [List.insertionSort_cons, ih htail fun o ho => hbound o (List.mem_cons_of_mem _ ho),
      List.reverse_cons]
    -- The head is older than all the others, and goes to the end.
    have hlast : ∀ l : List (Entry H), (∀ o ∈ l, o ∈ es) →
        List.orderedInsert (fun a b => b.order < a.order) a l = l ++ [a] := by
      intro l hl
      induction l with
      | nil => rfl
      | cons o l ihl =>
        have ho := hl o (List.mem_cons_self ..)
        have hnot : ¬ o.order < a.order := by
          unfold Entry.order
          rw [Nat.mod_eq_of_lt (hbound a (List.mem_cons_self ..)),
            Nat.mod_eq_of_lt (hbound o (List.mem_cons_of_mem _ ho))]
          exact Nat.not_lt.mpr (hhead o ho).le
        rw [List.orderedInsert_cons, if_neg hnot,
          ihl fun o' ho' => hl o' (List.mem_cons_of_mem _ ho')]
        rfl
    exact hlast es.reverse fun o ho => List.mem_reverse.mp ho

/-- What of a list stands in a sublist of it is the sublist. -/
theorem filter_mem_of_sublist {α : Type} [DecidableEq α] {l l' : List α} (h : l'.Sublist l) (hnodup : l.Nodup) :
    (l.filter fun o => o ∈ l') = l' := by
  induction h with
  | slnil => rfl
  | @cons l₁ l₂ a h ih =>
    obtain ⟨ha, htail⟩ := List.nodup_cons.mp hnodup
    rw [List.filter_cons_of_neg (by simpa using fun hmem => ha (h.subset hmem)), ih htail]
  | @cons_cons l₁ l₂ a h ih =>
    obtain ⟨ha, htail⟩ := List.nodup_cons.mp hnodup
    rw [List.filter_cons_of_pos (by simp)]
    refine congrArg (a :: ·) ?_
    refine (List.filter_congr ?_).trans (ih htail)
    intro o ho
    have hne : o ≠ a := fun heq => ha (heq ▸ ho)
    simp [hne]

/-- What is left to run of a round when some of it has been removed. -/
theorem filter_of_sublist {α : Type} [DecidableEq α] {rest l older older' : List α}
    (h : (rest.filter fun o => o ∈ l) = older.reverse) (hin : ∀ o ∈ older, o ∈ l)
    (hsub : older'.Sublist older) (hnodup : older.Nodup) :
    (rest.filter fun o => o ∈ older') = older'.reverse := by
  have hstill : (rest.filter fun o => o ∈ older') =
      (rest.filter fun o => o ∈ l).filter fun o => o ∈ older' := by
    rw [List.filter_filter]
    refine List.filter_congr ?_
    intro o _
    by_cases hmem : o ∈ older'
    · simp [hmem, hin o (hsub.subset hmem)]
    · simp [hmem]
  rw [hstill, h, List.filter_reverse, filter_mem_of_sublist hsub hnodup]

/-- V8 takes the hook that has run out of its place. -/
theorem erase_running {older newer : List (Entry H)} (he : e.number < 2 ^ 64)
    (holder : ∀ o ∈ older, o.number < e.number) :
    (older ++ e :: newer).eraseP e.found = older ++ newer := by
  rw [List.eraseP_append_right, List.eraseP_cons_of_pos]
  · exact (found_iff he he).mpr rfl
  · intro o ho hfound
    have hlt := holder o ho
    rw [(found_iff he (hlt.trans he)).mp hfound] at hlt
    exact absurd hlt (Nat.lt_irrefl _)

/-- The state of V8 in a round and that of QuickJS: the same env, whose hooks are either all in
    what is left of the round, or all for the next one. -/
structure Related (hooks : Hooks ω H) (v : Env ω H × List (Entry H)) (t : Env ω H) : Prop where
  env : v.1 = t
  inv : Inv t
  few : t.added ≤ 2 ^ 64
  snapshot : ∀ e ∈ v.2, e.number < t.added
  round : (v.2.filter fun e => e ∈ t.hooks) = t.hooks.reverse ∨
    (v.2.filter fun e => e ∈ t.hooks) = []
  allowed : ∀ m, NextAllowed hooks (after (runCleanupHooks hooks) m t)

/-- How many entries of the snapshot V8 passes over before its next call. -/
def passes (v : Env ω H × List (Entry H)) : ℕ :=
  match v.2 with
  | [] => 1
  | e :: rest => if e ∈ v.1.hooks then 0 else rest.length + 2

theorem passes_le (v : Env ω H × List (Entry H)) : passes v ≤ v.2.length + 1 := by
  unfold passes
  split
  · omega
  · rename_i e rest h
    rw [h, List.length_cons]
    split <;> omega

theorem exec_added (b : Body ω H) : s.added ≤ (b.exec s).added := by
  induction b generalizing s with
  | done world => exact le_refl _
  | add hook next ih => exact (Nat.le_succ s.added).trans (ih (s := s.add hook))
  | remove hook ok invalid ihok ihinvalid =>
    rw [Body.exec]
    cases h : s.remove hook with
    | none => exact ihinvalid
    | some t =>
      obtain ⟨e, _, rfl⟩ := Option.map_eq_some_iff.mp h
      exact ihok (s := s.without e _)

variable {hooks : Hooks ω H} {rest : List (Entry H)}

/-- QuickJS pops the most recent hook. -/
theorem runCleanupHooks_eq {older : List (Entry H)} (h : t.hooks = older ++ [e]) :
    runCleanupHooks hooks t = some ((hooks e.hook t.world).exec
      { t with hooks := older, called := e :: t.called }) := by
  simp [runCleanupHooks, h, Env.call]

theorem any_found_iff (hi : Inv t) (hfew : t.added ≤ 2 ^ 64) (he : e.number < t.added) :
    t.hooks.any e.found = true ↔ e ∈ t.hooks := by
  rw [List.any_eq_true]
  constructor
  · rintro ⟨o, ho, hfound⟩
    have hlt := hi.below o ho
    rwa [← (found_iff (by omega) (by omega)).mp hfound]
  · intro hmem
    exact ⟨e, hmem, (found_iff (by omega) (by omega)).mpr rfl⟩

/-- A hook of the snapshot that is registered still is the last of those that are. -/
theorem Related.last (h : Related hooks (t, e :: rest) t) (he : e ∈ t.hooks) :
    t.hooks = (rest.filter fun o => o ∈ t.hooks).reverse ++ [e] := by
  have hround := h.round
  rw [List.filter_cons_of_pos (by simpa using he)] at hround
  exact List.reverse_eq_cons_iff.mp (hround.resolve_right (by simp)).symm

/-- So it is the one that both call. -/
theorem related_call (h : Related hooks (t, e :: rest) t) (he : e ∈ t.hooks) :
    ∃ t', runEnvCleanupHooks hooks (t, e :: rest) = some (t', rest) ∧
      runCleanupHooks hooks t = some t' ∧ Related hooks (t', rest) t' := by
  have hadded : e.number < t.added := h.snapshot e (List.mem_cons_self ..)
  have hrest := h.last he
  set older := (rest.filter fun o => o ∈ t.hooks).reverse with holderdef
  have hasc := h.inv.ascending
  rw [hrest] at hasc
  have holder : ∀ o ∈ older, o.number < e.number := by
    intro o ho
    exact (List.pairwise_append.mp hasc).2.2 o ho e (List.mem_singleton_self e)
  have hpopped : Inv { t with hooks := older, called := e :: t.called } := h.inv.pop hrest
  have hquickjs : runCleanupHooks hooks t = some ((hooks e.hook t.world).exec
      { t with hooks := older, called := e :: t.called }) := runCleanupHooks_eq hrest
  have hallowed : (hooks e.hook t.world).Allowed e
      { t with hooks := older, called := e :: t.called } := by
    have hnext := h.allowed 0 e (by simp [hrest])
    simpa [hrest] using hnext
  have hpoppedHooks : ({ t with hooks := older, called := e :: t.called } : Env ω H).hooks =
      older ++ [] := (List.append_nil older).symm
  obtain ⟨older', newer', hhooks', hexec, hsub, hnewer, hleft, hfew⟩ :=
    exec_beside (hooks e.hook t.world) hpoppedHooks holder nofun hadded le_rfl
      hallowed
  set t' := (hooks e.hook t.world).exec { t with hooks := older, called := e :: t.called }
  have hv8 : t.call hooks e = t'.beside older' e newer' := by
    rw [← hexec, Env.call]
    refine congrArg _ ?_
    rw [Env.beside, ← hrest]
  -- The call has left the hook in its place, and it is taken out.
  have herase : (t'.beside older' e newer').hooks.eraseP e.found = t'.hooks :=
    (erase_running (hadded.trans_le h.few) fun o ho => holder o (hsub.subset ho)).trans hhooks'.symm
  refine ⟨t', ?_, hquickjs, ?_⟩
  · have hany := (any_found_iff h.inv h.few hadded).mpr he
    simp only [runEnvCleanupHooks, hany, if_true, hv8, herase]
    rfl
  · have hle : t.added ≤ t'.added :=
      exec_added (s := { t with hooks := older, called := e :: t.called }) _
    refine ⟨rfl, exec_inv _ hpopped, hfew, ?_, ?_, ?_⟩
    · intro o ho
      exact (h.snapshot o (List.mem_cons_of_mem _ ho)).trans_le hle
    · rw [hhooks']
      rcases hleft with hnil | hnil
      · -- What is left to run was added in this call, and no snapshot has it.
        right
        rw [hnil, List.nil_append, List.filter_eq_nil_iff]
        intro o ho hmem
        have hlt := h.snapshot o (List.mem_cons_of_mem _ ho)
        have hge := hnewer o (by simpa using hmem)
        omega
      · left
        rw [hnil, List.append_nil]
        have hnodup : older.Nodup := by
          have hnumbers := (List.pairwise_append.mp hasc).1
          exact hnumbers.imp fun hlt heq => absurd hlt (by rw [heq]; exact Nat.lt_irrefl _)
        have hreverse : (rest.filter fun o => o ∈ t.hooks) = older.reverse := by
          rw [holderdef, List.reverse_reverse]
        refine filter_of_sublist hreverse ?_ hsub hnodup
        intro o ho
        rw [hrest]
        exact List.mem_append_left _ ho
    · intro m
      have hnext := h.allowed (m + 1)
      rwa [after_succ hquickjs] at hnext

theorem related_matches (hooks : Hooks ω H) :
    Matches (runEnvCleanupHooks hooks) (runCleanupHooks hooks) (Related hooks) passes := by
  rintro ⟨s, rest⟩ t h
  obtain rfl : s = t := h.env
  cases rest with
  | nil =>
    by_cases hnil : s.hooks = []
    · exact .ended (by simp [runEnvCleanupHooks, hnil]) (by simp [runCleanupHooks, hnil])
    · have hbelow := h.inv.below
      have hsort : sortDescending s.hooks = s.hooks.reverse :=
        sortDescending_eq h.inv.ascending fun o ho => (hbelow o ho).trans_le h.few
      refine .alone (s, s.hooks.reverse) (by simp [runEnvCleanupHooks, hnil, hsort]) ?_ ?_
      · exact ⟨rfl, h.inv, h.few, fun e he => hbelow e (List.mem_reverse.mp he),
          .inl (List.filter_eq_self.mpr (by simp)), h.allowed⟩
      · cases hrev : s.hooks.reverse with
        | nil => exact absurd (List.reverse_eq_nil_iff.mp hrev) hnil
        | cons e rest =>
          have he : e ∈ s.hooks := List.mem_reverse.mp (hrev ▸ List.mem_cons_self ..)
          simp [passes, he]
  | cons e rest =>
    have hany := any_found_iff h.inv h.few (h.snapshot e (List.mem_cons_self ..))
    by_cases he : e ∈ s.hooks
    · obtain ⟨t', hv8, hquickjs, hrelated⟩ := related_call h he
      exact .together _ t' hv8 hquickjs hrelated
    · refine .alone (s, rest) (by simp [runEnvCleanupHooks, hany, he]) ?_ ?_
      · have hround := h.round
        rw [List.filter_cons_of_neg (by simpa using he)] at hround
        exact ⟨rfl, h.inv, h.few, fun o ho => h.snapshot o (List.mem_cons_of_mem _ ho), hround,
          h.allowed⟩
      · have hle := passes_le (s, rest)
        have hpasses : passes (s, e :: rest) = rest.length + 2 := if_neg he
        rw [hpasses]
        exact Nat.lt_succ_of_le hle

/-! ## The release -/

theorem settled_of_ended (hi : Inv t) (h : runCleanupHooks hooks t = none) : Settled t := by
  have hnil : t.hooks = [] := by
    cases hlast : t.hooks.getLast? with
    | none => exact List.getLast?_eq_none_iff.mp hlast
    | some e => simp [runCleanupHooks, hlast] at h
  have honce := hi.once
  rw [hnil, List.append_nil] at honce
  exact ⟨hnil, honce⟩

/-- Whatever was registered and removed before the release, and whatever the hooks do in it:
    while they only make allowed calls, the two providers call the same hooks in the same order,
    each once, and leave none. -/
theorem run_alike (hooks : Hooks ω H) (world : ω) (setup : Body ω H)
    (hfew : (registered world setup).added ≤ 2 ^ 64)
    (hallowed : ∀ m, NextAllowed hooks (after (runCleanupHooks hooks) m (registered world setup))) :
    Alike hooks (registered world setup) := by
  have hmatches := related_matches hooks
  have hinit : Related hooks (registered world setup, []) (registered world setup) :=
    ⟨rfl, exec_inv setup (inv_empty world), hfew, by simp, .inr rfl, hallowed⟩
  constructor
  · intro n
    obtain ⟨m, hm⟩ := hmatches.forward hinit n
    exact ⟨m, congrArg Env.called hm.env⟩
  · intro m
    obtain ⟨n, hn⟩ := hmatches.backward hinit m
    exact ⟨n, congrArg Env.called hn.env⟩
  · constructor
    · rintro ⟨n, hn⟩
      obtain ⟨m, hm⟩ := hmatches.forward hinit n
      exact ⟨m, hmatches.ended hm hn⟩
    · rintro ⟨m, hm⟩
      obtain ⟨n, hn⟩ := hmatches.backward hinit m
      obtain ⟨k, hk, _⟩ := hmatches.ends hn hm
      exact ⟨n + k, by rwa [after_add]⟩
  · intro n hended
    obtain ⟨m, hm⟩ := hmatches.forward hinit n
    rw [hm.env]
    exact settled_of_ended hm.inv (hmatches.ended hm hended)
  · intro n t e rest hafter he o ho
    obtain ⟨m, hm⟩ := hmatches.forward hinit n
    rw [hafter] at hm
    obtain rfl : t = _ := hm.env
    have hasc := hm.inv.ascending
    rw [hm.last he] at hasc ho
    rcases List.mem_append.mp ho with ho | ho
    · exact ((List.pairwise_append.mp hasc).2.2 o ho e (List.mem_singleton_self e)).le
    · rw [List.mem_singleton.mp ho]
  · intro m hended
    obtain ⟨n, hn⟩ := hmatches.backward hinit m
    exact settled_of_ended hn.inv hended

end

/-- The hooks `1`, `2` and `3` are registered, in this order. -/
def three : Body Unit ℕ := .add 1 (.add 2 (.add 3 (.done ())))

/-- The hook `3` removes the next one, and `1` adds that again. -/
def tidy : Hooks Unit ℕ
  | 3, _ => .remove 2 (.done ()) (.done ())
  | 1, _ => .add 2 (.done ())
  | _, _ => .done ()

theorem tidy_alike : Alike tidy (registered () three) := by
  refine run_alike tidy () three (by decide) ?_
  intro m
  rcases Nat.lt_or_ge m 3 with hlt | hge
  · interval_cases m <;> decide
  · rw [after_of_le (m := 3) rfl hge]
    decide

/-- The hook `3` adds another one while two are waiting. -/
def adding : Hooks Unit ℕ
  | 3, _ => .add 4 (.done ())
  | _, _ => .done ()

/-- QuickJS calls `4` second, V8 last. -/
theorem adding_not_alike : ¬ Alike adding (registered () three) := by
  intro h
  obtain ⟨n, hn⟩ := h.quickjs 2
  rcases Nat.lt_or_ge n 6 with hlt | hge
  · interval_cases n <;> exact absurd hn (by decide)
  · rw [after_of_le (m := 6) rfl hge] at hn
    exact absurd hn (by decide)

end WasmerNapi.V8.CleanupHooks
