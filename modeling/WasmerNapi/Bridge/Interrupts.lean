import WasmerNapi.Bridge.Teardown

/-!
# Interrupt requests

A `WasmInterruptRequest` is accepted when it joins `pending_interrupts`, and then three can
delete it: its callback, the request itself when the engine does not queue it, and the release,
for those the engine dropped. Who owns a request is not written anywhere; it is `pending`, plus
what the owner's stack holds: a callback has taken its request out of the set before it runs the
guest function and deletes it after, and the end of a release has taken all of them.

So the set is not the accepted requests that are not yet deleted, though it nearly is
(`callback_takes_request`): one whose callback runs is in neither. `Owned` is the count of each
request in each place; all that is wanted of them follows from two sums.
-/

namespace WasmerNapi.Bridge.Teardown

open Run
open List (flatMap_cons nil_append count_nil count_cons count_append count_erase)

section

variable {ρ : Type}

/-- The requests a call has taken out of the set and not deleted yet. -/
def Frame.takes : Frame ρ → List ρ
  | .servicing r | .interrupt r | .serviced r => [r]
  | .sweeping rs => rs
  | _ => []

/-- The requests whose guest function has run or runs. -/
def Frame.ranIn : Frame ρ → List ρ
  | .interrupt r | .serviced r => [r]
  | _ => []

/-- The requests in the set that the engine has not answered for. -/
def Frame.asks : Frame ρ → List ρ
  | .requesting r | .failed r => [r]
  | _ => []

def Holder.asks : Holder ρ → List ρ
  | .enqueuing r | .failed r => [r]
  | _ => []

namespace State

def taken (s : State ρ) : List ρ := s.stack.flatMap Frame.takes

def ranTaken (s : State ρ) : List ρ := s.stack.flatMap Frame.ranIn

def asked (s : State ρ) : List ρ := s.stack.flatMap Frame.asks ++ s.held.toList.flatMap Holder.asks

end State

open State (taken ranTaken asked)

/-- Where each request is, by counting. -/
structure Owned [DecidableEq ρ] (s : State ρ) : Prop where
  once : ∀ r, s.accepted.count r ≤ 1
  ledger : ∀ r, s.accepted.count r = s.pending.count r + s.taken.count r + s.deleted.count r
  queued : ∀ r, s.queue.count r + s.asked.count r ≤ s.pending.count r
  ran : ∀ r, s.ran.count r ≤ s.ranTaken.count r + s.deleted.count r
  dropped : s.isolate = false → s.queue = []
  emptied : s.registered = false → s.pending = []

variable [DecidableEq ρ] {s s' : State ρ} {a : Act ρ} {f : Frame ρ} {fs : List (Frame ρ)}

theorem owned_init : Owned ({} : State ρ) := by
  constructor <;> simp [taken, ranTaken, asked]

/-- Steps that do not touch requests: calls that hold none come and go. -/
theorem Owned.frames (h : Owned s) (hdata : s'.accepted = s.accepted ∧ s'.pending = s.pending ∧
      s'.queue = s.queue ∧ s'.deleted = s.deleted ∧ s'.ran = s.ran)
    (htaken : s'.taken = s.taken) (hran : s'.ranTaken = s.ranTaken) (hasked : s'.asked = s.asked)
    (hflags : s'.isolate = s.isolate ∧ s'.registered = s.registered) : Owned s' := by
  obtain ⟨ha, hp, hq, hd, hr⟩ := hdata
  constructor
  · rw [ha]
    exact h.once
  · rw [ha, hp, htaken, hd]
    exact h.ledger
  · rw [hq, hasked, hp]
    exact h.queued
  · rw [hr, hran, hd]
    exact h.ran
  · rw [hflags.1, hq]
    exact h.dropped
  · rw [hflags.2, hp]
    exact h.emptied

theorem Owned.enter (h : Owned s) (hs : s.enter = some s') : Owned s' := by
  unfold State.enter at hs
  repeat' split at hs
  all_goals simp only [Option.some.injEq, reduceCtorEq] at hs
  all_goals subst hs
  all_goals exact h.frames ⟨rfl, rfl, rfl, rfl, rfl⟩ rfl rfl rfl ⟨rfl, rfl⟩

theorem Owned.leave (h : Owned s) (hs : s.leave = some s') : Owned s' := by
  unfold State.leave at hs
  repeat' split at hs
  all_goals simp only [Option.some.injEq, reduceCtorEq] at hs
  all_goals subst hs
  all_goals
    refine h.frames ⟨rfl, rfl, rfl, rfl, rfl⟩ ?_ ?_ ?_ ⟨rfl, rfl⟩
    all_goals simp_all [taken, ranTaken, asked, Frame.takes, Frame.ranIn, Frame.asks]

theorem Owned.dispose (h : Owned s) (hs : s.dispose = some s') : Owned s' := by
  unfold State.dispose at hs
  repeat' split at hs
  all_goals simp only [Option.some.injEq, reduceCtorEq] at hs
  all_goals subst hs
  all_goals exact h.frames ⟨rfl, rfl, rfl, rfl, rfl⟩ rfl rfl rfl ⟨rfl, rfl⟩

/-- The isolate goes and drops what it has queued; the requests stay in the set. -/
theorem Owned.release (h : Owned s) (hs : s.release = some s') : Owned s' := by
  unfold State.release at hs
  split at hs
  · rename_i fs hstack
    cases hs
    have hledger := h.ledger
    have hqueued := h.queued
    have hran := h.ran
    simp only [taken, ranTaken, asked, hstack, flatMap_cons, Frame.takes,
      Frame.ranIn, Frame.asks, nil_append] at hledger hqueued hran
    refine ⟨h.once, hledger, fun r => ?_, hran, fun _ => rfl, h.emptied⟩
    have hr := hqueued r
    simp only [asked, flatMap_cons, Frame.asks, nil_append, count_nil]
    omega
  · cases hs

/-- The release takes what is left of the set. -/
theorem Owned.unregister (hinv : Inv s) (h : Owned s) (hs : s.unregister = some s') : Owned s' := by
  unfold State.unregister at hs
  split at hs
  · rename_i fs hstack
    split at hs
    · cases hs
    · rename_i hheld
      cases hs
      obtain ⟨rfl, -, -, hiso, -⟩ := hinv.stage.released_top hstack
      have hnone : s.held = none := by simpa using hheld
      have hqueue := h.dropped hiso
      have hledger := h.ledger
      have hran := h.ran
      simp only [taken, ranTaken, hstack, flatMap_cons, List.flatMap_nil,
        Frame.takes, Frame.ranIn, nil_append, count_nil] at hledger hran
      refine ⟨h.once, fun r => ?_, fun r => ?_, fun r => ?_, fun _ => hqueue, fun _ => rfl⟩
      · have hr := hledger r
        simp only [taken, flatMap_cons, List.flatMap_nil, Frame.takes, List.append_nil,
          count_nil]
        omega
      · simp [asked, hqueue, hnone, Frame.asks]
      · have hr := hran r
        simpa [ranTaken, Frame.ranIn] using hr
  · cases hs

theorem Owned.sweep (h : Owned s) (hs : s.sweep = some s') : Owned s' := by
  have hledger := h.ledger
  have hqueued := h.queued
  have hran := h.ran
  unfold State.sweep at hs
  split at hs
  · rename_i r rs fs hstack
    cases hs
    simp only [taken, ranTaken, asked, hstack, flatMap_cons, Frame.takes,
      Frame.ranIn, Frame.asks, nil_append, List.cons_append, count_cons,
      count_append] at hledger hqueued hran
    refine ⟨h.once, fun q => ?_, fun q => ?_, fun q => ?_, h.dropped, h.emptied⟩
    · have hq := hledger q
      simp only [taken, flatMap_cons, Frame.takes, count_cons, count_append]
      omega
    · have hq := hqueued q
      simpa only [asked, flatMap_cons, Frame.asks, nil_append,
        count_append] using hq
    · have hq := hran q
      simp only [ranTaken, flatMap_cons, Frame.ranIn, nil_append, count_cons]
      omega
  · rename_i fs hstack
    cases hs
    refine h.frames ⟨rfl, rfl, rfl, rfl, rfl⟩ ?_ ?_ ?_ ⟨rfl, rfl⟩
    all_goals simp [taken, ranTaken, asked, hstack, Frame.takes, Frame.ranIn,
      Frame.asks]
  · cases hs

/-- A callback takes its own request out of the set: it is there, since it is queued. -/
theorem Owned.callback (h : Owned s) {r : ρ} (hs : s.callback r = some s') : Owned s' := by
  unfold State.callback at hs
  split at hs
  · cases hs
  · rename_i hguard
    obtain ⟨-, hmem, -⟩ := by simpa only [not_or, not_not] using hguard
    cases hs
    have hpos : 0 < s.queue.count r := List.count_pos_iff.mpr hmem
    refine ⟨h.once, fun q => ?_, fun q => ?_, fun q => ?_, fun hiso => ?_, fun hreg => ?_⟩
    · have hq := h.ledger q
      have hr := h.queued r
      simp only [taken, flatMap_cons, Frame.takes, count_append, count_erase,
        count_cons, count_nil]
      simp only [taken] at hq
      by_cases heq : q = r
      · subst heq
        simp only [beq_self_eq_true, if_true]
        omega
      · simp only [beq_eq_false_iff_ne.mpr (Ne.symm heq), Bool.false_eq_true, if_false]
        omega
    · have hq := h.queued q
      simp only [asked, flatMap_cons, Frame.asks, nil_append, count_erase]
      simp only [asked] at hq
      split
      · rename_i heq
        obtain rfl := beq_iff_eq.mp heq
        omega
      · omega
    · have hq := h.ran q
      simpa only [ranTaken, flatMap_cons, Frame.ranIn, nil_append] using hq
    · show s.queue.erase r = []
      rw [h.dropped hiso]
      rfl
    · show s.pending.erase r = []
      rw [h.emptied hreg]
      rfl

theorem Owned.service (h : Owned s) {ctx : Bool} (hs : s.service ctx = some s') : Owned s' := by
  have hledger := h.ledger
  have hqueued := h.queued
  have hran := h.ran
  unfold State.service at hs
  split at hs
  · rename_i r fs hstack
    simp only [taken, ranTaken, asked, hstack, flatMap_cons, Frame.takes,
      Frame.ranIn, Frame.asks, nil_append, count_append] at hledger hqueued hran
    split at hs
    · cases hs
      refine ⟨h.once, fun q => ?_, fun q => ?_, fun q => ?_, h.dropped, h.emptied⟩
      · simpa only [taken, flatMap_cons, Frame.takes, count_append] using hledger q
      · simpa only [asked, flatMap_cons, Frame.asks, nil_append,
          count_append] using hqueued q
      · have hq := hran q
        simp only [ranTaken, flatMap_cons, Frame.ranIn, count_append]
        omega
    · cases hs
      refine ⟨h.once, fun q => ?_, fun q => ?_, fun q => ?_, h.dropped, h.emptied⟩
      · simpa only [taken, flatMap_cons, Frame.takes, count_append] using hledger q
      · simpa only [asked, flatMap_cons, Frame.asks, nil_append,
          count_append] using hqueued q
      · have hq := hran q
        simp only [ranTaken, flatMap_cons, Frame.ranIn, count_append, count_cons,
          count_nil]
        cases ctx with
        | true =>
          simp only [if_true, count_cons]
          omega
        | false =>
          simp only [Bool.false_eq_true, if_false]
          omega
  · cases hs

theorem Owned.finish (h : Owned s) (hs : s.finish = some s') : Owned s' := by
  have hledger := h.ledger
  have hqueued := h.queued
  have hran := h.ran
  unfold State.finish at hs
  split at hs
  · rename_i r fs hstack
    cases hs
    simp only [taken, ranTaken, asked, hstack, flatMap_cons, Frame.takes,
      Frame.ranIn, Frame.asks, nil_append, count_append, count_cons,
      count_nil] at hledger hqueued hran
    refine ⟨h.once, fun q => ?_, fun q => ?_, fun q => ?_, h.dropped, h.emptied⟩
    · have hq := hledger q
      simp only [taken, count_cons]
      omega
    · simpa only [asked, count_append] using hqueued q
    · have hq := hran q
      simp only [ranTaken, count_cons]
      omega
  · cases hs

/-- A request is accepted under a name of its own. -/
theorem Owned.accept (h : Owned s) {r : ρ} (hnew : r ∉ s.accepted)
    (haccepted : s'.accepted = r :: s.accepted) (hpending : s'.pending = r :: s.pending)
    (hdata : s'.queue = s.queue ∧ s'.deleted = s.deleted ∧ s'.ran = s.ran)
    (htaken : s'.taken = s.taken) (hran : s'.ranTaken = s.ranTaken)
    (hasked : ∀ q, s'.asked.count q = s.asked.count q + if r = q then 1 else 0)
    (hiso : s'.isolate = s.isolate) (hreg : s'.registered = true) : Owned s' := by
  obtain ⟨hqueue, hdeleted, hrn⟩ := hdata
  have hzero : s.accepted.count r = 0 := List.count_eq_zero.mpr hnew
  refine ⟨fun q => ?_, fun q => ?_, fun q => ?_, ?_, ?_, fun hgone => ?_⟩
  · have hq := h.once q
    rw [haccepted, count_cons]
    by_cases heq : r = q
    · subst heq
      simp [hzero]
    · simpa [heq] using hq
  · have hq := h.ledger q
    rw [haccepted, hpending, htaken, hdeleted, count_cons, count_cons]
    omega
  · have hq := h.queued q
    have ha := hasked q
    rw [hqueue, hpending, count_cons]
    by_cases heq : r = q
    · simp only [heq, beq_self_eq_true, if_true] at ha ⊢
      omega
    · simp only [heq, if_false, beq_eq_false_iff_ne.mpr heq, Bool.false_eq_true] at ha ⊢
      omega
  · rw [hrn, hran, hdeleted]
    exact h.ran
  · rw [hiso, hqueue]
    exact h.dropped
  · exact absurd (hreg.symm.trans hgone) (by decide)

theorem Owned.request (h : Owned s) {r : Option ρ} (hs : s.request r = some s') : Owned s' := by
  unfold State.request at hs
  split at hs
  · cases hs
  · split at hs
    · exact Option.some.inj hs ▸ h
    · rename_i hopen
      have hreg : s.registered = true := by simpa using (not_or.mp hopen).1
      cases r with
      | none => exact Option.some.inj hs ▸ h
      | some r =>
        dsimp only at hs
        split at hs
        · cases hs
        · rename_i hnew
          cases hs
          refine h.accept hnew rfl rfl ⟨rfl, rfl, rfl⟩ rfl rfl (fun q => ?_) rfl hreg
          simp only [asked, flatMap_cons, Frame.asks, count_append, count_cons,
            count_nil, beq_iff_eq]
          omega

theorem Owned.ask (h : Owned s) {r : Option ρ} (hs : s.ask r = some s') : Owned s' := by
  unfold State.ask at hs
  split at hs
  · cases hs
  · rename_i hheld
    have hnone : s.held = none := by simpa using hheld
    have hanswered : Owned { s with held := some .answered } := by
      refine h.frames ⟨rfl, rfl, rfl, rfl, rfl⟩ rfl rfl ?_ ⟨rfl, rfl⟩
      simp [asked, hnone, Holder.asks]
    split at hs
    · exact Option.some.inj hs ▸ hanswered
    · rename_i hopen
      have hreg : s.registered = true := by simpa using (not_or.mp hopen).1
      cases r with
      | none => exact Option.some.inj hs ▸ hanswered
      | some r =>
        dsimp only at hs
        split at hs
        · cases hs
        · rename_i hnew
          cases hs
          refine h.accept hnew rfl rfl ⟨rfl, rfl, rfl⟩ rfl rfl (fun q => ?_) rfl hreg
          simp [asked, hnone, Holder.asks, count_cons]

/-- The engine takes a request it has been asked to. -/
theorem Owned.queue (h : Owned s) {r : ρ} (hqueue : s'.queue = s.queue ++ [r])
    (hdata : s'.accepted = s.accepted ∧ s'.pending = s.pending ∧ s'.deleted = s.deleted ∧
      s'.ran = s.ran) (htaken : s'.taken = s.taken) (hran : s'.ranTaken = s.ranTaken)
    (hasked : ∀ q, s.asked.count q = s'.asked.count q + if r = q then 1 else 0)
    (hiso : s'.isolate = true) (hreg : s'.registered = true) : Owned s' := by
  obtain ⟨ha, hp, hd, hr⟩ := hdata
  refine ⟨ha ▸ h.once, ?_, fun q => ?_, ?_, fun hgone => ?_, fun hgone => ?_⟩
  · rw [ha, hp, htaken, hd]
    exact h.ledger
  · have hq := h.queued q
    rw [hasked q] at hq
    rw [hqueue, hp, count_append, List.count_singleton]
    by_cases heq : r = q
    · simp only [heq, beq_self_eq_true, if_true] at hq ⊢
      omega
    · simp only [heq, if_false, beq_eq_false_iff_ne.mpr heq, Bool.false_eq_true] at hq ⊢
      omega
  · rw [hr, hran, hd]
    exact h.ran
  · exact absurd (hiso.symm.trans hgone) (by decide)
  · exact absurd (hreg.symm.trans hgone) (by decide)

/-- A request the engine did not take is erased and deleted. -/
theorem Owned.delete (h : Owned s) {r : ρ} (hpending : s'.pending = s.pending.erase r)
    (hdeleted : s'.deleted = r :: s.deleted)
    (hdata : s'.accepted = s.accepted ∧ s'.queue = s.queue ∧ s'.ran = s.ran)
    (htaken : s'.taken = s.taken) (hran : s'.ranTaken = s.ranTaken)
    (hasked : ∀ q, s.asked.count q = s'.asked.count q + if r = q then 1 else 0)
    (hflags : s'.isolate = s.isolate ∧ s'.registered = s.registered) : Owned s' := by
  obtain ⟨ha, hq, hr⟩ := hdata
  have hpos : 0 < s.pending.count r := by
    have hbound := h.queued r
    rw [hasked r, if_pos rfl] at hbound
    omega
  refine ⟨ha ▸ h.once, fun q => ?_, fun q => ?_, fun q => ?_, ?_, fun hreg => ?_⟩
  · have hl := h.ledger q
    rw [ha, hpending, hdeleted, htaken, count_erase, count_cons]
    by_cases heq : r = q
    · subst heq
      simp only [beq_self_eq_true, if_true]
      omega
    · simp only [beq_eq_false_iff_ne.mpr heq, Bool.false_eq_true, if_false]
      omega
  · have hl := h.queued q
    rw [hasked q] at hl
    rw [hq, hpending, count_erase]
    by_cases heq : r = q
    · subst heq
      simp only [beq_self_eq_true, if_true] at hl ⊢
      omega
    · simp only [heq, beq_eq_false_iff_ne.mpr heq, Bool.false_eq_true, if_false] at hl ⊢
      omega
  · have hl := h.ran q
    rw [hr, hran, hdeleted, count_cons]
    omega
  · rw [hflags.1, hq]
    exact h.dropped
  · rw [hpending, h.emptied (hflags.2.symm.trans hreg)]
    rfl

theorem Owned.enqueue (hinv : Inv s) (h : Owned s) {ok : Bool} (hs : s.enqueue ok = some s') :
    Owned s' := by
  unfold State.enqueue at hs
  split at hs
  · rename_i r fs hstack
    have htaken : s.taken = fs.flatMap Frame.takes := by simp [taken, hstack, Frame.takes]
    have hran : s.ranTaken = fs.flatMap Frame.ranIn := by simp [ranTaken, hstack, Frame.ranIn]
    cases ok with
    | true =>
      cases hs
      have hopen := hinv.stage.open_of_early hstack rfl rfl
      obtain ⟨hreg, hiso, -⟩ := hinv.stage.flags_of_open hopen
      refine h.queue rfl ⟨rfl, rfl, rfl, rfl⟩ htaken.symm hran.symm (fun q => ?_) hiso hreg
      simp only [asked, hstack, flatMap_cons, Frame.asks, count_append,
        count_cons, count_nil, beq_iff_eq]
      omega
    | false =>
      cases hs
      refine h.frames ⟨rfl, rfl, rfl, rfl, rfl⟩ ?_ ?_ ?_ ⟨rfl, rfl⟩
      all_goals simp [taken, ranTaken, asked, hstack, Frame.takes, Frame.ranIn,
        Frame.asks]
  · cases hs

theorem Owned.abandon (h : Owned s) (hs : s.abandon = some s') : Owned s' := by
  unfold State.abandon at hs
  split at hs
  · rename_i r fs hstack
    split at hs
    · cases hs
    · cases hs
      have htaken : s.taken = fs.flatMap Frame.takes := by simp [taken, hstack, Frame.takes]
      have hran : s.ranTaken = fs.flatMap Frame.ranIn := by
        simp [ranTaken, hstack, Frame.ranIn]
      refine h.delete rfl rfl ⟨rfl, rfl, rfl⟩ htaken.symm hran.symm (fun q => ?_) ⟨rfl, rfl⟩
      simp only [asked, hstack, flatMap_cons, Frame.asks, count_append,
        count_cons, count_nil, beq_iff_eq]
      omega
  · cases hs

theorem Owned.drop (h : Owned s) {r : ρ} (hs : s.drop r = some s') : Owned s' := by
  unfold State.drop at hs
  split at hs
  · cases hs
  · cases hs
    refine ⟨h.once, h.ledger, fun q => ?_, h.ran, fun hiso => ?_, h.emptied⟩
    · have hq := h.queued q
      have hle : (s.queue.erase r).count q ≤ s.queue.count q := List.erase_sublist.count_le q
      exact (Nat.add_le_add_right hle _).trans hq
    · show s.queue.erase r = []
      rw [h.dropped hiso]
      rfl

theorem Owned.terminate (h : Owned s) (hs : s.terminate = some s') : Owned s' := by
  unfold State.terminate at hs
  split at hs
  · cases hs
  · rename_i hheld
    have hnone : s.held = none := by simpa using hheld
    repeat' split at hs
    all_goals simp only [Option.some.injEq] at hs
    all_goals subst hs
    all_goals
      refine h.frames ⟨rfl, rfl, rfl, rfl, rfl⟩ rfl rfl ?_ ⟨rfl, rfl⟩
      simp [asked, hnone, Holder.asks]

theorem Owned.engine (hinv : Inv s) (h : Owned s) {ok : Bool} (hs : s.engine ok = some s') :
    Owned s' := by
  unfold State.engine at hs
  split at hs
  · rename_i hheld
    cases hs
    refine h.frames ⟨rfl, rfl, rfl, rfl, rfl⟩ rfl rfl ?_ ⟨rfl, rfl⟩
    simp [asked, hheld, Holder.asks]
  · rename_i r hheld
    cases ok with
    | true =>
      cases hs
      obtain ⟨hreg, hiso, -⟩ := hinv.stage.flags_of_open (hinv.held _ hheld)
      refine h.queue rfl ⟨rfl, rfl, rfl, rfl⟩ rfl rfl (fun q => ?_) hiso hreg
      simp [asked, hheld, Holder.asks, count_cons]
    | false =>
      cases hs
      refine h.frames ⟨rfl, rfl, rfl, rfl, rfl⟩ rfl rfl ?_ ⟨rfl, rfl⟩
      simp [asked, hheld, Holder.asks]
  · rename_i r hheld
    cases hs
    refine h.delete rfl rfl ⟨rfl, rfl, rfl⟩ rfl rfl (fun q => ?_) ⟨rfl, rfl⟩
    simp [asked, hheld, Holder.asks, count_cons]
  · cases hs

theorem Owned.ret (h : Owned s) (hs : s.ret = some s') : Owned s' := by
  unfold State.ret at hs
  split at hs
  · rename_i hheld
    cases hs
    refine h.frames ⟨rfl, rfl, rfl, rfl, rfl⟩ rfl rfl ?_ ⟨rfl, rfl⟩
    simp [asked, hheld, Holder.asks]
  · rename_i hheld
    cases hs
    refine h.frames ⟨rfl, rfl, rfl, rfl, rfl⟩ rfl rfl ?_ ⟨rfl, rfl⟩
    simp [asked, hheld, Holder.asks]
  · cases hs

theorem Owned.of_step (hinv : Inv s) (h : Owned s) (hs : step s a = some s') : Owned s' := by
  cases a with
  | enter => exact h.enter hs
  | leave => exact h.leave hs
  | dispose => exact h.dispose hs
  | release => exact h.release hs
  | unregister => exact h.unregister hinv hs
  | sweep => exact h.sweep hs
  | callback r => exact h.callback hs
  | service ctx => exact h.service hs
  | finish => exact h.finish hs
  | request r => exact h.request hs
  | enqueue ok => exact h.enqueue hinv hs
  | abandon => exact h.abandon hs
  | drop r => exact h.drop hs
  | terminate => exact h.terminate hs
  | ask r => exact h.ask hs
  | engine ok => exact h.engine hinv hs
  | ret => exact h.ret hs

theorem owned_run {as : List (Act ρ)} (hr : run step ({} : State ρ) as = some s) : Owned s := by
  have hstep : ∀ (s : State ρ) (a : Act ρ) (s' : State ρ), step s a = some s' → Inv s ∧ Owned s →
      Inv s' ∧ Owned s' := fun _ _ _ hs h => ⟨h.1.step hs, h.2.of_step h.1 hs⟩
  exact (Run.invariant hstep hr ⟨inv_init, owned_init⟩).2

/-! ## What is promised -/

/-- `pending_interrupts` as the set of accepted requests that are not yet deleted. -/
def PendingExact (s : State ρ) : Prop := ∀ r, r ∈ s.pending ↔ r ∈ s.accepted ∧ r ∉ s.deleted

theorem ran_le_taken (s : State ρ) (r : ρ) : s.ranTaken.count r ≤ s.taken.count r := by
  unfold ranTaken taken
  induction s.stack with
  | nil => rfl
  | cons f fs ih =>
    have hf : f.ranIn.count r ≤ f.takes.count r := by
      cases f <;> simp [Frame.ranIn, Frame.takes]
    rw [flatMap_cons, flatMap_cons, count_append, count_append]
    exact Nat.add_le_add hf ih

/-- A guest function is run by `service` only, and not once the agent is closing. -/
theorem open_of_ran (hs : step s a = some s') (hran : s'.ran ≠ s.ran) : s.closing = false := by
  cases a with
  | service ctx =>
    simp only [step, State.service] at hs
    split at hs
    · split at hs
      · cases hs
        exact absurd rfl hran
      · rename_i hclosing
        exact eq_false_of_ne_true hclosing
    · cases hs
  | _ =>
    exfalso
    simp only [step, State.enter, State.leave, State.dispose, State.release, State.unregister,
      State.sweep, State.callback, State.finish, State.request, State.enqueue, State.abandon,
      State.drop, State.terminate, State.ask, State.engine, State.ret] at hs
    repeat' split at hs
    all_goals simp only [Option.some.injEq, reduceCtorEq] at hs
    all_goals subst hs
    all_goals exact hran rfl

/-- **Interrupt requests.** In every state of every interleaving: the set is exactly the
    accepted requests that are neither deleted nor taken, by their running callback or by the
    end of the release; a queued request is in it; no request has been deleted twice, run twice
    or run without being accepted; none is run once the agent is closing; and when the agent is
    gone every accepted one has been deleted. -/
theorem interrupts_freed_once {as : List (Act ρ)} (hr : run step ({} : State ρ) as = some s) :
    (∀ r, r ∈ s.pending ↔ r ∈ s.accepted ∧ r ∉ s.deleted ∧ r ∉ s.taken) ∧ s.pending.Nodup ∧
      (∀ r ∈ s.queue, r ∈ s.pending) ∧
      s.deleted.Nodup ∧ (∀ r ∈ s.deleted, r ∈ s.accepted) ∧
      s.ran.Nodup ∧ (∀ r ∈ s.ran, r ∈ s.accepted) ∧
      (∀ a s', step s a = some s' → s'.ran ≠ s.ran → s.closing = false) ∧
      (s.agent = false → ∀ r ∈ s.accepted, r ∈ s.deleted) := by
  have hinv := inv_run hr
  have h := owned_run hr
  have hmem : ∀ (l : List ρ) (r : ρ), r ∈ l ↔ 0 < l.count r := fun l r => List.count_pos_iff.symm
  refine ⟨fun r => ?_, ?_, fun r hq => ?_, ?_, fun r hd => ?_, ?_, fun r hran => ?_,
    fun a s' => open_of_ran, fun hgone r ha => ?_⟩
  · rw [hmem, hmem, hmem, hmem]
    have hl := h.ledger r
    have ho := h.once r
    omega
  · refine List.nodup_iff_count_le_one.mpr fun r => ?_
    have hl := h.ledger r
    have ho := h.once r
    omega
  · rw [hmem] at hq ⊢
    have hl := h.queued r
    omega
  · refine List.nodup_iff_count_le_one.mpr fun r => ?_
    have hl := h.ledger r
    have ho := h.once r
    omega
  · rw [hmem] at hd ⊢
    have hl := h.ledger r
    omega
  · refine List.nodup_iff_count_le_one.mpr fun r => ?_
    have hl := h.ledger r
    have ho := h.once r
    have hrun := h.ran r
    have hle := ran_le_taken s r
    omega
  · rw [hmem] at hran ⊢
    have hl := h.ledger r
    have hrun := h.ran r
    have hle := ran_le_taken s r
    omega
  · -- The agent goes when the owner is inside nothing and the set is empty.
    have hstage : s.stack = [] ∧ s.registered = false := by
      cases hinv.stage with
      | running hfl _ => exact absurd (hfl.2.2.2.symm.trans hgone) (by decide)
      | releasing _ _ hfl _ => exact absurd (hfl.2.2.2.symm.trans hgone) (by decide)
      | released _ hfl => exact absurd (hfl.2.2.2.symm.trans hgone) (by decide)
      | sweeping _ _ hfl => exact absurd (hfl.2.2.2.symm.trans hgone) (by decide)
      | gone hs hfl => exact ⟨hs, hfl.2.1⟩
    have hl := h.ledger r
    have htaken : s.taken = [] := by simp [taken, hstage.1]
    rw [h.emptied hstage.2, htaken, count_nil] at hl
    rw [hmem] at ha ⊢
    omega

end

/-- The owner requests an interrupt of its own, the engine queues it and runs it. -/
def ownInterrupt : List (Act ℕ) :=
  [.request (some 0), .enqueue true, .callback 0]

theorem ownInterrupt_freed_once :
    ∃ s, run step {} (ownInterrupt ++ [.service true, .leave, .finish]) = some s ∧
      s.deleted = [0] ∧ s.ran = [0] ∧ s.deleted.Nodup := by
  have hfreed := interrupts_freed_once
    (show run step {} (ownInterrupt ++ [.service true, .leave, .finish]) = some _ from rfl)
  exact ⟨_, rfl, rfl, rfl, hfreed.2.2.2.1⟩

/-- Its callback has taken the request out of the set and has not deleted it. -/
theorem callback_takes_request :
    ¬ ∀ (as : List (Act ℕ)) (s : State ℕ), run step {} as = some s → PendingExact s := by
  intro hall
  have hexact := hall ownInterrupt _ rfl
  exact List.not_mem_nil ((hexact 0).mpr ⟨List.mem_cons_self .., List.not_mem_nil⟩)

end WasmerNapi.Bridge.Teardown
