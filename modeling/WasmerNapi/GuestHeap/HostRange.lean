import WasmerNapi.GuestHeap.Basic

/-!
# `host_range`: bounds against a length that has been seen

`GuestHeap::host_range` turns a range of guest memory into a host address. A linear memory only
grows, so a range below the largest length seen so far needs no lookup; any other asks the memory
for its length, and what is read raises the largest one seen. The counter is shared by all threads
of an env, and every access of it is a step of its own.

`hostRange` is the call taken whole. `hostRange_exact` is about any number of calls in any
interleaving with grows: what each of them answers is what a lookup would have at the moment it
made up its mind.
-/

namespace WasmerNapi

open Word Run

namespace GuestHeap

variable {A : Type}

/-- `observed_len.fetch_max(now)`. -/
def observe (h : GuestHeap A) (now : ℕ) : GuestHeap A :=
  { h with observedLen := max h.observedLen now }

/-- The end of `host_range`, once the range is known to be in the memory. -/
def rangeAt (h : GuestHeap A) (offset stop : ℕ) : Option ℕ :=
  if h.maxBytes < stop then none else some (h.base + offset)

/-- `host_range`; `none` is the abort of a base that moved. -/
def hostRange (h : GuestHeap A) (offset len : ℕ) (baseNow now : ℕ) :
    Option (Option ℕ × GuestHeap A) :=
  match checkedAdd 64 offset len with
  | none => some (none, h)
  | some stop =>
    if h.observedLen < stop then
      if baseNow ≠ h.base then none
      else if now < stop then some (none, h.observe now)
      else some ((h.observe now).rangeAt offset stop, h.observe now)
    else some (h.rangeAt offset stop, h)

end GuestHeap

namespace HostRange

variable {ι A : Type}

/-! ## Interleavings -/

/-- Where a call stands: which access it makes next. -/
inductive Phase where
  | idle
  | load (stop : ℕ)
  | current (stop : ℕ)
  | fetchMax (stop now : ℕ)
  | returned (r : Option ℕ)
  deriving DecidableEq

/-- A thread, with the arguments of its call. The rest is not the code's: what the counter and
    the memory's length were when the call read them, and what the length was when the call was
    decided. -/
structure Thread where
  phase : Phase := .idle
  offset : ℕ := 0
  len : ℕ := 0
  observed : Option ℕ := none
  now : Option ℕ := none
  length : ℕ := 0

structure World (ι A : Type) where
  heap : GuestHeap A
  /-- The memory's current length. -/
  length : ℕ
  threads : ι → Thread

inductive Act (ι : Type) where
  /-- The guest, the heap or another store grows the memory. -/
  | grow (bytes : ℕ)
  | call (i : ι) (offset len : ℕ)
  /-- The next access of the call; `baseNow` is what `current` reads as the base. -/
  | access (i : ι) (baseNow : ℕ)

/-- The first thing a call does: the end of its range. -/
def enter (offset len : ℕ) : Thread where
  phase :=
    match checkedAdd 64 offset len with
    | none => .returned none
    | some stop => .load stop
  offset := offset
  len := len

/-- Free for a call: none made yet, or the last one answered. -/
def Thread.Free (t : Thread) : Prop := t.phase = .idle ∨ ∃ r, t.phase = .returned r

/-- The counter and the memory's length, put down at the access that asks for them, whatever the
    call makes of them. -/
def Thread.noted (t : Thread) (observedLen length : ℕ) : Thread :=
  match t.phase with
  | .load _ => { t with observed := some observedLen, length }
  | .current _ => { t with now := some length, length }
  | _ => t

/-- One access of a call: the heap after it and where the call then stands. -/
def access (h : GuestHeap A) (length baseNow : ℕ) (t : Thread) : Option (GuestHeap A × Thread) :=
  match t.phase with
  | .load stop =>
    if h.observedLen < stop then some (h, { t with phase := .current stop })
    else some (h, { t with phase := .returned (h.rangeAt t.offset stop) })
  | .current stop =>
    if baseNow ≠ h.base then none
    else some (h, { t with phase := .fetchMax stop length })
  | .fetchMax stop now =>
    let h := h.observe now
    some (h, { t with phase := .returned (if now < stop then none else h.rangeAt t.offset stop) })
  | _ => none

def step [DecidableEq ι] (w : World ι A) : Act ι → Option (World ι A)
  | .grow bytes => some { w with length := w.length + bytes }
  | .call i offset len =>
    match (w.threads i).phase with
    | .idle | .returned _ =>
      some { w with threads := Function.update w.threads i (enter offset len) }
    | _ => none
  | .access i baseNow =>
    (access w.heap w.length baseNow ((w.threads i).noted w.heap.observedLen w.length)).map fun r =>
      { w with heap := r.1, threads := Function.update w.threads i r.2 }

/-- The heap is new: the counter is the length the memory had when the heap was made. -/
structure Fresh (w : World ι A) : Prop where
  observed : w.heap.observedLen ≤ w.length
  idle : ∀ i, (w.threads i).phase = .idle

/-! ## What a call knows -/

variable {h h' : GuestHeap A} {t t' : Thread} {length baseNow : ℕ}

/-- The range ends at `stop`, which is a number of 64 bits. -/
def Thread.Ends (t : Thread) (stop : ℕ) : Prop := t.offset + t.len < 2 ^ 64 ∧ stop = t.offset + t.len

/-- The answer is right for what the call read and for the memory as it was then. -/
structure Thread.Exact (t : Thread) (base maxBytes : ℕ) (r : Option ℕ) : Prop where
  read : ∀ p, r = some p ↔ p = base + t.offset ∧ t.offset + t.len < 2 ^ 64 ∧
    ((∃ n ∈ t.observed, t.offset + t.len ≤ n) ∨ ∃ n ∈ t.now, t.offset + t.len ≤ n) ∧
    t.offset + t.len ≤ maxBytes
  fresh : ∀ p, r = some p ↔ p = base + t.offset ∧ t.offset + t.len < 2 ^ 64 ∧
    t.offset + t.len ≤ t.length ∧ t.offset + t.len ≤ maxBytes

/-- The invariant of one thread, by phase. -/
def Thread.Ok (t : Thread) (base maxBytes length : ℕ) : Prop :=
  match t.phase with
  | .idle => True
  | .load stop => t.Ends stop ∧ t.observed = none ∧ t.now = none
  | .current stop => t.Ends stop ∧ t.now = none ∧ ∃ n, t.observed = some n ∧ n < stop
  | .fetchMax stop now => t.Ends stop ∧ t.now = some now ∧ t.length = now ∧ now ≤ length ∧
    ∃ n, t.observed = some n ∧ n < stop
  | .returned r => t.Exact base maxBytes r

structure Inv (w : World ι A) : Prop where
  observed : w.heap.observedLen ≤ w.length
  threads : ∀ i, (w.threads i).Ok w.heap.base w.heap.maxBytes w.length

/-- Growing the memory changes nothing for a call. -/
theorem Thread.Ok.mono {base maxBytes length' : ℕ} (ht : t.Ok base maxBytes length)
    (hle : length ≤ length') : t.Ok base maxBytes length' := by
  unfold Thread.Ok at ht ⊢
  cases hp : t.phase with
  | fetchMax stop now =>
    simp only [hp] at ht ⊢
    obtain ⟨hends, hnow, hlen, hlt, hobs⟩ := ht
    exact ⟨hends, hnow, hlen, hlt.trans hle, hobs⟩
  | idle => trivial
  | load stop => simpa only [hp] using ht
  | current stop => simpa only [hp] using ht
  | returned r => simpa only [hp] using ht

theorem rangeAt_eq_some {offset stop p : ℕ} :
    h.rangeAt offset stop = some p ↔ p = h.base + offset ∧ stop ≤ h.maxBytes := by
  unfold GuestHeap.rangeAt
  split <;> simp <;> omega

/-- An answer of a call that found the range in the memory, … -/
theorem Thread.exact_rangeAt (hlt : t.offset + t.len < 2 ^ 64)
    (hread : (∃ n ∈ t.observed, t.offset + t.len ≤ n) ∨ ∃ n ∈ t.now, t.offset + t.len ≤ n)
    (hfresh : t.offset + t.len ≤ t.length) :
    t.Exact h.base h.maxBytes (h.rangeAt t.offset (t.offset + t.len)) where
  read p := by
    rw [rangeAt_eq_some]
    constructor
    · rintro ⟨hp, hmax⟩
      exact ⟨hp, hlt, hread, hmax⟩
    · rintro ⟨hp, _, _, hmax⟩
      exact ⟨hp, hmax⟩
  fresh p := by
    rw [rangeAt_eq_some]
    constructor
    · rintro ⟨hp, hmax⟩
      exact ⟨hp, hlt, hfresh, hmax⟩
    · rintro ⟨hp, _, _, hmax⟩
      exact ⟨hp, hmax⟩

/-- … and of one that did not. -/
theorem Thread.exact_none {base maxBytes : ℕ}
    (hread : t.offset + t.len < 2 ^ 64 →
      ¬ ((∃ n ∈ t.observed, t.offset + t.len ≤ n) ∨ ∃ n ∈ t.now, t.offset + t.len ≤ n))
    (hfresh : t.offset + t.len < 2 ^ 64 → ¬ t.offset + t.len ≤ t.length) :
    t.Exact base maxBytes none where
  read p := by
    constructor
    · nofun
    · rintro ⟨_, hlt, hin, _⟩
      exact absurd hin (hread hlt)
  fresh p := by
    constructor
    · nofun
    · rintro ⟨_, hlt, hin, _⟩
      exact absurd hin (hfresh hlt)

theorem ok_enter (offset len base maxBytes length : ℕ) :
    (enter offset len).Ok base maxBytes length := by
  unfold Thread.Ok enter
  dsimp only
  cases hadd : checkedAdd 64 offset len with
  | none =>
    have hover : ¬ offset + len < 2 ^ 64 := not_lt.mpr (checkedAdd_eq_none.mp hadd)
    exact Thread.exact_none (fun hlt => absurd hlt hover) fun hlt => absurd hlt hover
  | some stop =>
    obtain ⟨hlt, hstop⟩ := checkedAdd_eq_some.mp hadd
    exact ⟨⟨hlt, hstop⟩, rfl, rfl⟩

/-- What one access changes of the heap: the counter, which only goes up and never past the
    memory. -/
structure Seen (h h' : GuestHeap A) (length : ℕ) : Prop where
  base : h'.base = h.base
  maxBytes : h'.maxBytes = h.maxBytes
  grown : h.observedLen ≤ h'.observedLen
  bounded : h.observedLen ≤ length → h'.observedLen ≤ length

theorem access_spec (ha : access h length baseNow (t.noted h.observedLen length) = some (h', t'))
    (ht : t.Ok h.base h.maxBytes length) (hobs : h.observedLen ≤ length) :
    Seen h h' length ∧ t'.Ok h'.base h'.maxBytes length := by
  unfold access Thread.noted at ha
  unfold Thread.Ok at ht
  cases hp : t.phase with
  | idle =>
    simp only [hp] at ha
    cases ha
  | returned r =>
    simp only [hp] at ha
    cases ha
  | load stop =>
    simp only [hp] at ha ht
    obtain ⟨⟨hlt, rfl⟩, hnone, hnow⟩ := ht
    by_cases hslow : h.observedLen < t.offset + t.len
    · rw [if_pos hslow] at ha
      cases ha
      exact ⟨⟨rfl, rfl, le_rfl, id⟩, ⟨hlt, rfl⟩, hnow, _, rfl, hslow⟩
    · rw [if_neg hslow] at ha
      cases ha
      have hin : t.offset + t.len ≤ h.observedLen := not_lt.mp hslow
      refine ⟨⟨rfl, rfl, le_rfl, id⟩, ?_⟩
      exact Thread.exact_rangeAt hlt (Or.inl ⟨_, rfl, hin⟩) (hin.trans hobs)
  | current stop =>
    simp only [hp] at ha ht
    obtain ⟨hends, _, hobserved⟩ := ht
    by_cases hbase : baseNow ≠ h.base
    · rw [if_pos hbase] at ha
      cases ha
    · rw [if_neg hbase] at ha
      cases ha
      exact ⟨⟨rfl, rfl, le_rfl, id⟩, hends, rfl, rfl, le_rfl, hobserved⟩
  | fetchMax stop now =>
    simp only [hp] at ha ht
    obtain ⟨⟨hlt, rfl⟩, hnow, hlength, hle, n, hn, hnlt⟩ := ht
    cases ha
    refine ⟨⟨rfl, rfl, le_max_left .., fun hb => max_le hb hle⟩, ?_⟩
    -- The counter was below the end of the range, so only the length that was read counts.
    by_cases hshort : now < t.offset + t.len
    · simp only [Thread.Ok, if_pos hshort]
      refine Thread.exact_none (fun _ => ?_) fun _ => ?_
      · simp [hn, hnow, not_le.mpr hnlt, not_le.mpr hshort]
      · simpa [hlength] using hshort
    · simp only [Thread.Ok, if_neg hshort]
      have hin : t.offset + t.len ≤ now := not_lt.mp hshort
      refine Thread.exact_rangeAt hlt (Or.inr ⟨now, hnow, hin⟩) ?_
      exact hlength ▸ hin

variable [DecidableEq ι] {w w' : World ι A} {a : Act ι}

theorem step_call {i : ι} (hfree : (w.threads i).Free) (offset len : ℕ) :
    step w (.call i offset len) =
      some { w with threads := Function.update w.threads i (enter offset len) } := by
  unfold step
  rcases hfree with hp | ⟨r, hp⟩ <;> simp only [hp]

theorem inv_step (hi : Inv w) (hs : step w a = some w') :
    Inv w' ∧ w.heap.observedLen ≤ w'.heap.observedLen := by
  cases a with
  | grow bytes =>
    cases hs
    refine ⟨⟨hi.observed.trans (Nat.le_add_right ..), ?_⟩, le_rfl⟩
    intro i
    exact (hi.threads i).mono (Nat.le_add_right ..)
  | call i offset len =>
    have hcall : w' = { w with threads := Function.update w.threads i (enter offset len) } := by
      unfold step at hs
      cases hp : (w.threads i).phase <;> simp only [hp] at hs <;> cases hs <;> rfl
    subst hcall
    refine ⟨⟨hi.observed, ?_⟩, le_rfl⟩
    intro j
    by_cases hj : j = i
    · subst hj
      simpa only [Function.update_self] using ok_enter offset len ..
    · simpa only [Function.update_of_ne hj] using hi.threads j
  | access i baseNow =>
    obtain ⟨⟨h, t⟩, ha, rfl⟩ := Option.map_eq_some_iff.mp hs
    obtain ⟨hseen, ht⟩ := access_spec ha (hi.threads i) hi.observed
    refine ⟨⟨hseen.bounded hi.observed, ?_⟩, hseen.grown⟩
    intro j
    by_cases hj : j = i
    · subst hj
      simpa only [Function.update_self] using ht
    · have hother := hi.threads j
      rw [← hseen.base, ← hseen.maxBytes] at hother
      simpa only [Function.update_of_ne hj] using hother

theorem inv_run {as : List (Act ι)} (hi : Inv w) (hr : run step w as = some w') : Inv w' :=
  invariant (fun _ _ _ hs hi => (inv_step hi hs).1) hr hi

theorem observed_run {as : List (Act ι)} (hi : Inv w) (hr : run step w as = some w') :
    w.heap.observedLen ≤ w'.heap.observedLen := by
  let P : World ι A → Prop := fun u => Inv u ∧ w.heap.observedLen ≤ u.heap.observedLen
  have hkept : ∀ s b s', step s b = some s' → P s → P s' := by
    intro s b s' hs hP
    have hnext := inv_step hP.1 hs
    exact ⟨hnext.1, hP.2.trans hnext.2⟩
  exact (invariant hkept hr ⟨hi, le_rfl⟩).2

omit [DecidableEq ι] in
theorem Fresh.inv (hf : Fresh w) : Inv w where
  observed := hf.observed
  threads i := by
    unfold Thread.Ok
    rw [hf.idle i]
    trivial

/-- An undisturbed call is `hostRange`, a thread's first call or a later one. -/
theorem run_hostRange (w : World ι A) (i : ι) (hfree : (w.threads i).Free)
    (offset len baseNow : ℕ) {r : Option ℕ} {h : GuestHeap A}
    (hr : w.heap.hostRange offset len baseNow w.length = some (r, h)) :
    ∃ k t, t.phase = .returned r ∧
      run step w (.call i offset len :: List.replicate k (.access i baseNow)) =
        some { w with heap := h, threads := Function.update w.threads i t } := by
  unfold GuestHeap.hostRange at hr
  cases hadd : checkedAdd 64 offset len with
  | none =>
    rw [hadd] at hr
    cases hr
    refine ⟨0, enter offset len, ?_, ?_⟩
    · simp [enter, hadd]
    · simp [run, step_call hfree]
  | some stop =>
    have henter : enter offset len = { phase := .load stop, offset, len } := by
      simp [enter, hadd]
    simp only [hadd] at hr
    by_cases hslow : w.heap.observedLen < stop
    · rw [if_pos hslow] at hr
      by_cases hbase : baseNow ≠ w.heap.base
      · rw [if_pos hbase] at hr
        cases hr
      · rw [if_neg hbase] at hr
        have hanswer : r = (if w.length < stop then none
            else (w.heap.observe w.length).rangeAt offset stop) ∧ h = w.heap.observe w.length := by
          by_cases hshort : w.length < stop
          · rw [if_pos hshort] at hr ⊢
            cases hr
            exact ⟨rfl, rfl⟩
          · rw [if_neg hshort] at hr ⊢
            cases hr
            exact ⟨rfl, rfl⟩
        obtain ⟨rfl, rfl⟩ := hanswer
        refine ⟨3, ⟨.returned _, offset, len, some w.heap.observedLen, some w.length, w.length⟩,
          rfl, ?_⟩
        simp only [run, step_call hfree, Option.bind_some, henter]
        simp [run, step, Thread.noted, access, hslow, not_not.mp hbase, List.replicate]
    · rw [if_neg hslow] at hr
      cases hr
      refine ⟨1, ⟨.returned _, offset, len, some w.heap.observedLen, none, w.length⟩, rfl, ?_⟩
      simp only [run, step_call hfree, Option.bind_some, henter]
      simp [run, step, Thread.noted, access, hslow, List.replicate]

/-- In every interleaving of calls and grows, the counter stays below the memory's length and
    never goes down, and what a call returns is right: for the lengths it read, and as a lookup
    in the memory would have been when the call decided. -/
theorem hostRange_exact (hf : Fresh w) {as bs : List (Act ι)} {u v : World ι A}
    (hu : run step w as = some u) (hv : run step u bs = some v) :
    u.heap.observedLen ≤ u.length ∧ u.heap.observedLen ≤ v.heap.observedLen ∧
      ∀ i r, (u.threads i).phase = .returned r →
        (u.threads i).Exact u.heap.base u.heap.maxBytes r := by
  have hi : Inv u := inv_run hf.inv hu
  refine ⟨hi.observed, observed_run hi hv, ?_⟩
  intro i r hp
  have ht := hi.threads i
  unfold Thread.Ok at ht
  rwa [hp] at ht

/-- A heap over one page of a memory that can have two. -/
def onePage : World Bool Unit where
  heap :=
    { base := 4096, maxBytes := 131072, charged := 0, observedLen := 65536,
      inner := { memories := [], chunks := [], live := ∅, freeBytes := 0, pendingWant := 0 } }
  length := 65536
  threads := fun _ => {}

/-- Two calls for the same range, of which one reads the length before a grow and one after. The
    late reader is the first to raise the counter. -/
def race : List (Act Bool) :=
  [.call false 65530 16, .access false 4096, .call true 65530 16, .access true 4096,
    .access false 4096, .grow 65536, .access true 4096, .access true 4096, .access false 4096]

theorem onePage_hostRange : ∃ k t, t.phase = .returned (some 4096) ∧
    run step onePage (.call true 0 16 :: List.replicate k (.access true 4096)) =
      some { onePage with threads := Function.update onePage.threads true t } :=
  run_hostRange onePage true (.inl rfl) 0 16 4096 rfl

theorem race_exact : ∃ u, run step onePage race = some u ∧ u.heap.observedLen = 131072 ∧
    (u.threads true).Exact 4096 131072 (some 69626) ∧ (u.threads false).Exact 4096 131072 none := by
  have hf : Fresh onePage := ⟨le_rfl, fun _ => rfl⟩
  have hends : (run step onePage race).map (fun u => (u.heap.base, u.heap.maxBytes,
      u.heap.observedLen, (u.threads true).phase, (u.threads false).phase)) =
      some (4096, 131072, 131072, .returned (some 69626), .returned none) := by decide
  obtain ⟨u, hu, he⟩ := Option.map_eq_some_iff.mp hends
  simp only [Prod.mk.injEq] at he
  obtain ⟨hbase, hmax, hobs, htrue, hfalse⟩ := he
  obtain ⟨_, _, hexact⟩ := hostRange_exact hf hu (run_nil step u)
  rw [hbase, hmax] at hexact
  exact ⟨u, hu, hobs, hexact true _ htrue, hexact false _ hfalse⟩

end HostRange
end WasmerNapi
