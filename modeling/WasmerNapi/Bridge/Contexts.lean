import WasmerNapi.Bridge.Message

/-!
# Whose messages they are

`g_message_handles` has sequential ids and no owner: a take or drop of another context's
message succeeds like any other, and `foreign_take` is one guest taking the first message
of another. So what contexts can rely on is as good as the ids they pass.

* `OwnIds`: the message a take or drop finds under its id is one of its own context. Then
  every message is consumed by the context that created it (`ownConsumption_step`).
* `FreshSlot`: a store finds nothing under the id it hands out. Then no message is lost,
  its own context's or another's.

Under both, a context sees of the others only *that* ids are handed out, because that
moves the counter: `alike_of_trace`, by the unwinding rule, with `ours`, the part of the
table that belongs to one context, in the middle.
-/

namespace WasmerNapi.Bridge.Message

open Function (update update_self update_of_ne)
open Word Run

section

variable {ι γ ν : Type} [DecidableEq ι] [DecidableEq γ] (ctx : ι → γ)

/-! ## Own ids -/

/-- What the next access of a caller takes out of the table. -/
def reached (s : State ι γ ν) (a : Act ι ν) : Option (Msg γ ν) :=
  (s.callers a.caller).payload.bind s.table.named

/-- Every take and drop names an id that is absent, null, or of its own context. -/
def OwnIds (s : State ι γ ν) (a : Act ι ν) : Prop := ∀ m ∈ reached s a, m.creator = ctx a.caller

/-- Every store is to an id that names nothing. -/
def FreshSlot (s : State ι γ ν) (a : Act ι ν) : Prop := (lost s a).isNone

def Guarded (s : State ι γ ν) (a : Act ι ν) : Prop := OwnIds ctx s a ∧ FreshSlot s a

instance (s : State ι γ ν) (a : Act ι ν) : Decidable (Guarded ctx s a) :=
  inferInstanceAs (Decidable ((∀ m ∈ reached s a, m.creator = ctx a.caller) ∧ _ = true))

/-- The messages in a caller's hands are its context's. -/
def Owned (s : State ι γ ν) : Prop := ∀ i m, (s.callers i).held = some m → m.creator = ctx i

/-- No message has been consumed by another context than its creator's. -/
def OwnConsumption (s : State ι γ ν) : Prop := ∀ e ∈ s.consumed, e.1.creator = e.2

variable {ctx} {s s' t t' : State ι γ ν} {a : Act ι ν} {i : ι} {A : γ}

omit [DecidableEq γ] in
/-- Ownership when one caller's phase changes. -/
theorem owned_update {phase : Phase γ ν} (hi : Owned ctx s)
    (hcal : s'.callers = update s.callers i phase)
    (hphase : ∀ m, phase.held = some m → m.creator = ctx i) : Owned ctx s' := by
  intro j m hm
  rw [hcal] at hm
  by_cases hj : j = i
  · subst hj
    rw [update_self] at hm
    exact hphase m hm
  · rw [update_of_ne hj] at hm
    exact hi j m hm

theorem owned_step (hs : step ctx s a = some s') (hown : OwnIds ctx s a) (hi : Owned ctx s) :
    Owned ctx s' := by
  rcases effect_step hs with
    ⟨phase, ht, hcons, hcr, hb, hcal, ha, -⟩ | ⟨content, ht, hcons, hcr, hb, hcal, -⟩ |
    ⟨m, phase, hb, ht, hcons, hcr, hcal, ha, -⟩ |
    ⟨m, payload, phase, hpay, hb, hn, ht, hcons, hcr, hcal, ha, -⟩ |
    ⟨m, hb, hbusy, ht, hcons, hcr, hcal, -⟩
  · exact owned_update hi hcal fun m hm => by rw [ha] at hm; cases hm
  · exact owned_update hi hcal fun m hm => by cases hm; rfl
  · refine owned_update hi hcal fun m' hm' => ?_
    -- Only a message filed under `0` stays in its creator's hands.
    rw [ha] at hm'
    split at hm'
    · cases hm'
      exact hi a.caller m (by rw [hb]; rfl)
    · cases hm'
  · refine owned_update hi hcal fun m' hm' => ?_
    rw [ha] at hm'
    cases hm'
    exact hown m (by rw [reached, hpay]; exact hn)
  · exact owned_update hi hcal nofun

theorem ownConsumption_step (hs : step ctx s a = some s') (hi : Owned ctx s)
    (hc : OwnConsumption s) : OwnConsumption s' := by
  rcases effect_step hs with
    ⟨phase, ht, hcons, hcr, hb, hcal, ha, -⟩ | ⟨content, ht, hcons, hcr, hb, hcal, -⟩ |
    ⟨m, phase, hb, ht, hcons, hcr, hcal, ha, -⟩ |
    ⟨m, payload, phase, hpay, hb, hn, ht, hcons, hcr, hcal, ha, -⟩ |
    ⟨m, hb, hbusy, ht, hcons, hcr, hcal, -⟩
  · unfold OwnConsumption
    rwa [hcons]
  · unfold OwnConsumption
    rwa [hcons]
  · unfold OwnConsumption
    rwa [hcons]
  · unfold OwnConsumption
    rwa [hcons]
  · intro e he
    rw [hcons, List.mem_append, List.mem_singleton] at he
    rcases he with he | rfl
    · exact hc e he
    · exact hi a.caller m hb

/-! ## What one context sees -/

variable (A) in
/-- The part of the table that belongs to `A`. -/
def ours (table : HandleTable (Msg γ ν)) (id : ℕ) : Option (Msg γ ν) :=
  (table.named id).filter fun m => m.creator = A

/-- A store changes the part of every context in the same way, whatever else is there. -/
theorem ours_store (table : HandleTable (Msg γ ν)) (m : Msg γ ν) (id : ℕ) :
    ours A (table.store (some m)).2 id =
      if id ≠ 0 ∧ id = table.nextId then (some m).filter fun m => m.creator = A
      else ours A table id := by
  unfold ours
  rw [HandleTable.named_store]
  by_cases h0 : id = 0
  · rw [if_pos h0, if_neg fun h => h.1 h0, HandleTable.named, if_pos h0]
  · by_cases hid : id = table.nextId
    · rw [if_neg h0, if_pos hid, if_pos ⟨h0, hid⟩]
    · rw [if_neg h0, if_neg hid, if_neg fun h => hid h.2]

variable {table : HandleTable (Msg γ ν)}

theorem ours_store_other {m : Msg γ ν} (hfresh : table.named table.nextId = none)
    (hne : m.creator ≠ A) :
    ours A (table.store (some m)).2 = ours A table := by
  funext id
  rw [ours_store]
  split
  · rename_i hid
    rw [hid.2, ours, hfresh, Option.filter_some_neg (by simpa using hne)]
    rfl
  · rfl

theorem ours_take (table : HandleTable (Msg γ ν)) (payload : ℕ) :
    ours A (table.take payload).2 = update (ours A table) payload none := by
  funext id
  unfold ours
  rw [HandleTable.named_take]
  by_cases hid : id = payload
  · subst hid
    rw [update_self, update_self]
    rfl
  · rw [update_of_ne hid, update_of_ne hid]

variable {payload : ℕ}

theorem ours_take_other {m : Msg γ ν} (hn : table.named payload = some m) (hne : m.creator ≠ A) :
    ours A (table.take payload).2 = ours A table := by
  have hnone : ours A table payload = none := by
    unfold ours
    rw [hn, Option.filter_some_neg (by simpa using hne)]
  rw [ours_take, ← hnone, Function.update_eq_self]

/-- A context that finds only its own finds what is its own. -/
theorem ours_eq_named (hown : ∀ m ∈ table.named payload, m.creator = A) :
    ours A table payload = table.named payload := by
  unfold ours
  cases hn : table.named payload with
  | none => rfl
  | some m => exact Option.filter_some_pos (by simpa using hown m hn)

variable (ctx A) in
/-- Two states that look alike to `A`. -/
structure Alike (s t : State ι γ ν) : Prop where
  nextId : s.table.nextId = t.table.nextId
  ours : ours A s.table = ours A t.table
  callers : ∀ i, ctx i = A → s.callers i = t.callers i
  created : s.created A = t.created A
  results : s.results A = t.results A

omit [DecidableEq ι] in
theorem Alike.symm (h : Alike ctx A s t) : Alike ctx A t s :=
  ⟨h.nextId.symm, h.ours.symm, fun i hi => (h.callers i hi).symm, h.created.symm, h.results.symm⟩

theorem Alike.setCaller (h : Alike ctx A s t) (i : ι) (phase : Phase γ ν) :
    Alike ctx A (s.setCaller i phase) (t.setCaller i phase) := by
  refine { h with callers := ?_ }
  intro j hj
  show update s.callers i phase j = update t.callers i phase j
  by_cases hji : j = i
  · subst hji
    rw [update_self, update_self]
  · rw [update_of_ne hji, update_of_ne hji]
    exact h.callers j hj

theorem Alike.finish (h : Alike ctx A s t) (hi : ctx i = A) (r : Result ν) :
    Alike ctx A (s.finish ctx i r) (t.finish ctx i r) := by
  refine ⟨h.nextId, h.ours, (h.setCaller i .idle).callers, h.created, ?_⟩
  show update s.results (ctx i) (s.results (ctx i) ++ [r]) A =
    update t.results (ctx i) (t.results (ctx i) ++ [r]) A
  rw [hi, update_self, update_self, h.results]

section

omit [DecidableEq ι]

theorem Alike.create (h : Alike ctx A s t) (n : ℕ) :
    Alike ctx A { s with created := update s.created A n }
      { t with created := update t.created A n } := by
  refine { h with created := ?_ }
  show update s.created A n A = update t.created A n A
  rw [update_self, update_self]

theorem Alike.consume (h : Alike ctx A s t) (m : Msg γ ν) :
    Alike ctx A (s.consume ctx i m) (t.consume ctx i m) :=
  { h with }

theorem Alike.store (h : Alike ctx A s t) (m : Msg γ ν) :
    Alike ctx A { s with table := (s.table.store (some m)).2 }
      { t with table := (t.table.store (some m)).2 } := by
  refine ⟨?_, ?_, h.callers, h.created, h.results⟩
  · rw [HandleTable.nextId_store, HandleTable.nextId_store, h.nextId]
  · funext id
    rw [ours_store, ours_store, h.nextId, h.ours]

theorem Alike.take (h : Alike ctx A s t) (payload : ℕ) :
    Alike ctx A { s with table := (s.table.take payload).2 }
      { t with table := (t.table.take payload).2 } := by
  refine ⟨?_, ?_, h.callers, h.created, h.results⟩
  · rw [HandleTable.nextId_take, HandleTable.nextId_take, h.nextId]
  · rw [ours_take, ours_take, h.ours]

/-! ## The same move of `A` itself -/

theorem Alike.moved (h : Alike ctx A s t) (hs : some s = some s') (ht : some t = some t') :
    Alike ctx A s' t' := by
  cases hs
  cases ht
  exact h

end

theorem alike_start {move : Move ν} (h : Alike ctx A s t) (hi : ctx i = A)
    (hs : start ctx s i move = some s') (ht : start ctx t i move = some t') :
    Alike ctx A s' t' := by
  cases move with
  | create payloadOut engine =>
    simp only [start] at hs ht
    split_ifs at hs ht
    · exact (h.finish hi _).moved hs ht
    · cases engine with
      | error status => exact (h.finish hi _).moved hs ht
      | ok content =>
        simp only [hi, h.created] at hs ht
        exact ((h.create _).setCaller i _).moved hs ht
  | take payload resultOut env =>
    simp only [start] at hs ht
    split_ifs at hs ht
    · exact (h.finish hi _).moved hs ht
    · exact (h.setCaller i _).moved hs ht
    · exact (h.setCaller i _).moved hs ht
  | drop payload => exact (h.setCaller i _).moved hs ht
  | access status room => cases hs

omit [DecidableEq ι] in
/-- An id of its own, or an absent one, leads `A` to the same message in both states. -/
theorem Alike.named_eq (h : Alike ctx A s t) (hs : ∀ m ∈ s.table.named payload, m.creator = A)
    (ht : ∀ m ∈ t.table.named payload, m.creator = A) :
    s.table.named payload = t.table.named payload := by
  rw [← ours_eq_named hs, ← ours_eq_named ht, h.ours]

omit [DecidableEq ι] in
/-- And a take finds the same there. -/
theorem Alike.take_cases (h : Alike ctx A s t) (hs : ∀ m ∈ s.table.named payload, m.creator = A)
    (ht : ∀ m ∈ t.table.named payload, m.creator = A) :
    (s.table.take payload = (none, s.table) ∧ t.table.take payload = (none, t.table)) ∨
      ∃ m table table', s.table.take payload = (some m, table) ∧
        t.table.take payload = (some m, table') ∧ Alike ctx A { s with table } { t with table := table' } := by
  have htake := h.take payload
  cases hn : s.table.named payload with
  | none =>
    have hn' := (h.named_eq hs ht).symm.trans hn
    exact .inl ⟨HandleTable.take_of_named_none hn, HandleTable.take_of_named_none hn'⟩
  | some m =>
    have hn' := (h.named_eq hs ht).symm.trans hn
    rw [HandleTable.take_of_named_some hn, HandleTable.take_of_named_some hn'] at htake
    exact .inr ⟨m, _, _, HandleTable.take_of_named_some hn, HandleTable.take_of_named_some hn', htake⟩

theorem alike_access {status : NapiStatus} {room : Bool} (h : Alike ctx A s t) (hi : ctx i = A)
    (hown : ∀ p, (s.callers i).payload = some p → ∀ m ∈ s.table.named p, m.creator = A)
    (hown' : ∀ p, (t.callers i).payload = some p → ∀ m ∈ t.table.named p, m.creator = A)
    (hs : access ctx s i status room = some s') (ht : access ctx t i status room = some t') :
    Alike ctx A s' t' := by
  have hcal := h.callers i hi
  unfold access at hs ht
  rw [← hcal] at ht hown'
  cases hphase : s.callers i with
  | idle =>
    simp only [hphase] at hs
    cases hs
  | storing m =>
    have hstore := h.store m
    simp only [hphase] at hs ht
    rcases hst : s.table.store (some m) with ⟨id, table⟩
    rcases hst' : t.table.store (some m) with ⟨id', table'⟩
    obtain rfl : s.table.nextId = id := congrArg Prod.fst hst
    obtain rfl : t.table.nextId = id' := congrArg Prod.fst hst'
    rw [hst, hst'] at hstore
    rw [hst] at hs
    rw [hst', ← h.nextId] at ht
    split_ifs at hs ht
    · exact (hstore.setCaller i _).moved hs ht
    · exact (hstore.finish hi _).moved hs ht
  | taking payload env =>
    rw [hphase] at hown hown'
    simp only [hphase] at hs ht
    rcases h.take_cases (hown payload rfl) (hown' payload rfl) with ⟨hn, hn'⟩ | ⟨m, _, _, hn, hn', htake⟩
    · simp only [hn] at hs
      simp only [hn'] at ht
      exact (h.finish hi _).moved hs ht
    · simp only [hn] at hs
      simp only [hn'] at ht
      split_ifs at hs ht
      · exact (htake.setCaller i _).moved hs ht
      · exact (htake.setCaller i _).moved hs ht
  | dropping payload result =>
    rw [hphase] at hown hown'
    simp only [hphase] at hs ht
    rcases h.take_cases (hown payload rfl) (hown' payload rfl) with ⟨hn, hn'⟩ | ⟨m, _, _, hn, hn', htake⟩
    · simp only [hn] at hs
      simp only [hn'] at ht
      exact (h.finish hi _).moved hs ht
    · simp only [hn] at hs
      simp only [hn'] at ht
      exact (htake.setCaller i _).moved hs ht
  | engineTake m =>
    simp only [hphase] at hs ht
    split_ifs at hs ht
    all_goals exact ((h.consume m).finish hi _).moved hs ht
  | engineDrop m result =>
    simp only [hphase] at hs ht
    exact ((h.consume m).finish hi _).moved hs ht

/-! ## The other contexts -/

/-- What a context sees of a move: its own, and that another context has an id handed out. -/
inductive Event (ι ν : Type) where
  | own (a : Act ι ν)
  | issued
  deriving DecidableEq

variable (ctx A) in
def seen (s : State ι γ ν) (a : Act ι ν) : Option (Event ι ν) :=
  if ctx a.caller = A then some (.own a)
  else
    match s.callers a.caller with
    | .storing _ => some .issued
    | _ => none

section

omit [DecidableEq ι]

theorem seen_eq_none (h : seen ctx A s a = none) :
    ctx a.caller ≠ A ∧ ∀ m, s.callers a.caller ≠ .storing m := by
  unfold seen at h
  split at h
  · cases h
  · rename_i hne
    refine ⟨hne, fun m hm => ?_⟩
    rw [hm] at h
    cases h

theorem seen_eq_own {b : Act ι ν} (h : seen ctx A s a = some (.own b)) :
    ctx a.caller = A ∧ a = b := by
  unfold seen at h
  split at h
  · rename_i hA
    cases h
    exact ⟨hA, rfl⟩
  · split at h <;> cases h

theorem seen_eq_issued (h : seen ctx A s a = some .issued) :
    ctx a.caller ≠ A ∧ ∃ m, s.callers a.caller = .storing m := by
  unfold seen at h
  split at h
  · cases h
  · rename_i hne
    split at h
    · rename_i m hm
      exact ⟨hne, m, hm⟩
    · cases h

end

/-- A move of another context leaves `A`'s callers, counter and results alone. -/
theorem frame_step (hs : step ctx s a = some s') (hne : ctx a.caller ≠ A) :
    (∀ j, ctx j = A → s.callers j = s'.callers j) ∧ s.created A = s'.created A ∧
      s.results A = s'.results A := by
  have hframe : ∀ phase, s'.callers = update s.callers a.caller phase →
      ∀ j, ctx j = A → s.callers j = s'.callers j := by
    intro phase hcal j hj
    have hja : j ≠ a.caller := fun h => hne (h ▸ hj)
    rw [hcal, update_of_ne hja]
  rcases effect_step hs with
    ⟨phase, -, -, hcr, -, hcal, -, htold⟩ | ⟨content, -, -, hcr, -, hcal, htold⟩ |
    ⟨m, phase, -, -, -, hcr, hcal, -, htold⟩ |
    ⟨m, payload, phase, -, -, -, -, -, hcr, hcal, -, htold⟩ | ⟨m, -, -, -, -, hcr, hcal, htold⟩
  · exact ⟨hframe _ hcal, by rw [hcr], (htold A hne.symm).symm⟩
  · exact ⟨hframe _ hcal, by rw [hcr, update_of_ne hne.symm], (htold A hne.symm).symm⟩
  · exact ⟨hframe _ hcal, by rw [hcr], (htold A hne.symm).symm⟩
  · exact ⟨hframe _ hcal, by rw [hcr], (htold A hne.symm).symm⟩
  · exact ⟨hframe _ hcal, by rw [hcr], (htold A hne.symm).symm⟩

/-- A move `A` does not see leaves its part of the table alone too. -/
theorem alike_silent (hs : step ctx s a = some s') (hown : OwnIds ctx s a)
    (hseen : seen ctx A s a = none) : Alike ctx A s s' := by
  obtain ⟨hne, hstoring⟩ := seen_eq_none hseen
  obtain ⟨hcallers, hcreated, hresults⟩ := frame_step hs hne
  refine ⟨?_, ?_, hcallers, hcreated, hresults⟩
  all_goals
    rcases effect_step hs with
      ⟨-, ht, -⟩ | ⟨-, ht, -⟩ | ⟨m, -, hb, -⟩ |
      ⟨m, payload, phase, hpay, -, hn, ht, -⟩ | ⟨-, -, -, ht, -⟩
  · rw [ht]
  · rw [ht]
  · exact absurd hb (hstoring m)
  · rw [ht, HandleTable.nextId_take]
  · rw [ht]
  · rw [ht]
  · rw [ht]
  · exact absurd hb (hstoring m)
  · have hcreator : m.creator = ctx a.caller := hown m (by rw [reached, hpay]; exact hn)
    rw [ht, ours_take_other hn (hcreator ▸ hne)]
  · rw [ht]

/-- A store of another context moves the counter, and nothing else of `A`'s. -/
theorem ours_issued (hs : step ctx s a = some s') (hfresh : FreshSlot s a) (hi : Owned ctx s)
    (hseen : seen ctx A s a = some .issued) :
    s'.table.nextId = wrappingAdd 32 s.table.nextId 1 ∧ ours A s'.table = ours A s.table := by
  obtain ⟨hne, m, hm⟩ := seen_eq_issued hseen
  have hheld : (s.callers a.caller).held = some m := by rw [hm]; rfl
  have hcreator : m.creator = ctx a.caller := hi a.caller m hheld
  have hnone : s.table.named s.table.nextId = none := by
    rw [FreshSlot, lost_of_storing hm] at hfresh
    exact Option.isNone_iff_eq_none.mp hfresh
  rcases effect_step hs with
    ⟨-, -, -, -, hb, -⟩ | ⟨-, -, -, -, hb, -⟩ | ⟨m', -, hb, ht, -⟩ | ⟨-, -, -, -, hb, -⟩ |
    ⟨-, -, hbusy, -⟩
  · rw [hheld] at hb
    cases hb
  · rw [hheld] at hb
    cases hb
  · rw [hm] at hb
    cases hb
    rw [ht]
    exact ⟨rfl, ours_store_other hnone (hcreator ▸ hne)⟩
  · rw [hheld] at hb
    cases hb
  · exact absurd hm (hbusy m)

variable (ctx A) in
/-- The relation the unwinding rule carries. -/
def Related (s t : State ι γ ν) : Prop := Alike ctx A s t ∧ Owned ctx s ∧ Owned ctx t

omit [DecidableEq ι] in
theorem Alike.trans {u : State ι γ ν} (h : Alike ctx A s t) (h' : Alike ctx A t u) :
    Alike ctx A s u :=
  ⟨h.nextId.trans h'.nextId, h.ours.trans h'.ours,
    fun i hi => (h.callers i hi).trans (h'.callers i hi), h.created.trans h'.created,
    h.results.trans h'.results⟩

theorem related_seen {b : Act ι ν} {e : Event ι ν} (hs : step ctx s a = some s')
    (ht : step ctx t b = some t') (hok : Guarded ctx s a) (hok' : Guarded ctx t b)
    (hseen : seen ctx A s a = some e) (hseen' : seen ctx A t b = some e)
    (h : Related ctx A s t) : Related ctx A s' t' := by
  obtain ⟨halike, hi, hi'⟩ := h
  refine ⟨?_, owned_step hs hok.1 hi, owned_step ht hok'.1 hi'⟩
  cases e with
  | own c =>
    obtain ⟨hA, rfl⟩ := seen_eq_own hseen
    obtain ⟨-, rfl⟩ := seen_eq_own hseen'
    obtain ⟨i, move⟩ := b
    have hown : ∀ p, (s.callers i).payload = some p → ∀ m ∈ s.table.named p, m.creator = A := by
      intro p hp m hm
      exact (hok.1 m (by rw [reached, hp]; exact hm)).trans hA
    have hown' : ∀ p, (t.callers i).payload = some p → ∀ m ∈ t.table.named p, m.creator = A := by
      intro p hp m hm
      exact (hok'.1 m (by rw [reached, hp]; exact hm)).trans hA
    cases move with
    | access status room => exact alike_access halike hA hown hown' hs ht
    | _ =>
      simp only [step] at hs ht
      rw [← halike.callers i hA] at ht
      cases hphase : s.callers i with
      | idle =>
        rw [hphase] at hs ht
        exact alike_start halike hA hs ht
      | _ =>
        rw [hphase] at hs
        cases hs
  | issued =>
    obtain ⟨hne, -⟩ := seen_eq_issued hseen
    obtain ⟨hne', -⟩ := seen_eq_issued hseen'
    obtain ⟨hnext, hours⟩ := ours_issued hs hok.2 hi hseen
    obtain ⟨hnext', hours'⟩ := ours_issued ht hok'.2 hi' hseen'
    obtain ⟨hcallers, hcreated, hresults⟩ := frame_step hs hne
    obtain ⟨hcallers', hcreated', hresults'⟩ := frame_step ht hne'
    refine ⟨?_, ?_, ?_, ?_, ?_⟩
    · rw [hnext, hnext', halike.nextId]
    · rw [hours, hours', halike.ours]
    · intro i hiA
      rw [← hcallers i hiA, ← hcallers' i hiA, halike.callers i hiA]
    · rw [← hcreated, ← hcreated', halike.created]
    · rw [← hresults, ← hresults', halike.results]

/-- **Two runs that differ in the other contexts' calls.** As long as the others' stores
    come at the same points, `A` cannot tell. -/
theorem alike_of_trace {as bs : List (Act ι ν)} (hr : run (step ctx) s as = some s')
    (hr' : run (step ctx) t bs = some t') (hok : AllSteps (step ctx) (Guarded ctx) s as)
    (hok' : AllSteps (step ctx) (Guarded ctx) t bs)
    (htrace : trace (step ctx) (seen ctx A) s as = trace (step ctx) (seen ctx A) t bs)
    (h : Related ctx A s t) : Alike ctx A s' t' := by
  have hsilent : ∀ (u : State ι γ ν) (c : Act ι ν) u' v, step ctx u c = some u' →
      Guarded ctx u c → seen ctx A u c = none →
      Related ctx A v u → Related ctx A v u' := by
    intro u c u' v hs hg hnone hR
    exact ⟨hR.1.trans (alike_silent hs hg.1 hnone), hR.2.1, owned_step hs hg.1 hR.2.2⟩
  have hsymm : ∀ u v : State ι γ ν, Related ctx A u v → Related ctx A v u :=
    fun u v hR => ⟨hR.1.symm, hR.2.2, hR.2.1⟩
  exact (unwinding hsilent hsymm
    (fun _ _ _ _ _ _ _ h₁ h₂ h₃ h₄ h₅ h₆ => related_seen h₁ h₂ h₃ h₄ h₅ h₆)
    hr hr' hok hok' htrace h).1

omit [DecidableEq ι] [DecidableEq γ] in
theorem owned_init : Owned ctx ({} : State ι γ ν) := by
  intro i m h
  cases h

omit [DecidableEq ι] in
theorem related_init : Related ctx A ({} : State ι γ ν) {} :=
  ⟨⟨rfl, rfl, fun _ _ => rfl, rfl, rfl⟩, owned_init, owned_init⟩

/-- Under `OwnIds`, hands and consumption together. -/
theorem ownConsumption_run {as : List (Act ι ν)} (hr : run (step ctx) {} as = some s)
    (hok : AllSteps (step ctx) (OwnIds ctx) {} as) : OwnConsumption s := by
  have hstep : ∀ (u : State ι γ ν) c u', step ctx u c = some u' → OwnIds ctx u c →
      Owned ctx u ∧ OwnConsumption u → Owned ctx u' ∧ OwnConsumption u' := by
    intro u c u' hs hown hi
    exact ⟨owned_step hs hown hi.1, ownConsumption_step hs hi.1 hi.2⟩
  exact (invariant_of_allSteps hstep hr hok ⟨owned_init, fun _ h => absurd h List.not_mem_nil⟩).2

variable [Fintype ι]

/-- **Messages, as far as ids are kept apart.** If every take and drop of a run names an id
    that is null, absent or of its own context, and every store finds its id unused, then
    every message created is in exactly one place, at most one take or drop consumes it and
    nobody has it after that, the consumer is its own context; and another such run, in
    which the other contexts do something else between the same stores, gives a context
    the same results. -/
theorem messages_isolated {as : List (Act ι ν)} (hr : run (step ctx) {} as = some s)
    (hok : AllSteps (step ctx) (Guarded ctx) {} as) :
    Accounted s ∧ ConsumedOnce s ∧ OwnConsumption s ∧
      ∀ (A : γ) (bs : List (Act ι ν)) (t : State ι γ ν), run (step ctx) {} bs = some t →
        AllSteps (step ctx) (Guarded ctx) {} bs →
        trace (step ctx) (seen ctx A) {} bs = trace (step ctx) (seen ctx A) {} as →
        t.results A = s.results A := by
  have hown : AllSteps (step ctx) (OwnIds ctx) {} as := hok.mono fun _ _ h => h.1
  refine ⟨?_, consumed_once hr, ownConsumption_run hr hown, ?_⟩
  · exact invariant_of_allSteps (fun _ _ _ hs hg => accounted_step hs hg.2) hr hok accounted_init
  · intro A bs t hr' hok' htrace
    exact (alike_of_trace hr' hr hok' hok htrace related_init).results

end

/-! ## Two guests -/

/-- Two guests, each its own context: each creates a message and takes its own. The second
    one's messages are `b` and `c`. -/
def exchange (b c : ℕ) : List (Act Bool ℕ) :=
  [⟨false, .create true (.ok 7)⟩, ⟨false, .access .ok true⟩,
    ⟨true, .create true (.ok b)⟩, ⟨true, .access .ok true⟩,
    ⟨true, .drop 0⟩, ⟨true, .access .ok true⟩,
    ⟨false, .take 1 true true⟩, ⟨false, .access .ok true⟩, ⟨false, .access .ok true⟩,
    ⟨true, .take 2 (c = 0) true⟩, ⟨true, .access .ok true⟩, ⟨true, .access .ok true⟩]

theorem exchange_isolated :
    ∃ s t : State Bool Bool ℕ, run (step id) {} (exchange 8 0) = some s ∧
      run (step id) {} (exchange 9 1) = some t ∧ s.consumed.length = 2 ∧ Accounted s ∧
      t.results false = s.results false ∧ t.results true ≠ s.results true := by
  obtain ⟨s, hs, hlen⟩ := Option.map_eq_some_iff.mp
    (show (run (step (id : Bool → Bool)) {} (exchange 8 0)).map
        (fun s => (s.consumed.length, s.results true)) =
      some (2, [.created .ok (some 2), .dropped, .took .ok (some 8)]) by decide)
  obtain ⟨t, ht, hres⟩ := Option.map_eq_some_iff.mp
    (show (run (step (id : Bool → Bool)) {} (exchange 9 1)).map (fun s => s.results true) =
      some [.created .ok (some 2), .dropped, .took .invalidArg none] by decide)
  have h := messages_isolated hs (by decide)
  refine ⟨s, t, hs, ht, congrArg Prod.fst hlen, h.1, ?_, ?_⟩
  · exact h.2.2.2 false _ t ht (by decide) (by decide)
  · rw [hres, show s.results true = _ from congrArg Prod.snd hlen]
    decide

/-- The first guest creates a message, the second takes it if `stolen`, the first asks for
    it back. -/
def errand (stolen : Bool) : List (Act Bool ℕ) :=
  [⟨false, .create true (.ok 7)⟩, ⟨false, .access .ok true⟩] ++
    (if stolen then
      [⟨true, .take 1 true true⟩, ⟨true, .access .ok true⟩, ⟨true, .access .ok true⟩]
    else []) ++
    ([⟨false, .take 1 true true⟩, ⟨false, .access .ok true⟩] ++
      if stolen then [] else [⟨false, .access .ok true⟩])

/-- **A guest takes the message of another context**, gets its value, and the creator is
    refused. -/
theorem foreign_take :
    ∃ s t : State Bool Bool ℕ, run (step id) {} (errand false) = some s ∧
      run (step id) {} (errand true) = some t ∧ ¬ OwnConsumption t ∧
      t.results true = [.took .ok (some 7)] ∧
      s.results false = [.created .ok (some 1), .took .ok (some 7)] ∧
      t.results false = [.created .ok (some 1), .took .invalidArg none] := by
  obtain ⟨s, hs, hres⟩ := Option.map_eq_some_iff.mp
    (show (run (step (id : Bool → Bool)) {} (errand false)).map (fun s => s.results false) =
      some [.created .ok (some 1), .took .ok (some 7)] by decide)
  obtain ⟨t, ht, hstolen⟩ := Option.map_eq_some_iff.mp
    (show (run (step (id : Bool → Bool)) {} (errand true)).map
        (fun s => (s.results true, s.results false, s.consumed.map fun e => (e.1.creator, e.2))) =
      some ([.took .ok (some 7)], [.created .ok (some 1), .took .invalidArg none], [(false, true)])
      by decide)
  have hcons : t.consumed.map (fun e => (e.1.creator, e.2)) = [(false, true)] :=
    congrArg (fun x => x.2.2) hstolen
  refine ⟨s, t, hs, ht, ?_, congrArg Prod.fst hstolen, hres, congrArg (fun x => x.2.1) hstolen⟩
  intro hown
  have hmem : (false, true) ∈ t.consumed.map fun e => (e.1.creator, e.2) := by
    rw [hcons]
    exact List.mem_singleton_self _
  obtain ⟨e, he, heq⟩ := List.mem_map.mp hmem
  obtain ⟨hcreator, htaker⟩ := Prod.mk.inj heq
  have hsame := hown e he
  rw [hcreator, htaker] at hsame
  cases hsame

end WasmerNapi.Bridge.Message
