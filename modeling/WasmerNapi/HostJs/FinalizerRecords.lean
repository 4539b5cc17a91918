import WasmerNapi.HostJs.Finalizers

/-!
# Finalizer records

`Inv` says how the agent's tables fit together: wrap ids, records, the registry and the log. A record
is put into them with a new id (`Accepted`) and taken out of them (`Without`).
-/

namespace WasmerNapi.HostJs.Finalizers

open Function (update update_self update_of_ne)
open scoped List

/-- What the object's wrap should be: a finalizer that has returned ends the wrap. -/
def lastWrap (o : ℕ) : List Event → Option ℕ
  | [] => none
  | .wrapped o' native :: log => if o' = o then some native else lastWrap o log
  | .removed o' :: log => if o' = o then none else lastWrap o log
  | .finalized o' :: log => if o' = o then none else lastWrap o log
  | .accepted _ :: log => lastWrap o log
  | .ran _ _ :: log => lastWrap o log
  | .cancelled _ :: log => lastWrap o log
  | .drained _ _ :: log => lastWrap o log

namespace State

def accepts (s : State) (id : ℕ) : ℕ := s.log.count (.accepted id)

def runs (s : State) (id : ℕ) : ℕ := s.log.count (.ran id true) + s.log.count (.ran id false)

def cancels (s : State) (id : ℕ) : ℕ := s.log.count (.cancelled id)

def pending (s : State) (id : ℕ) : ℕ := (s.guestFinalizers.items.map GuestFinalizer.id).count id

/-- Taken by a drain and not let in yet. -/
def taken (s : State) (id : ℕ) : ℕ :=
  ((s.drains.filter fun d => !d.entered).map fun d => d.record.id).count id

end State

/-- The finalizer's object has been collected. -/
def Gone (s : State) (id : ℕ) : Prop := ∃ o ∈ s.collected, s.targets id = some o

/-- A finalizer of the object's wrap is running. -/
def Finalizing (s : State) (o : ℕ) : Prop :=
  ∃ d ∈ s.drains, d.record.wrapId.isSome ∧ d.record.wrapId = s.wrapIds o

instance (s : State) (o : ℕ) : Decidable (Finalizing s o) :=
  inferInstanceAs (Decidable (∃ d ∈ _, _))

/-! ## The invariant

Six parts, one for each thing that is kept: the wraps, the records with the drains that hold them,
the wraps that records rely on, the registry, the counts of the log, and the buffers' own vector,
which shares its ids with the records. A record is in one place at a time. -/

/-- The record is in the vector or with a drain. -/
def Held (s : State) (r : GuestFinalizer) : Prop :=
  r ∈ s.guestFinalizers.items ∨ ∃ d ∈ s.drains, d.record = r

/-- Wrap ids are handed out in order and never again, and an object's wrap is what the log says. -/
structure Wraps (s : State) : Prop where
  unique : ∀ o o' w, s.wrapIds o = some w → s.wrapIds o' = some w → o = o'
  lt : ∀ o w, s.wrapIds o = some w → w < s.nextWrapId
  pos : 1 ≤ s.nextWrapId
  fresh : ∀ w, s.nextWrapId ≤ w → s.wraps w = none
  last : ∀ o, (s.wrapIds o).bind s.wraps = lastWrap o s.log

/-- The vector, its index and the names by wrap say the same, every record is of an object that has
    the wrap id, and a wrap has one finalizer at most, pending or running. -/
structure Records (s : State) : Prop where
  inverse : s.guestFinalizers.Inverse GuestFinalizer.id
  named : ∀ w id, s.wrapFinalizers w = some id ↔
    ∃ r ∈ s.guestFinalizers.items, r.id = id ∧ r.wrapId = some w
  object : ∀ r, Held s r → ∃ o, s.targets r.id = some o ∧
    ∀ w, r.wrapId = some w → s.wrapIds o = some w
  running : ∀ d ∈ s.drains, ∀ w, d.record.wrapId = some w →
    ∀ r ∈ s.guestFinalizers.items, r.wrapId ≠ some w
  apart : s.drains.Pairwise fun d d' => ∀ w, d.record.wrapId = some w → d'.record.wrapId ≠ some w
  inner : ∀ d ∈ s.drains.tail, d.entered = true

/-- A finalizer that may still run has its wrap. -/
structure Lives (s : State) : Prop where
  wrapped : ∀ r ∈ s.guestFinalizers.items, ∀ w, r.wrapId = some w → s.wraps w ≠ none
  waiting : ∀ d ∈ s.drains, d.entered = false → ∀ w, d.record.wrapId = some w → s.wraps w ≠ none

/-- The host watches for each pending finalizer's object, unless its id is on the queue already or a
    forced drain has put it back; and it reports objects that have been collected, no others. -/
structure Watched (s : State) : Prop where
  cells : ∀ id, s.registry.cells id = none ↔ s.registry.watched id = none
  target : ∀ id o, s.registry.cells id = some o → s.registry.watched id = some .finalizers →
    s.targets id = some o
  ready : ∀ id ∈ s.registry.ready .finalizers, Gone s id
  nodup : (s.registry.ready .finalizers).Nodup
  reach : ∀ r ∈ s.guestFinalizers.items, r.id ∈ s.forgotten ∨
    r.id ∈ s.registry.ready .finalizers ∨ s.registry.watched r.id = some .finalizers
  took : ∀ d ∈ s.drains, d.force = false → Gone s d.record.id
  next : ∀ id, s.registry.next ≤ id → s.registry.watched id = none ∧ s.targets id = none

/-- Each accepted finalizer is in one of four states, and in one of them once. -/
structure Counted (s : State) : Prop where
  once : ∀ id, s.pending id + s.taken id + s.runs id + s.cancels id = s.accepts id
  atMost : ∀ id, s.accepts id ≤ 1
  known : ∀ id, s.targets id = none → s.accepts id = 0
  after : ∀ id, .ran id false ∈ s.log → Gone s id
  drained : ∀ force left, .drained force left ∈ s.log → left = []

/-- Buffer finalizers take their ids from the same counter, and none that a finalizer has. -/
structure Buffers (s : State) : Prop where
  inverse : s.guestBufferFinalizers.Inverse GuestBufferFinalizer.id
  ids : ∀ id, s.guestBufferFinalizers.indices id ≠ none →
    id < s.registry.next ∧ s.targets id = none

structure Inv (s : State) : Prop where
  wraps : Wraps s
  records : Records s
  lives : Lives s
  watched : Watched s
  counted : Counted s
  buffers : Buffers s

variable {s s' : State} {o w id : ℕ} {r : GuestFinalizer}

/-! ## Wrap ids -/

theorem wrapId_find (s : State) (o : ℕ) :
    s.wrapId (some (.object o)) false = (s.wrapIds o, s) := by
  unfold State.wrapId
  cases h : s.wrapIds o with
  | none => simp [h]
  | some w => simp [h]

theorem unwrap_object (s : State) (o : ℕ) :
    s.unwrap (some (.object o)) = (s.wrapIds o).bind s.wraps := by
  unfold State.unwrap
  rw [wrapId_find]
  cases s.wrapIds o with
  | none => rfl
  | some w => rfl

theorem Wraps.congr (h : Wraps s) (hids : s'.wrapIds = s.wrapIds)
    (hnext : s'.nextWrapId = s.nextWrapId) (hwraps : s'.wraps = s.wraps)
    (hlog : ∀ o, lastWrap o s'.log = lastWrap o s.log) : Wraps s' := by
  refine ⟨?_, ?_, ?_, ?_, ?_⟩
  · rw [hids]
    exact h.unique
  · rw [hids, hnext]
    exact h.lt
  · rw [hnext]
    exact h.pos
  · rw [hnext, hwraps]
    exact h.fresh
  · intro o
    rw [hids, hwraps, hlog]
    exact h.last o

/-- An object that is to be wrapped has a wrap id, and `s'` is `s` with that id. -/
structure Identified (s : State) (o w : ℕ) (s' : State) : Prop where
  eq : s' = { s with wrapIds := s'.wrapIds, nextWrapId := s'.nextWrapId }
  inv : Inv s'
  id : s'.wrapIds o = some w
  wrap : s'.wraps w = s.unwrap (some (.object o))
  idle : ¬ Finalizing s o → ∀ d ∈ s.drains, d.record.wrapId ≠ some w

/-- A new id is beyond all that were handed out, so nothing is known under it. -/
theorem wrapId_identified (h : Inv s) (o : ℕ) (hroom : s.nextWrapId < u32Max) :
    ∃ w s', s.wrapId (some (.object o)) true = (some w, s') ∧ Identified s o w s' := by
  cases hid : s.wrapIds o with
  | some w =>
    refine ⟨w, s, by simp [State.wrapId, hid], rfl, h, hid, ?_, ?_⟩
    · rw [unwrap_object, hid]
      rfl
    · intro hidle d hd hw
      exact hidle ⟨d, hd, by rw [hw]; rfl, hw.trans hid.symm⟩
  | none =>
    obtain ⟨hwraps, hrecords, hlives, hwatched, hcounted, hbuffers⟩ := h
    have hmax : max s.nextWrapId 1 = s.nextWrapId := max_eq_left hwraps.pos
    have hmin : min (s.nextWrapId + 1) u32Max = s.nextWrapId + 1 := min_eq_left hroom
    have hnew : ∀ o', s.wrapIds o' ≠ some s.nextWrapId := fun o' ho' =>
      (hwraps.lt o' _ ho').false
    have hold : ∀ {o' w}, s.wrapIds o' = some w →
        update s.wrapIds o (some s.nextWrapId) o' = some w := by
      intro o' w hw
      rw [update_of_ne _, hw]
      rintro rfl
      rw [hid] at hw
      cases hw
    refine ⟨s.nextWrapId, { s with
      wrapIds := update s.wrapIds o (some s.nextWrapId)
      nextWrapId := s.nextWrapId + 1 }, by simp [State.wrapId, hid, hmax, hmin], rfl,
      ⟨⟨?_, ?_, ?_, ?_, ?_⟩, { hrecords with object := ?_ }, ⟨hlives.wrapped, hlives.waiting⟩,
        { hwatched with },
        { hcounted with },
        ⟨hbuffers.inverse, hbuffers.ids⟩⟩, update_self .., ?_, ?_⟩
    · intro o₁ o₂ w h₁ h₂
      dsimp only at h₁ h₂
      by_cases ho₁ : o₁ = o
      · by_cases ho₂ : o₂ = o
        · rw [ho₁, ho₂]
        · rw [ho₁, update_self] at h₁
          rw [update_of_ne ho₂, ← h₁] at h₂
          exact absurd h₂ (hnew o₂)
      · rw [update_of_ne ho₁] at h₁
        by_cases ho₂ : o₂ = o
        · rw [ho₂, update_self] at h₂
          rw [← h₂] at h₁
          exact absurd h₁ (hnew o₁)
        · rw [update_of_ne ho₂] at h₂
          exact hwraps.unique o₁ o₂ w h₁ h₂
    · intro o' w hw
      dsimp only at hw ⊢
      by_cases ho : o' = o
      · rw [ho, update_self] at hw
        cases hw
        exact Nat.lt_succ_self _
      · rw [update_of_ne ho] at hw
        exact Nat.lt_succ_of_lt (hwraps.lt o' w hw)
    · exact Nat.le_succ_of_le hwraps.pos
    · exact fun w hw => hwraps.fresh w (Nat.le_of_succ_le hw)
    · intro o'
      dsimp only
      rw [← hwraps.last o']
      by_cases ho : o' = o
      · rw [ho, update_self, hid]
        exact hwraps.fresh _ le_rfl
      · rw [update_of_ne ho]
    · intro r hr
      obtain ⟨o', ho', hids⟩ := hrecords.object r hr
      exact ⟨o', ho', fun w hw => hold (hids w hw)⟩
    · rw [unwrap_object, hid]
      exact hwraps.fresh _ le_rfl
    · intro _ d hd hw
      obtain ⟨o', _, hids⟩ := hrecords.object d.record (Or.inr ⟨d, hd, rfl⟩)
      exact hnew o' (hids _ hw)

/-! ## Wraps

One entry of `wraps` is set or cleared, and the log has an event of its object. -/

theorem Wraps.set (h : Wraps s) (hid : s.wrapIds o = some w) (native : Option ℕ)
    (hids : s'.wrapIds = s.wrapIds) (hnext : s'.nextWrapId = s.nextWrapId)
    (hwraps : s'.wraps = update s.wraps w native)
    (hlog : ∀ o', lastWrap o' s'.log = if o = o' then native else lastWrap o' s.log) :
    Wraps s' := by
  refine ⟨?_, ?_, ?_, ?_, ?_⟩
  · rw [hids]
    exact h.unique
  · rw [hids, hnext]
    exact h.lt
  · rw [hnext]
    exact h.pos
  · intro w' hw'
    rw [hnext] at hw'
    have hne : w' ≠ w := ((h.lt o w hid).trans_le hw').ne'
    rw [hwraps, update_of_ne hne]
    exact h.fresh w' hw'
  · intro o'
    rw [hids, hwraps, hlog]
    by_cases ho : o = o'
    · subst ho
      rw [hid, if_pos rfl]
      simp
    · rw [if_neg ho, ← h.last o']
      cases hid' : s.wrapIds o' with
      | none => rfl
      | some w' =>
        have hne : w' ≠ w := by
          rintro rfl
          exact ho (h.unique o o' _ hid hid')
        simp [hne]

/-! ## A finalizer is accepted

Its id is the registry's next one, so it is new to every table: the lemmas below are that an old
entry is still there and that the new one is as it should be. -/

/-- `s'` is `s` with a record under a new id. -/
structure Accepted (s : State) (o : ℕ) (r : GuestFinalizer) (s' : State) : Prop where
  id : r.id = s.registry.next
  eq : s' = { s with
    registry := s'.registry
    targets := update s.targets r.id (some o)
    log := .accepted r.id :: s.log }.pushGuestFinalizer r
  registry : s'.registry = { s.registry with
    next := s.registry.next + 1
    cells := update s.registry.cells r.id (some o)
    watched := update s.registry.watched r.id (some .finalizers) }

theorem register_cases (g : Registry) (queue : Queue) (target : ℕ) :
    g.register queue target = none ∨ g.register queue target = some (g.next, { g with
      next := g.next + 1
      cells := update g.cells g.next (some target)
      watched := update g.watched g.next (some queue) }) := by
  unfold Registry.register
  split
  · exact Or.inl rfl
  · exact Or.inr rfl

theorem registerGuestFinalizer_cases (s : State) (o guestEnv wasmFnPtr data hint : ℕ)
    (wrapId : Option ℕ) :
    s.registerGuestFinalizer (some (.object o)) guestEnv wasmFnPtr data hint wrapId = (false, s) ∨
      ∃ r s', r.wrapId = wrapId ∧ Accepted s o r s' ∧
        s.registerGuestFinalizer (some (.object o)) guestEnv wasmFnPtr data hint wrapId =
          (true, s') := by
  unfold State.registerGuestFinalizer
  dsimp only
  rcases register_cases s.registry .finalizers o with hnone | hsome
  · rw [hnone]
    exact Or.inl rfl
  · rw [hsome]
    exact Or.inr ⟨⟨s.registry.next, guestEnv, wasmFnPtr, data, hint, wrapId⟩, _, rfl,
      ⟨rfl, rfl, rfl⟩, rfl⟩

/-- No finalizer of the wrap is pending or running. -/
def Unused (s : State) (w : ℕ) : Prop :=
  (∀ r ∈ s.guestFinalizers.items, r.wrapId ≠ some w) ∧ ∀ d ∈ s.drains, d.record.wrapId ≠ some w

theorem Accepted.fresh (h : Accepted s o r s') (hwatched : Watched s) : s.targets r.id = none := by
  rw [h.id]
  exact (hwatched.next _ le_rfl).2

theorem Accepted.targets (h : Accepted s o r s') :
    s'.targets = update s.targets r.id (some o) := by
  rw [h.eq]
  rfl

/-- What was known of other ids still is. -/
theorem Accepted.targets_ne (h : Accepted s o r s') (hwatched : Watched s) {id : ℕ}
    (hid : s.targets id ≠ none) : s'.targets id = s.targets id := by
  rw [h.targets]
  refine update_of_ne ?_ ..
  rintro rfl
  exact hid (h.fresh hwatched)

theorem Accepted.gone (h : Accepted s o r s') (hwatched : Watched s) {id : ℕ} (hgone : Gone s id) :
    Gone s' id := by
  obtain ⟨o', ho', htarget⟩ := hgone
  refine ⟨o', ?_, ?_⟩
  · rw [h.eq]
    exact ho'
  · rw [h.targets_ne hwatched (by rw [htarget]; exact Option.some_ne_none _), htarget]

theorem Accepted.mem (h : Accepted s o r s') {x : GuestFinalizer} :
    x ∈ s'.guestFinalizers.items ↔ x ∈ s.guestFinalizers.items ∨ x = r := by
  rw [h.eq]
  show x ∈ s.guestFinalizers.items ++ [r] ↔ _
  rw [List.mem_append, List.mem_singleton]

theorem Accepted.drains (h : Accepted s o r s') : s'.drains = s.drains := by
  rw [h.eq]
  rfl

/-- A record that is not in the vector is put there. -/
theorem named_push (hnamed : ∀ w id, s.wrapFinalizers w = some id ↔
      ∃ x ∈ s.guestFinalizers.items, x.id = id ∧ x.wrapId = some w)
    (hunused : ∀ w, r.wrapId = some w → ∀ x ∈ s.guestFinalizers.items, x.wrapId ≠ some w)
    (w id : ℕ) : (s.pushGuestFinalizer r).wrapFinalizers w = some id ↔
      ∃ x ∈ (s.pushGuestFinalizer r).guestFinalizers.items, x.id = id ∧ x.wrapId = some w := by
  have hmem : ∀ x, x ∈ (s.pushGuestFinalizer r).guestFinalizers.items ↔
      x ∈ s.guestFinalizers.items ∨ x = r := by
    intro x
    show x ∈ s.guestFinalizers.items ++ [r] ↔ _
    rw [List.mem_append, List.mem_singleton]
  unfold State.pushGuestFinalizer at hmem ⊢
  simp only [hmem]
  cases hr : r.wrapId with
  | none =>
    rw [hnamed]
    constructor
    · rintro ⟨x, hx, hid, hw⟩
      exact ⟨x, Or.inl hx, hid, hw⟩
    · rintro ⟨x, hx | rfl, hid, hw⟩
      · exact ⟨x, hx, hid, hw⟩
      · rw [hr] at hw
        cases hw
  | some w₀ =>
    dsimp only
    by_cases hw₀ : w = w₀
    · subst hw₀
      rw [update_self]
      constructor
      · intro heq
        exact ⟨r, Or.inr rfl, Option.some.inj heq, hr⟩
      · rintro ⟨x, hx | rfl, hid, hw⟩
        · exact absurd hw (hunused w hr x hx)
        · rw [hid]
    · rw [update_of_ne hw₀, hnamed]
      constructor
      · rintro ⟨x, hx, hid, hw⟩
        exact ⟨x, Or.inl hx, hid, hw⟩
      · rintro ⟨x, hx | rfl, hid, hw⟩
        · exact ⟨x, hx, hid, hw⟩
        · rw [hr] at hw
          exact absurd (Option.some.inj hw).symm hw₀

/-- The wrap the record is for must have no other finalizer. -/
theorem Accepted.records (h : Accepted s o r s') (hrecords : Records s) (hwatched : Watched s)
    (hwrap : ∀ w, r.wrapId = some w → s.wrapIds o = some w ∧ Unused s w) : Records s' := by
  have hfresh := h.fresh hwatched
  have hnew : s.guestFinalizers.indices r.id = none := by
    apply hrecords.inverse.indices_eq_none.mpr
    intro x hx heq
    obtain ⟨o', ho', _⟩ := hrecords.object x (Or.inl hx)
    rw [heq, hfresh] at ho'
    cases ho'
  have hids : s'.wrapIds = s.wrapIds := by
    rw [h.eq]
    rfl
  refine ⟨?_, ?_, ?_, ?_, ?_, ?_⟩
  · rw [h.eq]
    exact hrecords.inverse.push hnew
  · rw [h.eq]
    exact named_push hrecords.named fun w hw => (hwrap w hw).2.1
  · intro x hx
    rw [hids]
    have hcases : Held s x ∨ x = r := by
      rcases hx with hx | ⟨d, hd, rfl⟩
      · rcases h.mem.mp hx with hx | rfl
        · exact Or.inl (Or.inl hx)
        · exact Or.inr rfl
      · rw [h.drains] at hd
        exact Or.inl (Or.inr ⟨d, hd, rfl⟩)
    rcases hcases with hx | rfl
    · obtain ⟨o', ho', hw⟩ := hrecords.object x hx
      refine ⟨o', ?_, hw⟩
      rw [h.targets_ne hwatched (by rw [ho']; exact Option.some_ne_none _), ho']
    · refine ⟨o, ?_, fun w hw => (hwrap w hw).1⟩
      rw [h.targets, update_self]
  · rw [h.drains]
    intro d hd w hw x hx
    rcases h.mem.mp hx with hx | rfl
    · exact hrecords.running d hd w hw x hx
    · intro hxw
      exact (hwrap w hxw).2.2 d hd hw
  · rw [h.drains]
    exact hrecords.apart
  · rw [h.drains]
    exact hrecords.inner

theorem Accepted.watched (h : Accepted s o r s') (hwatched : Watched s) : Watched s' := by
  have hold : ∀ {id}, s.registry.watched id ≠ none → id ≠ r.id := by
    rintro id hid rfl
    rw [h.id] at hid
    exact hid (hwatched.next _ le_rfl).1
  refine ⟨?_, ?_, ?_, ?_, ?_, ?_, ?_⟩
  · intro id
    rw [h.registry]
    dsimp only
    by_cases hid : id = r.id
    · subst hid
      simp
    · rw [update_of_ne hid, update_of_ne hid]
      exact hwatched.cells id
  · intro id o' hcell hqueue
    rw [h.registry] at hcell hqueue
    dsimp only at hcell hqueue
    by_cases hid : id = r.id
    · subst hid
      rw [update_self] at hcell
      rw [h.targets, update_self, ← hcell]
    · rw [update_of_ne hid] at hcell hqueue
      have htarget := hwatched.target id o' hcell hqueue
      rw [h.targets_ne hwatched (by rw [htarget]; exact Option.some_ne_none _), htarget]
  · intro id hid
    rw [h.registry] at hid
    exact h.gone hwatched (hwatched.ready id hid)
  · rw [h.registry]
    exact hwatched.nodup
  · intro x hx
    rw [h.registry]
    have hforgotten : s'.forgotten = s.forgotten := by
      rw [h.eq]
      rfl
    rw [hforgotten]
    dsimp only
    rcases h.mem.mp hx with hx | rfl
    · rcases hwatched.reach x hx with hf | hready | hqueue
      · exact Or.inl hf
      · exact Or.inr (Or.inl hready)
      · refine Or.inr (Or.inr ?_)
        rw [update_of_ne (hold (by rw [hqueue]; exact Option.some_ne_none _)), hqueue]
    · exact Or.inr (Or.inr (update_self ..))
  · rw [h.drains]
    exact fun d hd hforce => h.gone hwatched (hwatched.took d hd hforce)
  · intro id hid
    rw [h.registry] at hid
    have hlt : s.registry.next + 1 ≤ id := hid
    have hne : id ≠ r.id := by
      rw [h.id]
      omega
    obtain ⟨hnone, htarget⟩ := hwatched.next id (by omega)
    constructor
    · rw [h.registry]
      exact (update_of_ne hne ..).trans hnone
    · rw [h.targets, update_of_ne hne, htarget]

theorem Accepted.counted (h : Accepted s o r s') (hwatched : Watched s) (hcounted : Counted s) :
    Counted s' := by
  have hlog : s'.log = .accepted r.id :: s.log := by
    rw [h.eq]
    rfl
  have hitems : s'.guestFinalizers.items = s.guestFinalizers.items ++ [r] := by
    rw [h.eq]
    rfl
  have hnone := hcounted.known r.id (h.fresh hwatched)
  have haccepts : ∀ id, s'.accepts id = s.accepts id + if r.id = id then 1 else 0 := by
    intro id
    unfold State.accepts
    rw [hlog, List.count_cons]
    simp
  refine ⟨?_, ?_, ?_, ?_, ?_⟩
  · intro id
    have honce := hcounted.once id
    rw [haccepts]
    unfold State.pending State.taken State.runs State.cancels at honce ⊢
    rw [hlog, hitems, h.drains]
    simp only [List.map_append, List.map_cons, List.map_nil, List.count_append, List.count_cons,
      List.count_nil, beq_iff_eq, reduceCtorEq, if_false, Nat.add_zero, Nat.zero_add]
    omega
  · intro id
    rw [haccepts]
    split
    · rename_i heq
      rw [← heq, hnone]
    · exact hcounted.atMost id
  · intro id hid
    rw [h.targets] at hid
    have hne : id ≠ r.id := by
      rintro rfl
      rw [update_self] at hid
      cases hid
    rw [update_of_ne hne] at hid
    rw [haccepts, if_neg (Ne.symm hne)]
    exact hcounted.known id hid
  · intro id hran
    rw [hlog] at hran
    rcases List.mem_cons.mp hran with heq | hran
    · cases heq
    · exact h.gone hwatched (hcounted.after id hran)
  · intro force left hdrained
    rw [hlog] at hdrained
    rcases List.mem_cons.mp hdrained with heq | hdrained
    · cases heq
    · exact hcounted.drained force left hdrained

theorem Accepted.buffers (h : Accepted s o r s') (hbuffers : Buffers s) : Buffers s' := by
  have hsame : s'.guestBufferFinalizers = s.guestBufferFinalizers := by
    rw [h.eq]
    rfl
  refine ⟨?_, ?_⟩
  · rw [hsame]
    exact hbuffers.inverse
  · rw [hsame]
    intro id hid
    obtain ⟨hlt, htarget⟩ := hbuffers.ids id hid
    constructor
    · rw [h.registry]
      exact Nat.lt_succ_of_lt hlt
    · rw [h.targets, update_of_ne _, htarget]
      rw [h.id]
      exact hlt.ne

/-! ## A finalizer is taken out

By a drain, or with the wrap it belongs to. The record leaves the vector, its wrap's name and the
registry at once. -/

/-- `s'` is `s` without the record of an id. -/
structure Without (s : State) (id : ℕ) (r : GuestFinalizer) (s' : State) : Prop where
  removed : Indexed.Removed GuestFinalizer.id s.guestFinalizers id r s'.guestFinalizers
  eq : s' = { s with
    guestFinalizers := s'.guestFinalizers
    wrapFinalizers := s'.wrapFinalizers
    registry := s.registry.remove .finalizers id }
  named : ∀ w id, s'.wrapFinalizers w = some id ↔
    ∃ x ∈ s'.guestFinalizers.items, x.id = id ∧ x.wrapId = some w

theorem Without.mem (h : Without s id r s') : r ∈ s.guestFinalizers.items :=
  h.removed.perm.mem_iff.mp (List.mem_cons_self ..)

theorem Without.mem_of_mem (h : Without s id r s') {x : GuestFinalizer}
    (hx : x ∈ s'.guestFinalizers.items) : x ∈ s.guestFinalizers.items ∧ x.id ≠ id := by
  refine ⟨h.removed.perm.mem_iff.mp (List.mem_cons_of_mem _ hx), ?_⟩
  exact h.removed.inverse.indices_eq_none.mp h.removed.gone x hx

theorem removeGuestFinalizer_without (h : Records s) {id : ℕ} {p : GuestFinalizer × State}
    (hr : s.removeGuestFinalizer id = some p) : Without s id p.1 p.2 := by
  unfold State.removeGuestFinalizer at hr
  split at hr
  · cases hr
  · rename_i r v hremove
    cases hr
    have hremoved := h.inverse.remove hremove
    have hmem : r ∈ s.guestFinalizers.items := hremoved.perm.mem_iff.mp (List.mem_cons_self ..)
    have hleft : ∀ {x}, x ∈ v.items → x ∈ s.guestFinalizers.items ∧ x.id ≠ id := fun hx =>
      ⟨hremoved.perm.mem_iff.mp (List.mem_cons_of_mem _ hx),
        hremoved.inverse.indices_eq_none.mp hremoved.gone _ hx⟩
    have hkept : ∀ {x}, x ∈ s.guestFinalizers.items → x.id ≠ id → x ∈ v.items := by
      intro x hx hne
      rcases List.mem_cons.mp (hremoved.perm.mem_iff.mpr hx) with rfl | hx
      · exact absurd hremoved.key_eq hne
      · exact hx
    refine ⟨hremoved, rfl, ?_⟩
    intro w id'
    dsimp only
    have hother : r.wrapId ≠ some w → (s.wrapFinalizers w = some id' ↔
        ∃ x ∈ v.items, x.id = id' ∧ x.wrapId = some w) := by
      intro hw
      rw [h.named]
      constructor
      · rintro ⟨x, hx, rfl, hxw⟩
        refine ⟨x, hkept hx ?_, rfl, hxw⟩
        intro heq
        rw [h.inverse.eq_of_mem hx hmem (heq.trans hremoved.key_eq.symm)] at hxw
        exact hw hxw
      · rintro ⟨x, hx, rfl, hxw⟩
        exact ⟨x, (hleft hx).1, rfl, hxw⟩
    cases hw : r.wrapId with
    | none => exact hother (by rw [hw]; exact nofun)
    | some w₀ =>
      have hname : s.wrapFinalizers w₀ = some id := (h.named w₀ id).mpr ⟨r, hmem, hremoved.key_eq, hw⟩
      dsimp only
      rw [if_pos hname]
      by_cases hw₀ : w = w₀
      · subst hw₀
        rw [update_self]
        refine iff_of_false nofun ?_
        rintro ⟨x, hx, _, hxw⟩
        have hx' := (h.named w x.id).mpr ⟨x, (hleft hx).1, rfl, hxw⟩
        rw [hname] at hx'
        exact (hleft hx).2 (Option.some.inj hx').symm
      · rw [update_of_ne hw₀]
        exact hother (by rw [hw]; exact fun heq => hw₀ (Option.some.inj heq).symm)

/-- One pending finalizer fewer. -/
theorem Without.pending (h : Without s id r s') (id' : ℕ) :
    s.pending id' = s'.pending id' + if r.id = id' then 1 else 0 := by
  have hcount := (h.removed.perm.map GuestFinalizer.id).count_eq id'
  unfold State.pending
  rw [← hcount, List.map_cons, List.count_cons]
  simp

theorem remove_ready (g : Registry) (queue : Queue) (id : ℕ) (q : Queue) :
    (g.remove queue id).ready q = if q = queue then (g.ready q).erase id else g.ready q := by
  unfold Registry.remove
  have hready : ∀ g' : Registry, g'.ready = g.ready → (g'.unqueue queue id).ready q =
      if q = queue then (g.ready q).erase id else g.ready q := by
    intro g' heq
    unfold Registry.unqueue
    dsimp only
    rw [heq]
    by_cases hq : q = queue
    · subst hq
      simp
    · rw [update_of_ne hq, if_neg hq]
  apply hready
  split
  · rfl
  · rfl

theorem remove_watched (g : Registry) (queue : Queue) (id k : ℕ) :
    (g.remove queue id).watched k = if k = id then none else g.watched k := by
  unfold Registry.remove Registry.unqueue
  cases hid : g.watched id with
  | none =>
    dsimp only
    split
    · rename_i hk
      rw [hk, hid]
    · rfl
  | some q =>
    dsimp only
    by_cases hk : k = id
    · subst hk
      simp
    · rw [update_of_ne hk, if_neg hk]

theorem remove_next (g : Registry) (queue : Queue) (id : ℕ) :
    (g.remove queue id).next = g.next := by
  unfold Registry.remove Registry.unqueue
  cases g.watched id with
  | none => rfl
  | some q => rfl

/-- With an id that is not watched there is no cell to forget. -/
theorem remove_cells (g : Registry) (hcells : ∀ id, g.cells id = none ↔ g.watched id = none)
    (queue : Queue) (id k : ℕ) :
    (g.remove queue id).cells k = if k = id then none else g.cells k := by
  unfold Registry.remove Registry.unqueue
  cases hid : g.watched id with
  | none =>
    dsimp only
    split
    · rename_i hk
      rw [hk, (hcells id).mpr hid]
    · rfl
  | some q =>
    dsimp only
    by_cases hk : k = id
    · subst hk
      simp
    · rw [update_of_ne hk, if_neg hk]

theorem Without.records (h : Without s id r s') (hrecords : Records s) : Records s' := by
  have hmem := fun {x} => h.mem_of_mem (x := x)
  have htargets : s'.targets = s.targets := by
    rw [h.eq]
  have hids : s'.wrapIds = s.wrapIds := by
    rw [h.eq]
  have hdrains : s'.drains = s.drains := by
    rw [h.eq]
  refine ⟨h.removed.inverse, h.named, ?_, ?_, ?_, ?_⟩
  · intro x hx
    rw [htargets, hids]
    apply hrecords.object
    rcases hx with hx | hx
    · exact Or.inl (hmem hx).1
    · rw [hdrains] at hx
      exact Or.inr hx
  · rw [hdrains]
    exact fun d hd w hw x hx => hrecords.running d hd w hw x (hmem hx).1
  · rw [hdrains]
    exact hrecords.apart
  · rw [hdrains]
    exact hrecords.inner

theorem Without.watched (h : Without s id r s') (hwatched : Watched s) : Watched s' := by
  have hregistry : s'.registry = s.registry.remove .finalizers id := by
    rw [h.eq]
  have hgone : ∀ {k}, Gone s' k ↔ Gone s k := by
    intro k
    unfold Gone
    rw [h.eq]
  have htargets : s'.targets = s.targets := by
    rw [h.eq]
  have hforgotten : s'.forgotten = s.forgotten := by
    rw [h.eq]
  have hdrains : s'.drains = s.drains := by
    rw [h.eq]
  refine ⟨?_, ?_, ?_, ?_, ?_, ?_, ?_⟩
  · intro k
    rw [hregistry, remove_watched, remove_cells _ hwatched.cells]
    split
    · exact iff_of_true rfl rfl
    · exact hwatched.cells k
  · intro k o hcell hqueue
    rw [hregistry, remove_watched] at hqueue
    rw [hregistry, remove_cells _ hwatched.cells] at hcell
    rw [htargets]
    split at hcell
    · cases hcell
    · rename_i hk
      rw [if_neg hk] at hqueue
      exact hwatched.target k o hcell hqueue
  · intro k hk
    rw [hregistry, remove_ready, if_pos rfl] at hk
    exact hgone.mpr (hwatched.ready k (List.mem_of_mem_erase hk))
  · rw [hregistry, remove_ready, if_pos rfl]
    exact hwatched.nodup.erase id
  · intro x hx
    obtain ⟨hx, hne⟩ := h.mem_of_mem hx
    rw [hforgotten, hregistry, remove_ready, if_pos rfl, remove_watched, if_neg hne,
      List.mem_erase_of_ne hne]
    exact hwatched.reach x hx
  · rw [hdrains]
    exact fun d hd hforce => hgone.mpr (hwatched.took d hd hforce)
  · intro k hk
    rw [hregistry, remove_next] at hk
    rw [hregistry, remove_watched, htargets]
    obtain ⟨hnone, htarget⟩ := hwatched.next k hk
    refine ⟨?_, htarget⟩
    split
    · rfl
    · exact hnone

theorem Without.buffers (h : Without s id r s') (hbuffers : Buffers s) : Buffers s' := by
  have hsame : s'.guestBufferFinalizers = s.guestBufferFinalizers := by
    rw [h.eq]
  have hnext : s'.registry.next = s.registry.next := by
    rw [h.eq]
    exact remove_next ..
  have htargets : s'.targets = s.targets := by
    rw [h.eq]
  constructor
  · rw [hsame]
    exact hbuffers.inverse
  · rw [hsame, hnext, htargets]
    exact hbuffers.ids

/-- A drain has taken a record. -/
theorem Without.taken_inv (h : Without s id r s') (hinv : Inv s)
    (hentered : ∀ d ∈ s.drains, d.entered = true) (force : Bool)
    (hforce : force = false → Gone s r.id) :
    Inv { s' with drains := { force, record := r } :: s'.drains } := by
  obtain ⟨hwraps, hrecords, hlives, hwatched, hcounted, hbuffers⟩ := hinv
  have hdrains : s'.drains = s.drains := by
    rw [h.eq]
  have hlog : s'.log = s.log := by
    rw [h.eq]
  have hids : s'.wrapIds = s.wrapIds := by
    rw [h.eq]
  have hw : s'.wraps = s.wraps := by
    rw [h.eq]
  have htargets : s'.targets = s.targets := by
    rw [h.eq]
  have hgone : ∀ {k}, Gone s' k ↔ Gone s k := by
    intro k
    unfold Gone
    rw [h.eq]
  obtain ⟨hinverse, hnamed, hobject, hrunning, hapart, hinner⟩ := h.records hrecords
  obtain ⟨hcells, htarget, hready, hnodup, hreach, htook, hnext⟩ := h.watched hwatched
  obtain ⟨hbinverse, hbids⟩ := h.buffers hbuffers
  refine ⟨?_, ⟨hinverse, hnamed, ?_, ?_, ?_, ?_⟩, ⟨?_, ?_⟩,
    ⟨hcells, htarget, hready, hnodup, hreach, ?_, hnext⟩, ⟨?_, ?_, ?_, ?_, ?_⟩,
    ⟨hbinverse, hbids⟩⟩
  · have hsame : Wraps s' := hwraps.congr hids (by rw [h.eq]) hw fun o => by rw [hlog]
    exact { hsame with }
  · intro x hx
    rcases hx with hx | ⟨d, hd, rfl⟩
    · exact hobject x (Or.inl hx)
    · rcases List.mem_cons.mp hd with rfl | hd
      · show ∃ o, s'.targets r.id = some o ∧ ∀ w, r.wrapId = some w → s'.wrapIds o = some w
        rw [htargets, hids]
        exact hrecords.object r (Or.inl h.mem)
      · exact hobject d.record (Or.inr ⟨d, hd, rfl⟩)
  · intro d hd w hdw x hx hxw
    rcases List.mem_cons.mp hd with rfl | hd
    · -- both would be named for `w`
      obtain ⟨hx, hne⟩ := h.mem_of_mem hx
      have hr := (hrecords.named w r.id).mpr ⟨r, h.mem, rfl, hdw⟩
      have hx' := (hrecords.named w x.id).mpr ⟨x, hx, rfl, hxw⟩
      rw [hr] at hx'
      exact hne ((Option.some.inj hx').symm.trans h.removed.key_eq)
    · exact hrunning d hd w hdw x hx hxw
  · refine List.pairwise_cons.mpr ⟨?_, hapart⟩
    intro d hd w hrw hdw
    rw [hdrains] at hd
    exact hrecords.running d hd w hdw r h.mem hrw
  · show ∀ d ∈ s'.drains, d.entered = true
    rw [hdrains]
    exact hentered
  · intro x hx w hxw
    show s'.wraps w ≠ none
    rw [hw]
    exact hlives.wrapped x (h.mem_of_mem hx).1 w hxw
  · intro d hd hnot w hdw
    show s'.wraps w ≠ none
    rw [hw]
    rcases List.mem_cons.mp hd with rfl | hd
    · exact hlives.wrapped r h.mem w hdw
    · rw [hdrains] at hd
      exact absurd (hentered d hd) (by rw [hnot]; exact Bool.false_ne_true)
  · intro d hd hf
    rcases List.mem_cons.mp hd with rfl | hd
    · exact hgone.mpr (hforce hf)
    · exact htook d hd hf
  · intro k
    have honce := hcounted.once k
    have hpending := h.pending k
    have htaken : State.taken { s' with drains := { force, record := r } :: s'.drains } k =
        s.taken k + if r.id = k then 1 else 0 := by
      unfold State.taken
      rw [List.filter_cons_of_pos rfl, List.map_cons, List.count_cons, hdrains]
      simp
    have hruns : s'.runs k = s.runs k := by
      unfold State.runs
      rw [hlog]
    have hcancels : s'.cancels k = s.cancels k := by
      unfold State.cancels
      rw [hlog]
    have haccepts : s'.accepts k = s.accepts k := by
      unfold State.accepts
      rw [hlog]
    rw [htaken]
    show s'.pending k + (s.taken k + if r.id = k then 1 else 0) + s'.runs k + s'.cancels k =
      s'.accepts k
    omega
  · intro k
    show s'.log.count _ ≤ 1
    rw [hlog]
    exact hcounted.atMost k
  · intro k hk
    show s'.log.count _ = 0
    rw [hlog]
    apply hcounted.known
    rw [← htargets]
    exact hk
  · intro k hk
    apply hgone.mpr
    apply hcounted.after
    rw [← hlog]
    exact hk
  · intro f left hleft
    apply hcounted.drained f
    rw [← hlog]
    exact hleft

end WasmerNapi.HostJs.Finalizers
