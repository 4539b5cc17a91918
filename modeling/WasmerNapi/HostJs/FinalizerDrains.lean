import WasmerNapi.HostJs.FinalizerRecords

/-!
# Drains of finalizers

A drain takes a record, lets the finalizer in or puts the record back, and goes on once the finalizer
has returned. Only the innermost drain can have a finalizer that has not been let in.
-/

namespace WasmerNapi.HostJs.Finalizers

variable {s s' : State} {o w id : ℕ} {r : GuestFinalizer}

/-! ## Taking the next record

An ordinary drain works through the queue, a forced one through the vector from its end. An id on
the queue that has no record is skipped. -/

/-- An id with no record can be taken off the queue. -/
theorem Inv.unqueue (h : Inv s) (hid : s.guestFinalizers.indices id = none) :
    Inv { s with registry := s.registry.unqueue .finalizers id } := by
  obtain ⟨hwraps, hrecords, hlives, hwatched, hcounted, hbuffers⟩ := h
  have hready : (s.registry.unqueue .finalizers id).ready .finalizers =
      (s.registry.ready .finalizers).erase id := by
    simp [Registry.unqueue]
  refine ⟨{ hwraps with },
    { hrecords with }, ⟨hlives.wrapped, hlives.waiting⟩,
    { hwatched with ready := ?_, nodup := ?_, reach := ?_ },
    { hcounted with },
    ⟨hbuffers.inverse, hbuffers.ids⟩⟩
  · intro k hk
    rw [hready] at hk
    exact hwatched.ready k (List.mem_of_mem_erase hk)
  · rw [hready]
    exact hwatched.nodup.erase id
  · intro x hx
    have hne : x.id ≠ id := hrecords.inverse.indices_eq_none.mp hid x hx
    rw [hready, List.mem_erase_of_ne hne]
    exact hwatched.reach x hx

/-- What the next finalizer of a drain is taken from. `t` is `s` without the ids that were skipped
    on the way. -/
structure Took (s t : State) (r : GuestFinalizer) (s' : State) : Prop where
  inv : Inv t
  drains : t.drains = s.drains
  without : Without t r.id r s'

/-- The loop takes an id off the queue before it removes the record, which does so too. -/
theorem unqueue_remove (g : Registry) (queue : Queue) (id : ℕ) (hnodup : (g.ready queue).Nodup) :
    (g.unqueue queue id).remove queue id = g.remove queue id := by
  have herase : ((g.ready queue).erase id).erase id = (g.ready queue).erase id :=
    List.erase_of_not_mem hnodup.not_mem_erase
  unfold Registry.remove Registry.unqueue
  cases g.watched id with
  | none => simp [herase]
  | some q => simp [herase]

/-- The loop over the queue ends with an empty queue or with the record of an object that has been
    collected. -/
theorem takeReadyFrom_took (ids : List ℕ) :
    ∀ s : State, Inv s → s.registry.ready .finalizers = ids →
      (∃ t, State.takeReadyFrom ids s = (none, t) ∧ Inv t ∧ t.drains = s.drains ∧
        t.registry.ready .finalizers = []) ∨
      ∃ r s' t, State.takeReadyFrom ids s = (some r, s') ∧ Took s t r s' ∧ Gone t r.id := by
  induction ids with
  | nil =>
    intro s hinv hids
    exact Or.inl ⟨s, rfl, hinv, rfl, hids⟩
  | cons id ids ih =>
    intro s hinv hids
    have hgone : Gone s id := hinv.watched.ready id (by rw [hids]; exact List.mem_cons_self ..)
    have htail : (s.registry.unqueue .finalizers id).ready .finalizers = ids := by
      unfold Registry.unqueue
      simp [hids]
    unfold State.takeReadyFrom
    dsimp only
    cases hremove : State.removeGuestFinalizer
        { s with registry := s.registry.unqueue .finalizers id } id with
    | none =>
      have hnone : s.guestFinalizers.indices id = none := by
        unfold State.removeGuestFinalizer at hremove
        split at hremove
        · rename_i hv
          exact hinv.records.inverse.remove_eq_none.mp hv
        · cases hremove
      rcases ih _ (hinv.unqueue hnone) htail with hend | ⟨r, s', t, htake, htook, hgone⟩
      · exact Or.inl hend
      · exact Or.inr ⟨r, s', t, htake, { htook with }, hgone⟩
    | some p =>
      -- the id is taken off the queue once more by the removal
      obtain ⟨r, s'⟩ := p
      have hrecords : Records { s with registry := s.registry.unqueue .finalizers id } := by
        obtain ⟨hinverse, hnamed, hobject, hrunning, hapart, hinner⟩ := hinv.records
        exact ⟨hinverse, hnamed, hobject, hrunning, hapart, hinner⟩
      have hwithout := removeGuestFinalizer_without hrecords hremove
      have hid : r.id = id := hwithout.removed.key_eq
      refine Or.inr ⟨r, s', s, rfl, ⟨hinv, rfl, ?_⟩, by rw [hid]; exact hgone⟩
      rw [hid]
      refine ⟨hwithout.removed, ?_, hwithout.named⟩
      have heq := hwithout.eq
      dsimp only at heq
      rw [unqueue_remove _ _ _ hinv.watched.nodup] at heq
      exact heq

/-- Of either kind of drain: there is a record, or nothing that the drain is to take is left. -/
theorem takeReadyGuestFinalizer_took (hinv : Inv s) (force : Bool) :
    (∃ t, s.takeReadyGuestFinalizer force = (none, t) ∧ Inv t ∧ t.drains = s.drains ∧
      t.wanted force = []) ∨
    ∃ r s' t, s.takeReadyGuestFinalizer force = (some r, s') ∧ Took s t r s' ∧
      (force = false → Gone t r.id) := by
  unfold State.takeReadyGuestFinalizer
  cases force with
  | false =>
    rw [if_neg Bool.false_ne_true]
    rcases takeReadyFrom_took _ s hinv rfl with ⟨t, htake, ht, hdrains, hready⟩ |
      ⟨r, s', t, htake, htook, hgone⟩
    · exact Or.inl ⟨t, htake, ht, hdrains, hready⟩
    · exact Or.inr ⟨r, s', t, htake, htook, fun _ => hgone⟩
  | true =>
    rw [if_pos rfl]
    cases hlast : s.guestFinalizers.items.getLast? with
    | none =>
      refine Or.inl ⟨s, rfl, hinv, rfl, ?_⟩
      show s.guestFinalizers.items.map GuestFinalizer.id = []
      rw [List.getLast?_eq_none_iff.mp hlast]
      rfl
    | some last =>
      have hmem : last ∈ s.guestFinalizers.items := List.mem_of_getLast? hlast
      dsimp only
      cases hremove : s.removeGuestFinalizer last.id with
      | none =>
        unfold State.removeGuestFinalizer at hremove
        split at hremove
        · rename_i hv
          have hnone := hinv.records.inverse.remove_eq_none.mp hv
          exact absurd rfl (hinv.records.inverse.indices_eq_none.mp hnone last hmem)
        · cases hremove
      | some p =>
        obtain ⟨r, s'⟩ := p
        have hwithout := removeGuestFinalizer_without hinv.records hremove
        refine Or.inr ⟨r, s', s, rfl, ⟨hinv, rfl, ?_⟩, nofun⟩
        rw [hwithout.removed.key_eq]
        exact hwithout

/-- The head of the loop, which may be reached only while every finalizer has been let in. -/
theorem drainNext_inv (hinv : Inv s) (hentered : ∀ d ∈ s.drains, d.entered = true) (force : Bool) :
    Inv (s.drainNext force) := by
  unfold State.drainNext
  rcases takeReadyGuestFinalizer_took hinv force with ⟨t, htake, ht, hdrains, hwanted⟩ |
    ⟨r, s', t, htake, htook, hgone⟩
  · rw [htake]
    dsimp only
    obtain ⟨hwraps, hrecords, hlives, hwatched, hcounted, hbuffers⟩ := ht
    refine ⟨hwraps.congr rfl rfl rfl fun _ => rfl,
      { hrecords with }, ⟨hlives.wrapped, hlives.waiting⟩,
      { hwatched with }, ⟨?_, ?_, ?_, ?_, ?_⟩,
      ⟨hbuffers.inverse, hbuffers.ids⟩⟩
    · intro id
      have honce := hcounted.once id
      unfold State.pending State.taken State.runs State.cancels State.accepts at honce ⊢
      simpa [List.count_cons] using honce
    · intro id
      have hmost := hcounted.atMost id
      unfold State.accepts at hmost ⊢
      simpa [List.count_cons] using hmost
    · intro id hid
      have hknown := hcounted.known id hid
      unfold State.accepts at hknown ⊢
      simpa [List.count_cons] using hknown
    · intro id hid
      rcases List.mem_cons.mp hid with heq | hid
      · cases heq
      · exact hcounted.after id hid
    · intro f left hleft
      rcases List.mem_cons.mp hleft with heq | hleft
      · cases heq
        exact hwanted
      · exact hcounted.drained f left hleft
  · rw [htake]
    have hkept : ∀ d ∈ t.drains, d.entered = true := by
      rw [htook.drains]
      exact hentered
    exact htook.without.taken_inv htook.inv hkept force hgone

/-! ## The guest lets the finalizer in

From here on the finalizer counts as run, whatever it answers. -/

/-- Where guest code runs, no drain waits to be let in. -/
theorem entered_of_guestRuns (h : Records s) (hruns : s.guestRuns = true) :
    ∀ d ∈ s.drains, d.entered = true := by
  intro d hd
  have hinner := h.inner
  unfold State.guestRuns at hruns
  cases hdrains : s.drains with
  | nil =>
    rw [hdrains] at hd
    cases hd
  | cons top rest =>
    rw [hdrains] at hd hruns hinner
    rcases List.mem_cons.mp hd with rfl | hd
    · exact hruns
    · exact hinner d hd

variable {drains : List Drain}

theorem enter_inv {force : Bool} (hinv : Inv s)
    (hdrains : s.drains = { force, record := r, entered := false } :: drains) :
    Inv { s with
      drains := { force, record := r, entered := true } :: drains
      log := .ran r.id force :: s.log } := by
  obtain ⟨hwraps, hrecords, hlives, hwatched, hcounted, hbuffers⟩ := hinv
  have hheld : ∀ d ∈ ({ force, record := r, entered := true } :: drains : List Drain),
      ∃ d' ∈ s.drains, d'.record = d.record ∧ d'.force = d.force := by
    intro d hd
    rw [hdrains]
    rcases List.mem_cons.mp hd with rfl | hd
    · exact ⟨_, List.mem_cons_self .., rfl, rfl⟩
    · exact ⟨d, List.mem_cons_of_mem _ hd, rfl, rfl⟩
  have hapart := hrecords.apart
  have hinner := hrecords.inner
  rw [hdrains] at hapart hinner
  refine ⟨hwraps.congr rfl rfl rfl fun _ => rfl, ⟨hrecords.inverse, hrecords.named, ?_, ?_, ?_,
    hinner⟩, ⟨hlives.wrapped, ?_⟩, { hwatched with took := ?_ }, ⟨?_, ?_, ?_, ?_, ?_⟩,
    ⟨hbuffers.inverse, hbuffers.ids⟩⟩
  · intro x hx
    rcases hx with hx | ⟨d, hd, rfl⟩
    · exact hrecords.object x (Or.inl hx)
    · obtain ⟨d', hd', heq, _⟩ := hheld d hd
      exact hrecords.object d.record (Or.inr ⟨d', hd', heq⟩)
  · intro d hd w hw
    obtain ⟨d', hd', heq, _⟩ := hheld d hd
    exact hrecords.running d' hd' w (by rw [heq]; exact hw)
  · obtain ⟨htop, hrest⟩ := List.pairwise_cons.mp hapart
    exact List.pairwise_cons.mpr ⟨htop, hrest⟩
  · intro d hd hnot w hw
    rcases List.mem_cons.mp hd with rfl | hd
    · cases hnot
    · exact absurd (hinner d hd) (by rw [hnot]; exact Bool.false_ne_true)
  · intro d hd hforce
    obtain ⟨d', hd', heq, hf⟩ := hheld d hd
    rw [← heq]
    exact hwatched.took d' hd' (hf.trans hforce)
  · intro id
    have honce := hcounted.once id
    unfold State.pending State.taken State.runs State.cancels State.accepts at honce ⊢
    rw [hdrains, List.filter_cons_of_pos rfl] at honce
    rw [List.filter_cons_of_neg (by exact Bool.not_eq_true _ ▸ rfl)]
    simp only [List.map_cons, List.count_cons, beq_iff_eq, Event.ran.injEq, reduceCtorEq,
      if_false, Nat.add_zero] at honce ⊢
    cases force with
    | false =>
      simp only [and_true, Bool.false_eq_true, and_false, if_false, Nat.add_zero]
      omega
    | true =>
      simp only [and_true, Bool.true_eq_false, and_false, if_false, Nat.add_zero]
      omega
  · intro id
    have hmost := hcounted.atMost id
    unfold State.accepts at hmost ⊢
    simpa [List.count_cons] using hmost
  · intro id hid
    have hknown := hcounted.known id hid
    unfold State.accepts at hknown ⊢
    simpa [List.count_cons] using hknown
  · intro id hid
    rcases List.mem_cons.mp hid with heq | hid
    · cases heq
      exact hwatched.took _ (by rw [hdrains]; exact List.mem_cons_self ..) rfl
    · exact hcounted.after id hid
  · intro f left hleft
    rcases List.mem_cons.mp hleft with heq | hleft
    · cases heq
    · exact hcounted.drained f left hleft

/-! ## A finalizer is put back

The drain that took it gives it up: it is pending again, under its old id and at the end of the
vector. -/

theorem enqueue_ready (g : Registry) (queue : Queue) (id k : ℕ) :
    k ∈ (g.enqueue queue id).ready queue ↔ k ∈ g.ready queue ∨ k = id := by
  unfold Registry.enqueue
  split
  · rename_i hid
    constructor
    · exact Or.inl
    · rintro (hk | rfl)
      · exact hk
      · exact hid
  · simp

theorem enqueue_nodup (g : Registry) (queue : Queue) (id : ℕ) (h : (g.ready queue).Nodup) :
    ((g.enqueue queue id).ready queue).Nodup := by
  unfold Registry.enqueue
  split
  · exact h
  · rename_i hid
    have hnodup := List.nodup_append.mpr ⟨h, List.nodup_singleton id, by
      intro a ha b hb heq
      rw [List.mem_singleton.mp hb] at heq
      exact hid (heq ▸ ha)⟩
    simpa using hnodup

theorem enqueue_other (g : Registry) (queue : Queue) (id : ℕ) :
    (g.enqueue queue id).watched = g.watched ∧ (g.enqueue queue id).cells = g.cells ∧
      (g.enqueue queue id).next = g.next := by
  unfold Registry.enqueue
  split
  · exact ⟨rfl, rfl, rfl⟩
  · exact ⟨rfl, rfl, rfl⟩

/-- `s'` is `s` with the record of its innermost drain put back: in the vector again, and for an
    ordinary drain on the queue. A forced drain leaves the queue alone, so that nothing may be
    left to report the object. -/
structure Back (s : State) (r : GuestFinalizer) (force : Bool) (s' : State) : Prop where
  drains : s.drains = { force, record := r, entered := false } :: s'.drains
  finalizers : s'.guestFinalizers = s.guestFinalizers.push GuestFinalizer.id r
  named : s'.wrapFinalizers = (s.pushGuestFinalizer r).wrapFinalizers
  registry : s'.registry = if force then s.registry else s.registry.enqueue .finalizers r.id
  forgotten : s'.forgotten = if force then r.id :: s.forgotten else s.forgotten
  rest : s' = { s with
    drains := s'.drains
    guestFinalizers := s'.guestFinalizers
    wrapFinalizers := s'.wrapFinalizers
    registry := s'.registry
    forgotten := s'.forgotten }

theorem putBack_back {force : Bool}
    (hdrains : s.drains = { force, record := r, entered := false } :: drains) :
    Back s r force ({ s with drains }.putBack force r) := by
  cases force with
  | false => exact ⟨hdrains, rfl, rfl, rfl, rfl, rfl⟩
  | true => exact ⟨hdrains, rfl, rfl, rfl, rfl, rfl⟩

namespace Back

variable {force : Bool} (h : Back s r force s')

include h

theorem top : { force, record := r, entered := false } ∈ s.drains := by
  rw [h.drains]
  exact List.mem_cons_self ..

theorem below {d : Drain} (hd : d ∈ s'.drains) : d ∈ s.drains := by
  rw [h.drains]
  exact List.mem_cons_of_mem _ hd

theorem mem {x : GuestFinalizer} :
    x ∈ s'.guestFinalizers.items ↔ x ∈ s.guestFinalizers.items ∨ x = r := by
  rw [h.finalizers]
  show x ∈ s.guestFinalizers.items ++ [r] ↔ _
  rw [List.mem_append, List.mem_singleton]

theorem targets : s'.targets = s.targets := by
  rw [h.rest]

theorem wrapIds : s'.wrapIds = s.wrapIds := by
  rw [h.rest]

theorem wraps : s'.wraps = s.wraps := by
  rw [h.rest]

theorem log : s'.log = s.log := by
  rw [h.rest]

theorem gone {id : ℕ} : Gone s' id ↔ Gone s id := by
  unfold Gone
  rw [h.rest]

/-- The record is the drain's, and no longer counts as taken. -/
theorem taken (id : ℕ) : s.taken id = s'.taken id + if r.id = id then 1 else 0 := by
  unfold State.taken
  rw [h.drains, List.filter_cons_of_pos rfl, List.map_cons, List.count_cons]
  simp

theorem pending (id : ℕ) : s'.pending id = s.pending id + if r.id = id then 1 else 0 := by
  unfold State.pending
  rw [h.finalizers]
  show ((s.guestFinalizers.items ++ [r]).map GuestFinalizer.id).count id = _
  rw [List.map_append, List.count_append, List.map_singleton, List.count_cons]
  simp

/-- A record that a drain has taken is not in the vector: it would be counted twice. -/
theorem unlisted (hrecords : Records s) (hcounted : Counted s) :
    s.guestFinalizers.indices r.id = none := by
  apply hrecords.inverse.indices_eq_none.mpr
  intro x hx heq
  have honce := hcounted.once r.id
  have hmost := hcounted.atMost r.id
  have hpos : 0 < s.pending r.id := List.count_pos_iff.mpr (heq ▸ List.mem_map_of_mem hx)
  have hone := h.taken r.id
  rw [if_pos rfl] at hone
  omega

theorem records (hrecords : Records s) (hcounted : Counted s) : Records s' := by
  have hapart := hrecords.apart
  have hinner := hrecords.inner
  rw [h.drains] at hapart hinner
  refine ⟨?_, ?_, ?_, ?_, (List.pairwise_cons.mp hapart).2, ?_⟩
  · rw [h.finalizers]
    exact hrecords.inverse.push (h.unlisted hrecords hcounted)
  · rw [h.named, h.finalizers]
    exact named_push hrecords.named (hrecords.running _ h.top)
  · intro x hx
    rw [h.targets, h.wrapIds]
    apply hrecords.object
    rcases hx with hx | ⟨d, hd, rfl⟩
    · rcases h.mem.mp hx with hx | rfl
      · exact Or.inl hx
      · exact Or.inr ⟨_, h.top, rfl⟩
    · exact Or.inr ⟨d, h.below hd, rfl⟩
  · intro d hd w hdw x hx
    rcases h.mem.mp hx with hx | rfl
    · exact hrecords.running d (h.below hd) w hdw x hx
    · -- two drains never share a wrap
      intro hxw
      exact (List.pairwise_cons.mp hapart).1 d hd w hxw hdw
  · exact fun d hd => hinner d (List.mem_of_mem_tail hd)

theorem lives (hrecords : Records s) (hlives : Lives s) : Lives s' := by
  have hinner := hrecords.inner
  rw [h.drains] at hinner
  constructor
  · intro x hx w hxw
    rw [h.wraps]
    rcases h.mem.mp hx with hx | rfl
    · exact hlives.wrapped x hx w hxw
    · exact hlives.waiting _ h.top rfl w hxw
  · intro d hd hnot
    exact absurd (hinner d hd) (by rw [hnot]; exact Bool.false_ne_true)

theorem watched (hwatched : Watched s) : Watched s' := by
  obtain ⟨hqwatched, hqcells, hqnext⟩ := enqueue_other s.registry .finalizers r.id
  refine ⟨?_, ?_, ?_, ?_, ?_, ?_, ?_⟩
  · rw [h.registry]
    split
    · exact hwatched.cells
    · rw [hqwatched, hqcells]
      exact hwatched.cells
  · rw [h.registry, h.targets]
    split
    · exact hwatched.target
    · rw [hqwatched, hqcells]
      exact hwatched.target
  · -- only an ordinary drain puts the id on the queue, and its object was collected
    rw [h.registry]
    intro id hid
    apply h.gone.mpr
    split at hid
    · exact hwatched.ready id hid
    · rename_i hforce
      rcases (enqueue_ready ..).mp hid with hid | rfl
      · exact hwatched.ready id hid
      · exact hwatched.took _ h.top (Bool.eq_false_iff.mpr hforce)
  · rw [h.registry]
    split
    · exact hwatched.nodup
    · exact enqueue_nodup _ _ _ hwatched.nodup
  · intro x hx
    rw [h.registry, h.forgotten]
    rcases h.mem.mp hx with hx | rfl
    · rcases hwatched.reach x hx with hf | hready | hqueue
      · refine Or.inl ?_
        split
        · exact List.mem_cons_of_mem _ hf
        · exact hf
      · refine Or.inr (Or.inl ?_)
        split
        · exact hready
        · exact (enqueue_ready ..).mpr (Or.inl hready)
      · refine Or.inr (Or.inr ?_)
        split
        · exact hqueue
        · rw [hqwatched]
          exact hqueue
    · cases force with
      | false => exact Or.inr (Or.inl ((enqueue_ready ..).mpr (Or.inr rfl)))
      | true => exact Or.inl (List.mem_cons_self ..)
  · exact fun d hd hforce => h.gone.mpr (hwatched.took d (h.below hd) hforce)
  · rw [h.registry, h.targets]
    split
    · exact hwatched.next
    · rw [hqnext, hqwatched]
      exact hwatched.next

/-- What the drain had taken is pending again, so the sum of the four is the same. -/
theorem counted (hcounted : Counted s) : Counted s' := by
  refine ⟨?_, ?_, ?_, ?_, ?_⟩
  · intro id
    have honce := hcounted.once id
    have htaken := h.taken id
    have hpending := h.pending id
    unfold State.runs State.cancels State.accepts at honce ⊢
    rw [h.log]
    omega
  · intro id
    unfold State.accepts
    rw [h.log]
    exact hcounted.atMost id
  · intro id hid
    rw [h.targets] at hid
    unfold State.accepts
    rw [h.log]
    exact hcounted.known id hid
  · rw [h.log]
    exact fun id hid => h.gone.mpr (hcounted.after id hid)
  · rw [h.log]
    exact hcounted.drained

theorem buffers (hbuffers : Buffers s) : Buffers s' := by
  have hsame : s'.guestBufferFinalizers = s.guestBufferFinalizers := by
    rw [h.rest]
  have hnext : s'.registry.next = s.registry.next := by
    rw [h.registry]
    split
    · rfl
    · exact (enqueue_other ..).2.2
  constructor
  · rw [hsame]
    exact hbuffers.inverse
  · rw [hsame, hnext, h.targets]
    exact hbuffers.ids

end Back

/-- A drain's record that has not been let in is put back, by an ordinary drain on the queue. -/
theorem putBack_inv {force : Bool} (hinv : Inv s)
    (hdrains : s.drains = { force, record := r, entered := false } :: drains) :
    Inv ({ s with drains }.putBack force r) := by
  have h := putBack_back hdrains
  exact
    { wraps := hinv.wraps.congr h.wrapIds (by rw [h.rest]) h.wraps fun o => by rw [h.log]
      records := h.records hinv.records hinv.counted
      lives := h.lives hinv.records hinv.lives
      watched := h.watched hinv.watched
      counted := h.counted hinv.counted
      buffers := h.buffers hinv.buffers }

/-! ## A finalizer has returned

It ends the wrap it belongs to, if it belongs to one. -/

/-- An event of an object's wrap. -/
def Event.ofWrap : Event → Bool
  | .wrapped _ _ => true
  | .removed _ => true
  | .finalized _ => true
  | _ => false

/-- Such events count for no finalizer. -/
theorem Counted.note (h : Counted s) {e : Event} (he : e.ofWrap = true)
    (hitems : s'.guestFinalizers = s.guestFinalizers) (hdrains : s'.drains = s.drains)
    (htargets : s'.targets = s.targets) (hcollected : s'.collected = s.collected)
    (hlog : s'.log = e :: s.log) : Counted s' := by
  have hcount : ∀ {e'}, e'.ofWrap = false → s'.log.count e' = s.log.count e' := by
    intro e' he'
    rw [hlog, List.count_cons_of_ne]
    rintro rfl
    rw [he] at he'
    cases he'
  have hmem : ∀ {e'}, e'.ofWrap = false → e' ∈ s'.log → e' ∈ s.log := by
    intro e' he' hmem
    rw [hlog] at hmem
    rcases List.mem_cons.mp hmem with rfl | hmem
    · rw [he] at he'
      cases he'
    · exact hmem
  have hgone : ∀ {id}, Gone s' id ↔ Gone s id := by
    intro id
    unfold Gone
    rw [htargets, hcollected]
  refine ⟨?_, ?_, ?_, ?_, ?_⟩
  · intro id
    have honce := h.once id
    unfold State.pending State.taken State.runs State.cancels State.accepts at honce ⊢
    rw [hcount rfl, hcount rfl, hcount rfl, hcount rfl, hitems, hdrains]
    exact honce
  · intro id
    unfold State.accepts
    rw [hcount rfl]
    exact h.atMost id
  · intro id hid
    rw [htargets] at hid
    unfold State.accepts
    rw [hcount rfl]
    exact h.known id hid
  · exact fun id hid => hgone.mpr (h.after id (hmem rfl hid))
  · exact fun force left hleft => h.drained force left (hmem rfl hleft)

/-- A finalizer that has run is with its drain no more. -/
theorem drop_inv {force : Bool} (hinv : Inv s)
    (hdrains : s.drains = { force, record := r, entered := true } :: drains) :
    Inv { s with drains } := by
  obtain ⟨hwraps, hrecords, hlives, hwatched, hcounted, hbuffers⟩ := hinv
  have hmem : ∀ d ∈ drains, d ∈ s.drains := by
    intro d hd
    rw [hdrains]
    exact List.mem_cons_of_mem _ hd
  have hapart := hrecords.apart
  have hinner := hrecords.inner
  rw [hdrains] at hapart hinner
  refine ⟨{ hwraps with },
    ⟨hrecords.inverse, hrecords.named, ?_, ?_, ?_, ?_⟩, ⟨hlives.wrapped, ?_⟩,
    { hwatched with took := ?_ }, { hcounted with once := ?_ },
    ⟨hbuffers.inverse, hbuffers.ids⟩⟩
  · intro x hx
    rcases hx with hx | ⟨d, hd, rfl⟩
    · exact hrecords.object x (Or.inl hx)
    · exact hrecords.object d.record (Or.inr ⟨d, hmem d hd, rfl⟩)
  · exact fun d hd => hrecords.running d (hmem d hd)
  · exact (List.pairwise_cons.mp hapart).2
  · exact fun d hd => hinner d (List.mem_of_mem_tail hd)
  · exact fun d hd => hlives.waiting d (hmem d hd)
  · exact fun d hd => hwatched.took d (hmem d hd)
  · intro id
    have htaken : s.taken id = State.taken { s with drains } id := by
      unfold State.taken
      rw [hdrains, List.filter_cons_of_neg (by exact Bool.not_eq_true _ ▸ rfl)]
    have honce := hcounted.once id
    rw [htaken] at honce
    exact honce

/-- The wrap that ends is nobody else's: no other record in the vector has its id. -/
theorem finish_inv {force : Bool} (hinv : Inv s)
    (hdrains : s.drains = { force, record := r, entered := true } :: drains) :
    Inv ({ s with drains }.finishFinalizer r) ∧
      ({ s with drains }.finishFinalizer r).drains = drains := by
  have htop : { force, record := r, entered := true } ∈ s.drains := by
    rw [hdrains]
    exact List.mem_cons_self ..
  have hentered : ∀ d ∈ drains, d.entered = true := by
    have hinner := hinv.records.inner
    rw [hdrains] at hinner
    exact hinner
  have hunused := hinv.records.running _ htop
  obtain ⟨o, htarget, hids⟩ := hinv.records.object r (Or.inr ⟨_, htop, rfl⟩)
  have hdropped := drop_inv hinv hdrains
  unfold State.finishFinalizer
  cases hw : r.wrapId with
  | none => exact ⟨hdropped, rfl⟩
  | some w =>
    refine ⟨?_, rfl⟩
    dsimp only
    rw [htarget]
    obtain ⟨hwraps, hrecords, hlives, hwatched, hcounted, hbuffers⟩ := hdropped
    refine ⟨hwraps.set (hids w hw) none rfl rfl rfl fun _ => rfl,
      { hrecords with }, ⟨?_, ?_⟩,
      { hwatched with },
      hcounted.note (e := .finalized o) rfl rfl rfl rfl rfl rfl, ⟨hbuffers.inverse, hbuffers.ids⟩⟩
    · intro x hx w' hxw
      show Function.update s.wraps w none w' ≠ none
      rw [Function.update_of_ne _]
      · exact hlives.wrapped x hx w' hxw
      · rintro rfl
        exact hunused _ hw x hx hxw
    · intro d hd hnot
      exact absurd (hentered d hd) (by rw [hnot]; exact Bool.false_ne_true)

end WasmerNapi.HostJs.Finalizers
