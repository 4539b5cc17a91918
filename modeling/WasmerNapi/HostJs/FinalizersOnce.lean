import WasmerNapi.HostJs.FinalizerDrains

/-!
# Wraps are kept and finalizers run once

`Inv` is kept by every step that is `Safe`; `Kept` is what follows from it. The steps that are left
out wrap an object that is wrapped already without a finalizer, wrap one whose finalizer is running,
give out the last wrap id, or return the id that says the finalizer has not run.
-/

namespace WasmerNapi.HostJs.Finalizers

open Function (update update_self update_of_ne)
open Run

variable {s s' : State} {o w id : ℕ} {r : GuestFinalizer}

/-- What holds in every state: the parts of `Inv` that can be said of an agent's tables and the log
    alone, and what the guest can see of them. -/
structure Kept (s : State) : Prop where
  /-- An object is wrapped by the last wrap of it. -/
  unwrap : ∀ o, s.unwrap (some (.object o)) = lastWrap o s.log
  /-- To wrap a wrapped object with a finalizer fails and changes nothing. -/
  refused : ∀ o native guestEnv wasmFnPtr data hint, s.unwrap (some (.object o)) ≠ none →
    s.wrapFinalized (some (.object o)) native guestEnv wasmFnPtr data hint = (.invalidArg, s)
  wrapIds : ∀ o o' w, s.wrapIds o = some w → s.wrapIds o' = some w → o = o'
  finalizers : s.guestFinalizers.Inverse GuestFinalizer.id
  buffers : s.guestBufferFinalizers.Inverse GuestBufferFinalizer.id
  /-- `wrap_finalizers` names the pending finalizer of each wrapped object. -/
  named : ∀ w id, s.wrapFinalizers w = some id ↔
    ∃ r ∈ s.guestFinalizers.items, r.id = id ∧ r.wrapId = some w
  wrapped : ∀ r ∈ s.guestFinalizers.items, ∀ w, r.wrapId = some w →
    ∃ o, s.targets r.id = some o ∧ s.wrapIds o = some w ∧ s.unwrap (some (.object o)) ≠ none
  /-- An accepted finalizer is pending, has been taken by a drain, has run or has been cancelled
      with its wrap. -/
  once : ∀ id, s.accepts id ≤ 1 ∧
    s.pending id + s.taken id + s.runs id + s.cancels id = s.accepts id
  after : ∀ id, .ran id false ∈ s.log → Gone s id
  /-- Once its object has been collected a pending finalizer is ready, or the host has still to
      report it, unless a forced drain has put it back. -/
  reached : ∀ r ∈ s.guestFinalizers.items, Gone s r.id → r.id ∉ s.forgotten →
    r.id ∈ s.registry.ready .finalizers ∨
      ∃ o ∈ s.collected, s.registry.cells r.id = some o
  /-- A drain that comes to its end leaves none that it is to take. -/
  drained : ∀ force left, .drained force left ∈ s.log → left = []

/-- The object may be given a wrap id, and no finalizer is about to end its wrap. -/
def Wrappable (s : State) : Option JsValue → Prop
  | some (.object o) => s.nextWrapId < u32Max ∧ ¬ Finalizing s o
  | _ => True

instance (s : State) : (value : Option JsValue) → Decidable (Wrappable s value)
  | some (.object _) => inferInstanceAs (Decidable (_ ∧ ¬ _))
  | some (.primitive _) => isTrue trivial
  | none => isTrue trivial

/-- What the steps of a run have to avoid. -/
def Safe (s : State) : Action → Prop
  | .wrap value _ => Wrappable s value ∧ s.unwrap value = none
  | .wrapFinalized value _ _ _ _ _ => Wrappable s value
  | .finalizerReturns result => result ≠ callbackDeferred
  | _ => True

instance (s : State) : (a : Action) → Decidable (Safe s a)
  | .wrap _ _ => inferInstanceAs (Decidable (_ ∧ _))
  | .wrapFinalized value _ _ _ _ _ => inferInstanceAs (Decidable (Wrappable s value))
  | .finalizerReturns _ => inferInstanceAs (Decidable (_ ≠ _))
  | .unwrap _ => isTrue trivial
  | .removeWrap _ => isTrue trivial
  | .addFinalizerCb _ _ _ _ _ => isTrue trivial
  | .registerBuffer _ _ _ _ => isTrue trivial
  | .takeBuffer _ => isTrue trivial
  | .drain _ => isTrue trivial
  | .enter => isTrue trivial
  | .refuse => isTrue trivial
  | .collect _ => isTrue trivial
  | .report _ => isTrue trivial

/-! ## Answers and the log

The log is what `Kept` speaks of, and the guest sees the answers. A call of the guest's answers `ok`
exactly when the log has its events. -/

/-- A call on what a handle names has answered `ok` and put the object's events in the log, or it has
    answered something else and put nothing there. -/
def Logs (s : State) (value : Option JsValue) (r : Status × State) (events : ℕ → List Event) :
    Prop :=
  (r.1 = .ok ∧ ∃ o, value = some (.object o) ∧ r.2.log = events o ++ s.log) ∨
    (r.1 ≠ .ok ∧ r.2.log = s.log)

/-- Finding the wrap id logs nothing and takes no id of the registry. -/
theorem wrapId_found (s : State) (o : ℕ) :
    ∃ w s', s.wrapId (some (.object o)) true = (some w, s') ∧ s'.log = s.log ∧
      s'.registry = s.registry := by
  cases hid : s.wrapIds o with
  | none =>
    exact ⟨max s.nextWrapId 1, { s with
      wrapIds := update s.wrapIds o (some (max s.nextWrapId 1))
      nextWrapId := min (max s.nextWrapId 1 + 1) u32Max }, by simp [State.wrapId, hid], rfl, rfl⟩
  | some w => exact ⟨w, s, by simp [State.wrapId, hid], rfl, rfl⟩

theorem wrap_logs (s : State) (value : Option JsValue) (native : ℕ) :
    Logs s value (s.wrap value native) fun o => [.wrapped o native] := by
  cases value with
  | none => exact Or.inr ⟨Status.noConfusion, rfl⟩
  | some v =>
    cases v with
    | primitive n => exact Or.inr ⟨Status.noConfusion, rfl⟩
    | object o =>
      obtain ⟨w, s', hwrapId, hlog, -⟩ := wrapId_found s o
      unfold State.wrap
      rw [hwrapId]
      refine Or.inl ⟨rfl, o, rfl, ?_⟩
      show .wrapped o native :: s'.log = _
      rw [hlog]
      rfl

theorem wrapFinalized_logs (s : State) (value : Option JsValue)
    (native guestEnv wasmFnPtr data hint : ℕ) :
    Logs s value (s.wrapFinalized value native guestEnv wasmFnPtr data hint)
      fun o => [.wrapped o native, .accepted s.registry.next] := by
  cases value with
  | none => exact Or.inr ⟨Status.noConfusion, rfl⟩
  | some v =>
    cases v with
    | primitive n => exact Or.inr ⟨Status.noConfusion, rfl⟩
    | object o =>
      obtain ⟨w, s', hwrapId, hlog, hregistry⟩ := wrapId_found s o
      unfold State.wrapFinalized
      rw [hwrapId]
      dsimp only
      split
      · exact Or.inr ⟨Status.noConfusion, hlog⟩
      rcases registerGuestFinalizer_cases s' o guestEnv wasmFnPtr data hint (some w) with
        hfails | ⟨r, s'', -, haccepted, hregister⟩
      · rw [hfails]
        exact Or.inr ⟨Status.noConfusion, hlog⟩
      · rw [hregister]
        refine Or.inl ⟨rfl, o, rfl, ?_⟩
        show .wrapped o native :: s''.log = _
        rw [haccepted.eq, ← hregistry, ← haccepted.id, ← hlog]
        rfl

theorem addFinalizerCb_logs (s : State) (value : Option JsValue)
    (guestEnv wasmFnPtr data hint : ℕ) :
    Logs s value (s.addFinalizerCb value guestEnv wasmFnPtr data hint)
      fun _ => [.accepted s.registry.next] := by
  cases value with
  | none => exact Or.inr ⟨Status.noConfusion, rfl⟩
  | some v =>
    cases v with
    | primitive n => exact Or.inr ⟨Status.noConfusion, rfl⟩
    | object o =>
      unfold State.addFinalizerCb
      rcases registerGuestFinalizer_cases s o guestEnv wasmFnPtr data hint none with
        hfails | ⟨r, s', -, haccepted, hregister⟩
      · rw [hfails]
        exact Or.inr ⟨Status.noConfusion, rfl⟩
      · rw [hregister]
        refine Or.inl ⟨rfl, o, rfl, ?_⟩
        show s'.log = _
        rw [haccepted.eq, ← haccepted.id]
        rfl

/-- The finalizer that goes with an object's wrap. -/
def cancelledWith (s : State) (o : ℕ) : List Event :=
  (((s.wrapIds o).bind s.wrapFinalizers).filter fun id =>
    (s.guestFinalizers.remove GuestFinalizer.id id).isSome).toList.map .cancelled

theorem removeWrap_logs (s : State) (value : Option JsValue) :
    Logs s value (s.removeWrap value) fun o => cancelledWith s o ++ [.removed o] := by
  cases value with
  | none => exact Or.inr ⟨Status.noConfusion, rfl⟩
  | some v =>
    cases v with
    | primitive n => exact Or.inr ⟨Status.noConfusion, rfl⟩
    | object o =>
      unfold State.removeWrap
      rw [wrapId_find]
      cases hid : s.wrapIds o with
      | none => exact Or.inr ⟨Status.noConfusion, rfl⟩
      | some w =>
        dsimp only
        cases s.wraps w with
        | none => exact Or.inr ⟨Status.noConfusion, rfl⟩
        | some native =>
          simp only [State.note, State.removeGuestFinalizer]
          cases hname : s.wrapFinalizers w with
          | none =>
            refine Or.inl ⟨rfl, o, rfl, ?_⟩
            simp [cancelledWith, State.objectOf, hid, hname]
          | some id =>
            cases hremove : s.guestFinalizers.remove GuestFinalizer.id id with
            | none =>
              simp only [hremove]
              refine Or.inl ⟨rfl, o, rfl, ?_⟩
              simp [cancelledWith, State.objectOf, hid, hname, Option.filter, hremove]
            | some p =>
              simp only [hremove]
              refine Or.inl ⟨rfl, o, rfl, ?_⟩
              simp [cancelledWith, State.objectOf, hid, hname, Option.filter, hremove]

/-! ## The guest's calls

Each of them is made while guest code runs, so that every finalizer that was taken has been let in. -/

theorem wrap_inv (hinv : Inv s) (value : Option JsValue) (native : ℕ)
    (hwrappable : Wrappable s value) : Inv (s.wrap value native).2 := by
  cases value with
  | none => exact hinv
  | some v =>
    cases v with
    | primitive n => exact hinv
    | object o =>
      obtain ⟨w, s', hwrapId, hid⟩ := wrapId_identified hinv o hwrappable.1
      unfold State.wrap
      rw [hwrapId]
      obtain ⟨hwraps, hrecords, hlives, hwatched, hcounted, hbuffers⟩ := hid.inv
      exact ⟨hwraps.set hid.id (some native) rfl rfl rfl fun _ => rfl,
        { hrecords with },
        ⟨fun x hx w' hxw => Table.update_ne_none (hlives.wrapped x hx w' hxw),
          fun d hd hnot w' hdw => Table.update_ne_none (hlives.waiting d hd hnot w' hdw)⟩,
        { hwatched with },
        hcounted.note (e := .wrapped o native) rfl rfl rfl rfl rfl rfl,
        ⟨hbuffers.inverse, hbuffers.ids⟩⟩

/-- A wrap with a finalizer goes through only for an object that has no wrap, so no finalizer of that
    wrap can be pending; that none is running is what `Wrappable` asks. -/
theorem wrapFinalized_inv (hinv : Inv s) (value : Option JsValue)
    (native guestEnv wasmFnPtr data hint : ℕ) (hwrappable : Wrappable s value) :
    Inv (s.wrapFinalized value native guestEnv wasmFnPtr data hint).2 := by
  cases value with
  | none => exact hinv
  | some v =>
    cases v with
    | primitive n => exact hinv
    | object o =>
      obtain ⟨w, s', hwrapId, hid⟩ := wrapId_identified hinv o hwrappable.1
      unfold State.wrapFinalized
      rw [hwrapId]
      dsimp only
      split
      · exact hid.inv
      · rename_i hnone
        rcases registerGuestFinalizer_cases s' o guestEnv wasmFnPtr data hint (some w) with
          hfails | ⟨r, s'', hr, haccepted, hregister⟩
        · rw [hfails]
          exact hid.inv
        · rw [hregister]
          dsimp only
          have hdrains : s'.drains = s.drains := by
            rw [hid.eq]
          obtain ⟨hwraps, hrecords, hlives, hwatched, hcounted, hbuffers⟩ := hid.inv
          have hw : s'.wraps w = none := by
            simpa using hnone
          have hunused : ∀ w', r.wrapId = some w' → s'.wrapIds o = some w' ∧ Unused s' w' := by
            intro w' hw'
            obtain rfl := Option.some.inj (hr.symm.trans hw')
            refine ⟨hid.id, ?_, ?_⟩
            · exact fun x hx hxw => hlives.wrapped x hx w hxw hw
            · rw [hdrains]
              exact hid.idle hwrappable.2
          have hids : s''.wrapIds = s'.wrapIds := by
            rw [haccepted.eq]
            rfl
          have hnext : s''.nextWrapId = s'.nextWrapId := by
            rw [haccepted.eq]
            rfl
          have hsame : s''.wraps = s'.wraps := by
            rw [haccepted.eq]
            rfl
          have hlog : s''.log = .accepted r.id :: s'.log := by
            rw [haccepted.eq]
            rfl
          have hwraps' : Wraps s'' := hwraps.congr hids hnext hsame fun o' => by
            rw [hlog]
            rfl
          obtain ⟨hinverse, hnamed, hobject, hrunning, hapart, hinner⟩ :=
            haccepted.records hrecords hwatched hunused
          obtain ⟨hcells, htarget, hready, hnodup, hreach, htook, hnext'⟩ :=
            haccepted.watched hwatched
          obtain ⟨hbinverse, hbids⟩ := haccepted.buffers hbuffers
          have hset : ∀ {w'}, w' = w ∨ s'.wraps w' ≠ none →
              update s''.wraps w (some native) w' ≠ none := by
            intro w' hw'
            rw [hsame]
            by_cases heq : w' = w
            · rw [heq, update_self]
              exact Option.some_ne_none _
            · rw [update_of_ne heq]
              exact hw'.resolve_left heq
          refine ⟨hwraps'.set (hids ▸ hid.id) (some native) rfl rfl rfl fun _ => rfl,
            ⟨hinverse, hnamed, hobject, hrunning, hapart, hinner⟩, ⟨?_, ?_⟩,
            ⟨hcells, htarget, hready, hnodup, hreach, htook, hnext'⟩,
            (haccepted.counted hwatched hcounted).note (e := .wrapped o native)
              rfl rfl rfl rfl rfl rfl, ⟨hbinverse, hbids⟩⟩
          · intro x hx w' hxw
            apply hset
            rcases haccepted.mem.mp hx with hx | rfl
            · exact Or.inr (hlives.wrapped x hx w' hxw)
            · exact Or.inl (Option.some.inj (hxw.symm.trans hr))
          · intro d hd hnot w' hdw
            have hd' : d ∈ s''.drains := hd
            rw [haccepted.drains] at hd'
            exact hset (Or.inr (hlives.waiting d hd' hnot w' hdw))

/-- A finalizer with no wrap. -/
theorem addFinalizerCb_inv (hinv : Inv s) (value : Option JsValue)
    (guestEnv wasmFnPtr data hint : ℕ) :
    Inv (s.addFinalizerCb value guestEnv wasmFnPtr data hint).2 := by
  cases value with
  | none => exact hinv
  | some v =>
    cases v with
    | primitive n => exact hinv
    | object o =>
      unfold State.addFinalizerCb
      rcases registerGuestFinalizer_cases s o guestEnv wasmFnPtr data hint none with
        hfails | ⟨r, s', hr, haccepted, hregister⟩
      · rw [hfails]
        exact hinv
      · rw [hregister]
        dsimp only
        obtain ⟨hwraps, hrecords, hlives, hwatched, hcounted, hbuffers⟩ := hinv
        have hsame : s'.wrapIds = s.wrapIds ∧ s'.nextWrapId = s.nextWrapId ∧ s'.wraps = s.wraps ∧
            s'.log = .accepted r.id :: s.log := by
          rw [haccepted.eq]
          exact ⟨rfl, rfl, rfl, rfl⟩
        obtain ⟨hids, hnext, hw, hlog⟩ := hsame
        have hunused : ∀ w, r.wrapId = some w → s.wrapIds o = some w ∧ Unused s w := by
          intro w hrw
          rw [hr] at hrw
          cases hrw
        refine ⟨hwraps.congr hids hnext hw fun o' => by rw [hlog]; rfl,
          haccepted.records hrecords hwatched hunused, ⟨?_, ?_⟩, haccepted.watched hwatched,
          haccepted.counted hwatched hcounted, haccepted.buffers hbuffers⟩
        · rw [hw]
          intro x hx w hxw
          rcases haccepted.mem.mp hx with hx | rfl
          · exact hlives.wrapped x hx w hxw
          · rw [hr] at hxw
            cases hxw
        · rw [hw, haccepted.drains]
          exact hlives.waiting

/-- A finalizer is cancelled with its wrap. -/
theorem Without.cancelled_inv (h : Without s id r s') (hwraps : Wraps s) (hrecords : Records s)
    (hwatched : Watched s) (hcounted : Counted s) (hbuffers : Buffers s)
    (hlives : ∀ x ∈ s.guestFinalizers.items, x.id ≠ id → ∀ w, x.wrapId = some w → s.wraps w ≠ none)
    (hentered : ∀ d ∈ s.drains, d.entered = true) :
    Inv { s' with log := .cancelled id :: s'.log } := by
  have hsame : s'.wrapIds = s.wrapIds ∧ s'.nextWrapId = s.nextWrapId ∧ s'.wraps = s.wraps ∧
      s'.log = s.log ∧ s'.drains = s.drains ∧ s'.targets = s.targets ∧
      s'.collected = s.collected := by
    rw [h.eq]
    exact ⟨rfl, rfl, rfl, rfl, rfl, rfl, rfl⟩
  obtain ⟨hids, hnext, hw, hlog, hdrains, htargets, hcollected⟩ := hsame
  have hgone : ∀ {k}, Gone s' k ↔ Gone s k := by
    intro k
    unfold Gone
    rw [htargets, hcollected]
  have hwraps' : Wraps s' := hwraps.congr hids hnext hw fun o => by rw [hlog]
  obtain ⟨hinverse, hnamed, hobject, hrunning, hapart, hinner⟩ := h.records hrecords
  obtain ⟨hcells, htarget, hready, hnodup, hreach, htook, hnext'⟩ := h.watched hwatched
  obtain ⟨hbinverse, hbids⟩ := h.buffers hbuffers
  have hid := h.removed.key_eq
  refine ⟨hwraps'.congr rfl rfl rfl fun _ => rfl,
    ⟨hinverse, hnamed, hobject, hrunning, hapart, hinner⟩, ⟨?_, ?_⟩,
    ⟨hcells, htarget, hready, hnodup, hreach, htook, hnext'⟩, ⟨?_, ?_, ?_, ?_, ?_⟩,
    ⟨hbinverse, hbids⟩⟩
  · intro x hx w hxw
    obtain ⟨hx, hne⟩ := h.mem_of_mem hx
    show s'.wraps w ≠ none
    rw [hw]
    exact hlives x hx hne w hxw
  · intro d hd hnot
    have hd' : d ∈ s'.drains := hd
    rw [hdrains] at hd'
    exact absurd (hentered d hd') (by rw [hnot]; exact Bool.false_ne_true)
  · intro k
    have honce := hcounted.once k
    have hpending := h.pending k
    have htaken : s'.taken k = s.taken k := by
      unfold State.taken
      rw [hdrains]
    rw [hid] at hpending
    show s'.pending k + s'.taken k + _ + _ = _
    rw [htaken]
    unfold State.runs State.cancels State.accepts at honce ⊢
    dsimp only
    rw [hlog]
    simp only [List.count_cons, beq_iff_eq, Event.cancelled.injEq, reduceCtorEq, if_false,
      Nat.add_zero]
    omega
  · intro k
    have hmost := hcounted.atMost k
    unfold State.accepts at hmost ⊢
    dsimp only
    rw [hlog]
    simpa [List.count_cons] using hmost
  · intro k hk
    have hk' : s'.targets k = none := hk
    rw [htargets] at hk'
    have hknown := hcounted.known k hk'
    unfold State.accepts at hknown ⊢
    dsimp only
    rw [hlog]
    simpa [List.count_cons] using hknown
  · intro k hk
    rcases List.mem_cons.mp hk with heq | hk
    · cases heq
    · rw [hlog] at hk
      exact hgone.mpr (hcounted.after k hk)
  · intro f left hleft
    rcases List.mem_cons.mp hleft with heq | hleft
    · cases heq
    · rw [hlog] at hleft
      exact hcounted.drained f left hleft

/-- The wrap ends before its finalizer is taken out. In between the record names a wrap that is not
    there, which is all that fails of the invariant. -/
theorem removeWrap_inv (hinv : Inv s) (hentered : ∀ d ∈ s.drains, d.entered = true)
    (value : Option JsValue) : Inv (s.removeWrap value).2 := by
  cases value with
  | none => exact hinv
  | some v =>
    cases v with
    | primitive n => exact hinv
    | object o =>
      unfold State.removeWrap
      rw [wrapId_find]
      cases hid : s.wrapIds o with
      | none => exact hinv
      | some w =>
        dsimp only
        cases hw : s.wraps w with
        | none => exact hinv
        | some native =>
          obtain ⟨hwraps, hrecords, hlives, hwatched, hcounted, hbuffers⟩ := hinv
          -- the wrap is gone; its finalizer, if one is pending, is still to be taken out
          have hwraps' : Wraps (State.note { s with wraps := update s.wraps w none }
              (some (.object o)) .removed) := hwraps.set hid none rfl rfl rfl fun _ => rfl
          have hrecords' : Records (State.note { s with wraps := update s.wraps w none }
              (some (.object o)) .removed) := { hrecords with }
          have hwatched' : Watched (State.note { s with wraps := update s.wraps w none }
              (some (.object o)) .removed) := { hwatched with }
          have hcounted' : Counted (State.note { s with wraps := update s.wraps w none }
              (some (.object o)) .removed) :=
            hcounted.note (e := .removed o) rfl rfl rfl rfl rfl rfl
          have hbuffers' : Buffers (State.note { s with wraps := update s.wraps w none }
              (some (.object o)) .removed) := ⟨hbuffers.inverse, hbuffers.ids⟩
          have hother : ∀ x ∈ s.guestFinalizers.items, x.wrapId ≠ some w → ∀ w',
              x.wrapId = some w' → update s.wraps w none w' ≠ none := by
            intro x hx hne w' hxw
            rw [update_of_ne _]
            · exact hlives.wrapped x hx w' hxw
            · rintro rfl
              exact hne hxw
          dsimp only
          cases hname : s.wrapFinalizers w with
          | none =>
            have hnone : ∀ x ∈ s.guestFinalizers.items, x.wrapId ≠ some w := by
              intro x hx hxw
              have hx' := (hrecords.named w x.id).mpr ⟨x, hx, rfl, hxw⟩
              rw [hname] at hx'
              cases hx'
            have hnote : (State.note { s with wraps := update s.wraps w none }
                (some (.object o)) .removed).wrapFinalizers w = none := hname
            rw [hnote]
            refine ⟨hwraps', hrecords', ⟨?_, ?_⟩, hwatched', hcounted', hbuffers'⟩
            · exact fun x hx => hother x hx (hnone x hx)
            · intro d hd hnot
              exact absurd (hentered d hd) (by rw [hnot]; exact Bool.false_ne_true)
          | some id =>
            obtain ⟨x, hx, hxid, hxw⟩ := (hrecords.named w id).mp hname
            have hnote : (State.note { s with wraps := update s.wraps w none }
                (some (.object o)) .removed).wrapFinalizers w = some id := hname
            rw [hnote]
            dsimp only
            cases hremove : (State.note { s with wraps := update s.wraps w none }
                (some (.object o)) .removed).removeGuestFinalizer id with
            | none =>
              unfold State.removeGuestFinalizer at hremove
              split at hremove
              · rename_i hv
                have hnone := hrecords.inverse.remove_eq_none.mp hv
                exact absurd hxid (hrecords.inverse.indices_eq_none.mp hnone x hx)
              · cases hremove
            | some p =>
              obtain ⟨r, s'⟩ := p
              have hwithout := removeGuestFinalizer_without hrecords' hremove
              refine hwithout.cancelled_inv hwraps' hrecords' hwatched' hcounted' hbuffers' ?_
                hentered
              intro y hy hne w' hyw
              refine hother y hy ?_ w' hyw
              intro hyw'
              have hname' := (hrecords.named w y.id).mpr ⟨y, hy, rfl, hyw'⟩
              rw [hname] at hname'
              exact hne (Option.some.inj hname').symm

/-! ## Collections

An object is collected at any time, and the host reports it some time later, if ever. -/

theorem collect_inv (hinv : Inv s) (o : ℕ) :
    Inv { s with collected := o :: s.collected } := by
  obtain ⟨hwraps, hrecords, hlives, hwatched, hcounted, hbuffers⟩ := hinv
  have hgone : ∀ {id}, Gone s id → Gone { s with collected := o :: s.collected } id := by
    intro id hid
    obtain ⟨o', ho', htarget⟩ := hid
    exact ⟨o', List.mem_cons_of_mem _ ho', htarget⟩
  exact ⟨{ hwraps with },
    { hrecords with }, ⟨hlives.wrapped, hlives.waiting⟩,
    { hwatched with
      ready := fun id hid => hgone (hwatched.ready id hid)
      took := fun d hd hf => hgone (hwatched.took d hd hf) },
    { hcounted with after := fun id hid => hgone (hcounted.after id hid) }, ⟨hbuffers.inverse, hbuffers.ids⟩⟩

/-- A report takes the id from the watched ones to its queue. -/
theorem report_inv (hinv : Inv s) {object : ℕ} (hcell : s.registry.cells id = some object)
    (hobject : object ∈ s.collected) : Inv { s with registry := s.registry.report id } := by
  obtain ⟨hwraps, hrecords, hlives, hwatched, hcounted, hbuffers⟩ := hinv
  have hne : s.registry.watched id ≠ none := by
    intro hnone
    rw [(hwatched.cells id).mpr hnone] at hcell
    cases hcell
  obtain ⟨queue, hqueue⟩ := Option.ne_none_iff_exists'.mp hne
  have hreport : s.registry.report id = Registry.enqueue { s.registry with
      cells := update s.registry.cells id none
      watched := update s.registry.watched id none } queue id := by
    unfold Registry.report
    dsimp only
    rw [hqueue]
  obtain ⟨hqwatched, hqcells, hqnext⟩ := enqueue_other { s.registry with
      cells := update s.registry.cells id none
      watched := update s.registry.watched id none } queue id
  rw [← hreport] at hqwatched hqcells hqnext
  -- the finalizers' queue gets the id if it is one of theirs
  have hready : ∀ k, k ∈ (s.registry.report id).ready .finalizers ↔
      k ∈ s.registry.ready .finalizers ∨ (queue = .finalizers ∧ k = id) := by
    intro k
    rw [hreport]
    cases queue with
    | finalizers =>
      rw [enqueue_ready]
      simp
    | buffers =>
      unfold Registry.enqueue
      split
      · simp
      · simp
  have hnodup : ((s.registry.report id).ready .finalizers).Nodup := by
    rw [hreport]
    cases queue with
    | finalizers => exact enqueue_nodup _ _ _ hwatched.nodup
    | buffers =>
      unfold Registry.enqueue
      split
      · exact hwatched.nodup
      · exact hwatched.nodup
  refine ⟨{ hwraps with },
    { hrecords with }, ⟨hlives.wrapped, hlives.waiting⟩,
    ⟨?_, ?_, ?_, hnodup, ?_, hwatched.took, ?_⟩,
    { hcounted with },
    ⟨hbuffers.inverse, ?_⟩⟩
  · intro k
    rw [hqcells, hqwatched]
    dsimp only
    by_cases hk : k = id
    · subst hk
      simp
    · rw [update_of_ne hk, update_of_ne hk]
      exact hwatched.cells k
  · intro k o hk hkq
    rw [hqcells] at hk
    rw [hqwatched] at hkq
    dsimp only at hk hkq
    by_cases hkid : k = id
    · rw [hkid, update_self] at hk
      cases hk
    · rw [update_of_ne hkid] at hk hkq
      exact hwatched.target k o hk hkq
  · intro k hk
    rcases (hready k).mp hk with hk | ⟨rfl, rfl⟩
    · exact hwatched.ready k hk
    · exact ⟨object, hobject, hwatched.target _ _ hcell hqueue⟩
  · intro x hx
    rcases hwatched.reach x hx with hf | hk | hk
    · exact Or.inl hf
    · exact Or.inr (Or.inl ((hready _).mpr (Or.inl hk)))
    · by_cases hid : x.id = id
      · rw [hid, hqueue] at hk
        exact Or.inr (Or.inl ((hready _).mpr (Or.inr ⟨Option.some.inj hk, hid⟩)))
      · refine Or.inr (Or.inr ?_)
        rw [hqwatched]
        exact (update_of_ne hid ..).trans hk
  · intro k hk
    rw [hqnext] at hk
    obtain ⟨hnone, htarget⟩ := hwatched.next k hk
    refine ⟨?_, htarget⟩
    rw [hqwatched]
    dsimp only
    by_cases hid : k = id
    · rw [hid, update_self]
    · rw [update_of_ne hid, hnone]
  · rw [hqnext]
    exact hbuffers.ids

/-! ## Buffer finalizers

They share the registry with the others, so what is to be shown is that the other queue and the other
vector do not notice. -/

theorem registerBuffer_inv (hinv : Inv s) (value : Option JsValue) (valueId guestPtr : ℕ)
    (recyclable : Bool) :
    Inv (s.registerGuestBufferFinalizer value valueId guestPtr recyclable).2 := by
  cases value with
  | none => exact hinv
  | some v =>
    cases v with
    | primitive n => exact hinv
    | object o =>
      unfold State.registerGuestBufferFinalizer
      dsimp only
      rcases register_cases s.registry .buffers o with hnone | hsome
      · rw [hnone]
        exact hinv
      · rw [hsome]
        obtain ⟨hwraps, hrecords, hlives, hwatched, hcounted, hbuffers⟩ := hinv
        obtain ⟨hfresh, htarget⟩ := hwatched.next _ le_rfl
        have hnew : s.guestBufferFinalizers.indices s.registry.next = none := by
          by_contra hne
          exact (hbuffers.ids _ hne).1.false
        refine ⟨{ hwraps with },
          { hrecords with }, ⟨hlives.wrapped, hlives.waiting⟩,
          ⟨?_, ?_, hwatched.ready, hwatched.nodup, ?_, hwatched.took, ?_⟩,
          { hcounted with },
          ⟨hbuffers.inverse.push hnew, ?_⟩⟩
        · intro k
          dsimp only
          by_cases hk : k = s.registry.next
          · rw [hk, update_self, update_self]
            exact iff_of_false (Option.some_ne_none _) (Option.some_ne_none _)
          · rw [update_of_ne hk, update_of_ne hk]
            exact hwatched.cells k
        · intro k o' hcell hqueue
          dsimp only at hcell hqueue
          by_cases hk : k = s.registry.next
          · rw [hk, update_self] at hqueue
            cases hqueue
          · rw [update_of_ne hk] at hcell hqueue
            exact hwatched.target k o' hcell hqueue
        · intro x hx
          have hne : x.id ≠ s.registry.next := by
            intro heq
            obtain ⟨o', ho', _⟩ := hrecords.object x (Or.inl hx)
            rw [heq, htarget] at ho'
            cases ho'
          dsimp only
          rw [update_of_ne hne]
          exact hwatched.reach x hx
        · intro k hk
          have hlt : s.registry.next + 1 ≤ k := hk
          obtain ⟨hnone, htarget'⟩ := hwatched.next k (by omega)
          refine ⟨?_, htarget'⟩
          dsimp only
          rw [update_of_ne (by omega), hnone]
        · intro k hk
          unfold Indexed.push at hk
          dsimp only at hk ⊢
          by_cases hkn : k = s.registry.next
          · rw [hkn]
            exact ⟨Nat.lt_succ_self _, htarget⟩
          · rw [update_of_ne hkn] at hk
            exact ⟨Nat.lt_succ_of_lt (hbuffers.ids k hk).1, (hbuffers.ids k hk).2⟩

theorem unqueueBuffer_inv (hinv : Inv s) (id : ℕ) :
    Inv { s with registry := s.registry.unqueue .buffers id } := by
  obtain ⟨hwraps, hrecords, hlives, hwatched, hcounted, hbuffers⟩ := hinv
  have hready : (s.registry.unqueue .buffers id).ready .finalizers =
      s.registry.ready .finalizers := by
    simp [Registry.unqueue]
  refine ⟨{ hwraps with },
    { hrecords with }, ⟨hlives.wrapped, hlives.waiting⟩,
    { hwatched with ready := ?_, nodup := ?_, reach := ?_ },
    { hcounted with },
    ⟨hbuffers.inverse, hbuffers.ids⟩⟩
  · rw [hready]
    exact hwatched.ready
  · rw [hready]
    exact hwatched.nodup
  · rw [hready]
    exact hwatched.reach

/-- The registry forgets the id, which no finalizer's record has. -/
theorem removeBuffer_inv (hinv : Inv s) {p : GuestBufferFinalizer × State}
    (hremove : s.removeGuestBufferFinalizer id = some p) : Inv p.2 := by
  unfold State.removeGuestBufferFinalizer at hremove
  split at hremove
  · cases hremove
  · rename_i r v hv
    cases hremove
    obtain ⟨hwraps, hrecords, hlives, hwatched, hcounted, hbuffers⟩ := hinv
    have hremoved := hbuffers.inverse.remove hv
    have hpending : s.guestBufferFinalizers.indices id ≠ none := by
      intro hnone
      rw [hbuffers.inverse.remove_eq_none.mpr hnone] at hv
      cases hv
    -- the id of a buffer finalizer is no other finalizer's
    have hne : ∀ x ∈ s.guestFinalizers.items, x.id ≠ id := by
      intro x hx heq
      obtain ⟨o, ho, _⟩ := hrecords.object x (Or.inl hx)
      rw [heq, (hbuffers.ids id hpending).2] at ho
      cases ho
    have hready : (s.registry.remove .buffers id).ready .finalizers =
        s.registry.ready .finalizers := by
      rw [remove_ready, if_neg (by exact nofun)]
    refine ⟨{ hwraps with },
      { hrecords with }, ⟨hlives.wrapped, hlives.waiting⟩,
      ⟨?_, ?_, ?_, ?_, ?_, hwatched.took, ?_⟩,
      { hcounted with },
      ⟨hremoved.inverse, ?_⟩⟩
    · intro k
      dsimp only
      rw [remove_watched, remove_cells _ hwatched.cells]
      split
      · exact iff_of_true rfl rfl
      · exact hwatched.cells k
    · intro k o hcell hqueue
      dsimp only at hcell hqueue
      rw [remove_cells _ hwatched.cells] at hcell
      rw [remove_watched] at hqueue
      split at hcell
      · cases hcell
      · rename_i hk
        rw [if_neg hk] at hqueue
        exact hwatched.target k o hcell hqueue
    · rw [hready]
      exact hwatched.ready
    · rw [hready]
      exact hwatched.nodup
    · intro x hx
      dsimp only
      rw [hready, remove_watched, if_neg (hne x hx)]
      exact hwatched.reach x hx
    · intro k hk
      dsimp only at hk ⊢
      rw [remove_next] at hk
      obtain ⟨hnone, htarget⟩ := hwatched.next k hk
      refine ⟨?_, htarget⟩
      rw [remove_watched]
      split
      · rfl
      · exact hnone
    · intro k hk
      dsimp only at hk ⊢
      rw [remove_next]
      apply hbuffers.ids
      by_cases hkid : k = id
      · rw [hkid]
        exact hpending
      · exact fun hnone => hk ((hremoved.kept k hkid).mpr hnone)

theorem takeReadyBufferFrom_inv (ids : List ℕ) :
    ∀ s : State, Inv s → Inv (State.takeReadyBufferFrom ids s).2 := by
  induction ids with
  | nil =>
    intro s hinv
    exact hinv
  | cons id ids ih =>
    intro s hinv
    have hunqueued := unqueueBuffer_inv hinv id
    unfold State.takeReadyBufferFrom
    dsimp only
    split
    · rename_i record s' hremove
      exact removeBuffer_inv hunqueued hremove
    · exact ih _ hunqueued

theorem takeBuffer_inv (hinv : Inv s) (force : Bool) :
    Inv (s.takeReadyGuestBufferFinalizer force).2 := by
  unfold State.takeReadyGuestBufferFinalizer
  split
  · split
    · exact hinv
    · split
      · rename_i hremove
        exact removeBuffer_inv hinv hremove
      · exact hinv
  · exact takeReadyBufferFrom_inv _ s hinv

/-! ## Runs -/

/-- A call is made where guest code runs, on an object that is still there. -/
theorem called_cases {value : Option JsValue} {after : State}
    (h : s.called value after = some s') : s.guestRuns = true ∧ s' = after := by
  unfold State.called at h
  split at h
  · rename_i hboth
    exact ⟨(Bool.and_eq_true _ _ ▸ hboth).1, (Option.some.inj h).symm⟩
  · cases h

/-- One case for each thing that can happen. -/
theorem step_inv {a : Action} (hs : step s a = some s') (hsafe : Safe s a) (hinv : Inv s) :
    Inv s' := by
  cases a with
  | wrap value native =>
    obtain ⟨_, rfl⟩ := called_cases hs
    exact wrap_inv hinv value native hsafe.1
  | wrapFinalized value native guestEnv wasmFnPtr data hint =>
    obtain ⟨_, rfl⟩ := called_cases hs
    exact wrapFinalized_inv hinv value native guestEnv wasmFnPtr data hint hsafe
  | unwrap value =>
    obtain ⟨_, rfl⟩ := called_cases hs
    exact hinv
  | removeWrap value =>
    obtain ⟨hruns, rfl⟩ := called_cases hs
    exact removeWrap_inv hinv (entered_of_guestRuns hinv.records hruns) value
  | addFinalizerCb value guestEnv wasmFnPtr data hint =>
    obtain ⟨_, rfl⟩ := called_cases hs
    exact addFinalizerCb_inv hinv value guestEnv wasmFnPtr data hint
  | registerBuffer value valueId guestPtr recyclable =>
    obtain ⟨_, rfl⟩ := called_cases hs
    exact registerBuffer_inv hinv value valueId guestPtr recyclable
  | takeBuffer force =>
    obtain ⟨_, rfl⟩ := called_cases hs
    exact takeBuffer_inv hinv force
  | drain force =>
    obtain ⟨hruns, rfl⟩ := called_cases hs
    exact drainNext_inv hinv (entered_of_guestRuns hinv.records hruns) force
  | enter =>
    simp only [step] at hs
    split at hs
    · rename_i hdrains
      cases hs
      exact enter_inv hinv hdrains
    · cases hs
  | refuse =>
    simp only [step] at hs
    split at hs
    · rename_i hdrains
      cases hs
      exact putBack_inv hinv hdrains
    · cases hs
  | finalizerReturns result =>
    simp only [step] at hs
    split at hs
    · rename_i force record drains hdrains
      rw [if_neg hsafe] at hs
      cases hs
      obtain ⟨hfinished, hleft⟩ := finish_inv hinv hdrains
      have hinner := hinv.records.inner
      rw [hdrains] at hinner
      apply drainNext_inv hfinished
      rw [hleft]
      exact hinner
    · cases hs
  | collect object =>
    simp only [step] at hs
    split at hs
    · cases hs
    · cases hs
      exact collect_inv hinv object
  | report id =>
    simp only [step] at hs
    split at hs
    · cases hs
    · rename_i object hcell
      split at hs
      · rename_i hobject
        cases hs
        exact report_inv hinv hcell hobject
      · cases hs

theorem init_inv : Inv {} := by
  refine ⟨⟨nofun, nofun, le_rfl, fun _ _ => rfl, fun _ => rfl⟩,
    ⟨Indexed.inverse_empty, ?_, ?_, nofun, List.Pairwise.nil, nofun⟩, ⟨nofun, nofun⟩,
    ⟨fun _ => iff_of_true rfl rfl, nofun, nofun, List.nodup_nil, nofun, nofun, fun _ _ => ⟨rfl, rfl⟩⟩,
    ⟨fun _ => rfl, fun _ => Nat.zero_le _, fun _ _ => rfl, nofun, nofun⟩,
    ⟨Indexed.inverse_empty, fun _ h => absurd rfl h⟩⟩
  · intro w id
    refine iff_of_false nofun ?_
    rintro ⟨x, hx, _⟩
    cases hx
  · rintro r (hr | ⟨d, hd, _⟩)
    · cases hr
    · cases hd

/-- A finalizer that is watched and whose object has been collected is one the host has to report:
    its cell is still there. -/
theorem Inv.kept (h : Inv s) : Kept s := by
  obtain ⟨hwraps, hrecords, hlives, hwatched, hcounted, hbuffers⟩ := h
  refine ⟨?_, ?_, hwraps.unique, hrecords.inverse, hbuffers.inverse, hrecords.named, ?_,
    fun id => ⟨hcounted.atMost id, hcounted.once id⟩, hcounted.after, ?_, hcounted.drained⟩
  · intro o
    rw [unwrap_object]
    exact hwraps.last o
  · intro o native guestEnv wasmFnPtr data hint hne
    rw [unwrap_object] at hne
    cases hid : s.wrapIds o with
    | none =>
      rw [hid] at hne
      exact absurd rfl hne
    | some w =>
      rw [hid] at hne
      have hwrapId : s.wrapId (some (.object o)) true = (some w, s) := by
        simp [State.wrapId, hid]
      unfold State.wrapFinalized
      rw [hwrapId]
      dsimp only
      have hwrapped : s.wraps w ≠ none := hne
      rw [if_pos (Option.isSome_iff_ne_none.mpr hwrapped)]
  · intro r hr w hw
    obtain ⟨o, ho, hids⟩ := hrecords.object r (Or.inl hr)
    refine ⟨o, ho, hids w hw, ?_⟩
    rw [unwrap_object, hids w hw]
    exact hlives.wrapped r hr w hw
  · intro r hr hgone hforgotten
    rcases hwatched.reach r hr with hf | hready | hqueue
    · exact absurd hf hforgotten
    · exact Or.inl hready
    · have hcell : s.registry.cells r.id ≠ none := by
        rw [ne_eq, hwatched.cells, hqueue]
        exact Option.some_ne_none _
      obtain ⟨o, ho⟩ := Option.ne_none_iff_exists'.mp hcell
      obtain ⟨o', ho', htarget⟩ := hgone
      rw [hwatched.target r.id o ho hqueue] at htarget
      cases htarget
      exact Or.inr ⟨_, ho', ho⟩

/-- **Wraps and finalizers** are kept in every run whose steps are `Safe`. -/
theorem wraps_and_finalizers {as : List Action} (hr : run step {} as = some s)
    (hsafe : AllSteps step Safe {} as) : Kept s := by
  have hinv : Inv s :=
    invariant_of_allSteps (fun _ _ _ hs hsafe hinv => step_inv hs hsafe hinv) hr hsafe init_inv
  exact hinv.kept

/-- An object is wrapped, unwrapped and wrapped again, and collected. The finalizer is deferred
    once. -/
def wrapsOne : Action := .wrapFinalized (some (.object 1)) 5 1 2 5 0

def oneCollected : List Action :=
  [wrapsOne, .removeWrap (some (.object 1)), wrapsOne, .collect 1, .report 2, .drain false, .refuse,
    .drain false, .enter, .finalizerReturns 0]

theorem oneCollected_kept : ∃ s, run step {} oneCollected = some s ∧ Kept s := by
  have hsafe : AllSteps step Safe {} oneCollected := by decide
  exact ⟨_, rfl, wraps_and_finalizers (show run step {} oneCollected = some _ from rfl) hsafe⟩

/-- The last successful call that wraps the object or removes its wrap. -/
def lastCall (o : ℕ) : List Event → Option ℕ
  | [] => none
  | .wrapped o' native :: log => if o' = o then some native else lastCall o log
  | .removed o' :: log => if o' = o then none else lastCall o log
  | .finalized _ :: log => lastCall o log
  | .accepted _ :: log => lastCall o log
  | .ran _ _ :: log => lastCall o log
  | .cancelled _ :: log => lastCall o log
  | .drained _ _ :: log => lastCall o log

/-- A forced drain runs the finalizer of an object that is still there, and that ends its wrap. -/
theorem forced_drain_unwraps : ¬ ∀ as s, run step {} as = some s → ∀ o,
    s.unwrap (some (.object o)) = lastCall o s.log := by
  intro h
  have hunwrap := h [wrapsOne, .drain true, .enter, .finalizerReturns 0] _
    (show run step {} [wrapsOne, .drain true, .enter, .finalizerReturns 0] = some _ from rfl) 1
  revert hunwrap
  decide

end WasmerNapi.HostJs.Finalizers
