import WasmerNapi.Guest.Exits

/-!
# Guest code after an exit

Nothing looks at `PENDING_GUEST_EXIT` when the engine calls into the guest, so a script that goes
on after one of its callbacks has exited starts the next one. As long as no guest function is
reached while an exit is pending, what is pending is the first exit, and the imports around it
raise that one.
-/

namespace WasmerNapi.Guest.Callback

open Run

variable {s s' : State} {a : Action} {frame : Import} {stack : List Frame}

/-- The first exit since guest code was entered. -/
def openExit : List Event → Option ExitCode
  | [] => none
  | .started _ :: log => openExit log
  | .exited code :: log => (openExit log).or (some code)
  | .returned r :: log => if r.outermost then none else openExit log

/-- No guest function is started after one has exited, before the outermost import returns with
    that exit. -/
def FirstExit : List Event → Prop
  | [] => True
  | .started _ :: log => openExit log = none ∧ FirstExit log
  | .exited _ :: log => FirstExit log
  | .returned r :: log => (r.outermost = true → r.raised = openExit log) ∧ FirstExit log

instance decidableFirstExit : (log : List Event) → Decidable (FirstExit log)
  | [] => isTrue trivial
  | .started _ :: log => have := decidableFirstExit log; inferInstanceAs (Decidable (_ ∧ _))
  | .exited _ :: log => decidableFirstExit log
  | .returned _ :: log => have := decidableFirstExit log; inferInstanceAs (Decidable (_ ∧ _))

/-- No guest function is reached while an exit is pending. -/
def StartsClean (s : State) : Action → Prop
  | .dispatch d => starts s d = true → s.pendingGuestExit = none
  | _ => True

/-- What is pending is the first exit, and it is pending only where the engine has the store. -/
structure Pends (s : State) : Prop where
  first : s.pendingGuestExit = openExit s.log
  guest : s.lent = false → s.pendingGuestExit = none

theorem pends_init : Pends {} := ⟨rfl, fun _ => rfl⟩

theorem pends_enters (h : Pends s) (hplaced : Placed s) (hguest : atGuest s.stack = true)
    (henters : Enters s frame s') : Pends s' := by
  have hlent : s.lent = false := hplaced.lent.trans (lendsTop_guest hguest)
  have hpending : s'.pendingGuestExit = none := henters.pending.trans (h.guest hlent)
  refine ⟨?_, fun _ => hpending⟩
  rw [henters.pending, henters.log]
  exact h.first

theorem pends_endGuest {env : ℕ} {exit : Option ExitCode} (h : Pends s)
    (hnone : s.pendingGuestExit = none) : Pends (s.endGuest env stack exit) := by
  obtain ⟨_, hlent, _, _, _, hpending, hlog⟩ := endGuest_eq s env stack exit
  constructor
  · rw [hpending, hlog, hnone]
    cases exit with
    | none => exact hnone.symm.trans h.first
    | some code =>
      show some code = (openExit s.log).or (some code)
      rw [← h.first, hnone]
      rfl
  · intro hfalse
    rw [hlent] at hfalse
    cases hfalse

/-- What an import raises that is not the outermost one is pending again at once. -/
theorem pends_leave (h : Pends s) (hplaced : Placed s) (hstack : s.stack = .bridge frame :: stack)
    (hquiet : (returned s frame stack).raised = none ∨ stack = [])
    (hout : stack = [] → (leave s frame stack).pendingGuestExit = none) :
    Pends (leave s frame stack) := by
  have hleft := leaveImport_left s frame stack
  have hpending : (leave s frame stack).pendingGuestExit =
      if frame.cbContext then none else s.pendingGuestExit := hleft.pending
  have hlog : openExit (leave s frame stack).log =
      if stack.isEmpty then none else openExit s.log := by
    show (if stack.isEmpty then none else openExit (s.leaveImport frame stack).log) = _
    rw [hleft.log]
  have hlent : s.lent = frame.lends := by
    rw [hplaced.lent, hstack]
    rfl
  constructor
  · rw [hlog]
    cases stack with
    | nil => exact hout rfl
    | cons f rest =>
      show (leave s frame (f :: rest)).pendingGuestExit = openExit s.log
      rw [hpending, ← h.first]
      cases hcb : frame.cbContext with
      | false => rfl
      | true =>
        -- nothing was pending, for nothing has been raised
        rcases hquiet with hnone | hnil
        · unfold returned at hnone
          rw [hcb] at hnone
          exact hnone.symm
        · cases hnil
  · intro hfalse
    rw [hpending]
    cases hlends : frame.lends with
    | true =>
      have hnested := hplaced.nested
      rw [hstack] at hnested
      rw [hnested.2.2.1 hlends]
      rfl
    | false =>
      rw [h.guest (hlent.trans hlends)]
      split <;> rfl

theorem outermost_leave (h : Delivers s) (hstack : s.stack = .bridge frame :: stack)
    (hnil : stack = []) : (leave s frame stack).pendingGuestExit = none := by
  have hsound := sound_returned h.placed h.installed h.stashed hstack
  exact hsound.outermost (List.isEmpty_iff.mpr hnil)

theorem pends_finish (h : Pends s) (hd : Delivers s) (hstack : s.stack = .bridge frame :: stack) :
    Pends (s.finish frame stack) := by
  have hnested := hd.placed.nested
  rw [hstack] at hnested
  rcases finish_cases s frame stack with ⟨heq, hquiet⟩ | ⟨code, env, rest, hraised, hrest, heq⟩
  · rw [heq]
    apply pends_leave h hd.placed hstack _ (outermost_leave hd hstack)
    rcases hquiet with hnone | hbridge | hnil
    · exact Or.inl hnone
    · rw [hnested.atGuest] at hbridge
      cases hbridge
    · exact Or.inr hnil
  · -- the import raises what was pending, and that ends the guest function around it
    have hleft := leaveImport_left s frame stack
    obtain ⟨_, hlent, _, _, _, hpending, hlog⟩ := endGuest_eq (leave s frame stack) env rest (some code)
    have hopen : openExit s.log = some code := by
      unfold returned at hraised
      cases hcb : frame.cbContext with
      | false =>
        rw [hcb] at hraised
        cases hraised
      | true =>
        rw [hcb] at hraised
        exact h.first.symm.trans hraised
    rw [heq]
    constructor
    · rw [hpending, hlog, hrest]
      show some code = (openExit (s.leaveImport frame (.guest env :: rest)).log).or (some code)
      rw [(leaveImport_left s frame _).log, hopen]
      rfl
    · intro hfalse
      rw [hlent] at hfalse
      cases hfalse

theorem firstExit_of_step (hs : step s a = some s') (h : FirstExit s'.log) : FirstExit s.log := by
  cases step_cases hs with
  | enters _ _ henters =>
    rw [henters.log] at h
    exact h
  | created _ _ => exact h
  | idle _ => exact h
  | started _ _ => exact h.2
  | ended hstack =>
    rename_i how env stack
    obtain ⟨_, _, _, _, _, _, hlog⟩ := endGuest_eq s env stack how.exit
    rw [hlog] at h
    cases hexit : how.exit with
    | none =>
      rw [hexit] at h
      exact h
    | some code =>
      rw [hexit] at h
      exact h
  | finished hstack =>
    rename_i frame stack
    have hleave : FirstExit (leave s frame stack).log → FirstExit s.log := by
      intro h
      have hlog := (leaveImport_left s frame stack).log
      rw [← hlog]
      exact h.2
    rcases finish_cases s frame stack with ⟨heq, _⟩ | ⟨code, env, rest, _, _, heq⟩
    · rw [heq] at h
      exact hleave h
    · rw [heq] at h
      exact hleave h

/-- What `FirstExit` needs of the state. -/
structure Exits (s : State) : Prop extends Delivers s where
  pends : FirstExit s.log → Pends s

theorem exits_step (hs : step s a = some s') (h : Exits s) : Exits s' := by
  refine ⟨delivers_step hs h.toDelivers, ?_⟩
  intro hfirst
  have hpends := h.pends (firstExit_of_step hs hfirst)
  cases step_cases hs with
  | enters hguest _ henters => exact pends_enters hpends h.placed hguest henters
  | created _ _ => exact ⟨hpends.first, hpends.guest⟩
  | idle _ => exact hpends
  | started _ _ =>
    have hnone : s.pendingGuestExit = none := hpends.first.trans hfirst.1
    exact ⟨hpends.first, fun _ => hnone⟩
  | ended hstack =>
    apply pends_endGuest hpends
    apply hpends.guest
    rw [h.placed.lent, hstack]
    rfl
  | finished hstack => exact pends_finish hpends h.toDelivers hstack

theorem firstExit_leave (h : Exits s) (hfirst : FirstExit s.log)
    (hstack : s.stack = .bridge frame :: stack) : FirstExit (leave s frame stack).log := by
  have hpends := h.pends hfirst
  have hlog := (leaveImport_left s frame stack).log
  show (_ → (returned s frame stack).raised = openExit (s.leaveImport frame stack).log) ∧
    FirstExit (s.leaveImport frame stack).log
  rw [hlog]
  refine ⟨?_, hfirst⟩
  intro _
  rw [← hpends.first]
  show (if frame.cbContext then s.pendingGuestExit else none) = s.pendingGuestExit
  cases hcb : frame.cbContext with
  | true => rfl
  | false =>
    -- it does not lend the store, so nothing has exited
    have hnested := h.placed.nested
    have hlent := h.placed.lent
    rw [hstack] at hnested hlent
    have hlends : frame.lends = false := by
      cases hl : frame.lends with
      | false => rfl
      | true => exact absurd (hnested.2.2.1 hl) (by rw [hcb]; exact Bool.false_ne_true)
    exact (hpends.guest (hlent.trans hlends)).symm

theorem firstExit_iff (hs : step s a = some s') (h : Exits s) (hfirst : FirstExit s.log) :
    FirstExit s'.log ↔ StartsClean s a := by
  cases step_cases hs with
  | enters hguest _ henters =>
    rw [henters.log]
    refine iff_of_true hfirst ?_
    cases a with
    | dispatch d =>
      intro _
      exact (h.pends hfirst).guest (h.placed.lent.trans (lendsTop_guest hguest))
    | _ => trivial
  | created _ _ => exact iff_of_true hfirst trivial
  | idle hstarts => exact iff_of_true hfirst fun h => absurd (hstarts.symm.trans h) Bool.false_ne_true
  | started _ hstarts =>
    have hpending := (h.pends hfirst).first
    constructor
    · intro h' _
      exact hpending.trans h'.1
    · intro hclean
      exact ⟨hpending.symm.trans (hclean hstarts), hfirst⟩
  | ended hstack =>
    rename_i how env stack
    refine iff_of_true ?_ trivial
    obtain ⟨_, _, _, _, _, _, hlog⟩ := endGuest_eq s env stack how.exit
    rw [hlog]
    cases how.exit with
    | none => exact hfirst
    | some code => exact hfirst
  | finished hstack =>
    rename_i frame stack
    refine iff_of_true ?_ trivial
    have hleave := firstExit_leave h hfirst hstack
    rcases finish_cases s frame stack with ⟨heq, _⟩ | ⟨code, env, rest, _, _, heq⟩
    · rw [heq]
      exact hleave
    · rw [heq]
      exact hleave

/-- **Guest code does not run after an exit**, and the exit that is delivered is the first one, in
    exactly the runs in which no guest function is reached while an exit is pending. -/
theorem firstExit_iff_startsClean {as : List Action} (hr : run step {} as = some s) :
    AllStates step (fun s => FirstExit s.log) {} as ↔ AllSteps step StartsClean {} as := by
  have hinit : Exits {} := ⟨delivers_init, fun _ => pends_init⟩
  have hinv : ∀ t b t', True → step t b = some t' → Exits t → Exits t' :=
    fun _ _ _ _ hs h => exits_step hs h
  have hiff : ∀ t b t', True → step t b = some t' → Exits t → FirstExit t.log →
      (FirstExit t'.log ↔ StartsClean t b) := fun _ _ _ _ hs h hf => firstExit_iff hs h hf
  let P : State → Prop := fun s => FirstExit s.log
  have hP : P {} := trivial
  exact allStates_iff_allSteps hinv hiff (fun _ _ => trivial) hr hinit hP

theorem seven_first : AllStates step (fun s => FirstExit s.log) {} exitsSeven ↔
    AllSteps step StartsClean {} exitsSeven :=
  firstExit_iff_startsClean (show run step {} exitsSeven = some _ from rfl)

/-- The script calls the guest again after a callback has exited, and the guest is entered. -/
theorem goesOn_not_first : ¬ ∀ as s, run step {} as = some s →
    AllStates step (fun s => FirstExit s.log) {} as := by
  intro h
  have hall := h goesOn _ (show run step {} goesOn = some _ from rfl)
  have hnot : ¬ AllStates step (fun s => FirstExit s.log) {} goesOn := by decide
  exact hnot hall

end WasmerNapi.Guest.Callback
