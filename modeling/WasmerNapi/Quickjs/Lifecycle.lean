import WasmerNapi.Quickjs.Owners

/-!
# The life of a hint

`Counted` ties the pending list, the flags of the hints and the numbers of calls and
destructions together. With `Owned` it is kept by every step that is `Safe`, and
`hints_finalized_once` is what it comes to. Three kinds of step are not: a callback that
transfers the very buffer whose detach called it, and a wrap whose property, on a proxy, throws
when it is defined or reads back as something else when it is removed. Each leaves a destroyed
hint with a carrier.
-/

namespace WasmerNapi.Quickjs.Hints

open Function (update update_self update_of_ne update_eq_self)
open Run State

/-- What has become of each hint. -/
structure Counted (s : State) : Prop where
  fault : s.fault = false
  late : s.late = false
  fresh : ∀ h, s.nextHint ≤ h →
    s.hints h = none ∧ s.runs h = 0 ∧ s.destroys h = 0 ∧ s.owed h = false
  nodup : s.pendingFinalizers.Nodup
  pending : ∀ h, h ∈ s.pendingFinalizers ↔
    ∃ x, s.hints h = some x ∧ x.finalizeCb = true ∧ x.finalizeInvoked = false
  detaching : ∀ h x, s.hints h = some x → x.detaching = false
  done : s.finalizersDone = true → s.pendingFinalizers = []
  running : ∀ k ∈ s.stack, ∀ h x, k.owns h = true → s.hints h = some x → x.finalizeInvoked = true
  alive : ∀ h x, s.hints h = some x → s.destroys h = 0 ∧
    s.runs h = (x.finalizeCb && x.finalizeInvoked).toNat ∧ (s.owed h = true → x.finalizeCb = true)
  gone : ∀ h, h < s.nextHint → s.hints h = none → s.destroys h = 1 ∧ s.runs h ≤ 1 ∧
    (s.owed h = true → s.runs h = 1)

section

variable {s : State} {fs : List Frame} {h : ℕ}

/-! ## Keeping count -/

variable {t : State}

/-- Whatever happens to objects, and to the frames that are on the stack already. -/
theorem Counted.of_eq (hc : Counted s) (hfault : t.fault = s.fault) (hlate : t.late = s.late)
    (hhints : t.hints = s.hints) (hnext : t.nextHint = s.nextHint)
    (hpending : t.pendingFinalizers = s.pendingFinalizers)
    (hdone : t.finalizersDone = true → s.finalizersDone = true ∨ s.pendingFinalizers = [])
    (hruns : t.runs = s.runs) (hdestroys : t.destroys = s.destroys) (howed : t.owed = s.owed)
    (hstack : ∀ k ∈ t.stack, ∀ h, k.owns h = true → k ∈ s.stack) : Counted t := by
  constructor
  · rw [hfault, hc.fault]
  · rw [hlate, hc.late]
  · rw [hnext, hhints, hruns, hdestroys, howed]
    exact hc.fresh
  · rw [hpending]
    exact hc.nodup
  · rw [hpending, hhints]
    exact hc.pending
  · rw [hhints]
    exact hc.detaching
  · intro hd
    rw [hpending]
    exact (hdone hd).elim hc.done id
  · rw [hhints]
    intro k hk h x hown
    exact hc.running k (hstack k hk h hown) h x hown
  · rw [hhints, hdestroys, hruns, howed]
    exact hc.alive
  · rw [hnext, hhints, hdestroys, hruns, howed]
    exact hc.gone

variable {x : Hint}

theorem Counted.runs_le (hc : Counted s) (hx : s.hints h = some x) : s.runs h ≤ 1 := by
  rw [(hc.alive h x hx).2.1]
  exact Bool.toNat_le _

theorem Counted.created (hc : Counted s) (hdone : s.finalizersDone = false)
    (hstack : ∀ k ∈ s.stack, k.owns s.nextHint = false) (finalizeCb : Bool) :
    Counted (s.createHint finalizeCb) := by
  obtain ⟨hfresh, hruns, hdestroys, -⟩ := hc.fresh _ le_rfl
  have hself : (s.createHint finalizeCb).hints s.nextHint = some { finalizeCb } :=
    update_self ..
  have hne : ∀ h', h' ≠ s.nextHint → (s.createHint finalizeCb).hints h' = s.hints h' :=
    fun h' hne => update_of_ne hne ..
  have howed : ∀ h', h' ≠ s.nextHint → (s.createHint finalizeCb).owed h' = s.owed h' :=
    fun h' hne => update_of_ne hne ..
  have hpending : (s.createHint finalizeCb).pendingFinalizers =
      if finalizeCb = true then s.nextHint :: s.pendingFinalizers else s.pendingFinalizers := by
    show (if _ then _ else _) = _
    rw [hdone, Bool.not_false, Bool.and_true]
  have hnotin : s.nextHint ∉ s.pendingFinalizers := by
    rw [hc.pending]
    rintro ⟨x, hx, _⟩
    rw [hfresh] at hx
    cases hx
  refine ⟨hc.fault, hc.late, ?_, ?_, ?_, ?_, ?_, ?_, ?_, ?_⟩
  · intro h' hle
    have hlt : s.nextHint + 1 ≤ h' := hle
    rw [hne h' (by omega), howed h' (by omega)]
    exact hc.fresh h' (by omega)
  · rw [hpending]
    split
    · exact List.nodup_cons.mpr ⟨hnotin, hc.nodup⟩
    · exact hc.nodup
  · intro h'
    rw [hpending]
    by_cases heq : h' = s.nextHint
    · subst heq
      rw [hself]
      cases finalizeCb with
      | true => exact iff_of_true List.mem_cons_self ⟨_, rfl, rfl, rfl⟩
      | false =>
        refine iff_of_false hnotin ?_
        rintro ⟨x, hx, hcb, _⟩
        cases hx
        cases hcb
    · rw [hne h' heq, ← hc.pending h']
      split
      · rw [List.mem_cons, or_iff_right heq]
      · exact Iff.rfl
  · intro h' x hx
    by_cases heq : h' = s.nextHint
    · rw [heq, hself] at hx
      cases hx
      rfl
    · rw [hne h' heq] at hx
      exact hc.detaching h' x hx
  · intro h'
    exact absurd (h'.symm.trans hdone) (by decide)
  · intro k hk h' x hown hx
    by_cases heq : h' = s.nextHint
    · rw [heq, hstack k hk] at hown
      cases hown
    · rw [hne h' heq] at hx
      exact hc.running k hk h' x hown hx
  · intro h' x hx
    by_cases heq : h' = s.nextHint
    · rw [heq, hself] at hx
      cases hx
      rw [heq]
      refine ⟨hdestroys, ?_, ?_⟩
      · rw [Bool.and_false]
        exact hruns
      · intro ho
        exact (update_self ..).symm.trans ho
    · rw [hne h' heq] at hx
      rw [howed h' heq]
      exact hc.alive h' x hx
  · intro h' hlt hnone
    have hlt : h' < s.nextHint + 1 := hlt
    by_cases heq : h' = s.nextHint
    · rw [heq, hself] at hnone
      cases hnone
    · rw [hne h' heq] at hnone
      rw [howed h' heq]
      exact hc.gone h' (by omega) hnone

/-- The record of a hint changes, and its callback does not. -/
theorem Counted.rewrite {x' : Hint} (hc : Counted s) (hx : s.hints h = some x)
    (hcb : x'.finalizeCb = x.finalizeCb) (hinv : x'.finalizeInvoked = x.finalizeInvoked)
    (hdet : x'.detaching = false) : Counted (s.setHint h x') := by
  have hself : (s.setHint h x').hints h = some x' := update_self ..
  have hne : ∀ h', h' ≠ h → (s.setHint h x').hints h' = s.hints h' :=
    fun h' hne => update_of_ne hne ..
  have hback : ∀ h' y, (s.setHint h x').hints h' = some y → ∃ z, s.hints h' = some z ∧
      y.finalizeCb = z.finalizeCb ∧ y.finalizeInvoked = z.finalizeInvoked ∧ y.detaching = false := by
    intro h' y hy
    by_cases heq : h' = h
    · subst heq
      rw [hself] at hy
      cases hy
      exact ⟨x, hx, hcb, hinv, hdet⟩
    · rw [hne h' heq] at hy
      exact ⟨y, hy, rfl, rfl, hc.detaching h' y hy⟩
  have hnone : ∀ h', (s.setHint h x').hints h' = none → s.hints h' = none := by
    intro h' hn
    by_cases heq : h' = h
    · rw [heq, hself] at hn
      cases hn
    · rw [hne h' heq] at hn
      exact hn
  refine ⟨hc.fault, hc.late, ?_, hc.nodup, ?_, ?_, hc.done, ?_, ?_, ?_⟩
  · intro h' hle
    obtain ⟨hfresh, hrest⟩ := hc.fresh h' hle
    have heq : h' ≠ h := by
      rintro rfl
      rw [hfresh] at hx
      cases hx
    rw [hne h' heq]
    exact ⟨hfresh, hrest⟩
  · intro h'
    refine (hc.pending h').trans ?_
    by_cases heq : h' = h
    · subst heq
      rw [hx, hself]
      constructor
      · rintro ⟨y, hy, hy₁, hy₂⟩
        cases hy
        exact ⟨x', rfl, hcb.trans hy₁, hinv.trans hy₂⟩
      · rintro ⟨y, hy, hy₁, hy₂⟩
        cases hy
        exact ⟨x, rfl, hcb.symm.trans hy₁, hinv.symm.trans hy₂⟩
    · rw [hne h' heq]
  · intro h' y hy
    obtain ⟨_, _, _, _, hd⟩ := hback h' y hy
    exact hd
  · intro k hk h' y hown hy
    obtain ⟨z, hz, _, hi, _⟩ := hback h' y hy
    rw [hi]
    exact hc.running k hk h' z hown hz
  · intro h' y hy
    obtain ⟨z, hz, hb, hi, _⟩ := hback h' y hy
    rw [hb, hi]
    exact hc.alive h' z hz
  · intro h' hlt hn
    exact hc.gone h' hlt (hnone h' hn)

/-- A hint is destroyed after its callback, or without one to come. -/
theorem Counted.destroyed (hc : Counted s) (hx : s.hints h = some x)
    (howed : s.owed h = true → s.runs h = 1) : Counted (s.destroy h) := by
  have ht : s.destroy h = { s with
      hints := update s.hints h none
      pendingFinalizers := s.pendingFinalizers.erase h
      destroys := update s.destroys h (s.destroys h + 1) } := by
    unfold State.destroy
    rw [hx]
  have hlt : h < s.nextHint := by
    by_contra hle
    rw [(hc.fresh h (not_lt.mp hle)).1] at hx
    cases hx
  rw [ht]
  have hne : ∀ h', h' ≠ h → update s.hints h none h' = s.hints h' :=
    fun h' hne => update_of_ne hne ..
  have hback : ∀ h' y, update s.hints h none h' = some y → h' ≠ h ∧ s.hints h' = some y := by
    intro h' y hy
    by_cases heq : h' = h
    · rw [heq, update_self] at hy
      cases hy
    · rw [hne h' heq] at hy
      exact ⟨heq, hy⟩
  refine ⟨hc.fault, hc.late, ?_, hc.nodup.erase h, ?_, ?_, ?_, ?_, ?_, ?_⟩
  · intro h' hle
    have heq : h' ≠ h := by
      rintro rfl
      exact absurd hlt (not_lt.mpr hle)
    show update s.hints h none h' = none ∧ _ ∧ update s.destroys h _ h' = 0 ∧ _
    rw [hne h' heq, update_of_ne heq]
    exact hc.fresh h' hle
  · intro h'
    show h' ∈ s.pendingFinalizers.erase h ↔ ∃ y, update s.hints h none h' = some y ∧ _
    rw [hc.nodup.mem_erase_iff]
    by_cases heq : h' = h
    · subst heq
      rw [update_self]
      refine iff_of_false (fun hp => hp.1 rfl) ?_
      rintro ⟨y, hy, _⟩
      cases hy
    · rw [hne h' heq, and_iff_right heq]
      exact hc.pending h'
  · intro h' y hy
    exact hc.detaching h' y (hback h' y hy).2
  · intro hd
    show s.pendingFinalizers.erase h = []
    rw [hc.done hd]
    rfl
  · intro k hk h' y hown hy
    exact hc.running k hk h' y hown (hback h' y hy).2
  · intro h' y hy
    obtain ⟨heq, hy⟩ := hback h' y hy
    show update s.destroys h _ h' = 0 ∧ _
    rw [update_of_ne heq]
    exact hc.alive h' y hy
  · intro h' hlt' hn
    show update s.destroys h _ h' = 1 ∧ _
    by_cases heq : h' = h
    · subst heq
      rw [update_self, (hc.alive h' x hx).1]
      exact ⟨rfl, hc.runs_le hx, howed⟩
    · have hn : update s.hints h none h' = none := hn
      rw [hne h' heq] at hn
      rw [update_of_ne heq]
      exact hc.gone h' hlt' hn

/-- The callback is called, by a frame that owns no other hint; or there is none. -/
theorem Counted.invoked (hc : Counted s) (hx : s.hints h = some x) (hfault : t.fault = false)
    (hlate : t.late = false) (hhints : t.hints = (s.invoked h x).hints)
    (hnext : t.nextHint = s.nextHint)
    (hpending : t.pendingFinalizers = (s.invoked h x).pendingFinalizers)
    (hdone : t.finalizersDone = s.finalizersDone)
    (hruns : t.runs = update s.runs h x.finalizeCb.toNat) (hdestroys : t.destroys = s.destroys)
    (howed : t.owed = s.owed)
    (hstack : ∀ k ∈ t.stack, ∀ h', k.owns h' = true → h' = h ∨ k ∈ s.stack) : Counted t := by
  have hself : t.hints h = some { x with finalizeInvoked := true, arrayBuffer := none } := by
    rw [hhints]
    exact update_self ..
  have hne : ∀ h', h' ≠ h → t.hints h' = s.hints h' := by
    intro h' hne
    rw [hhints]
    exact update_of_ne hne ..
  have hlt : h < s.nextHint := by
    by_contra hle
    rw [(hc.fresh h (not_lt.mp hle)).1] at hx
    cases hx
  have hruns' : ∀ h', h' ≠ h → t.runs h' = s.runs h' := by
    intro h' hne
    rw [hruns, update_of_ne hne]
  have hpend : t.pendingFinalizers = s.pendingFinalizers.erase h := hpending
  refine ⟨hfault, hlate, ?_, ?_, ?_, ?_, ?_, ?_, ?_, ?_⟩
  · intro h' hle
    rw [hnext] at hle
    have heq : h' ≠ h := by
      rintro rfl
      exact absurd hlt (not_lt.mpr hle)
    rw [hne h' heq, hruns' h' heq, hdestroys, howed]
    exact hc.fresh h' hle
  · rw [hpend]
    exact hc.nodup.erase h
  · intro h'
    rw [hpend, hc.nodup.mem_erase_iff]
    by_cases heq : h' = h
    · subst heq
      rw [hself]
      refine iff_of_false (fun hp => hp.1 rfl) ?_
      rintro ⟨y, hy, _, hy'⟩
      cases hy
      cases hy'
    · rw [hne h' heq, and_iff_right heq]
      exact hc.pending h'
  · intro h' y hy
    by_cases heq : h' = h
    · rw [heq, hself] at hy
      cases hy
      exact hc.detaching h x hx
    · rw [hne h' heq] at hy
      exact hc.detaching h' y hy
  · intro hd
    rw [hdone] at hd
    rw [hpend, hc.done hd]
    rfl
  · intro k hk h' y hown hy
    by_cases heq : h' = h
    · rw [heq, hself] at hy
      cases hy
      rfl
    · rw [hne h' heq] at hy
      rcases hstack k hk h' hown with habs | hmem
      · exact absurd habs heq
      · exact hc.running k hmem h' y hown hy
  · intro h' y hy
    rw [hdestroys, howed]
    by_cases heq : h' = h
    · subst heq
      rw [hself] at hy
      cases hy
      obtain ⟨hd, _, ho⟩ := hc.alive h' x hx
      rw [hruns, update_self, Bool.and_true]
      exact ⟨hd, rfl, ho⟩
    · rw [hne h' heq] at hy
      rw [hruns' h' heq]
      exact hc.alive h' y hy
  · intro h' hlt' hn
    rw [hnext] at hlt'
    have heq : h' ≠ h := by
      rintro rfl
      rw [hself] at hn
      cases hn
    rw [hne h' heq] at hn
    rw [hdestroys, hruns' h' heq, howed]
    exact hc.gone h' hlt' hn

theorem Counted.cleared (hc : Counted s) (o : ℕ) : Counted (s.clearWeak o) := by
  have hback : ∀ h' y, (s.clearWeak o).hints h' = some y → ∃ z, s.hints h' = some z ∧
      y.finalizeCb = z.finalizeCb ∧ y.finalizeInvoked = z.finalizeInvoked ∧
      y.detaching = z.detaching := by
    intro h' y hy
    obtain ⟨z, hz, rfl⟩ := Option.map_eq_some_iff.mp hy
    refine ⟨z, hz, ?_⟩
    split
    · exact ⟨rfl, rfl, rfl⟩
    · exact ⟨rfl, rfl, rfl⟩
  have hnone : ∀ h', (s.clearWeak o).hints h' = none ↔ s.hints h' = none := by
    intro h'
    exact Option.map_eq_none_iff
  refine ⟨hc.fault, hc.late, ?_, hc.nodup, ?_, ?_, hc.done, ?_, ?_, ?_⟩
  · intro h' hle
    rw [hnone]
    exact hc.fresh h' hle
  · intro h'
    refine (hc.pending h').trans ?_
    constructor
    · rintro ⟨z, hz, hcb, hi⟩
      refine ⟨_, Option.map_eq_some_iff.mpr ⟨z, hz, rfl⟩, ?_⟩
      split
      · exact ⟨hcb, hi⟩
      · exact ⟨hcb, hi⟩
    · rintro ⟨y, hy, hcb, hi⟩
      obtain ⟨z, hz, hcb', hi', _⟩ := hback h' y hy
      exact ⟨z, hz, hcb'.symm.trans hcb, hi'.symm.trans hi⟩
  · intro h' y hy
    obtain ⟨z, hz, _, _, hd⟩ := hback h' y hy
    rw [hd]
    exact hc.detaching h' z hz
  · intro k hk h' y hown hy
    obtain ⟨z, hz, _, hi, _⟩ := hback h' y hy
    rw [hi]
    exact hc.running k hk h' z hown hz
  · intro h' y hy
    obtain ⟨z, hz, hcb, hi, _⟩ := hback h' y hy
    rw [hcb, hi]
    exact hc.alive h' z hz
  · intro h' hlt hn
    exact hc.gone h' hlt ((hnone h').mp hn)

theorem Counted.waived (hc : Counted s) (h : ℕ) : Counted (s.waive h) := by
  have hle : ∀ h', (s.waive h).owed h' = true → s.owed h' = true := by
    intro h' ho
    by_cases heq : h' = h
    · have : update s.owed h false h' = true := ho
      rw [heq, update_self] at this
      cases this
    · exact (update_of_ne heq ..).symm.trans ho
  refine { hc with fresh := ?_, alive := ?_, gone := ?_ }
  · intro h' hle'
    obtain ⟨h₁, h₂, h₃, h₄⟩ := hc.fresh h' hle'
    refine ⟨h₁, h₂, h₃, ?_⟩
    rw [Bool.eq_false_iff]
    intro ho
    rw [hle h' ho] at h₄
    cases h₄
  · intro h' x hx
    obtain ⟨h₁, h₂, h₃⟩ := hc.alive h' x hx
    exact ⟨h₁, h₂, fun ho => h₃ (hle h' ho)⟩
  · intro h' hlt hn
    obtain ⟨h₁, h₂, h₃⟩ := hc.gone h' hlt hn
    exact ⟨h₁, h₂, fun ho => h₃ (hle h' ho)⟩

/-! ## The operations -/

structure Tended (s : State) (fs : List Frame) : Prop where
  owned : Owned s fs
  counted : Counted s

theorem destroy_eq (hx : s.hints h = some x) :
    s.destroy h = { s with
      hints := update s.hints h none
      pendingFinalizers := s.pendingFinalizers.erase h
      destroys := update s.destroys h (s.destroys h + 1) } := by
  unfold State.destroy
  rw [hx]

theorem mem_erase_of_ne' {h' : ℕ} (hne : h' ≠ h) {l : List ℕ} (hp : h' ∈ l) : h' ∈ l.erase h :=
  (List.mem_erase_of_ne hne).mpr hp

/-- The owner in between destroys a hint whose callback is not to come. -/
theorem Tended.destroyed (ht : Tended s (.finalizer h :: fs)) (hx : s.hints h = some x)
    (howed : s.owed h = true → s.runs h = 1) : Tended (s.destroy h) fs := by
  refine ⟨?_, ht.counted.destroyed hx howed⟩
  refine ht.owned.destroyed ?_
  rw [destroy_eq hx]
  exact ⟨rfl, rfl, rfl, rfl, fun _ hne hp => mem_erase_of_ne' hne hp⟩

theorem Counted.owed_runs (hc : Counted s) (hx : s.hints h = some x)
    (hinv : x.finalizeInvoked = true ∨ x.finalizeCb = false) (ho : s.owed h = true) :
    s.runs h = 1 := by
  obtain ⟨_, hruns, howed⟩ := hc.alive h x hx
  rcases hinv with hinv | hcb
  · rw [hruns, howed ho, hinv]
    rfl
  · have := howed ho
    rw [hcb] at this
    cases this

theorem Counted.marked (hc : Counted s) (buffer : Option ℕ) : Counted (s.markDetached buffer) := by
  cases buffer with
  | none => exact hc
  | some b => exact hc.of_eq rfl rfl rfl rfl rfl .inl rfl rfl rfl fun k hk _ _ => hk

theorem destroy_markDetached (s : State) (h : ℕ) (buffer : Option ℕ) :
    (s.destroy h).markDetached buffer = (s.markDetached buffer).destroy h := by
  cases buffer with
  | none => rfl
  | some b =>
    unfold State.destroy State.markDetached
    dsimp only [State.setObject]
    cases s.hints h with
    | none => rfl
    | some x => rfl

variable {k : Frame}

/-- The callers that have the hint to destroy. -/
theorem Tended.after (ht : Tended s (k :: fs)) (hk : k.owns h = true) (hx : s.hints h = some x)
    (hinv : x.finalizeInvoked = true ∨ x.finalizeCb = false) :
    Tended (s.after k) fs := by
  have howed := ht.counted.owed_runs hx hinv
  cases k with
  | finalizer h' =>
    obtain rfl : h' = h := of_decide_eq_true hk
    exact ht.destroyed hx howed
  | release h' buffer =>
    obtain rfl : h' = h := of_decide_eq_true hk
    show Tended ((s.destroy h').markDetached buffer) fs
    rw [destroy_markDetached]
    cases buffer with
    | none => exact (Tended.mk (owned_release_iff.mp ht.owned) ht.counted).destroyed hx howed
    | some b =>
      exact (Tended.mk ht.owned.marked (ht.counted.marked (some b))).destroyed hx howed
  | teardown h' released =>
    obtain ⟨rfl, hh⟩ : released = true ∧ decide (h' = h) = true := Bool.and_eq_true_iff.mp hk
    obtain rfl : h' = h := of_decide_eq_true hh
    exact (Tended.mk (owned_teardown_iff.mp ht.owned) ht.counted).destroyed hx howed
  | hook => cases hk
  | wrapFailed h' => cases hk
  | preparing phase => cases hk

/-- The frames `invoke_finalizer` is called from: one that owns its hint, or the teardown of a
    hint that still has a carrier. -/
def Frame.Calls (k : Frame) (h : ℕ) (x : Hint) : Prop :=
  (∀ h', k.owns h' = true → h' = h) ∧
    (k.owns h = true ∨ k = .teardown h false ∧ x.released = false)

/-- A frame that has no hint to destroy just goes. -/
theorem Tended.after_idle (ht : Tended s (k :: fs)) (hk : k = .teardown h false) :
    Tended (s.after k) fs := by
  subst hk
  refine ⟨(Owned.cons_idle ?_).mp ht.owned, ht.counted⟩
  intro h'
  rfl

theorem Tended.after_calls {y : Hint} (ht : Tended s (k :: fs)) (hk : k.Calls h x)
    (hy : s.hints h = some y) (hinv : y.finalizeInvoked = true ∨ y.finalizeCb = false) :
    Tended (s.after k) fs := by
  rcases hk.2 with hown | ⟨hidle, _⟩
  · exact ht.after hown hy hinv
  · exact ht.after_idle hidle

theorem Owned.invoked (ho : Owned s (k :: fs)) (hx : s.hints h = some x) (hk : k.Calls h x) :
    Owned (s.invoked h x) (k :: fs) := by
  refine ho.rewrite hx ⟨rfl, rfl, rfl, rfl, fun _ hne hp => mem_erase_of_ne' hne hp⟩ (.inl rfl) ?_ nofun
  intro hr _ _
  rcases hk.2 with hown | ⟨_, hr'⟩
  · exact .inl ⟨k, List.mem_cons_self, hown⟩
  · rw [hr] at hr'
    cases hr'

/-- What has yet to run is pending, and nothing is once the finalizers are done. -/
theorem Counted.not_done (hc : Counted s) (hx : s.hints h = some x) (hcb : x.finalizeCb = true)
    (hinv : x.finalizeInvoked = false) : s.finalizersDone = false := by
  rw [Bool.eq_false_iff]
  intro hd
  have hp := (hc.pending h).mpr ⟨x, hx, hcb, hinv⟩
  rw [hc.done hd] at hp
  cases hp

theorem stack_after (s : State) (k : Frame) : (s.after k).stack = s.stack := by
  have hdestroy : ∀ (s : State) h, (s.destroy h).stack = s.stack := by
    intro s h
    unfold State.destroy
    split <;> rfl
  cases k with
  | finalizer h => exact hdestroy s h
  | release h buffer =>
    cases buffer with
    | none => exact hdestroy s h
    | some b => exact hdestroy s h
  | teardown h released =>
    cases released with
    | false => rfl
    | true => exact hdestroy s h
  | hook => rfl
  | wrapFailed h => rfl
  | preparing phase => rfl

/-- `invoke_finalizer`: its caller goes on at once, or the callback is on top. -/
theorem Tended.invoke (ht : Tended s (k :: s.stack)) (hx : s.hints h = some x) (hk : k.Calls h x) :
    Tended (s.invokeFinalizer h k) (s.invokeFinalizer h k).stack := by
  have hself : (s.invoked h x).hints h =
      some { x with finalizeInvoked := true, arrayBuffer := none } := update_self ..
  unfold State.invokeFinalizer
  rw [hx]
  dsimp only
  by_cases hinv : x.finalizeInvoked = true
  · rw [if_pos hinv, stack_after]
    exact ht.after_calls hk hx (.inl hinv)
  · rw [if_neg hinv]
    rw [Bool.not_eq_true] at hinv
    have hruns := (ht.counted.alive h x hx).2.1
    rw [hinv, Bool.and_false] at hruns
    have ho := ht.owned.invoked hx hk
    by_cases hcb : x.finalizeCb = true
    · have hdone := ht.counted.not_done hx hcb hinv
      rw [if_neg (by rw [hcb, hdone]; decide)]
      refine ⟨?_, ?_⟩
      · exact { ho with }
      · refine ht.counted.invoked hx ht.counted.fault ?_ rfl rfl rfl rfl ?_ rfl rfl ?_
        · show (s.late || s.finalizersDone) = false
          rw [ht.counted.late, hdone]
          rfl
        · rw [hcb, hruns]
          rfl
        · intro k' hk' h' hown
          rcases List.mem_cons.mp hk' with rfl | hk'
          · exact .inl (hk.1 h' hown)
          · exact .inr hk'
    · rw [Bool.not_eq_true] at hcb
      rw [if_pos (by rw [hcb]; rfl), stack_after]
      have hc : Counted (s.invoked h x) := by
        refine ht.counted.invoked hx ht.counted.fault ht.counted.late rfl rfl rfl rfl ?_ rfl rfl ?_
        · rw [hcb]
          show s.runs = update s.runs h 0
          rw [Bool.toNat_false] at hruns
          rw [← hruns, update_eq_self]
        · intro k' hk' _ _
          exact .inr hk'
      exact (Tended.mk ho hc).after_calls hk hself (.inl rfl)

def Frame.isCallback : Frame → Bool
  | .finalizer _ | .release _ _ | .teardown _ _ => true
  | .hook | .wrapFailed _ | .preparing _ => false

/-- What the operations leave of the rest: at most a callback comes on top, and none does once
    the finalizers are done. -/
structure Kept (s t : State) : Prop where
  finalizersDone : t.finalizersDone = s.finalizersDone
  tornDown : t.tornDown = s.tornDown
  stack : t.stack = s.stack ∨
    s.finalizersDone = false ∧ ∃ k : Frame, k.isCallback = true ∧ t.stack = k :: s.stack

/-- One operation. -/
structure Keeps (s t : State) : Prop where
  tended : Tended t t.stack
  kept : Kept s t

theorem kept_after (s : State) (k : Frame) : Kept s (s.after k) := by
  have hdestroy : ∀ (s : State) h, Kept s (s.destroy h) := by
    intro s h
    unfold State.destroy
    split
    · exact ⟨rfl, rfl, .inl rfl⟩
    · exact ⟨rfl, rfl, .inl rfl⟩
  cases k with
  | finalizer h => exact hdestroy s h
  | release h buffer =>
    have := hdestroy s h
    cases buffer with
    | none => exact this
    | some b => exact { this with }
  | teardown h released =>
    cases released with
    | false => exact ⟨rfl, rfl, .inl rfl⟩
    | true => exact hdestroy s h
  | hook => exact ⟨rfl, rfl, .inl rfl⟩
  | wrapFailed h => exact ⟨rfl, rfl, .inl rfl⟩
  | preparing phase => exact ⟨rfl, rfl, .inl rfl⟩

theorem kept_invoke (s : State) (h : ℕ) (hk : k.isCallback = true) :
    Kept s (s.invokeFinalizer h k) := by
  unfold State.invokeFinalizer
  split
  · exact ⟨rfl, rfl, .inl rfl⟩
  · split
    · exact kept_after s k
    · split
      · have := kept_after (s.invoked h ‹_›) k
        exact { this with }
      · rename_i hcond
        refine ⟨rfl, rfl, .inr ⟨?_, k, hk, rfl⟩⟩
        rw [Bool.eq_false_iff]
        intro hd
        rw [hd, Bool.or_true] at hcond
        exact hcond rfl

/-- Two operations, of which the first leaves the stack alone. -/
theorem Keeps.before {u : State} (h : Keeps t u) (h₁ : t.finalizersDone = s.finalizersDone)
    (h₂ : t.tornDown = s.tornDown) (h₃ : t.stack = s.stack) : Keeps s u := by
  refine ⟨h.tended, h.kept.finalizersDone.trans h₁, h.kept.tornDown.trans h₂, ?_⟩
  rw [← h₃, ← h₁]
  exact h.kept.stack

theorem Tended.keeps_invoke (ht : Tended s (k :: s.stack)) (hx : s.hints h = some x)
    (hk : k.Calls h x) (hcb : k.isCallback = true) :
    Keeps s (s.invokeFinalizer h k) :=
  ⟨ht.invoke hx hk, kept_invoke s h hcb⟩

theorem calls_of_owns (hk : ∀ h', k.owns h' = decide (h = h')) :
    k.Calls h x := by
  refine ⟨?_, .inl ((hk h).trans (decide_eq_true rfl))⟩
  intro h' hown
  rw [hk h'] at hown
  exact (of_decide_eq_true hown).symm

theorem invoke_finalizer_keeps (ht : Tended s (.finalizer h :: s.stack)) (hx : s.hints h = some x) :
    Keeps s (s.invokeFinalizer h (.finalizer h)) :=
  ht.keeps_invoke hx (calls_of_owns fun _ => rfl) rfl

/-- `release_array_buffer` for a buffer that is gone. -/
theorem release_freed_keeps (ht : Tended s (.finalizer h :: s.stack)) (hx : s.hints h = some x)
    (hrel : x.released = false) :
    Keeps s (s.releaseArrayBuffer h none) := by
  have hself : (s.setHint h { x with released := true }).hints h =
      some { x with released := true } := update_self ..
  have ho : Owned (s.setHint h { x with released := true }) (.finalizer h :: s.stack) := by
    refine ht.owned.rewrite hx ⟨rfl, rfl, rfl, rfl, fun _ _ hp => hp⟩
      (.inr ⟨rfl, ht.owned.no_carrier⟩) ?_ ?_
    · intro _ hp _
      exact .inr ⟨rfl, hp⟩
    · intro b hb
      exact ht.owned.tracked h x b hx hb
  have hdet := ht.counted.detaching h x hx
  have hc : Counted (s.setHint h { x with released := true }) :=
    ht.counted.rewrite hx rfl rfl hdet
  unfold State.releaseArrayBuffer
  rw [hx]
  dsimp only
  rw [if_neg (by rw [hrel]; decide)]
  split
  · rename_i hcond
    simp only [hdet, Bool.false_or, Bool.and_eq_true, decide_eq_true_eq] at hcond
    exact ⟨⟨ho.deferred hself rfl hcond.1.1 hcond.1.2, hc⟩, rfl, rfl, .inl rfl⟩
  · have ht' : Tended (s.setHint h { x with released := true }) (.release h none :: s.stack) :=
      ⟨owned_release_iff.mpr ho, hc⟩
    exact (ht'.keeps_invoke hself (calls_of_owns fun _ => rfl) rfl).before rfl rfl rfl

/-- `JS_DetachArrayBuffer`. -/
theorem detach_keeps (ht : Tended s s.stack) (b : ℕ) : Keeps s (s.detach b) := by
  have hsame : Keeps s s := ⟨ht, rfl, rfl, .inl rfl⟩
  unfold State.detach
  split
  · rename_i h hobj
    have hsh : s.hintOf b = some h := by
      unfold State.hintOf
      rw [hobj]
      rfl
    obtain ⟨x, hx⟩ := ht.owned.live b h hsh
    have hdet := ht.counted.detaching h x hx
    unfold State.releaseArrayBuffer
    rw [hx]
    dsimp only
    by_cases hrel : x.released = true
    · rw [if_pos hrel]
      have hmem : Frame.release h (some b) ∈ s.stack := by
        rcases ht.owned.alone b h x hsh hx with hmem | ⟨hr, _⟩
        · exact hmem
        · rw [hrel] at hr
          cases hr
      exact ⟨⟨ht.owned.marked_again hmem, ht.counted.marked _⟩, rfl, rfl, .inl rfl⟩
    · rw [if_neg hrel]
      rw [Bool.not_eq_true] at hrel
      have hself : (s.setHint h { x with released := true }).hints h =
          some { x with released := true } := update_self ..
      have ho := ht.owned.held hobj hx hrel
      have hc : Counted (s.setHint h { x with released := true }) :=
        ht.counted.rewrite hx rfl rfl hdet
      split
      · rename_i hcond
        simp only [hdet, Bool.false_or, Bool.and_eq_true, decide_eq_true_eq] at hcond
        exact ⟨⟨ho.marked.deferred hself rfl hcond.1.1 hcond.1.2, hc.marked _⟩, rfl, rfl, .inl rfl⟩
      · exact ((Tended.mk ho hc).keeps_invoke hself (calls_of_owns fun _ => rfl) rfl).before
          rfl rfl rfl
  · exact hsame

/-- An object that is not being detached dies. -/
theorem die_keeps (ht : Tended s s.stack) {o : ℕ} (hdet : ¬ s.detaching o) : Keeps s (s.die o) := by
  have hdet' : ∀ h, Frame.release h (some o) ∉ s.stack := fun h hmem => hdet ⟨h, hmem⟩
  unfold State.die
  split
  · exact ⟨ht, rfl, rfl, .inl rfl⟩
  · rename_i obj hobj
    have ho := ht.owned.cleared o
    have hc := ht.counted.cleared o
    have hsw := swapped_setObject (s.clearWeak o) o none
    have hc' : Counted ((s.clearWeak o).setObject o none) :=
      hc.of_eq rfl rfl rfl rfl rfl .inl rfl rfl rfl fun k hk _ _ => hk
    have hweak : ∀ h x, (s.clearWeak o).hints h = some x → x.arrayBuffer ≠ some o :=
      fun _ _ hx => clearWeak_arrayBuffer s o hx
    dsimp only
    split
    · rename_i hh
      exact ⟨⟨ho.dropped hobj hh hdet' hweak, hc'⟩, rfl, rfl, .inl rfl⟩
    · rename_i h hh
      have ht' : Tended ((s.clearWeak o).setObject o none) (.finalizer h :: s.stack) :=
        ⟨ho.take hobj hh hdet' hsw rfl (.inr ⟨rfl, hweak⟩), hc'⟩
      have hsh : (s.clearWeak o).hintOf o = some h := by
        show (s.objects o).bind Object.hint = some h
        rw [hobj]
        exact hh
      obtain ⟨x, hx⟩ := ho.live o h hsh
      split
      · have hrel : x.released = false := by
          rcases ho.alone o h x hsh hx with hmem | ⟨hr, _⟩
          · exact absurd hmem (hdet' h)
          · exact hr
        exact (release_freed_keeps ht' hx hrel).before rfl rfl rfl
      · exact (invoke_finalizer_keeps ht' hx).before rfl rfl rfl

/-- The memory of a buffer moves to a new one. -/
theorem transfer_keeps (ht : Tended s s.stack) {b : ℕ}
    (hsafe : s.hintOf b = none ∨ ¬ s.detaching b) : Keeps s (s.transfer b) := by
  unfold State.transfer
  split
  · rename_i h hobj
    have hsh : s.hintOf b = some h := by
      unfold State.hintOf
      rw [hobj]
      rfl
    have hdet : ¬ s.detaching b := by
      rcases hsafe with hnone | hdet
      · rw [hsh] at hnone
        cases hnone
      · exact hdet
    obtain ⟨x, hx⟩ := ht.owned.live b h hsh
    have hrel : x.released = false := by
      rcases ht.owned.alone b h x hsh hx with hmem | ⟨hr, _⟩
      · exact absurd ⟨h, hmem⟩ hdet
      · exact hr
    have hmid := ht.owned.take hobj rfl (fun h' hmem => hdet ⟨h', hmem⟩)
      (swapped_setObject s b (some ⟨.buffer, none⟩)) rfl (.inl rfl)
    refine ⟨⟨?_, ?_⟩, rfl, rfl, .inl rfl⟩
    · refine hmid.give hx hrel (swapped_carry _ .buffer h) ?_ (.inl (hmid.fresh _ le_rfl))
      intro o' hle
      have hlt : s.nextObject + 1 ≤ o' := hle
      exact ⟨Nat.ne_of_gt hlt, hmid.fresh o' (Nat.le_of_succ_le hlt)⟩
    · exact ht.counted.of_eq rfl rfl rfl rfl rfl .inl rfl rfl rfl fun k hk _ _ => hk
  · exact ⟨ht, rfl, rfl, .inl rfl⟩

/-- A new hint, in between. -/
theorem Tended.created (ht : Tended s s.stack) (hdone : s.finalizersDone = false)
    (finalizeCb : Bool) :
    Tended (s.createHint finalizeCb) (.finalizer s.nextHint :: s.stack) := by
  have hfresh := (ht.counted.fresh _ le_rfl).1
  refine ⟨ht.owned.created hfresh finalizeCb, ht.counted.created hdone ?_ finalizeCb⟩
  intro k hk
  rw [Bool.eq_false_iff]
  intro hown
  obtain ⟨x, hx⟩ := ht.owned.framed k hk _ hown
  rw [hfresh] at hx
  cases hx

/-- A new object takes it. -/
theorem Tended.carried {kind : Kind} (ht : Tended s (.finalizer h :: fs)) (hx : s.hints h = some x)
    (hrel : x.released = false) : Tended (s.carry kind h) fs := by
  refine ⟨ht.owned.give hx hrel (swapped_carry s kind h) ?_ (.inl (ht.owned.fresh _ le_rfl)), ?_⟩
  · intro o' hle
    have hlt : s.nextObject + 1 ≤ o' := hle
    exact ⟨Nat.ne_of_gt hlt, ht.owned.fresh o' (Nat.le_of_succ_le hlt)⟩
  · exact ht.counted.of_eq rfl rfl rfl rfl rfl .inl rfl rfl rfl fun k hk _ _ => hk

theorem hints_createHint (s : State) (finalizeCb : Bool) :
    (s.createHint finalizeCb).hints s.nextHint = some { finalizeCb } :=
  update_self ..

theorem createExternal_keeps (ht : Tended s s.stack) (hdone : s.finalizersDone = false)
    (finalizeCb : Bool) : Keeps s (s.createExternal finalizeCb) :=
  ⟨(ht.created hdone finalizeCb).carried (hints_createHint s finalizeCb) rfl, rfl, rfl, .inl rfl⟩

theorem createArraybuffer_keeps (ht : Tended s s.stack) (hdone : s.finalizersDone = false)
    (finalizeCb tracked : Bool) : Keeps s (s.createArraybuffer finalizeCb tracked) := by
  have ht' : Tended ((s.createHint finalizeCb).carry .buffer s.nextHint) s.stack :=
    (ht.created hdone finalizeCb).carried (hints_createHint s finalizeCb) rfl
  have hx : ((s.createHint finalizeCb).carry .buffer s.nextHint).hints s.nextHint =
      some { finalizeCb } := hints_createHint s finalizeCb
  unfold State.createArraybuffer
  dsimp only
  split
  · unfold State.trackArrayBuffer
    rw [hx]
    dsimp only
    split
    · exact ⟨ht', rfl, rfl, .inl rfl⟩
    · refine ⟨⟨?_, ht'.counted.rewrite hx rfl rfl rfl⟩, rfl, rfl, .inl rfl⟩
      refine ht'.owned.rewrite hx ⟨rfl, rfl, rfl, rfl, fun _ _ hp => hp⟩ (.inl rfl) nofun ?_
      intro b hb
      cases hb
      exact ⟨some s.nextHint, update_self .., .inr rfl⟩
  · exact ⟨ht', rfl, rfl, .inl rfl⟩

/-- A hint goes before its callback, and the callback is not expected any more. -/
theorem waive_destroy_keeps (ht : Tended s (.finalizer h :: s.stack)) (hx : s.hints h = some x) :
    Keeps s ((s.waive h).destroy h) := by
  have ho := ht.owned
  have hw : Tended (s.waive h) (.finalizer h :: s.stack) :=
    ⟨{ ho with }, ht.counted.waived h⟩
  have hd : Tended ((s.waive h).destroy h) s.stack := by
    refine hw.destroyed hx ?_
    intro howed
    exact absurd ((update_self ..).symm.trans howed) Bool.false_ne_true
  have hk := kept_after (s.waive h) (.finalizer h)
  have hstack : ((s.waive h).destroy h).stack = s.stack := stack_after (s.waive h) (.finalizer h)
  refine ⟨?_, hk.finalizersDone, hk.tornDown, .inl hstack⟩
  rw [hstack]
  exact hd

theorem createFailed_keeps (ht : Tended s s.stack) (hdone : s.finalizersDone = false)
    (finalizeCb : Bool) : Keeps s (s.createFailed finalizeCb) :=
  (waive_destroy_keeps (ht.created hdone finalizeCb) (hints_createHint s finalizeCb)).before
    rfl rfl rfl

theorem wrap_keeps (ht : Tended s s.stack) (hdone : s.finalizersDone = false) (finalizeCb : Bool)
    {outcome : Outcome} (hsafe : outcome ≠ .threw) : Keeps s (s.wrap finalizeCb outcome) := by
  have ht' := ht.created hdone finalizeCb
  have hx := hints_createHint s finalizeCb
  cases outcome with
  | attached => exact ⟨ht'.carried hx rfl, rfl, rfl, .inl rfl⟩
  | refused => exact (invoke_finalizer_keeps ht' hx).before rfl rfl rfl
  | threw => exact absurd rfl hsafe

theorem wrapRecord_keeps (ht : Tended s s.stack) (hdone : s.finalizersDone = false)
    {finalizeCb : Bool} {r : ℕ} (h : s.wrapRecord finalizeCb r = some t) : Keeps s t := by
  have ht' := ht.created hdone finalizeCb
  have hx := hints_createHint s finalizeCb
  unfold State.wrapRecord at h
  split at h
  · rename_i hobj
    cases h
    refine ⟨⟨?_, ?_⟩, rfl, rfl, .inl rfl⟩
    · refine ht'.owned.give hx rfl (swapped_setObject _ r _) ?_ (.inr hobj)
      intro o' hle
      have hnone := ht.owned.fresh o' hle
      refine ⟨?_, hnone⟩
      rintro rfl
      rw [hobj] at hnone
      cases hnone
    · exact ht'.counted.of_eq rfl rfl rfl rfl rfl .inl rfl rfl rfl fun k hk _ _ => hk
  · cases h

theorem removeWrap_keeps (ht : Tended s s.stack) {r : ℕ} (h : s.removeWrap r true = some t) :
    Keeps s t := by
  unfold State.removeWrap at h
  split at h
  · rename_i h₀ hobj
    have hsh : s.hintOf r = some h₀ := by
      unfold State.hintOf
      rw [hobj]
      rfl
    obtain ⟨x, hx⟩ := ht.owned.live r h₀ hsh
    rw [hx] at h
    dsimp only at h
    split at h
    · cases h
      exact ⟨ht, rfl, rfl, .inl rfl⟩
    · rename_i hinv
      cases h
      -- A record is not a buffer, so it is not being detached.
      have hdet : ∀ h', Frame.release h' (some r) ∉ s.stack := by
        intro h' hmem
        obtain ⟨_, hint, hobj', _⟩ := ht.owned.detached h' r hmem
        rw [hobj] at hobj'
        cases hobj'
      have ho := ht.owned.take hobj rfl hdet (swapped_setObject s r (some ⟨.record, none⟩)) rfl (.inl rfl)
      have hc : Counted (s.setObject r (some ⟨.record, none⟩)) :=
        ht.counted.of_eq rfl rfl rfl rfl rfl .inl rfl rfl rfl fun k hk _ _ => hk
      exact (waive_destroy_keeps (Tended.mk ho hc) hx).before rfl rfl rfl
  · cases h

/-! ## Teardown -/

/-- A pending hint is not about to be destroyed by a frame on the stack. -/
theorem Tended.pending_free (ht : Tended s s.stack) (hp : h ∈ s.pendingFinalizers) :
    ∃ x, s.hints h = some x ∧ x.finalizeInvoked = false ∧ ∀ k ∈ s.stack, k.owns h = false := by
  obtain ⟨x, hx, _, hinv⟩ := (ht.counted.pending h).mp hp
  refine ⟨x, hx, hinv, ?_⟩
  intro k hk
  rw [Bool.eq_false_iff]
  intro hown
  rw [ht.counted.running k hk h x hown hx] at hinv
  cases hinv

/-- The call of `finalize_at_teardown`, once the buffer is detached. -/
theorem teardown_call_keeps (ht : Tended s s.stack) (hx : s.hints h = some x)
    (hall : ∀ k ∈ s.stack, k.owns h = false) :
    Keeps s (s.invokeFinalizer h (.teardown h x.released)) := by
  cases hr : x.released with
  | true =>
    have ht' : Tended s (.teardown h true :: s.stack) :=
      ⟨owned_teardown_iff.mpr (ht.owned.resumed hx hr hall), ht.counted⟩
    exact ht'.keeps_invoke hx (calls_of_owns fun _ => rfl) rfl
  | false =>
    have ht' : Tended s (.teardown h false :: s.stack) :=
      ⟨(Owned.cons_idle fun _ => rfl).mpr ht.owned, ht.counted⟩
    refine ht'.keeps_invoke hx ⟨?_, .inr ⟨rfl, hr⟩⟩ rfl
    intro h' hown
    cases hown

theorem setHint_setHint (s : State) (h : ℕ) (x y : Hint) :
    (s.setHint h x).setHint h y = s.setHint h y := by
  unfold State.setHint
  dsimp only
  rw [Function.update_idem]

theorem setHint_self (hx : s.hints h = some x) : s.setHint h x = s := by
  unfold State.setHint
  rw [← hx, update_eq_self]

theorem setHint_markDetached (s : State) (h b : ℕ) (x : Hint) :
    (s.markDetached (some b)).setHint h x = (s.setHint h x).markDetached (some b) := rfl

/-- The buffer is detached by the teardown itself. -/
theorem detached_call_keeps {b : ℕ} (ht : Tended s s.stack) (hx : s.hints h = some x)
    (hobj : s.objects b = some ⟨.buffer, some h⟩) (hrel : x.released = false) :
    Keeps s (((s.setHint h { x with released := true }).markDetached (some b)).invokeFinalizer h
      (.teardown h true)) := by
  have hself : (s.setHint h { x with released := true }).hints h =
      some { x with released := true } := update_self ..
  have hc : Counted (s.setHint h { x with released := true }) :=
    ht.counted.rewrite hx rfl rfl (ht.counted.detaching h x hx)
  have ho := owned_teardown_iff.mpr (ht.owned.held hobj hx hrel).marked
  have ht' : Tended ((s.setHint h { x with released := true }).markDetached (some b))
      (.teardown h true :: s.stack) := ⟨ho, hc.marked (some b)⟩
  exact (ht'.keeps_invoke hself (calls_of_owns fun _ => rfl) rfl).before rfl rfl rfl

theorem finalizeAtTeardown_keeps (ht : Tended s s.stack) (hp : h ∈ s.pendingFinalizers) :
    Keeps s (s.finalizeAtTeardown h) := by
  obtain ⟨x, hx, hinv, hall⟩ := ht.pending_free hp
  have hdet := ht.counted.detaching h x hx
  have hback : { x with detaching := false } = x := by
    rw [← hdet]
  unfold State.finalizeAtTeardown
  rw [hx]
  dsimp only
  split
  · rw [hx]
    exact teardown_call_keeps ht hx hall
  · rename_i b hb
    obtain ⟨hint, hobj, rfl | rfl⟩ := ht.owned.tracked h x b hx hb
    · -- The memory has moved to another buffer, or gone.
      have hd : (s.setHint h { x with detaching := true }).detach b =
          s.setHint h { x with detaching := true } := by
        unfold State.detach
        have : (s.setHint h { x with detaching := true }).objects b = some ⟨.buffer, none⟩ := hobj
        rw [this]
      have hh : (s.setHint h { x with detaching := true }).hints h =
          some { x with detaching := true } := update_self ..
      rw [hd, hh]
      dsimp only
      rw [setHint_setHint, hback, setHint_self hx, hx]
      exact teardown_call_keeps ht hx hall
    · have hsh : s.hintOf b = some h := by
        unfold State.hintOf
        rw [hobj]
        rfl
      have hrel : x.released = false := by
        rcases ht.owned.alone b h x hsh hx with hmem | ⟨hr, _⟩
        · have := hall _ hmem
          simp [Frame.owns] at this
        · exact hr
      have hd : (s.setHint h { x with detaching := true }).detach b =
          (s.setHint h { x with detaching := true, released := true }).markDetached (some b) := by
        unfold State.detach
        have : (s.setHint h { x with detaching := true }).objects b = some ⟨.buffer, some h⟩ := hobj
        rw [this]
        dsimp only
        unfold State.releaseArrayBuffer
        have hh : (s.setHint h { x with detaching := true }).hints h =
            some { x with detaching := true } := update_self ..
        rw [hh]
        dsimp only
        rw [if_neg (by rw [hrel]; decide), Bool.true_or, if_pos rfl, setHint_setHint]
      have hh : ((s.setHint h { x with detaching := true, released := true }).markDetached
          (some b)).hints h = some { x with detaching := true, released := true } :=
        update_self ..
      rw [hd, hh]
      dsimp only
      rw [setHint_markDetached, setHint_setHint]
      have hh' : ((s.setHint h { x with detaching := false, released := true }).markDetached
          (some b)).hints h = some { x with detaching := false, released := true } :=
        update_self ..
      rw [hh']
      have hback' : ({ x with detaching := false, released := true } : Hint) =
          { x with released := true } := by
        rw [← hdet]
      rw [hback']
      exact detached_call_keeps ht hx hobj hrel

/-- Where `prepare_teardown` can be. Only the frame on top is past its loops, and nothing is
    pending there. -/
structure Staged (s : State) : Prop where
  exiting : s.finalizersDone = true → s.tornDown = false →
    s.stack.head? = some (.preparing .done)
  finished : s.stack.head? = some (.preparing .done) → s.finalizersDone = true
  emptied : ∀ phase, s.stack.head? = some (.preparing phase) →
    phase = .instanceData ∨ phase = .finish → s.pendingFinalizers = []
  below : ∀ phase, .preparing phase ∈ s.stack.tail → phase = .hooks ∨ phase = .values
  wrapped : ∀ h, .wrapFailed h ∉ s.stack

theorem head_ne_preparing (hu : s.userRuns = true) (phase : Phase) :
    s.stack.head? ≠ some (.preparing phase) := by
  intro hh
  unfold State.userRuns at hu
  cases hs : s.stack with
  | nil =>
    rw [hs] at hh
    cases hh
  | cons k fs =>
    rw [hs] at hh hu
    cases hh
    cases hu

/-- While user code runs, the finalizers are done only once the env is torn down. -/
theorem Staged.not_done (hst : Staged s) (hu : s.userRuns = true) (htd : s.tornDown = false) :
    s.finalizersDone = false := by
  rw [Bool.eq_false_iff]
  intro hd
  exact head_ne_preparing hu _ (hst.exiting hd htd)

theorem mem_tail_of_head (hk : k ∈ s.stack) (hh : s.stack.head? ≠ some k) :
    k ∈ s.stack.tail := by
  cases hs : s.stack with
  | nil =>
    rw [hs] at hk
    cases hk
  | cons k' fs =>
    rw [hs] at hk hh
    rcases List.mem_cons.mp hk with rfl | hk
    · exact absurd rfl hh
    · exact hk

/-- What user code does leaves the teardown below it where it is. -/
theorem Staged.of_kept (hst : Staged s) (hk : Kept s t) (hu : s.userRuns = true) :
    Staged t := by
  have hhead := head_ne_preparing hu
  have hhead' : ∀ phase, t.stack.head? ≠ some (.preparing phase) := by
    intro phase hh
    rcases hk.stack with hs | ⟨_, k, hcb, hs⟩
    · rw [hs] at hh
      exact hhead phase hh
    · rw [hs] at hh
      cases hh
      cases hcb
  refine ⟨?_, fun hh => absurd hh (hhead' _), fun phase hh => absurd hh (hhead' phase), ?_, ?_⟩
  · intro hd htd
    rw [hk.finalizersDone] at hd
    rw [hk.tornDown] at htd
    exact absurd (hst.exiting hd htd) (hhead _)
  · intro phase hm
    rcases hk.stack with hs | ⟨_, k, hcb, hs⟩
    · rw [hs] at hm
      exact hst.below phase hm
    · rw [hs] at hm
      exact hst.below phase (mem_tail_of_head hm (hhead phase))
  · intro h hm
    rcases hk.stack with hs | ⟨_, k, hcb, hs⟩
    · rw [hs] at hm
      exact hst.wrapped h hm
    · rw [hs] at hm
      rcases List.mem_cons.mp hm with rfl | hm
      · cases hcb
      · exact hst.wrapped h hm

structure Inv (s : State) : Prop where
  tended : Tended s s.stack
  staged : Staged s

theorem Inv.of_keeps (hi : Inv s) (hk : Keeps s t) (hu : s.userRuns = true) : Inv t :=
  ⟨hk.tended, hi.staged.of_kept hk.kept hu⟩

/-- The callback on top returns. -/
theorem ret_tended (ht : Tended s s.stack) (hs : s.stack = k :: fs) (hk : k.owns h = true)
    (hx : s.hints h = some x) :
    Tended ({ s with stack := fs }.after k) fs := by
  have hmem : ∀ k' ∈ fs, k' ∈ s.stack := by
    intro k' hk'
    rw [hs]
    exact List.mem_cons_of_mem _ hk'
  have hinv := ht.counted.running k (by rw [hs]; exact List.mem_cons_self) h x hk hx
  have ht' : Tended { s with stack := fs } (k :: fs) := by
    refine ⟨?_, ?_⟩
    · rw [← hs]
      exact ht.owned.of_eq rfl rfl rfl rfl id
    · exact ht.counted.of_eq rfl rfl rfl rfl rfl .inl rfl rfl rfl fun k' hk' _ _ => hmem k' hk'
  exact ht'.after hk hx (.inl hinv)

/-- A frame that owns nothing goes, or comes. -/
theorem Tended.pop (ht : Tended s s.stack) (hs : s.stack = k :: fs) (hk : ∀ h, k.owns h = false) :
    Tended { s with stack := fs } fs := by
  refine ⟨?_, ?_⟩
  · have ho := ht.owned
    rw [hs, Owned.cons_idle hk] at ho
    exact ho.of_eq rfl rfl rfl rfl id
  · refine ht.counted.of_eq rfl rfl rfl rfl rfl .inl rfl rfl rfl fun k' hk' _ _ => ?_
    rw [hs]
    exact List.mem_cons_of_mem _ hk'

theorem Staged.pop (hst : Staged s) (hs : s.stack = k :: fs) (hk : ∀ phase, k ≠ .preparing phase)
    (hdone : t.finalizersDone = s.finalizersDone) (htorn : t.tornDown = s.tornDown)
    (hstack : t.stack = fs) : Staged t := by
  have htail : ∀ phase, Frame.preparing phase ∈ fs → phase = .hooks ∨ phase = .values := by
    intro phase hm
    refine hst.below phase ?_
    rw [hs]
    exact hm
  have hhead : ∀ phase, t.stack.head? = some (.preparing phase) → phase = .hooks ∨ phase = .values := by
    intro phase hh
    rw [hstack] at hh
    exact htail phase (List.mem_of_mem_head? (Option.mem_def.mpr hh))
  refine ⟨?_, ?_, ?_, ?_, ?_⟩
  · intro hd htd
    rw [hdone] at hd
    rw [htorn] at htd
    have := hst.exiting hd htd
    rw [hs] at this
    exact absurd (Option.some.inj this) (hk _)
  · intro hh
    rcases hhead _ hh with heq | heq <;> cases heq
  · intro phase hh hor
    rcases hhead phase hh with rfl | rfl
    · rcases hor with hor | hor <;> cases hor
    · rcases hor with hor | hor <;> cases hor
  · intro phase hm
    rw [hstack] at hm
    exact htail phase (List.mem_of_mem_tail hm)
  · intro h hm
    rw [hstack] at hm
    refine hst.wrapped h ?_
    rw [hs]
    exact List.mem_cons_of_mem _ hm

theorem ret_inv (hi : Inv s) (h : ret s = some t) : Inv t := by
  have hkept : ∀ fs k, Kept { s with stack := fs } ({ s with stack := fs }.after k) :=
    fun fs k => kept_after _ k
  have hstack : ∀ fs k, ({ s with stack := fs }.after k).stack = fs := fun fs k => stack_after _ k
  have hlive : ∀ k fs h, s.stack = k :: fs → k.owns h = true → ∃ x, s.hints h = some x := by
    intro k fs h hs hown
    exact hi.tended.owned.framed k (by rw [hs]; exact List.mem_cons_self) h hown
  -- A callback that has its hint to destroy.
  have howning : ∀ k fs h, s.stack = k :: fs → k.owns h = true → (∀ phase, k ≠ .preparing phase) →
      Inv ({ s with stack := fs }.after k) := by
    intro k fs h hs hown hne
    obtain ⟨x, hx⟩ := hlive k fs h hs hown
    refine ⟨?_, hi.staged.pop hs hne (hkept fs k).finalizersDone (hkept fs k).tornDown (hstack fs k)⟩
    rw [hstack]
    exact ret_tended hi.tended hs hown hx
  have hidle : ∀ k fs, s.stack = k :: fs → (∀ h, k.owns h = false) →
      (∀ phase, k ≠ .preparing phase) → Inv { s with stack := fs } := by
    intro k fs hs hown hne
    exact ⟨hi.tended.pop hs hown, hi.staged.pop hs hne rfl rfl rfl⟩
  unfold ret at h
  split at h
  · rename_i fs hs
    cases h
    exact hidle _ fs hs (fun _ => rfl) nofun
  · rename_i h₀ fs hs
    cases h
    exact howning _ fs h₀ hs (decide_eq_true rfl) nofun
  · rename_i h₀ buffer fs hs
    cases h
    exact howning _ fs h₀ hs (decide_eq_true rfl) nofun
  · rename_i h₀ released fs hs
    cases h
    cases released with
    | true => exact howning _ fs h₀ hs (decide_eq_true rfl) nofun
    | false => exact hidle _ fs hs (fun _ => rfl) nofun
  · cases h

theorem Owned.append_idle {ks : List Frame} (hks : ∀ k ∈ ks, ∀ h, k.owns h = false)
    (ho : Owned s fs) : Owned s (ks ++ fs) := by
  induction ks with
  | nil => exact ho
  | cons k ks ih =>
    rw [List.forall_mem_cons] at hks
    exact (Owned.cons_idle hks.1).mpr (ih hks.2)

/-- `prepare_teardown` goes on: the frames it leaves on top own nothing. -/
theorem Tended.retop (ht : Tended s s.stack) (ks : List Frame) (hs : s.stack = k :: fs)
    (hk : ∀ h, k.owns h = false) (hks : ∀ k ∈ ks, ∀ h, k.owns h = false)
    (hstack : t.stack = ks ++ fs) (hhints : t.hints = s.hints) (hobjects : t.objects = s.objects)
    (hnext : t.nextObject = s.nextObject) (hnextHint : t.nextHint = s.nextHint)
    (hpending : t.pendingFinalizers = s.pendingFinalizers) (hclosing : t.closing = s.closing)
    (hfault : t.fault = s.fault) (hlate : t.late = s.late)
    (hdone : t.finalizersDone = true → s.finalizersDone = true ∨ s.pendingFinalizers = [])
    (hruns : t.runs = s.runs) (hdestroys : t.destroys = s.destroys) (howed : t.owed = s.owed) :
    Tended t t.stack := by
  refine ⟨?_, ?_⟩
  · have ho := ht.owned
    rw [hs, Owned.cons_idle hk] at ho
    rw [hstack]
    exact (ho.append_idle hks).of_eq hhints hobjects hnext hpending fun hcl => hclosing.trans hcl
  · refine ht.counted.of_eq hfault hlate hhints hnextHint hpending hdone hruns hdestroys howed ?_
    intro k' hk' h hown
    rw [hstack] at hk'
    rcases List.mem_append.mp hk' with hk' | hk'
    · rw [hks k' hk' h] at hown
      cases hown
    · rw [hs]
      exact List.mem_cons_of_mem _ hk'

/-- A phase follows a phase. -/
theorem Inv.phase {phase phase' : Phase} (hi : Inv s) (hs : s.stack = .preparing phase :: fs)
    (ht : t = { s with stack := .preparing phase' :: fs }) (hne : phase ≠ .done)
    (hne' : phase' ≠ .done)
    (hempty : phase' = .instanceData ∨ phase' = .finish → s.pendingFinalizers = []) : Inv t := by
  subst ht
  have htail := hi.staged.below
  rw [hs] at htail
  refine ⟨?_, ?_, ?_, ?_, ?_, ?_⟩
  · refine hi.tended.retop [.preparing phase'] hs (fun _ => rfl) ?_ rfl rfl rfl rfl rfl rfl
      rfl rfl rfl .inl rfl rfl rfl
    intro k hk h
    rw [List.mem_singleton.mp hk]
    rfl
  · intro hd htd
    have := hi.staged.exiting hd htd
    rw [hs] at this
    cases this
    exact absurd rfl hne
  · intro hh
    cases hh
    exact absurd rfl hne'
  · intro phase'' hh hor
    cases hh
    exact hempty hor
  · exact htail
  · intro h hm
    rcases List.mem_cons.mp hm with heq | hm
    · cases heq
    · refine hi.staged.wrapped h ?_
      rw [hs]
      exact List.mem_cons_of_mem _ hm

/-- A hook is called. -/
theorem Inv.hook {phase : Phase} (hi : Inv s) (hs : s.stack = .preparing phase :: fs)
    (hstack : t.stack = .hook :: .preparing .hooks :: fs) (hne : phase ≠ .done)
    (hhints : t.hints = s.hints) (hobjects : t.objects = s.objects)
    (hnext : t.nextObject = s.nextObject) (hnextHint : t.nextHint = s.nextHint)
    (hpending : t.pendingFinalizers = s.pendingFinalizers) (hclosing : t.closing = s.closing)
    (hfault : t.fault = s.fault) (hlate : t.late = s.late)
    (hdone : t.finalizersDone = s.finalizersDone) (htorn : t.tornDown = s.tornDown)
    (hruns : t.runs = s.runs) (hdestroys : t.destroys = s.destroys) (howed : t.owed = s.owed) :
    Inv t := by
  have htail := hi.staged.below
  rw [hs] at htail
  refine ⟨?_, ?_, ?_, ?_, ?_, ?_⟩
  · refine hi.tended.retop [.hook, .preparing .hooks] hs (fun _ => rfl) ?_ hstack hhints
      hobjects hnext hnextHint hpending hclosing hfault hlate (fun hd => .inl (hdone.symm.trans hd))
      hruns hdestroys howed
    intro k hk h
    rcases List.mem_cons.mp hk with rfl | hk
    · rfl
    · rw [List.mem_singleton.mp hk]
      rfl
  · intro hd htd
    rw [hdone] at hd
    rw [htorn] at htd
    have := hi.staged.exiting hd htd
    rw [hs] at this
    cases this
    exact absurd rfl hne
  · intro hh
    rw [hstack] at hh
    cases hh
  · intro phase' hh
    rw [hstack] at hh
    cases hh
  · intro phase' hm
    rw [hstack] at hm
    rcases List.mem_cons.mp hm with heq | hm
    · cases heq
      exact .inl rfl
    · exact htail phase' hm
  · intro h hm
    rw [hstack] at hm
    have : Frame.wrapFailed h ∈ fs := by
      rcases List.mem_cons.mp hm with heq | hm
      · cases heq
      · rcases List.mem_cons.mp hm with heq | hm
        · cases heq
        · exact hm
    refine hi.staged.wrapped h ?_
    rw [hs]
    exact List.mem_cons_of_mem _ this

theorem abandonAll_eq (h : s.pendingFinalizers = []) : s.abandonAll = s := by
  unfold State.abandonAll
  rw [h]
  simp only [List.not_mem_nil, if_false]
  rw [← h]

theorem prepare_inv {phase : Phase} (hi : Inv s) (hs : s.stack = .preparing phase :: fs) :
    Inv (s.prepare fs phase) := by
  have htail := hi.staged.below
  rw [hs] at htail
  have hwrapped : ∀ h, Frame.wrapFailed h ∉ fs := by
    intro h hm
    refine hi.staged.wrapped h ?_
    rw [hs]
    exact List.mem_cons_of_mem _ hm
  cases phase with
  | hooks =>
    unfold State.prepare
    dsimp only
    split
    · refine hi.phase hs rfl (by decide) (by decide) ?_
      rintro (h | h) <;> cases h
    · exact hi.hook hs rfl (by decide) rfl rfl rfl rfl rfl rfl rfl rfl rfl rfl rfl rfl rfl
  | check =>
    unfold State.prepare
    dsimp only
    split
    · rename_i hp
      exact hi.phase hs rfl (by decide) (by decide) fun _ => hp
    · refine hi.phase hs rfl (by decide) (by decide) ?_
      rintro (h | h) <;> cases h
  | values =>
    unfold State.prepare
    dsimp only
    split
    · refine hi.phase hs rfl (by decide) (by decide) ?_
      rintro (h | h) <;> cases h
    · rename_i h _ hp
      have hk := finalizeAtTeardown_keeps hi.tended (h := h) (by rw [hp]; exact List.mem_cons_self)
      refine ⟨hk.tended, ?_, ?_, ?_, ?_, ?_⟩
      · intro hd htd
        rw [hk.kept.finalizersDone] at hd
        rw [hk.kept.tornDown] at htd
        have := hi.staged.exiting hd htd
        rw [hs] at this
        cases this
      · intro hh
        rcases hk.kept.stack with hst | ⟨_, k, hcb, hst⟩
        · rw [hst, hs] at hh
          cases hh
        · rw [hst] at hh
          cases hh
          cases hcb
      · intro phase hh hor
        rcases hk.kept.stack with hst | ⟨_, k, hcb, hst⟩
        · rw [hst, hs] at hh
          cases hh
          rcases hor with hor | hor <;> cases hor
        · rw [hst] at hh
          cases hh
          cases hcb
      · intro phase hm
        rcases hk.kept.stack with hst | ⟨_, k, hcb, hst⟩
        · rw [hst, hs] at hm
          exact htail phase hm
        · rw [hst, hs] at hm
          rcases List.mem_cons.mp hm with heq | hm
          · cases heq
            exact .inr rfl
          · exact htail phase hm
      · intro h' hm
        rcases hk.kept.stack with hst | ⟨_, k, hcb, hst⟩
        · rw [hst] at hm
          exact hi.staged.wrapped h' hm
        · rw [hst] at hm
          rcases List.mem_cons.mp hm with rfl | hm
          · cases hcb
          · exact hi.staged.wrapped h' hm
  | instanceData =>
    have hp := hi.staged.emptied .instanceData (by rw [hs]; rfl) (.inl rfl)
    unfold State.prepare
    dsimp only
    split
    · exact hi.hook hs rfl (by decide) rfl rfl rfl rfl rfl rfl rfl rfl rfl rfl rfl rfl rfl
    · exact hi.phase hs rfl (by decide) (by decide) fun _ => hp
  | finish =>
    have hp := hi.staged.emptied .finish (by rw [hs]; rfl) (.inr rfl)
    unfold State.prepare
    dsimp only
    rw [abandonAll_eq hp]
    refine ⟨?_, ?_, ?_, ?_, ?_, ?_⟩
    · refine hi.tended.retop [.preparing .done] hs (fun _ => rfl) ?_ rfl rfl rfl rfl rfl rfl
        rfl rfl rfl (fun _ => .inr hp) rfl rfl rfl
      intro k hk h
      rw [List.mem_singleton.mp hk]
      rfl
    · intro _ _
      rfl
    · intro _
      rfl
    · intro phase hh hor
      cases hh
      rcases hor with hor | hor <;> cases hor
    · exact htail
    · intro h hm
      rcases List.mem_cons.mp hm with heq | hm
      · cases heq
      · exact hwrapped h hm
  | done =>
    unfold State.prepare
    dsimp only
    have hhead : ∀ phase, fs.head? = some (.preparing phase) → phase = .hooks ∨ phase = .values :=
      fun phase hh => htail phase (List.mem_of_mem_head? (Option.mem_def.mpr hh))
    refine ⟨?_, nofun, ?_, ?_, ?_, ?_⟩
    · refine hi.tended.retop [] hs (fun _ => rfl) ?_ rfl rfl rfl rfl rfl rfl
        rfl rfl rfl .inl rfl rfl rfl
      intro k hk
      cases hk
    · intro hh
      rcases hhead _ hh with heq | heq <;> cases heq
    · intro phase hh hor
      rcases hhead phase hh with rfl | rfl
      · rcases hor with hor | hor <;> cases hor
      · rcases hor with hor | hor <;> cases hor
    · intro phase hm
      exact htail phase (List.mem_of_mem_tail hm)
    · exact hwrapped

/-! ## Runs -/

/-- The steps that leave no destroyed hint with a carrier. A callback must not transfer the
    buffer whose detach it runs in; and what a wrap defines on an object must not throw there,
    nor read back as another value. -/
def Safe (s : State) : Act → Prop
  | .transfer b => s.hintOf b = none ∨ ¬ s.detaching b
  | .wrap _ outcome => outcome ≠ .threw
  | .removeWrap _ cleared => cleared = true
  | _ => True

instance decidableSafe (s : State) : ∀ a, Decidable (Safe s a)
  | .transfer b => inferInstanceAs (Decidable (s.hintOf b = none ∨ ¬ s.detaching b))
  | .wrap _ outcome => inferInstanceAs (Decidable (outcome ≠ .threw))
  | .removeWrap _ cleared => inferInstanceAs (Decidable (cleared = true))
  | .createExternal _ | .createArraybuffer _ _ | .createFailed _ | .wrapRecord _ _ | .detach _
  | .die _ | .addCleanupHook | .setInstanceData _ | .release | .ret | .tick => isTrue trivial

theorem tick_inv (hi : Inv s) (h : tick s = some t) : Inv t := by
  unfold tick at h
  split at h
  · rename_i phase fs hs
    cases h
    exact prepare_inv hi hs
  · rename_i h₀ fs hs
    refine absurd ?_ (hi.staged.wrapped h₀)
    rw [hs]
    exact List.mem_cons_self
  · cases h

/-- The release begins. -/
theorem release_inv (hi : Inv s) (hu : s.userRuns = true) :
    Inv { s with releasing := true, closing := true, stack := .preparing .hooks :: s.stack } := by
  have hhead := head_ne_preparing hu
  refine ⟨⟨?_, ?_⟩, ?_, nofun, ?_, ?_, ?_⟩
  · exact ((Owned.cons_idle fun _ => rfl).mpr hi.tended.owned).of_eq rfl rfl rfl rfl fun _ => rfl
  · refine hi.tended.counted.of_eq rfl rfl rfl rfl rfl .inl rfl rfl rfl ?_
    intro k hk h hown
    rcases List.mem_cons.mp hk with rfl | hk
    · cases hown
    · exact hk
  · intro hd htd
    exact absurd (hi.staged.exiting hd htd) (hhead _)
  · intro phase hh hor
    cases hh
    rcases hor with hor | hor <;> cases hor
  · intro phase hm
    exact hi.staged.below phase (mem_tail_of_head hm (hhead phase))
  · intro h hm
    rcases List.mem_cons.mp hm with heq | hm
    · cases heq
    · exact hi.staged.wrapped h hm

/-- Objects die under user code, or while the teardown ends. -/
theorem die_inv (hi : Inv s) {o : ℕ} (hf : s.engineFrees = true) (hdet : ¬ s.detaching o) :
    Inv (s.die o) := by
  have hk := die_keeps hi.tended hdet
  rcases Bool.or_eq_true_iff.mp hf with hu | hh
  · exact hi.of_keeps hk hu
  · have hhead : s.stack.head? = some (.preparing .done) := beq_iff_eq.mp hh
    have hstack : (s.die o).stack = s.stack := by
      rcases hk.kept.stack with hst | ⟨hd, _⟩
      · exact hst
      · rw [hi.staged.finished hhead] at hd
        cases hd
    refine ⟨hk.tended, ?_, ?_, ?_, ?_, ?_⟩
    · intro _ _
      rw [hstack, hhead]
    · intro _
      rw [hk.kept.finalizersDone, hi.staged.finished hhead]
    · intro phase hp hor
      rw [hstack, hhead] at hp
      cases hp
      rcases hor with hor | hor <;> cases hor
    · rw [hstack]
      exact hi.staged.below
    · rw [hstack]
      exact hi.staged.wrapped

theorem step_inv {a : Act} (hi : Inv s) (hsafe : Safe s a) (h : step s a = some t) :
    Inv t := by
  unfold step at h
  have huser : ∀ {o : Option State}, (if (!s.userRuns) = true then none else o) = some t →
      s.userRuns = true ∧ o = some t := by
    intro o ho
    split at ho
    · cases ho
    · rename_i hu
      rw [Bool.not_eq_true', Bool.not_eq_false] at hu
      exact ⟨hu, ho⟩
  -- What the env makes while it has its context.
  have hmake : ∀ {u : State}, s.userRuns = true → (s.finalizersDone = false → Keeps s u) →
      some (if s.tornDown = true then s else u) = some t → Inv t := by
    intro u hu hk heq
    cases heq
    split
    · exact hi
    · rename_i htd
      exact hi.of_keeps (hk (hi.staged.not_done hu (Bool.eq_false_iff.mpr htd))) hu
  cases a with
  | ret => exact ret_inv hi h
  | tick => exact tick_inv hi h
  | die o =>
    dsimp only at h
    split at h
    · rename_i hcond
      cases h
      exact die_inv hi hcond.1 hcond.2
    · cases h
  | createExternal cb =>
    obtain ⟨hu, h⟩ := huser h
    exact hmake hu (fun hd => createExternal_keeps hi.tended hd cb) h
  | createArraybuffer cb tracked =>
    obtain ⟨hu, h⟩ := huser h
    exact hmake hu (fun hd => createArraybuffer_keeps hi.tended hd cb tracked) h
  | createFailed cb =>
    obtain ⟨hu, h⟩ := huser h
    exact hmake hu (fun hd => createFailed_keeps hi.tended hd cb) h
  | wrap cb outcome =>
    obtain ⟨hu, h⟩ := huser h
    exact hmake hu (fun hd => wrap_keeps hi.tended hd cb hsafe) h
  | wrapRecord cb r =>
    obtain ⟨hu, h⟩ := huser h
    dsimp only at h
    split at h
    · cases h
      exact hi
    · rename_i htd
      have hd := hi.staged.not_done hu (Bool.eq_false_iff.mpr htd)
      exact hi.of_keeps (wrapRecord_keeps hi.tended hd h) hu
  | removeWrap r cleared =>
    obtain ⟨hu, h⟩ := huser h
    have hc : cleared = true := hsafe
    subst hc
    dsimp only at h
    split at h
    · cases h
      exact hi
    · exact hi.of_keeps (removeWrap_keeps hi.tended h) hu
  | detach b =>
    obtain ⟨hu, h⟩ := huser h
    cases h
    exact hi.of_keeps (detach_keeps hi.tended b) hu
  | transfer b =>
    obtain ⟨hu, h⟩ := huser h
    cases h
    exact hi.of_keeps (transfer_keeps hi.tended hsafe) hu
  | addCleanupHook =>
    obtain ⟨hu, h⟩ := huser h
    cases h
    exact hi.of_keeps ⟨⟨hi.tended.owned.of_eq rfl rfl rfl rfl id, hi.tended.counted.of_eq rfl rfl rfl
      rfl rfl .inl rfl rfl rfl fun k hk _ _ => hk⟩, rfl, rfl, .inl rfl⟩ hu
  | setInstanceData present =>
    obtain ⟨hu, h⟩ := huser h
    cases h
    exact hi.of_keeps ⟨⟨hi.tended.owned.of_eq rfl rfl rfl rfl id, hi.tended.counted.of_eq rfl rfl rfl
      rfl rfl .inl rfl rfl rfl fun k hk _ _ => hk⟩, rfl, rfl, .inl rfl⟩ hu
  | release =>
    obtain ⟨hu, h⟩ := huser h
    dsimp only at h
    split at h
    · cases h
      exact hi
    · cases h
      exact release_inv hi hu

theorem init_inv : Inv {} := by
  refine ⟨⟨?_, ?_⟩, ?_⟩
  · exact ⟨fun _ _ => rfl, nofun, nofun, nofun, nofun, fun _ => Nat.zero_le _, nofun, nofun, nofun⟩
  · refine ⟨rfl, rfl, fun _ _ => ⟨rfl, rfl, rfl, rfl⟩, List.nodup_nil, ?_, nofun, fun _ => rfl, nofun, nofun, ?_⟩
    · intro h
      refine iff_of_false List.not_mem_nil ?_
      rintro ⟨x, hx, _⟩
      cases hx
    · intro h hlt
      exact absurd hlt (Nat.not_lt_zero h)
  · exact ⟨nofun, nofun, nofun, nofun, fun _ => List.not_mem_nil⟩

/-- The object that carries the hint is gone. -/
def Dead (s : State) (h : ℕ) : Prop := h < s.nextHint ∧ ∀ o, s.hintOf o ≠ some h

/-- The env is being released and has not come to the end of its finalizers. -/
def Releasing (s : State) : Prop := s.closing = true ∧ s.finalizersDone = false

/-- What a hint's life should look like, for all of them at once. -/
structure Finalized (s : State) : Prop where
  /-- A callback is called at most once, and not after `finalizers_done`. -/
  atMostOnce : ∀ h, s.runs h ≤ 1
  notLate : s.late = false
  /-- One that was not given up has been, when the object is dead or the env released. -/
  onceDead : ∀ h, Dead s h → ¬ Releasing s → s.owed h = true → s.runs h = 1
  onceReleased : ∀ h, s.finalizersDone = true → s.owed h = true → s.runs h = 1
  /-- A hint is destroyed at most once and not used afterwards, … -/
  notTwice : ∀ h, s.destroys h ≤ 1
  notUsed : s.fault = false
  /-- … and it is destroyed, once what runs has returned. -/
  destroyed : ∀ h, Dead s h → ¬ Releasing s → s.stack = [] → s.destroys h = 1
  emptied : s.finalizersDone = true → s.pendingFinalizers = []

theorem Inv.finalized (hi : Inv s) : Finalized s := by
  obtain ⟨ho, hc⟩ := hi.tended
  have hlt : ∀ h, s.owed h = true → h < s.nextHint := by
    intro h howed
    by_contra hle
    rw [(hc.fresh h (not_lt.mp hle)).2.2.2] at howed
    cases howed
  refine ⟨?_, hc.late, ?_, ?_, ?_, hc.fault, ?_, hc.done⟩
  · intro h
    cases hx : s.hints h with
    | some x => exact hc.runs_le hx
    | none =>
      by_cases hle : s.nextHint ≤ h
      · rw [(hc.fresh h hle).2.1]
        exact Nat.zero_le _
      · exact (hc.gone h (not_le.mp hle) hx).2.1
  · intro h hdead hrel howed
    cases hx : s.hints h with
    | none => exact (hc.gone h hdead.1 hx).2.2 howed
    | some x =>
      -- The owner is a frame that has called the callback.
      rcases ho.owner h x hx with ⟨o, ho'⟩ | ⟨k, hk, hown⟩ | ⟨_, hp, hcl⟩
      · exact absurd ho' (hdead.2 o)
      · exact hc.owed_runs hx (.inl (hc.running k hk h x hown hx)) howed
      · refine absurd ⟨hcl, ?_⟩ hrel
        rw [Bool.eq_false_iff]
        intro hd
        rw [hc.done hd] at hp
        cases hp
  · intro h hd howed
    cases hx : s.hints h with
    | none => exact (hc.gone h (hlt h howed) hx).2.2 howed
    | some x =>
      refine hc.owed_runs hx ?_ howed
      by_contra hno
      rw [not_or, Bool.not_eq_true, Bool.not_eq_false] at hno
      have hp := (hc.pending h).mpr ⟨x, hx, hno.2, hno.1⟩
      rw [hc.done hd] at hp
      cases hp
  · intro h
    cases hx : s.hints h with
    | some x =>
      rw [(hc.alive h x hx).1]
      exact Nat.zero_le _
    | none =>
      by_cases hle : s.nextHint ≤ h
      · rw [(hc.fresh h hle).2.2.1]
        exact Nat.zero_le _
      · exact (hc.gone h (not_le.mp hle) hx).1.le
  · intro h hdead hrel hstack
    cases hx : s.hints h with
    | none => exact (hc.gone h hdead.1 hx).1
    | some x =>
      rcases ho.owner h x hx with ⟨o, ho'⟩ | ⟨k, hk, _⟩ | ⟨_, hp, hcl⟩
      · exact absurd ho' (hdead.2 o)
      · rw [hstack] at hk
        cases hk
      · refine absurd ⟨hcl, ?_⟩ hrel
        rw [Bool.eq_false_iff]
        intro hd
        rw [hc.done hd] at hp
        cases hp

/-- Every hint of every run of safe steps has its callback called and is destroyed as it
    should be, however the calls nest. -/
theorem hints_finalized_once {acts : List Act} (hr : run step {} acts = some s)
    (hsafe : AllSteps step Safe {} acts) : Finalized s :=
  (invariant_of_allSteps (fun _ _ _ h hsafe hi => step_inv hi hsafe h) hr hsafe init_inv).finalized

end

/-- An external whose callback, at the release, detaches the buffer made before it. -/
def detachAtRelease : List Act :=
  [.createArraybuffer true true, .createExternal true, .release, .tick, .tick, .tick, .detach 0, .ret,
    .tick, .ret, .tick, .tick, .tick, .tick, .tick, .die 1, .tick, .die 0]

theorem detachAtRelease_finalized :
    ∃ s, run step {} detachAtRelease = some s ∧ AllSteps step Safe {} detachAtRelease ∧
      s.tornDown = true ∧ s.runs 0 = 1 ∧ s.destroys 0 = 1 ∧ Finalized s := by
  have hsafe : AllSteps step Safe {} detachAtRelease := by decide
  exact ⟨_, rfl, hsafe, rfl, rfl, rfl, hints_finalized_once rfl hsafe⟩

/-- A callback that transfers the buffer whose detach it runs in. The buffer it makes has a hint
    that is destroyed when the callback returns, and uses it when it dies. -/
def transferInDetach : List Act :=
  [.createArraybuffer true true, .detach 0, .transfer 0, .ret, .die 1]

theorem transferInDetach_faults :
    ∃ s, run step {} transferInDetach = some s ∧ ¬ Finalized s := by
  refine ⟨_, rfl, ?_⟩
  intro hf
  have := hf.notUsed
  cases this

end WasmerNapi.Quickjs.Hints
