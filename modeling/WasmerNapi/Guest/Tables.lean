import WasmerNapi.Agent.Scopes
import WasmerNapi.HostJs.Handles
import WasmerNapi.Lib.Scoped

/-!
# The guest's tables

An agent's value ids, as a table with scopes: `StoreValue` gives them out, the handle scopes of
the guest end them.
-/

namespace WasmerNapi.Guest.Tables

open Agent Scoped

variable {ν : Type}

/-- The frames an agent has once it has used the first one. -/
def framesOf (a : State ν) : List (ℕ × Multiset ℕ) :=
  a.currentFrame.scopeFrames.map fun f => (f.id, (f.minted.map Prod.fst : List ℕ))

def agentTable (ν : Type) : Scoped.Table (State ν) ν where
  load := State.loadValue
  store a v := a.storeValue (some v)
  openScope a scope :=
    ((a.openHandleScope false (.ok scope)).1.2, (a.openHandleScope false (.ok scope)).2)
  closeScope a scope :=
    (decide ((a.closeHandleScope false scope).1 = .ok), (a.closeHandleScope false scope).2)
  frames := framesOf
  outer a := a.openScopes

/-- There is a slot for each of `n` more, and the agent may have as many. -/
def HasRoom (a : State ν) (n : ℕ) : Prop :=
  a.liveValueCount + n ≤ kValueIdMaxSlots ∧
    (a.valueLimit ≠ 0 → a.liveValueCount + n ≤ a.valueLimit)

variable {a b : State ν}

/-! ## What is live -/

/-- The ids minted into a frame that is open. -/
def Minted (a : State ν) (id : ℕ) (v : ν) : Prop := ∃ f ∈ a.scopeFrames, (id, v) ∈ f.minted

theorem minted_currentFrame (a : State ν) (id : ℕ) (v : ν) :
    Minted a.currentFrame id v ↔ Minted a id v := by
  unfold Minted State.currentFrame
  cases hframes : a.scopeFrames with
  | nil => simp
  | cons frame frames => simp only [hframes]

/-- What loads is what was minted into a frame that is open. -/
theorem loadValue_iff (h : Tabled [] [] a) (id : ℕ) (v : ν) :
    a.loadValue id = some v ↔ Minted a id v := by
  constructor
  · intro hload
    unfold State.loadValue at hload
    split at hload
    · cases hload
    dsimp only at hload
    split at hload
    · cases hload
    rename_i hindex
    split at hload
    · cases hload
    rename_i slot hslot
    split at hload
    · cases hload
    rename_i huse
    simp only [Bool.not_eq_true', Bool.or_eq_true, decide_eq_true_eq, not_or, Bool.not_eq_false,
      not_not] at huse
    -- the slot's frame lists it under the id it is in use for
    obtain ⟨f, hf, hi⟩ := mem_ownedBy.mp ((h.inUse _ slot hslot).mp huse.1)
    rw [h.minted f hf] at hi
    obtain ⟨m, hm, heq⟩ := List.mem_map.mp hi
    obtain ⟨slot', hslot', hvalue, hid⟩ := h.loads f hf m hm
    rw [heq, hslot] at hslot'
    cases hslot'
    have hsize : id >>> kValueIdGenBits - 1 < kValueIdMaxSlots :=
      lt_of_lt_of_le (List.getElem?_eq_some_iff.mp hslot).1 h.size
    have hgen := h.generation slot (List.mem_of_getElem? hslot)
    rw [heq, valueId_eq hsize hgen, huse.2] at hid
    have hsame : m.1 = id := by
      rw [hid]
      unfold kValueIdGenMask
      rw [Nat.and_two_pow_sub_one_eq_mod, Nat.shiftRight_eq_div_pow]
      rw [Nat.shiftRight_eq_div_pow] at hindex
      unfold kValueIdGenBits at hindex ⊢
      omega
    have hv : m.2 = v := by
      rw [hvalue] at hload
      exact Option.some.inj hload
    exact ⟨f, hf, by rw [← hsame, ← hv]; exact hm⟩
  · rintro ⟨f, hf, hm⟩
    exact (h.load_minted hf hm).2.2

/-- Two agents with the same ids in their frames load the same. -/
theorem loadValue_congr (ha : Tabled [] [] a) (hb : Tabled [] [] b) {id : ℕ}
    (h : ∀ v, Minted b id v ↔ Minted a id v) : b.loadValue id = a.loadValue id := by
  apply Option.ext
  intro v
  rw [loadValue_iff hb, loadValue_iff ha]
  exact h v

/-! ## Storing -/

theorem currentFrame_cons (a : State ν) : ∃ frame frames,
    a.currentFrame = { a with scopeFrames := frame :: frames } := by
  unfold State.currentFrame
  split
  · exact ⟨{}, [], rfl⟩
  · rename_i frame frames hframes
    refine ⟨frame, frames, ?_⟩
    rw [← hframes]

/-- All slots of a full table are in use. -/
theorem length_slots (h : Tabled [] [] a) (hfree : a.valueFreeSlots = []) :
    a.valueSlots.length = a.liveValueCount := by
  have hlength := h.slots.length_eq
  rw [hfree, List.length_range] at hlength
  rw [h.live]
  exact hlength.symm

theorem not_hasRoom (h : Tabled [] [] a) (hexhausted : Exhausted a) : ¬ HasRoom a 1 := by
  intro ⟨hslots, hlimit⟩
  rcases hexhausted with ⟨hne, hle⟩ | ⟨hfree, hle⟩
  · have hlt := hlimit hne
    omega
  · rw [length_slots h hfree] at hle
    omega

/-- What a store that gives an id changes. -/
structure Stored (a : State ν) (id : ℕ) (v : ν) (b : State ν) : Prop where
  frames : ∃ frame frames frame', a.currentFrame.scopeFrames = frame :: frames ∧
    b.scopeFrames = frame' :: frames ∧ frame'.minted = (id, v) :: frame.minted ∧
    frame'.id = frame.id ∧ frame'.scope = frame.scope ∧ frame'.escScope = frame.escScope ∧
    frame'.env = frame.env
  outer : b.openScopes = a.openScopes
  limit : b.valueLimit = a.valueLimit
  live : b.liveValueCount = a.liveValueCount + 1
  ne : id ≠ 0

/-- A store adds one id to the innermost frame, or has no room for it. -/
theorem storeValue_cases (h : Tabled [] [] a) (v : ν) :
    (a.storeValue (some v) = (0, a.currentFrame) ∧ ¬ HasRoom a 1) ∨
      Stored a (a.storeValue (some v)).1 v (a.storeValue (some v)).2 := by
  obtain ⟨frame, frames, hcurrent⟩ := currentFrame_cons a
  have hroot := h.currentFrame
  unfold State.storeValue
  rcases storeValueInFrame_cases a.currentFrame (some v) 0 with
    ⟨heq, hnone | hexhausted⟩ | ⟨w, index, b, hw, heq, _, hb⟩
  · cases hnone
  · refine Or.inl ⟨heq, ?_⟩
    have hfull := not_hasRoom hroot hexhausted
    rw [hcurrent] at hfull
    exact hfull
  · cases hw
    right
    obtain ⟨slot, hslot, hgen⟩ := (hroot.reserve hb).slot (i := index) (List.mem_cons_self ..)
    have hsize : index < kValueIdMaxSlots :=
      lt_of_lt_of_le (List.getElem?_eq_some_iff.mp hslot).1 (hroot.reserve hb).size
    have hne : valueId index slot.generation ≠ 0 := (valueId_bounds hsize hgen).1.ne'
    rw [heq]
    unfold State.mintAt
    rw [hslot]
    rcases hb with ⟨free, _, rfl⟩ | ⟨_, _, _, rfl⟩
    · rw [hcurrent]
      exact ⟨⟨frame, frames, _, hcurrent ▸ rfl, rfl, rfl, rfl, rfl, rfl, rfl⟩, rfl, rfl, rfl, hne⟩
    · rw [hcurrent]
      exact ⟨⟨frame, frames, _, hcurrent ▸ rfl, rfl, rfl, rfl, rfl, rfl, rfl⟩, rfl, rfl, rfl, hne⟩

theorem Stored.minted {id : ℕ} {v : ν} (hstored : Stored a id v b) (other : ℕ) (w : ν) :
    Minted b other w ↔ (other, w) = (id, v) ∨ Minted a other w := by
  obtain ⟨frame, frames, frame', ha, hb, hminted, _⟩ := hstored.frames
  rw [← minted_currentFrame a]
  unfold Minted
  rw [ha, hb]
  simp only [List.mem_cons, exists_eq_or_imp, hminted]
  rw [or_assoc]

/-! ## Scopes -/

/-- What opening a scope of the guest's changes. -/
structure Opened (a : State ν) (scope p : ℕ) (b : State ν) : Prop where
  frames : ∃ frame, b.scopeFrames = frame :: a.currentFrame.scopeFrames ∧ frame.minted = [] ∧
    frame.id = scope ∧ frame.scope = some p ∧ frame.escScope = none ∧ frame.env = true
  outer : b.openScopes = p :: a.openScopes
  limit : b.valueLimit = a.valueLimit
  live : b.liveValueCount = a.liveValueCount
  ne : scope ≠ 0

theorem freshId_ne (next : ℕ) : (freshId next).1 ≠ 0 := by
  unfold freshId
  split
  · rename_i hzero
    rw [hzero]
    decide
  · assumption

theorem scopeFrames_currentFrame (h : b.scopeFrames = a.scopeFrames) :
    b.currentFrame.scopeFrames = a.currentFrame.scopeFrames := by
  unfold State.currentFrame
  rw [h]
  split
  · rfl
  · exact h

theorem openHandleScope_opened (a : State ν) (p : ℕ) :
    Opened a ((agentTable ν).openScope a p).1 p ((agentTable ν).openScope a p).2 := by
  have hframes : (a.openNapiScope p).currentFrame.scopeFrames = a.currentFrame.scopeFrames :=
    scopeFrames_currentFrame rfl
  obtain ⟨frame, frames, hcurrent⟩ := currentFrame_cons (a.openNapiScope p)
  rw [hcurrent] at hframes
  show Opened a (freshId a.nextScopeId).1 p
    { (a.openNapiScope p).pushScopeFrame (some p) none (freshId a.nextScopeId).1 with
      nextScopeId := (freshId a.nextScopeId).2 }
  unfold State.pushScopeFrame
  dsimp only
  rw [hcurrent]
  dsimp only at hframes ⊢
  rw [hframes]
  split
  · exact ⟨⟨_, rfl, rfl, rfl, rfl, rfl, rfl⟩, rfl, rfl, rfl, freshId_ne _⟩
  · exact ⟨⟨_, rfl, rfl, rfl, rfl, rfl, rfl⟩, rfl, rfl, rfl, freshId_ne _⟩

theorem Opened.minted {scope p : ℕ} (hopened : Opened a scope p b) (id : ℕ) (v : ν) :
    Minted b id v ↔ Minted a id v := by
  obtain ⟨frame, hb, hminted, _⟩ := hopened.frames
  rw [← minted_currentFrame a]
  unfold Minted
  rw [hb]
  simp only [List.mem_cons, exists_eq_or_imp, hminted, List.not_mem_nil, false_or]

theorem tabled_openHandleScope (h : Tabled [] [] a) (p : ℕ) :
    Tabled [] [] ((agentTable ν).openScope a p).2 := by
  have hopen : Tabled [] [] (a.openNapiScope p) := h.congr rfl rfl rfl rfl rfl rfl
  exact (hopen.pushScopeFrame (some p) none (freshId a.nextScopeId).1).congr rfl rfl rfl rfl rfl rfl

/-- A scope of the guest's is the innermost one. -/
structure Innermost (a : State ν) (scope : ℕ) (b : State ν) : Prop where
  frames : ∃ p frame, b.scopeFrames = frame :: a.currentFrame.scopeFrames ∧ frame.id = scope ∧
    frame.scope = some p ∧ frame.escScope = none ∧ frame.env = true ∧
      b.openScopes = p :: a.openScopes
  limit : b.valueLimit = a.valueLimit
  tabled : Tabled [] [] b
  ne : scope ≠ 0

theorem innermost_above (h : Tabled [] [] a) {scope n : ℕ}
    (habove : Above (agentTable ν) a scope n b) : Innermost a scope b := by
  induction habove with
  | opened p hopen =>
    have hopened := openHandleScope_opened a p
    have htabled := tabled_openHandleScope h p
    rw [hopen] at hopened htabled
    obtain ⟨⟨frame, hframes, _, hid, hscope, hesc, henv⟩, houter, hlimit, _, hne⟩ := hopened
    exact ⟨⟨p, frame, hframes, hid, hscope, hesc, henv, houter⟩, hlimit, htabled, hne⟩
  | stored v habove ih =>
    rename_i n t
    obtain ⟨⟨p, frame, hframes, hid, hscope, hesc, henv, houter⟩, hlimit, htabled, hne⟩ := ih
    have hcurrent : t.currentFrame = t := by
      unfold State.currentFrame
      rw [hframes]
    rcases storeValue_cases htabled v with ⟨heq, _⟩ | hstored
    · show Innermost a scope (t.storeValue (some v)).2
      rw [heq, hcurrent]
      exact ⟨⟨p, frame, hframes, hid, hscope, hesc, henv, houter⟩, hlimit, htabled, hne⟩
    · obtain ⟨top, rest, top', htop, htop', _, hid', hscope', hesc', henv'⟩ := hstored.frames
      rw [hcurrent, hframes] at htop
      obtain ⟨rfl, rfl⟩ := List.cons.inj htop
      exact ⟨⟨p, top', htop', hid'.trans hid, hscope'.trans hscope, hesc'.trans hesc,
        henv'.trans henv, hstored.outer.trans houter⟩, hstored.limit.trans hlimit,
        htabled.storeValue (some v), hne⟩

theorem closeFrame_outer {frame : ScopeFrame ν} {p : ℕ} {outer : List ℕ}
    (hscope : frame.napiScope = some p) (houter : a.openScopes = p :: outer) :
    (a.closeFrame frame).openScopes = outer ∧ (a.closeFrame frame).valueLimit = a.valueLimit := by
  have hhead : a.openScopes.head? = some p := by
    rw [houter]
    rfl
  unfold State.closeFrame
  rw [hscope]
  show (a.closeNapiScope p).openScopes = _ ∧ (a.closeNapiScope p).valueLimit = _
  unfold State.closeNapiScope
  rw [if_pos hhead, houter]
  exact ⟨rfl, rfl⟩

/-- Closing the innermost scope takes its frame off. -/
theorem closeHandleScope_innermost {scope : ℕ} (h : Innermost a scope b) :
    b.closeHandleScope false scope = (.ok, b.popCurrentFrame) ∧
      b.popCurrentFrame.scopeFrames = a.currentFrame.scopeFrames ∧
      b.popCurrentFrame.openScopes = a.openScopes ∧
      b.popCurrentFrame.valueLimit = a.valueLimit := by
  obtain ⟨⟨p, frame, hframes, hid, hscope, hesc, henv, houter⟩, hlimit, _, hne⟩ := h
  refine ⟨?_, ?_, ?_⟩
  · unfold State.closeHandleScope State.findFrameById
    rw [if_neg hne, hframes, List.findIdx?_cons, hid, beq_self_eq_true, if_pos rfl]
    dsimp only
    rw [List.getElem?_cons_zero]
    dsimp only
    rw [hscope]
    rfl
  · rw [scopeFrames_popCurrentFrame, hframes]
    rfl
  · obtain ⟨slots, free, live, retired, spare, heq⟩ := popCurrentFrame_frame hframes
    have hclose : frame.napiScope = some p := by
      unfold ScopeFrame.napiScope
      rw [henv, hesc, hscope]
      rfl
    have hclosed := closeFrame_outer
      (a := { b with
        scopeFrames := a.currentFrame.scopeFrames, valueSlots := slots, valueFreeSlots := free
        liveValueCount := live, retired, spareOwnedSlots := spare }) hclose houter
    rw [heq]
    exact ⟨hclosed.1, hclosed.2.trans hlimit⟩

/-! ## The table -/

theorem minted_of_frames (h : b.scopeFrames = a.currentFrame.scopeFrames) (id : ℕ) (v : ν) :
    Minted b id v ↔ Minted a id v := by
  rw [← minted_currentFrame a]
  unfold Minted
  rw [h]

theorem framesOf_of_frames (h : b.scopeFrames = a.currentFrame.scopeFrames) :
    framesOf b = framesOf a := by
  obtain ⟨frame, frames, hcurrent⟩ := currentFrame_cons a
  have hb : b.currentFrame = b := by
    unfold State.currentFrame
    rw [h, hcurrent]
  unfold framesOf
  rw [hb, h]

theorem live_of_frames (ha : Tabled [] [] a) (hb : Tabled [] [] b)
    (h : b.scopeFrames = a.currentFrame.scopeFrames) : b.liveValueCount = a.liveValueCount := by
  obtain ⟨frame, frames, hcurrent⟩ := currentFrame_cons a
  have hlive : a.currentFrame.liveValueCount = a.liveValueCount := by rw [hcurrent]
  rw [hb.live, ← hlive, ha.currentFrame.live, h]

/-- An agent's ids are a lawful table with scopes. -/
theorem agentTable_lawful : Lawful (agentTable ν) (Tabled [] []) HasRoom where
  load_zero := fun _ => rfl
  store_inv := fun v h => h.storeValue (some v)
  store_load := by
    intro a v h hne
    rcases storeValue_cases h v with ⟨heq, _⟩ | hstored
    · exact absurd (congrArg Prod.fst heq) hne
    · exact (loadValue_iff (h.storeValue (some v)) _ v).mpr ((hstored.minted _ v).mpr (Or.inl rfl))
  store_live := by
    intro a v w h hload
    rcases storeValue_cases h v with ⟨heq, _⟩ | hstored
    · have hzero : (a.storeValue (some v)).1 = 0 := congrArg Prod.fst heq
      rw [show ((agentTable ν).store a v).1 = 0 from hzero] at hload
      cases hload
    · -- the id would load both
      have htabled := h.storeValue (some v)
      have hw : (a.storeValue (some v)).2.loadValue (a.storeValue (some v)).1 = some w :=
        (loadValue_iff htabled _ w).mpr
          ((hstored.minted _ w).mpr (Or.inr ((loadValue_iff h _ w).mp hload)))
      have hv : (a.storeValue (some v)).2.loadValue (a.storeValue (some v)).1 = some v :=
        (loadValue_iff htabled _ v).mpr ((hstored.minted _ v).mpr (Or.inl rfl))
      rw [hw] at hv
      exact Option.some.inj hv
  store_other := by
    intro a v id h hid
    apply loadValue_congr h (h.storeValue (some v))
    intro w
    rcases storeValue_cases h v with ⟨heq, _⟩ | hstored
    · rw [heq]
      exact minted_currentFrame a id w
    · rw [hstored.minted id w]
      constructor
      · rintro (hnew | hold)
        · exact absurd (congrArg Prod.fst hnew) hid
        · exact hold
      · exact Or.inr
  store_frames := by
    intro a v h
    rcases storeValue_cases h v with ⟨heq, _⟩ | hstored
    · left
      show framesOf (a.storeValue (some v)).2 = _
      rw [heq]
      exact framesOf_of_frames rfl
    · right
      obtain ⟨frame, frames, frame', ha, hb, hminted, hid, _⟩ := hstored.frames
      refine ⟨frame.id, (frame.minted.map Prod.fst : List ℕ),
        frames.map fun f => (f.id, (f.minted.map Prod.fst : List ℕ)), ?_, ?_⟩
      · show framesOf a = _
        rw [framesOf, ha]
        rfl
      · show framesOf (a.storeValue (some v)).2 = _
        have hcurrent : (a.storeValue (some v)).2.currentFrame = (a.storeValue (some v)).2 := by
          unfold State.currentFrame
          rw [hb]
        rw [framesOf, hcurrent, hb, List.map_cons, hminted, hid]
        rfl
  store_outer := by
    intro a v h
    rcases storeValue_cases h v with ⟨heq, _⟩ | hstored
    · show (a.storeValue (some v)).2.openScopes = _
      obtain ⟨frame, frames, hcurrent⟩ := currentFrame_cons a
      rw [heq, hcurrent]
      rfl
    · exact hstored.outer
  store_room := by
    intro a v n h hroom
    have hone : HasRoom a 1 := by
      refine ⟨?_, fun hne => ?_⟩
      · have hslots := hroom.1
        omega
      · have hlimit := hroom.2 hne
        omega
    rcases storeValue_cases h v with ⟨_, hfull⟩ | hstored
    · exact absurd hone hfull
    · refine ⟨hstored.ne, ?_, ?_⟩
      · show (a.storeValue (some v)).2.liveValueCount + n ≤ _
        rw [hstored.live]
        have hslots := hroom.1
        omega
      · show (a.storeValue (some v)).2.valueLimit ≠ 0 →
          (a.storeValue (some v)).2.liveValueCount + n ≤ (a.storeValue (some v)).2.valueLimit
        rw [hstored.live, hstored.limit]
        intro hne
        have hlimit := hroom.2 hne
        omega
  store_full := by
    intro a v h hne
    rcases storeValue_cases h v with ⟨heq, _⟩ | hstored
    · exact absurd (congrArg Prod.fst heq) hne
    · -- the table it leaves is within its bounds
      have htabled := h.storeValue (some v)
      refine ⟨?_, ?_⟩
      · rw [← hstored.live, htabled.live]
        have hlength := htabled.slots.length_eq
        rw [List.length_append, List.length_range] at hlength
        have hsize := htabled.size
        omega
      · intro hlimit
        rw [← hstored.live, ← hstored.limit]
        exact htabled.limit (by rw [hstored.limit]; exact hlimit)
  open_inv := fun p h => tabled_openHandleScope h p
  open_load := by
    intro a p id h
    exact loadValue_congr h (tabled_openHandleScope h p) fun v =>
      (openHandleScope_opened a p).minted id v
  open_room := by
    intro a p n h
    have hopened := openHandleScope_opened a p
    unfold HasRoom
    rw [hopened.live, hopened.limit]
  close := by
    intro a scope n b h habove
    have hinner := innermost_above h habove
    obtain ⟨hclose, hframes, houter, hlimit⟩ := closeHandleScope_innermost hinner
    have htabled : Tabled [] [] b.popCurrentFrame := hinner.tabled.popCurrentFrame
    have hstate : ((agentTable ν).closeScope b scope).2 = b.popCurrentFrame := congrArg Prod.snd hclose
    have hstatus : ((agentTable ν).closeScope b scope).1 = true :=
      decide_eq_true (congrArg Prod.fst hclose)
    rw [hstate]
    refine ⟨hstatus, htabled, ⟨framesOf_of_frames hframes, houter, fun id => ?_⟩, fun k hroom => ?_⟩
    · exact loadValue_congr h htabled fun v => minted_of_frames hframes id v
    · unfold HasRoom
      rw [live_of_frames h htabled hframes, hlimit]
      exact hroom

/-! ## The host-JS table -/

section HostJs

open HostJs HostJs.HostJsAgent

/-- A host-JS agent's handles, as a table with scopes. A value that finds no handle is not
    stored. -/
def hostJsTable : Scoped.Table HostJsAgent JsValue where
  load := HostJsAgent.get
  store a v := (a.insert v).getD (0, a)
  openScope a _ := a.openValueFrame
  closeScope := HostJsAgent.closeValueFrame
  frames a := a.valueFrames.map fun f => (f.id, (f.handles : Multiset ℕ))
  outer _ := []

/-- The live handles are those of the frames, besides some that no frame lists. -/
structure Handled (a : HostJsAgent) : Prop where
  next : a.nextValueHandle < 2 ^ 32
  frames : a.valueFrames ≠ []
  tables : ∃ leaked, Tables a (leaked ++ a.listed)

/-- There are as many handles left. -/
def HasHandles (a : HostJsAgent) (n : ℕ) : Prop := a.valueHandles.keys.length + n < 2 ^ 32

variable {a b : HostJsAgent}

theorem length_handles {ids : List ℕ} (h : Tables a ids) : a.valueHandles.keys.length = ids.length := by
  have hperm : ids.Perm a.valueHandles.keys :=
    (List.perm_ext_iff_of_nodup h.nodup a.valueHandles.keys_nodup).mpr fun id => h.mem_iff id
  exact hperm.length_eq.symm

/-- The candidates of `scanHandles`, one after the other. -/
def candidate (next k : ℕ) : ℕ := (max next 1 - 1 + k) % (2 ^ 32 - 1) + 1

theorem candidate_succ {next : ℕ} (hnext : next < 2 ^ 32) (k : ℕ) :
    candidate (max (Word.wrappingAdd 32 (max next 1) 1) 1) k = candidate next (k + 1) := by
  unfold candidate Word.wrappingAdd
  by_cases hlast : max next 1 = 2 ^ 32 - 1
  · rw [hlast]
    norm_num
    omega
  · have hlt : max next 1 + 1 < 2 ^ 32 := by omega
    rw [Nat.mod_eq_of_lt hlt]
    congr 2
    omega

/-- A scan that finds no handle has found them all live. -/
theorem scanHandles_none {handles : AList fun _ : ℕ => ℕ} {fuel next : ℕ} (hnext : next < 2 ^ 32)
    (h : scanHandles handles fuel next = none) : ∀ k < fuel, candidate next k ∈ handles := by
  induction fuel generalizing next with
  | zero =>
    intro k hk
    exact absurd hk (Nat.not_lt_zero k)
  | succ fuel ih =>
    unfold scanHandles at h
    dsimp only at h
    split at h
    · rename_i hmem
      intro k hk
      cases k with
      | zero =>
        have hfirst : candidate next 0 = max next 1 := by
          unfold candidate
          rw [Nat.add_zero, Nat.mod_eq_of_lt (by omega)]
          omega
        rw [hfirst]
        exact hmem
      | succ k =>
        rw [← candidate_succ hnext]
        apply ih _ h k (Nat.lt_of_succ_lt_succ hk)
        exact max_lt (Nat.mod_lt _ (by decide)) (by decide)
    · cases h

/-- With a handle left one is found. -/
theorem nextHandle_ne_none (h : Handled a) (hroom : HasHandles a 1) : a.nextHandle ≠ none := by
  intro hnone
  have hscan := Option.map_eq_none_iff.mp hnone
  have hall := scanHandles_none h.next hscan
  have hcard : (Finset.range (a.valueHandles.keys.length + 1)).card ≤ a.valueHandles.keys.toFinset.card := by
    apply Finset.card_le_card_of_injOn (candidate a.nextValueHandle)
    · intro k hk
      exact Finset.mem_coe.mpr (List.mem_toFinset.mpr (hall k (Finset.mem_range.mp hk)))
    · intro i hi j hj hij
      have hi' := Finset.mem_range.mp hi
      have hj' := Finset.mem_range.mp hj
      unfold HasHandles at hroom
      unfold candidate at hij
      have hmod : i ≡ j [MOD 2 ^ 32 - 1] :=
        Nat.ModEq.add_left_cancel' _ (Nat.add_right_cancel hij)
      exact Nat.ModEq.eq_of_lt_of_lt hmod (by omega) (by omega)
  rw [Finset.card_range] at hcard
  have hle := List.toFinset_card_le a.valueHandles.keys
  omega

theorem hasHandles_of_free {ids : List ℕ} {id : ℕ} (h : Tables a ids) (hid : id ∉ a.valueHandles)
    (hpos : 0 < id) (hlt : id < 2 ^ 32) : HasHandles a 1 := by
  have hnodup : (id :: ids).Nodup :=
    List.nodup_cons.mpr ⟨fun hmem => hid ((h.mem_iff id).mp hmem), h.nodup⟩
  have hsub : (id :: ids).toFinset ⊆ Finset.Ico 1 (2 ^ 32) := by
    intro i hi
    rcases List.mem_cons.mp (List.mem_toFinset.mp hi) with rfl | hi
    · exact Finset.mem_Ico.mpr ⟨hpos, hlt⟩
    · exact Finset.mem_Ico.mpr (h.range i hi)
  have hcard := Finset.card_le_card hsub
  rw [List.toFinset_card_of_nodup hnodup, List.length_cons, Nat.card_Ico] at hcard
  unfold HasHandles
  rw [length_handles h]
  omega

/-- What an insert that gives a handle changes. -/
structure Inserted (a : HostJsAgent) (id : ℕ) (v : JsValue) (b : HostJsAgent) : Prop where
  next : b.nextValueHandle < 2 ^ 32
  ne : id ≠ 0
  get : b.get id = some v
  other : ∀ other, other ≠ id → b.get other = a.get other
  room : HasHandles a 1
  /-- The handle is new, or the object's own. -/
  frames : (a.get id = none ∧ b.valueFrames = pushHandle id a.valueFrames) ∨
    (a.get id = some v ∧ b.valueFrames = a.valueFrames)
  tables : ∀ leaked, Tables a (leaked ++ a.listed) → Tables b (leaked ++ b.listed)

theorem insert_inserted (h : Handled a) {v : JsValue} {id : ℕ} (hinsert : a.insert v = some (id, b)) :
    Inserted a id v b := by
  obtain ⟨hnext, hframes, leaked, htables⟩ := h
  have hroom : HasHandles a 1 := by
    cases hn : a.nextHandle with
    | none =>
      unfold HostJsAgent.insert at hinsert
      rw [hn] at hinsert
      cases hinsert
    | some r =>
      obtain ⟨hfree, hpos, hlt, _⟩ := nextHandle_spec hnext hn
      exact hasHandles_of_free htables hfree hpos hlt
  rcases insert_cases hnext hinsert with ⟨a', hsame, hnext', hid, hpos, hlt, rfl⟩ | ⟨hget, hsame, hnext'⟩
  · obtain ⟨hframes', _, hhandle⟩ := store_eq a' id v
    rw [hsame.valueFrames] at hframes'
    have hstore : ∀ leaked, Tables a (leaked ++ a.listed) →
        Tables (a'.store id v) (id :: (leaked ++ a.listed)) ∧
          (a'.store id v).get id = some v ∧
            ∀ id', id' ≠ id → (a'.store id v).get id' = a'.get id' := by
      intro leaked htables
      exact (htables.congr hsame).store (fun hmem => hid ((htables.mem_iff id).mp hmem)) hpos hlt v
    obtain ⟨_, hget, hother⟩ := hstore leaked htables
    refine ⟨?_, hpos.ne', hget, ?_, hroom, Or.inl ⟨get_of_not_mem hid, hframes'⟩, ?_⟩
    · rw [hhandle]
      exact hnext'
    · intro other hne
      rw [hother other hne, hsame.get]
    · intro leaked htables
      apply (hstore leaked htables).1.perm
      have hlisted : ((a'.store id v).listed).Perm (id :: a.listed) := by
        unfold listed
        rw [hframes']
        cases hcons : a.valueFrames with
        | nil => exact absurd hcons hframes
        | cons frame frames =>
          rw [pushHandle, List.flatMap_cons, List.flatMap_cons, List.append_assoc]
          exact List.perm_middle
      exact (List.perm_middle.symm.trans (hlisted.symm.append_left leaked))
  · have hne : id ≠ 0 := by
      rintro rfl
      rw [HostJsAgent.get, if_pos rfl] at hget
      cases hget
    refine ⟨hnext', hne, ?_, ?_, hroom, Or.inr ⟨hget, hsame.valueFrames⟩, ?_⟩
    · rw [hsame.get, hget]
    · intro other _
      exact hsame.get other
    · intro leaked htables
      rw [hsame.listed]
      exact htables.congr hsame

theorem hostJsStore_cases (h : Handled a) (v : JsValue) :
    (hostJsTable.store a v = (0, a) ∧ ¬ HasHandles a 1) ∨
      Inserted a (hostJsTable.store a v).1 v (hostJsTable.store a v).2 := by
  cases hinsert : a.insert v with
  | none =>
    left
    have hstore : hostJsTable.store a v = (0, a) := by
      show (a.insert v).getD (0, a) = _
      rw [hinsert]
      rfl
    refine ⟨hstore, fun hroom => ?_⟩
    have hsome := nextHandle_ne_none h hroom
    unfold HostJsAgent.insert at hinsert
    split at hinsert
    · contradiction
    · split at hinsert
      · cases hinsert
      · split at hinsert
        · cases hinsert
        · split at hinsert
          · cases hinsert
          · cases hinsert
  | some r =>
    right
    have hstore : hostJsTable.store a v = r := by
      show (a.insert v).getD (0, a) = _
      rw [hinsert]
      rfl
    rw [hstore]
    exact insert_inserted h hinsert

theorem Inserted.handled {id : ℕ} {v : JsValue} (h : Handled a) (hinserted : Inserted a id v b) :
    Handled b := by
  obtain ⟨leaked, htables⟩ := h.tables
  refine ⟨hinserted.next, ?_, leaked, hinserted.tables leaked htables⟩
  rcases hinserted.frames with ⟨_, hframes⟩ | ⟨_, hframes⟩
  · rw [hframes]
    cases hcons : a.valueFrames with
    | nil => exact absurd hcons h.frames
    | cons frame frames => exact List.cons_ne_nil _ _
  · rw [hframes]
    exact h.frames

theorem Inserted.length_listed {id : ℕ} {v : JsValue} (h : Handled a)
    (hinserted : Inserted a id v b) : b.listed.length ≤ a.listed.length + 1 := by
  unfold listed
  rcases hinserted.frames with ⟨_, hframes⟩ | ⟨_, hframes⟩
  · rw [hframes]
    cases hcons : a.valueFrames with
    | nil => exact absurd hcons h.frames
    | cons frame frames =>
      simp only [pushHandle, List.flatMap_cons, List.length_append, List.length_singleton]
      omega
  · rw [hframes]
    exact Nat.le_succ _

/-- A scope opened in `a` is the innermost one of `b`. -/
structure InnermostFrame (a : HostJsAgent) (scope : ℕ) (b : HostJsAgent) : Prop where
  handled : Handled b
  frames : ∃ frame, b.valueFrames = frame :: a.valueFrames ∧ frame.id = scope ∧
    (∀ id ∈ frame.handles, a.get id = none) ∧ ∀ id, id ∉ frame.handles → b.get id = a.get id
  tables : ∀ leaked, Tables a (leaked ++ a.listed) → Tables b (leaked ++ b.listed)

theorem handled_openValueFrame (h : Handled a) : Handled a.openValueFrame.2 := by
  obtain ⟨leaked, htables⟩ := h.tables
  exact ⟨h.next, List.cons_ne_nil _ _, leaked, htables.withFrames _ _⟩

theorem innermostFrame_above (h : Handled a) {scope n : ℕ}
    (habove : Above hostJsTable a scope n b) : InnermostFrame a scope b := by
  induction habove with
  | opened p hopen =>
    obtain ⟨rfl, rfl⟩ := Prod.mk.inj hopen
    refine ⟨handled_openValueFrame h, ⟨_, rfl, rfl, ?_, fun _ _ => rfl⟩, ?_⟩
    · nofun
    · intro leaked htables
      exact htables.withFrames _ _
  | stored v habove ih =>
    rename_i n t
    rcases hostJsStore_cases ih.handled v with ⟨heq, _⟩ | hinserted
    · rw [heq]
      exact ih
    · obtain ⟨frame, hframes, hid, hnew, hold⟩ := ih.frames
      have htables : ∀ leaked, Tables a (leaked ++ a.listed) →
          Tables (hostJsTable.store t v).2 (leaked ++ (hostJsTable.store t v).2.listed) := by
        intro leaked htables
        exact hinserted.tables leaked (ih.tables leaked htables)
      rcases hinserted.frames with ⟨hnone, hpush⟩ | ⟨hget, hsame⟩
      · rw [hframes] at hpush
        refine ⟨hinserted.handled ih.handled, ⟨_, hpush, hid, ?_, ?_⟩, htables⟩
        · intro id hmem
          rcases List.mem_append.mp hmem with hmem | hmem
          · exact hnew id hmem
          · obtain rfl := List.mem_singleton.mp hmem
            by_cases hin : (hostJsTable.store t v).1 ∈ frame.handles
            · exact hnew _ hin
            · rw [← hold _ hin]
              exact hnone
        · intro id hmem
          rw [List.mem_append, not_or, List.mem_singleton] at hmem
          rw [hinserted.other id hmem.2]
          exact hold id hmem.1
      · refine ⟨hinserted.handled ih.handled, ⟨frame, hsame.trans hframes, hid, hnew, ?_⟩, htables⟩
        intro id hmem
        by_cases heq : id = (hostJsTable.store t v).1
        · rw [← hold id hmem, heq, hinserted.get, hget]
        · rw [hinserted.other id heq]
          exact hold id hmem

/-- Closing the innermost frame releases the handles it lists. -/
theorem closeValueFrame_innermost (h : Handled a) {scope : ℕ} (hb : InnermostFrame a scope b) :
    ∃ b', b.closeValueFrame scope = (true, b') ∧ Handled b' ∧ b'.valueFrames = a.valueFrames ∧
      (∀ id, b'.get id = a.get id) ∧
        b'.valueHandles.keys.length = a.valueHandles.keys.length := by
  obtain ⟨frame, hframes, hid, hnew, hold⟩ := hb.frames
  obtain ⟨leaked, htables⟩ := h.tables
  have hall := hb.tables leaked htables
  unfold listed at hall
  rw [hframes, List.flatMap_cons] at hall
  have hperm : (leaked ++ (frame.handles ++ a.listed)).Perm
      (frame.handles ++ (leaked ++ a.listed)) := by
    rw [← List.append_assoc, ← List.append_assoc]
    exact List.perm_append_comm.append_right _
  have hpopped : Tables { b with valueFrames := a.valueFrames }
      (frame.handles ++ (leaked ++ a.listed)) := (hall.perm hperm).withFrames _ _
  obtain ⟨hreleased, hget⟩ := hpopped.releases
  obtain ⟨hframes', hnext', _⟩ :=
    releaseValueHandles_eq frame.handles { b with valueFrames := a.valueFrames }
  refine ⟨{ b with valueFrames := a.valueFrames }.releaseValueHandles frame.handles, ?_, ?_,
    hframes', ?_, ?_⟩
  · unfold HostJsAgent.closeValueFrame
    rw [hframes]
    exact if_neg (not_not.mpr hid)
  · refine ⟨?_, ?_, leaked, ?_⟩
    · rw [hnext']
      exact hb.handled.next
    · rw [hframes']
      exact h.frames
    · unfold listed
      rw [hframes']
      exact hreleased
  · intro id
    by_cases hmem : id ∈ frame.handles
    · rw [hnew id hmem, hreleased.get_eq_none_iff]
      intro hin
      exact (List.nodup_append.mp hpopped.nodup).2.2 id hmem id hin rfl
    · rw [hget id hmem]
      exact hold id hmem
  · rw [length_handles hreleased, length_handles htables]

/-- A host-JS agent's handles are a lawful table with scopes. -/
theorem hostJsTable_lawful : Lawful hostJsTable Handled HasHandles where
  load_zero := fun _ => rfl
  store_inv := by
    intro a v h
    rcases hostJsStore_cases h v with ⟨heq, _⟩ | hinserted
    · rw [heq]
      exact h
    · exact hinserted.handled h
  store_load := by
    intro a v h hne
    rcases hostJsStore_cases h v with ⟨heq, _⟩ | hinserted
    · exact absurd (congrArg Prod.fst heq) hne
    · exact hinserted.get
  store_live := by
    intro a v w h hload
    rcases hostJsStore_cases h v with ⟨heq, _⟩ | hinserted
    · rw [heq] at hload
      cases hload
    · rcases hinserted.frames with ⟨hnone, _⟩ | ⟨hget, _⟩
      · rw [show a.get (hostJsTable.store a v).1 = some w from hload] at hnone
        cases hnone
      · rw [show a.get (hostJsTable.store a v).1 = some w from hload] at hget
        exact Option.some.inj hget
  store_other := by
    intro a v id h hid
    rcases hostJsStore_cases h v with ⟨heq, _⟩ | hinserted
    · rw [heq]
    · exact hinserted.other id hid
  store_frames := by
    intro a v h
    rcases hostJsStore_cases h v with ⟨heq, _⟩ | hinserted
    · left
      rw [heq]
    · rcases hinserted.frames with ⟨_, hframes⟩ | ⟨_, hframes⟩
      · right
        cases hcons : a.valueFrames with
        | nil => exact absurd hcons h.frames
        | cons frame frames =>
          rw [hcons] at hframes
          refine ⟨frame.id, (frame.handles : Multiset ℕ),
            frames.map fun f => (f.id, (f.handles : Multiset ℕ)), ?_, ?_⟩
          · show a.valueFrames.map _ = _
            rw [hcons]
            rfl
          · show (hostJsTable.store a v).2.valueFrames.map _ = _
            rw [hframes, pushHandle, List.map_cons]
            congr 2
            rw [← Multiset.coe_add, Multiset.add_comm, ← Multiset.singleton_add]
            rfl
      · left
        show (hostJsTable.store a v).2.valueFrames.map _ = _
        rw [hframes]
        rfl
  store_outer := fun _ _ => rfl
  store_room := by
    intro a v n h hroom
    rcases hostJsStore_cases h v with ⟨_, hfull⟩ | hinserted
    · refine absurd ?_ hfull
      unfold HasHandles at hroom ⊢
      omega
    · refine ⟨hinserted.ne, ?_⟩
      obtain ⟨leaked, htables⟩ := h.tables
      have hlength := length_handles (hinserted.tables leaked htables)
      unfold HasHandles at hroom ⊢
      rw [length_handles htables, List.length_append] at hroom
      rw [hlength, List.length_append]
      have hgrows := hinserted.length_listed h
      omega
  store_full := by
    intro a v h hne
    rcases hostJsStore_cases h v with ⟨heq, _⟩ | hinserted
    · exact absurd (congrArg Prod.fst heq) hne
    · exact hinserted.room
  open_inv := fun _ h => handled_openValueFrame h
  open_load := fun _ _ _ => rfl
  open_room := by
    intro a p n h
    exact Iff.rfl
  close := by
    intro a scope n b h habove
    obtain ⟨b', hclose, hhandled, hframes, hget, hlength⟩ :=
      closeValueFrame_innermost h (innermostFrame_above h habove)
    have hclosed : hostJsTable.closeScope b scope = (true, b') := hclose
    rw [hclosed]
    refine ⟨rfl, hhandled, ⟨?_, rfl, hget⟩, ?_⟩
    · show b'.valueFrames.map _ = a.valueFrames.map _
      rw [hframes]
    · intro k hroom
      unfold HasHandles at hroom ⊢
      rw [hlength]
      exact hroom

end HostJs

end WasmerNapi.Guest.Tables
