import WasmerNapi.Agent.Scopes

/-!
# Stale ids

*A stale or forged id fails the generation check in `LoadValue` and resolves to null
instead of aliasing whatever value later reuses the slot.* The generation has 12 bits, and
the free stack hands the slot just freed out again at once, so the sentence is true of a
slot for `2 ^ 12` retirements; and teardown clears the slots, generations included, before
the finalizers run, whose guest code mints from the first slot on.

Both are one thing seen from the agent's whole life: a slot's generation should be the
number of times the slot has been retired. `stale_iff_fresh` says that stale ids stay dead
exactly as long as every mint takes a slot of which this is still true.
-/

namespace WasmerNapi.Agent

open Word Run Bridge

section

variable {ν : Type}

/-- How often a slot has been retired in the agent's life. -/
def retirements (a : State ν) (i : ℕ) : ℕ := a.retired.countP fun id => slotOf id == i

/-- No id whose frame has been closed loads anything. -/
def Stale (a : State ν) : Prop := ∀ id ∈ a.retired, a.loadValue id = none

/-- The slot the next mint takes, and its generation. -/
def nextSlot (a : State ν) : Option (ℕ × ℕ) :=
  if a.valueLimit ≠ 0 ∧ a.valueLimit ≤ a.liveValueCount then none
  else
    match a.valueFreeSlots with
    | index :: _ => a.valueSlots[index]?.map fun slot => (index, slot.generation)
    | [] =>
      if kValueIdMaxSlots ≤ a.valueSlots.length then none else some (a.valueSlots.length, 0)

/-- The slot an operation mints into. -/
def takes (a : State ν) : Op ν → Option (ℕ × ℕ)
  | .mint (some _) => nextSlot a
  | .escape scopeId escapeeId (.ok (some _)) =>
    (a.escapeFrame scopeId escapeeId).bind fun _ => nextSlot a
  | _ => none

/-- The slot an operation mints into has a generation for each of its retirements. -/
def Fresh (a : State ν) (op : Op ν) : Prop := ∀ s ∈ takes a op, s.2 = retirements a s.1

instance (a : State ν) (op : Op ν) : Decidable (Fresh a op) :=
  inferInstanceAs (Decidable (∀ s ∈ takes a op, s.2 = retirements a s.1))

/-! ## Generations and retirements -/

/-- The ids retired so far are, for each slot, its first generations; a slot in use has the
    next one. -/
structure Gens (a : State ν) : Prop where
  few : ∀ i, retirements a i ≤ 2 ^ 12
  used : ∀ i slot, a.valueSlots[i]? = some slot → slot.inUse = true →
    slot.generation = retirements a i
  free : ∀ i slot, a.valueSlots[i]? = some slot → slot.inUse = false →
    slot.generation = retirements a i % 2 ^ 12
  retired : ∀ i g, i < kValueIdMaxSlots → g < 2 ^ 12 →
    (valueId i g ∈ a.retired ↔ g < retirements a i)
  ids : ∀ id ∈ a.retired, ∃ i g, i < kValueIdMaxSlots ∧ g < 2 ^ 12 ∧ id = valueId i g

variable {a a' b : State ν} {reserved pending : List ℕ} {i : ℕ} {op : Op ν}

theorem Gens.congr (h : Gens a) (hslots : b.valueSlots = a.valueSlots)
    (hretired : b.retired = a.retired) : Gens b := by
  obtain ⟨h₁, h₂, h₃, h₄, h₅⟩ := h
  constructor <;> simp only [retirements, hslots, hretired] at * <;> assumption

/-- **Stale ids load nothing**: the slot has moved on. -/
theorem Gens.stale (h : Gens a) : Stale a := by
  intro id hid
  obtain ⟨i, g, hi, hg, rfl⟩ := h.ids id hid
  have hlt := (h.retired i g hi hg).mp hid
  unfold State.loadValue
  rw [if_neg (valueId_bounds hi hg).1.ne', valueId_div hi hg, valueId_and hi hg]
  dsimp only
  split
  · rfl
  · rw [Nat.add_sub_cancel]
    split
    · rfl
    · rename_i slot hslot
      cases huse : slot.inUse with
      | false => rfl
      | true =>
        have hgen := h.used i slot hslot huse
        rw [if_pos]
        simp only [Bool.not_true, Bool.false_or, decide_eq_true_eq]
        omega

theorem retirements_cons {id : ℕ} {slots : List (ValueSlot ν)} {free : List ℕ} {live : ℕ} (j : ℕ) :
    retirements { a with
      valueSlots := slots, valueFreeSlots := free, liveValueCount := live
      retired := id :: a.retired } j = retirements a j + if slotOf id = j then 1 else 0 := by
  unfold retirements
  rw [List.countP_cons]
  simp only [beq_iff_eq]

theorem valueId_inj {i j g g' : ℕ} (hi : i < kValueIdMaxSlots) (hj : j < kValueIdMaxSlots)
    (hg : g < 2 ^ 12) (hg' : g' < 2 ^ 12) (h : valueId i g = valueId j g') : i = j ∧ g = g' := by
  rw [valueId_eq hi hg, valueId_eq hj hg'] at h
  omega

/-- A slot is freed, and its id is retired. -/
theorem Gens.freeValueSlot (h : Gens a) (ht : Tabled reserved (i :: pending) a)
    {slot : ValueSlot ν} (hslot : a.valueSlots[i]? = some slot) :
    Gens { a.freeValueSlot i with retired := valueId i slot.generation :: a.retired } := by
  have hmem : i ∈ reserved ++ a.valueFreeSlots ++ (i :: pending ++ ownedBy a.scopeFrames) :=
    List.mem_append_right _ (List.mem_cons_self ..)
  have hgen := ht.generation slot (List.mem_of_getElem? hslot)
  have huse : slot.inUse = true := (ht.inUse i slot hslot).mpr (List.mem_cons_self ..)
  have hlt := ht.lt hmem
  have hi : i < kValueIdMaxSlots := lt_of_lt_of_le hlt ht.size
  have hcount := h.used i slot hslot huse
  have hslotOf := slotOf_valueId hi hgen
  unfold State.freeValueSlot
  rw [hslot]
  simp only [huse, Bool.not_true, Bool.false_eq_true, if_false]
  have hret : ∀ j, retirements { a with
      valueSlots := a.valueSlots.set i
        { value := none, generation := (slot.generation + 1) &&& kValueIdGenMask, inUse := false }
      valueFreeSlots := i :: a.valueFreeSlots
      liveValueCount := a.liveValueCount - 1
      retired := valueId i slot.generation :: a.retired } j =
        retirements a j + if i = j then 1 else 0 := by
    intro j
    rw [retirements_cons, hslotOf]
  refine ⟨?_, ?_, ?_, ?_, ?_⟩
  · intro j
    rw [hret]
    have := h.few j
    split
    · rename_i hij
      subst hij
      omega
    · exact this
  · intro j slot' hj huse'
    rw [hret]
    by_cases hij : i = j
    · subst hij
      rw [List.getElem?_set_self hlt] at hj
      cases hj
      cases huse'
    · rw [List.getElem?_set_ne hij] at hj
      rw [if_neg hij, h.used j slot' hj huse', Nat.add_zero]
  · intro j slot' hj huse'
    rw [hret]
    by_cases hij : i = j
    · subst hij
      rw [List.getElem?_set_self hlt] at hj
      cases hj
      rw [if_pos rfl, next_generation, hcount]
    · rw [List.getElem?_set_ne hij] at hj
      rw [if_neg hij, h.free j slot' hj huse', Nat.add_zero]
  · intro j g hj hg
    rw [hret, List.mem_cons, h.retired j g hj hg]
    constructor
    · rintro (heq | hlt')
      · obtain ⟨rfl, rfl⟩ := valueId_inj hj hi hg hgen heq
        rw [if_pos rfl]
        omega
      · omega
    · intro hlt'
      by_cases hij : i = j
      · subst hij
        rw [if_pos rfl] at hlt'
        rcases Nat.lt_or_eq_of_le (Nat.le_of_lt_succ hlt') with hlt' | rfl
        · exact Or.inr hlt'
        · exact Or.inl (by rw [hcount])
      · rw [if_neg hij] at hlt'
        exact Or.inr hlt'
  · intro id hid
    rcases List.mem_cons.mp hid with rfl | hid
    · exact ⟨i, _, hi, hgen, rfl⟩
    · exact h.ids id hid

theorem freeValueSlot_retired (a : State ν) (i : ℕ) (retired : List ℕ) :
    { a with retired }.freeValueSlot i = { a.freeValueSlot i with retired } := by
  unfold State.freeValueSlot
  dsimp only
  split
  · rfl
  · split
    · rfl
    · rfl

theorem freeAll_retired (a : State ν) (retired : List ℕ) (items : List ℕ) :
    { a with retired }.freeAll items = { a.freeAll items with retired } := by
  induction items with
  | nil => rfl
  | cons i items ih =>
    show ({ a with retired }.freeAll items).freeValueSlot i =
      { (a.freeAll items).freeValueSlot i with retired }
    rw [ih, freeValueSlot_retired]

theorem freeValueSlot_others (a : State ν) {i j : ℕ} (hij : i ≠ j) :
    (a.freeValueSlot i).valueSlots[j]? = a.valueSlots[j]? := by
  unfold State.freeValueSlot
  split
  · rfl
  · split
    · rfl
    · exact List.getElem?_set_ne hij

theorem freeAll_others (a : State ν) {j : ℕ} {items : List ℕ} (hj : j ∉ items) :
    (a.freeAll items).valueSlots[j]? = a.valueSlots[j]? := by
  induction items with
  | nil => rfl
  | cons i items ih =>
    have hij : i ≠ j := fun heq => hj (heq ▸ List.mem_cons_self)
    exact (freeValueSlot_others _ hij).trans (ih fun hin => hj (List.mem_cons_of_mem _ hin))

/-- The slots of some ids in use are freed, and the ids are retired. -/
theorem Gens.freeAll (ids : List ℕ) : ∀ {pending : List ℕ}, Gens a →
    Tabled reserved (ids.map slotOf ++ pending) a →
    (∀ id ∈ ids, ∃ slot, a.valueSlots[slotOf id]? = some slot ∧
      id = valueId (slotOf id) slot.generation) →
    Gens { a.freeAll (ids.map slotOf) with retired := ids ++ a.retired } := by
  induction ids with
  | nil =>
    intro pending h _ _
    exact h
  | cons id ids ih =>
    intro pending h ht hids
    have hnot : slotOf id ∉ ids.map slotOf := by
      have hnodup := (List.nodup_append.mp (List.nodup_append.mp ht.nodup).2.1).1
      exact (List.nodup_cons.mp (List.nodup_append.mp hnodup).1).1
    have ht' : Tabled reserved (ids.map slotOf ++ (slotOf id :: pending)) a :=
      ht.perm_pending List.perm_middle.symm
    have hrest := ih h ht' fun id' hid' => hids id' (List.mem_cons_of_mem _ hid')
    obtain ⟨slot, hslot, hid⟩ := hids id List.mem_cons_self
    -- The slots freed before it are others.
    have hslot' : (a.freeAll (ids.map slotOf)).valueSlots[slotOf id]? = some slot :=
      (freeAll_others a hnot).trans hslot
    have hfreed := hrest.freeValueSlot
      ((Tabled.freeAll _ ht').congr rfl rfl rfl rfl rfl rfl) hslot'
    rw [freeValueSlot_retired, ← hid] at hfreed
    exact hfreed

theorem Gens.popCurrentFrame (h : Gens a) (ht : Tabled [] [] a) : Gens a.popCurrentFrame := by
  cases hframes : a.scopeFrames with
  | nil =>
    unfold State.popCurrentFrame
    rw [hframes]
    exact h
  | cons frame frames =>
    have hframe : frame ∈ a.scopeFrames := by
      rw [hframes]
      exact List.mem_cons_self
    have hitems : frame.ownedSlots.items = (frame.minted.map Prod.fst).map slotOf := by
      rw [List.map_map]
      exact ht.minted frame hframe
    have hpopped := ht.popped a.retired hframes
    rw [hitems] at hpopped
    have hfreed : Gens ({ a with
        scopeFrames := frames
        retired := frame.minted.map Prod.fst ++ a.retired }.freeAll frame.ownedSlots.items) := by
      rw [hitems, freeAll_retired { a with scopeFrames := frames }]
      refine Gens.freeAll _ (h.congr rfl rfl) hpopped ?_
      intro id hid
      obtain ⟨m, hm, rfl⟩ := List.mem_map.mp hid
      obtain ⟨slot, hslot, -, heq⟩ := ht.loads frame hframe m hm
      exact ⟨slot, hslot, heq⟩
    rw [popCurrentFrame_eq hframes]
    unfold State.closeFrame State.closeNapiScope State.keepBuffer
    split <;> split <;> try split
    all_goals exact hfreed.congr rfl rfl

theorem Gens.pushScopeFrame (h : Gens a) (scope escScope : Option ℕ) (id : ℕ) :
    Gens (a.pushScopeFrame scope escScope id) := by
  unfold State.pushScopeFrame State.currentFrame
  dsimp only
  split <;> split
  all_goals exact h.congr rfl rfl

theorem Gens.clear (h : Gens a) :
    Gens { a with valueSlots := [], valueFreeSlots := [], liveValueCount := 0 } :=
  ⟨h.few, fun _ _ hs => (nomatch hs), fun _ _ hs => (nomatch hs), h.retired, h.ids⟩

/-! ## Minting -/

/-- What a mint does, with the slot `nextSlot` names. -/
theorem store_cases (ht : Tabled [] [] a) (v : ν) (k : ℕ) :
    (nextSlot a = none ∧ a.storeValueInFrame (some v) k = (0, a)) ∨
      ∃ index slot b, nextSlot a = some (index, slot.generation) ∧
        a.storeValueInFrame (some v) k = b.mintAt v index k ∧
        b.valueSlots[index]? = some slot ∧ slot.inUse = false ∧
        (a.valueSlots[index]? = some slot ∨ slot.generation = 0) ∧
        (∀ j, j ≠ index → b.valueSlots[j]? = a.valueSlots[j]?) ∧ b.retired = a.retired ∧
        Tabled [index] [] b := by
  unfold nextSlot
  rcases storeValueInFrame_cases a (some v) k with
    ⟨heq, hv | hlimit | ⟨hfree, hsize⟩⟩ | ⟨v', index, b, hv, heq, hroom, hb⟩
  · cases hv
  · exact Or.inl ⟨if_pos hlimit, heq⟩
  · refine Or.inl ⟨?_, heq⟩
    split
    · rfl
    · simp only [hfree]
  · cases hv
    have hreserved := ht.reserve hb
    rw [if_neg fun hfull => absurd (hroom hfull.1) (Nat.not_lt.mpr hfull.2)]
    right
    rcases hb with ⟨free, hfree, rfl⟩ | ⟨hfree, rfl, hsize, rfl⟩
    · obtain ⟨slot, hslot, -⟩ := ht.slot (i := index) (by simp [hfree])
      obtain ⟨slot', hslot', huse⟩ := (ht.free_iff index).mp (by simp [hfree])
      obtain rfl := Option.some.inj (hslot.symm.trans hslot')
      refine ⟨index, slot, _, ?_, heq, hslot, huse, Or.inl hslot, fun _ _ => rfl, rfl, hreserved⟩
      rw [hfree]
      simp only [hslot, Option.map_some]
    · refine ⟨a.valueSlots.length, {}, _, ?_, heq, ?_, rfl, Or.inr rfl, ?_, rfl, hreserved⟩
      · rw [hfree]
        simp only
        rw [if_neg (Nat.not_le.mpr hsize)]
      · simp
      · intro j hj
        by_cases hlt : j < a.valueSlots.length
        · rw [List.getElem?_append_left hlt]
        · rw [List.getElem?_eq_none (by simp; omega), List.getElem?_eq_none (by omega)]

theorem retired_mintAt (b : State ν) (v : ν) (index k : ℕ) :
    (b.mintAt v index k).2.retired = b.retired := by
  unfold State.mintAt
  split
  · rfl
  · rfl

/-- A mint into a slot with a generation for each retirement keeps the generations. -/
theorem Gens.store (h : Gens a) (ht : Tabled [] [] a) (v : ν) (k : ℕ)
    (hfresh : ∀ s ∈ nextSlot a, s.2 = retirements a s.1) :
    Gens (a.storeValueInFrame (some v) k).2 := by
  rcases store_cases ht v k with ⟨-, heq⟩ |
    ⟨index, slot, b, hnext, heq, hslot, -, -, hothers, hretired, hreserved⟩
  · rw [heq]
    exact h
  · have hgen : slot.generation = retirements a index := hfresh (index, slot.generation) hnext
    have hlt : index < b.valueSlots.length := (List.getElem?_eq_some_iff.mp hslot).1
    have hret : (b.mintAt v index k).2.retired = a.retired :=
      (retired_mintAt b v index k).trans hretired
    have hslots : (b.mintAt v index k).2.valueSlots =
        b.valueSlots.set index { slot with value := some v, inUse := true } := by
      unfold State.mintAt
      rw [hslot]
    rw [heq]
    refine ⟨?_, ?_, ?_, ?_, ?_⟩
    · intro i
      rw [retirements, hret]
      exact h.few i
    · intro i slot' hi huse
      rw [retirements, hret]
      rw [hslots] at hi
      by_cases hii : index = i
      · subst hii
        rw [List.getElem?_set_self hlt] at hi
        cases hi
        exact hgen
      · rw [List.getElem?_set_ne hii, hothers i (Ne.symm hii)] at hi
        exact h.used i slot' hi huse
    · intro i slot' hi huse
      rw [retirements, hret]
      rw [hslots] at hi
      by_cases hii : index = i
      · subst hii
        rw [List.getElem?_set_self hlt] at hi
        cases hi
        cases huse
      · rw [List.getElem?_set_ne hii, hothers i (Ne.symm hii)] at hi
        exact h.free i slot' hi huse
    · intro i g hi hg
      rw [retirements, hret]
      exact h.retired i g hi hg
    · rw [hret]
      exact h.ids

/-- If no stale id loads after a mint, the id minted is none of them, so its slot had a
    generation for each retirement. -/
theorem Gens.fresh_of_stale (h : Gens a) (ht : Tabled [] [] a) (v : ν) {k : ℕ}
    (hk : k < a.scopeFrames.length) (hstale : Stale (a.storeValueInFrame (some v) k).2) :
    ∀ s ∈ nextSlot a, s.2 = retirements a s.1 := by
  intro s hs
  rcases store_cases ht v k with ⟨hnone, -⟩ |
    ⟨index, slot, b, hnext, heq, hslot, hfree, hold, -, hretired, hreserved⟩
  · rw [hnone] at hs
    cases hs
  · rw [hnext] at hs
    cases hs
    have ht' := ht.storeValueInFrame hk (some v)
    have hlt : index < b.valueSlots.length := (List.getElem?_eq_some_iff.mp hslot).1
    have hi : index < kValueIdMaxSlots := lt_of_lt_of_le hlt hreserved.size
    have hg : slot.generation < 2 ^ 12 := hreserved.generation slot (List.mem_of_getElem? hslot)
    rw [heq] at hstale ht'
    have hslot' : (b.mintAt v index k).2.valueSlots[index]? =
        some { slot with value := some v, inUse := true } := by
      unfold State.mintAt
      rw [hslot]
      exact List.getElem?_set_self hlt
    have hload := loadValue_valueId ht' hslot'
    have hnot : valueId index slot.generation ∉ a.retired := by
      intro hin
      have hnone := hstale (valueId index slot.generation)
        (by rw [retired_mintAt, hretired]; exact hin)
      rw [hload] at hnone
      cases hnone
    have hge := Nat.not_lt.mp fun hlt' => hnot ((h.retired index _ hi hg).mpr hlt')
    have hfew := h.few index
    show slot.generation = retirements a index
    rcases hold with hold | h0
    · have hmod := h.free index slot hold hfree
      rcases Nat.lt_or_eq_of_le hfew with hlt' | hfull
      · rw [hmod, Nat.mod_eq_of_lt hlt']
      · rw [hfull] at hge
        omega
    · omega

/-! ## Runs -/

theorem nextSlot_currentFrame (a : State ν) : nextSlot a.currentFrame = nextSlot a := by
  unfold State.currentFrame
  split
  · rfl
  · rfl

theorem retired_currentFrame (a : State ν) : a.currentFrame.retired = a.retired := by
  unfold State.currentFrame
  split
  · rfl
  · rfl

theorem Gens.currentFrame (h : Gens a) : Gens a.currentFrame := by
  unfold State.currentFrame
  split
  · exact h.congr rfl rfl
  · exact h

theorem gens_step (hs : step a op = some a') (hfresh : Fresh a op)
    (hi : Tabled [] [] a ∧ Gens a) : Tabled [] [] a' ∧ Gens a' := by
  have hmint : ∀ b k v, Mints a op b k v → ∀ s ∈ nextSlot b, s.2 = retirements b s.1 := by
    intro b k v hm s hnext
    cases hm with
    | mint v =>
      rw [nextSlot_currentFrame] at hnext
      rw [retirements, retired_currentFrame]
      exact hfresh s hnext
    | escape v hframe =>
      refine hfresh s ?_
      simp only [takes, hframe, Option.bind_some]
      exact hnext
  exact step_rule (I := fun a => Tabled [] [] a ∧ Gens a)
    (fun _ _ hab h => ⟨h.1.same hab, h.2.congr hab.slots hab.retired⟩)
    (fun _ h => ⟨h.1.currentFrame, h.2.currentFrame⟩)
    (fun _ h => ⟨h.1.popCurrentFrame, h.2.popCurrentFrame h.1⟩)
    (fun _ _ _ _ h => ⟨h.1.pushScopeFrame _ _ _, h.2.pushScopeFrame _ _ _⟩)
    (fun _ v k hk hf h => ⟨h.1.storeValueInFrame hk (some v), h.2.store h.1 v k hf⟩)
    (fun _ hframes h => ⟨h.1.clear hframes, h.2.clear⟩) hs hmint hi

/-- With the generations in order, a step keeps stale ids dead exactly if it is fresh. -/
theorem stale_step_iff (hi : Tabled [] [] a ∧ Gens a) :
    (∀ a', step a op = some a' → Stale a') ↔ Fresh a op := by
  constructor
  · intro hstale
    cases op with
    | mint val =>
      cases val with
      | none =>
        intro s hs
        cases hs
      | some v =>
        have hstored : Stale (a.currentFrame.storeValueInFrame (some v) 0).2 := hstale _ rfl
        have hfresh := hi.2.currentFrame.fresh_of_stale hi.1.currentFrame v
          (currentFrame_ne_nil a) hstored
        intro s hs
        have hs' : s ∈ nextSlot a.currentFrame := by rw [nextSlot_currentFrame]; exact hs
        have heq := hfresh s hs'
        rw [retirements, retired_currentFrame] at heq
        exact heq
    | escape scopeId escapeeId engine =>
      intro s hs
      cases engine with
      | error status => cases hs
      | ok result =>
        cases result with
        | none => cases hs
        | some v =>
          obtain ⟨⟨k, scope, escapee⟩, hframe, hnext⟩ := Option.bind_eq_some_iff.mp hs
          have hlogged : Gens (a.logged (.escaped scope escapee)) := hi.2.congr rfl rfl
          have ht : Tabled [] [] (a.logged (.escaped scope escapee)) :=
            hi.1.congr rfl rfl rfl rfl rfl rfl
          refine hlogged.fresh_of_stale ht v (escapeFrame_lt hframe) ?_ s hnext
          refine hstale _ ?_
          simp only [step, State.escapeHandle, hframe]
    | _ =>
      intro s hs
      cases hs
  · intro hfresh a' hs
    exact (gens_step hs hfresh hi).2.stale

theorem gens_init (limit : ℕ) : Gens ({ valueLimit := limit } : State ν) where
  few := fun _ => Nat.zero_le _
  used := fun _ _ hs => nomatch hs
  free := fun _ _ hs => nomatch hs
  retired := fun _ _ _ _ => ⟨fun h => (nomatch h), fun h => absurd h (Nat.not_lt_zero _)⟩
  ids := fun _ h => nomatch h

/-- **Exactly when stale ids stay dead.** In every state of a run no id of a closed frame
    loads anything, if and only if every mint of the run takes a slot whose generation is
    the number of times the slot has been retired in the agent's life. -/
theorem stale_iff_fresh (limit : ℕ) (ops : List (Op ν)) :
    AllStates step Stale { valueLimit := limit } ops ↔
      AllSteps step Fresh { valueLimit := limit } ops := by
  have hinit : Tabled [] [] ({ valueLimit := limit } : State ν) ∧
      Gens ({ valueLimit := limit } : State ν) := ⟨tabled_init limit, gens_init limit⟩
  have hsteps : AllSteps step (fun a op => ∀ a', step a op = some a' → Stale a')
      { valueLimit := limit } ops ↔ AllSteps step Fresh { valueLimit := limit } ops :=
    allSteps_iff_allSteps (fun _ _ _ hs hok hi => gens_step hs hok hi)
      (fun _ _ hi => stale_step_iff hi) hinit
  refine ⟨fun h => hsteps.mp h.2, fun h => ⟨?_, hsteps.mpr h⟩⟩
  intro id hid
  cases hid

/-- The slot an operation mints into has been retired fewer than `2 ^ 12` times, and never
    if it is new to the table: none is that was in use before teardown. -/
def Few (a : State ν) (op : Op ν) : Prop :=
  ∀ s ∈ takes a op, retirements a s.1 < 2 ^ 12 ∧
    (a.valueSlots.length ≤ s.1 → retirements a s.1 = 0)

theorem takes_nextSlot {s : ℕ × ℕ} (h : takes a op = some s) : nextSlot a = some s := by
  unfold takes at h
  split at h
  · exact h
  · obtain ⟨-, -, h⟩ := Option.bind_eq_some_iff.mp h
    exact h
  · cases h

theorem few_iff_fresh (ht : Tabled [] [] a) (h : Gens a) : Few a op ↔ Fresh a op := by
  refine forall₂_congr fun s hs => ?_
  have hnext := takes_nextSlot hs
  unfold nextSlot at hnext
  split at hnext
  · cases hnext
  · split at hnext
    · -- A slot off the free stack has the generation of its retirements, up to the wrap.
      rename_i index free hfree
      obtain ⟨slot, hslot, huse⟩ := (ht.free_iff index).mp (by simp [hfree])
      rw [hslot] at hnext
      cases hnext
      have hlt := (List.getElem?_eq_some_iff.mp hslot).1
      have hmod := h.free index slot hslot huse
      have hgen := ht.generation slot (List.mem_of_getElem? hslot)
      dsimp only
      omega
    · split at hnext
      · cases hnext
      · cases hnext
        dsimp only
        omega

theorem allSteps_few_iff_fresh (limit : ℕ) (ops : List (Op ν)) :
    AllSteps step Few { valueLimit := limit } ops ↔
      AllSteps step Fresh { valueLimit := limit } ops :=
  allSteps_iff_allSteps (fun _ _ _ hs hok hi => gens_step hs hok hi)
    (fun _ _ hi => few_iff_fresh hi.1 hi.2) ⟨tabled_init limit, gens_init limit⟩

end

/-! ## Two ways round -/

/-- A finalizer that mints one value. -/
def finalizerRound : List (Op ℕ) := [.enterFinalizer (some 100), .mint (some 1), .leave 0]

/-- Between two such finalizers: one slot, not in use, with generation `g`. -/
def parked (g : ℕ) (log : List (Event ℕ)) (retired : List ℕ) : State ℕ :=
  { valueSlots := [{ generation := g }], valueFreeSlots := [0], scopeFrames := [{}]
    spareOwnedSlots := [{ capacity := 1 }], log, retired }

theorem run_finalizerRound (g : ℕ) (log : List (Event ℕ)) (retired : List ℕ) :
    run step (parked g log retired) finalizerRound =
      some (parked ((g + 1) &&& kValueIdGenMask) (.closed 100 :: .opened 100 :: log)
        (valueId 0 g :: retired)) := by
  rfl

theorem run_finalizerRounds (n : ℕ) : ∀ (g : ℕ) (log : List (Event ℕ)) (retired : List ℕ),
    g < 2 ^ 12 → ∃ log' retired',
      run step (parked g log retired) (List.replicate n finalizerRound).flatten =
        some (parked ((g + n) % 2 ^ 12) log' retired') ∧ retired ⊆ retired' := by
  induction n with
  | zero =>
    intro g log retired hg
    refine ⟨log, retired, ?_, List.Subset.refl _⟩
    rw [Nat.add_zero, Nat.mod_eq_of_lt hg]
    rfl
  | succ n ih =>
    intro g log retired hg
    obtain ⟨log', retired', hr, hsub⟩ := ih ((g + 1) &&& kValueIdGenMask)
      (.closed 100 :: .opened 100 :: log) (valueId 0 g :: retired)
      (by rw [next_generation]; exact Nat.mod_lt _ (Nat.two_pow_pos 12))
    refine ⟨log', retired', ?_, List.Subset.trans (List.subset_cons_self _ _) hsub⟩
    rw [List.replicate_succ, List.flatten_cons, run_append, run_finalizerRound, Option.bind_some, hr,
      next_generation, Nat.mod_add_mod, Nat.add_right_comm]
    rfl

/-- The guest mints a value; the agent is disposed of; a finalizer mints another. -/
def mintInTeardown : List (Op ℕ) := [.mint (some 5), .dispose, .enterFinalizer none, .mint (some 6)]

/-- **The same id for another value**: in teardown, where the first id of the agent comes
    back at once, and without it after `2 ^ 12` finalizers. -/
theorem stale_ids_return :
    (∃ a : State ℕ, run step {} mintInTeardown = some a ∧ 4096 ∈ a.retired ∧
      a.loadValue 4096 = some 6) ∧
    ∃ a : State ℕ, run step {} ((List.replicate (2 ^ 12) finalizerRound).flatten ++ [.mint (some 9)]) =
        some a ∧ 4096 ∈ a.retired ∧ a.loadValue 4096 = some 9 := by
  constructor
  · exact ⟨_, rfl, by decide, by decide⟩
  · obtain ⟨log, retired, hr, hsub⟩ := run_finalizerRounds (2 ^ 12 - 1) 1
      [.closed 100, .opened 100] [4096] (by decide)
    have hfirst : run step ({} : State ℕ) finalizerRound =
        some (parked 1 [.closed 100, .opened 100] [4096]) := rfl
    refine ⟨((parked 0 log retired).storeValue (some 9)).2, ?_, ?_, ?_⟩
    · rw [show (2 : ℕ) ^ 12 = (2 ^ 12 - 1) + 1 from rfl, List.replicate_succ, List.flatten_cons,
        List.append_assoc, run_append, hfirst, Option.bind_some, run_append, hr]
      rfl
    · exact hsub (List.mem_singleton_self _)
    · rfl

end WasmerNapi.Agent
