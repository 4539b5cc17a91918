import WasmerNapi.Quickjs.ModuleCells

/-!
# The life of a module record

The count of a record is the number of scopes open on it, and a record that is to be destroyed is
none that an operation goes on to use. With `Base` this is kept by every step that is `Safe`, and
`records_live` is what it comes to.
-/

namespace WasmerNapi.Quickjs.ModuleRecords

open Function (update update_self update_of_ne)
open Run
open Table (update_cases)

variable {A K : Type} [DecidableEq A] [DecidableEq K]

/-- `active`: the count of a record is the number of its scopes, so none is freed under one.
    `requested`: a record whose destruction is put off is not borrowed by any operation, so what an
    operation goes on to use is there when it does. -/
structure Inv (s : State A K) : Prop where
  base : Base s.cells s.records s.next s.frees s.stack
  active : ∀ a r, s.heap a = some r → r.activeCalls = s.stack.count (.recordScope a r.id)
  requested : ∀ a r, s.heap a = some r → r.destroyRequested = true →
    ∀ f ∈ s.stack, f.borrows s.cells r.id = false
  defined : s.fault = false
  unscoped : s.early = false

section

variable {s : State A K} {f : Frame A K} {fs : List (Frame A K)} {a b : A} {id : ℕ} {r : Record A K}

omit [DecidableEq K]

omit [DecidableEq A] in
theorem recordAt_eq_some : s.recordAt a id = some r ↔ s.heap a = some r ∧ r.id = id := by
  simp [State.recordAt, Option.filter_eq_some_iff]

theorem find_eq_some : s.find a = some r ↔
    a ∈ s.records ∧ s.heap a = some r ∧ r.destroyRequested = false := by
  simp only [State.find, List.contains_iff_mem]
  split
  · next hmem => simp [hmem, Option.filter_eq_some_iff]
  · next hmem => simp [hmem]

omit [DecidableEq A] in
theorem cells_eq (h : s.heap a = some r) :
    s.cells a = some ⟨r.id, r.registered, r.linkedRecords⟩ := by
  rw [State.cells, h]
  rfl

theorem cells_setRecord : (s.setRecord a r).cells =
    update s.cells a (some ⟨r.id, r.registered, r.linkedRecords⟩) := by
  funext b
  by_cases heq : b = a
  · rw [heq, update_self]
    exact cells_eq (update_self ..)
  · rw [update_of_ne heq]
    show (update s.heap a (some r) b).map _ = _
    rw [update_of_ne heq]
    rfl

/-- Nothing that frames and lists know of. -/
theorem cells_setRecord_same {r' : Record A K} (h : s.heap a = some r) (hid : r'.id = r.id)
    (hreg : r'.registered = r.registered) (hlinks : r'.linkedRecords = r.linkedRecords) :
    (s.setRecord a r').cells = s.cells := by
  rw [cells_setRecord, hid, hreg, hlinks, ← cells_eq h, Function.update_eq_self]

omit [DecidableEq A] in
theorem Live.record (h : Live s.cells s.frees a id) :
    ∃ r, s.heap a = some r ∧ r.id = id ∧ r.registered = true ∧ s.frees id = 0 := by
  obtain ⟨⟨links, hc⟩, hf⟩ := h
  obtain ⟨r, hr, hcell⟩ := Option.map_eq_some_iff.mp hc
  obtain ⟨hid, hreg, _⟩ := Cell.mk.inj hcell
  exact ⟨r, hr, hid, hreg, hf⟩

omit [DecidableEq A] in
theorem Live.recordAt (h : Live s.cells s.frees a id) : ∃ r, s.recordAt a id = some r := by
  obtain ⟨r, hr, hid, _⟩ := h.record
  exact ⟨r, recordAt_eq_some.mpr ⟨hr, hid⟩⟩

end

section

variable {s : State A K} {f : Frame A K} {fs : List (Frame A K)} {a b : A} {id : ℕ} {r : Record A K}

/-! ## The invariant under the pieces of a step

A frame is taken off or put on, a scope opened or closed, a field of a record changes, a record
is freed. -/

theorem Inv.pop (hi : Inv s) (hs : s.stack = f :: fs) (hne : ∀ a id, f ≠ .recordScope a id) :
    Inv { s with stack := fs } := by
  have hbase := hi.base
  rw [hs] at hbase
  refine ⟨hbase.pop, ?_, ?_, hi.defined, hi.unscoped⟩
  · intro a r hr
    rw [hi.active a r hr, hs, List.count_cons_of_ne (hne a r.id)]
  · intro a r hr hreq g hg
    exact hi.requested a r hr hreq g (hs ▸ List.mem_cons_of_mem f hg)

theorem Inv.push (hi : Inv s) (hne : ∀ a id, f ≠ .recordScope a id) (hok : FrameOk s.cells s.frees f)
    (hapart : ∀ g ∈ s.stack, Apart s.cells f g)
    (hreq : ∀ a r, s.heap a = some r → r.destroyRequested = true → f.borrows s.cells r.id = false) :
    Inv (s.push f) := by
  refine ⟨hi.base.push hok hapart, ?_, ?_, hi.defined, hi.unscoped⟩
  · intro a r hr
    show r.activeCalls = (f :: s.stack).count _
    rw [List.count_cons_of_ne (hne a r.id)]
    exact hi.active a r hr
  · intro a r hr hr'
    exact List.forall_mem_cons.mpr ⟨hreq a r hr hr', hi.requested a r hr hr'⟩

/-- One record for each id. -/
theorem Inv.eq_of_id (hi : Inv s) {r' : Record A K} (ha : s.heap a = some r) (hb : s.heap b = some r')
    (hid : r.id = r'.id) : r = r' := by
  obtain rfl := hi.base.inj a b _ _ (cells_eq ha) (cells_eq hb) hid
  exact Option.some.inj (ha.symm.trans hb)

theorem Inv.live_of_mem (hi : Inv s) (hmem : a ∈ s.records) (ha : s.heap a = some r) :
    Live s.cells s.frees a r.id := by
  obtain ⟨id, hl⟩ := (hi.base.listed a).mp hmem
  rw [show r.id = id from hl.id_eq (cells_eq ha)]
  exact hl

/-- A field of a record changes that only the counts go by. -/
theorem Inv.setRecord (hi : Inv s) {r' : Record A K} (ha : s.heap a = some r) (hid : r'.id = r.id)
    (hreg : r'.registered = r.registered) (hlinks : r'.linkedRecords = r.linkedRecords)
    (hactive : r'.activeCalls = r.activeCalls)
    (hreq : r'.destroyRequested = true → ∀ f ∈ s.stack, f.borrows s.cells r.id = false) :
    Inv (s.setRecord a r') := by
  have hcells := cells_setRecord_same ha hid hreg hlinks
  refine ⟨?_, ?_, ?_, hi.defined, hi.unscoped⟩
  · rw [hcells]
    exact hi.base
  · intro b x hb
    rcases update_cases hb with ⟨heq, rfl⟩ | ⟨heq, hb⟩
    · rw [hactive, heq, hid]
      exact hi.active a r ha
    · exact hi.active b x hb
  · intro b x hb hx
    rw [hcells]
    rcases update_cases hb with ⟨heq, rfl⟩ | ⟨heq, hb⟩
    · rw [hid]
      exact hreq hx
    · exact hi.requested b x hb hx

/-- `free_record`: with a scope open the destruction is put off, else the record is out of the
    list and of all links. -/
theorem Inv.freeRecord (hi : Inv s) (ha : s.heap a = some r) (hid : r.id = id) (hfrees : s.frees id = 0)
    (hborrows : ∀ f ∈ s.stack, f.borrows s.cells id = false) : Inv (s.freeRecord a id) := by
  simp only [State.freeRecord, recordAt_eq_some.mpr ⟨ha, hid⟩]
  split
  · refine hi.setRecord ha rfl rfl rfl rfl ?_
    intro _
    rw [hid]
    exact hborrows
  · next hactive =>
    have hscope : Frame.recordScope a id ∉ s.stack := by
      rw [← List.count_eq_zero, ← hid, ← hi.active a r ha]
      exact not_not.mp hactive
    have hcells : ∀ b, (Option.map (fun r : Record A K => (⟨r.id, r.registered, r.linkedRecords⟩ : Cell A))
        (if (s.records.erase a).contains b then (s.heap b).map (State.nullLinks a) else s.heap b)) =
          freed s.cells s.records a b := by
      intro b
      simp only [freed, State.cells]
      split
      · cases s.heap b with
        | none => rfl
        | some x => rfl
      · rfl
    have hcells : ({ s with
        records := s.records.erase a
        heap := fun b => if (s.records.erase a).contains b then (s.heap b).map (State.nullLinks a) else s.heap b
        frees := update s.frees id (s.frees id + 1)
        early := s.early || s.stack.contains (.recordScope a id)
        stack := .freeing a id :: s.stack } : State A K).cells = freed s.cells s.records a := funext hcells
    have hheap : ∀ b x,
        (if (s.records.erase a).contains b then (s.heap b).map (State.nullLinks a) else s.heap b) =
        some x → ∃ y, s.heap b = some y ∧ x.id = y.id ∧ x.activeCalls = y.activeCalls ∧
          x.destroyRequested = y.destroyRequested := by
      intro b x hb
      split at hb
      · obtain ⟨y, hy, rfl⟩ := Option.map_eq_some_iff.mp hb
        exact ⟨y, hy, rfl, rfl, rfl⟩
      · exact ⟨x, hb, rfl, rfl, rfl⟩
    refine ⟨?_, ?_, ?_, hi.defined, ?_⟩
    · rw [hcells]
      exact hi.base.free (cells_eq ha) hid hfrees hborrows hscope
    · intro b x hb
      obtain ⟨y, hy, hxy, hcalls, _⟩ := hheap b x hb
      show x.activeCalls = (Frame.freeing a id :: s.stack).count _
      rw [List.count_cons_of_ne (fun h => by cases h), hcalls, hxy]
      exact hi.active b y hy
    · intro b x hb hx
      obtain ⟨y, hy, hxy, _, hreq⟩ := hheap b x hb
      rw [hcells]
      refine List.forall_mem_cons.mpr ⟨rfl, ?_⟩
      intro g hg
      have hold := hi.requested b y hy (hreq.symm.trans hx) g hg
      rw [← hxy] at hold
      by_contra hnew
      rw [borrows_freed_le (Bool.eq_true_of_not_eq_false hnew)] at hold
      cases hold
    · show (s.early || s.stack.contains (.recordScope a id)) = false
      rw [hi.unscoped, Bool.false_or, ← Bool.not_eq_true, List.contains_iff_mem]
      exact hscope

/-- A `record_scope` begins. -/
theorem Inv.openScope (hi : Inv s) (hmem : a ∈ s.records) (ha : s.heap a = some r) :
    Inv ((s.setRecord a { r with activeCalls := r.activeCalls + 1 }).push (.recordScope a r.id)) := by
  have hcells : (s.setRecord a { r with activeCalls := r.activeCalls + 1 }).cells = s.cells :=
    cells_setRecord_same ha rfl rfl rfl
  have hcells' : ((s.setRecord a { r with activeCalls := r.activeCalls + 1 }).push
      (.recordScope a r.id)).cells = s.cells := hcells
  refine ⟨?_, ?_, ?_, hi.defined, hi.unscoped⟩
  · rw [hcells']
    refine hi.base.push (hi.live_of_mem hmem ha) ?_
    intro g _
    exact ⟨nofun, nofun, nofun⟩
  · intro b x hb
    have hb : update s.heap a (some { r with activeCalls := r.activeCalls + 1 }) b = some x := hb
    show x.activeCalls = (Frame.recordScope a r.id :: s.stack).count _
    rcases update_cases hb with ⟨heq, rfl⟩ | ⟨heq, hb⟩
    · rw [heq, List.count_cons_self, ← hi.active a r ha]
    · rw [List.count_cons_of_ne]
      · exact hi.active b x hb
      · intro h
        exact heq (Frame.recordScope.inj h).1.symm
  · intro b x hb hx
    rw [hcells']
    refine List.forall_mem_cons.mpr ⟨rfl, ?_⟩
    rcases update_cases hb with ⟨heq, rfl⟩ | ⟨heq, hb⟩
    · exact hi.requested a r ha hx
    · exact hi.requested b x hb hx

/-- It ends; the record may be due to be freed. -/
theorem Inv.closeScope (hi : Inv s) (hs : s.stack = .recordScope a r.id :: fs) (ha : s.heap a = some r) :
    Inv ({ s with stack := fs }.setRecord a { r with activeCalls := r.activeCalls - 1 }) := by
  have hcells : ({ s with stack := fs }.setRecord a { r with activeCalls := r.activeCalls - 1 }).cells =
      s.cells :=
    cells_setRecord_same (s := { s with stack := fs }) ha rfl rfl rfl
  have hbase := hi.base
  rw [hs] at hbase
  refine ⟨?_, ?_, ?_, hi.defined, hi.unscoped⟩
  · rw [hcells]
    exact hbase.pop
  · intro b x hb
    have hb : update s.heap a (some { r with activeCalls := r.activeCalls - 1 }) b = some x := hb
    show x.activeCalls = fs.count _
    rcases update_cases hb with ⟨heq, rfl⟩ | ⟨heq, hb⟩
    · rw [heq]
      have hactive := hi.active a r ha
      rw [hs, List.count_cons_self] at hactive
      exact Nat.sub_eq_of_eq_add hactive
    · have hactive := hi.active b x hb
      rw [hs, List.count_cons_of_ne] at hactive
      · exact hactive
      · intro h
        exact heq (Frame.recordScope.inj h).1.symm
  · intro b x hb hx g hg
    rw [hcells]
    have hg : g ∈ s.stack := hs ▸ List.mem_cons_of_mem _ hg
    rcases update_cases hb with ⟨heq, rfl⟩ | ⟨heq, hb⟩
    · exact hi.requested a r ha hx g hg
    · exact hi.requested b x hb hx g hg

/-- The links of a record whose `link` is on top change, to records that are not to be destroyed. -/
theorem Inv.setLinks (hi : Inv s) {links : List (Option (A × ℕ))} (ha : s.heap a = some r)
    (hlive : Live s.cells s.frees a r.id) (hlinks : ∀ b i, some (b, i) ∈ links → Live s.cells s.frees b i)
    (hnot : ∀ f ∈ s.stack, f.linksOf r.id = false) :
    Inv (s.setRecord a { r with linkedRecords := links }) := by
  obtain ⟨⟨old, hc⟩, hfrees⟩ := hlive
  have hreg : r.registered = true :=
    congrArg Cell.registered (Option.some.inj ((cells_eq ha).symm.trans hc))
  have hcells : (s.setRecord a { r with linkedRecords := links }).cells =
      update s.cells a (some ⟨r.id, true, links⟩) := by
    rw [cells_setRecord, ← hreg]
  refine ⟨?_, ?_, ?_, hi.defined, hi.unscoped⟩
  · rw [hcells]
    exact hi.base.setLinks hc hfrees hlinks hnot
  · intro b x hb
    rcases update_cases hb with ⟨heq, rfl⟩ | ⟨heq, hb⟩
    · rw [heq]
      exact hi.active a r ha
    · exact hi.active b x hb
  · intro b x hb hx g hg
    rw [hcells, (hi.base.frames g hg).borrows_eq fun b i => update_of_linksOf hc hnot hg]
    rcases update_cases hb with ⟨heq, rfl⟩ | ⟨heq, hb⟩
    · exact hi.requested a r ha hx g hg
    · exact hi.requested b x hb hx g hg

/-- The record with the id is there, and is not to be destroyed. -/
def Wanted (s : State A K) (id : ℕ) : Prop := ∀ b x, s.heap b = some x → x.id = id → x.destroyRequested = false

omit [DecidableEq A] [DecidableEq K] in
theorem linksTo_false {x : ℕ} {i : ℕ} (ha : s.heap a = some r)
    (h : ∀ b j, some (b, j) ∈ r.linkedRecords → j ≠ x) : Frame.linksTo s.cells x a i = false := by
  rw [Frame.linksTo, cells_eq ha, Option.any_some, List.any_eq_false]
  intro l hl
  cases l with
  | none => exact Bool.false_ne_true
  | some l => exact fun hx => h l.1 l.2 (List.mem_of_mem_drop hl) (of_decide_eq_true hx)

/-- The loop of `link` goes to its next engine call, with the record and those it has linked so far
    not to be destroyed. -/
theorem Inv.linkNext (hi : Inv s) {linked : List A} {i : ℕ} (ha : s.heap a = some r)
    (hlive : Live s.cells s.frees a r.id) (hnot : ∀ f ∈ s.stack, f.linksOf r.id = false)
    (hlen : r.linkedRecords.length = i) (hall : ∀ l ∈ r.linkedRecords, l ≠ none) (hle : i ≤ linked.length)
    (hwanted : Wanted s r.id) (hlinks : ∀ b j, some (b, j) ∈ r.linkedRecords → Wanted s j) :
    Inv (s.linkNext a r.id r linked i) := by
  have hcell : ∀ cell, s.cells a = some cell → cell.links = r.linkedRecords := by
    intro cell hc
    rw [cells_eq ha] at hc
    rw [← Option.some.inj hc]
  have hkept : ∀ b x, s.heap b = some x → x.destroyRequested = true → r.id ≠ x.id ∧
      ∀ k, Frame.linksTo s.cells x.id a k = false := by
    intro b x hb hx
    constructor
    · intro heq
      rw [hwanted b x hb heq.symm] at hx
      cases hx
    · intro k
      refine linksTo_false ha ?_
      rintro d j hmem rfl
      rw [hlinks d _ hmem b x hb rfl] at hx
      cases hx
  unfold State.linkNext
  split
  · next hnone =>
    have hlen' : r.linkedRecords.length = linked.length :=
      Nat.le_antisymm (hlen ▸ hle) (hlen ▸ List.getElem?_eq_none_iff.mp hnone)
    refine hi.push (by simp) ?_ ?_ ?_
    · refine ⟨hlive, Nat.zero_le _, ?_⟩
      intro cell hc
      rw [hcell cell hc]
      exact ⟨hlen', hall⟩
    · intro g hg
      refine ⟨fun _ h => (by cases h), fun _ h => (by cases h), ?_⟩
      intro x hx
      obtain rfl : r.id = x := of_decide_eq_true hx
      exact hnot g hg
    · intro b x hb hx
      obtain ⟨hne, hto⟩ := hkept b x hb hx
      simp [Frame.borrows, hne, hto 0]
  · next target htarget =>
    split
    · exact hi
    · next t ht =>
      obtain ⟨hmem, hheap, hreq⟩ := find_eq_some.mp ht
      dsimp only
      split
      · exact hi
      · refine hi.push (by simp) ?_ ?_ ?_
        · refine ⟨hlive, hi.live_of_mem hmem hheap, (List.getElem?_eq_some_iff.mp htarget).1, ?_⟩
          intro cell hc
          rw [hcell cell hc]
          exact ⟨hlen, hall⟩
        · intro g hg
          refine ⟨fun _ h => (by cases h), fun _ h => (by cases h), ?_⟩
          intro x hx
          obtain rfl : r.id = x := of_decide_eq_true hx
          exact hnot g hg
        · intro b x hb hx
          obtain ⟨hne, hto⟩ := hkept b x hb hx
          have hne' : t.id ≠ x.id := by
            intro heq
            rw [hi.eq_of_id hheap hb heq] at hreq
            rw [hreq] at hx
            cases hx
          simp [Frame.borrows, hne, hne', hto 0]

/-- What the frame on top borrows is not to be destroyed. -/
theorem Inv.wanted (hi : Inv s) (hs : s.stack = f :: fs) (hb : f.borrows s.cells id = true) : Wanted s id := by
  rintro b x hx rfl
  by_contra hreq
  have hnot := hi.requested b x hx (Bool.eq_true_of_not_eq_false hreq) f (hs ▸ List.mem_cons_self ..)
  rw [hb] at hnot
  cases hnot

omit [DecidableEq A] [DecidableEq K] in
/-- A link that is still to be read counts. -/
theorem linksTo_of_mem {i k : ℕ} {l : A × ℕ} (ha : s.heap a = some r)
    (h : r.linkedRecords[k]? = some (some l)) (hle : i ≤ k) : Frame.linksTo s.cells l.2 a i = true := by
  rw [Frame.linksTo, cells_eq ha, Option.any_some, List.any_eq_true]
  refine ⟨some l, ?_, decide_eq_true rfl⟩
  rw [List.mem_iff_getElem?]
  refine ⟨k - i, ?_⟩
  rw [List.getElem?_drop, Nat.add_sub_cancel' hle]
  exact h

/-! ## One step -/

/-- `new record`: the address is free, and the id is new. -/
theorem create_inv (hi : Inv s) (ha : s.heap a = none) (requests : List K) :
    Inv ({ s.setRecord a { id := s.next } with next := s.next + 1 }.push (.creating a s.next requests)) := by
  have hnone : s.cells a = none := by
    rw [State.cells, ha]
    rfl
  have hcells : ({ s.setRecord a { id := s.next } with next := s.next + 1 }.push
      (.creating a s.next requests)).cells = update s.cells a (some ⟨s.next, false, []⟩) :=
    cells_setRecord
  have hbase := hi.base.create hnone requests
  refine ⟨?_, ?_, ?_, hi.defined, hi.unscoped⟩
  · rw [hcells]
    exact hbase
  · intro b x hb
    show x.activeCalls = (Frame.creating a s.next requests :: s.stack).count _
    rw [List.count_cons_of_ne (fun h => by cases h)]
    rcases update_cases hb with ⟨rfl, rfl⟩ | ⟨_, hb⟩
    · symm
      apply List.count_eq_zero.mpr
      intro hmem
      obtain ⟨⟨links, hl⟩, _⟩ := hi.base.frames _ hmem
      exact absurd (hi.base.bound b _ hl) (Nat.lt_irrefl _)
    · exact hi.active b x hb
  · intro b x hb hx
    rw [hcells]
    rcases update_cases hb with ⟨_, rfl⟩ | ⟨_, hb⟩
    · cases hx
    · have hne : s.next ≠ x.id := Nat.ne_of_gt (hi.base.bound b _ (cells_eq hb))
      refine List.forall_mem_cons.mpr ⟨decide_eq_false hne, ?_⟩
      intro g hg
      rw [(hi.base.frames g hg).borrows_eq]
      · exact hi.requested b x hb hx g hg
      · rintro d i _ ⟨⟨links, hl⟩, _⟩
        apply update_of_ne
        rintro rfl
        rw [hnone] at hl
        cases hl

/-- `records_.push_back`. From here on script can reach the record by its handle. -/
theorem register_inv (hi : Inv s) {requests : List K} (hs : s.stack = .creating a r.id requests :: fs)
    (ha : s.heap a = some r) :
    Inv ({ { s with stack := fs }.setRecord a { r with registered := true } with
      records := s.records ++ [a] }.push (.caching a r.id requests)) := by
  have hbase := hi.base
  rw [hs] at hbase
  obtain ⟨hc, _⟩ := hbase.frames _ (List.mem_cons_self ..)
  have hlinks : r.linkedRecords = [] :=
    congrArg Cell.links (Option.some.inj ((cells_eq ha).symm.trans hc))
  have hcells : ({ { s with stack := fs }.setRecord a { r with registered := true } with
      records := s.records ++ [a] }.push (.caching a r.id requests)).cells =
        update s.cells a (some ⟨r.id, true, []⟩) := by
    rw [← hlinks]
    exact cells_setRecord
  have hcases : ∀ b x, update s.heap a (some { r with registered := true }) b = some x →
      ∃ y, s.heap b = some y ∧ x.id = y.id ∧ x.activeCalls = y.activeCalls ∧
        x.destroyRequested = y.destroyRequested := by
    intro b x hb
    rcases update_cases hb with ⟨heq, rfl⟩ | ⟨heq, hb⟩
    · exact ⟨r, heq ▸ ha, rfl, rfl, rfl⟩
    · exact ⟨x, hb, rfl, rfl, rfl⟩
  refine ⟨?_, ?_, ?_, hi.defined, hi.unscoped⟩
  · rw [hcells]
    exact hbase.register
  · intro b x hb
    obtain ⟨y, hy, hid, hactive, _⟩ := hcases b x hb
    show x.activeCalls = (Frame.caching a r.id requests :: fs).count _
    rw [List.count_cons_of_ne (fun h => by cases h), hactive, hi.active b y hy, hs,
      List.count_cons_of_ne (fun h => by cases h), hid]
  · intro b x hb hx
    obtain ⟨y, hy, hid, _, hreq⟩ := hcases b x hb
    have hnot := hi.requested b y hy (hreq.symm.trans hx)
    rw [hs] at hnot
    obtain ⟨htop, hbelow⟩ := List.forall_mem_cons.mp hnot
    rw [hcells, hid]
    refine List.forall_mem_cons.mpr ⟨htop, ?_⟩
    intro g hg
    rw [(hbase.pop.frames g hg).borrows_eq]
    · exact hbelow g hg
    · rintro d i _ ⟨⟨links, hl⟩, _⟩
      apply update_of_ne
      rintro rfl
      cases Option.some.inj (hc.symm.trans hl)

/-- `delete entry`: nothing goes by a record that is freed. -/
theorem delete_inv (hi : Inv s) (hs : s.stack = .freeing a id :: fs) :
    Inv { s with stack := fs, heap := update s.heap a none } := by
  have hbase := hi.base
  rw [hs] at hbase
  have hcells : ({ s with stack := fs, heap := update s.heap a none } : State A K).cells =
      update s.cells a none := by
    funext b
    by_cases heq : b = a
    · rw [heq, update_self]
      show Option.map _ (update s.heap a none a) = none
      rw [update_self]
      rfl
    · rw [update_of_ne heq]
      show Option.map _ (update s.heap a none b) = _
      rw [update_of_ne heq]
      rfl
  have hheap : ∀ b x, update s.heap a none b = some x → s.heap b = some x :=
    fun _ _ hb => (Table.update_none_cases hb).2
  refine ⟨?_, ?_, ?_, hi.defined, hi.unscoped⟩
  · rw [hcells]
    exact hbase.delete
  · intro b x hb
    rw [hi.active b x (hheap b x hb), hs, List.count_cons_of_ne (fun h => by cases h)]
  · intro b x hb hx g hg
    rw [hcells, (hbase.pop.frames g hg).borrows_eq]
    · exact hi.requested b x (hheap b x hb) hx g (hs ▸ List.mem_cons_of_mem _ hg)
    · intro d i _ hd
      apply update_of_ne
      rintro rfl
      obtain ⟨cell, hc, hid, hone⟩ := hbase.frames _ (List.mem_cons_self ..)
      have hzero := hd.2
      rw [← hd.id_eq hc, hid, hone] at hzero
      cases hzero

/-- What a frame that makes a record does when it fails. -/
theorem abandon_inv (hi : Inv s) (hs : s.stack = f :: fs) (hne : ∀ a id, f ≠ .recordScope a id)
    (hmakes : f.makes r.id = true) (ha : s.heap a = some r) (hfrees : s.frees r.id = 0) :
    Inv ({ s with stack := fs }.freeRecord a r.id) := by
  refine (hi.pop hs hne).freeRecord ha rfl hfrees ?_
  intro g hg
  have hapart := hi.base.apart
  rw [hs] at hapart
  exact ((List.pairwise_cons.mp hapart).1 g hg).makes r.id hmakes

/-- `JS_SetModuleRequestModule` has returned. What the frame borrowed, its own record, the target
    and the links so far, is what the next frame borrows. -/
theorem linking_inv (hi : Inv s) {linked : List A} {i : ℕ} {target : A} {targetId : ℕ}
    (hs : s.stack = .linking a id linked i target targetId :: fs) :
    Inv ({ s with stack := fs }.advance true (.linking a id linked i target targetId)) := by
  have hbase := hi.base
  rw [hs] at hbase
  obtain ⟨hlive, htarget, hlt, hcell⟩ := hbase.frames _ (List.mem_cons_self ..)
  obtain ⟨r, ha, rfl, hreg, hfrees⟩ := hlive.record
  obtain ⟨hlen, hall⟩ := hcell _ (cells_eq ha)
  have hpop := hi.pop hs nofun
  have hnot : ∀ g ∈ fs, g.linksOf r.id = false := fun g hg =>
    ((List.pairwise_cons.mp hbase.apart).1 g hg).links r.id (decide_eq_true rfl)
  have hborrows : ∀ x, (Frame.linking a r.id linked i target targetId : Frame A K).borrows s.cells x = true →
      Wanted s x := fun x => hi.wanted hs
  have hat : ({ s with stack := fs } : State A K).recordAt a r.id = some r :=
    recordAt_eq_some.mpr ⟨ha, rfl⟩
  simp only [State.advance, hat, if_true]
  -- The new link joins the others, and the record it is to is there.
  have hlinks : ∀ b j, some (b, j) ∈ r.linkedRecords ++ [some (target, targetId)] →
      Live s.cells s.frees b j ∧ Wanted s j := by
    intro b j hmem
    rcases List.mem_append.mp hmem with hmem | hmem
    · refine ⟨hi.base.links a _ (cells_eq ha) hfrees b j hmem, hborrows j ?_⟩
      obtain ⟨k, hk⟩ := List.mem_iff_getElem?.mp hmem
      simp [Frame.borrows, linksTo_of_mem ha hk (Nat.zero_le k)]
    · obtain ⟨rfl, rfl⟩ := Prod.mk.inj (Option.some.inj (List.mem_singleton.mp hmem))
      exact ⟨htarget, hborrows j (by simp [Frame.borrows])⟩
  have hset : Inv ({ s with stack := fs }.setRecord a
      { r with linkedRecords := r.linkedRecords ++ [some (target, targetId)] }) :=
    hpop.setLinks ha hlive (fun b j hmem => (hlinks b j hmem).1) hnot
  have hwanted : ∀ x, Wanted s x → Wanted ({ s with stack := fs }.setRecord a
      { r with linkedRecords := r.linkedRecords ++ [some (target, targetId)] }) x := by
    intro x hx b y hb hid
    rcases update_cases hb with ⟨heq, rfl⟩ | ⟨heq, hb⟩
    · exact hx a r ha hid
    · exact hx b y hb hid
  have hkept : ∀ b j, Live s.cells s.frees b j → Live ({ s with stack := fs }.setRecord a
      { r with linkedRecords := r.linkedRecords ++ [some (target, targetId)] }).cells s.frees b j := by
    rintro b j ⟨⟨l, hl⟩, hf⟩
    refine ⟨?_, hf⟩
    rw [cells_setRecord]
    by_cases heq : b = a
    · rw [heq, cells_eq ha] at hl
      obtain ⟨rfl, hreg', _⟩ := Cell.mk.inj (Option.some.inj hl)
      rw [heq, update_self]
      exact ⟨_, by rw [hreg']⟩
    · rw [update_of_ne heq]
      exact ⟨l, hl⟩
  obtain ⟨t, ht⟩ := (hkept target targetId htarget).recordAt
  rw [ht]
  refine hset.linkNext (update_self ..) (hkept a r.id hlive) hnot ?_ ?_ hlt
    (hwanted _ (hborrows r.id (by simp [Frame.borrows]))) ?_
  · show (r.linkedRecords ++ [some (target, targetId)]).length = i + 1
    rw [List.length_append, hlen]
    rfl
  · intro l hl
    rcases List.mem_append.mp hl with hl | hl
    · exact hall l hl
    · rw [List.mem_singleton.mp hl]
      exact Option.some_ne_none _
  · intro b j hmem
    exact hwanted j (hlinks b j hmem).2

/-- The wrapper of link `i` is read, or the record's own. The link that was read is borrowed no
    more. -/
theorem retaining_inv (hi : Inv s) {count i : ℕ} (hs : s.stack = .retaining a id count i :: fs) :
    Inv ({ s with stack := fs }.advance true (.retaining a id count i)) := by
  have hbase := hi.base
  rw [hs] at hbase
  have hpop := hi.pop hs nofun
  obtain ⟨hlive, hle, hcell⟩ := hbase.frames _ (List.mem_cons_self ..)
  obtain ⟨r, ha, rfl, hreg, hfrees⟩ := hlive.record
  obtain ⟨hlen, hall⟩ := hcell _ (cells_eq ha)
  have hat : ({ s with stack := fs } : State A K).recordAt a r.id = some r :=
    recordAt_eq_some.mpr ⟨ha, rfl⟩
  simp only [State.advance, hat, if_true]
  split
  · exact hpop
  · next hne =>
    have hlt : i < r.linkedRecords.length := lt_of_lt_of_eq (Nat.lt_of_le_of_ne hle hne) hlen.symm
    have hget : r.linkedRecords[i]? = some r.linkedRecords[i] := List.getElem?_eq_getElem hlt
    have hmem : r.linkedRecords[i] ∈ r.linkedRecords.drop i := by
      rw [List.drop_eq_getElem_cons hlt]
      exact List.mem_cons_self ..
    obtain ⟨⟨target, targetId⟩, hsome⟩ := Option.ne_none_iff_exists'.mp (hall _ hmem)
    have htarget : Live s.cells s.frees target targetId :=
      hi.base.links a _ (cells_eq ha) hfrees target targetId (hsome ▸ List.getElem_mem hlt)
    obtain ⟨t, ht⟩ := htarget.recordAt
    have ht : ({ s with stack := fs } : State A K).recordAt target targetId = some t := ht
    rw [hget, hsome]
    dsimp only
    rw [ht]
    dsimp only
    refine hpop.push nofun ?_ ?_ ?_
    · refine ⟨hlive, lt_of_lt_of_eq hlt hlen, ?_⟩
      intro cell hc
      obtain rfl := Option.some.inj ((cells_eq ha).symm.trans hc)
      refine ⟨hlen, ?_⟩
      intro l hl
      apply hall
      rw [List.drop_eq_getElem_cons hlt]
      exact List.mem_cons_of_mem _ hl
    · intro g hg
      refine ⟨nofun, nofun, ?_⟩
      exact ((List.pairwise_cons.mp hbase.apart).1 g hg).links
    · intro b x hb hx
      have hold := hi.requested b x hb hx _ (hs ▸ List.mem_cons_self ..)
      simp only [Frame.borrows, Bool.or_eq_false_iff, decide_eq_false_iff_not] at hold ⊢
      have hto : Frame.linksTo s.cells x.id a (i + 1) = false := by
        rw [Frame.linksTo, cells_eq ha, Option.any_some] at hold ⊢
        rw [List.drop_eq_getElem_cons hlt, List.any_cons, Bool.or_eq_false_iff] at hold
        exact hold.2.2
      exact ⟨hold.1, hto⟩

/-- What the frame on top does next, one kind of frame at a time. -/
theorem advance_inv (hi : Inv s) (hs : s.stack = f :: fs) (ok : Bool) (hsafe : Safe s (.advance ok)) :
    Inv ({ s with stack := fs }.advance ok f) := by
  have hok := hi.base.frames f (hs ▸ List.mem_cons_self ..)
  have hapart : ∀ g ∈ fs, Apart s.cells f g := by
    have hall := hi.base.apart
    rw [hs] at hall
    exact (List.pairwise_cons.mp hall).1
  cases f with
  | creating a id requests =>
    obtain ⟨hc, hfrees⟩ := hok
    obtain ⟨r, ha, hcell⟩ := Option.map_eq_some_iff.mp hc
    obtain ⟨rfl, hreg, _⟩ := Cell.mk.inj hcell
    have hat : ({ s with stack := fs } : State A K).recordAt a r.id = some r :=
      recordAt_eq_some.mpr ⟨ha, rfl⟩
    simp only [State.advance, hat]
    split
    · exact register_inv hi hs ha
    · exact abandon_inv hi hs nofun (decide_eq_true rfl) ha hfrees
  | caching a id requests =>
    obtain ⟨r, ha, rfl, hreg, hfrees⟩ := Live.record hok
    have hat : ({ s with stack := fs } : State A K).recordAt a r.id = some r :=
      recordAt_eq_some.mpr ⟨ha, rfl⟩
    have hpop := hi.pop hs nofun
    simp only [State.advance, hat]
    split
    · have hset : Inv ({ s with stack := fs }.setRecord a { r with requests }) := by
        refine hpop.setRecord ha rfl rfl rfl rfl ?_
        exact hpop.requested a r ha
      have hcells : ({ s with stack := fs }.setRecord a { r with requests }).cells = s.cells :=
        cells_setRecord_same (s := { s with stack := fs }) ha rfl rfl rfl
      refine hset.push nofun ?_ ?_ ?_
      · rw [hcells]
        exact hok
      · rw [hcells]
        intro g hg
        exact ⟨(hapart g hg).makes, nofun, nofun⟩
      · intro b x hb hx
        rcases update_cases hb with ⟨heq, rfl⟩ | ⟨heq, hb⟩
        · exact hi.requested a r ha hx _ (hs ▸ List.mem_cons_self ..)
        · exact hi.requested b x hb hx _ (hs ▸ List.mem_cons_self ..)
    · exact abandon_inv hi hs nofun (decide_eq_true rfl) ha hfrees
  | naming a id =>
    obtain ⟨r, ha, rfl, hreg, hfrees⟩ := Live.record hok
    simp only [State.advance]
    split
    · exact hi.pop hs nofun
    · exact abandon_inv hi hs nofun (decide_eq_true rfl) ha hfrees
  | freeing a id =>
    obtain ⟨cell, hc, hid, _⟩ := hok
    obtain ⟨r, ha, rfl⟩ := Option.map_eq_some_iff.mp hc
    have hat : ({ s with stack := fs } : State A K).recordAt a id = some r :=
      recordAt_eq_some.mpr ⟨ha, hid⟩
    simp only [State.advance, hat]
    exact delete_inv hi hs
  | recordScope a id =>
    obtain ⟨r, ha, rfl, hreg, hfrees⟩ := Live.record hok
    have hat : ({ s with stack := fs } : State A K).recordAt a r.id = some r :=
      recordAt_eq_some.mpr ⟨ha, rfl⟩
    have hclose := hi.closeScope hs ha
    simp only [State.advance, hat]
    split
    · next hlast =>
      have hcells : ({ s with stack := fs }.setRecord a { r with activeCalls := r.activeCalls - 1 }).cells =
          s.cells :=
        cells_setRecord_same (s := { s with stack := fs }) ha rfl rfl rfl
      refine hclose.freeRecord (update_self ..) rfl hfrees ?_
      rw [hcells]
      intro g hg
      exact hi.requested a r ha hlast.2 g (hs ▸ List.mem_cons_of_mem _ hg)
    · exact hclose
  | unlinking a id linked =>
    obtain ⟨r, ha, rfl, hreg, hfrees⟩ := Live.record hok
    have hat : ({ s with stack := fs } : State A K).recordAt a r.id = some r :=
      recordAt_eq_some.mpr ⟨ha, rfl⟩
    have hpop := hi.pop hs nofun
    have hnot : ∀ g ∈ fs, g.linksOf r.id = false :=
      fun g hg => (hapart g hg).links r.id (decide_eq_true rfl)
    have hset : Inv ({ s with stack := fs }.setRecord a { r with linkedRecords := [] }) :=
      hpop.setLinks ha hok nofun hnot
    have hself : ({ s with stack := fs }.setRecord a { r with linkedRecords := [] }).heap a =
        some { r with linkedRecords := [] } := update_self ..
    simp only [State.advance, hat]
    refine Inv.linkNext (r := { r with linkedRecords := [] }) hset hself ?_ hnot rfl
      nofun (Nat.zero_le _) ?_ nofun
    · refine ⟨⟨[], ?_⟩, hfrees⟩
      rw [cells_setRecord, update_self, ← hreg]
    · intro b x hb hid
      have hb : update s.heap a (some { r with linkedRecords := [] }) b = some x := hb
      have hwanted : Wanted s r.id := hi.wanted hs (decide_eq_true rfl)
      rcases update_cases hb with ⟨heq, rfl⟩ | ⟨heq, hb⟩
      · exact hwanted a r ha rfl
      · exact hwanted b x hb hid
  | linking a id linked i target targetId =>
    cases ok with
    | true => exact linking_inv hi hs
    | false => exact hi.pop hs nofun
  | retaining a id count i =>
    cases ok with
    | true => exact retaining_inv hi hs
    | false => exact hi.pop hs nofun
  | holding a id =>
    obtain ⟨r, hat⟩ := Live.recordAt hok
    have hat : ({ s with stack := fs } : State A K).recordAt a id = some r := hat
    simp only [State.advance, hat]
    exact hi.pop hs nofun
  | teardown =>
    have hpop := hi.pop hs nofun
    simp only [State.advance]
    split
    · exact { hpop with }
    · next a hlast =>
      have hmem : a ∈ s.records := List.mem_of_getLast? hlast
      obtain ⟨id, hlive⟩ := (hi.base.listed a).mp hmem
      obtain ⟨r, ha, rfl, hreg, hfrees⟩ := hlive.record
      have hsame : ({ s with stack := fs } : State A K).push .teardown = s := by
        rw [State.push, ← hs]
      have hnot := hsafe (by rw [hs]; rfl)
      have hlast : s.records.getLast? = some a := hlast
      rw [hlast, Option.bind_some, ha, Option.all_some, List.all_eq_true] at hnot
      rw [show ({ s with stack := fs } : State A K).heap a = some r from ha]
      dsimp only
      rw [hsame]
      refine hi.freeRecord ha rfl hfrees ?_
      intro g hg
      simpa using hnot g hg

end

/-- An operation begins, or the one on top goes on. `Safe` is used where a record is freed, and
    where a `link` begins. -/
theorem step_inv (s : State A K) (act : Act A K) (s' : State A K) (hs : step s act = some s')
    (hsafe : Safe s act) (hi : Inv s) : Inv s' := by
  cases act with
  | create a requests =>
    simp only [step] at hs
    split at hs
    · cases hs
    · next ha =>
      cases hs
      exact create_inv hi ha requests
  | destroy a =>
    simp only [step] at hs
    split at hs
    · cases hs
      exact hi
    · next r hr =>
      cases hs
      obtain ⟨hmem, ha, _⟩ := find_eq_some.mp hr
      refine hi.freeRecord ha rfl (hi.live_of_mem hmem ha).2 ?_
      intro g hg
      simp only [Safe, hr, Option.all_some, List.all_eq_true] at hsafe
      simpa using hsafe g hg
  | link a linked linkable =>
    simp only [step] at hs
    split at hs
    · cases hs
      exact hi
    · next r hr =>
      split at hs
      · cases hs
        obtain ⟨hmem, ha, hreq⟩ := find_eq_some.mp hr
        refine hi.push nofun (hi.live_of_mem hmem ha) ?_ ?_
        · intro g hg
          refine ⟨nofun, nofun, ?_⟩
          intro x hx
          obtain rfl : r.id = x := of_decide_eq_true hx
          simp only [Safe, hr, Option.all_some, List.all_eq_true] at hsafe
          simpa using hsafe g hg
        · intro b x hb hx
          refine decide_eq_false ?_
          intro hid
          rw [← hi.eq_of_id ha hb hid, hreq] at hx
          cases hx
      · cases hs
        exact hi
  | call a =>
    simp only [step] at hs
    split at hs
    · cases hs
      exact hi
    · next r hr =>
      cases hs
      obtain ⟨hmem, ha, _⟩ := find_eq_some.mp hr
      exact hi.openScope hmem ha
  | reach a =>
    simp only [step] at hs
    split at hs
    · next hmem =>
      obtain ⟨r, ha, rfl⟩ := Option.map_eq_some_iff.mp hs
      exact hi.openScope (List.contains_iff_mem.mp hmem) ha
    · cases hs
  | use a =>
    simp only [step] at hs
    split at hs
    · cases hs
      exact hi
    · next r hr =>
      cases hs
      obtain ⟨hmem, ha, hreq⟩ := find_eq_some.mp hr
      refine hi.push nofun (hi.live_of_mem hmem ha) ?_ ?_
      · intro g _
        exact ⟨nofun, nofun, nofun⟩
      · intro b x hb hx
        refine decide_eq_false ?_
        intro hid
        rw [← hi.eq_of_id ha hb hid, hreq] at hx
        cases hx
  | teardown =>
    simp only [step] at hs
    split at hs
    · cases hs
      exact hi
    · cases hs
      refine hi.push nofun trivial ?_ (fun _ _ _ _ => rfl)
      intro g _
      exact ⟨nofun, nofun, nofun⟩
  | advance ok =>
    simp only [step] at hs
    split at hs
    · cases hs
    · next f fs hstack =>
      cases hs
      exact advance_inv hi hstack ok hsafe

theorem init_inv : Inv ({} : State A K) where
  base :=
    { nodup := List.nodup_nil
      listed := fun a => ⟨nofun, fun ⟨_, ⟨_, h⟩, _⟩ => (by cases h)⟩
      bound := nofun
      inj := nofun
      once := fun _ => Nat.zero_le 1
      kept := fun _ h => absurd h (Nat.not_lt_zero _)
      fresh := fun _ _ => rfl
      unlisted := nofun
      links := nofun
      frames := nofun
      apart := List.Pairwise.nil }
  active _ _ h := by cases h
  requested _ _ h := by cases h
  defined := rfl
  unscoped := rfl

/-! ## Teardown

The loop frees the last record of the list until there is none. Finalizers may do anything that
is `Safe` meanwhile; `ends` is about the run in which they do nothing, and by `records_live` every
state they leave is one it starts from. -/

section

variable {s : State A K} {fs : List (Frame A K)} {a : A} {r : Record A K}

/-- One round of the loop, with no finalizer that does anything. -/
def tornOff (s : State A K) (a : A) (id : ℕ) : State A K :=
  { s with
    records := s.records.erase a
    heap := update
      (fun b => if (s.records.erase a).contains b then (s.heap b).map (State.nullLinks a) else s.heap b) a none
    frees := update s.frees id (s.frees id + 1)
    early := s.early || s.stack.contains (.recordScope a id) }

/-- The record is freed, and its values; then it is deleted. -/
theorem teardown_round (hs : s.stack = .teardown :: fs) (hnodup : s.records.Nodup)
    (hlast : s.records.getLast? = some a) (ha : s.heap a = some r) (hactive : r.activeCalls = 0)
    (as : List (Act A K)) :
    run step s (.advance true :: .advance true :: as) = run step (tornOff s a r.id) as := by
  have hnot : (s.records.erase a).contains a = false := by
    rw [← Bool.not_eq_true, List.contains_iff_mem]
    exact hnodup.not_mem_erase
  have hat : ({ s with stack := Frame.teardown :: fs } : State A K).recordAt a r.id = some r :=
    recordAt_eq_some.mpr ⟨ha, rfl⟩
  have hfree : step s (.advance true) = some { tornOff s a r.id with
      heap := fun b => if (s.records.erase a).contains b then (s.heap b).map (State.nullLinks a) else s.heap b
      stack := .freeing a r.id :: .teardown :: fs } := by
    simp only [step, hs, State.advance, hlast, ha, State.push, State.freeRecord, hat, hactive, tornOff]
    rfl
  have hdelete : step { tornOff s a r.id with
      heap := fun b => if (s.records.erase a).contains b then (s.heap b).map (State.nullLinks a) else s.heap b
      stack := .freeing a r.id :: .teardown :: fs } (.advance true) = some (tornOff s a r.id) := by
    have hat' : ({ tornOff s a r.id with
        heap := fun b => if (s.records.erase a).contains b then (s.heap b).map (State.nullLinks a) else s.heap b
        stack := .teardown :: fs } : State A K).recordAt a r.id = some r := by
      refine recordAt_eq_some.mpr ⟨?_, rfl⟩
      show (if (s.records.erase a).contains a then _ else s.heap a) = some r
      rw [hnot]
      exact ha
    simp only [step, State.advance, hat']
    rw [tornOff, hs]
  rw [run, hfree, Option.bind_some, run, hdelete, Option.bind_some]

/-- By induction on how many records are left. -/
theorem teardown_ends (n : ℕ) : ∀ (s : State A K), s.records.length = n → s.stack = .teardown :: fs →
    s.records.Nodup → (∀ a ∈ s.records, ∃ r, s.heap a = some r ∧ r.activeCalls = 0) →
    (∀ a b r x, s.heap a = some r → s.heap b = some x → r.id = x.id → a = b) →
    ∃ k t, run step s (List.replicate k (.advance true)) = some t ∧ t.records = [] ∧ t.tornDown = true ∧
      (∀ a r, a ∈ s.records → s.heap a = some r → t.frees r.id = s.frees r.id + 1) ∧
      ∀ id, (∀ a r, a ∈ s.records → s.heap a = some r → r.id ≠ id) → t.frees id = s.frees id := by
  induction n with
  | zero =>
    intro s hlen hs _ _ _
    have hnil : s.records = [] := List.eq_nil_of_length_eq_zero hlen
    refine ⟨1, { s with stack := fs, tornDown := true }, ?_, hnil, rfl, ?_, fun _ _ => rfl⟩
    · rw [List.replicate_one, run, step, hs]
      simp only [State.advance, hnil]
      rfl
    · intro a r hmem
      rw [hnil] at hmem
      cases hmem
  | succ n ih =>
    intro s hlen hs hnodup hall hinj
    have hne : s.records ≠ [] := by
      intro h
      rw [h] at hlen
      cases hlen
    have hlast := List.getLast?_eq_some_getLast hne
    generalize s.records.getLast hne = a at hlast
    have hmem : a ∈ s.records := List.mem_of_getLast? hlast
    obtain ⟨r, ha, hactive⟩ := hall a hmem
    -- What is left is as it was, but for its links.
    have hheap : ∀ b x, (tornOff s a r.id).heap b = some x →
        ∃ y, s.heap b = some y ∧ x.id = y.id ∧ x.activeCalls = y.activeCalls ∧ b ≠ a := by
      intro b x hb
      have hb : update (fun b => if (s.records.erase a).contains b then
        (s.heap b).map (State.nullLinks a) else s.heap b) a none b = some x := hb
      obtain ⟨heq, hb⟩ := Table.update_none_cases hb
      split at hb
      · obtain ⟨y, hy, rfl⟩ := Option.map_eq_some_iff.mp hb
        exact ⟨y, hy, rfl, rfl, heq⟩
      · exact ⟨x, hb, rfl, rfl, heq⟩
    have hleft : ∀ b ∈ s.records.erase a, ∀ y, s.heap b = some y →
        (tornOff s a r.id).heap b = some (State.nullLinks a y) := by
      intro b hb y hy
      have hne : b ≠ a := (hnodup.mem_erase_iff.mp hb).1
      simp only [tornOff]
      rw [update_of_ne hne, List.contains_iff_mem.mpr hb, hy]
      rfl
    have hself : (tornOff s a r.id).frees r.id = s.frees r.id + 1 := update_self ..
    have hother : ∀ id, id ≠ r.id → (tornOff s a r.id).frees id = s.frees id :=
      fun id hne => update_of_ne hne ..
    obtain ⟨k, t, hrun, hrecords, hdone, hfrees, hothers⟩ := ih (tornOff s a r.id)
      (by rw [tornOff, List.length_erase_of_mem hmem, hlen, Nat.add_sub_cancel]) hs (hnodup.erase a) (by
        intro b hb
        obtain ⟨y, hy, hy'⟩ := hall b (List.mem_of_mem_erase hb)
        exact ⟨State.nullLinks a y, hleft b hb y hy, hy'⟩) (by
        intro b d x y hb hd hid
        obtain ⟨x', hx', hxid, _⟩ := hheap b x hb
        obtain ⟨y', hy', hyid, _⟩ := hheap d y hd
        exact hinj b d x' y' hx' hy' (hxid.symm.trans (hid.trans hyid)))
    refine ⟨k + 2, t, ?_, hrecords, hdone, ?_, ?_⟩
    · rw [List.replicate_succ, List.replicate_succ, teardown_round hs hnodup hlast ha hactive]
      exact hrun
    · intro b y hb hy
      by_cases heq : b = a
      · subst heq
        obtain rfl := Option.some.inj (ha.symm.trans hy)
        rw [hothers r.id, hself]
        intro d x _ hd hid
        obtain ⟨x', hx', hxid, _, hne⟩ := hheap d x hd
        exact hne (hinj d b x' r hx' ha (hxid.symm.trans hid))
      · have hb' : b ∈ s.records.erase a := hnodup.mem_erase_iff.mpr ⟨heq, hb⟩
        rw [show y.id = (State.nullLinks a y).id from rfl, hfrees b _ hb' (hleft b hb' y hy), hother]
        intro hid
        exact heq (hinj b a y r hy ha hid)
    · intro id hid
      have hne : id ≠ r.id := Ne.symm (hid a r hmem ha)
      rw [hothers id, hother id hne]
      intro b x hb hx
      obtain ⟨y, hy, hxid, _⟩ := hheap b x hx
      rw [hxid]
      exact hid b y (List.mem_of_mem_erase hb) hy

end

/-! ## The life of a record -/

theorem Inv.lifetime {s : State A K} (hi : Inv s) : Lifetime s := by
  refine ⟨hi.defined, hi.base.once, hi.unscoped, ?_, ?_, ?_, ?_, ?_⟩
  · intro a
    rw [hi.base.listed a]
    constructor
    · rintro ⟨id, hl⟩
      obtain ⟨r, ha, rfl, hreg, hf⟩ := hl.record
      exact ⟨r, ha, hreg, hf⟩
    · rintro ⟨r, ha, hreg, hf⟩
      refine ⟨r.id, ⟨r.linkedRecords, ?_⟩, hf⟩
      rw [cells_eq ha, hreg]
  · intro id hlt hf
    obtain ⟨a, cell, hc, rfl⟩ := hi.base.kept id hlt hf
    obtain ⟨r, ha, rfl⟩ := Option.map_eq_some_iff.mp hc
    exact ⟨a, r, ha, rfl⟩
  · intro a r hmem ha b i hlink
    have hlive := hi.base.links a _ (cells_eq ha) (hi.live_of_mem hmem ha).2 b i hlink
    obtain ⟨t, hb, hid, _⟩ := hlive.record
    exact ⟨(hi.base.listed b).mpr ⟨i, hlive⟩, t, hb, hid⟩
  · intro a r hr
    exact (find_eq_some.mp hr).2.2
  · intro hhead hscopes
    obtain ⟨fs, hs⟩ : ∃ fs, s.stack = .teardown :: fs := by
      cases hstack : s.stack with
      | nil =>
        rw [hstack] at hhead
        cases hhead
      | cons f fs =>
        rw [hstack] at hhead
        exact ⟨fs, by rw [Option.some.inj hhead]⟩
    obtain ⟨k, t, hrun, hrecords, hdone, hfrees, _⟩ :=
      teardown_ends s.records.length s rfl hs hi.base.nodup (by
        intro a hmem
        obtain ⟨id, hl⟩ := (hi.base.listed a).mp hmem
        obtain ⟨r, ha, _⟩ := hl.record
        refine ⟨r, ha, ?_⟩
        rw [hi.active a r ha]
        exact List.count_eq_zero.mpr (hscopes a r.id)) (by
        intro a b r x ha hb hid
        exact hi.base.inj a b _ _ (cells_eq ha) (cells_eq hb) hid)
    refine ⟨k, t, hrun, hrecords, hdone, ?_⟩
    intro a r hmem ha
    rw [hfrees a r hmem ha, (hi.live_of_mem hmem ha).2]

/-- In every nesting in which nothing destroys a record that an operation without a scope goes on
    to use, every record is freed once and in time, and the list and the links are true. -/
theorem records_live {acts : List (Act A K)} {s : State A K} (hr : run step {} acts = some s)
    (hsafe : AllSteps step Safe {} acts) : Lifetime s :=
  (invariant_of_allSteps step_inv hr hsafe init_inv).lifetime

/-- Two modules, one linked to the other. The first destroys itself, twice, while it is evaluated,
    and a finalizer of it destroys the second; a third is made where the first was, and the
    environment goes. -/
def selfDestroyed : List (Act ℕ ℕ) :=
  [.create 1 [0], .advance true, .advance true, .advance true,
    .create 2 [], .advance true, .advance true, .advance true,
    .link 1 [2] true, .advance true, .advance true, .advance true, .advance true,
    .call 1, .destroy 1, .destroy 1, .advance true, .destroy 2, .advance true, .advance true,
    .create 1 [], .advance true, .advance true, .advance true,
    .teardown, .advance true, .advance true, .advance true]

theorem selfDestroyed_live :
    ∃ s, run step {} selfDestroyed = some s ∧ AllSteps step Safe {} selfDestroyed ∧ Lifetime s := by
  have hsafe : AllSteps step Safe {} selfDestroyed := by decide
  exact ⟨_, rfl, hsafe, records_live (show run step {} selfDestroyed = some _ from rfl) hsafe⟩

/-- A module is destroyed, another is made where it was, and from a setter of the new wrapper the
    old handle is destroyed again; then the setter throws. -/
def madeWhereFreed : List (Act ℕ ℕ) :=
  [.create 1 [], .advance true, .advance true, .advance true, .destroy 1, .advance true,
    .create 1 [], .advance true, .advance true, .destroy 1, .advance true, .advance false]

/-- A finalizer that runs when `link` makes the array of dependencies destroys the module that is
    linked. -/
def linkedWhileFreed : List (Act ℕ ℕ) :=
  [.create 1 [0], .advance true, .advance true, .advance true,
    .create 2 [], .advance true, .advance true, .advance true,
    .link 1 [2] true, .advance true, .advance true, .destroy 1, .advance true, .advance true]

theorem records_not_live :
    (∃ s, run step {} madeWhereFreed = some s ∧ s.frees 1 = 2 ∧ ¬ Lifetime s) ∧
      ∃ s, run step {} linkedWhileFreed = some s ∧ s.fault = true ∧ ¬ Lifetime s := by
  constructor
  · refine ⟨_, rfl, rfl, ?_⟩
    intro h
    exact absurd (h.once 1) (by decide)
  · refine ⟨_, rfl, rfl, ?_⟩
    intro h
    cases h.defined

end WasmerNapi.Quickjs.ModuleRecords
