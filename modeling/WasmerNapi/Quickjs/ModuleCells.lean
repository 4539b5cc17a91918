import WasmerNapi.Quickjs.ModuleRecords

/-!
# What the frames know of the records

`Base` is the part of the invariant that is about which records there are, which are listed, how
they are linked and what the operations underway go on to use. It goes by the cells of the
records, so a count or a flag that changes is no concern of it. There is one lemma for each way
the cells change: a record is made, listed, linked, freed and deleted.
-/

namespace WasmerNapi.Quickjs.ModuleRecords

open Function (update update_self update_of_ne)
open Run
open Table (update_cases)

variable {A K : Type} [DecidableEq A] [DecidableEq K]

/-! ## The invariant

A frame means one record, or two while it links. What it takes for granted about them is
`FrameOk`; what two frames of one stack have to do with each other is `Apart`. -/

namespace Frame

/-- It is making the record. -/
def makes (x : ℕ) : Frame A K → Bool
  | .creating _ id _ | .caching _ id _ | .naming _ id => id = x
  | .freeing _ _ | .recordScope _ _ | .unlinking _ _ _ | .linking _ _ _ _ _ _ | .retaining _ _ _ _
  | .holding _ _ | .teardown => false

/-- It is in `free_record` with the record. -/
def frees (x : ℕ) : Frame A K → Bool
  | .freeing _ id => id = x
  | .creating _ _ _ | .caching _ _ _ | .naming _ _ | .recordScope _ _ | .unlinking _ _ _
  | .linking _ _ _ _ _ _ | .retaining _ _ _ _ | .holding _ _ | .teardown => false

end Frame

/-- The record is listed, and not freed. -/
def Live (c : A → Option (Cell A)) (frees : ℕ → ℕ) (a : A) (id : ℕ) : Prop :=
  (∃ links, c a = some ⟨id, true, links⟩) ∧ frees id = 0

/-- What a frame means is there. -/
def FrameOk (c : A → Option (Cell A)) (frees : ℕ → ℕ) : Frame A K → Prop
  | .creating a id _ => c a = some ⟨id, false, []⟩ ∧ frees id = 0
  | .caching a id _ | .naming a id | .unlinking a id _ | .holding a id | .recordScope a id => Live c frees a id
  | .freeing a id => ∃ cell, c a = some cell ∧ cell.id = id ∧ frees id = 1
  | .linking a id linked i target targetId =>
    Live c frees a id ∧ Live c frees target targetId ∧ i < linked.length ∧
      ∀ cell, c a = some cell → cell.links.length = i ∧ ∀ l ∈ cell.links, l ≠ none
  | .retaining a id count i =>
    Live c frees a id ∧ i ≤ count ∧
      ∀ cell, c a = some cell → cell.links.length = count ∧ ∀ l ∈ cell.links.drop i, l ≠ none
  | .teardown => True

/-- The frame above and the frame below. A record that is being made is used by nothing below
    it, and a record is freed, or linked, by one operation at a time. -/
structure Apart (c : A → Option (Cell A)) (f g : Frame A K) : Prop where
  makes : ∀ x, f.makes x = true → g.borrows c x = false
  frees : ∀ x, f.frees x = true → g.frees x = false
  links : ∀ x, f.linksOf x = true → g.linksOf x = false

/-- Which records there are. An id is given once (`bound`, `inj`, `fresh`); the list has the
    records that were put into it and not freed (`listed`); a record is there until it is freed
    (`kept`); a link of one that is not freed is to one that is listed (`links`). -/
structure Base (c : A → Option (Cell A)) (records : List A) (next : ℕ) (frees : ℕ → ℕ)
    (stack : List (Frame A K)) : Prop where
  nodup : records.Nodup
  listed : ∀ a, a ∈ records ↔ ∃ id, Live c frees a id
  bound : ∀ a cell, c a = some cell → cell.id < next
  inj : ∀ a b x y, c a = some x → c b = some y → x.id = y.id → a = b
  once : ∀ id, frees id ≤ 1
  kept : ∀ id < next, frees id = 0 → ∃ a cell, c a = some cell ∧ cell.id = id
  fresh : ∀ id, next ≤ id → frees id = 0
  unlisted : ∀ a cell, c a = some cell → cell.registered = false → cell.links = []
  links : ∀ a cell, c a = some cell → frees cell.id = 0 → ∀ b i, some (b, i) ∈ cell.links →
    Live c frees b i
  frames : ∀ f ∈ stack, FrameOk c frees f
  apart : stack.Pairwise (Apart c)

section

variable {c c' : A → Option (Cell A)} {frees : ℕ → ℕ} {records : List A} {next : ℕ}
  {stack : List (Frame A K)} {f g : Frame A K} {a b : A} {id i x : ℕ}

omit [DecidableEq A] [DecidableEq K]

/-! ### Frames come and go -/

theorem Base.pop (h : Base c records next frees (f :: stack)) : Base c records next frees stack :=
  { h with
    frames := fun g hg => h.frames g (List.mem_cons_of_mem f hg)
    apart := (List.pairwise_cons.mp h.apart).2 }

theorem Base.push (h : Base c records next frees stack) (hok : FrameOk c frees f)
    (hapart : ∀ g ∈ stack, Apart c f g) : Base c records next frees (f :: stack) :=
  { h with
    frames := List.forall_mem_cons.mpr ⟨hok, h.frames⟩
    apart := List.pairwise_cons.mpr ⟨hapart, h.apart⟩ }

/-- The address has one record. -/
theorem Live.id_eq {cell : Cell A} (h : Live c frees a id) (hc : c a = some cell) : cell.id = id := by
  obtain ⟨⟨links, hl⟩, _⟩ := h
  rw [Option.some.inj (hc.symm.trans hl)]

/-- The id has one address. -/
theorem Base.live_inj (h : Base c records next frees stack) (ha : Live c frees a id)
    {cell : Cell A} (hb : c b = some cell) (hid : cell.id = id) : b = a := by
  obtain ⟨⟨links, hl⟩, _⟩ := ha
  exact h.inj b a cell _ hb hl hid

/-- What frames know stays, when the records they mean do. A record that is being made must be as
    it was, one that is listed may change in its links, one that is being freed in anything but
    its id; and a `link` wants its own as they were. -/
theorem FrameOk.congr (h : FrameOk c frees f)
    (hcreating : ∀ b i, (∃ r, f = .creating b i r) → c' b = c b)
    (hlive : ∀ b i, Live c frees b i → Live c' frees b i)
    (hfreeing : ∀ b i, f = .freeing b i → ∀ cell, c b = some cell →
      ∃ cell', c' b = some cell' ∧ cell'.id = cell.id)
    (hlinks : ∀ b i, f.linksOf i = true → Live c frees b i → c' b = c b) : FrameOk c' frees f := by
  cases f with
  | creating b i r =>
    obtain ⟨hc, hf⟩ := h
    exact ⟨(hcreating b i ⟨r, rfl⟩).trans hc, hf⟩
  | caching b i r => exact hlive b i h
  | naming b i => exact hlive b i h
  | freeing b i =>
    obtain ⟨cell, hc, hid, hf⟩ := h
    obtain ⟨cell', hc', hid'⟩ := hfreeing b i rfl cell hc
    exact ⟨cell', hc', hid'.trans hid, hf⟩
  | recordScope b i => exact hlive b i h
  | unlinking b i linked => exact hlive b i h
  | linking b i linked k target targetId =>
    obtain ⟨hb, ht, hlt, hall⟩ := h
    refine ⟨hlive b i hb, hlive target targetId ht, hlt, ?_⟩
    rw [hlinks b i (decide_eq_true rfl) hb]
    exact hall
  | retaining b i count k =>
    obtain ⟨hb, hle, hall⟩ := h
    refine ⟨hlive b i hb, hle, ?_⟩
    rw [hlinks b i (decide_eq_true rfl) hb]
    exact hall
  | holding b i => exact hlive b i h
  | teardown => trivial

/-- And so does what they borrow. -/
theorem FrameOk.borrows_eq (h : FrameOk c frees f)
    (hlinks : ∀ b i, f.linksOf i = true → Live c frees b i → c' b = c b) :
    f.borrows c' x = f.borrows c x := by
  cases f with
  | linking b i linked k target targetId =>
    simp only [Frame.borrows, Frame.linksTo, hlinks b i (decide_eq_true rfl) h.1]
  | retaining b i count k =>
    simp only [Frame.borrows, Frame.linksTo, hlinks b i (decide_eq_true rfl) h.1]
  | creating b i r => rfl
  | caching b i r => rfl
  | naming b i => rfl
  | freeing b i => rfl
  | recordScope b i => rfl
  | unlinking b i linked => rfl
  | holding b i => rfl
  | teardown => rfl

/-- Only `makes` speaks of the cells, so it is enough that nothing more is borrowed. -/
theorem Base.apart_congr (h : Base c records next frees stack)
    (hborrows : ∀ g ∈ stack, ∀ x, g.borrows c' x = true → g.borrows c x = true) :
    stack.Pairwise (Apart c') := by
  refine h.apart.imp_of_mem ?_
  intro f g _ hg hfg
  refine ⟨?_, hfg.frees, hfg.links⟩
  intro x hx
  have hold := hfg.makes x hx
  by_contra hnew
  rw [hborrows g hg x (Bool.eq_true_of_not_eq_false hnew)] at hold
  cases hold

end

section

variable {c : A → Option (Cell A)} {frees : ℕ → ℕ} {records : List A} {next : ℕ}
  {stack : List (Frame A K)} {a b : A} {id : ℕ}

omit [DecidableEq K]

/-! ### One cell is put in -/

variable {v cell : Cell A}

theorem update_id {x : Cell A} (ha : c a = some cell) (hid : v.id = cell.id) (hb : c b = some x) :
    ∃ x', update c a (some v) b = some x' ∧ x'.id = x.id := by
  by_cases heq : b = a
  · rw [heq, ha] at hb
    cases hb
    rw [heq]
    exact ⟨v, update_self .., hid⟩
  · exact ⟨x, (update_of_ne heq ..).trans hb, rfl⟩

/-- The ids stay apart, when the one that is put in is no other cell's. -/
theorem Base.inj_update (h : Base c records next frees stack)
    (hv : ∀ b cell, b ≠ a → c b = some cell → cell.id ≠ v.id) : ∀ b d x y,
      update c a (some v) b = some x → update c a (some v) d = some y →
      x.id = y.id → b = d := by
  intro b d x y hb hd hid
  rcases update_cases hb with ⟨rfl, rfl⟩ | ⟨hne, hb'⟩
  · rcases update_cases hd with ⟨rfl, _⟩ | ⟨hne, hd'⟩
    · rfl
    · exact absurd hid.symm (hv d y hne hd')
  · rcases update_cases hd with ⟨rfl, rfl⟩ | ⟨_, hd'⟩
    · exact absurd hid (hv b x hne hb')
    · exact h.inj b d x y hb' hd' hid

/-! ### A record is made, listed and linked

Each of the three is one cell put in at an address, and what `Base` says of any other address is
what it said before. -/

/-- `new record`. -/
theorem Base.create (h : Base c records next frees stack) (ha : c a = none) (requests : List K) :
    Base (update c a (some ⟨next, false, []⟩)) records (next + 1) frees
      (.creating a next requests :: stack) := by
  have hold : ∀ b cell, c b = some cell → update c a (some ⟨next, false, []⟩) b = c b := by
    intro b cell hb
    apply update_of_ne
    rintro rfl
    rw [ha] at hb
    cases hb
  have hlive : ∀ b i, Live c frees b i → Live (update c a (some ⟨next, false, []⟩)) frees b i := by
    rintro b i ⟨⟨links, hl⟩, hf⟩
    exact ⟨⟨links, (hold b _ hl).trans hl⟩, hf⟩
  have hkeep : ∀ f : Frame A K, ∀ b i, f.linksOf i = true → Live c frees b i →
      update c a (some ⟨next, false, []⟩) b = c b := by
    rintro f b i _ ⟨⟨links, hl⟩, _⟩
    exact hold b _ hl
  have hframes : ∀ f ∈ stack, FrameOk (update c a (some ⟨next, false, []⟩)) frees f := by
    intro f hf
    refine (h.frames f hf).congr ?_ hlive ?_ (hkeep f)
    · rintro b i ⟨r, rfl⟩
      exact hold b _ (h.frames _ hf).1
    · intro b i _ cell hc
      exact ⟨cell, (hold b cell hc).trans hc, rfl⟩
  have hinj := h.inj_update (a := a) (v := ⟨next, false, []⟩) fun b cell _ hb => Nat.ne_of_lt (h.bound b cell hb)
  refine ⟨h.nodup, ?_, ?_, hinj, h.once, ?_, ?_, ?_, ?_, ?_, ?_⟩
  · -- The new record is not listed.
    intro b
    rw [h.listed b]
    constructor
    · rintro ⟨i, hl⟩
      exact ⟨i, hlive b i hl⟩
    · rintro ⟨i, ⟨links, hl⟩, hf⟩
      rcases update_cases hl with ⟨_, heq⟩ | ⟨_, hl⟩
      · cases heq
      · exact ⟨i, ⟨links, hl⟩, hf⟩
  · intro b cell hb
    rcases update_cases hb with ⟨_, rfl⟩ | ⟨_, hb⟩
    · exact Nat.lt_succ_self next
    · exact Nat.lt_succ_of_lt (h.bound b cell hb)
  · -- `kept`: the new one is at the address, …
    intro i hi hf
    rcases Nat.lt_succ_iff_lt_or_eq.mp hi with hlt | rfl
    · obtain ⟨b, cell, hb, hid⟩ := h.kept i hlt hf
      exact ⟨b, cell, (hold b cell hb).trans hb, hid⟩
    · exact ⟨a, _, update_self .., rfl⟩
  · intro i hi
    exact h.fresh i (Nat.le_of_succ_le hi)
  · intro b cell hb hr
    rcases update_cases hb with ⟨_, rfl⟩ | ⟨_, hb⟩
    · rfl
    · exact h.unlisted b cell hb hr
  · -- … and has no links.
    intro b cell hb hf d i hmem
    rcases update_cases hb with ⟨_, rfl⟩ | ⟨_, hb⟩
    · cases hmem
    · exact hlive d i (h.links b cell hb hf d i hmem)
  · -- What the frames meant was elsewhere, the address being free.
    exact List.forall_mem_cons.mpr ⟨⟨update_self .., h.fresh next (Nat.le_refl _)⟩, hframes⟩
  · refine List.pairwise_cons.mpr ⟨?_, ?_⟩
    · -- Nothing below has anything to do with a record that is new.
      intro g hg
      have hbound : ∀ b i, Live c frees b i → i ≠ next := by
        rintro b i ⟨⟨links, hl⟩, _⟩
        exact Nat.ne_of_lt (h.bound b _ hl)
      have hlinks : ∀ b i k, Live c frees b i → Frame.linksTo c next b k = false := by
        intro b i k hlive
        obtain ⟨⟨links, hl⟩, hf⟩ := hlive
        simp only [Frame.linksTo, hl, Option.any_some, List.any_eq_false, Option.any_eq_true, not_exists]
        rintro l hmem ⟨d, j⟩
        simp only [decide_eq_true_eq, not_and]
        rintro rfl
        exact hbound d j (h.links b _ hl hf d j (List.mem_of_mem_drop hmem))
      refine ⟨?_, nofun, nofun⟩
      intro x hx
      obtain rfl : next = x := of_decide_eq_true hx
      have hok := h.frames g hg
      rw [hok.borrows_eq (hkeep g)]
      cases g with
      | creating b i r => exact decide_eq_false (Nat.ne_of_lt (h.bound b _ hok.1))
      | caching b i r => exact decide_eq_false (hbound b i hok)
      | naming b i => exact decide_eq_false (hbound b i hok)
      | unlinking b i linked => exact decide_eq_false (hbound b i hok)
      | holding b i => exact decide_eq_false (hbound b i hok)
      | linking b i linked k target targetId =>
        obtain ⟨hb, ht, _⟩ := hok
        simp [Frame.borrows, hbound b i hb, hbound target targetId ht, hlinks b i 0 hb]
      | retaining b i count k => simp [Frame.borrows, hbound b i hok.1, hlinks b i k hok.1]
      | freeing b i => rfl
      | recordScope b i => rfl
      | teardown => rfl
    · refine h.apart_congr ?_
      intro g hg x hx
      rwa [(h.frames g hg).borrows_eq (hkeep g)] at hx

/-- `records_.push_back`. -/
theorem Base.register {requests : List K} (h : Base c records next frees (.creating a id requests :: stack)) :
    Base (update c a (some ⟨id, true, []⟩)) (records ++ [a]) next frees
      (.caching a id requests :: stack) := by
  obtain ⟨hmakes, hbelow⟩ := List.pairwise_cons.mp h.apart
  obtain ⟨ha, hfree⟩ := h.frames _ (List.mem_cons_self ..)
  have hnotLive : ∀ i, ¬ Live c frees a i := by
    rintro i ⟨⟨links, hl⟩, _⟩
    cases Option.some.inj (ha.symm.trans hl)
  have hne : ∀ b i, Live c frees b i → b ≠ a := by
    rintro b i hl rfl
    exact hnotLive i hl
  have hlive : ∀ b i, Live c frees b i → Live (update c a (some ⟨id, true, []⟩)) frees b i := by
    rintro b i ⟨⟨links, hl⟩, hf⟩
    exact ⟨⟨links, (update_of_ne (hne b i ⟨⟨links, hl⟩, hf⟩) ..).trans hl⟩, hf⟩
  have hkeep : ∀ f : Frame A K, ∀ b i, f.linksOf i = true → Live c frees b i →
      update c a (some ⟨id, true, []⟩) b = c b :=
    fun _ b i _ hl => update_of_ne (hne b i hl) ..
  have hself : Live (update c a (some ⟨id, true, []⟩)) frees a id :=
    ⟨⟨[], update_self ..⟩, hfree⟩
  refine ⟨?_, ?_, ?_, ?_, h.once, ?_, h.fresh, ?_, ?_, ?_, ?_⟩
  · -- It was not listed, so it is not in twice.
    refine List.nodup_append.mpr ⟨h.nodup, List.nodup_singleton a, ?_⟩
    intro b hb d hd heq
    obtain rfl := List.mem_singleton.mp hd
    obtain ⟨i, hl⟩ := (h.listed b).mp hb
    exact hnotLive i (heq ▸ hl)
  · intro b
    rw [List.mem_append, List.mem_singleton, h.listed b]
    constructor
    · rintro (⟨i, hl⟩ | rfl)
      · exact ⟨i, hlive b i hl⟩
      · exact ⟨id, hself⟩
    · rintro ⟨i, ⟨links, hl⟩, hf⟩
      rcases update_cases hl with ⟨heq, _⟩ | ⟨_, hl⟩
      · exact .inr heq
      · exact .inl ⟨i, ⟨links, hl⟩, hf⟩
  · intro b cell hb
    rcases update_cases hb with ⟨_, rfl⟩ | ⟨_, hb⟩
    · exact h.bound a ⟨id, false, []⟩ ha
    · exact h.bound b cell hb
  · exact h.inj_update fun b cell hne hb hid => hne (h.inj b a cell _ hb ha hid)
  · intro i hi hf
    obtain ⟨b, cell, hb, hid⟩ := h.kept i hi hf
    obtain ⟨cell', hb', hid'⟩ := update_id (v := ⟨id, true, []⟩) ha rfl hb
    exact ⟨b, cell', hb', hid'.trans hid⟩
  · -- Nothing that is not listed has links; …
    intro b cell hb hr
    rcases update_cases hb with ⟨_, rfl⟩ | ⟨_, hb⟩
    · cases hr
    · exact h.unlisted b cell hb hr
  · -- … and it has none itself.
    intro b cell hb hf d i hmem
    rcases update_cases hb with ⟨_, rfl⟩ | ⟨_, hb⟩
    · cases hmem
    · exact hlive d i (h.links b cell hb hf d i hmem)
  · -- No frame below means the record: it would borrow it.
    refine List.forall_mem_cons.mpr ⟨hself, ?_⟩
    intro f hf
    refine (h.frames f (List.mem_cons_of_mem _ hf)).congr ?_ hlive ?_ (hkeep f)
    · rintro b i ⟨r, rfl⟩
      apply update_of_ne
      rintro rfl
      have hb := (h.frames _ (List.mem_cons_of_mem _ hf)).1
      have hborrows := (hmakes _ hf).makes id (decide_eq_true rfl)
      cases Option.some.inj (ha.symm.trans hb)
      simp [Frame.borrows] at hborrows
    · exact fun b i _ cell hc => update_id ha rfl hc
  · have hborrows : ∀ g ∈ stack, ∀ x, g.borrows (update c a (some ⟨id, true, []⟩)) x = g.borrows c x :=
      fun g hg x => (h.frames g (List.mem_cons_of_mem _ hg)).borrows_eq (hkeep g)
    refine List.pairwise_cons.mpr ⟨?_, ?_⟩
    · intro g hg
      refine ⟨?_, nofun, nofun⟩
      intro x hx
      rw [hborrows g hg x]
      exact (hmakes g hg).makes x hx
    · refine h.pop.apart_congr ?_
      intro g hg x hx
      rwa [hborrows g hg x] at hx

/-- The links of a record are not what another frame goes by. -/
theorem update_of_linksOf {links links' : List (Option (A × ℕ))}
    (ha : c a = some ⟨id, true, links⟩) (hnot : ∀ f ∈ stack, f.linksOf id = false) {f : Frame A K}
    (hf : f ∈ stack) {b : A} {i : ℕ} (hlinks : f.linksOf i = true) (hb : Live c frees b i) :
    update c a (some ⟨id, true, links'⟩) b = c b := by
  apply update_of_ne
  rintro rfl
  rw [← hb.id_eq ha, hnot f hf] at hlinks
  cases hlinks

/-- `entry->linked_records` changes. -/
theorem Base.setLinks {links links' : List (Option (A × ℕ))} (h : Base c records next frees stack)
    (ha : c a = some ⟨id, true, links⟩) (hf : frees id = 0)
    (hlinks : ∀ b i, some (b, i) ∈ links' → Live c frees b i)
    (hnot : ∀ f ∈ stack, f.linksOf id = false) :
    Base (update c a (some ⟨id, true, links'⟩)) records next frees stack := by
  have hlive : ∀ b i, Live c frees b i → Live (update c a (some ⟨id, true, links'⟩)) frees b i := by
    rintro b i ⟨⟨l, hl⟩, hf⟩
    by_cases heq : b = a
    · subst heq
      cases Option.some.inj (ha.symm.trans hl)
      exact ⟨⟨links', update_self ..⟩, hf⟩
    · exact ⟨⟨l, (update_of_ne heq ..).trans hl⟩, hf⟩
  have hlive' : ∀ b i, Live (update c a (some ⟨id, true, links'⟩)) frees b i → Live c frees b i := by
    rintro b i ⟨⟨l, hl⟩, hf⟩
    rcases update_cases hl with ⟨rfl, heq⟩ | ⟨_, hl⟩
    · obtain ⟨rfl, -⟩ := Cell.mk.inj heq
      exact ⟨⟨links, ha⟩, hf⟩
    · exact ⟨⟨l, hl⟩, hf⟩
  refine ⟨h.nodup, ?_, ?_, ?_, h.once, ?_, h.fresh, ?_, ?_, ?_, ?_⟩
  · -- `listed`: the same records are.
    intro b
    rw [h.listed b]
    exact ⟨fun ⟨i, hl⟩ => ⟨i, hlive b i hl⟩, fun ⟨i, hl⟩ => ⟨i, hlive' b i hl⟩⟩
  · intro b cell hb
    rcases update_cases hb with ⟨_, rfl⟩ | ⟨_, hb⟩
    · exact h.bound a ⟨id, true, links⟩ ha
    · exact h.bound b cell hb
  · exact h.inj_update fun b cell hne hb hid => hne (h.inj b a cell _ hb ha hid)
  · intro i hi hf
    obtain ⟨b, cell, hb, hid⟩ := h.kept i hi hf
    obtain ⟨cell', hb', hid'⟩ := update_id (v := ⟨id, true, links'⟩) ha rfl hb
    exact ⟨b, cell', hb', hid'.trans hid⟩
  · intro b cell hb hr
    rcases update_cases hb with ⟨_, rfl⟩ | ⟨_, hb⟩
    · cases hr
    · exact h.unlisted b cell hb hr
  · -- The one place that asks for the new links to be good.
    intro b cell hb hf d i hmem
    rcases update_cases hb with ⟨_, rfl⟩ | ⟨_, hb⟩
    · exact hlive d i (hlinks d i hmem)
    · exact hlive d i (h.links b cell hb hf d i hmem)
  · intro f hf
    refine (h.frames f hf).congr ?_ hlive ?_ fun b i => update_of_linksOf ha hnot hf
    · rintro b i ⟨r, rfl⟩
      apply update_of_ne
      rintro rfl
      cases Option.some.inj (ha.symm.trans (h.frames _ hf).1)
    · exact fun b i _ cell hb => update_id ha rfl hb
  · refine h.apart_congr ?_
    intro g hg x hx
    rwa [(h.frames g hg).borrows_eq fun b i => update_of_linksOf ha hnot hg] at hx

/-! ### A record is freed

`freed` nulls the links to the address, and the count of the record goes to one. What was listed
under another id is listed; nothing is listed at the address any more. -/

/-- `free_record`, as far as the first value that is freed. -/
def freed (c : A → Option (Cell A)) (records : List A) (a : A) (b : A) : Option (Cell A) :=
  if (records.erase a).contains b then
    (c b).map fun cell => { cell with links := cell.links.map fun l => l.filter fun l => l.1 ≠ a }
  else c b

theorem any_filter_le {l : List (Option (A × ℕ))} {x i : ℕ}
    (h : (((l.map fun l => l.filter fun l => l.1 ≠ a).drop i).any fun l =>
      l.any fun l => decide (l.2 = x)) = true) :
    ((l.drop i).any fun l => l.any fun l => decide (l.2 = x)) = true := by
  rw [← List.map_drop, List.any_map, List.any_eq_true] at h
  obtain ⟨o, hmem, ho⟩ := h
  rw [List.any_eq_true]
  refine ⟨o, hmem, ?_⟩
  cases o with
  | none => cases ho
  | some l =>
    by_cases hl : l.1 = a
    · simp [Option.filter, hl] at ho
    · simpa [Option.filter, hl] using ho

/-- Nulling links borrows nothing more. -/
theorem borrows_freed_le {f : Frame A K} {x : ℕ} (h : f.borrows (freed c records a) x = true) :
    f.borrows c x = true := by
  have hlinks : ∀ b i, Frame.linksTo (freed c records a) x b i = true → Frame.linksTo c x b i = true := by
    intro b i hl
    simp only [Frame.linksTo, freed] at hl
    split at hl
    · cases hc : c b with
      | none =>
        rw [hc] at hl
        cases hl
      | some cell =>
        rw [hc] at hl
        simp only [Frame.linksTo, hc, Option.any_some]
        exact any_filter_le hl
    · exact hl
  cases f with
  | linking b i linked k target targetId =>
    simp only [Frame.borrows, Bool.or_eq_true] at h ⊢
    exact h.imp_right (hlinks b 0)
  | retaining b i count k =>
    simp only [Frame.borrows, Bool.or_eq_true] at h ⊢
    exact h.imp_right (hlinks b k)
  | creating b i r => exact h
  | caching b i r => exact h
  | naming b i => exact h
  | freeing b i => exact h
  | recordScope b i => exact h
  | unlinking b i linked => exact h
  | holding b i => exact h
  | teardown => exact h

theorem freed_some (hb : c b = some cell) :
    ∃ cell', freed c records a b = some cell' ∧ cell'.id = cell.id ∧
      cell'.registered = cell.registered := by
  unfold freed
  split
  · rw [hb]
    exact ⟨_, rfl, rfl, rfl⟩
  · exact ⟨cell, hb, rfl, rfl⟩

theorem freed_eq_some {cell' : Cell A} (hb : freed c records a b = some cell') :
    ∃ cell, c b = some cell ∧ cell'.id = cell.id ∧ cell'.registered = cell.registered := by
  unfold freed at hb
  split at hb
  · obtain ⟨cell, hc, rfl⟩ := Option.map_eq_some_iff.mp hb
    exact ⟨cell, hc, rfl, rfl⟩
  · exact ⟨cell', hb, rfl, rfl⟩

/-- A link that is left is to another address. -/
theorem mem_filter_links {l : List (Option (A × ℕ))} {i : ℕ}
    (h : some (b, i) ∈ l.map fun l => l.filter fun l => l.1 ≠ a) : some (b, i) ∈ l ∧ b ≠ a := by
  obtain ⟨o, hmem, ho⟩ := List.mem_map.mp h
  cases o with
  | none => cases ho
  | some l =>
    by_cases hl : l.1 = a
    · simp [Option.filter, hl] at ho
    · simp only [Option.filter, hl, ne_eq, not_false_eq_true, decide_true, if_true, Option.some.injEq] at ho
      subst ho
      exact ⟨hmem, hl⟩

/-- How often each record was freed, once this one has been. -/
def counted (frees : ℕ → ℕ) (id : ℕ) : ℕ → ℕ := update frees id (frees id + 1)

theorem counted_self (hfrees : frees id = 0) : counted frees id id = 1 := by
  rw [counted, update_self, hfrees]

theorem counted_ne {i : ℕ} (hne : i ≠ id) : counted frees id i = frees i :=
  update_of_ne hne ..

theorem ne_of_counted {i : ℕ} (hi : counted frees id i = 0) : i ≠ id := by
  rintro rfl
  rw [counted, update_self] at hi
  cases hi

/-- What was there under another id is there, … -/
theorem Live.freed {i : ℕ} (h : Live c frees b i) (hne : i ≠ id) :
    Live (freed c records a) (counted frees id) b i := by
  obtain ⟨⟨l, hl⟩, hf⟩ := h
  obtain ⟨⟨i', r', l'⟩, hc', hi', hr'⟩ := freed_some hl
  dsimp only at hi' hr'
  rw [hi', hr'] at hc'
  exact ⟨⟨l', hc'⟩, (counted_ne hne).trans hf⟩

/-- … and what is there was, at another address. -/
theorem Live.of_freed {i : ℕ} (ha : c a = some cell) (hid : cell.id = id)
    (h : Live (ModuleRecords.freed c records a) (counted frees id) b i) :
    Live c frees b i ∧ b ≠ a := by
  obtain ⟨⟨l, hl⟩, hf⟩ := h
  obtain ⟨⟨i', r', l'⟩, hc', hi', hr'⟩ := freed_eq_some hl
  dsimp only at hi' hr'
  rw [← hi', ← hr'] at hc'
  have hne := ne_of_counted hf
  refine ⟨⟨⟨l', hc'⟩, (counted_ne hne).symm.trans hf⟩, ?_⟩
  rintro rfl
  rw [ha] at hc'
  exact hne ((congrArg Cell.id (Option.some.inj hc')).symm.trans hid)

/-- A link that a frame goes by is not nulled: it is to another record, so to another address. -/
theorem Base.links_freed {x y : Cell A} {i k : ℕ} (h : Base c records next frees stack)
    (ha : c a = some cell) (hid : cell.id = id) (hb : Live c frees b i)
    (hto : Frame.linksTo c id b k = false) (hx : c b = some x) (hy : freed c records a b = some y) :
    y.links.length = x.links.length ∧
      ((∀ l ∈ x.links.drop k, l ≠ none) → ∀ l ∈ y.links.drop k, l ≠ none) := by
  unfold freed at hy
  split at hy
  · rw [hx] at hy
    cases hy
    refine ⟨List.length_map .., ?_⟩
    intro hall l hl
    rw [← List.map_drop] at hl
    obtain ⟨o, ho, rfl⟩ := List.mem_map.mp hl
    obtain ⟨⟨d, j⟩, rfl⟩ := Option.ne_none_iff_exists'.mp (hall o ho)
    have hd : d ≠ a := by
      rintro rfl
      have hdj := h.links b x hx (by rw [hb.id_eq hx]; exact hb.2) d j (List.mem_of_mem_drop ho)
      rw [Frame.linksTo, hx, Option.any_some, List.any_eq_false] at hto
      exact hto _ ho (decide_eq_true ((hdj.id_eq ha).symm.trans hid))
    simp [Option.filter, hd]
  · rw [hx] at hy
    cases hy
    exact ⟨rfl, fun hall => hall⟩

/-- A frame that does not go on to use the record means what it meant. -/
theorem Base.frameOk_freed {f : Frame A K} (h : Base c records next frees stack)
    (ha : c a = some cell) (hid : cell.id = id) (hfrees : frees id = 0) (hf : f ∈ stack)
    (hnot : f.borrows c id = false) (hscope : Frame.recordScope a id ∉ stack) :
    FrameOk (freed c records a) (counted frees id) f := by
  have hok := h.frames f hf
  cases f with
  | creating b i r =>
    -- It is not listed yet, so its links are not gone through.
    obtain ⟨hc, hi⟩ := hok
    refine ⟨?_, (counted_ne (of_decide_eq_false hnot)).trans hi⟩
    unfold freed
    rw [if_neg, hc]
    intro hmem
    obtain ⟨j, ⟨l, hl⟩, _⟩ := (h.listed b).mp (List.mem_of_mem_erase (List.contains_iff_mem.mp hmem))
    cases Option.some.inj (hc.symm.trans hl)
  | caching b i r => exact hok.freed (of_decide_eq_false hnot)
  | naming b i => exact hok.freed (of_decide_eq_false hnot)
  | unlinking b i linked => exact hok.freed (of_decide_eq_false hnot)
  | holding b i => exact hok.freed (of_decide_eq_false hnot)
  | recordScope b i =>
    refine Live.freed hok ?_
    rintro rfl
    obtain rfl := h.live_inj hok ha hid
    exact hscope hf
  | freeing b i =>
    obtain ⟨x, hx, hi, hone⟩ := hok
    have hne : i ≠ id := by
      rintro rfl
      rw [hfrees] at hone
      cases hone
    obtain ⟨y, hy, hi', _⟩ := freed_some hx
    exact ⟨y, hy, hi'.trans hi, (counted_ne hne).trans hone⟩
  | linking b i linked k target targetId =>
    obtain ⟨hb, ht, hlt, hall⟩ := hok
    simp only [Frame.borrows, Bool.or_eq_false_iff, decide_eq_false_iff_not] at hnot
    refine ⟨hb.freed hnot.1.1, ht.freed hnot.1.2, hlt, ?_⟩
    intro y hy
    obtain ⟨x, hx, _⟩ := freed_eq_some hy
    obtain ⟨hlen, hnone⟩ := h.links_freed ha hid hb hnot.2 hx hy
    exact ⟨hlen.trans (hall x hx).1, hnone (hall x hx).2⟩
  | retaining b i count k =>
    obtain ⟨hb, hle, hall⟩ := hok
    simp only [Frame.borrows, Bool.or_eq_false_iff, decide_eq_false_iff_not] at hnot
    refine ⟨hb.freed hnot.1, hle, ?_⟩
    intro y hy
    obtain ⟨x, hx, _⟩ := freed_eq_some hy
    obtain ⟨hlen, hnone⟩ := h.links_freed ha hid hb hnot.2 hx hy
    exact ⟨hlen.trans (hall x hx).1, hnone (hall x hx).2⟩
  | teardown => trivial

theorem Base.listed_freed (h : Base c records next frees stack) (ha : c a = some cell)
    (hid : cell.id = id) (b : A) :
    b ∈ records.erase a ↔ ∃ i, Live (freed c records a) (counted frees id) b i := by
  rw [h.nodup.mem_erase_iff, h.listed b]
  constructor
  · rintro ⟨hne, i, hl⟩
    refine ⟨i, hl.freed ?_⟩
    rintro rfl
    exact hne (h.live_inj hl ha hid).symm
  · rintro ⟨i, hl⟩
    obtain ⟨hl, hne⟩ := hl.of_freed ha hid
    exact ⟨hne, i, hl⟩

/-- The links that are left are to records that are left. -/
theorem Base.live_of_freed_link {cell' : Cell A} {d : A} {j : ℕ}
    (h : Base c records next frees stack) (ha : c a = some cell) (hid : cell.id = id)
    (hb : freed c records a b = some cell') (hf : counted frees id cell'.id = 0)
    (hmem : some (d, j) ∈ cell'.links) : Live (freed c records a) (counted frees id) d j := by
  have hne := ne_of_counted hf
  rw [counted_ne hne] at hf
  unfold freed at hb
  split at hb
  · obtain ⟨x, hx, rfl⟩ := Option.map_eq_some_iff.mp hb
    obtain ⟨hmem, hd⟩ := mem_filter_links hmem
    have hdj := h.links b x hx hf d j hmem
    refine hdj.freed ?_
    rintro rfl
    exact hd (h.live_inj hdj ha hid).symm
  · -- Not listed, it has no links; and a listed one is another's, or the one that is freed.
    next hnot =>
    cases hr : cell'.registered with
    | false =>
      rw [h.unlisted b cell' hb hr] at hmem
      cases hmem
    | true =>
      exfalso
      apply hnot
      have hb' : Live c frees b cell'.id := by
        refine ⟨⟨cell'.links, ?_⟩, hf⟩
        rw [hb, ← hr]
      rw [List.contains_iff_mem, h.nodup.mem_erase_iff]
      refine ⟨?_, (h.listed b).mpr ⟨_, hb'⟩⟩
      rintro rfl
      exact hne ((congrArg Cell.id (Option.some.inj (hb.symm.trans ha))).trans hid)

omit [DecidableEq A] in
/-- Nothing below was freeing the record. -/
theorem Base.apart_freeing (h : Base c records next frees stack) (hfrees : frees id = 0)
    {g : Frame A K} (hg : g ∈ stack) {c' : A → Option (Cell A)} : Apart c' (.freeing a id) g := by
  refine ⟨nofun, ?_, nofun⟩
  intro x hx
  obtain rfl : id = x := of_decide_eq_true hx
  cases g with
  | freeing b i =>
    obtain ⟨_, _, _, hone⟩ := h.frames _ hg
    refine decide_eq_false ?_
    rintro rfl
    rw [hfrees] at hone
    cases hone
  | creating b i r => rfl
  | caching b i r => rfl
  | naming b i => rfl
  | recordScope b i => rfl
  | unlinking b i linked => rfl
  | linking b i linked k target targetId => rfl
  | retaining b i count k => rfl
  | holding b i => rfl
  | teardown => rfl

theorem Base.free (h : Base c records next frees stack) (ha : c a = some cell) (hid : cell.id = id)
    (hfrees : frees id = 0) (hborrows : ∀ f ∈ stack, f.borrows c id = false)
    (hscope : Frame.recordScope a id ∉ stack) :
    Base (freed c records a) (records.erase a) next (counted frees id) (.freeing a id :: stack) := by
  refine ⟨h.nodup.erase a, h.listed_freed ha hid, ?_, ?_, ?_, ?_, ?_, ?_, ?_, ?_, ?_⟩
  · intro b cell' hb
    obtain ⟨x, hx, hi, _⟩ := freed_eq_some hb
    rw [hi]
    exact h.bound b x hx
  · intro b d x y hb hd hxy
    obtain ⟨x', hx, hi, _⟩ := freed_eq_some hb
    obtain ⟨y', hy, hj, _⟩ := freed_eq_some hd
    exact h.inj b d x' y' hx hy (hi.symm.trans (hxy.trans hj))
  · intro i
    by_cases heq : i = id
    · rw [heq, counted_self hfrees]
    · rw [counted_ne heq]
      exact h.once i
  · intro i hi hf
    rw [counted_ne (ne_of_counted hf)] at hf
    obtain ⟨b, x, hx, hid'⟩ := h.kept i hi hf
    obtain ⟨x', hx', hi', _⟩ := freed_some hx
    exact ⟨b, x', hx', hi'.trans hid'⟩
  · intro i hi
    have hne : i ≠ id := by
      rintro rfl
      exact absurd (h.bound a cell ha) (Nat.not_lt.mpr (hid ▸ hi))
    rw [counted_ne hne]
    exact h.fresh i hi
  · intro b cell' hb hr
    unfold freed at hb
    split at hb
    · obtain ⟨x, hx, rfl⟩ := Option.map_eq_some_iff.mp hb
      rw [show x.links = [] from h.unlisted b x hx hr]
      rfl
    · exact h.unlisted b cell' hb hr
  · intro b cell' hb hf d j hmem
    exact h.live_of_freed_link ha hid hb hf hmem
  · refine List.forall_mem_cons.mpr ⟨?_, fun f hf =>
      h.frameOk_freed ha hid hfrees hf (hborrows f hf) hscope⟩
    obtain ⟨x', hx', hi', _⟩ := freed_some ha
    exact ⟨x', hx', hi'.trans hid, counted_self hfrees⟩
  · exact List.pairwise_cons.mpr ⟨fun g hg => h.apart_freeing hfrees hg,
      h.apart_congr fun g _ x => borrows_freed_le⟩

/-! ### A record is deleted -/

/-- `delete entry`. -/
theorem Base.delete (h : Base c records next frees (.freeing a id :: stack)) :
    Base (update c a none) records next frees stack := by
  obtain ⟨hapart, _⟩ := List.pairwise_cons.mp h.apart
  obtain ⟨cell, ha, hid, hone⟩ := h.frames _ (List.mem_cons_self ..)
  have hkeep : ∀ b i, Live c frees b i → update c a none b = c b := by
    intro b i hb
    apply update_of_ne
    rintro rfl
    have hzero := hb.2
    rw [← hb.id_eq ha, hid, hone] at hzero
    cases hzero
  have hcases : ∀ b x, update c a none b = some x → b ≠ a ∧ c b = some x :=
    fun _ _ => Table.update_none_cases
  have hlive : ∀ b i, Live c frees b i → Live (update c a none) frees b i := by
    intro b i hb
    refine ⟨?_, hb.2⟩
    rw [hkeep b i hb]
    exact hb.1
  have hok : ∀ f ∈ stack, FrameOk c frees f := fun f hf => h.frames f (List.mem_cons_of_mem _ hf)
  refine ⟨h.nodup, ?_, ?_, ?_, h.once, ?_, h.fresh, ?_, ?_, ?_, ?_⟩
  · -- What is listed is not freed, so it is at another address.
    intro b
    rw [h.listed b]
    constructor
    · rintro ⟨i, hb⟩
      exact ⟨i, hlive b i hb⟩
    · rintro ⟨i, ⟨l, hl⟩, hf⟩
      exact ⟨i, ⟨l, (hcases b _ hl).2⟩, hf⟩
  · intro b x hb
    exact h.bound b x (hcases b x hb).2
  · intro b d x y hb hd
    exact h.inj b d x y (hcases b x hb).2 (hcases d y hd).2
  · -- `kept` is about records that are not freed.
    intro i hi hf
    obtain ⟨b, x, hx, hxi⟩ := h.kept i hi hf
    refine ⟨b, x, (update_of_ne ?_ ..).trans hx, hxi⟩
    rintro rfl
    obtain rfl := Option.some.inj (ha.symm.trans hx)
    rw [← hxi, hid, hone] at hf
    cases hf
  · intro b x hb
    exact h.unlisted b x (hcases b x hb).2
  · intro b x hb hf d j hmem
    exact hlive d j (h.links b x (hcases b x hb).2 hf d j hmem)
  · -- No other frame is freeing the record.
    intro f hf
    refine (hok f hf).congr ?_ hlive ?_ fun b i _ hb => hkeep b i hb
    · rintro b i ⟨r, rfl⟩
      obtain ⟨hb, hzero⟩ := hok _ hf
      apply update_of_ne
      rintro rfl
      rw [show i = id from (congrArg Cell.id (Option.some.inj (hb.symm.trans ha))).trans hid, hone] at hzero
      cases hzero
    · rintro b i rfl x hx
      refine ⟨x, (update_of_ne ?_ ..).trans hx, rfl⟩
      rintro rfl
      obtain ⟨y, hy, hyi, _⟩ := hok _ hf
      obtain rfl := Option.some.inj (ha.symm.trans hy)
      have hfrees := (hapart _ hf).frees id (decide_eq_true rfl)
      simp [Frame.frees, hyi.symm.trans hid] at hfrees
  · refine h.pop.apart_congr ?_
    intro g hg x hx
    rwa [(hok g hg).borrows_eq fun b i _ hb => hkeep b i hb] at hx

end

end WasmerNapi.Quickjs.ModuleRecords
