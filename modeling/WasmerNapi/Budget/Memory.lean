import WasmerNapi.Budget.Isolate

/-!
# `BudgetedMemory` — linear memory that pays for its growth

`src/src/budget.rs`, `MemoryCharge` and `BudgetedMemory`. A wasm memory is charged in
`WasmLinear` before it grows, and a record of what was charged, `MemoryCharge.bytes`,
is what the last handle's drop gives back. The calls here are whole, as one caller with
one handle sees them; the backend memory — outside this repository — is an oracle
argument. `Budget/Handles.lean` takes them apart.

`Account` is the other half: one owner's charges in one pool, as an equation the three
budget calls and the other owners' moves preserve, for every kind of budget.
-/

namespace WasmerNapi.Budget

open Word Run

/-! ## Whole calls -/

def wasmPageSize : ℕ := 65536

/-- `Pages` is a `u32`. -/
def pagesBound : ℕ := 2 ^ 32

/-- `pages_to_bytes`; a `u32` of pages has a `u64` of bytes. -/
def pagesToBytes (pages : ℕ) : ℕ := pages * wasmPageSize

/-- `round_up_to_page`: `div_ceil`, saturating. -/
def roundUpToPage (bytes : ℕ) : ℕ :=
  saturatingMul 64 ((bytes + (wasmPageSize - 1)) / wasmPageSize) wasmPageSize

/-- `Pages::from_bytes_rounded_up`, `None` past `u32`. -/
def pagesFromBytesRoundedUp (bytes : ℕ) : Option ℕ :=
  tryFrom 32 ((bytes + (wasmPageSize - 1)) / wasmPageSize)

def Pool.debug : Pool → String
  | .wasmLinear => "WasmLinear"
  | .v8HeapReserved => "V8HeapReserved"
  | .v8External => "V8External"

/-- The `Display` text of a refused charge. -/
def OverBudget.display (err : OverBudget) : String :=
  "resource budget exceeded charging " ++ toString err.requested ++ " bytes to " ++
    err.pool.debug ++ ": " ++ toString err.charged ++ " of " ++ toString err.total ++
    " bytes already charged"

/-- The errors a growth call returns; `backend` is whatever the inner memory said. -/
inductive MemoryError where
  | couldNotGrow (current attemptedDelta : ℕ)
  | generic (message : String)
  | backend
  deriving DecidableEq, Repr

/-- One memory with a single handle: the backend's size in pages, and the record. -/
structure BudgetedMemory where
  pages : ℕ
  bytes : ℕ
  deriving DecidableEq, Repr

namespace BudgetedMemory

variable {α : Type} [NapiMemoryAccountant α]

/-- `BudgetedMemory::new` over a backend memory of `pages`. -/
def new (b : ResourceBudget α) (pages : ℕ) :
    Except MemoryError BudgetedMemory × ResourceBudget α :=
  match b.tryCharge .wasmLinear (pagesToBytes pages) with
  | (.error err, b) => (.error (.generic err.display), b)
  | (.ok (), b) => (.ok { pages, bytes := pagesToBytes pages }, b)

/-- `BudgetedMemory::grow`; `inner` says whether the backend grows. -/
def grow (b : ResourceBudget α) (m : BudgetedMemory) (delta : ℕ) (inner : Bool) :
    Except MemoryError ℕ × BudgetedMemory × ResourceBudget α :=
  match b.tryCharge .wasmLinear (pagesToBytes delta) with
  | (.error _, b) => (.error (.couldNotGrow m.pages delta), m, b)
  | (.ok (), b) =>
    if inner then
      (.ok m.pages,
        { pages := m.pages + delta, bytes := wrappingAdd 64 m.bytes (pagesToBytes delta) }, b)
    else (.error .backend, m, b.uncharge .wasmLinear (pagesToBytes delta))

/-- What `grow_at_least` reserves: the page-rounded target less the size it read. -/
def reserve (minSize before : ℕ) : ℕ := roundUpToPage minSize - before

/-- `BudgetedMemory::grow_at_least`; `inner` is the size the backend reaches, `none` when
    it fails. -/
def growAtLeast (b : ResourceBudget α) (m : BudgetedMemory) (minSize : ℕ) (inner : Option ℕ) :
    Except MemoryError Unit × BudgetedMemory × ResourceBudget α :=
  let before := pagesToBytes m.pages
  if minSize ≤ before then
    match inner with
    | some pages => (.ok (), { m with pages }, b)
    | none => (.error .backend, m, b)
  else
    match b.tryCharge .wasmLinear (reserve minSize before) with
    | (.error _, b) =>
      (.error (.couldNotGrow m.pages
        ((pagesFromBytesRoundedUp (minSize - before)).getD (2 ^ 32 - 1))), m, b)
    | (.ok (), b) =>
      match inner with
      | some pages =>
        let actual := pagesToBytes pages - before
        let b := if actual < reserve minSize before
          then b.uncharge .wasmLinear (reserve minSize before - actual) else b
        (.ok (), { pages, bytes := wrappingAdd 64 m.bytes actual }, b)
      | none => (.error .backend, m, b.uncharge .wasmLinear (reserve minSize before))

/-- What `inner.grow_at_least` may do to a backend memory of `pages`: nothing when it is
    big enough already, else reach at least the page-rounded target. -/
def reaches (pages minSize pages' : ℕ) : Bool :=
  if minSize ≤ pagesToBytes pages then pages' = pages
  else roundUpToPage minSize ≤ pagesToBytes pages' ∧ pages' < pagesBound

variable {b b' : ResourceBudget α} {m : BudgetedMemory} {minSize : ℕ}

theorem grow_of_error {delta : ℕ} {e : OverBudget}
    (hc : b.tryCharge .wasmLinear (pagesToBytes delta) = (.error e, b')) (inner : Bool) :
    grow b m delta inner = (.error (.couldNotGrow m.pages delta), m, b') := by
  -- Unfolded at its name: with its arguments the kernel would compute the charge.
  have hdef : @grow α _ = @grow α _ := rfl
  conv_rhs at hdef => delta grow
  rw [hdef]
  beta_reduce
  rw [hc]

theorem grow_true_of_ok {delta : ℕ}
    (hc : b.tryCharge .wasmLinear (pagesToBytes delta) = (.ok (), b')) :
    grow b m delta true =
      (.ok m.pages,
        { pages := m.pages + delta, bytes := wrappingAdd 64 m.bytes (pagesToBytes delta) }, b') := by
  have hdef : @grow α _ = @grow α _ := rfl
  conv_rhs at hdef => delta grow
  rw [hdef]
  beta_reduce
  rw [hc]
  exact if_pos rfl

theorem grow_false_of_ok {delta : ℕ}
    (hc : b.tryCharge .wasmLinear (pagesToBytes delta) = (.ok (), b')) :
    grow b m delta false =
      (.error .backend, m, b'.uncharge .wasmLinear (pagesToBytes delta)) := by
  have hdef : @grow α _ = @grow α _ := rfl
  conv_rhs at hdef => delta grow
  rw [hdef]
  beta_reduce
  rw [hc]
  exact if_neg Bool.false_ne_true

/-- The three ways a `grow` goes: over budget, grown, or failed and given back. -/
theorem grow_cases {delta : ℕ} {inner : Bool} {r : Except MemoryError ℕ} {m' : BudgetedMemory}
    {b'' : ResourceBudget α} (h : grow b m delta inner = (r, m', b'')) :
    (∃ e, b.tryCharge .wasmLinear (pagesToBytes delta) = (.error e, b'') ∧
      r = .error (.couldNotGrow m.pages delta) ∧ m' = m) ∨
    (b.tryCharge .wasmLinear (pagesToBytes delta) = (.ok (), b'') ∧ inner = true ∧
      r = .ok m.pages ∧
      m' = { pages := m.pages + delta, bytes := wrappingAdd 64 m.bytes (pagesToBytes delta) }) ∨
    ∃ b₁, b.tryCharge .wasmLinear (pagesToBytes delta) = (.ok (), b₁) ∧ inner = false ∧
      r = .error .backend ∧ m' = m ∧ b'' = b₁.uncharge .wasmLinear (pagesToBytes delta) := by
  cases hc : b.tryCharge .wasmLinear (pagesToBytes delta) with | mk res b₁ =>
  cases res with
  | error e =>
    rw [grow_of_error hc] at h
    obtain ⟨rfl, rfl, rfl⟩ := Prod.mk.inj h |>.imp_right Prod.mk.inj
    exact Or.inl ⟨e, rfl, rfl, rfl⟩
  | ok u =>
    cases inner with
    | true =>
      rw [grow_true_of_ok hc] at h
      obtain ⟨rfl, rfl, rfl⟩ := Prod.mk.inj h |>.imp_right Prod.mk.inj
      exact Or.inr (Or.inl ⟨rfl, rfl, rfl, rfl⟩)
    | false =>
      rw [grow_false_of_ok hc] at h
      obtain ⟨rfl, rfl, rfl⟩ := Prod.mk.inj h |>.imp_right Prod.mk.inj
      exact Or.inr (Or.inr ⟨b₁, rfl, rfl, rfl, rfl, rfl⟩)

/-- Big enough already: `grow_at_least` charges nothing. -/
theorem growAtLeast_some_of_le (hle : minSize ≤ pagesToBytes m.pages) (pages : ℕ) :
    growAtLeast b m minSize (some pages) = (.ok (), { m with pages }, b) := by
  exact if_pos hle

theorem growAtLeast_none_of_le (hle : minSize ≤ pagesToBytes m.pages) :
    growAtLeast b m minSize none = (.error .backend, m, b) := by
  exact if_pos hle

theorem growAtLeast_of_error {e : OverBudget} (hlt : ¬ minSize ≤ pagesToBytes m.pages)
    (hc : b.tryCharge .wasmLinear (reserve minSize (pagesToBytes m.pages)) = (.error e, b'))
    (inner : Option ℕ) :
    growAtLeast b m minSize inner =
      (.error (.couldNotGrow m.pages
        ((pagesFromBytesRoundedUp (minSize - pagesToBytes m.pages)).getD (2 ^ 32 - 1))), m, b') := by
  refine (if_neg hlt).trans ?_
  rw [hc]

theorem growAtLeast_none_of_ok (hlt : ¬ minSize ≤ pagesToBytes m.pages)
    (hc : b.tryCharge .wasmLinear (reserve minSize (pagesToBytes m.pages)) = (.ok (), b')) :
    growAtLeast b m minSize none =
      (.error .backend, m,
        b'.uncharge .wasmLinear (reserve minSize (pagesToBytes m.pages))) := by
  refine (if_neg hlt).trans ?_
  rw [hc]

/-- The backend reached `pages`: what the reservation has over the growth is given back. -/
theorem growAtLeast_some_of_ok (hlt : ¬ minSize ≤ pagesToBytes m.pages)
    (hc : b.tryCharge .wasmLinear (reserve minSize (pagesToBytes m.pages)) = (.ok (), b'))
    (pages : ℕ) :
    growAtLeast b m minSize (some pages) =
      (.ok (), { pages, bytes := wrappingAdd 64 m.bytes (pagesToBytes pages - pagesToBytes m.pages) },
        if pagesToBytes pages - pagesToBytes m.pages < reserve minSize (pagesToBytes m.pages) then
          b'.uncharge .wasmLinear (reserve minSize (pagesToBytes m.pages) -
            (pagesToBytes pages - pagesToBytes m.pages))
        else b') := by
  refine (if_neg hlt).trans ?_
  rw [hc]

theorem new_eq_ok {pages : ℕ} (h : new b pages = (.ok m, b')) :
    m = { pages, bytes := pagesToBytes pages } ∧
      b.tryCharge .wasmLinear (pagesToBytes pages) = (.ok (), b') := by
  have hdef : @new α _ = @new α _ := rfl
  conv_rhs at hdef => delta new
  rw [hdef] at h
  beta_reduce at h
  cases hc : b.tryCharge .wasmLinear (pagesToBytes pages) with | mk res b₁ =>
  rw [hc] at h
  cases res with
  | error e => cases (Prod.mk.inj h).1
  | ok u =>
    obtain ⟨hm, rfl⟩ := Prod.mk.inj h
    exact ⟨(Except.ok.inj hm).symm, rfl⟩

end BudgetedMemory

/-! ## One owner's account in one pool

What an owner has charged to a pool and not given back, against what the pool shows.
Modulo `2 ^ 64` for every budget; with equality, under a limit. -/

section Account

variable {α : Type} [NapiMemoryAccountant α]

structure Account (pool : Pool) (limited : Prop) (b : ResourceBudget α) (others : Pool → ℕ)
    (charged : ℕ) : Prop where
  shows : b.poolCounter pool % 2 ^ 64 = (others pool + charged) % 2 ^ 64
  exact : limited → b.Settled ∧
    ∀ p, b.poolCounter p = others p + if p = pool then charged else 0

variable {pool : Pool} {limited : Prop} {b b' : ResourceBudget α} {others others' : Pool → ℕ}
  {charged n : ℕ}

/-- Under a limit, what is charged is a word. -/
theorem Account.charged_lt (h : Account pool limited b others charged) (hl : limited) :
    others pool + charged < 2 ^ 64 := by
  obtain ⟨hset, hpool⟩ := h.exact hl
  have h₁ := hset.pool_le pool
  have h₂ := hset.charged_lt
  rw [hpool pool, if_pos rfl] at h₁
  omega

theorem Account.pool_eq (h : Account pool limited b others charged) (hl : limited) :
    b.poolCounter pool = others pool + charged := by
  have hpool := (h.exact hl).2 pool
  rwa [if_pos rfl] at hpool

variable [LawfulNapiMemoryAccountant α]

theorem Account.tryCharge_ok (h : Account pool limited b others charged)
    (hc : b.tryCharge pool n = (.ok (), b')) :
    Account pool limited b' others (charged + n) := by
  refine ⟨?_, ?_⟩
  · have hs := h.shows
    by_cases hn : n = 0
    · subst hn
      rw [ResourceBudget.tryCharge_zero] at hc
      obtain rfl := (Prod.mk.inj hc).2
      exact hs
    · rw [ResourceBudget.poolCounter_of_tryCharge_ok hn hc pool, if_pos rfl]
      unfold wrappingAdd
      omega
  · intro hl
    obtain ⟨hset, hpool⟩ := h.exact hl
    have ch := hset.tryCharge_ok hc
    refine ⟨ch.settled, ?_⟩
    intro p
    rw [ch.pool p, hpool p]
    by_cases hp : p = pool
    · simp only [hp, if_true]
      omega
    · simp [hp]

theorem Account.tryCharge_error {e : OverBudget} (h : Account pool limited b others charged)
    (hc : b.tryCharge pool n = (.error e, b')) : Account pool limited b' others charged := by
  refine ⟨?_, ?_⟩
  · rw [ResourceBudget.poolCounter_of_tryCharge_error hc pool]
    exact h.shows
  · intro hl
    obtain ⟨hset, hpool⟩ := h.exact hl
    have rf := hset.tryCharge_error hc
    exact ⟨rf.settled, fun p => (rf.pool p).trans (hpool p)⟩

theorem Account.uncharge (h : Account pool limited b others charged) (hn : n ≤ charged) :
    Account pool limited (b.uncharge pool n) others (charged - n) := by
  refine ⟨?_, ?_⟩
  · have hs := h.shows
    by_cases hz : n = 0
    · subst hz
      rw [ResourceBudget.uncharge_zero]
      exact hs
    · rw [ResourceBudget.poolCounter_uncharge b pool pool hz, if_pos rfl]
      unfold wrappingSub
      omega
  · intro hl
    obtain ⟨hset, hpool⟩ := h.exact hl
    have hle : n ≤ b.poolCounter pool := by
      rw [h.pool_eq hl]
      omega
    have un := hset.uncharge hle
    refine ⟨un.settled, ?_⟩
    intro p
    have hp := un.pool p
    rw [hpool p] at hp
    by_cases hpp : p = pool
    · simp only [hpp, if_true] at hp ⊢
      omega
    · simpa [hpp] using hp

theorem Account.other {a : OtherAct α} (h : Account pool limited b others charged)
    (ho : otherStep b others a = some (b', others')) :
    Account pool limited b' others' charged := by
  refine ⟨?_, ?_⟩
  · have hs := h.shows
    cases a with
    | tryCharge p n =>
      simp only [otherStep] at ho
      split at ho
      · rename_i b₁ hc
        obtain ⟨rfl, rfl⟩ := Prod.mk.inj (Option.some.inj ho)
        by_cases hn : n = 0
        · subst hn
          rw [ResourceBudget.tryCharge_zero] at hc
          obtain rfl := (Prod.mk.inj hc).2
          simpa using hs
        · rw [ResourceBudget.poolCounter_of_tryCharge_ok hn hc pool]
          by_cases hp : pool = p
          · subst hp
            simp only [if_true, Function.update_self, wrappingAdd]
            omega
          · simpa [hp] using hs
      · rename_i e b₁ hc
        obtain ⟨rfl, rfl⟩ := Prod.mk.inj (Option.some.inj ho)
        rw [ResourceBudget.poolCounter_of_tryCharge_error hc pool]
        exact hs
    | uncharge p n =>
      simp only [otherStep] at ho
      split at ho
      · rename_i hle
        obtain ⟨rfl, rfl⟩ := Prod.mk.inj (Option.some.inj ho)
        by_cases hn : n = 0
        · subst hn
          rw [ResourceBudget.uncharge_zero]
          simpa using hs
        · rw [ResourceBudget.poolCounter_uncharge b p pool hn]
          by_cases hp : pool = p
          · subst hp
            simp only [if_true, Function.update_self, wrappingSub]
            omega
          · simpa [hp] using hs
      · cases ho
    | account a' =>
      simp only [otherStep] at ho
      split at ho
      · cases ho
      · split at ho
        · obtain ⟨rfl, rfl⟩ := Prod.mk.inj (Option.some.inj ho)
          rw [← hs]
          cases pool <;> rfl
        · cases ho
  · intro hl
    obtain ⟨hset, hpool⟩ := h.exact hl
    have u := hset.otherStep hpool ho
    exact ⟨u.settled, u.pool⟩

end Account
end WasmerNapi.Budget
