import WasmerNapi.Lib.Decimal

/-!
# The two listings of property names

`snapi_bridge_get_all_property_names` walks the prototype chain itself, with the keys it has
seen; `snapi_bridge_get_property_names` asks the host's `Object.keys`, which is about the
object's own keys only. By N-API the second is the first, with prototypes, of the enumerable
string keys. `agree_iff_quiet` says when it is: where the prototypes have nothing to add, or
the object's own keys cannot be listed at all.

An object is what its internal methods answer. Those of a proxy can throw; that they never
list a key twice is what the language demands of them. A chain ends, in `null` or in a
prototype that cannot be asked for.
-/

namespace WasmerNapi.HostJs.PropertyNames

open Decimal.Alphabet (units written_write units_isDigit_iff eq_write_iff)

inductive Key where
  | string (units : List UInt16)
  | symbol (id : ℕ)
  deriving DecidableEq

/-- A property descriptor. `writable` is what `wasmer_napi_property_writable` finds: a lazy
    property is as writable as it will be. -/
structure Descriptor where
  writable : Bool
  enumerable : Bool
  configurable : Bool
  deriving DecidableEq

/-- An object's `[[OwnPropertyKeys]]` and `[[GetOwnProperty]]`, with the errors `ε` they throw. -/
structure Holder (ε : Type) where
  ownKeys : Except ε (List Key)
  getOwnProperty : Key → Except ε (Option Descriptor)
  distinct : ∀ keys, ownKeys = .ok keys → keys.Nodup

/-- What `[[GetPrototypeOf]]` answers, again and again. -/
inductive Chain (ε : Type) where
  | null
  | throws (error : ε)
  | object (holder : Holder ε) (next : Chain ε)

/-- A value; a primitive goes by its wrapper, as `Object(value)` makes it. -/
inductive Value (ε : Type) where
  | nullish
  | object (own : Holder ε) (proto : Chain ε)

/-- A name in the result. -/
inductive Name where
  | number (n : ℕ)
  | string (units : List UInt16)
  | symbol (id : ℕ)
  deriving DecidableEq

/-- The statuses of a call that fails: `NAPI_OBJECT_EXPECTED`, and `NAPI_PENDING_EXCEPTION` with
    the exception. -/
inductive Failure (ε : Type) where
  | objectExpected
  | pendingException (error : ε)

section

variable {ε : Type}

/-! ## `wasmer_napi_get_all_property_names` -/

def digit (unit : UInt16) : ℕ := unit.toNat - 0x30

/-- `/^(0|[1-9][0-9]*)$/` -/
def isIndex : List UInt16 → Bool
  | [] => false
  | unit :: units =>
    (unit == 0x30 && units.isEmpty) ||
      (0x31 ≤ unit && unit ≤ 0x39 && units.all fun u => 0x30 ≤ u && u ≤ 0x39)

/-- The name that is pushed for a key. -/
def convert (conversion : ℕ) : Key → Name
  | .symbol id => .symbol id
  | .string units =>
    if conversion = 0 ∧ isIndex units = true ∧ Decimal.value (units.map digit) ≤ 0xfffffffe then
      .number (Decimal.value (units.map digit))
    else .string units

/-- The two bits that skip a key whatever its property is. -/
def skips (filter : ℕ) : Key → Bool
  | .string _ => filter &&& 8 != 0
  | .symbol _ => filter &&& 16 != 0

/-- The three bits about the property. -/
def lets (filter : ℕ) (d : Descriptor) : Bool :=
  (filter &&& 1 == 0 || d.writable) && (filter &&& 2 == 0 || d.enumerable) &&
    (filter &&& 4 == 0 || d.configurable)

/-- The loop over the keys of an object, with `seen` and `result`. -/
def collect (filter conversion : ℕ) (holder : Holder ε) :
    List Key → List Key × List Name → Except ε (List Key × List Name)
  | [], acc => .ok acc
  | key :: keys, (seen, result) =>
    if key ∈ seen then collect filter conversion holder keys (seen, result)
    else if skips filter key then collect filter conversion holder keys (key :: seen, result)
    else
      match holder.getOwnProperty key with
      | .error error => .error error
      | .ok none => collect filter conversion holder keys (key :: seen, result)
      | .ok (some descriptor) =>
        if lets filter descriptor then
          collect filter conversion holder keys (key :: seen, result ++ [convert conversion key])
        else collect filter conversion holder keys (key :: seen, result)

/-- The loop over the chain. -/
def walk (mode filter conversion : ℕ) : Chain ε → List Key × List Name → Except ε (List Name)
  | .null, acc => .ok acc.2
  | .throws error, _ => .error error
  | .object holder next, acc =>
    match holder.ownKeys with
    | .error error => .error error
    | .ok keys =>
      match collect filter conversion holder keys acc with
      | .error error => .error error
      | .ok acc => if mode = 1 then .ok acc.2 else walk mode filter conversion next acc

/-- A value as `Object(value)` makes it: of `null` and `undefined`, an object without keys. -/
def Value.chain (objectPrototype : Chain ε) : Value ε → Chain ε
  | nullish => .object
      { ownKeys := .ok [], getOwnProperty := fun _ => .ok none
        distinct := fun _ h => Except.ok.inj h ▸ List.nodup_nil } objectPrototype
  | object own proto => .object own proto

/-- `snapi_bridge_get_all_property_names`, of the value. -/
def getAllPropertyNames (objectPrototype : Chain ε) (value : Value ε)
    (mode filter conversion : ℕ) : Except (Failure ε) (List Name) :=
  match walk mode filter conversion (value.chain objectPrototype) ([], []) with
  | .ok names => .ok names
  | .error error => .error (.pendingException error)

/-! ## `snapi_bridge_get_property_names` -/

/-- The loop of `Object.keys` over an object's keys. -/
def enumerableKeys (holder : Holder ε) : List Key → List Name → Except ε (List Name)
  | [], result => .ok result
  | .symbol _ :: keys, result => enumerableKeys holder keys result
  | .string units :: keys, result =>
    match holder.getOwnProperty (.string units) with
    | .error error => .error error
    | .ok none => enumerableKeys holder keys result
    | .ok (some descriptor) =>
      if descriptor.enumerable then enumerableKeys holder keys (result ++ [.string units])
      else enumerableKeys holder keys result

/-- `Object.keys`, which is `wasmer_napi_own_keys`. -/
def ownKeys (holder : Holder ε) : Except ε (List Name) :=
  match holder.ownKeys with
  | .error error => .error error
  | .ok keys => enumerableKeys holder keys []

def getPropertyNames : Value ε → Except (Failure ε) (List Name)
  | .nullish => .error .objectExpected
  | .object own _ =>
    match ownKeys own with
    | .ok names => .ok names
    | .error error => .error (.pendingException error)

/-! ## What they should do -/

/-- The enumerable string keys, the prototypes' included, as strings: what N-API defines
    `napi_get_property_names` to be. -/
def asAllPropertyNames (objectPrototype : Chain ε) (value : Value ε) :
    Except (Failure ε) (List Name) :=
  getAllPropertyNames objectPrototype value 0 (2 ||| 16) 1

/-- The property passes the filter, with its key. -/
structure Passes (filter : ℕ) (key : Key) (d : Descriptor) : Prop where
  writable : filter &&& 1 ≠ 0 → d.writable = true
  enumerable : filter &&& 2 ≠ 0 → d.enumerable = true
  configurable : filter &&& 4 ≠ 0 → d.configurable = true
  strings : filter &&& 8 ≠ 0 → ∃ id, key = .symbol id
  symbols : filter &&& 16 ≠ 0 → ∃ units, key = .string units

def Holder.keys (holder : Holder ε) : List Key :=
  match holder.ownKeys with
  | .ok keys => keys
  | .error _ => []

def Chain.holders : Chain ε → List (Holder ε)
  | null => []
  | throws _ => []
  | object holder next => holder :: next.holders

/-- The nearest holder of the key has a property under it that passes. -/
def NearestPasses (filter : ℕ) : List (Holder ε) → Key → Prop
  | [], _ => False
  | holder :: far, key =>
    if key ∈ holder.keys then
      ∃ d, holder.getOwnProperty key = .ok (some d) ∧ Passes filter key d
    else NearestPasses filter far key

/-- The names are those of the keys, each once, whose nearest holder's property passes. -/
def ListsNearest (filter conversion : ℕ) (holders : List (Holder ε)) (names : List Name) : Prop :=
  ∃ keys : List Key, names = keys.map (convert conversion) ∧ names.Nodup ∧
    ∀ key, key ∈ keys ↔ NearestPasses filter holders key

/-- Asked for its own keys, the object throws. -/
def Holder.Fails (holder : Holder ε) : Prop :=
  (∃ error, holder.ownKeys = .error error) ∨
    ∃ keys units error, holder.ownKeys = .ok keys ∧ .string units ∈ keys ∧
      holder.getOwnProperty (.string units) = .error error

/-- The prototypes have nothing to add to the keys that are nearer, and throw nothing: none of
    their other string keys is enumerable. -/
def Chain.Quiet : Chain ε → (Key → Prop) → Prop
  | null, _ => True
  | throws _, _ => False
  | object holder next, nearer => ∃ keys, holder.ownKeys = .ok keys ∧
      (∀ units, .string units ∈ keys → ¬ nearer (.string units) →
        ∃ d, holder.getOwnProperty (.string units) = .ok d ∧ ∀ d' ∈ d, d'.enumerable = false) ∧
      next.Quiet fun key => key ∈ keys ∨ nearer key

/-! ## Names -/

/-- What the regular expression takes is a numeral without leading zeros. -/
theorem isIndex_iff (key : List UInt16) : isIndex key = true ↔ units.Written key := by
  have hzero : units.char 0 = 0x30 := rfl
  cases key with
  | nil =>
    refine iff_of_false Bool.false_ne_true fun h => ?_
    exact h.nonempty rfl
  | cons unit rest =>
    simp only [isIndex, Bool.or_eq_true, Bool.and_eq_true, beq_iff_eq, List.isEmpty_iff,
      decide_eq_true_eq, List.all_eq_true, UInt16.le_iff_toNat_le, UInt16.reduceToNat]
    constructor
    · rintro (⟨rfl, rfl⟩ | ⟨⟨hlow, hhigh⟩, hrest⟩)
      · exact written_write 0
      · refine ⟨List.cons_ne_nil _ _, ?_, .inr ?_⟩
        · intro u hu
          rw [units_isDigit_iff]
          rcases List.mem_cons.mp hu with rfl | hu
          · omega
          · exact hrest u hu
        · rw [List.head?_cons, hzero]
          rintro hunit
          cases hunit
          exact absurd hlow (by decide)
    · intro h
      have hdigits := fun u hu => units_isDigit_iff.mp (h.digits u hu)
      obtain ⟨hlow, hhigh⟩ := hdigits unit List.mem_cons_self
      by_cases hunit : unit = 0x30
      · left
        refine ⟨hunit, ?_⟩
        rcases h.leading with hone | hhead
        · simpa using hone
        · exact absurd (congrArg some hunit) hhead
      · right
        have hne : unit.toNat ≠ 0x30 := fun heq => hunit (UInt16.toNat_inj.mp heq)
        exact ⟨⟨by omega, hhigh⟩, fun u hu => hdigits u (List.mem_cons_of_mem _ hu)⟩

/-- Two keys do not have one name. -/
theorem convert_inj (conversion : ℕ) : Function.Injective (convert conversion) := by
  intro a b hab
  cases a with
  | symbol id =>
    cases b with
    | symbol id' => exact congrArg Key.symbol (Name.symbol.inj hab)
    | string units =>
      simp only [convert] at hab
      split at hab <;> cases hab
  | string units =>
    cases b with
    | symbol id =>
      simp only [convert] at hab
      split at hab <;> cases hab
    | string units' =>
      simp only [convert] at hab
      split at hab
      · split at hab
        · rename_i h h'
          have hsame : Decimal.Alphabet.units.read units = Decimal.Alphabet.units.read units' :=
            Name.number.inj hab
          have hunits := eq_write_iff.mpr ⟨(isIndex_iff units).mp h.2.1, rfl⟩
          have hunits' := eq_write_iff.mpr ⟨(isIndex_iff units').mp h'.2.1, hsame.symm⟩
          rw [hunits, hunits']
        · cases hab
      · split at hab
        · cases hab
        · exact congrArg Key.string (Name.string.inj hab)

/-! ## One object -/

/-- What the loop makes of a key it has not seen: whether its name is pushed. -/
def Holder.look (holder : Holder ε) (filter : ℕ) (key : Key) : Except ε Bool :=
  if skips filter key then .ok false
  else
    match holder.getOwnProperty key with
    | .error error => .error error
    | .ok none => .ok false
    | .ok (some descriptor) => .ok (lets filter descriptor)

variable {holder : Holder ε} {filter conversion : ℕ} {key : Key} {keys seen seen' : List Key}
  {result result' names : List Name}

theorem collect_seen (h : key ∈ seen) :
    collect filter conversion holder (key :: keys) (seen, result) =
      collect filter conversion holder keys (seen, result) := by
  rw [collect, if_pos h]

theorem collect_error {error : ε} (h : key ∉ seen) (hlook : holder.look filter key = .error error) :
    collect filter conversion holder (key :: keys) (seen, result) = .error error := by
  unfold Holder.look at hlook
  rw [collect, if_neg h]
  split at hlook
  · cases hlook
  · rename_i hskips
    rw [if_neg hskips]
    cases hproperty : holder.getOwnProperty key with
    | error error' =>
      rw [hproperty] at hlook
      obtain rfl := Except.error.inj hlook
      rfl
    | ok d =>
      rw [hproperty] at hlook
      cases d <;> cases hlook

theorem collect_look {pushed : Bool} (h : key ∉ seen) (hlook : holder.look filter key = .ok pushed) :
    collect filter conversion holder (key :: keys) (seen, result) =
      collect filter conversion holder keys
        (key :: seen, if pushed then result ++ [convert conversion key] else result) := by
  unfold Holder.look at hlook
  rw [collect, if_neg h]
  split at hlook
  · rename_i hskips
    obtain rfl := Except.ok.inj hlook
    rw [if_pos hskips]
    rfl
  · rename_i hskips
    rw [if_neg hskips]
    cases hproperty : holder.getOwnProperty key with
    | error error' =>
      rw [hproperty] at hlook
      cases hlook
    | ok d =>
      rw [hproperty] at hlook
      cases d with
      | none =>
        obtain rfl := Except.ok.inj hlook
        rfl
      | some d =>
        obtain rfl := Except.ok.inj hlook
        dsimp only
        split <;> rfl

/-- The keys of an object that are pushed, as far as they are not seen yet. -/
def Holder.pushed (holder : Holder ε) (filter : ℕ) (keys seen : List Key) : List Key :=
  keys.filter fun key => decide (key ∉ seen ∧ (holder.look filter key).toOption = some true)

theorem pushed_cons (hkey : key ∉ seen) (hkeys : key ∉ keys) {pushed : Bool}
    (hlook : holder.look filter key = .ok pushed) :
    holder.pushed filter (key :: keys) seen =
      (if pushed then [key] else []) ++ holder.pushed filter keys (key :: seen) := by
  have htail : holder.pushed filter keys seen = holder.pushed filter keys (key :: seen) := by
    refine List.filter_congr ?_
    intro k hk
    have hne : k ≠ key := fun heq => hkeys (heq ▸ hk)
    simp [hne]
  rw [← htail, Holder.pushed, List.filter_cons]
  cases pushed <;> simp [hkey, hlook, Except.toOption, Holder.pushed]

theorem pushed_cons_seen (hkey : key ∈ seen) :
    holder.pushed filter (key :: keys) seen = holder.pushed filter keys seen := by
  rw [Holder.pushed, List.filter_cons_of_neg (by simp [hkey])]
  rfl

/-- What the loop has seen and pushed in the end. -/
theorem collect_ok (hnodup : keys.Nodup)
    (h : collect filter conversion holder keys (seen, result) = .ok (seen', result')) :
    (∀ k, k ∈ seen' ↔ k ∈ keys ∨ k ∈ seen) ∧
      result' = result ++ (holder.pushed filter keys seen).map (convert conversion) := by
  induction keys generalizing seen result with
  | nil =>
    obtain ⟨rfl, rfl⟩ := Prod.mk.inj (Except.ok.inj h)
    simp [Holder.pushed]
  | cons key keys ih =>
    obtain ⟨hkeys, hnodup'⟩ := List.nodup_cons.mp hnodup
    by_cases hkey : key ∈ seen
    · rw [collect_seen hkey] at h
      obtain ⟨hseen, hresult⟩ := ih hnodup' h
      rw [pushed_cons_seen hkey]
      refine ⟨?_, hresult⟩
      intro k
      rw [hseen, List.mem_cons]
      by_cases hk : k = key
      · simp [hk, hkey]
      · simp [hk]
    · cases hlook : holder.look filter key with
      | error error =>
        rw [collect_error hkey hlook] at h
        cases h
      | ok pushed =>
        rw [collect_look hkey hlook] at h
        obtain ⟨hseen, hresult⟩ := ih hnodup' h
        rw [pushed_cons hkey hkeys hlook]
        refine ⟨?_, ?_⟩
        · intro k
          rw [hseen, List.mem_cons, List.mem_cons]
          tauto
        · rw [hresult]
          cases pushed <;> simp

/-- The loop ends when no key that it asks about throws. -/
theorem collect_isOk_iff (hnodup : keys.Nodup) :
    (∃ acc, collect filter conversion holder keys (seen, result) = .ok acc) ↔
      ∀ k ∈ keys, k ∉ seen → ∃ pushed, holder.look filter k = .ok pushed := by
  induction keys generalizing seen result with
  | nil => simp [collect]
  | cons key keys ih =>
    obtain ⟨hkeys, hnodup'⟩ := List.nodup_cons.mp hnodup
    by_cases hkey : key ∈ seen
    · rw [collect_seen hkey, ih hnodup']
      simp [hkey]
    · cases hlook : holder.look filter key with
      | error error =>
        rw [collect_error hkey hlook]
        simp [hkey, hlook]
      | ok pushed =>
        rw [collect_look hkey hlook, ih hnodup', List.forall_mem_cons]
        have hseen : ∀ k ∈ keys, k ∉ key :: seen ↔ k ∉ seen := by
          intro k hk
          have hne : k ≠ key := fun heq => hkeys (heq ▸ hk)
          simp [hne]
        constructor
        · intro hall
          exact ⟨fun _ => ⟨pushed, hlook⟩, fun k hk hk' => hall k hk ((hseen k hk).mpr hk')⟩
        · rintro ⟨_, hall⟩ k hk hk'
          exact hall k hk ((hseen k hk).mp hk')

/-! ## Of the enumerable string keys -/

theorem look_symbol (id : ℕ) : holder.look (2 ||| 16) (.symbol id) = .ok false := by
  rw [Holder.look, if_pos (show skips (2 ||| 16) (.symbol id) = true from rfl)]

theorem look_string (units : List UInt16) :
    holder.look (2 ||| 16) (.string units) =
      (holder.getOwnProperty (.string units)).map fun d => d.any Descriptor.enumerable := by
  have hlets : ∀ d, lets (2 ||| 16) d = d.enumerable := by
    intro d
    simp [lets]
  rw [Holder.look, if_neg (show ¬ skips (2 ||| 16) (.string units) = true by simp [skips])]
  cases holder.getOwnProperty (.string units) with
  | error error => rfl
  | ok d =>
    cases d with
    | none => rfl
    | some d => exact congrArg Except.ok (hlets d)

/-- `Object.keys` goes through the same traps, and pushes the same. -/
theorem enumerableKeys_eq (hnodup : keys.Nodup) (hseen : ∀ k ∈ keys, k ∉ seen) :
    enumerableKeys holder keys result =
      (collect (2 ||| 16) 1 holder keys (seen, result)).map Prod.snd := by
  induction keys generalizing seen result with
  | nil => rfl
  | cons key keys ih =>
    obtain ⟨hkeys, hnodup'⟩ := List.nodup_cons.mp hnodup
    obtain ⟨hkey, hseen'⟩ := List.forall_mem_cons.mp hseen
    have hnext : ∀ k ∈ keys, k ∉ key :: seen := by
      intro k hk
      have hne : k ≠ key := fun heq => hkeys (heq ▸ hk)
      simp [hne, hseen' k hk]
    cases key with
    | symbol id =>
      rw [collect_look hkey (look_symbol id), enumerableKeys, ih hnodup' hnext]
      rfl
    | string units =>
      have hlook : holder.look (2 ||| 16) (.string units) =
          (holder.getOwnProperty (.string units)).map fun d => d.any Descriptor.enumerable :=
        look_string units
      rw [enumerableKeys]
      cases hproperty : holder.getOwnProperty (.string units) with
      | error error =>
        rw [hproperty] at hlook
        rw [collect_error hkey hlook]
        rfl
      | ok d =>
        rw [hproperty] at hlook
        rw [collect_look hkey hlook]
        cases d with
        | none => exact ih hnodup' hnext
        | some d =>
          cases henumerable : d.enumerable with
          | true => simpa [henumerable, convert] using ih hnodup' hnext
          | false => simpa [henumerable] using ih hnodup' hnext

/-- A key is silent when it is a symbol or its property is not enumerable. -/
theorem look_false_iff (key : Key) : holder.look (2 ||| 16) key = .ok false ↔
    ∀ units, key = .string units →
      ∃ d, holder.getOwnProperty (.string units) = .ok d ∧ ∀ d' ∈ d, d'.enumerable = false := by
  cases key with
  | symbol id =>
    refine ⟨fun _ units hkey => ?_, fun _ => look_symbol id⟩
    cases hkey
  | string units =>
    rw [look_string]
    cases hproperty : holder.getOwnProperty (.string units) with
    | error error =>
      constructor
      · nofun
      · intro h
        obtain ⟨d, hd, _⟩ := h units rfl
        cases hproperty.symm.trans hd
    | ok d =>
      constructor
      · rintro h units' hunits
        obtain rfl := Key.string.inj hunits
        refine ⟨d, hproperty, ?_⟩
        rintro d' rfl
        exact Except.ok.inj h
      · intro h
        obtain ⟨d', hd, hsilent⟩ := h units rfl
        obtain rfl := Except.ok.inj (hproperty.symm.trans hd)
        cases d with
        | none => rfl
        | some d => exact congrArg Except.ok (hsilent d rfl)

theorem look_error_iff (key : Key) : (∃ error, holder.look (2 ||| 16) key = .error error) ↔
    ∃ units error, key = .string units ∧
      holder.getOwnProperty (.string units) = .error error := by
  cases key with
  | symbol id =>
    rw [look_symbol]
    constructor
    · rintro ⟨error, h⟩
      cases h
    · rintro ⟨units, error, h, _⟩
      cases h
  | string units =>
    rw [look_string]
    constructor
    · rintro ⟨error, h⟩
      cases hproperty : holder.getOwnProperty (.string units) with
      | error error' => exact ⟨units, error', rfl, hproperty⟩
      | ok d =>
        rw [hproperty] at h
        cases h
    · rintro ⟨units', error, hunits, hproperty⟩
      obtain rfl := Key.string.inj hunits
      rw [hproperty]
      exact ⟨error, rfl⟩

/-- An object adds nothing when its keys that are not nearer are all silent. -/
theorem silent_iff (hnodup : keys.Nodup) :
    (∀ k ∈ keys, k ∉ seen → holder.look (2 ||| 16) k = .ok false) ↔
      (∃ acc, collect (2 ||| 16) 1 holder keys (seen, result) = .ok acc) ∧
        holder.pushed (2 ||| 16) keys seen = [] := by
  rw [collect_isOk_iff hnodup, Holder.pushed, List.filter_eq_nil_iff]
  constructor
  · intro hall
    refine ⟨fun k hk hseen => ⟨false, hall k hk hseen⟩, ?_⟩
    intro k hk hpushed
    obtain ⟨hseen, hlook⟩ := of_decide_eq_true hpushed
    rw [hall k hk hseen] at hlook
    cases hlook
  · rintro ⟨hok, hnot⟩ k hk hseen
    obtain ⟨pushed, hlook⟩ := hok k hk hseen
    have hfalse := hnot k hk
    simp only [hseen, hlook, Except.toOption, not_false_eq_true, true_and, Option.some.injEq,
      decide_eq_true_eq, Bool.not_eq_true] at hfalse
    rw [hlook, hfalse]

theorem not_ok_iff {α : Type} (r : Except ε α) :
    (¬ ∃ a, r = .ok a) ↔ ∃ error, r = .error error := by
  cases r with
  | error error => simp
  | ok a => simp

theorem fails_iff (holder : Holder ε) : holder.Fails ↔ ∃ error, ownKeys holder = .error error := by
  unfold Holder.Fails ownKeys
  cases hown : holder.ownKeys with
  | error error => simp
  | ok keys =>
    have hnodup := holder.distinct keys hown
    have hloop : ∃ r : Except ε (List Key × List Name),
        enumerableKeys holder keys [] = r.map Prod.snd ∧
          ((∃ acc, r = .ok acc) ↔ ∀ k ∈ keys, ∃ pushed, holder.look (2 ||| 16) k = .ok pushed) := by
      refine ⟨collect (2 ||| 16) 1 holder keys ([], []),
        enumerableKeys_eq hnodup fun _ _ => List.not_mem_nil, ?_⟩
      rw [collect_isOk_iff hnodup]
      simp
    obtain ⟨r, heq, hr⟩ := hloop
    have herror : (∃ error, r.map Prod.snd = .error error) ↔ ∃ error, r = .error error := by
      cases r with
      | error error => simp [Except.map]
      | ok acc => simp [Except.map]
    dsimp only
    rw [heq, herror, ← not_ok_iff r, hr]
    push Not
    constructor
    · rintro (⟨error, h⟩ | ⟨keys', units, error, hkeys, hmem, hproperty⟩)
      · cases h
      · obtain rfl := Except.ok.inj hkeys
        obtain ⟨error', hlook⟩ := (look_error_iff _).mpr ⟨units, error, rfl, hproperty⟩
        refine ⟨_, hmem, fun pushed h => ?_⟩
        cases hlook.symm.trans h
    · rintro ⟨key, hmem, hnot⟩
      obtain ⟨error, hlook⟩ := (not_ok_iff _).mp fun ⟨pushed, h⟩ => hnot pushed h
      obtain ⟨units, error, rfl, hproperty⟩ := (look_error_iff key).mp ⟨error, hlook⟩
      exact .inr ⟨keys, units, error, rfl, hmem, hproperty⟩

/-! ## The chain -/

theorem passes_iff (filter : ℕ) (key : Key) (d : Descriptor) :
    Passes filter key d ↔ skips filter key = false ∧ lets filter d = true := by
  constructor
  · intro h
    refine ⟨?_, ?_⟩
    · cases key with
      | string units =>
        have hstrings := h.strings
        simp only [skips, bne_eq_false_iff_eq]
        by_contra hbit
        obtain ⟨id, hid⟩ := hstrings hbit
        cases hid
      | symbol id =>
        have hsymbols := h.symbols
        simp only [skips, bne_eq_false_iff_eq]
        by_contra hbit
        obtain ⟨units, hunits⟩ := hsymbols hbit
        cases hunits
    · have hwritable := h.writable
      have henumerable := h.enumerable
      have hconfigurable := h.configurable
      simp only [lets, Bool.and_eq_true, Bool.or_eq_true, beq_iff_eq]
      tauto
  · rintro ⟨hskips, hlets⟩
    simp only [lets, Bool.and_eq_true, Bool.or_eq_true, beq_iff_eq] at hlets
    obtain ⟨⟨hwritable, henumerable⟩, hconfigurable⟩ := hlets
    refine ⟨fun h => hwritable.resolve_left h, fun h => henumerable.resolve_left h,
      fun h => hconfigurable.resolve_left h, fun h => ?_, fun h => ?_⟩
    · cases key with
      | string units =>
        simp only [skips, bne_eq_false_iff_eq] at hskips
        exact absurd hskips h
      | symbol id => exact ⟨id, rfl⟩
    · cases key with
      | string units => exact ⟨units, rfl⟩
      | symbol id =>
        simp only [skips, bne_eq_false_iff_eq] at hskips
        exact absurd hskips h

theorem look_true_iff : holder.look filter key = .ok true ↔
    ∃ d, holder.getOwnProperty key = .ok (some d) ∧ Passes filter key d := by
  unfold Holder.look
  by_cases hskips : skips filter key = true
  · rw [if_pos hskips]
    constructor
    · nofun
    · rintro ⟨d, _, hpasses⟩
      rw [((passes_iff filter key d).mp hpasses).1] at hskips
      cases hskips
  · rw [if_neg hskips]
    have hskips' := Bool.eq_false_iff.mpr hskips
    cases hproperty : holder.getOwnProperty key with
    | error error => simp
    | ok d =>
      cases d with
      | none => simp
      | some d => simp [passes_iff, hskips']

theorem mem_pushed : key ∈ holder.pushed filter keys seen ↔
    key ∈ keys ∧ key ∉ seen ∧
      ∃ d, holder.getOwnProperty key = .ok (some d) ∧ Passes filter key d := by
  rw [Holder.pushed, List.mem_filter, decide_eq_true_iff, ← look_true_iff]
  have hoption : (holder.look filter key).toOption = some true ↔
      holder.look filter key = .ok true := by
    cases holder.look filter key with
    | error error => simp [Except.toOption]
    | ok pushed => simp [Except.toOption]
  rw [hoption]

/-- The objects that the walk comes to. -/
def reached (mode : ℕ) (chain : Chain ε) : List (Holder ε) :=
  if mode = 1 then chain.holders.take 1 else chain.holders

/-- One object of the walk: what is pushed for it is what it is the nearest holder of. -/
theorem nearestPasses_object (far : List (Holder ε)) (hown : holder.ownKeys = .ok keys) :
    NearestPasses filter (holder :: far) key ↔
      if key ∈ keys then ∃ d, holder.getOwnProperty key = .ok (some d) ∧ Passes filter key d
      else NearestPasses filter far key := by
  have hkeys : holder.keys = keys := by rw [Holder.keys, hown]
  rw [NearestPasses, hkeys]

theorem walk_ok {mode : ℕ} (chain : Chain ε)
    (h : walk mode filter conversion chain (seen, result) = .ok names) :
    ∃ keys : List Key, names = result ++ keys.map (convert conversion) ∧ keys.Nodup ∧
      ∀ key, key ∈ keys ↔ key ∉ seen ∧ NearestPasses filter (reached mode chain) key := by
  induction chain generalizing seen result with
  | null =>
    obtain rfl := Except.ok.inj h
    refine ⟨[], by simp, List.nodup_nil, fun key => ?_⟩
    simp [reached, Chain.holders, NearestPasses]
  | throws error => cases h
  | object holder next ih =>
    rw [walk] at h
    cases hown : holder.ownKeys with
    | error error =>
      rw [hown] at h
      cases h
    | ok keys =>
      have hnodup := holder.distinct keys hown
      rw [hown] at h
      dsimp only at h
      cases hcollect : collect filter conversion holder keys (seen, result) with
      | error error =>
        rw [hcollect] at h
        cases h
      | ok acc =>
        obtain ⟨seen', result'⟩ := acc
        rw [hcollect] at h
        dsimp only at h
        obtain ⟨hseen, rfl⟩ := collect_ok hnodup hcollect
        have hpushed : (holder.pushed filter keys seen).Nodup := hnodup.filter _
        by_cases hmode : mode = 1
        · rw [if_pos hmode] at h
          obtain rfl := Except.ok.inj h
          refine ⟨holder.pushed filter keys seen, rfl, hpushed, fun key => ?_⟩
          rw [mem_pushed, reached, if_pos hmode, Chain.holders, List.take_succ_cons,
            List.take_zero, nearestPasses_object [] hown, NearestPasses]
          split <;> tauto
        · rw [if_neg hmode] at h
          obtain ⟨far, rfl, hfar, hmem⟩ := ih h
          refine ⟨holder.pushed filter keys seen ++ far, by simp, ?_, fun key => ?_⟩
          · refine hpushed.append hfar fun key hnear hfar => ?_
            exact ((hmem key).mp hfar).1 ((hseen key).mpr (.inl (mem_pushed.mp hnear).1))
          · rw [List.mem_append, mem_pushed, hmem, hseen, reached, if_neg hmode, reached,
              if_neg hmode, Chain.holders, nearestPasses_object _ hown]
            by_cases hkey : key ∈ keys
            · simp [hkey]
            · simp [hkey]

/-- The names listed beyond those there already, when the prototypes have nothing to add. -/
theorem walk_quiet (chain : Chain ε) (nearer : Key → Prop) (hnearer : ∀ k, k ∈ seen ↔ nearer k) :
    walk 0 (2 ||| 16) 1 chain (seen, result) = .ok result ↔ chain.Quiet nearer := by
  induction chain generalizing seen nearer with
  | null => simp [walk, Chain.Quiet]
  | throws error => simp [walk, Chain.Quiet]
  | object holder next ih =>
    rw [walk, Chain.Quiet]
    cases hown : holder.ownKeys with
    | error error => simp
    | ok keys =>
      have hnodup := holder.distinct keys hown
      have hsilent : (∀ units, .string units ∈ keys → ¬ nearer (.string units) →
          ∃ d, holder.getOwnProperty (.string units) = .ok d ∧
            ∀ d' ∈ d, d'.enumerable = false) ↔
          ∀ k ∈ keys, k ∉ seen → holder.look (2 ||| 16) k = .ok false := by
        constructor
        · intro hall k hk hk'
          refine (look_false_iff k).mpr fun units hunits => ?_
          subst hunits
          exact hall units hk fun h => hk' ((hnearer _).mpr h)
        · intro hall units hk hk'
          exact (look_false_iff _).mp (hall _ hk fun h => hk' ((hnearer _).mp h)) units rfl
      dsimp only
      constructor
      · intro h
        cases hcollect : collect (2 ||| 16) 1 holder keys (seen, result) with
        | error error =>
          rw [hcollect] at h
          cases h
        | ok acc =>
          obtain ⟨seen', result'⟩ := acc
          rw [hcollect] at h
          dsimp only at h
          rw [if_neg (by decide)] at h
          obtain ⟨hseen, rfl⟩ := collect_ok hnodup hcollect
          -- What an object pushes stays in the result.
          have hnone : holder.pushed (2 ||| 16) keys seen = [] := by
            obtain ⟨far, heq, _⟩ := walk_ok next h
            rw [List.append_assoc, List.self_eq_append_right, List.append_eq_nil_iff,
              List.map_eq_nil_iff] at heq
            exact heq.1
          refine ⟨keys, rfl, hsilent.mpr ((silent_iff hnodup).mpr ⟨⟨_, hcollect⟩, hnone⟩), ?_⟩
          rw [hnone, List.map_nil, List.append_nil] at h
          exact (ih _ fun k => by rw [hseen, hnearer]).mp h
      · rintro ⟨keys', hkeys, hall, hnext⟩
        obtain rfl := Except.ok.inj hkeys
        obtain ⟨⟨acc, hcollect⟩, hnone⟩ := (silent_iff hnodup).mp (hsilent.mp hall)
        obtain ⟨seen', result'⟩ := acc
        rw [hcollect]
        obtain ⟨hseen, rfl⟩ := collect_ok hnodup hcollect
        rw [hnone, List.map_nil, List.append_nil]
        dsimp only
        rw [if_neg (by decide)]
        exact (ih _ fun k => by rw [hseen, hnearer]).mpr hnext

/-! ## The two listings -/

/-- The walk begins as `Object.keys` goes, and goes on to the prototypes. -/
theorem walk_own (own : Holder ε) (proto : Chain ε) :
    walk 0 (2 ||| 16) 1 (.object own proto) ([], []) = ownKeys own ↔
      own.Fails ∨ proto.Quiet (· ∈ own.keys) := by
  rw [fails_iff, walk, ownKeys, Holder.keys]
  cases hown : own.ownKeys with
  | error error => simp
  | ok keys =>
    have hnodup := own.distinct keys hown
    dsimp only
    rw [enumerableKeys_eq hnodup fun _ _ => List.not_mem_nil]
    cases hcollect : collect (2 ||| 16) 1 own keys ([], []) with
    | error error => simp [Except.map]
    | ok acc =>
      obtain ⟨seen', result'⟩ := acc
      obtain ⟨hseen, _⟩ := collect_ok hnodup hcollect
      have hnearer : ∀ k, k ∈ seen' ↔ k ∈ keys := by
        intro k
        rw [hseen]
        simp
      have hquiet : walk 0 (2 ||| 16) 1 proto (seen', result') = .ok result' ↔
          proto.Quiet (· ∈ keys) := walk_quiet proto _ hnearer
      dsimp only
      rw [if_neg (by decide), ← hquiet]
      simp [Except.map]

theorem getAllPropertyNames_ok {objectPrototype : Chain ε} {value : Value ε} {mode : ℕ}
    (h : getAllPropertyNames objectPrototype value mode filter conversion = .ok names) :
    ListsNearest filter conversion (reached mode (value.chain objectPrototype)) names := by
  rw [getAllPropertyNames] at h
  cases hwalk : walk mode filter conversion (value.chain objectPrototype) ([], []) with
  | error error =>
    rw [hwalk] at h
    cases h
  | ok names' =>
    rw [hwalk] at h
    obtain rfl := Except.ok.inj h
    obtain ⟨keys, rfl, hnodup, hmem⟩ := walk_ok _ hwalk
    refine ⟨keys, rfl, hnodup.map (convert_inj conversion), fun key => ?_⟩
    simp [hmem]

end

/-- The two agree where the prototypes of the value have nothing to add to its own keys, or where
    these cannot be listed; and the full listing has each key once, for its nearest holder. -/
theorem agree_iff_quiet {ε : Type} (objectPrototype : Chain ε) :
    (∀ value : Value ε, getPropertyNames value = asAllPropertyNames objectPrototype value ↔
      ∃ own proto, value = .object own proto ∧ (own.Fails ∨ proto.Quiet (· ∈ own.keys))) ∧
    ∀ (value : Value ε) (mode filter conversion : ℕ) (names : List Name),
      getAllPropertyNames objectPrototype value mode filter conversion = .ok names →
        ListsNearest filter conversion (reached mode (value.chain objectPrototype)) names := by
  refine ⟨fun value => ?_, fun value mode filter conversion names => getAllPropertyNames_ok⟩
  cases value with
  | nullish =>
    constructor
    · intro h
      rw [asAllPropertyNames, getAllPropertyNames] at h
      split at h <;> cases h
    · rintro ⟨own, proto, hvalue, _⟩
      cases hvalue
  | object own proto =>
    have hcall : getPropertyNames (.object own proto) =
          asAllPropertyNames objectPrototype (.object own proto) ↔
        walk 0 (2 ||| 16) 1 (.object own proto) ([], []) = ownKeys own := by
      rw [getPropertyNames, asAllPropertyNames, getAllPropertyNames, Value.chain]
      cases walk 0 (2 ||| 16) 1 (.object own proto) ([], []) <;> cases ownKeys own <;>
        simp [eq_comm]
    rw [hcall, walk_own]
    constructor
    · intro h
      exact ⟨own, proto, rfl, h⟩
    · rintro ⟨own', proto', hvalue, h⟩
      obtain ⟨rfl, rfl⟩ := Value.object.inj hvalue
      exact h

def ordinary (keys : List Key) (hkeys : keys.Nodup) (d : Descriptor) : Holder Empty where
  ownKeys := .ok keys
  getOwnProperty key := .ok (if key ∈ keys then some d else none)
  distinct _ h := Except.ok.inj h ▸ hkeys

/-- An object that shadows the one key of its prototype, hidden and all. -/
theorem shadowed_agree :
    getPropertyNames (.object (ordinary [.string [0x61]] (by decide) ⟨true, false, true⟩)
        (.object (ordinary [.string [0x61]] (by decide) ⟨true, true, true⟩) .null)) =
      asAllPropertyNames .null
        (.object (ordinary [.string [0x61]] (by decide) ⟨true, false, true⟩)
          (.object (ordinary [.string [0x61]] (by decide) ⟨true, true, true⟩) .null)) ∧
    ListsNearest 0 0
      [ordinary [.string [0x30]] (by decide) ⟨true, false, true⟩] [.number 0] := by
  refine ⟨((agree_iff_quiet .null).1 _).mpr ⟨_, _, rfl, .inr ?_⟩, ?_⟩
  · refine ⟨_, rfl, fun units hmem hnearer => absurd hmem hnearer, trivial⟩
  · exact (agree_iff_quiet .null).2
      (.object (ordinary [.string [0x30]] (by decide) ⟨true, false, true⟩) .null) 1 0 0 _ rfl

/-- An object without keys that inherits an enumerable one. -/
theorem inherited_not_agree :
    ¬ ∀ (own : Holder Empty) (proto objectPrototype : Chain Empty),
      getPropertyNames (.object own proto) =
        asAllPropertyNames objectPrototype (.object own proto) := by
  intro h
  have hdata := h (ordinary [] (by decide) ⟨true, true, true⟩)
    (.object (ordinary [.string [0x61]] (by decide) ⟨true, true, true⟩) .null) .null
  have hlists : (.ok [] : Except (Failure Empty) (List Name)) = .ok [.string [0x61]] := hdata
  cases Except.ok.inj hlists

end WasmerNapi.HostJs.PropertyNames
