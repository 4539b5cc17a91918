import WasmerNapi.Bridge.External

/-!
# The words of a BigInt

`napi_get_value_bigint_words` (`src/v8/src/js_native_api_v8.cc`) copies the 64-bit words of
a BigInt into the caller's array, or, with no array, only says how many there are and
what the sign is. The engine gives a sign together with the words or not at all, so the
second mode asks for all the words and offers a buffer of one. The guest import
(`src/src/guest/napi.rs`) always wants the sign.

A call of `ToWordsArray` is recorded with the count it passes and the room it offers.
`bigintWords_sound_iff` says when the room is enough, for the function called directly
and for the import.
-/

namespace WasmerNapi.Bridge.Bigint

open Word

/-- `v8::BigInt`; `WordCount` is an `int`. -/
structure BigInt where
  sign : Bool
  words : List UInt64
  fits : words.length < 2 ^ 31

inductive Value where
  | bigint (b : BigInt)
  | other

/-- A call of `ToWordsArray`: the count passed, and the words the buffer has room for. -/
structure Conversion where
  count : ℕ
  room : ℕ
  deriving DecidableEq

/-- `v8::BigInt::ToWordsArray`, with what its documentation says of it: it gives the sign
    and the number of words needed, and stores no more words than the count passed. What
    becomes of a buffer shorter than that is not said. -/
structure Engine where
  toWordsArray : BigInt → ℕ → List UInt64 → Bool × ℕ × List UInt64
  sign_eq : ∀ b count words, (toWordsArray b count words).1 = b.sign
  count_eq : ∀ b count words, (toWordsArray b count words).2.1 = b.words.length
  words_eq : ∀ b count words, count ≤ words.length →
    (toWordsArray b count words).2.2 =
      b.words.take count ++ words.drop (min count b.words.length)

/-- What a call leaves behind: the conversions it made, `*sign_bit` and `*word_count` where
    it has set them, and the caller's words. -/
structure Outcome where
  status : NapiStatus
  conversions : List Conversion := []
  signBit : Option Bool := none
  wordCount : Option ℕ := none
  words : List UInt64 := []

def intMax : ℕ := 2 ^ 31 - 1

/-- `MAX_NAPI_BIGINT_WORDS`. -/
def maxNapiBigintWords : ℕ := 32 * 1024

section

variable (engine : Engine)

/-- `napi_get_value_bigint_words`. A null pointer is `none`, and for `sign_bit` `false`. -/
def napiGetValueBigintWords (env : Bool) (value : Option Value) (signBit : Bool)
    (wordCount : Option ℕ) (words : Option (List UInt64)) : Outcome :=
  match env, value, wordCount with
  | true, some (.bigint b), some wordCount =>
    let wc := b.words.length
    match words with
    | none =>
      if signBit then
        let tmpWords : List UInt64 := if 0 < wc then [0] else []
        let (sign, _, _) := engine.toWordsArray b wc tmpWords
        { status := .ok
          conversions := [⟨wc, tmpWords.length⟩]
          signBit := some sign
          wordCount := some wc }
      else { status := .ok, wordCount := some wc }
    | some words =>
      let requested := if intMax < wordCount then intMax else wordCount
      let (sign, count, stored) := engine.toWordsArray b requested words
      { status := .ok
        conversions := [⟨requested, words.length⟩]
        signBit := if signBit then some sign else none
        wordCount := some count
        words := stored }
  | true, some .other, some _ => { status := .bigintExpected, words := words.getD [] }
  | _, _, _ => { status := .invalidArg, words := words.getD [] }

/-- `snapi_bridge_get_value_bigint_words`. `state` is what `RequireEnvState` finds, and the
    env of a state it finds is not null. -/
def snapiBridgeGetValueBigintWords (state : Option (Agent.State Value)) (id : ℕ) (signBit : Bool)
    (wordCount : ℕ) (words : Option (List UInt64)) : Outcome :=
  match state with
  | none => { status := .invalidArg, words := words.getD [] }
  | some agent =>
    match agent.loadValue id with
    | none => { status := .invalidArg, words := words.getD [] }
    | some val => napiGetValueBigintWords engine true (some val) signBit (some wordCount) words

/-- What the import leaves behind: what it wrote to the guest as the sign and the count,
    and the guest's env. `panicked` is a slice of the host's own words past their end. -/
structure Reply where
  status : NapiStatus
  conversions : List Conversion := []
  signBit : Option Bool := none
  wordCount : Option ℕ := none
  panicked : Bool := false
  env : NapiEnv Value

/-- The end of the import's query mode. -/
def queried (env : NapiEnv Value) (signPtr wcPtr wordCount : ℕ) (r : Outcome) : Reply :=
  if r.status = .ok then
    let sign := r.signBit.getD false
    let count := truncate 32 (r.wordCount.getD wordCount)
    { status := r.status
      conversions := r.conversions
      signBit := some sign
      wordCount := some count
      env := (env.writeU32 signPtr sign.toNat).writeU32 wcPtr count }
  else { status := r.status, conversions := r.conversions, env }

/-- The end of its copy mode. -/
def copied (env : NapiEnv Value) (signPtr wcPtr wordsPtr wordCount : ℕ) (r : Outcome) : Reply :=
  if r.status = .ok then
    let sign := r.signBit.getD false
    let wordCount := r.wordCount.getD wordCount
    let count := truncate 32 wordCount
    let written := (env.writeU32 signPtr sign.toNat).writeU32 wcPtr count
    -- `words[..word_count]` is a slice of the scratch words.
    let panicked := decide (r.words.length < wordCount)
    { status := r.status
      conversions := r.conversions
      signBit := some sign
      wordCount := some count
      panicked
      env :=
        if panicked then written
        else
          { written with
            memory := written.memory.map fun memory => memory.write wordsPtr
              ((r.words.take wordCount).flatMap fun word => leBytes 8 word.toNat) } }
  else { status := r.status, conversions := r.conversions, env }

/-- `guest_napi_get_value_bigint_words`. -/
def guestNapiGetValueBigintWords (env : NapiEnv Value) (e vh signPtr wcPtr wordsPtr : ℕ) : Reply :=
  match env.memory.bind fun memory => memory.read wcPtr 4 with
  | none => { status := .invalidArg, env }
  | some wcBytes =>
    let wordCount := ofLeBytes wcBytes
    let state := (env.napiEnvs e).map env.agents
    if wordsPtr = 0 then
      queried env signPtr wcPtr wordCount
        (snapiBridgeGetValueBigintWords engine state vh true wordCount none)
    else if maxNapiBigintWords < wordCount then { status := .invalidArg, env }
    else
      copied env signPtr wcPtr wordsPtr wordCount
        (snapiBridgeGetValueBigintWords engine state vh true wordCount
          (some (List.replicate wordCount 0)))

/-! ## Room for the words -/

/-- Every conversion has the room it asks for. -/
def Roomy (conversions : List Conversion) : Prop := ∀ c ∈ conversions, c.count ≤ c.room

/-- A success reports the number of words the value needs and, where it is asked for, its
    sign. -/
def Reported (value : Option Value) (signAsked : Bool) (status : NapiStatus)
    (signBit : Option Bool) (wordCount : Option ℕ) : Prop :=
  status = .ok → ∃ b, value = some (.bigint b) ∧ wordCount = some b.words.length ∧
    (signAsked = true → signBit = some b.sign)

def Outcome.IsSound (r : Outcome) (value : Option Value) (signAsked : Bool) : Prop :=
  Roomy r.conversions ∧ Reported value signAsked r.status r.signBit r.wordCount

/-- The guest's memory once the import has written to it: the sign and the count, and with
    an array whatever it puts there after them. -/
def Stored (env env' : NapiEnv Value) (signPtr wcPtr wordsPtr : ℕ) (sign : Bool) (count : ℕ) :
    Prop :=
  ∃ bytes, (wordsPtr = 0 → bytes = []) ∧ env'.memory = env.memory.map fun memory =>
    ((memory.write signPtr (leBytes 4 sign.toNat)).write wcPtr (leBytes 4 count)).write wordsPtr bytes

/-- Of an import of `env`. -/
structure Reply.IsSound (r : Reply) (env : NapiEnv Value) (signPtr wcPtr wordsPtr : ℕ)
    (value : Option Value) : Prop where
  roomy : Roomy r.conversions
  reported : Reported value true r.status r.signBit r.wordCount
  stored : r.status = .ok → ∃ b, value = some (.bigint b) ∧
    Stored env r.env signPtr wcPtr wordsPtr b.sign b.words.length

/-- A value whose words do not fit the dummy. -/
def Long (value : Option Value) : Prop := ∃ b, value = some (.bigint b) ∧ 2 ≤ b.words.length

/-- The arguments of a direct call. An array comes with room for the count the caller
    passes beside it. -/
structure Arguments where
  env : Bool
  value : Option Value
  signBit : Bool
  wordCount : Option ℕ
  words : Option (List UInt64)
  room : ∀ count buffer, wordCount = some count → words = some buffer → count ≤ buffer.length

def Arguments.call (a : Arguments) : Outcome :=
  napiGetValueBigintWords engine a.env a.value a.signBit a.wordCount a.words

variable {engine}

theorem invalidArg_ne_ok : NapiStatus.invalidArg ≠ .ok := by decide

theorem bigintExpected_ne_ok : NapiStatus.bigintExpected ≠ .ok := by decide

theorem roomy_nil : Roomy [] := by
  intro c hc
  cases hc

theorem roomy_singleton_iff (c : Conversion) : Roomy [c] ↔ c.count ≤ c.room := by
  unfold Roomy
  rw [List.forall_mem_singleton]

variable {value : Option Value}

theorem reported_of_refused {signAsked : Bool} {status : NapiStatus} (h : status ≠ .ok)
    (signBit : Option Bool) (wordCount : Option ℕ) :
    Reported value signAsked status signBit wordCount :=
  fun hok => absurd hok h

theorem min_intMax_le (count : ℕ) : (if intMax < count then intMax else count) ≤ count := by
  split
  · omega
  · exact le_rfl

/-- The dummy has room for one word, and for none when none is needed. -/
theorem le_dummy_iff (wc : ℕ) :
    wc ≤ (if 0 < wc then [(0 : UInt64)] else []).length ↔ ¬ 2 ≤ wc := by
  split
  · rw [List.length_singleton]
    omega
  · rw [List.length_nil]
    omega

section

variable (b : BigInt) (signBit : Bool) (count : ℕ) (words : Option (List UInt64))

variable (engine) in
/-- The count and the sign are right in both modes, … -/
theorem reported_of_bigint :
    let r := napiGetValueBigintWords engine true (some (.bigint b)) signBit (some count) words
    r.status = .ok ∧ r.wordCount = some b.words.length ∧ (signBit = true → r.signBit = some b.sign) := by
  cases words with
  | none =>
    cases signBit with
    | false => exact ⟨rfl, rfl, fun h => absurd h Bool.false_ne_true⟩
    | true => exact ⟨rfl, rfl, fun _ => congrArg some (engine.sign_eq _ _ _)⟩
  | some buffer =>
    refine ⟨rfl, congrArg some (engine.count_eq _ _ _), ?_⟩
    intro h
    subst h
    exact congrArg some (engine.sign_eq _ _ _)

/-- … in query mode a sign costs a conversion, for which only the dummy is there, … -/
theorem query_roomy_iff :
    Roomy (napiGetValueBigintWords engine true (some (.bigint b)) signBit (some count)
      none).conversions ↔ ¬ (signBit = true ∧ 2 ≤ b.words.length) := by
  cases signBit with
  | false => exact iff_of_true roomy_nil fun h => Bool.false_ne_true h.1
  | true =>
    refine (roomy_singleton_iff _).trans ((le_dummy_iff _).trans (not_congr ?_))
    exact (and_iff_right rfl).symm

variable {count} in
/-- … and in copy mode the caller's array has the room the caller says. -/
theorem copy_roomy {buffer : List UInt64} (hroom : count ≤ buffer.length) :
    Roomy (napiGetValueBigintWords engine true (some (.bigint b)) signBit (some count)
      (some buffer)).conversions :=
  (roomy_singleton_iff _).mpr ((min_intMax_le count).trans hroom)

end

variable (engine) in
/-- A call that does not get as far as the words. -/
theorem refused_of_not_bigint {env : Bool} {wordCount : Option ℕ} (signBit : Bool)
    (words : Option (List UInt64))
    (h : ¬ (env = true ∧ (∃ b, value = some (.bigint b)) ∧ ∃ count, wordCount = some count)) :
    let r := napiGetValueBigintWords engine env value signBit wordCount words
    r.status ≠ .ok ∧ r.conversions = [] := by
  unfold napiGetValueBigintWords
  split
  · exact absurd ⟨rfl, ⟨_, rfl⟩, _, rfl⟩ h
  · exact ⟨bigintExpected_ne_ok, rfl⟩
  · exact ⟨invalidArg_ne_ok, rfl⟩

/-- The one call that offers too little room: for the sign of a value of two words or
    more, with no array. -/
def Arguments.Overruns (a : Arguments) : Prop :=
  a.env = true ∧ Long a.value ∧ (∃ count, a.wordCount = some count) ∧ a.words = none ∧
    a.signBit = true

theorem Arguments.isSound_iff (a : Arguments) :
    (a.call engine).IsSound a.value a.signBit ↔ ¬ a.Overruns := by
  obtain ⟨env, value, signBit, wordCount, words, hroom⟩ := a
  by_cases hbig : env = true ∧ (∃ b, value = some (.bigint b)) ∧ ∃ count, wordCount = some count
  · obtain ⟨rfl, ⟨b, rfl⟩, count, rfl⟩ := hbig
    have hrep := (reported_of_bigint engine b signBit count words).2
    refine (and_iff_left fun _ => ⟨b, rfl, hrep⟩).trans ?_
    cases words with
    | some buffer =>
      refine iff_of_true (copy_roomy b signBit (hroom count buffer rfl rfl)) ?_
      rintro ⟨_, _, _, hwords, _⟩
      cases hwords
    | none =>
      refine (query_roomy_iff b signBit count).trans (not_congr ?_)
      constructor
      · rintro ⟨hs, h⟩
        exact ⟨rfl, ⟨b, rfl, h⟩, ⟨count, rfl⟩, rfl, hs⟩
      · rintro ⟨_, ⟨b', hb, h⟩, _, _, hs⟩
        cases hb
        exact ⟨hs, h⟩
  · obtain ⟨hstatus, hconv⟩ := refused_of_not_bigint engine signBit words hbig
    refine iff_of_true ⟨?_, reported_of_refused hstatus _ _⟩ ?_
    · exact (congrArg Roomy hconv).mpr roomy_nil
    · rintro ⟨henv, ⟨b, hb, _⟩, hcount, _⟩
      exact hbig ⟨henv, ⟨b, hb⟩, hcount⟩

/-! ## The import -/

/-- The value a guest's id names: `RequireEnvState`, then `LoadValue`. -/
def guestValue (env : NapiEnv Value) (e vh : ℕ) : Option Value :=
  ((env.napiEnvs e).map env.agents).bind fun agent => agent.loadValue vh
variable {env : NapiEnv Value} {e vh : ℕ}

theorem bridge_of_value {val : Value} (h : guestValue env e vh = some val) (signBit : Bool)
    (wordCount : ℕ) (words : Option (List UInt64)) :
    snapiBridgeGetValueBigintWords engine ((env.napiEnvs e).map env.agents) vh signBit wordCount
        words =
      napiGetValueBigintWords engine true (some val) signBit (some wordCount) words := by
  unfold guestValue at h
  unfold snapiBridgeGetValueBigintWords
  cases hs : (env.napiEnvs e).map env.agents with
  | none =>
    rw [hs] at h
    cases h
  | some agent =>
    rw [hs, Option.bind_some] at h
    dsimp only
    rw [h]

theorem bridge_of_no_value (h : guestValue env e vh = none) (signBit : Bool) (wordCount : ℕ)
    (words : Option (List UInt64)) :
    snapiBridgeGetValueBigintWords engine ((env.napiEnvs e).map env.agents) vh signBit wordCount
        words = { status := .invalidArg, words := words.getD [] } := by
  unfold guestValue at h
  unfold snapiBridgeGetValueBigintWords
  cases hs : (env.napiEnvs e).map env.agents with
  | none => rfl
  | some agent =>
    rw [hs, Option.bind_some] at h
    dsimp only
    rw [h]

/-- Whatever the mode, the bridge refuses what is not a BigInt, and no conversion is made. -/
theorem bridge_of_not_bigint (h : ¬ ∃ b, guestValue env e vh = some (.bigint b)) (signBit : Bool)
    (wordCount : ℕ) (words : Option (List UInt64)) :
    let r := snapiBridgeGetValueBigintWords engine ((env.napiEnvs e).map env.agents) vh signBit
      wordCount words
    r.status ≠ .ok ∧ r.conversions = [] := by
  cases hv : guestValue env e vh with
  | none =>
    rw [bridge_of_no_value hv]
    exact ⟨invalidArg_ne_ok, rfl⟩
  | some val =>
    cases val with
    | bigint b => exact absurd ⟨b, hv⟩ h
    | other =>
      rw [bridge_of_value hv]
      exact ⟨bigintExpected_ne_ok, rfl⟩

theorem truncate_words (b : BigInt) : truncate 32 b.words.length = b.words.length := by
  have := b.fits
  exact Nat.mod_eq_of_lt (by omega)

/-- The import's query of a value of two words or more, which it gets to when it can read
    the guest's count. -/
def GuestOverruns (env : NapiEnv Value) (e vh wcPtr wordsPtr : ℕ) : Prop :=
  wordsPtr = 0 ∧ Long (guestValue env e vh) ∧
    ∃ wcBytes, (env.memory.bind fun memory => memory.read wcPtr 4) = some wcBytes

/-- What both modes of the import pass on of the bridge's outcome. -/
structure PassesOn (env : NapiEnv Value) (signPtr wcPtr wordsPtr : ℕ) (r : Outcome) (reply : Reply)
    (count : ℕ) : Prop where
  status : reply.status = r.status
  conversions : reply.conversions = r.conversions
  signBit : r.status = .ok → reply.signBit = some (r.signBit.getD false)
  wordCount : r.status = .ok → reply.wordCount = some (truncate 32 (r.wordCount.getD count))
  stored : r.status = .ok → Stored env reply.env signPtr wcPtr wordsPtr (r.signBit.getD false)
    (truncate 32 (r.wordCount.getD count))

theorem write_nil (memory : GuestMemory) (ptr : ℕ) : memory.write ptr [] = memory := by
  unfold GuestMemory.write
  split
  · rw [List.append_nil, List.length_nil, Nat.add_zero, List.take_append_drop]
  · rfl

/-- The sign and the count alone. -/
theorem stored_written (env : NapiEnv Value) (signPtr wcPtr wordsPtr : ℕ) (sign : Bool) (count : ℕ) :
    Stored env ((env.writeU32 signPtr sign.toNat).writeU32 wcPtr count) signPtr wcPtr wordsPtr sign
      count := by
  refine ⟨[], fun _ => rfl, ?_⟩
  simp only [write_nil, NapiEnv.writeU32, Option.map_map, Function.comp_def]

theorem queried_passesOn (env : NapiEnv Value) (signPtr wcPtr wordCount : ℕ) (r : Outcome) :
    PassesOn env signPtr wcPtr 0 r (queried env signPtr wcPtr wordCount r) wordCount := by
  unfold queried
  split
  · exact ⟨rfl, rfl, fun _ => rfl, fun _ => rfl, fun _ => stored_written ..⟩
  · rename_i h
    exact ⟨rfl, rfl, fun hok => absurd hok h, fun hok => absurd hok h, fun hok => absurd hok h⟩

variable {wordsPtr : ℕ}

theorem copied_passesOn (hptr : wordsPtr ≠ 0) (env : NapiEnv Value) (signPtr wcPtr wordCount : ℕ)
    (r : Outcome) :
    PassesOn env signPtr wcPtr wordsPtr r (copied env signPtr wcPtr wordsPtr wordCount r)
      wordCount := by
  unfold copied
  split
  · refine ⟨rfl, rfl, fun _ => rfl, fun _ => rfl, fun _ => ?_⟩
    dsimp only
    split
    · exact stored_written ..
    · refine ⟨(r.words.take (r.wordCount.getD wordCount)).flatMap fun word => leBytes 8 word.toNat,
        fun h => absurd h hptr, ?_⟩
      simp only [NapiEnv.writeU32, Option.map_map, Function.comp_def]
  · rename_i h
    exact ⟨rfl, rfl, fun hok => absurd hok h, fun hok => absurd hok h, fun hok => absurd hok h⟩

variable {reply : Reply}

/-- A reply that passes on an outcome on a BigInt is as roomy as the outcome. -/
theorem PassesOn.isSound_iff {signPtr wcPtr : ℕ} {b : BigInt} {count : ℕ}
    {words : Option (List UInt64)} (h : PassesOn env signPtr wcPtr wordsPtr
      (napiGetValueBigintWords engine true (some (.bigint b)) true (some count) words) reply count) :
    reply.IsSound env signPtr wcPtr wordsPtr (some (.bigint b)) ↔
      Roomy (napiGetValueBigintWords engine true (some (.bigint b)) true (some count)
        words).conversions := by
  obtain ⟨hok, hcount, hsign⟩ := reported_of_bigint engine b true count words
  rw [← h.conversions]
  refine ⟨Reply.IsSound.roomy, fun hroomy => ⟨hroomy, ?_, ?_⟩⟩
  · intro _
    refine ⟨b, rfl, ?_, fun _ => ?_⟩
    · rw [h.wordCount hok, hcount, Option.getD_some, truncate_words]
    · rw [h.signBit hok, hsign rfl, Option.getD_some]
  · intro _
    have hstored := h.stored hok
    rw [hsign rfl, hcount, Option.getD_some, Option.getD_some, truncate_words] at hstored
    exact ⟨b, rfl, hstored⟩

theorem Reply.sound_of_refused (hstatus : reply.status ≠ .ok) (hconv : reply.conversions = [])
    (env : NapiEnv Value) (signPtr wcPtr wordsPtr : ℕ) (value : Option Value) :
    reply.IsSound env signPtr wcPtr wordsPtr value where
  roomy := (congrArg Roomy hconv).mpr roomy_nil
  reported := reported_of_refused hstatus _ _
  stored hok := absurd hok hstatus

theorem PassesOn.sound_of_refused {signPtr wcPtr : ℕ} {r : Outcome} {count : ℕ}
    (h : PassesOn env signPtr wcPtr wordsPtr r reply count)
    (hr : r.status ≠ .ok ∧ r.conversions = []) :
    reply.IsSound env signPtr wcPtr wordsPtr value :=
  Reply.sound_of_refused (h.status.trans_ne hr.1) (h.conversions.trans hr.2) ..

theorem guest_sound_iff (env : NapiEnv Value) (e vh signPtr wcPtr wordsPtr : ℕ) :
    (guestNapiGetValueBigintWords engine env e vh signPtr wcPtr wordsPtr).IsSound env signPtr wcPtr
        wordsPtr (guestValue env e vh) ↔ ¬ GuestOverruns env e vh wcPtr wordsPtr := by
  unfold guestNapiGetValueBigintWords
  split
  · rename_i hread
    refine iff_of_true (Reply.sound_of_refused invalidArg_ne_ok rfl ..) ?_
    rintro ⟨_, _, wcBytes, h⟩
    rw [hread] at h
    cases h
  · rename_i wcBytes hread
    dsimp only
    split
    · rename_i hptr
      subst hptr
      by_cases hbig : ∃ b, guestValue env e vh = some (.bigint b)
      · obtain ⟨b, hb⟩ := hbig
        rw [hb, bridge_of_value hb]
        refine (queried_passesOn _ _ _ _ _).isSound_iff.trans
          ((query_roomy_iff b true _).trans (not_congr ?_))
        constructor
        · rintro ⟨_, h⟩
          exact ⟨rfl, ⟨b, hb, h⟩, wcBytes, hread⟩
        · rintro ⟨_, ⟨b', hb', h⟩, _⟩
          rw [hb] at hb'
          cases hb'
          exact ⟨rfl, h⟩
      · refine iff_of_true
          ((queried_passesOn _ _ _ _ _).sound_of_refused (bridge_of_not_bigint hbig _ _ _)) ?_
        rintro ⟨_, ⟨b, hb, _⟩, _⟩
        exact hbig ⟨b, hb⟩
    · rename_i hptr
      refine iff_of_true ?_ fun h => hptr h.1
      split
      · exact Reply.sound_of_refused invalidArg_ne_ok rfl ..
      · by_cases hbig : ∃ b, guestValue env e vh = some (.bigint b)
        · obtain ⟨b, hb⟩ := hbig
          rw [hb, bridge_of_value hb]
          refine (copied_passesOn hptr _ _ _ _ _).isSound_iff.mpr (copy_roomy b true ?_)
          exact List.length_replicate.ge
        · exact (copied_passesOn hptr _ _ _ _ _).sound_of_refused (bridge_of_not_bigint hbig _ _ _)

/-- A direct call, and an import, convert within their buffers and report the value's own
    sign and count, which the import writes to the guest, except where they want the sign of
    two words or more and have no array for them. -/
theorem bigintWords_sound_iff (engine : Engine) :
    (∀ a : Arguments, (a.call engine).IsSound a.value a.signBit ↔ ¬ a.Overruns) ∧
      ∀ (env : NapiEnv Value) (e vh signPtr wcPtr wordsPtr : ℕ),
        (guestNapiGetValueBigintWords engine env e vh signPtr wcPtr wordsPtr).IsSound env signPtr
            wcPtr wordsPtr (guestValue env e vh) ↔ ¬ GuestOverruns env e vh wcPtr wordsPtr :=
  ⟨fun a => a.isSound_iff, fun env e vh signPtr wcPtr wordsPtr =>
    guest_sound_iff env e vh signPtr wcPtr wordsPtr⟩

/-- The engine's conversion as documented, on a buffer that is long enough. -/
def documented : Engine where
  toWordsArray := fun b count words =>
    (b.sign, b.words.length, b.words.take count ++ words.drop (min count b.words.length))
  sign_eq := fun _ _ _ => rfl
  count_eq := fun _ _ _ => rfl
  words_eq := fun _ _ _ _ => rfl

/-- `-(2 ** 64)`. -/
def twoWords : BigInt where
  sign := true
  words := [0, 1]
  fits := by decide

/-- A guest that holds it. -/
def holder : NapiEnv Value where
  memory := some { base := 4096, data := List.replicate 16 0 }
  napiEnvs := fun e => if e = 1 then some 0 else none
  agents := fun _ => (({} : Agent.State Value).storeValue (some (.bigint twoWords))).2

/-- Its query of the value has two words written to a buffer of one. -/
theorem query_overruns :
    ¬ (guestNapiGetValueBigintWords documented holder 1 (Agent.valueId 0 0) 0 8 0).IsSound holder
      0 8 0 (guestValue holder 1 (Agent.valueId 0 0)) := by
  intro h
  have hroom : Roomy [⟨2, 1⟩] := h.roomy
  exact absurd ((roomy_singleton_iff _).mp hroom) (by decide)

end
end WasmerNapi.Bridge.Bigint
