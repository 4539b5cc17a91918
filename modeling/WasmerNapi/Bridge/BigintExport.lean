import WasmerNapi.Bridge.Bigint

/-!
# Copying the words of a BigInt out

`guest_napi_get_value_bigint_words` with an array: the host has scratch words of the guest's own
count, and the engine sets that count to the number the value needs before the scratch words are
sliced with it. For a value that needs no more than the guest has room for the copy is what N-API
says; for any other the slice is past the end. `bigintCopy_exports_iff` is both.
-/

namespace WasmerNapi.Bridge.Bigint

open Word

/-- The little-endian bytes of some words. -/
def wordBytes (words : List UInt64) : List UInt8 := words.flatMap fun word => leBytes 8 word.toNat

/-- What N-API says of a copy into an array of `wordCount` words: the host survives it, it reports
    the sign and the number of words needed, and stores those that fit. -/
structure Exports (memory : GuestMemory) (b : BigInt) (signPtr wcPtr wordsPtr wordCount : ℕ)
    (r : Reply) : Prop where
  returns : r.panicked = false
  status : r.status = .ok
  count : r.wordCount = some b.words.length
  stored : r.env.memory = some
    (((memory.write signPtr (leBytes 4 b.sign.toNat)).write wcPtr (leBytes 4 b.words.length)).write
      wordsPtr (wordBytes (b.words.take (min wordCount b.words.length))))

variable {engine : Engine} {env : NapiEnv Value} {e vh signPtr wcPtr wordsPtr : ℕ}
  {memory : GuestMemory} {wcBytes : List UInt8} {b : BigInt}

variable (engine) in
/-- What the bridge makes of as many scratch words as the guest has room for. -/
theorem bridge_copy (hv : guestValue env e vh = some (.bigint b)) {wordCount : ℕ}
    (hmax : wordCount ≤ maxNapiBigintWords) :
    let r := snapiBridgeGetValueBigintWords engine ((env.napiEnvs e).map env.agents) vh true wordCount
      (some (List.replicate wordCount 0))
    r.status = .ok ∧ r.signBit = some b.sign ∧ r.wordCount = some b.words.length ∧
      r.words = b.words.take wordCount ++ List.replicate (wordCount - b.words.length) 0 := by
  have hint : ¬ intMax < wordCount := by
    unfold maxNapiBigintWords at hmax
    unfold intMax
    omega
  rw [bridge_of_value hv]
  unfold napiGetValueBigintWords
  simp only [if_neg hint]
  refine ⟨trivial, ?_, ?_, ?_⟩
  · exact congrArg some (engine.sign_eq _ _ _)
  · exact congrArg some (engine.count_eq _ _ _)
  · rw [engine.words_eq _ _ _ (by rw [List.length_replicate]), List.drop_replicate]
    congr 2
    omega

/-- The import past its checks. -/
theorem import_copies (hm : env.memory = some memory) (hread : memory.read wcPtr 4 = some wcBytes)
    (hmax : ofLeBytes wcBytes ≤ maxNapiBigintWords) (hptr : wordsPtr ≠ 0) :
    guestNapiGetValueBigintWords engine env e vh signPtr wcPtr wordsPtr =
      copied env signPtr wcPtr wordsPtr (ofLeBytes wcBytes)
        (snapiBridgeGetValueBigintWords engine ((env.napiEnvs e).map env.agents) vh true
          (ofLeBytes wcBytes) (some (List.replicate (ofLeBytes wcBytes) 0))) := by
  unfold guestNapiGetValueBigintWords
  rw [hm, Option.bind_some, hread]
  simp only [if_neg hptr, if_neg (not_lt.mpr hmax)]

/-- The copy is what N-API says exactly when the guest has room for the whole value. -/
theorem bigintCopy_exports_iff (hm : env.memory = some memory)
    (hread : memory.read wcPtr 4 = some wcBytes)
    (hmax : ofLeBytes wcBytes ≤ maxNapiBigintWords) (hptr : wordsPtr ≠ 0)
    (hv : guestValue env e vh = some (.bigint b)) :
    Exports memory b signPtr wcPtr wordsPtr (ofLeBytes wcBytes)
        (guestNapiGetValueBigintWords engine env e vh signPtr wcPtr wordsPtr) ↔
      b.words.length ≤ ofLeBytes wcBytes := by
  rw [import_copies hm hread hmax hptr]
  obtain ⟨hstatus, hsign, hcount, hwords⟩ := bridge_copy engine hv hmax
  generalize snapiBridgeGetValueBigintWords engine ((env.napiEnvs e).map env.agents) vh true
    (ofLeBytes wcBytes) (some (List.replicate (ofLeBytes wcBytes) 0)) = r at hstatus hsign hcount hwords
  generalize ofLeBytes wcBytes = wordCount at hmax hwords
  have hlen : r.words.length = wordCount := by
    rw [hwords, List.length_append, List.length_take, List.length_replicate]
    omega
  unfold copied
  rw [if_pos hstatus, hsign, hcount]
  simp only [Option.getD_some, truncate_words]
  constructor
  · rintro ⟨hreturns, _, _, _⟩
    have hslice := of_decide_eq_false hreturns
    rw [hlen] at hslice
    exact not_lt.mp hslice
  · intro hroom
    have hslice : decide (r.words.length < b.words.length) = false := by
      rw [hlen]
      exact decide_eq_false (not_lt.mpr hroom)
    refine ⟨hslice, hstatus, rfl, ?_⟩
    have hfront : r.words.take b.words.length = b.words.take (min wordCount b.words.length) := by
      rw [hwords, List.take_of_length_le hroom, min_eq_right hroom, List.take_left', List.take_length]
      rfl
    simp only [hslice, Bool.false_eq_true, if_false, hfront, NapiEnv.writeU32, hm, Option.map_some]
    rfl

/-- A guest that holds `-(2 ** 64)` and has room for two words. -/
def roomy : NapiEnv Value :=
  { holder with memory := some { base := 4096, data := 2 :: List.replicate 31 0 } }

theorem bigintCopy_two :
    Exports { base := 4096, data := 2 :: List.replicate 31 0 } twoWords 4 0 8 2
      (guestNapiGetValueBigintWords documented roomy 1 (Agent.valueId 0 0) 4 0 8) := by
  have hread : GuestMemory.read ⟨4096, 2 :: List.replicate 31 0⟩ 0 4 = some [2, 0, 0, 0] := rfl
  have hroom : twoWords.words.length ≤ ofLeBytes [2, 0, 0, 0] := by decide
  exact (bigintCopy_exports_iff rfl hread (by decide) (by decide) rfl).mpr hroom

/-- With room for one word the host slices two. -/
def cramped : NapiEnv Value :=
  { holder with memory := some { base := 4096, data := 1 :: List.replicate 31 0 } }

theorem short_array_panics :
    ¬ Exports { base := 4096, data := 1 :: List.replicate 31 0 } twoWords 4 0 8 1
      (guestNapiGetValueBigintWords documented cramped 1 (Agent.valueId 0 0) 4 0 8) := by
  intro h
  have hreturns := h.returns
  revert hreturns
  decide

end WasmerNapi.Bridge.Bigint
