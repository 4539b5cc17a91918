import WasmerNapi.Lib.Bytes

/-!
# Bytecode payloads of the QuickJS engine

`src/quickjs/src/internal/napi_bytecode.h`, and `bytecode_serialize` and `bytecode_deserialize` of
`napi_contextify.cc`. What `JS_WriteObject` gives is kept behind a header of 40 bytes,

    [magic 'QJSB'][version u8][shape u8][reserved u16]
    [source_hash u64][params_hash u64][filename_hash u64][payload_hash u64]

and `JS_ReadObject`, which is not hardened, sees no bytes whose header does not match.

The hash is `XXH3_64bits`, a parameter here. No hash into 64 bits is free of collisions, so what
rests on that is said of a set of strings on which it is.
-/

namespace WasmerNapi.Quickjs.Bytecode

def magic : List UInt8 := [81, 74, 83, 66]

def version : UInt8 := 2

def headerSize : ℕ := 40

/-- `napi_bytecode_put_u64`. -/
def putU64 (value : UInt64) : List UInt8 :=
  (List.range 8).map fun i => (value >>> UInt64.ofNat (8 * i)).toUInt8

/-- `napi_bytecode_get_u64`. -/
def getU64 (p : List UInt8) : UInt64 :=
  (List.range 8).foldl (fun value i => value ||| (p.getD i 0).toUInt64 <<< UInt64.ofNat (8 * i)) 0

/-- The four bytes in front of a parameter. -/
def putU32 (value : UInt32) : List UInt8 :=
  (List.range 4).map fun i => (value >>> UInt32.ofNat (8 * i)).toUInt8

/-- What `napi_bytecode_params_hash` hashes. -/
def flatten (params : List (List UInt8)) : List UInt8 :=
  params.flatMap fun p => putU32 (UInt32.ofNat p.length) ++ p

/-- `napi_bytecode_identity`. -/
structure Identity where
  shape : Int32
  sourceHash : UInt64
  paramsHash : UInt64
  filenameHash : UInt64
  deriving DecidableEq

def shapeByte (shape : Int32) : UInt8 := UInt8.ofBitVec (shape.toBitVec.setWidth 8)

section

variable (hash : List UInt8 → UInt64)

/-- `napi_bytecode_serialize_payload`. -/
def serializePayload (id : Identity) (payload : List UInt8) : List UInt8 :=
  magic ++ [version, shapeByte id.shape, 0, 0] ++ putU64 id.sourceHash ++ putU64 id.paramsHash ++
    putU64 id.filenameHash ++ putU64 (hash payload) ++ payload

/-- `napi_bytecode_validate_payload`. -/
def validatePayload (bytes : List UInt8) (expect : Identity) : Option (List UInt8) :=
  if bytes.length ≤ headerSize then none
  else if bytes.take 4 ≠ magic then none
  else if bytes.getD 4 0 ≠ version then none
  else if bytes.getD 5 0 ≠ shapeByte expect.shape then none
  else if getU64 (bytes.drop 8) ≠ expect.sourceHash then none
  else if getU64 (bytes.drop 16) ≠ expect.paramsHash then none
  else
    let storedFilename := getU64 (bytes.drop 24)
    if storedFilename ≠ 0 ∧ storedFilename ≠ expect.filenameHash then none
    else
      let storedPayload := getU64 (bytes.drop 32)
      let payload := bytes.drop headerSize
      if storedPayload ≠ hash payload then none else some payload

/-- What a payload is made for. The strings are as `to_utf8` gives them, and a string of the
    engine has at most `2 ^ 30 - 1` units of at most three bytes. -/
structure Request where
  source : List UInt8
  filename : List UInt8
  shape : Int32
  params : List (List UInt8)
  short : ∀ p ∈ params, p.length < 2 ^ 32

/-- `napi_bytecode_record__`. The bytes are empty when `JS_WriteObject` failed. -/
structure Record extends Request where
  bytes : List UInt8

def identity (r : Request) : Identity where
  shape := r.shape
  sourceHash := hash r.source
  paramsHash := hash (flatten r.params)
  filenameHash := hash r.filename

def bytecodeSerialize (r : Record) : List UInt8 :=
  if r.bytes = [] then [] else serializePayload hash (identity hash r.toRequest) r.bytes

/-- How `bytecode_deserialize` comes to `JS_ReadObject`, or does not. -/
inductive Outcome where
  | invalidArg
  | rejected
  | read (bytes : List UInt8)
  deriving DecidableEq

def bytecodeDeserialize (bytes : List UInt8) (r : Request) : Outcome :=
  if bytes.length = 0 then .invalidArg
  else
    match validatePayload hash bytes (identity hash r) with
    | none => .rejected
    | some payload => if payload.length = 0 then .rejected else .read payload

end

/-! ## The parts of a header -/

theorem putU64_eq (value : UInt64) : putU64 value = Bytes.le 8 value.toNat := by
  rw [Bytes.le_eq_map]
  refine List.map_congr_left ?_
  intro i hi
  have hi : i < 8 := List.mem_range.mp hi
  apply UInt8.toNat_inj.mp
  rw [UInt64.toNat_toUInt8, UInt64.toNat_shiftRight, UInt8.toNat_ofNat', UInt64.toNat_ofNat']
  rw [Nat.mod_eq_of_lt (show 8 * i < 2 ^ 64 by omega), Nat.mod_eq_of_lt (show 8 * i < 64 by omega)]

theorem putU32_eq (value : UInt32) : putU32 value = Bytes.le 4 value.toNat := by
  rw [Bytes.le_eq_map]
  refine List.map_congr_left ?_
  intro i hi
  have hi : i < 4 := List.mem_range.mp hi
  apply UInt8.toNat_inj.mp
  rw [UInt32.toNat_toUInt8, UInt32.toNat_shiftRight, UInt8.toNat_ofNat', UInt32.toNat_ofNat']
  rw [Nat.mod_eq_of_lt (show 8 * i < 2 ^ 32 by omega), Nat.mod_eq_of_lt (show 8 * i < 32 by omega)]

@[simp] theorem length_putU64 (value : UInt64) : (putU64 value).length = 8 := by
  rw [putU64_eq, Bytes.length_le]

/-- The loop reads eight digits. -/
theorem getU64_toNat {p : List UInt8} (hp : 8 ≤ p.length) :
    (getU64 p).toNat = Bytes.ofLe (p.take 8) := by
  have hloop : ∀ n ≤ 8, ((List.range n).foldl
      (fun value i => value ||| (p.getD i 0).toUInt64 <<< UInt64.ofNat (8 * i)) (0 : UInt64)).toNat =
        Bytes.ofLe (p.take n) := by
    intro n
    induction n with
    | zero =>
      intro _
      rfl
    | succ n ih =>
      intro hn
      have hlt : n < p.length := by omega
      rw [List.range_succ, List.foldl_append, List.foldl_cons, List.foldl_nil, UInt64.toNat_or,
        ih (by omega), List.take_succ_eq_append_getElem hlt, Bytes.ofLe_shift, UInt64.toNat_shiftLeft,
        UInt64.toNat_ofNat', List.length_take]
      have hb : (p.getD n 0).toNat < 2 ^ 8 := (p.getD n 0).toNat_lt
      have hsmall : (p.getD n 0).toNat <<< (8 * n) < 2 ^ 64 := by
        rw [Nat.shiftLeft_eq]
        calc (p.getD n 0).toNat * 2 ^ (8 * n) < 2 ^ 8 * 2 ^ (8 * n) :=
              Nat.mul_lt_mul_of_pos_right hb (Nat.two_pow_pos _)
          _ = 2 ^ (8 * (n + 1)) := by rw [← pow_add]; congr 1; omega
          _ ≤ 2 ^ 64 := Nat.pow_le_pow_right (by decide) (by omega)
      rw [Nat.mod_eq_of_lt (show 8 * n < 2 ^ 64 by omega), Nat.mod_eq_of_lt (show 8 * n < 64 by omega),
        UInt8.toNat_toUInt64, Nat.mod_eq_of_lt hsmall, min_eq_left (by omega), List.getD_eq_getElem _ _ hlt]
  exact hloop 8 le_rfl

theorem getU64_putU64 (value : UInt64) (rest : List UInt8) : getU64 (putU64 value ++ rest) = value := by
  apply UInt64.toNat_inj.mp
  have hlen : 8 ≤ (putU64 value ++ rest).length := by
    rw [List.length_append, length_putU64]
    omega
  rw [getU64_toNat hlen, List.take_append_of_le_length (by rw [length_putU64]),
    List.take_of_length_le (by rw [length_putU64]), putU64_eq]
  exact Bytes.ofLe_le value.toNat_lt

theorem putU64_getU64 {p : List UInt8} (hp : 8 ≤ p.length) : putU64 (getU64 p) = p.take 8 := by
  have hlen : (p.take 8).length = 8 := by
    rw [List.length_take]
    omega
  rw [putU64_eq, getU64_toNat hp]
  have := Bytes.le_ofLe (p.take 8)
  rwa [hlen] at this

/-! ## Acceptance -/

/-- A header and what stands behind it. -/
def layout (id : Identity) (reserved₀ reserved₁ : UInt8) (payloadHash : UInt64) (payload : List UInt8) :
    List UInt8 :=
  magic ++ [version, shapeByte id.shape, reserved₀, reserved₁] ++ putU64 id.sourceHash ++
    putU64 id.paramsHash ++ putU64 id.filenameHash ++ putU64 payloadHash ++ payload

/-- The two reserved bytes are these. -/
def withReserved (bytes : List UInt8) (reserved₀ reserved₁ : UInt8) : List UInt8 :=
  bytes.take 6 ++ [reserved₀, reserved₁] ++ bytes.drop 8

/-- The stored identity is the expected one, but for a name that is not enforced. -/
structure Identity.Meets (id expect : Identity) : Prop where
  shape : shapeByte id.shape = shapeByte expect.shape
  source : id.sourceHash = expect.sourceHash
  params : id.paramsHash = expect.paramsHash
  filename : id.filenameHash = 0 ∨ id.filenameHash = expect.filenameHash

section

variable {hash : List UInt8 → UInt64} {id expect : Identity} {reserved₀ reserved₁ : UInt8}
  {payloadHash : UInt64} {payload bytes : List UInt8}

theorem drop_putU64 (value : UInt64) (rest : List UInt8) : (putU64 value ++ rest).drop 8 = rest :=
  List.drop_left' (length_putU64 value)

/-- The parts, from the offsets the validator has for them. -/
theorem layout_drop (id : Identity) (reserved₀ reserved₁ : UInt8) (payloadHash : UInt64)
    (payload : List UInt8) :
    (layout id reserved₀ reserved₁ payloadHash payload).drop 8 =
      putU64 id.sourceHash ++ (putU64 id.paramsHash ++ (putU64 id.filenameHash ++
        (putU64 payloadHash ++ payload))) ∧
    (layout id reserved₀ reserved₁ payloadHash payload).drop 16 =
      putU64 id.paramsHash ++ (putU64 id.filenameHash ++ (putU64 payloadHash ++ payload)) ∧
    (layout id reserved₀ reserved₁ payloadHash payload).drop 24 =
      putU64 id.filenameHash ++ (putU64 payloadHash ++ payload) ∧
    (layout id reserved₀ reserved₁ payloadHash payload).drop 32 = putU64 payloadHash ++ payload ∧
    (layout id reserved₀ reserved₁ payloadHash payload).drop 40 = payload := by
  have h8 : (layout id reserved₀ reserved₁ payloadHash payload).drop 8 =
      putU64 id.sourceHash ++ (putU64 id.paramsHash ++ (putU64 id.filenameHash ++
        (putU64 payloadHash ++ payload))) := by
    unfold layout
    rw [List.append_assoc, List.append_assoc, List.append_assoc, List.append_assoc]
    rfl
  have hstep : ∀ n l, (layout id reserved₀ reserved₁ payloadHash payload).drop n = l →
      (layout id reserved₀ reserved₁ payloadHash payload).drop (n + 8) = l.drop 8 := by
    rintro n l rfl
    rw [List.drop_drop]
  have h16 := (hstep 8 _ h8).trans (drop_putU64 _ _)
  have h24 := (hstep 16 _ h16).trans (drop_putU64 _ _)
  have h32 := (hstep 24 _ h24).trans (drop_putU64 _ _)
  have h40 := (hstep 32 _ h32).trans (drop_putU64 _ _)
  exact ⟨h8, h16, h24, h32, h40⟩

theorem length_layout :
    (layout id reserved₀ reserved₁ payloadHash payload).length = headerSize + payload.length := by
  unfold layout magic headerSize
  simp only [List.length_append, List.length_cons, List.length_nil, length_putU64]

/-- A header is accepted when its identity meets the expected one and its hash is that of what
    stands behind it. -/
theorem validate_layout {x : List UInt8} :
    validatePayload hash (layout id reserved₀ reserved₁ payloadHash payload) expect = some x ↔
      payload ≠ [] ∧ id.Meets expect ∧ payloadHash = hash payload ∧ x = payload := by
  obtain ⟨h8, h16, h24, h32, h40⟩ := layout_drop id reserved₀ reserved₁ payloadHash payload
  have hmagic : (layout id reserved₀ reserved₁ payloadHash payload).take 4 = magic := rfl
  have hversion : (layout id reserved₀ reserved₁ payloadHash payload).getD 4 0 = version := rfl
  have hshape : (layout id reserved₀ reserved₁ payloadHash payload).getD 5 0 = shapeByte id.shape := rfl
  have hlength : 40 + payload.length ≤ 40 ↔ payload = [] := by
    rw [← List.length_eq_zero_iff]
    omega
  unfold validatePayload
  rw [length_layout, hmagic, hversion, hshape, h8, h16, h24, h32, show headerSize = 40 from rfl, h40,
    getU64_putU64, getU64_putU64, getU64_putU64, getU64_putU64]
  dsimp only
  constructor
  · intro h
    split_ifs at h with hlen _ _ hs hso hp hf hh
    refine ⟨fun hnil => hlen (hlength.mpr hnil), ⟨?_, ?_, ?_, ?_⟩, ?_, (Option.some.inj h).symm⟩
    · exact not_not.mp hs
    · exact not_not.mp hso
    · exact not_not.mp hp
    · exact (not_and_or.mp hf).imp not_not.mp not_not.mp
    · exact not_not.mp hh
  · rintro ⟨hne, hm, hh, rfl⟩
    rw [if_neg (fun hle => hne (hlength.mp hle)), if_neg (not_not.mpr rfl), if_neg (not_not.mpr rfl),
      if_neg (not_not.mpr hm.shape), if_neg (not_not.mpr hm.source), if_neg (not_not.mpr hm.params),
      if_neg (not_and_or.mpr (hm.filename.imp not_not.mpr not_not.mpr)), if_neg (not_not.mpr hh)]

theorem eight_bytes {bytes : List UInt8} (h : 8 ≤ bytes.length) : ∃ b₀ b₁ b₂ b₃ b₄ b₅ b₆ b₇ rest,
    bytes = b₀ :: b₁ :: b₂ :: b₃ :: b₄ :: b₅ :: b₆ :: b₇ :: rest := by
  rcases bytes with _ | ⟨b₀, _ | ⟨b₁, _ | ⟨b₂, _ | ⟨b₃, _ | ⟨b₄, _ | ⟨b₅, _ | ⟨b₆, _ | ⟨b₇, rest⟩⟩⟩⟩⟩⟩⟩⟩
  case cons.cons.cons.cons.cons.cons.cons.cons => exact ⟨b₀, b₁, b₂, b₃, b₄, b₅, b₆, b₇, rest, rfl⟩
  all_goals
    simp only [List.length_nil, List.length_cons] at h
    omega

theorem eq_putU64_append {l : List UInt8} (h : 8 ≤ l.length) : l = putU64 (getU64 l) ++ l.drop 8 := by
  rw [putU64_getU64 h, List.take_append_drop]

/-- What is accepted has a header. -/
theorem layout_of_validate {x : List UInt8} (h : validatePayload hash bytes expect = some x) :
    ∃ id reserved₀ reserved₁ payloadHash payload,
      bytes = layout id reserved₀ reserved₁ payloadHash payload := by
  unfold validatePayload at h
  split at h
  · cases h
  rename_i hlen
  split at h
  · cases h
  rename_i hmagic
  split at h
  · cases h
  rename_i hversion
  split at h
  · cases h
  rename_i hshape
  unfold headerSize at hlen
  obtain ⟨b₀, b₁, b₂, b₃, b₄, b₅, b₆, b₇, rest, rfl⟩ := eight_bytes (by omega : 8 ≤ bytes.length)
  have hmagic : [b₀, b₁, b₂, b₃] = magic := not_not.mp hmagic
  have hversion : b₄ = version := not_not.mp hversion
  have hshape : b₅ = shapeByte expect.shape := not_not.mp hshape
  have hrest : 32 ≤ rest.length := by
    simp only [List.length_cons] at hlen
    omega
  have h₀ : rest = putU64 (getU64 rest) ++ rest.drop 8 := eq_putU64_append (by omega)
  have h₁ : rest.drop 8 = putU64 (getU64 (rest.drop 8)) ++ rest.drop 16 := by
    rw [← List.drop_drop (i := 8) (j := 8)]
    exact eq_putU64_append (by rw [List.length_drop]; omega)
  have h₂ : rest.drop 16 = putU64 (getU64 (rest.drop 16)) ++ rest.drop 24 := by
    rw [← List.drop_drop (i := 8) (j := 16)]
    exact eq_putU64_append (by rw [List.length_drop]; omega)
  have h₃ : rest.drop 24 = putU64 (getU64 (rest.drop 24)) ++ rest.drop 32 := by
    rw [← List.drop_drop (i := 8) (j := 24)]
    exact eq_putU64_append (by rw [List.length_drop]; omega)
  refine ⟨⟨expect.shape, getU64 rest, getU64 (rest.drop 8), getU64 (rest.drop 16)⟩, b₆, b₇,
    getU64 (rest.drop 24), rest.drop 32, ?_⟩
  calc b₀ :: b₁ :: b₂ :: b₃ :: b₄ :: b₅ :: b₆ :: b₇ :: rest
      = [b₀, b₁, b₂, b₃] ++ [b₄, b₅, b₆, b₇] ++ rest := rfl
    _ = magic ++ [version, shapeByte expect.shape, b₆, b₇] ++ (putU64 (getU64 rest) ++
          (putU64 (getU64 (rest.drop 8)) ++ (putU64 (getU64 (rest.drop 16)) ++
            (putU64 (getU64 (rest.drop 24)) ++ rest.drop 32)))) := by
        rw [hmagic, hversion, hshape, ← h₃, ← h₂, ← h₁, ← h₀]
    _ = layout _ b₆ b₇ _ _ := by
        unfold layout
        simp only [List.append_assoc]

/-- The validator takes exactly what the serializer makes, up to the reserved bytes. -/
theorem validate_iff {payload : List UInt8} :
    validatePayload hash bytes expect = some payload ↔
      payload ≠ [] ∧ ∃ id : Identity, id.Meets expect ∧ ∃ reserved₀ reserved₁,
        bytes = withReserved (serializePayload hash id payload) reserved₀ reserved₁ := by
  constructor
  · intro h
    obtain ⟨id, reserved₀, reserved₁, payloadHash, payload', rfl⟩ := layout_of_validate h
    obtain ⟨hne, hm, rfl, rfl⟩ := validate_layout.mp h
    exact ⟨hne, id, hm, reserved₀, reserved₁, rfl⟩
  · rintro ⟨hne, id, hm, reserved₀, reserved₁, rfl⟩
    exact validate_layout.mpr ⟨hne, hm, rfl, rfl⟩

end

/-! ## Parameters -/

theorem length_putU32 (value : UInt32) : (putU32 value).length = 4 := by
  rw [putU32_eq, Bytes.length_le]

theorem putU32_injective {n m : ℕ} (hn : n < 2 ^ 32) (hm : m < 2 ^ 32)
    (h : putU32 (UInt32.ofNat n) = putU32 (UInt32.ofNat m)) : n = m := by
  have hread : ∀ k < 2 ^ 32, Bytes.ofLe (putU32 (UInt32.ofNat k)) = k := by
    intro k hk
    rw [putU32_eq, UInt32.toNat_ofNat', Nat.mod_eq_of_lt hk]
    exact Bytes.ofLe_le hk
  rw [← hread n hn, ← hread m hm, h]

/-- With the lengths in front, lists of parameters that are short enough are told apart. -/
theorem flatten_injective {ps qs : List (List UInt8)} (hps : ∀ p ∈ ps, p.length < 2 ^ 32)
    (hqs : ∀ q ∈ qs, q.length < 2 ^ 32) (h : flatten ps = flatten qs) : ps = qs := by
  induction ps generalizing qs with
  | nil =>
    cases qs with
    | nil => rfl
    | cons q qs =>
      have hlen := congrArg List.length h
      simp [flatten, length_putU32] at hlen
      omega
  | cons p ps ih =>
    cases qs with
    | nil =>
      have hlen := congrArg List.length h
      simp [flatten, length_putU32] at hlen
    | cons q qs =>
      have h : putU32 (UInt32.ofNat p.length) ++ (p ++ flatten ps) =
          putU32 (UInt32.ofNat q.length) ++ (q ++ flatten qs) := by
        simpa [flatten] using h
      obtain ⟨hhead, hrest⟩ := List.append_inj h (by rw [length_putU32, length_putU32])
      have hlength := putU32_injective (hps p (List.mem_cons_self ..)) (hqs q (List.mem_cons_self ..)) hhead
      obtain ⟨rfl, htail⟩ := List.append_inj hrest hlength
      rw [ih (fun p hp => hps p (List.mem_cons_of_mem _ hp))
        (fun q hq => hqs q (List.mem_cons_of_mem _ hq)) htail]

/-! ## Records -/

section

variable {hash : List UInt8 → UInt64}

theorem meets_self (id : Identity) : id.Meets id := ⟨rfl, rfl, rfl, .inr rfl⟩

theorem deserialize_eq_read {bytes payload : List UInt8} {r : Request} :
    bytecodeDeserialize hash bytes r = .read payload ↔
      validatePayload hash bytes (identity hash r) = some payload := by
  unfold bytecodeDeserialize
  constructor
  · intro h
    split at h
    · cases h
    split at h
    · cases h
    rename_i payload' hval
    split at h
    · cases h
    cases h
    exact hval
  · intro h
    obtain ⟨hne, id, hm, reserved₀, reserved₁, hbytes⟩ := validate_iff.mp h
    have hlen : bytes.length ≠ 0 := by
      rw [hbytes]
      show (layout id reserved₀ reserved₁ (hash payload) payload).length ≠ 0
      rw [length_layout]
      unfold headerSize
      omega
    rw [if_neg hlen, h]
    show (if payload.length = 0 then _ else _) = _
    rw [if_neg fun hz => hne (List.length_eq_zero_iff.mp hz)]

theorem serialize_take {r : Record} (hne : r.bytes ≠ []) (tampered : List UInt8) :
    (bytecodeSerialize hash r).take headerSize ++ tampered =
      layout (identity hash r.toRequest) 0 0 (hash r.bytes) tampered := by
  have hlayout : bytecodeSerialize hash r =
      layout (identity hash r.toRequest) 0 0 (hash r.bytes) [] ++ r.bytes := by
    unfold bytecodeSerialize
    rw [if_neg hne]
    unfold serializePayload layout
    rw [List.append_nil]
  have hlen : (layout (identity hash r.toRequest) 0 0 (hash r.bytes) []).length = headerSize := length_layout
  rw [hlayout, List.take_left' hlen]
  unfold layout
  rw [List.append_nil]

/-- The header of one record in front of `tampered`, read for `q`: without collisions among
    what is hashed, everything has to be as it was. -/
theorem read_of_tampered {r : Record} {q : Request} {tampered x : List UInt8} (hne : r.bytes ≠ [])
    (hinj : Set.InjOn hash
      {r.source, q.source, flatten r.params, flatten q.params, r.bytes, tampered})
    (h : bytecodeDeserialize hash ((bytecodeSerialize hash r).take headerSize ++ tampered) q = .read x) :
    q.source = r.source ∧ q.params = r.params ∧
      (hash r.filename = 0 ∨ hash r.filename = hash q.filename) ∧ tampered = r.bytes := by
  rw [serialize_take hne, deserialize_eq_read] at h
  obtain ⟨_, hm, hpayload, _⟩ := validate_layout.mp h
  refine ⟨?_, ?_, hm.filename, ?_⟩
  · exact (hinj (by simp) (by simp) hm.source).symm
  · have hflat : flatten r.params = flatten q.params := hinj (by simp) (by simp) hm.params
    exact (flatten_injective r.short q.short hflat).symm
  · exact (hinj (by simp) (by simp) hpayload).symm

end

/-- What the header is there for. -/
structure Guarded (hash : List UInt8 → UInt64) : Prop where
  accepted : ∀ bytes expect payload, validatePayload hash bytes expect = some payload ↔
    payload ≠ [] ∧ ∃ id : Identity, id.Meets expect ∧ ∃ reserved₀ reserved₁,
      bytes = withReserved (serializePayload hash id payload) reserved₀ reserved₁
  restored : ∀ r : Record, r.bytes ≠ [] →
    bytecodeDeserialize hash (bytecodeSerialize hash r) r.toRequest = .read r.bytes
  /-- There is nothing to restore, and the reader is not called. -/
  lost : ∀ r : Record, r.bytes = [] →
    bytecodeSerialize hash r = [] ∧
      bytecodeDeserialize hash (bytecodeSerialize hash r) r.toRequest = .invalidArg
  rejected : ∀ (r : Record) (q : Request) (tampered : List UInt8), r.bytes ≠ [] →
    Set.InjOn hash {r.source, q.source, flatten r.params, flatten q.params, r.bytes, tampered} →
    q.source ≠ r.source ∨ q.params ≠ r.params ∨
      hash r.filename ≠ 0 ∧ hash r.filename ≠ hash q.filename ∨ tampered ≠ r.bytes →
    bytecodeDeserialize hash ((bytecodeSerialize hash r).take headerSize ++ tampered) q = .rejected

theorem payloads_guarded (hash : List UInt8 → UInt64) : Guarded hash := by
  refine ⟨fun _ _ _ => validate_iff, ?_, ?_, ?_⟩
  · intro r hne
    rw [deserialize_eq_read, validate_iff]
    refine ⟨hne, identity hash r.toRequest, meets_self _, 0, 0, ?_⟩
    unfold bytecodeSerialize
    rw [if_neg hne]
    rfl
  · intro r hnil
    have hempty : bytecodeSerialize hash r = [] := if_pos hnil
    refine ⟨hempty, ?_⟩
    rw [hempty]
    rfl
  · intro r q tampered hne hinj hdiff
    cases hout : bytecodeDeserialize hash ((bytecodeSerialize hash r).take headerSize ++ tampered) q with
    | rejected => rfl
    | invalidArg =>
      rw [serialize_take hne] at hout
      unfold bytecodeDeserialize at hout
      rw [length_layout] at hout
      split at hout
      · rename_i hzero
        unfold headerSize at hzero
        omega
      · split at hout
        · cases hout
        · split at hout <;> cases hout
    | read x =>
      obtain ⟨hs, hp, hf, ht⟩ := read_of_tampered hne hinj hout
      rcases hdiff with hd | hd | ⟨hz, hd⟩ | hd
      · exact absurd hs hd
      · exact absurd hp hd
      · exact absurd hf (not_or.mpr ⟨hz, hd⟩)
      · exact absurd ht hd

/-- `XXH3_64bits` of the empty string and of `"a"`. -/
def xxh3 (data : List UInt8) : UInt64 :=
  if data = [] then 0x2d06800538d394c2 else 0xe6c632b61e964e1f

/-- A record of the empty source, with `"a"` for its bytes. -/
def recordA : Record where
  source := []
  filename := []
  shape := 0
  params := []
  short := by simp
  bytes := [97]

/-- The bytes come back for this source, and not for the source `"a"`. -/
theorem recordA_guarded :
    bytecodeDeserialize xxh3 (bytecodeSerialize xxh3 recordA) recordA.toRequest = .read [97] ∧
      bytecodeDeserialize xxh3 ((bytecodeSerialize xxh3 recordA).take headerSize ++ [97])
        { recordA.toRequest with source := [97] } = .rejected := by
  refine ⟨(payloads_guarded xxh3).restored recordA (by decide), ?_⟩
  refine (payloads_guarded xxh3).rejected recordA _ [97] (by decide) ?_ (.inl (by decide))
  intro x hx y hy h
  have hvalues : ∀ z ∈ ({[], [97], [], [], [97], [97]} : Set (List UInt8)), z = [] ∨ z = [97] := by
    intro z hz
    simpa using hz
  rcases hvalues x hx with rfl | rfl <;> rcases hvalues y hy with rfl | rfl
  · rfl
  · exact absurd h (by decide)
  · exact absurd h (by decide)
  · rfl

/-- A record whose bytes could not be written. -/
def recordEmpty : Record := { recordA with bytes := [] }

theorem recordEmpty_not_read :
    bytecodeDeserialize xxh3 (bytecodeSerialize xxh3 recordEmpty) recordEmpty.toRequest ≠
      .read recordEmpty.bytes := by
  decide

end WasmerNapi.Quickjs.Bytecode
