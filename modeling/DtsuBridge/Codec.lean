import DtsuBridge.Basic

/-!
# Register codec

`registersToFloat` and `floatToRegisters` read and write a float32 as two registers
under a word and a byte order. `registersToInt` reads the sized integers of the
SmartLogger, whose type maximum marks an invalid channel.

The orders are strings in the source, and everything but `"big"` is the other order.
`floatToRegisters_cases` : a float is encoded exactly when it is finite and at most
`FLOAT32_MAX` in magnitude, since such a float never overflows in the packing.
-/

namespace DtsuBridge

/-- What the ND45 exceeds when a value is out of measuring range. -/
def OVERRANGE : PyFloat := .lit (10 ^ 20)

/-- The largest finite float32. -/
def FLOAT32_MAX : PyFloat := .lit ((2 ^ 24 - 1) * 2 ^ 104 : ℕ)

/-- `SourcePoint.dtype`. -/
inductive Dtype where
  | float32
  | u16
  | i16
  | u32
  | i32
  | u64
  | i64
deriving DecidableEq

def Dtype.name : Dtype → String
  | .float32 => "float32"
  | .u16 => "u16"
  | .i16 => "i16"
  | .u32 => "u32"
  | .i32 => "i32"
  | .u64 => "u64"
  | .i64 => "i64"

/-- `INT_DTYPES` : register count and signedness. -/
def intDtypes : Dtype → Option (ℕ × Bool)
  | .float32 => none
  | .u16 => some (1, false)
  | .i16 => some (1, true)
  | .u32 => some (2, false)
  | .i32 => some (2, true)
  | .u64 => some (4, false)
  | .i64 => some (4, true)

/-- Registers occupied by one point of this dtype. -/
def registerWidth (dtype : Dtype) : ℕ :=
  match intDtypes dtype with
  | none => 2
  | some (count, _) => count

/-- `_word_bytes` -/
def wordBytes (reg : ℕ) (byteOrder : String) : ℕ × ℕ :=
  if byteOrder = "big" then ((reg >>> 8) &&& 0xFF, reg &&& 0xFF)
  else (reg &&& 0xFF, (reg >>> 8) &&& 0xFF)

/-- `_bytes_word` -/
def bytesWord (pair : ℕ × ℕ) (byteOrder : String) : ℕ :=
  if byteOrder = "big" then (pair.1 <<< 8) ||| pair.2 else (pair.2 <<< 8) ||| pair.1

/-- Bytes of a big-endian number. -/
def fromBytes (bytes : List ℕ) : ℕ :=
  bytes.foldl (fun n b => n * 256 + b) 0

/-- `struct.unpack(">f", hi + lo)` -/
def unpackFloat (hi lo : ℕ × ℕ) : PyFloat :=
  .ofBits .binary32 (fromBytes [hi.1, hi.2, lo.1, lo.2])

/-- `struct.pack(">f", value)`, as the high and the low word. -/
def packFloat (value : PyFloat) : Except PyExc ((ℕ × ℕ) × (ℕ × ℕ)) :=
  match value.toBits? .binary32 with
  | some b =>
    .ok ((b / 2 ^ 24 % 256, b / 2 ^ 16 % 256), (b / 2 ^ 8 % 256, b % 256))
  | none => .error (.overflowError "float too large to pack with f format")

def registersToFloat (regs : List ℕ) (wordOrder byteOrder : String) : Except PyExc PyFloat :=
  match regs.map (wordBytes · byteOrder) with
  | w₀ :: w₁ :: _ => .ok (if wordOrder = "big" then unpackFloat w₀ w₁ else unpackFloat w₁ w₀)
  | _ => .error (.indexError "list index out of range")

/-- What `float_to_registers` accepts. -/
def fitsFloat32 (value : PyFloat) : Bool :=
  value.isFinite && !(FLOAT32_MAX.lt value.abs)

def floatToRegisters (value : PyFloat) (wordOrder byteOrder : String) :
    Except PyExc (List ℕ) :=
  if fitsFloat32 value then do
    let (hi, lo) ← packFloat value
    let words := if wordOrder = "big" then [hi, lo] else [lo, hi]
    return words.map (bytesWord · byteOrder)
  else .error (.valueError s!"value is not representable as finite float32: {floatRepr value}")

section Float

variable [FloatArith]

/-- `raw * scale * sign + offset` -/
def toSi (raw scale : PyFloat) (sign : ℤ) (offset : PyFloat) : Except PyExc PyFloat := do
  let s ← floatOfInt sign
  return ((raw.mul scale).mul s).add offset

def decodePoint (regs : List ℕ) (scale : PyFloat) (sign : ℤ) (offset : PyFloat)
    (wordOrder byteOrder : String) : Except PyExc PyFloat := do
  let raw ← registersToFloat regs wordOrder byteOrder
  toSi raw scale sign offset

/-- `si * sign * scale + offset` -/
def toRegisterFloat (si scale : PyFloat) (sign : ℤ) (offset : PyFloat) :
    Except PyExc PyFloat := do
  let s ← floatOfInt sign
  return ((si.mul s).mul scale).add offset

def encodePoint (si scale : PyFloat) (sign : ℤ) (offset : PyFloat)
    (wordOrder byteOrder : String) (zeroLowWord : Bool) : Except PyExc (List ℕ) := do
  let registerFloat ← toRegisterFloat si scale sign offset
  let registers ← floatToRegisters registerFloat wordOrder byteOrder
  let lowIndex := if wordOrder = "big" then 1 else 0
  return if zeroLowWord then registers.set lowIndex 0 else registers

/-- `sum(v * f for v, f in zip(values, factors))` -/
def compose (values factors : List PyFloat) : PyFloat :=
  .sum (List.zipWith PyFloat.mul values factors)

def registersToInt (regs : List ℕ) (dtype : Dtype) (wordOrder byteOrder : String) :
    Except PyExc ℤ :=
  match intDtypes dtype with
  | none => .error (.valueError s!"{strRepr dtype.name} is not an integer dtype")
  | some (count, signed) =>
    if regs.length < count then
      .error (.valueError s!"dtype {dtype.name} needs {count} register(s), got {regs.length}")
    else
      let words := if wordOrder = "big" then regs.take count else (regs.take count).reverse
      let bytes := words.flatMap fun w => [(wordBytes w byteOrder).1, (wordBytes w byteOrder).2]
      let raw : ℤ := fromBytes bytes
      .ok (if signed ∧ 2 ^ (16 * count - 1) ≤ raw then raw - 2 ^ (16 * count) else raw)

/-- The marker of an unavailable channel : the type maximum. -/
def intSentinel (dtype : Dtype) : Option ℤ :=
  (intDtypes dtype).map fun (count, signed) =>
    if signed then 2 ^ (count * 16 - 1) - 1 else 2 ^ (count * 16) - 1

def intIsInvalid (raw : ℤ) (dtype : Dtype) : Bool :=
  intSentinel dtype = some raw

def decodeIntPoint (regs : List ℕ) (dtype : Dtype) (scale : PyFloat) (sign : ℤ)
    (offset : PyFloat) (wordOrder byteOrder : String) : Except PyExc PyFloat := do
  let raw ← registersToInt regs dtype wordOrder byteOrder
  if intIsInvalid raw dtype then return .nan
  else
    let x ← floatOfInt raw
    toSi x scale sign offset

end Float

/-! ## What the encoder accepts -/

theorem fitsFloat32_fin {neg : Bool} {m : ℚ≥0} :
    fitsFloat32 (.fin neg m) = true ↔ m ≤ ((2 ^ 24 - 1) * 2 ^ 104 : ℕ) := by
  rw [fitsFloat32, FLOAT32_MAX, PyFloat.lit, PyFloat.abs, PyFloat.lt_fin, PyFloat.isFinite_fin,
    Bool.true_and, Bool.not_eq_true', decide_eq_false_iff_not, not_lt]
  exact NNRat.coe_le_coe

theorem isFinite_of_fitsFloat32 {v : PyFloat} (h : fitsFloat32 v = true) : v.isFinite = true := by
  simp only [fitsFloat32, Bool.and_eq_true] at h
  exact h.1

/-- An accepted float has a float32 pattern. -/
theorem toBits?_isSome_of_fits {v : PyFloat} (h : fitsFloat32 v = true) :
    (v.toBits? .binary32).isSome := by
  obtain ⟨neg, m, rfl⟩ := PyFloat.isFinite_iff.1 (isFinite_of_fitsFloat32 h)
  have hmax : BinFormat.binary32.value (BinFormat.binary32.infOrdinal - 1) =
      ((2 ^ 24 - 1) * 2 ^ 104 : ℕ) := by decide +kernel
  exact PyFloat.toBits?_isSome_of_le (by decide) (hmax ▸ fitsFloat32_fin.1 h)

/-- The two registers of a float32 pattern under the orders. -/
def registersOfBits (b : ℕ) (wordOrder byteOrder : String) : List ℕ :=
  let hi := bytesWord (b / 2 ^ 24 % 256, b / 2 ^ 16 % 256) byteOrder
  let lo := bytesWord (b / 2 ^ 8 % 256, b % 256) byteOrder
  if wordOrder = "big" then [hi, lo] else [lo, hi]

theorem length_registersOfBits (b : ℕ) (wordOrder byteOrder : String) :
    (registersOfBits b wordOrder byteOrder).length = 2 := by
  unfold registersOfBits
  split_ifs <;> rfl

theorem floatToRegisters_eq {v : PyFloat} {b : ℕ} (h : fitsFloat32 v = true)
    (hb : v.toBits? .binary32 = some b) (wordOrder byteOrder : String) :
    floatToRegisters v wordOrder byteOrder = .ok (registersOfBits b wordOrder byteOrder) := by
  unfold floatToRegisters packFloat registersOfBits
  rw [if_pos h, hb]
  split_ifs <;> rfl

theorem floatToRegisters_of_not_fits {v : PyFloat} (h : fitsFloat32 v = false)
    (wordOrder byteOrder : String) : floatToRegisters v wordOrder byteOrder =
      .error (.valueError s!"value is not representable as finite float32: {floatRepr v}") := by
  rw [floatToRegisters, if_neg (by simp [h])]

/-- The encoder succeeds exactly on what it accepts, with two registers. -/
theorem floatToRegisters_cases (v : PyFloat) (wordOrder byteOrder : String) :
    (fitsFloat32 v = true ∧
        ∃ regs, floatToRegisters v wordOrder byteOrder = .ok regs ∧ regs.length = 2) ∨
      (fitsFloat32 v = false ∧
        ∃ e, floatToRegisters v wordOrder byteOrder = .error e) := by
  cases h : fitsFloat32 v with
  | true =>
    obtain ⟨b, hb⟩ := Option.isSome_iff_exists.1 (toBits?_isSome_of_fits h)
    exact Or.inl ⟨rfl, _, floatToRegisters_eq h hb _ _, length_registersOfBits _ _ _⟩
  | false => exact Or.inr ⟨rfl, _, floatToRegisters_of_not_fits h _ _⟩

/-! ## Readings that succeed -/

theorem registersToFloat_isOk {regs : List ℕ} (h : 2 ≤ regs.length) (wordOrder byteOrder : String) :
    ∃ v, registersToFloat regs wordOrder byteOrder = .ok v := by
  obtain ⟨r₀, r₁, regs, rfl⟩ : ∃ r₀ r₁ rest, regs = r₀ :: r₁ :: rest := by
    match regs, h with
    | r₀ :: r₁ :: rest, _ => exact ⟨r₀, r₁, rest, rfl⟩
  exact ⟨_, rfl⟩

theorem wordBytes_lt (reg : ℕ) (byteOrder : String) :
    (wordBytes reg byteOrder).1 < 256 ∧ (wordBytes reg byteOrder).2 < 256 := by
  have h : ∀ n : ℕ, n &&& 0xFF < 2 ^ 8 := fun n => Nat.and_lt_two_pow n (by decide)
  unfold wordBytes
  split_ifs <;> exact ⟨h _, h _⟩

theorem fromBytes_lt {bytes : List ℕ} (h : ∀ b ∈ bytes, b < 256) :
    fromBytes bytes < 256 ^ bytes.length := by
  induction bytes using List.reverseRecOn with
  | nil => simp [fromBytes]
  | append_singleton bytes b ih =>
    have hb := h b (by simp)
    have ih := ih fun c hc => h c (by simp [hc])
    have hstep : fromBytes (bytes ++ [b]) = fromBytes bytes * 256 + b := by
      simp [fromBytes]
    rw [hstep, List.length_append, List.length_singleton, pow_succ]
    omega

theorem intDtypes_count {dtype : Dtype} (h : dtype ≠ .float32) :
    ∃ count signed, intDtypes dtype = some (count, signed) ∧ registerWidth dtype = count ∧
      1 ≤ count ∧ count ≤ 4 := by
  cases dtype <;> simp_all [intDtypes, registerWidth]

/-- Enough registers make an integer, of at most 64 bits. -/
theorem registersToInt_isOk {regs : List ℕ} {dtype : Dtype} (hd : dtype ≠ .float32)
    (h : registerWidth dtype ≤ regs.length) (wordOrder byteOrder : String) :
    ∃ i, registersToInt regs dtype wordOrder byteOrder = .ok i ∧ i.natAbs ≤ 2 ^ 64 := by
  obtain ⟨count, signed, hi, hw, hpos, hle⟩ := intDtypes_count hd
  rw [hw] at h
  unfold registersToInt
  simp only [hi]
  rw [if_neg (by omega)]
  set words := if wordOrder = "big" then regs.take count else (regs.take count).reverse
  set bytes := words.flatMap fun w => [(wordBytes w byteOrder).1, (wordBytes w byteOrder).2]
  have hwords : words.length = count := by
    simp only [words]
    split_ifs <;> simp [h]
  have hlen : bytes.length = 2 * count := by
    simp [bytes, hwords, mul_comm]
  have hbytes : ∀ b ∈ bytes, b < 256 := by
    intro b hb
    obtain ⟨w, -, hb⟩ := List.mem_flatMap.1 hb
    obtain ⟨h1, h2⟩ := wordBytes_lt w byteOrder
    simp only [List.mem_cons, List.not_mem_nil, or_false] at hb
    rcases hb with rfl | rfl
    · exact h1
    · exact h2
  have hlt := fromBytes_lt hbytes
  have hpow : 256 ^ bytes.length = 2 ^ (16 * count) := by
    rw [hlen, show (256 : ℕ) = 2 ^ 8 by norm_num, ← pow_mul]
    congr 1
    omega
  have hmax : 2 ^ (16 * count) ≤ 2 ^ 64 := Nat.pow_le_pow_right (by norm_num) (by omega)
  have hcast : ((2 ^ (16 * count) : ℕ) : ℤ) = 2 ^ (16 * count) := by push_cast; rfl
  refine ⟨_, rfl, ?_⟩
  split_ifs <;> omega

section Float

variable [FloatArith]

theorem toSi_eq_ok {raw scale offset v : PyFloat} {sign : ℤ} :
    toSi raw scale sign offset = .ok v ↔
      ∃ s, PyFloat.ofInt? sign = some s ∧ v = ((raw.mul scale).mul s).add offset := by
  unfold toSi floatOfInt
  cases PyFloat.ofInt? sign with
  | none => simp
  | some s => simpa [Except.bind, bind, pure, Except.pure] using eq_comm

theorem toSi_isOk_iff {raw scale offset : PyFloat} {sign : ℤ} :
    (∃ v, toSi raw scale sign offset = .ok v) ↔ (PyFloat.ofInt? sign).isSome = true := by
  simp only [toSi_eq_ok, Option.isSome_iff_exists]
  exact ⟨fun ⟨_, s, hs, _⟩ => ⟨s, hs⟩, fun ⟨s, hs⟩ => ⟨_, s, hs, rfl⟩⟩

end Float

end DtsuBridge
