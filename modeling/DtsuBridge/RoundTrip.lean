import DtsuBridge.EncodeOrder

/-!
# Registers and values

A sized integer is read from words laid out by the word order, of bytes laid out by the byte
order. `registersOfInt` writes a value the other way : its bytes big-endian, in pairs, the
pairs reversed and the bytes swapped where an order is not the big one.

`int_roundTrip` : under every order the tuples of a dtype are its values, and the marker of an
unavailable channel is one tuple. Every other tuple is converted, to a number unless the
conversion itself makes none of one.
`float_roundTrip` : two registers of a finite float32 are read and written back as they were,
and a value that is accepted is read back rounded to single precision. What is refused is not
finite or past `FLOAT32_MAX`, and nothing else fails.
-/

namespace DtsuBridge

/-! ## Bytes of a number -/

/-- The bytes of a number, big-endian. -/
def toBytes : ℕ → ℕ → List ℕ
  | 0, _ => []
  | n + 1, v => toBytes n (v / 256) ++ [v % 256]

@[simp] theorem length_toBytes (n v : ℕ) : (toBytes n v).length = n := by
  induction n generalizing v with
  | zero => rfl
  | succ n ih => rw [toBytes, List.length_append, ih, List.length_singleton]

theorem toBytes_lt {n v : ℕ} : ∀ b ∈ toBytes n v, b < 256 := by
  induction n generalizing v with
  | zero => simp [toBytes]
  | succ n ih =>
    intro b hb
    rw [toBytes, List.mem_append, List.mem_singleton] at hb
    rcases hb with hb | rfl
    · exact ih b hb
    · exact Nat.mod_lt v (by norm_num)

theorem fromBytes_concat (bytes : List ℕ) (b : ℕ) :
    fromBytes (bytes ++ [b]) = fromBytes bytes * 256 + b := by
  simp [fromBytes]

theorem fromBytes_toBytes (n v : ℕ) : fromBytes (toBytes n v) = v % 256 ^ n := by
  induction n generalizing v with
  | zero => rw [pow_zero, Nat.mod_one, toBytes, fromBytes, List.foldl_nil]
  | succ n ih => rw [toBytes, fromBytes_concat, ih, pow_succ', Nat.mod_mul]; omega

theorem toBytes_fromBytes {bytes : List ℕ} (h : ∀ b ∈ bytes, b < 256) :
    toBytes bytes.length (fromBytes bytes) = bytes := by
  induction bytes using List.reverseRecOn with
  | nil => rfl
  | append_singleton bytes b ih =>
    have hb := h b (by simp)
    have ih := ih fun c hc => h c (by simp [hc])
    have hdiv : (fromBytes bytes * 256 + b) / 256 = fromBytes bytes := by omega
    have hmod : (fromBytes bytes * 256 + b) % 256 = b := by omega
    rw [fromBytes_concat, List.length_append, List.length_singleton, toBytes, hdiv, hmod, ih]

/-! ## Pairs of bytes -/

/-- Bytes in pairs. -/
def bytePairs : List ℕ → List (ℕ × ℕ)
  | hi :: lo :: bytes => (hi, lo) :: bytePairs bytes
  | _ => []

/-- The bytes of pairs. -/
def pairBytes (pairs : List (ℕ × ℕ)) : List ℕ :=
  pairs.flatMap fun p => [p.1, p.2]

@[simp] theorem length_pairBytes (pairs : List (ℕ × ℕ)) :
    (pairBytes pairs).length = 2 * pairs.length := by
  simp [pairBytes, mul_comm]

theorem bytePairs_pairBytes : ∀ pairs, bytePairs (pairBytes pairs) = pairs
  | [] => rfl
  | p :: pairs => congrArg (p :: ·) (bytePairs_pairBytes pairs)

theorem pairBytes_bytePairs : ∀ {n : ℕ} {bytes : List ℕ}, bytes.length = 2 * n →
    pairBytes (bytePairs bytes) = bytes
  | _, [], _ => rfl
  | 0, [_], h => by simp at h
  | n + 1, [_], h => by simp at h; omega
  | 0, _ :: _ :: _, h => by simp at h
  | n + 1, hi :: lo :: bytes, h => by
    have hrest : bytes.length = 2 * n := by
      simp only [List.length_cons] at h
      omega
    exact congrArg (hi :: lo :: ·) (pairBytes_bytePairs hrest)

theorem mem_pairBytes {pairs : List (ℕ × ℕ)} {b : ℕ} :
    b ∈ pairBytes pairs ↔ ∃ p ∈ pairs, b = p.1 ∨ b = p.2 := by
  simp [pairBytes]

theorem mem_bytePairs_toBytes {n v : ℕ} {p : ℕ × ℕ} (hp : p ∈ bytePairs (toBytes (2 * n) v)) :
    p.1 < 256 ∧ p.2 < 256 := by
  have hmem : ∀ b, b = p.1 ∨ b = p.2 → b ∈ toBytes (2 * n) v := by
    intro b hb
    rw [← pairBytes_bytePairs (length_toBytes (2 * n) v)]
    exact mem_pairBytes.2 ⟨p, hp, hb⟩
  exact ⟨toBytes_lt p.1 (hmem p.1 (.inl rfl)), toBytes_lt p.2 (hmem p.2 (.inr rfl))⟩

theorem bytesWord_wordBytes {reg : ℕ} (h : reg < 2 ^ 16) (byteOrder : String) :
    bytesWord (wordBytes reg byteOrder) byteOrder = reg := by
  have hmask : ∀ n : ℕ, n &&& 0xFF = n % 256 := fun n => Nat.and_two_pow_sub_one_eq_mod n 8
  have hword : (reg / 256 % 256) <<< 8 ||| reg % 256 = reg := by
    rw [← Nat.shiftLeft_add_eq_or_of_lt (Nat.mod_lt reg (by norm_num)), Nat.shiftLeft_eq]
    omega
  unfold bytesWord wordBytes
  split_ifs <;> simp only [hmask, Nat.shiftRight_eq_div_pow] <;> exact hword

theorem bytesWord_lt {pair : ℕ × ℕ} (h1 : pair.1 < 256) (h2 : pair.2 < 256) (byteOrder : String) :
    bytesWord pair byteOrder < 2 ^ 16 := by
  have hword : ∀ {hi lo : ℕ}, hi < 256 → lo < 256 → (hi <<< 8) ||| lo < 2 ^ 16 := by
    intro hi lo hhi hlo
    rw [← Nat.shiftLeft_add_eq_or_of_lt hlo, Nat.shiftLeft_eq]
    omega
  unfold bytesWord
  split_ifs
  · exact hword h1 h2
  · exact hword h2 h1

/-! ## Integers -/

/-- As many registers as an integer takes, each of sixteen bits. -/
def RegisterTuple (count : ℕ) : Type :=
  {regs : List ℕ // regs.length = count ∧ ∀ r ∈ regs, r < 2 ^ 16}

/-- The values of so many registers, in two's complement where they are signed. -/
def SizedInt (count : ℕ) (signed : Bool) : Type :=
  {v : ℤ // if signed then -2 ^ (16 * count - 1) ≤ v ∧ v < 2 ^ (16 * count - 1)
    else 0 ≤ v ∧ v < 2 ^ (16 * count)}

/-- The order of the words, its own inverse. -/
def orderWords {α : Type} (wordOrder : String) (words : List α) : List α :=
  if wordOrder = "big" then words else words.reverse

/-- A value written big-endian and split in words, which are reversed for a word order that is
not big, and their bytes swapped for such a byte order. -/
def registersOfInt (count : ℕ) (v : ℤ) (wordOrder byteOrder : String) : List ℕ :=
  let words := bytePairs (toBytes (2 * count) (v % 2 ^ (16 * count)).toNat)
  (orderWords wordOrder words).map (bytesWord · byteOrder)

/-- The unsigned number in the registers of a tuple. -/
def rawOfRegisters (regs : List ℕ) (wordOrder byteOrder : String) : ℕ :=
  fromBytes (pairBytes (orderWords wordOrder (regs.map (wordBytes · byteOrder))))

/-- The value of a raw number. -/
def intOfRaw (count : ℕ) (signed : Bool) (raw : ℤ) : ℤ :=
  if signed ∧ 2 ^ (16 * count - 1) ≤ raw then raw - 2 ^ (16 * count) else raw

theorem orderWords_orderWords {α : Type} (wordOrder : String) (words : List α) :
    orderWords wordOrder (orderWords wordOrder words) = words := by
  unfold orderWords
  split_ifs
  · rfl
  · exact List.reverse_reverse words

@[simp] theorem length_orderWords {α : Type} (wordOrder : String) (words : List α) :
    (orderWords wordOrder words).length = words.length := by
  unfold orderWords
  split_ifs <;> simp

theorem mem_orderWords {α : Type} {wordOrder : String} {words : List α} {w : α} :
    w ∈ orderWords wordOrder words ↔ w ∈ words := by
  unfold orderWords
  split_ifs <;> simp

theorem orderWords_map {α β : Type} (f : α → β) (wordOrder : String) (words : List α) :
    orderWords wordOrder (words.map f) = (orderWords wordOrder words).map f := by
  unfold orderWords
  split_ifs <;> simp

theorem two_pow_bits (count : ℕ) : 2 ^ (16 * count) = 256 ^ (2 * count) := by
  rw [show (256 : ℕ) = 2 ^ 8 by norm_num, ← pow_mul]
  congr 1
  omega

/-- What is read is the value of the raw number of the first registers. -/
theorem registersToInt_eq {dtype : Dtype} {count : ℕ} {signed : Bool}
    (hd : intDtypes dtype = some (count, signed)) {regs : List ℕ} (h : count ≤ regs.length)
    (wordOrder byteOrder : String) : registersToInt regs dtype wordOrder byteOrder =
      .ok (intOfRaw count signed (rawOfRegisters (regs.take count) wordOrder byteOrder)) := by
  have hbytes : ∀ words : List ℕ,
      (words.flatMap fun w => [(wordBytes w byteOrder).1, (wordBytes w byteOrder).2]) =
        pairBytes (words.map (wordBytes · byteOrder)) := by
    intro words
    rw [pairBytes, List.flatMap_map]
  unfold registersToInt
  simp only [hd]
  rw [if_neg (by omega), hbytes, rawOfRegisters, orderWords_map]
  rfl

/-- The bytes that a tuple is read as. -/
theorem orderedBytes_lt (regs : List ℕ) (wordOrder byteOrder : String) :
    ∀ b ∈ pairBytes (orderWords wordOrder (regs.map (wordBytes · byteOrder))), b < 256 := by
  intro b hb
  obtain ⟨p, hp, hb⟩ := mem_pairBytes.1 hb
  obtain ⟨reg, -, rfl⟩ := List.mem_map.1 (mem_orderWords.1 hp)
  obtain ⟨h1, h2⟩ := wordBytes_lt reg byteOrder
  rcases hb with rfl | rfl
  · exact h1
  · exact h2

theorem rawOfRegisters_lt (regs : List ℕ) (wordOrder byteOrder : String) :
    rawOfRegisters regs wordOrder byteOrder < 2 ^ (16 * regs.length) := by
  have hlt := fromBytes_lt (orderedBytes_lt regs wordOrder byteOrder)
  rwa [length_pairBytes, length_orderWords, List.length_map, ← two_pow_bits] at hlt

/-- The words of a raw number are those it was read from. -/
theorem registersOfInt_raw {count : ℕ} (t : RegisterTuple count) (wordOrder byteOrder : String) :
    registersOfInt count (rawOfRegisters t.1 wordOrder byteOrder) wordOrder byteOrder = t.1 := by
  obtain ⟨regs, rfl, hregs⟩ := t
  have hlt := rawOfRegisters_lt regs wordOrder byteOrder
  have hmod : ((rawOfRegisters regs wordOrder byteOrder : ℤ) % 2 ^ (16 * regs.length)).toNat =
      rawOfRegisters regs wordOrder byteOrder := by
    rw [Int.emod_eq_of_lt (by positivity) (by exact_mod_cast hlt), Int.toNat_natCast]
  have hlen : (pairBytes (orderWords wordOrder (regs.map (wordBytes · byteOrder)))).length =
      2 * regs.length := by simp
  have hbytes : toBytes (2 * regs.length) (rawOfRegisters regs wordOrder byteOrder) =
      pairBytes (orderWords wordOrder (regs.map (wordBytes · byteOrder))) := by
    rw [rawOfRegisters, ← hlen]
    exact toBytes_fromBytes (orderedBytes_lt regs wordOrder byteOrder)
  have hwords : ∀ reg ∈ regs, bytesWord (wordBytes reg byteOrder) byteOrder = id reg :=
    fun reg hreg => bytesWord_wordBytes (hregs reg hreg) byteOrder
  simp only [registersOfInt]
  rw [hmod, hbytes, bytePairs_pairBytes, orderWords_orderWords, List.map_map]
  exact (List.map_congr_left hwords).trans (List.map_id regs)

/-- The raw number of the words of a value. -/
theorem rawOfRegisters_registersOfInt (count : ℕ) (v : ℤ) (wordOrder byteOrder : String) :
    (rawOfRegisters (registersOfInt count v wordOrder byteOrder) wordOrder byteOrder : ℤ) =
      v % 2 ^ (16 * count) := by
  set bytes := toBytes (2 * count) (v % 2 ^ (16 * count)).toNat
  have hwords : ∀ p ∈ orderWords wordOrder (bytePairs bytes),
      wordBytes (bytesWord p byteOrder) byteOrder = id p := by
    intro p hp
    obtain ⟨h1, h2⟩ := mem_bytePairs_toBytes (mem_orderWords.1 hp)
    exact wordBytes_bytesWord h1 h2 byteOrder
  have hnonneg : 0 ≤ v % 2 ^ (16 * count) := Int.emod_nonneg v (by positivity)
  have hlt : v % 2 ^ (16 * count) < 2 ^ (16 * count) := Int.emod_lt_of_pos v (by positivity)
  have hsmall : (v % 2 ^ (16 * count)).toNat < 256 ^ (2 * count) := by
    rw [← two_pow_bits]
    zify
    rwa [Int.toNat_of_nonneg hnonneg]
  have hraw : rawOfRegisters (registersOfInt count v wordOrder byteOrder) wordOrder byteOrder =
      (v % 2 ^ (16 * count)).toNat := by
    simp only [rawOfRegisters, registersOfInt]
    rw [List.map_map]
    rw [(List.map_congr_left hwords : (orderWords wordOrder (bytePairs bytes)).map
      ((wordBytes · byteOrder) ∘ (bytesWord · byteOrder)) = _), List.map_id,
      orderWords_orderWords, pairBytes_bytePairs (length_toBytes (2 * count) _),
      fromBytes_toBytes, Nat.mod_eq_of_lt hsmall]
  rw [hraw, Int.toNat_of_nonneg hnonneg]

theorem registersOfInt_congr {count : ℕ} {v w : ℤ} (h : v % 2 ^ (16 * count) = w % 2 ^ (16 * count))
    (wordOrder byteOrder : String) : registersOfInt count v wordOrder byteOrder =
      registersOfInt count w wordOrder byteOrder := by
  rw [registersOfInt, registersOfInt, h]

theorem registersOfInt_mem (count : ℕ) (v : ℤ) (wordOrder byteOrder : String) :
    (registersOfInt count v wordOrder byteOrder).length = count ∧
      ∀ r ∈ registersOfInt count v wordOrder byteOrder, r < 2 ^ 16 := by
  have hpairs := pairBytes_bytePairs (length_toBytes (2 * count) (v % 2 ^ (16 * count)).toNat)
  refine ⟨?_, fun r hr => ?_⟩
  · have hlen := congrArg List.length hpairs
    rw [length_pairBytes, length_toBytes] at hlen
    simp only [registersOfInt, List.length_map, length_orderWords]
    omega
  · obtain ⟨p, hp, rfl⟩ := List.mem_map.1 hr
    obtain ⟨h1, h2⟩ := mem_bytePairs_toBytes (mem_orderWords.1 hp)
    exact bytesWord_lt h1 h2 byteOrder

/-- Half of the raw numbers are of negative values. -/
theorem two_pow_half {count : ℕ} (h : 1 ≤ count) :
    (2 : ℤ) ^ (16 * count) = 2 * 2 ^ (16 * count - 1) := by
  rw [← pow_succ']
  congr 1
  omega

theorem intOfRaw_mem {count : ℕ} (hcount : 1 ≤ count) (signed : Bool) {raw : ℤ} (h0 : 0 ≤ raw)
    (hlt : raw < 2 ^ (16 * count)) :
    if signed then -2 ^ (16 * count - 1) ≤ intOfRaw count signed raw ∧
        intOfRaw count signed raw < 2 ^ (16 * count - 1)
      else 0 ≤ intOfRaw count signed raw ∧ intOfRaw count signed raw < 2 ^ (16 * count) := by
  have hhalf := two_pow_half hcount
  unfold intOfRaw
  cases signed with
  | false => simp [h0, hlt]
  | true =>
    rw [if_pos rfl]
    split_ifs with h
    · obtain ⟨-, h⟩ := h
      constructor <;> linarith
    · have h : ¬2 ^ (16 * count - 1) ≤ raw := fun hc => h ⟨rfl, hc⟩
      constructor <;> linarith [show (0 : ℤ) < 2 ^ (16 * count - 1) by positivity]

theorem intOfRaw_emod {count : ℕ} (hcount : 1 ≤ count) {signed : Bool} (v : SizedInt count signed) :
    intOfRaw count signed (v.1 % 2 ^ (16 * count)) = v.1 := by
  obtain ⟨v, hv⟩ := v
  have hhalf := two_pow_half hcount
  have hpos : (0 : ℤ) < 2 ^ (16 * count - 1) := by positivity
  unfold intOfRaw
  cases signed with
  | false =>
    rw [if_neg Bool.false_ne_true] at hv
    rw [if_neg (by simp), Int.emod_eq_of_lt hv.1 hv.2]
  | true =>
    rw [if_pos rfl] at hv
    by_cases h0 : 0 ≤ v
    · rw [Int.emod_eq_of_lt h0 (by linarith), if_neg (by rintro ⟨-, hc⟩; linarith)]
    · have hmod : v % 2 ^ (16 * count) = v + 2 ^ (16 * count) := by
        rw [← Int.add_emod_right, Int.emod_eq_of_lt (by linarith) (by linarith)]
      rw [hmod, if_pos ⟨rfl, by linarith⟩]
      ring

theorem emod_intOfRaw {count : ℕ} (signed : Bool) {raw : ℤ} (h0 : 0 ≤ raw)
    (hlt : raw < 2 ^ (16 * count)) : intOfRaw count signed raw % 2 ^ (16 * count) = raw := by
  unfold intOfRaw
  split_ifs
  · rw [Int.sub_emod_right, Int.emod_eq_of_lt h0 hlt]
  · exact Int.emod_eq_of_lt h0 hlt

/-- The tuples of an integer dtype are its values. -/
theorem exists_tupleEquiv {dtype : Dtype} {count : ℕ} {signed : Bool}
    (hd : intDtypes dtype = some (count, signed)) (wordOrder byteOrder : String) :
    ∃ e : RegisterTuple count ≃ SizedInt count signed,
      (∀ t, registersToInt t.1 dtype wordOrder byteOrder = .ok (e t).1) ∧
        ∀ v, (e.symm v).1 = registersOfInt count v.1 wordOrder byteOrder := by
  have hpos : 1 ≤ count := by
    cases dtype <;> simp [intDtypes] at hd <;> omega
  have hraw : ∀ t : RegisterTuple count,
      (rawOfRegisters t.1 wordOrder byteOrder : ℤ) < 2 ^ (16 * count) := by
    rintro ⟨regs, rfl, -⟩
    exact_mod_cast rawOfRegisters_lt regs wordOrder byteOrder
  refine ⟨⟨fun t => ⟨intOfRaw count signed (rawOfRegisters t.1 wordOrder byteOrder),
      intOfRaw_mem hpos signed (Int.natCast_nonneg _) (hraw t)⟩,
    fun v => ⟨registersOfInt count v.1 wordOrder byteOrder, registersOfInt_mem _ _ _ _⟩,
    fun t => Subtype.ext ?_, fun v => Subtype.ext ?_⟩, fun t => ?_, fun v => rfl⟩
  · refine (registersOfInt_congr ?_ _ _).trans (registersOfInt_raw t wordOrder byteOrder)
    have hnonneg := Int.natCast_nonneg (rawOfRegisters t.1 wordOrder byteOrder)
    exact (emod_intOfRaw signed hnonneg (hraw t)).trans
      (Int.emod_eq_of_lt hnonneg (hraw t)).symm
  · exact (congrArg _ (rawOfRegisters_registersOfInt count v.1 wordOrder byteOrder)).trans
      (intOfRaw_emod hpos v)
  · have htake : t.1.take count = t.1 := List.take_of_length_le t.2.1.le
    exact (registersToInt_eq hd t.2.1.ge wordOrder byteOrder).trans (by rw [htake]; rfl)

/-- The marker is the largest of the values. -/
theorem intSentinel_eq {dtype : Dtype} {count : ℕ} {signed : Bool}
    (hd : intDtypes dtype = some (count, signed)) : ∃ marker : SizedInt count signed,
      intSentinel dtype = some marker.1 ∧ ∀ v : SizedInt count signed, v.1 ≤ marker.1 := by
  have hbits : count * 16 = 16 * count := mul_comm _ _
  cases signed with
  | false =>
    have hpos : (0 : ℤ) < 2 ^ (16 * count) := by positivity
    refine ⟨⟨2 ^ (16 * count) - 1, ?_⟩, ?_, ?_⟩
    · rw [if_neg Bool.false_ne_true]
      omega
    · simp only [intSentinel, hd, Option.map_some, hbits]
      rfl
    · rintro ⟨v, hv⟩
      rw [if_neg Bool.false_ne_true] at hv
      exact Int.le_sub_one_of_lt hv.2
  | true =>
    have hpos : (0 : ℤ) < 2 ^ (16 * count - 1) := by positivity
    refine ⟨⟨2 ^ (16 * count - 1) - 1, ?_⟩, ?_, ?_⟩
    · rw [if_pos rfl]
      omega
    · simp only [intSentinel, hd, Option.map_some, hbits]
      rfl
    · rintro ⟨v, hv⟩
      rw [if_pos rfl] at hv
      exact Int.le_sub_one_of_lt hv.2

section Float

variable [FloatArith]

omit [FloatArith] in
theorem ofMag_ne_nan (neg : Bool) (r : WithTop ℚ≥0) : PyFloat.ofMag neg r ≠ .nan := by
  cases r <;> simp

theorem add_fin_ne_nan {y : PyFloat} (hy : y ≠ .nan) (neg : Bool) (m : ℚ≥0) :
    y.add (.fin neg m) ≠ .nan := by
  rcases y with _ | d | ⟨d, j⟩
  · exact absurd rfl hy
  · simp [PyFloat.add]
  · unfold PyFloat.add
    dsimp only
    split_ifs <;> simp [ofMag_ne_nan]

/-- A finite value converts to a number or overflows, when nothing in the conversion is zero
times an infinity. -/
theorem toSi_ne_nan [FloatArith.Lawful] {x scale offset : PyFloat} {sign : ℤ}
    (hx : x.isFinite = true) (hscale : scale.isFinite = true) (hsign : sign ≠ 0)
    (hoffset : offset.isFinite = true) : toSi x scale sign offset ≠ .ok .nan := by
  obtain ⟨a, m, rfl⟩ := PyFloat.isFinite_iff.1 hx
  obtain ⟨b, n, rfl⟩ := PyFloat.isFinite_iff.1 hscale
  obtain ⟨c, k, rfl⟩ := PyFloat.isFinite_iff.1 hoffset
  intro h
  obtain ⟨s, hs, h⟩ := toSi_eq_ok.1 h
  have hone : (1 : ℚ≥0) ≤ sign.natAbs := Nat.one_le_cast.2 (Int.natAbs_pos.2 hsign)
  have hround := FloatArith.round_mono hone
  rw [FloatArith.Lawful.round_one] at hround
  obtain ⟨q, hq, rfl⟩ := PyFloat.ofInt?_eq_some.1 hs
  rw [hq] at hround
  have hq0 : q ≠ 0 := by
    rintro rfl
    exact absurd (WithTop.coe_le_coe.1 hround) (by norm_num)
  refine add_fin_ne_nan ?_ c k h.symm
  rw [PyFloat.mul]
  cases FloatArith.round (m * n) with
  | top =>
    rw [PyFloat.ofMag_top, PyFloat.mul, if_neg hq0]
    simp
  | coe r => exact ofMag_ne_nan _ _

theorem decodeIntPoint_eq {dtype : Dtype} {regs : List ℕ} {raw : ℤ} {wordOrder byteOrder : String}
    (h : registersToInt regs dtype wordOrder byteOrder = .ok raw) (scale : PyFloat) (sign : ℤ)
    (offset : PyFloat) : decodeIntPoint regs dtype scale sign offset wordOrder byteOrder =
      if intSentinel dtype = some raw then .ok .nan
      else (floatOfInt raw).bind fun x => toSi x scale sign offset := by
  rw [decodeIntPoint, h]
  by_cases hraw : intSentinel dtype = some raw
  · rw [if_pos hraw]
    simp only [intIsInvalid, hraw, bind, Except.bind, decide_true, if_true]
    rfl
  · rw [if_neg hraw]
    simp only [intIsInvalid, hraw, bind, Except.bind, decide_false, if_false, Bool.false_eq_true]

/-- Under any orders the tuples of an integer dtype are its values, and one of them is the
marker of an unavailable channel. Every other tuple is converted as it is, to a number where
the scale and the offset are finite and the sign is not zero. -/
theorem int_roundTrip [FloatArith.Lawful] {dtype : Dtype} {count : ℕ} {signed : Bool}
    (hd : intDtypes dtype = some (count, signed)) (wordOrder byteOrder : String) :
    (∃ e : RegisterTuple count ≃ SizedInt count signed,
      (∀ t, registersToInt t.1 dtype wordOrder byteOrder = .ok (e t).1) ∧
      (∀ v, (e.symm v).1 = registersOfInt count v.1 wordOrder byteOrder) ∧
      ∃ marker : SizedInt count signed, (∀ v : SizedInt count signed, v.1 ≤ marker.1) ∧
        ∀ scale sign offset,
          decodeIntPoint (e.symm marker).1 dtype scale sign offset wordOrder byteOrder =
            .ok .nan ∧
          ∀ t, t ≠ e.symm marker →
            (∃ x, PyFloat.ofInt? (e t).1 = some x ∧
              decodeIntPoint t.1 dtype scale sign offset wordOrder byteOrder =
                toSi x scale sign offset) ∧
            (scale.isFinite = true → offset.isFinite = true → sign ≠ 0 →
              decodeIntPoint t.1 dtype scale sign offset wordOrder byteOrder ≠ .ok .nan)) ∧
      (∀ regs extra, count ≤ regs.length →
        registersToInt (regs ++ extra) dtype wordOrder byteOrder =
          registersToInt regs dtype wordOrder byteOrder) ∧
      ∀ regs : List ℕ, regs.length < count →
        ∃ text, registersToInt regs dtype wordOrder byteOrder = .error (.valueError text) := by
  obtain ⟨marker, hmarker, hmax⟩ := intSentinel_eq hd
  obtain ⟨e, hread, hwrite⟩ := exists_tupleEquiv hd wordOrder byteOrder
  refine ⟨⟨e, hread, hwrite, marker, hmax, fun scale sign offset => ⟨?_, fun t ht => ?_⟩⟩,
    fun regs extra h => ?_, fun regs h => ?_⟩
  · rw [decodeIntPoint_eq (hread _), e.apply_symm_apply, if_pos hmarker]
  · have hne : intSentinel dtype ≠ some (e t).1 := by
      rw [hmarker]
      intro hc
      exact ht (e.eq_symm_apply.2 (Subtype.ext (Option.some.inj hc).symm))
    obtain ⟨i, hi, hsmall⟩ := @registersToInt_isOk t.1 dtype (by
      rintro rfl
      cases hd) (by rw [t.2.1, registerWidth, hd]) wordOrder byteOrder
    obtain rfl := Except.ok.inj ((hread t).symm.trans hi)
    obtain ⟨x, hx⟩ := Option.isSome_iff_exists.1 (PyFloat.ofInt?_isSome_of_le hsmall)
    have hdecode : decodeIntPoint t.1 dtype scale sign offset wordOrder byteOrder =
        toSi x scale sign offset := by
      rw [decodeIntPoint_eq (hread t), if_neg hne, floatOfInt, hx]
      rfl
    obtain ⟨q, -, rfl⟩ := PyFloat.ofInt?_eq_some.1 hx
    exact ⟨⟨_, hx, hdecode⟩, fun hscale hoffset hsign =>
      hdecode ▸ toSi_ne_nan rfl hscale hsign hoffset⟩
  · rw [registersToInt_eq hd h, registersToInt_eq hd (by simp; omega),
      List.take_append_of_le_length h]
  · unfold registersToInt
    simp only [hd]
    rw [if_pos h]
    exact ⟨_, rfl⟩

end Float

/-- A negative number in two words, the low one first. -/
theorem int_roundTrip_i32 :
    registersToInt [0xFFFE, 0xFFFF] .i32 "little" "big" = .ok (-2) := by
  obtain ⟨⟨e, hread, hwrite, -⟩, -⟩ :=
    @int_roundTrip .double _ .i32 2 true rfl "little" "big"
  let v : SizedInt 2 true := ⟨-2, by decide⟩
  have hback := hread (e.symm v)
  have hregs : registersOfInt 2 (-2) "little" "big" = [0xFFFE, 0xFFFF] := by decide +kernel
  rw [e.apply_symm_apply, hwrite v, hregs] at hback
  exact hback

/-- A zero times an infinite scale is no number, and zero is not the marker. -/
theorem decode_unmarked_nan :
    ¬∀ (scale offset : PyFloat) (sign : ℤ) (t : RegisterTuple 1),
      @decodeIntPoint .double t.1 .u16 scale sign offset "big" "big" = .ok .nan →
        t.1 = registersOfInt 1 0xFFFF "big" "big" := by
  intro h
  have hzero := h (.inf false) 0 1 ⟨[0], rfl, by simp⟩ (by decide +kernel)
  exact absurd hzero (by decide)

/-! ## Floats -/

/-- Two registers are those of a pattern, which is what they are read as. -/
theorem exists_registersOfBits {r₀ r₁ : ℕ} (h₀ : r₀ < 2 ^ 16) (h₁ : r₁ < 2 ^ 16)
    (wordOrder byteOrder : String) :
    ∃ b, b < 2 ^ 32 ∧ registersOfBits b wordOrder byteOrder = [r₀, r₁] := by
  have hword : ∀ r b, r < 2 ^ 16 → b = 256 * (wordBytes r byteOrder).1 +
      (wordBytes r byteOrder).2 → bytesWord (b / 256, b % 256) byteOrder = r := by
    rintro r b hr rfl
    obtain ⟨h1, h2⟩ := wordBytes_lt r byteOrder
    rw [Nat.mul_add_div (by norm_num), Nat.div_eq_of_lt h2, Nat.mul_add_mod,
      Nat.mod_eq_of_lt h2]
    exact bytesWord_wordBytes hr byteOrder
  have hbits : ∀ hi lo, hi < 2 ^ 16 → lo < 2 ^ 16 → ∃ b, b < 2 ^ 32 ∧
      bytesWord (b / 2 ^ 24 % 256, b / 2 ^ 16 % 256) byteOrder = hi ∧
        bytesWord (b / 2 ^ 8 % 256, b % 256) byteOrder = lo := by
    intro hi lo hhi hlo
    obtain ⟨h1, h2⟩ := wordBytes_lt hi byteOrder
    obtain ⟨h3, h4⟩ := wordBytes_lt lo byteOrder
    have hhi' := hword hi _ hhi rfl
    have hlo' := hword lo _ hlo rfl
    set x := 256 * (wordBytes hi byteOrder).1 + (wordBytes hi byteOrder).2
    set y := 256 * (wordBytes lo byteOrder).1 + (wordBytes lo byteOrder).2
    have hx : x < 2 ^ 16 := by omega
    have hy : y < 2 ^ 16 := by omega
    refine ⟨2 ^ 16 * x + y, by omega, ?_, ?_⟩
    · rw [← hhi']
      congr 2 <;> omega
    · rw [← hlo']
      congr 2 <;> omega
  by_cases hw : wordOrder = "big"
  · obtain ⟨b, hb, hhi, hlo⟩ := hbits r₀ r₁ h₀ h₁
    exact ⟨b, hb, by simp only [registersOfBits, if_pos hw, hhi, hlo]⟩
  · obtain ⟨b, hb, hhi, hlo⟩ := hbits r₁ r₀ h₁ h₀
    exact ⟨b, hb, by simp only [registersOfBits, if_neg hw, hhi, hlo]⟩

/-- Finite floats of single precision are accepted. -/
theorem fitsFloat32_ofBits {b : ℕ} (hb : b < 2 ^ 32)
    (h : (PyFloat.ofBits .binary32 b).isFinite = true) :
    fitsFloat32 (.ofBits .binary32 b) = true := by
  obtain ⟨neg, n, hn, -, heq⟩ := @PyFloat.exists_ofBits .binary32 _ hb h
  have hmax : BinFormat.binary32.value (BinFormat.binary32.infOrdinal - 1) =
      ((2 ^ 24 - 1) * 2 ^ 104 : ℕ) := by decide +kernel
  rw [heq, fitsFloat32_fin, ← hmax]
  exact BinFormat.binary32.value_strictMono.monotone (Nat.le_sub_one_of_lt hn)

theorem fitsFloat32_eq_false {v : PyFloat} :
    fitsFloat32 v = false ↔ v.isFinite = false ∨ FLOAT32_MAX.lt v.abs = true := by
  rw [fitsFloat32, Bool.and_eq_false_iff, Bool.not_eq_false']

/-- Under any orders two registers of a finite float are read and written back. What is written
of an accepted value is read as that value rounded to single precision, and a value is refused
where it is not finite or too large, with the one error of the encoder. -/
theorem float_roundTrip (wordOrder byteOrder : String) :
    (∀ r₀ r₁ v, r₀ < 2 ^ 16 → r₁ < 2 ^ 16 →
      registersToFloat [r₀, r₁] wordOrder byteOrder = .ok v → v.isFinite = true →
        floatToRegisters v wordOrder byteOrder = .ok [r₀, r₁]) ∧
      (∀ v regs, floatToRegisters v wordOrder byteOrder = .ok regs →
        ∃ neg m q, v = .fin neg m ∧ BinFormat.binary32.round m = (q : ℚ≥0) ∧
          registersToFloat regs wordOrder byteOrder = .ok (.fin neg q)) ∧
      (∀ v e, floatToRegisters v wordOrder byteOrder = .error e ↔
        (v.isFinite = false ∨ FLOAT32_MAX.lt v.abs = true) ∧
          e = .valueError s!"value is not representable as finite float32: {floatRepr v}") := by
  refine ⟨fun r₀ r₁ v h₀ h₁ hv hfin => ?_, fun v regs h => ?_, fun v e => ?_⟩
  · obtain ⟨b, hb, hregs⟩ := exists_registersOfBits h₀ h₁ wordOrder byteOrder
    rw [← hregs, registersToFloat_registersOfBits hb] at hv
    obtain rfl := Except.ok.inj hv
    rw [floatToRegisters_eq (fitsFloat32_ofBits hb hfin) (PyFloat.toBits?_ofBits hb hfin), hregs]
  · have hfit : fitsFloat32 v = true := by
      rcases floatToRegisters_cases v wordOrder byteOrder with ⟨hfit, -⟩ | ⟨-, e, he⟩
      · exact hfit
      · rw [he] at h
        cases h
    obtain ⟨regs', hregs, hread⟩ := registersToFloat_stored hfit false wordOrder byteOrder
    obtain rfl := Except.ok.inj (hregs.symm.trans h)
    obtain ⟨b, hb⟩ := Option.isSome_iff_exists.1 (toBits?_isSome_of_fits hfit)
    obtain ⟨neg, m, rfl⟩ := PyFloat.isFinite_iff.1 (isFinite_of_fitsFloat32 hfit)
    rw [PyFloat.toBits?] at hb
    split_ifs at hb with hlt
    refine ⟨neg, m, _, rfl, if_pos hlt, ?_⟩
    rwa [if_neg Bool.false_ne_true, storedFloat_fin, if_neg Bool.false_ne_true] at hread
  · rw [← fitsFloat32_eq_false]
    cases hfit : fitsFloat32 v with
    | true =>
      obtain ⟨-, regs, hregs, -⟩ | ⟨hc, -⟩ := floatToRegisters_cases v wordOrder byteOrder
      · simp [hregs]
      · rw [hfit] at hc
        cases hc
    | false =>
      rw [floatToRegisters_of_not_fits hfit]
      simp [eq_comm]

/-- Negative zero, its bytes swapped. -/
theorem float_roundTrip_negZero :
    floatToRegisters (.fin true 0) "little" "little" = .ok [0, 0x80] := by
  obtain ⟨hback, -, -⟩ := float_roundTrip "little" "little"
  exact hback 0 0x80 (.fin true 0) (by norm_num) (by norm_num) (by decide +kernel) rfl

end DtsuBridge
