import Mathlib.Data.Nat.Bitwise
import Mathlib.Data.Nat.Digits.Lemmas
import Mathlib.Tactic

/-!
# Reflected cyclic redundancy checks

A register is shifted towards its low bit, and its generator is added where a one falls out
(`shift`). The bytes of a message are added to the low end of the register, with eight shifts
after each (`crc`). The shift is linear, so that a message is one number, added at once
(`crc_eq`), its first byte lowest. This is the order of transmission where a byte is sent low
bit first.

A register of `w` bits, the highest of which the generator has, is never shifted to zero
(`iterate_shift_ne_zero`). Hence the check of a message with its remainder behind it is zero
(`crc_append_eq_zero_iff`), and an error of up to `w` consecutive bits makes it another number
(`crc_xor_ne`).
-/

namespace Crc

/-- One shift of the register. -/
def shift (poly c : ℕ) : ℕ := if c &&& 1 ≠ 0 then (c >>> 1) ^^^ poly else c >>> 1

/-- The register after a message. -/
def crc (poly init : ℕ) (bytes : List ℕ) : ℕ :=
  bytes.foldl (fun c b => (shift poly)^[8] (c ^^^ b)) init

variable {poly : ℕ}

/-! ## The shift is linear -/

theorem shift_xor (x y : ℕ) : shift poly (x ^^^ y) = shift poly x ^^^ shift poly y := by
  have hlow : (x ^^^ y) % 2 = (x % 2 + y % 2) % 2 := by
    rw [Nat.xor_mod_two_eq, Nat.add_mod]
  have hcancel : ∀ a b : ℕ, a ^^^ poly ^^^ (b ^^^ poly) = a ^^^ b := by
    intro a b
    rw [Nat.xor_comm b, Nat.xor_assoc, ← Nat.xor_assoc poly, Nat.xor_self, Nat.zero_xor]
  unfold shift
  rw [Nat.and_one_is_mod, Nat.and_one_is_mod, Nat.and_one_is_mod, hlow,
    Nat.shiftRight_xor_distrib]
  rcases Nat.mod_two_eq_zero_or_one x with hx | hx <;>
    rcases Nat.mod_two_eq_zero_or_one y with hy | hy
  · simp [hx, hy]
  · simp [hx, hy, Nat.xor_assoc]
  · simp only [hx, hy]
    simp [Nat.xor_assoc, Nat.xor_comm poly]
  · simp only [hx, hy]
    simp [hcancel]

@[simp] theorem shift_zero : shift poly 0 = 0 := rfl

theorem iterate_shift_xor (n : ℕ) (x y : ℕ) :
    (shift poly)^[n] (x ^^^ y) = (shift poly)^[n] x ^^^ (shift poly)^[n] y := by
  induction n generalizing x y with
  | zero => rfl
  | succ n ih => rw [Function.iterate_succ_apply, shift_xor, ih]; rfl

/-- What has not reached the low end only moves down. -/
theorem iterate_shift_shiftLeft (n x : ℕ) : (shift poly)^[n] (x <<< n) = x := by
  induction n with
  | zero => rfl
  | succ n ih =>
    have heven : (x <<< (n + 1)) &&& 1 = 0 := by
      rw [Nat.and_one_is_mod, Nat.shiftLeft_succ]
      omega
    have hstep : shift poly (x <<< (n + 1)) = x <<< n := by
      rw [shift, if_neg (not_not.2 heven), Nat.shiftLeft_succ, Nat.shiftRight_eq_div_pow]
      omega
    rw [Function.iterate_succ_apply, hstep, ih]

/-! ## Messages as numbers -/

theorem ofDigits_cons_eq (b : ℕ) (bytes : List ℕ) :
    Nat.ofDigits 256 (b :: bytes) = 2 ^ 8 * Nat.ofDigits 256 bytes + b := by
  rw [Nat.ofDigits_cons, Nat.add_comm]
  rfl

/-- The first byte is the lowest. -/
theorem ofDigits_cons_xor {b : ℕ} (hb : b < 256) (bytes : List ℕ) :
    Nat.ofDigits 256 (b :: bytes) = b ^^^ (Nat.ofDigits 256 bytes <<< 8) := by
  refine Nat.eq_of_testBit_eq fun i => ?_
  rw [ofDigits_cons_eq, Nat.testBit_two_pow_mul_add _ hb, Nat.testBit_xor, Nat.testBit_shiftLeft]
  by_cases hi : i < 8
  · simp [hi, not_le.2 hi]
  · have hpow : 2 ^ 8 ≤ 2 ^ i := Nat.pow_le_pow_right (by norm_num) (not_lt.1 hi)
    have hzero : b.testBit i = false := Nat.testBit_lt_two_pow (hb.trans_le hpow)
    simp [hi, hzero, not_lt.1 hi]

/-- The bits of a message, each byte low bit first. -/
theorem testBit_ofDigits : ∀ {bytes : List ℕ}, (∀ b ∈ bytes, b < 256) → ∀ k,
    (Nat.ofDigits 256 bytes).testBit k = (bytes.getD (k / 8) 0).testBit (k % 8)
  | [], _, k => by simp
  | b :: bytes, h, k => by
    obtain ⟨hb, hbytes⟩ := List.forall_mem_cons.1 h
    rw [ofDigits_cons_eq, Nat.testBit_two_pow_mul_add _ hb]
    by_cases hk : k < 8
    · rw [if_pos hk, Nat.div_eq_of_lt hk, Nat.mod_eq_of_lt hk, List.getD_cons_zero]
    · obtain ⟨j, rfl⟩ := Nat.exists_eq_add_of_le (not_lt.1 hk)
      rw [if_neg hk, Nat.add_sub_cancel_left, testBit_ofDigits hbytes, Nat.add_mod_left,
        Nat.add_div_left _ (by norm_num), List.getD_cons_succ]

/-- A number whose bits are all in a window is a number of that many bits, moved up. -/
theorem exists_shiftLeft_of_window {n i w : ℕ}
    (h : ∀ k, n.testBit k = true → i ≤ k ∧ k < i + w) : ∃ x < 2 ^ w, n = x <<< i := by
  refine ⟨n >>> i, Nat.lt_pow_two_of_testBit _ fun k hk => ?_, Nat.eq_of_testBit_eq fun k => ?_⟩
  · rw [Nat.testBit_shiftRight, ← Bool.not_eq_true]
    exact fun hbit => by have := (h _ hbit).2; omega
  · rw [Nat.testBit_shiftLeft, Nat.testBit_shiftRight]
    by_cases hk : i ≤ k
    · simp [hk]
    · have hlow : n.testBit k = false := by
        rw [← Bool.not_eq_true]
        exact fun hbit => hk (h k hbit).1
      simp [hk, hlow]

/-- A message is added at once. -/
theorem crc_eq {bytes : List ℕ} (h : ∀ b ∈ bytes, b < 256) (init : ℕ) :
    crc poly init bytes = (shift poly)^[8 * bytes.length] (init ^^^ Nat.ofDigits 256 bytes) := by
  induction bytes generalizing init with
  | nil => simp [crc]
  | cons b bytes ih =>
    obtain ⟨hb, hbytes⟩ := List.forall_mem_cons.1 h
    have hlen : 8 * (b :: bytes).length = 8 * bytes.length + 8 := by
      rw [List.length_cons]
      omega
    calc crc poly init (b :: bytes)
        = crc poly ((shift poly)^[8] (init ^^^ b)) bytes := rfl
      _ = (shift poly)^[8 * bytes.length]
            ((shift poly)^[8] (init ^^^ b) ^^^ Nat.ofDigits 256 bytes) := ih hbytes _
      _ = (shift poly)^[8 * bytes.length]
            ((shift poly)^[8] (init ^^^ b ^^^ (Nat.ofDigits 256 bytes <<< 8))) := by
          rw [iterate_shift_xor 8 (init ^^^ b), iterate_shift_shiftLeft]
      _ = _ := by
          rw [hlen, Function.iterate_add_apply, ofDigits_cons_xor hb, Nat.xor_assoc]

/-- Errors add to the register what they make of zero. -/
theorem crc_zipWith_xor {bytes errors : List ℕ} (hb : ∀ b ∈ bytes, b < 256)
    (he : ∀ e ∈ errors, e < 256) (hlen : errors.length = bytes.length) (init : ℕ) :
    crc poly init (List.zipWith (· ^^^ ·) bytes errors) =
      crc poly init bytes ^^^ (shift poly)^[8 * errors.length] (Nat.ofDigits 256 errors) := by
  have hzip : ∀ {bytes errors : List ℕ}, (∀ b ∈ bytes, b < 256) → (∀ e ∈ errors, e < 256) →
      errors.length = bytes.length → (∀ x ∈ List.zipWith (· ^^^ ·) bytes errors, x < 256) ∧
        Nat.ofDigits 256 (List.zipWith (· ^^^ ·) bytes errors) =
          Nat.ofDigits 256 bytes ^^^ Nat.ofDigits 256 errors := by
    intro bytes
    induction bytes with
    | nil =>
      intro errors _ _ hlen
      obtain rfl := List.length_eq_zero_iff.1 hlen
      simp
    | cons b bytes ih =>
      intro errors hb he hlen
      obtain ⟨e, errors, rfl⟩ := List.exists_cons_of_length_eq_add_one hlen
      obtain ⟨hb, hbs⟩ := List.forall_mem_cons.1 hb
      obtain ⟨he, hes⟩ := List.forall_mem_cons.1 he
      obtain ⟨hlt, hsum⟩ := ih hbs hes (Nat.succ.inj hlen)
      have hx : b ^^^ e < 256 := Nat.xor_lt_two_pow (n := 8) hb he
      refine ⟨List.forall_mem_cons.2 ⟨hx, hlt⟩, ?_⟩
      rw [List.zipWith_cons_cons, ofDigits_cons_xor hx, ofDigits_cons_xor hb, ofDigits_cons_xor he,
        hsum, Nat.shiftLeft_xor_distrib]
      ac_rfl
  obtain ⟨hlt, hsum⟩ := hzip hb he hlen
  have hsame : (List.zipWith (· ^^^ ·) bytes errors).length = bytes.length := by
    rw [List.length_zipWith, hlen, Nat.min_self]
  rw [crc_eq hlt, crc_eq hb, hsum, hsame, hlen, ← Nat.xor_assoc, iterate_shift_xor]

/-! ## Registers -/

variable {w : ℕ}

theorem shift_lt (hlt : poly < 2 ^ w) {c : ℕ} (hc : c < 2 ^ w) : shift poly c < 2 ^ w := by
  have hhalf : c >>> 1 < 2 ^ w := by
    rw [Nat.shiftRight_eq_div_pow]
    omega
  unfold shift
  split_ifs
  · exact Nat.xor_lt_two_pow hhalf hlt
  · exact hhalf

/-- A register is not shifted to zero, as its generator has the highest bit. -/
theorem shift_ne_zero (hge : 2 ^ w ≤ 2 * poly) {c : ℕ} (hc : c < 2 ^ w) (h0 : c ≠ 0) :
    shift poly c ≠ 0 := by
  unfold shift
  rw [Nat.and_one_is_mod, Nat.shiftRight_eq_div_pow]
  split_ifs with hodd
  · rw [Ne, Nat.xor_eq_zero_iff]
    omega
  · omega

theorem iterate_shift_ne_zero (hlt : poly < 2 ^ w) (hge : 2 ^ w ≤ 2 * poly) (n : ℕ) {c : ℕ}
    (hc : c < 2 ^ w) (h0 : c ≠ 0) : (shift poly)^[n] c ≠ 0 := by
  induction n generalizing c with
  | zero => exact h0
  | succ n ih => exact ih (shift_lt hlt hc) (shift_ne_zero hge hc h0)

theorem crc_lt (hlt : poly < 2 ^ w) (hw : 8 ≤ w) {bytes : List ℕ} (h : ∀ b ∈ bytes, b < 256)
    {init : ℕ} (hinit : init < 2 ^ w) : crc poly init bytes < 2 ^ w := by
  have hiter : ∀ (n : ℕ) {c : ℕ}, c < 2 ^ w → (shift poly)^[n] c < 2 ^ w := by
    intro n
    induction n with
    | zero => exact id
    | succ n ih => exact fun hc => ih (shift_lt hlt hc)
  have hbyte : 256 ≤ 2 ^ w := Nat.pow_le_pow_right (n := 2) (by omega) hw
  induction bytes generalizing init with
  | nil => exact hinit
  | cons b bytes ih =>
    obtain ⟨hb, hbytes⟩ := List.forall_mem_cons.1 h
    exact ih hbytes (hiter 8 (Nat.xor_lt_two_pow hinit (hb.trans_le hbyte)))

/-- The check is zero exactly where the message is followed by its remainder. -/
theorem crc_append_eq_zero_iff (hlt : poly < 2 ^ w) (hge : 2 ^ w ≤ 2 * poly) (hw : 8 ≤ w)
    {bytes check : List ℕ} (hb : ∀ b ∈ bytes, b < 256) (hc : ∀ b ∈ check, b < 256)
    (hlen : 8 * check.length = w) {init : ℕ} (hinit : init < 2 ^ w) :
    crc poly init (bytes ++ check) = 0 ↔ crc poly init bytes = Nat.ofDigits 256 check := by
  have hremainder := crc_lt hlt hw hb hinit
  have hcheck : Nat.ofDigits 256 check < 2 ^ w := by
    rw [← hlen, Nat.pow_mul]
    exact Nat.ofDigits_lt_base_pow_length (by omega) hc
  have happend : crc poly init (bytes ++ check) =
      crc poly (crc poly init bytes) check := List.foldl_append
  rw [happend, crc_eq hc]
  refine ⟨fun h => ?_, fun h => ?_⟩
  · by_contra hne
    refine iterate_shift_ne_zero hlt hge _ (Nat.xor_lt_two_pow hremainder hcheck) ?_ h
    exact fun hzero => hne (Nat.xor_eq_zero_iff.1 hzero)
  · rw [h, Nat.xor_self]
    exact Function.iterate_fixed shift_zero _

/-- A burst of errors, no longer than the register, changes the check. -/
theorem crc_xor_ne (hlt : poly < 2 ^ w) (hge : 2 ^ w ≤ 2 * poly) {bytes errors : List ℕ}
    (hb : ∀ b ∈ bytes, b < 256) (he : ∀ e ∈ errors, e < 256)
    (hlen : errors.length = bytes.length) {i x : ℕ} (hburst : Nat.ofDigits 256 errors = x <<< i)
    (hx : x < 2 ^ w) (h0 : x ≠ 0) (init : ℕ) :
    crc poly init (List.zipWith (· ^^^ ·) bytes errors) ≠ crc poly init bytes := by
  have hi : i ≤ 8 * errors.length := by
    have hbound : Nat.ofDigits 256 errors < 256 ^ errors.length :=
      Nat.ofDigits_lt_base_pow_length (by omega) he
    have hpow : 256 ^ errors.length = 2 ^ (8 * errors.length) := (Nat.pow_mul 2 8 _).symm
    rw [hpow, hburst, Nat.shiftLeft_eq] at hbound
    by_contra hgt
    have hle : 2 ^ (8 * errors.length) ≤ 2 ^ i :=
      Nat.pow_le_pow_right (n := 2) (by omega) (by omega)
    have hmul : 2 ^ i ≤ x * 2 ^ i := Nat.le_mul_of_pos_left _ (by omega)
    omega
  have hsplit : 8 * errors.length = (8 * errors.length - i) + i := by omega
  have hdiff : (shift poly)^[8 * errors.length] (Nat.ofDigits 256 errors) ≠ 0 := by
    rw [hburst, hsplit, Function.iterate_add_apply, iterate_shift_shiftLeft]
    exact iterate_shift_ne_zero hlt hge _ hx h0
  rw [crc_zipWith_xor hb he hlen]
  intro heq
  refine hdiff ?_
  have hcancel := congrArg (crc poly init bytes ^^^ ·) heq
  simpa [← Nat.xor_assoc] using hcancel

end Crc
