import DtsuBridge.Lib.Crc
import DtsuBridge.WireActivity

/-!
# The checksum of a request

`rtuCrc` is the reflected check of the generator `0xA001` with an initial register of ones
(`rtuCrc_eq`). A string passes where the checksum of all but its last two bytes is these two, the
low one first, which is where the check of the whole string is zero (`passes_iff`).

`burst_detected` : a message with its checksum passes, and no longer does after errors within
sixteen consecutive bits. A request is found by the scan at its place in a buffer, and is not
after such errors.
-/

namespace DtsuBridge

/-! ## Strings that pass -/

/-- The checksum of all but the last two bytes is these two. -/
def Passes (frame : Bytes) : Prop :=
  rtuCrc (slice frame 0 (-2)) = littleEndian (slice frame (-2) frame.length)

instance (frame : Bytes) : Decidable (Passes frame) := inferInstanceAs (Decidable (_ = _))

/-- A message followed by its checksum, low byte first. -/
def withCrc (m : Bytes) : Bytes :=
  m ++ [UInt8.ofNat (rtuCrc m % 256), UInt8.ofNat (rtuCrc m / 256)]

/-- Bytes with errors added to their bits. -/
def damaged (frame errors : Bytes) : Bytes := List.zipWith (· ^^^ ·) frame errors

/-- A bit in the order of transmission, each byte low bit first. -/
def sentBit (bytes : Bytes) (k : ℕ) : Bool := (bytes.getD (k / 8) 0).toNat.testBit (k % 8)

/-- Some errors, within sixteen consecutive bits. -/
structure Burst (errors : Bytes) : Prop where
  some : ∃ k, sentBit errors k = true
  short : ∃ start, ∀ k, sentBit errors k = true → start ≤ k ∧ k < start + 16

/-- The values of the bytes. -/
def byteValues (bytes : Bytes) : List ℕ := bytes.map UInt8.toNat

theorem byteValues_lt {bytes : Bytes} : ∀ b ∈ byteValues bytes, b < 256 := by
  intro b hb
  obtain ⟨byte, -, rfl⟩ := List.mem_map.1 hb
  exact UInt8.toNat_lt byte

theorem rtuCrc_eq (data : Bytes) : rtuCrc data = Crc.crc 0xA001 0xFFFF (byteValues data) := by
  rw [Crc.crc, byteValues, List.foldl_map]
  rfl

theorem rtuCrc_lt (data : Bytes) : rtuCrc data < 2 ^ 16 := by
  rw [rtuCrc_eq]
  exact Crc.crc_lt (by norm_num) (by norm_num) byteValues_lt (by norm_num)

/-- The last two bytes of a string are its checksum, and what is before them is its body. -/
theorem slice_last_two (body : Bytes) (lo hi : UInt8) :
    slice (body ++ [lo, hi]) 0 (-2) = body ∧
      littleEndian (slice (body ++ [lo, hi]) (-2) (body ++ [lo, hi]).length) =
        Nat.ofDigits 256 (byteValues [lo, hi]) := by
  have hlen : (body ++ [lo, hi]).length = body.length + 2 := by simp
  have hstart : clampIndex (body.length + 2) (-2) = body.length := by
    rw [clampIndex, if_pos (by omega)]
    omega
  refine ⟨?_, ?_⟩
  · rw [slice, hlen, hstart, List.take_left]
    rfl
  · rw [slice, hlen, hstart, clampIndex_of_le le_rfl, ← hlen, List.take_length, List.drop_left]
    simp [littleEndian, bigEndian, fromBytes, byteValues, Nat.ofDigits_cons]
    omega

/-- A string passes where its check is zero. -/
theorem passes_iff {frame : Bytes} (h : 2 ≤ frame.length) : Passes frame ↔ rtuCrc frame = 0 := by
  obtain ⟨body, lo, hi, rfl⟩ : ∃ body lo hi, frame = body ++ [lo, hi] := by
    have hlast : (frame.drop (frame.length - 2)).length = 2 := by
      rw [List.length_drop]
      omega
    obtain ⟨lo, hi, heq⟩ := List.length_eq_two.1 hlast
    exact ⟨_, lo, hi, by rw [← heq, List.take_append_drop]⟩
  obtain ⟨hbody, hcheck⟩ := slice_last_two body lo hi
  have hvalues : byteValues (body ++ [lo, hi]) = byteValues body ++ byteValues [lo, hi] :=
    List.map_append
  rw [Passes, hbody, hcheck, rtuCrc_eq, rtuCrc_eq, hvalues]
  exact (Crc.crc_append_eq_zero_iff (w := 16) (by norm_num) (by norm_num) (by norm_num)
    byteValues_lt byteValues_lt rfl (by norm_num)).symm

theorem passes_withCrc (m : Bytes) : Passes (withCrc m) := by
  obtain ⟨hbody, hcheck⟩ :=
    slice_last_two m (UInt8.ofNat (rtuCrc m % 256)) (UInt8.ofNat (rtuCrc m / 256))
  have hlt := rtuCrc_lt m
  rw [Passes, withCrc, hbody, hcheck]
  simp [byteValues, Nat.ofDigits_cons]
  omega

/-- The bits of the errors are those of one number. -/
theorem testBit_byteValues (errors : Bytes) (k : ℕ) :
    (Nat.ofDigits 256 (byteValues errors)).testBit k = sentBit errors k := by
  rw [Crc.testBit_ofDigits byteValues_lt, sentBit, byteValues]
  congr 1
  rw [List.getD_eq_getElem?_getD, List.getD_eq_getElem?_getD, List.getElem?_map]
  cases errors[k / 8]? <;> rfl

/-- A burst changes the check. -/
theorem rtuCrc_damaged_ne {frame errors : Bytes} (hlen : errors.length = frame.length)
    (hburst : Burst errors) : rtuCrc (damaged frame errors) ≠ rtuCrc frame := by
  obtain ⟨⟨k, hk⟩, start, hshort⟩ := hburst
  obtain ⟨x, hx, hn⟩ := @Crc.exists_shiftLeft_of_window (Nat.ofDigits 256 (byteValues errors))
    start 16 fun k hk => hshort k (testBit_byteValues errors k ▸ hk)
  have h0 : x ≠ 0 := by
    rintro rfl
    rw [← testBit_byteValues, hn, Nat.zero_shiftLeft, Nat.zero_testBit] at hk
    cases hk
  have hvalues : byteValues (damaged frame errors) =
      List.zipWith (· ^^^ ·) (byteValues frame) (byteValues errors) := by
    simp [byteValues, damaged, List.map_zipWith, List.zipWith_map]
  rw [rtuCrc_eq, rtuCrc_eq, hvalues]
  exact Crc.crc_xor_ne (w := 16) (by norm_num) (by norm_num) byteValues_lt byteValues_lt
    (by simpa [byteValues] using hlen) hn hx h0 _

theorem not_passes_damaged {m errors : Bytes} (hlen : errors.length = (withCrc m).length)
    (hburst : Burst errors) : ¬Passes (damaged (withCrc m) errors) := by
  have htwo : 2 ≤ (withCrc m).length := by simp [withCrc]
  have hsame : (damaged (withCrc m) errors).length = (withCrc m).length := by
    rw [damaged, List.length_zipWith, hlen, Nat.min_self]
  rw [passes_iff (hsame.symm ▸ htwo), ← (passes_iff htwo).1 (passes_withCrc m)]
  exact rtuCrc_damaged_ne hlen hburst

/-! ## The scan at an offset -/

/-- What the scan finds at each offset of a buffer. -/
def scanResults (buffer : Bytes) : List (Option RtuRequest) :=
  (windows 8 buffer).map frameRequest

theorem scanRtuRequests_eq_results (buffer : Bytes) :
    scanRtuRequests buffer = .ok (scanResults buffer).reduceOption := by
  rw [scanRtuRequests_eq, scanResults, List.reduceOption, List.filterMap_map]
  rfl

/-- The window behind a prefix. -/
theorem scanResults_getElem? {pre frame post : Bytes} (h : frame.length = 8) :
    (scanResults (pre ++ frame ++ post))[pre.length]? = some (frameRequest frame) := by
  have hcount : pre.length < (pre ++ frame ++ post).length + 1 - 8 := by
    simp only [List.length_append]
    omega
  have hwindow : ((pre ++ frame ++ post).drop pre.length).take 8 = frame := by
    rw [List.append_assoc, List.drop_left, ← h, List.take_left]
  rw [scanResults, windows, List.map_map, List.getElem?_map, List.getElem?_range hcount]
  exact congrArg (some ∘ frameRequest) hwindow

/-- A window is a request where its function code is one of a request and it passes. -/
theorem frameRequest_eq (b0 b1 b2 b3 b4 b5 b6 b7 : UInt8) :
    frameRequest [b0, b1, b2, b3, b4, b5, b6, b7] =
      if (1 ≤ b1.toNat ∧ b1.toNat ≤ 6) ∧ Passes [b0, b1, b2, b3, b4, b5, b6, b7] then
        some ⟨b0.toNat, b1.toNat, b2.toNat * 256 + b3.toNat, b4.toNat * 256 + b5.toNat⟩
      else none := by
  have hpasses : Passes [b0, b1, b2, b3, b4, b5, b6, b7] ↔
      rtuCrc [b0, b1, b2, b3, b4, b5] = b6.toNat + 256 * b7.toNat := by
    obtain ⟨hbody, hcheck⟩ := slice_last_two [b0, b1, b2, b3, b4, b5] b6 b7
    rw [List.cons_append, List.cons_append, List.cons_append, List.cons_append, List.cons_append,
      List.cons_append, List.nil_append] at hbody hcheck
    rw [Passes, hbody, hcheck]
    simp [byteValues, Nat.ofDigits_cons]
  rw [frameRequest, scanFrame_bytes]
  simp only [hpasses, Except.toOption, Option.getD_some]

theorem frameRequest_of_not_passes {frame : Bytes} (hlen : frame.length = 8)
    (h : ¬Passes frame) : frameRequest frame = none := by
  obtain ⟨b0, b1, b2, b3, b4, b5, b6, b7, rfl⟩ := exists_bytes_of_length hlen
  rw [frameRequest_eq, if_neg fun hc => h hc.2]

/-- A message with its checksum passes, and with a burst of errors it does not. The scan
finds what passes : a request of the function codes 1 to 6 at its place in any buffer, and not
after a burst. -/
theorem burst_detected (m : Bytes) :
    Passes (withCrc m) ∧
      (∀ errors, errors.length = (withCrc m).length → Burst errors →
        ¬Passes (damaged (withCrc m) errors)) ∧
      (∀ buffer, scanRtuRequests buffer = .ok (scanResults buffer).reduceOption) ∧
      ∀ pre post,
        (∀ slave fc a₁ a₀ c₁ c₀ : UInt8, m = [slave, fc, a₁, a₀, c₁, c₀] →
          1 ≤ fc.toNat → fc.toNat ≤ 6 →
          (scanResults (pre ++ withCrc m ++ post))[pre.length]? =
            some (some ⟨slave.toNat, fc.toNat, a₁.toNat * 256 + a₀.toNat,
              c₁.toNat * 256 + c₀.toNat⟩)) ∧
        ∀ errors, m.length = 6 → errors.length = (withCrc m).length → Burst errors →
          (scanResults (pre ++ damaged (withCrc m) errors ++ post))[pre.length]? = some none := by
  refine ⟨passes_withCrc m, fun errors => not_passes_damaged, scanRtuRequests_eq_results,
    fun pre post => ⟨?_, fun errors hm hlen hburst => ?_⟩⟩
  · rintro slave fc a₁ a₀ c₁ c₀ rfl h1 h6
    have hpass := passes_withCrc [slave, fc, a₁, a₀, c₁, c₀]
    rw [scanResults_getElem? rfl]
    simp only [withCrc, List.cons_append, List.nil_append] at hpass ⊢
    rw [frameRequest_eq, if_pos ⟨⟨h1, h6⟩, hpass⟩]
  · have height : (damaged (withCrc m) errors).length = 8 := by
      rw [damaged, List.length_zipWith, hlen, Nat.min_self]
      simp [withCrc, hm]
    rw [scanResults_getElem? height,
      frameRequest_of_not_passes height (not_passes_damaged hlen hburst)]

/-- A read of two registers at 5404 from slave 1, after a byte of noise. -/
def readRequest : Bytes := [1, 4, 0x15, 0x1C, 0, 2]

/-- It is found, and is not with the two low bits of its count inverted. -/
theorem burst_detected_readRequest :
    (scanResults ([7] ++ withCrc readRequest ++ []))[1]? = some (some ⟨1, 4, 5404, 2⟩) ∧
      (scanResults ([7] ++ damaged (withCrc readRequest) [0, 0, 0, 0, 0, 3, 0, 0] ++ []))[1]? =
        some none := by
  obtain ⟨-, -, -, hscan⟩ := burst_detected readRequest
  obtain ⟨hfound, hlost⟩ := hscan [7] []
  refine ⟨hfound 1 4 0x15 0x1C 0 2 rfl (by decide) (by decide), ?_⟩
  have hlen : ([0, 0, 0, 0, 0, 3, 0, 0] : Bytes).length = (withCrc readRequest).length := by
    rw [withCrc, List.length_append]
    rfl
  refine hlost [0, 0, 0, 0, 0, 3, 0, 0] rfl hlen ⟨⟨40, by decide⟩, 40, fun k hk => ?_⟩
  by_contra hout
  have hzero : ∀ i ≠ 5, ([0, 0, 0, 0, 0, 3, 0, 0] : Bytes).getD i 0 = 0 := by
    intro i hi
    match i with
    | 0 | 1 | 2 | 3 | 4 | 6 | 7 => rfl
    | 5 => exact absurd rfl hi
    | i + 8 => rfl
  rw [sentBit, hzero _ (by omega), UInt8.toNat_zero, Nat.zero_testBit] at hk
  cases hk

end DtsuBridge
