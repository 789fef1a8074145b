import DtsuBridge.Codec
import DtsuBridge.Lib.Except
import DtsuBridge.Lib.Slice
import DtsuBridge.Lib.Windows

/-!
# Requests seen on the wire

`WireActivity` counts what passes an RTU port before anything is filtered : the bytes, and
for each slave id the requests whose checksum is right, up to a number of ids. The bytes
come in chunks as the port is read, and `record` keeps the last seven, so that a request
that is cut in two is still seen.

`record_exact` : what has been counted depends on the bytes alone and not on how they were
cut. No chunk raises, and as long as no more ids occur than are tracked, the count of an id
is the number of offsets at which a request for it stands.
-/

namespace DtsuBridge

abbrev Bytes := List UInt8

/-! ## Requests -/

/-- `_RTU_REQUEST_LEN` -/
def RTU_REQUEST_LEN : ℕ := 8

/-- `_REQUEST_FUNCTION_CODES` -/
def REQUEST_FUNCTION_CODES : List ℕ := [1, 2, 3, 4, 5, 6]

/-- One turn of the inner loop of `rtu_crc`. -/
def crcShift (crc : ℕ) : ℕ :=
  if crc &&& 1 ≠ 0 then (crc >>> 1) ^^^ 0xA001 else crc >>> 1

def rtuCrc (data : Bytes) : ℕ :=
  data.foldl (fun crc byte => crcShift^[8] (crc ^^^ byte.toNat)) 0xFFFF

/-- `data[i]` -/
def byteAt (data : Bytes) (i : ℕ) : Except PyExc ℕ :=
  match data[i]? with
  | some byte => .ok byte.toNat
  | none => .error (.indexError "index out of range")

/-- `int.from_bytes(data, "big")` -/
def bigEndian (data : Bytes) : ℕ :=
  fromBytes (data.map UInt8.toNat)

/-- `int.from_bytes(data, "little")` -/
def littleEndian (data : Bytes) : ℕ :=
  bigEndian data.reverse

structure RtuRequest where
  slave : ℕ
  fc : ℕ
  addr : ℕ
  count : ℕ
deriving DecidableEq

/-- The body of the loop of `scan_rtu_requests`. -/
def scanFrame (frame : Bytes) : Except PyExc (Option RtuRequest) := do
  let fc ← byteAt frame 1
  if fc ∉ REQUEST_FUNCTION_CODES then return none
  if rtuCrc (slice frame 0 (-2)) ≠ littleEndian (slice frame (-2) frame.length) then return none
  let slave ← byteAt frame 0
  return some ⟨slave, fc, bigEndian (slice frame 2 4), bigEndian (slice frame 4 6)⟩

/-- Every request with a right checksum in the buffer. -/
def scanRtuRequests (buffer : Bytes) : Except PyExc (List RtuRequest) := do
  let found ← (List.range (buffer.length + 1 - RTU_REQUEST_LEN)).mapM fun i : ℕ =>
    scanFrame (slice buffer i (i + RTU_REQUEST_LEN))
  return found.reduceOption

/-! ## The counts -/

structure WireActivity where
  bytesSeen : ℕ := 0
  lastTs : Option Time := none
  /-- Requests by slave id. -/
  frames : Dict ℕ ℕ := .empty
  maxIds : ℤ := 8
  tail : Bytes := []

/-- Count a request, of an id that is tracked or may still be. -/
def trackSlave (maxIds : ℤ) (frames : Dict ℕ ℕ) (slave : ℕ) : Dict ℕ ℕ :=
  if slave ∈ frames.keys ∨ frames.keys.length < maxIds then
    frames.set slave ((frames.get? slave).getD 0 + 1)
  else frames

namespace WireActivity

/-- `__init__` -/
def new (maxIds : ℤ) : WireActivity where
  maxIds := maxIds

def record (wire : WireActivity) (data : Bytes) (ts : Time) : Except PyExc WireActivity :=
  if data = [] then .ok wire
  else do
    let buffer := wire.tail ++ data
    let requests ← scanRtuRequests buffer
    return { wire with
      bytesSeen := wire.bytesSeen + data.length
      lastTs := some ts
      frames := (requests.map (·.slave)).foldl (trackSlave wire.maxIds) wire.frames
      tail := slice buffer (-(RTU_REQUEST_LEN - 1 : ℤ)) buffer.length }

/-- `record` of every chunk, in order. -/
def recordAll (wire : WireActivity) (chunks : List (Bytes × Time)) : Except PyExc WireActivity :=
  chunks.foldlM (fun wire chunk => wire.record chunk.1 chunk.2) wire

end WireActivity

/-! ## What a buffer holds -/

/-- A request for the slave stands at the offset. -/
def RequestAt (bytes : Bytes) (slave i : ℕ) : Prop :=
  i + 8 ≤ bytes.length ∧ (bytes.getD i 0).toNat = slave ∧
    1 ≤ (bytes.getD (i + 1) 0).toNat ∧ (bytes.getD (i + 1) 0).toNat ≤ 6 ∧
    rtuCrc ((bytes.drop i).take 6) =
      (bytes.getD (i + 6) 0).toNat + 256 * (bytes.getD (i + 7) 0).toNat

instance (bytes : Bytes) (slave i : ℕ) : Decidable (RequestAt bytes slave i) :=
  inferInstanceAs (Decidable (_ ∧ _))

/-- The request a window is. -/
def frameRequest (frame : Bytes) : Option RtuRequest :=
  (scanFrame frame).toOption.getD none

theorem exists_bytes_of_length : ∀ {frame : Bytes}, frame.length = 8 →
    ∃ b0 b1 b2 b3 b4 b5 b6 b7, frame = [b0, b1, b2, b3, b4, b5, b6, b7]
  | [b0, b1, b2, b3, b4, b5, b6, b7], _ => ⟨b0, b1, b2, b3, b4, b5, b6, b7, rfl⟩

/-- A window is a request of its function code and its checksum. -/
theorem scanFrame_bytes (b0 b1 b2 b3 b4 b5 b6 b7 : UInt8) :
    scanFrame [b0, b1, b2, b3, b4, b5, b6, b7] =
      .ok (if (1 ≤ b1.toNat ∧ b1.toNat ≤ 6) ∧
          rtuCrc [b0, b1, b2, b3, b4, b5] = b6.toNat + 256 * b7.toNat then
        some ⟨b0.toNat, b1.toNat, b2.toNat * 256 + b3.toNat, b4.toNat * 256 + b5.toNat⟩
      else none) := by
  have hcrc : slice [b0, b1, b2, b3, b4, b5, b6, b7] 0 (-2) = [b0, b1, b2, b3, b4, b5] := rfl
  have hlast : slice [b0, b1, b2, b3, b4, b5, b6, b7] (-2) 8 = [b6, b7] := rfl
  have haddr : slice [b0, b1, b2, b3, b4, b5, b6, b7] 2 4 = [b2, b3] := rfl
  have hcount : slice [b0, b1, b2, b3, b4, b5, b6, b7] 4 6 = [b4, b5] := rfl
  have hfc : b1.toNat ∈ REQUEST_FUNCTION_CODES ↔ 1 ≤ b1.toNat ∧ b1.toNat ≤ 6 := by
    simp only [REQUEST_FUNCTION_CODES, List.mem_cons, List.not_mem_nil, or_false]
    omega
  have hlittle : littleEndian [b6, b7] = b6.toNat + 256 * b7.toNat := by
    simp [littleEndian, bigEndian, fromBytes]
    omega
  unfold scanFrame
  simp only [List.length_cons, List.length_nil, Nat.reduceAdd, Nat.cast_ofNat, hcrc, hlast, haddr,
    hcount, hlittle]
  by_cases h1 : b1.toNat ∈ REQUEST_FUNCTION_CODES
  · by_cases h2 : rtuCrc [b0, b1, b2, b3, b4, b5] = b6.toNat + 256 * b7.toNat
    · rw [if_pos ⟨hfc.1 h1, h2⟩]
      simp [byteAt, h1, h2, bigEndian, fromBytes, bind, Except.bind, pure, Except.pure]
    · rw [if_neg (fun h => h2 h.2)]
      simp [byteAt, h2, bind, Except.bind, pure, Except.pure]
  · rw [if_neg (fun h => h1 (hfc.2 h.1))]
    simp [byteAt, h1, bind, Except.bind, pure, Except.pure]

/-- No window of the right length raises. -/
theorem scanFrame_eq_ok {frame : Bytes} (h : frame.length = 8) :
    scanFrame frame = .ok (frameRequest frame) := by
  obtain ⟨b0, b1, b2, b3, b4, b5, b6, b7, rfl⟩ := exists_bytes_of_length h
  rw [frameRequest, scanFrame_bytes]
  rfl

/-- The requests of a buffer are those of its windows. -/
theorem scanRtuRequests_eq (buffer : Bytes) :
    scanRtuRequests buffer = .ok ((windows 8 buffer).filterMap frameRequest) := by
  have hscan : ∀ i ∈ List.range (buffer.length + 1 - RTU_REQUEST_LEN),
      scanFrame (slice buffer i (i + RTU_REQUEST_LEN)) =
        .ok (frameRequest ((buffer.drop i).take 8)) := by
    intro i hi
    have hle : i + 8 ≤ buffer.length := by
      have := List.mem_range.1 hi
      rw [RTU_REQUEST_LEN] at this
      omega
    have hslice : slice buffer i (i + RTU_REQUEST_LEN) = (buffer.drop i).take 8 :=
      slice_natCast hle
    rw [hslice, scanFrame_eq_ok (by rw [List.length_take, List.length_drop]; omega)]
  rw [scanRtuRequests, Except.mapM_eq_ok_map hscan]
  show Except.ok _ = _
  rw [windows, List.filterMap_map, List.reduceOption, List.filterMap_map]
  rfl

/-- The window at an offset is a request for the slave that stands there. -/
theorem slave_frameRequest_iff {bytes : Bytes} {i : ℕ} (h : i + 8 ≤ bytes.length) (slave : ℕ) :
    (frameRequest ((bytes.drop i).take 8)).map (·.slave) = some slave ↔
      RequestAt bytes slave i := by
  have hlen : ((bytes.drop i).take 8).length = 8 := by
    rw [List.length_take, List.length_drop]
    omega
  have hget : ∀ j < 8, bytes.getD (i + j) 0 = ((bytes.drop i).take 8).getD j 0 := by
    intro j hj
    rw [List.getD_eq_getElem?_getD, List.getD_eq_getElem?_getD, List.getElem?_take_of_lt hj,
      List.getElem?_drop]
  have hcrc : (bytes.drop i).take 6 = ((bytes.drop i).take 8).take 6 := by
    rw [List.take_take]
    rfl
  unfold RequestAt
  rw [hcrc, ← Nat.add_zero i, hget 0 (by omega), Nat.add_zero, hget 1 (by omega),
    hget 6 (by omega), hget 7 (by omega)]
  obtain ⟨b0, b1, b2, b3, b4, b5, b6, b7, hframe⟩ := exists_bytes_of_length hlen
  rw [hframe, frameRequest, scanFrame_bytes]
  simp only [Except.toOption, Option.getD_some, h, true_and]
  by_cases hreq : (1 ≤ b1.toNat ∧ b1.toNat ≤ 6) ∧
      rtuCrc [b0, b1, b2, b3, b4, b5] = b6.toNat + 256 * b7.toNat
  · simp [hreq]
  · rw [if_neg hreq]
    simp only [Option.map_none, reduceCtorEq, false_iff]
    exact fun hat => hreq ⟨⟨hat.2.1, hat.2.2.1⟩, hat.2.2.2⟩

/-! ## Counting -/

/-- The slaves of the requests in the bytes, in order. -/
def slaves (bytes : Bytes) : List ℕ :=
  ((windows 8 bytes).filterMap frameRequest).map (·.slave)

/-- The ids for which a request stands somewhere. -/
def requestIds (bytes : Bytes) : Finset ℕ :=
  (Finset.range 256).filter fun slave => ∃ i < bytes.length, RequestAt bytes slave i

/-- The requests for a slave, by the offsets they stand at. -/
theorem count_slaves (bytes : Bytes) (slave : ℕ) :
    (slaves bytes).count slave =
      ((Finset.range bytes.length).filter (RequestAt bytes slave)).card := by
  rw [slaves, List.map_filterMap, List.count_filterMap, countP_windows]
  refine congrArg Finset.card (Finset.ext fun i => ?_)
  simp only [Finset.mem_filter, Finset.mem_range, beq_iff_eq]
  refine ⟨fun ⟨hi, hreq⟩ => ?_, fun ⟨hi, hreq⟩ => ?_⟩
  · exact ⟨by omega, (slave_frameRequest_iff (by omega) slave).1 hreq⟩
  · have hle := hreq.1
    exact ⟨by omega, (slave_frameRequest_iff hle slave).2 hreq⟩

theorem toFinset_slaves_subset (bytes : Bytes) : (slaves bytes).toFinset ⊆ requestIds bytes := by
  intro slave hslave
  have hpos := List.count_pos_iff.2 (List.mem_toFinset.1 hslave)
  rw [count_slaves, Finset.card_pos] at hpos
  obtain ⟨i, hi⟩ := hpos
  obtain ⟨hlt, hreq⟩ := Finset.mem_filter.1 hi
  refine Finset.mem_filter.2 ⟨Finset.mem_range.2 ?_, i, Finset.mem_range.1 hlt, hreq⟩
  rw [← hreq.2.1]
  exact UInt8.toNat_lt _

/-- While no more ids occur than are tracked, each is counted as often as it occurs. -/
theorem get?_foldl_trackSlave {maxIds : ℤ} (slave : ℕ) : ∀ {ids : List ℕ} {frames : Dict ℕ ℕ},
    ((frames.keys.toFinset ∪ ids.toFinset).card : ℤ) ≤ maxIds →
      ((ids.foldl (trackSlave maxIds) frames).get? slave).getD 0 =
        (frames.get? slave).getD 0 + ids.count slave
  | [], frames, _ => by simp
  | id :: ids, frames, h => by
    have hkeys : (frames.set id ((frames.get? id).getD 0 + 1)).keys.toFinset =
        insert id frames.keys.toFinset := by
      ext k
      simp [Dict.mem_keys_set]
    have htrack : trackSlave maxIds frames id =
        frames.set id ((frames.get? id).getD 0 + 1) := by
      refine if_pos (or_iff_not_imp_left.2 fun hnew => ?_)
      have hlt : frames.keys.toFinset.card < (frames.keys.toFinset ∪ (id :: ids).toFinset).card :=
        Finset.card_lt_card ((Finset.ssubset_iff_of_subset Finset.subset_union_left).2
          ⟨id, by simp, by simpa using hnew⟩)
      have hnodup : frames.keys.Nodup := frames.nodup
      rw [List.toFinset_card_of_nodup hnodup] at hlt
      exact lt_of_lt_of_le (by exact_mod_cast hlt) h
    have ih := @get?_foldl_trackSlave maxIds slave ids (trackSlave maxIds frames id) ?_
    · rw [List.foldl_cons, ih, htrack, Dict.get?_set, List.count_cons]
      by_cases hs : slave = id
      · simp [hs]
        omega
      · simp [hs, Ne.symm hs]
    · rw [htrack, hkeys]
      simpa [Finset.insert_union, Finset.union_insert] using h

/-! ## Recording -/

/-- The last elements of a list, as a slice. -/
theorem slice_neg_length {α : Type} (l : List α) {k : ℕ} (hk : 0 < k) :
    slice l (-(k : ℤ)) l.length = l.rtake k := by
  have hstart : clampIndex l.length (-(k : ℤ)) = l.length - k := by
    rw [clampIndex, if_pos (by omega)]
    omega
  rw [slice, hstart, clampIndex_of_le le_rfl, List.take_length, List.rtake]

/-- What is kept of the bytes read so far. -/
structure Recorded (maxIds : ℤ) (bytes : Bytes) (wire : WireActivity) : Prop where
  bytesSeen : wire.bytesSeen = bytes.length
  frames : wire.frames = (slaves bytes).foldl (trackSlave maxIds) .empty
  maxIds : wire.maxIds = maxIds
  tail : wire.tail = bytes.rtake 7

theorem recorded_new (maxIds : ℤ) : Recorded maxIds [] (.new maxIds) :=
  ⟨rfl, rfl, rfl, rfl⟩

/-- A chunk is recorded, and adds the requests that end in it. -/
theorem recorded_record {maxIds : ℤ} {bytes : Bytes} {wire : WireActivity}
    (h : Recorded maxIds bytes wire) (data : Bytes) (ts : Time) :
    ∃ wire', wire.record data ts = .ok wire' ∧ Recorded maxIds (bytes ++ data) wire' := by
  by_cases hdata : data = []
  · exact ⟨wire, if_pos hdata, by rwa [hdata, List.append_nil]⟩
  · rw [WireActivity.record, if_neg hdata]
    dsimp only
    rw [scanRtuRequests_eq]
    refine ⟨_, rfl, ?_, ?_, h.maxIds, ?_⟩
    · simp [h.bytesSeen]
    · have hslaves : slaves (bytes ++ data) = slaves bytes ++ slaves (bytes.rtake 7 ++ data) := by
        rw [slaves, windows_append 7, List.filterMap_append, List.map_append]
        rfl
      rw [hslaves, List.foldl_append, ← h.frames, ← h.tail, h.maxIds]
      rfl
    · have htail := slice_neg_length (wire.tail ++ data) (show 0 < 7 by omega)
      rw [rtake_append, ← h.tail]
      exact htail

/-- Chunks are recorded, whatever their lengths. -/
theorem recorded_recordAll {maxIds : ℤ} : ∀ {chunks : List (Bytes × Time)} {bytes : Bytes}
    {wire : WireActivity}, Recorded maxIds bytes wire →
      ∃ wire', wire.recordAll chunks = .ok wire' ∧
        Recorded maxIds (bytes ++ (chunks.map Prod.fst).flatten) wire'
  | [], bytes, wire, h => ⟨wire, rfl, by simpa using h⟩
  | (data, ts) :: chunks, bytes, wire, h => by
    obtain ⟨wire₁, hrecord, h₁⟩ := recorded_record h data ts
    obtain ⟨wire', hall, h'⟩ := @recorded_recordAll maxIds chunks _ _ h₁
    refine ⟨wire', ?_, by simpa using h'⟩
    rw [WireActivity.recordAll, List.foldlM_cons, hrecord]
    exact hall

/-- Chunks of one stream leave the same counts however it is cut, and none raises. While no
more ids occur than are tracked, the count of a slave is the number of offsets of the stream
at which a request for it stands. -/
theorem record_exact (maxIds : ℤ) (chunks : List (Bytes × Time)) :
    ∃ wire, (WireActivity.new maxIds).recordAll chunks = .ok wire ∧
      wire.bytesSeen = (chunks.map Prod.fst).flatten.length ∧
      (∀ chunks', (chunks'.map Prod.fst).flatten = (chunks.map Prod.fst).flatten →
        ∃ wire', (WireActivity.new maxIds).recordAll chunks' = .ok wire' ∧
          wire'.bytesSeen = wire.bytesSeen ∧ wire'.frames = wire.frames) ∧
      (((requestIds (chunks.map Prod.fst).flatten).card : ℤ) ≤ maxIds → ∀ slave,
        (wire.frames.get? slave).getD 0 =
          ((Finset.range (chunks.map Prod.fst).flatten.length).filter
            (RequestAt (chunks.map Prod.fst).flatten slave)).card) := by
  obtain ⟨wire, hall, h⟩ := @recorded_recordAll maxIds chunks _ _ (recorded_new maxIds)
  rw [List.nil_append] at h
  refine ⟨wire, hall, h.bytesSeen, fun chunks' heq => ?_, fun hids slave => ?_⟩
  · obtain ⟨wire', hall', h'⟩ := @recorded_recordAll maxIds chunks' _ _ (recorded_new maxIds)
    rw [List.nil_append, heq] at h'
    exact ⟨wire', hall', h'.bytesSeen.trans h.bytesSeen.symm, h'.frames.trans h.frames.symm⟩
  · have hcard : (((Dict.empty : Dict ℕ ℕ).keys.toFinset ∪
        (slaves (chunks.map Prod.fst).flatten).toFinset).card : ℤ) ≤ maxIds := by
      refine le_trans ?_ hids
      rw [Dict.keys_empty, List.toFinset_nil, Finset.empty_union]
      exact_mod_cast Finset.card_le_card (toFinset_slaves_subset _)
    rw [h.frames, get?_foldl_trackSlave slave hcard, count_slaves]
    simp

/-- A request for slave 7, cut in two with nothing between. -/
def splitRequest : List (Bytes × Time) :=
  [([7, 3, 0, 100, 0], 1), ([], 1), ([2, 133, 178], 1)]

/-- It is counted once. -/
theorem record_exact_splitRequest : ∃ wire,
    (WireActivity.new 8).recordAll splitRequest = .ok wire ∧
      (wire.frames.get? 7).getD 0 = 1 := by
  obtain ⟨wire, hall, -, -, hcount⟩ := record_exact 8 splitRequest
  refine ⟨wire, hall, (hcount (by decide +kernel) 7).trans ?_⟩
  decide +kernel

end DtsuBridge
