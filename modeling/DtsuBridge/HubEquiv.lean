import DtsuBridge.Declared
import DtsuBridge.HubCache

/-!
# Reading through the hub

`makeHubClient` subscribes the blocks a source reads (`blocksForSource`) and reads through
the connection. A poll depends on the answers to these blocks alone (`pollOnceFn_congr`),
whichever type the source is of.

`poll_hub_eq_direct` : once every subscribed block has come with the registers of a fixed
image, the stream is up and nothing is stale, a poll through the hub and a poll of the
devices themselves have the same outcome.
-/

namespace DtsuBridge

/-! ## The client of a bridge behind the hub -/

/-- How old a pushed block may get before the bridge treats it as failed. -/
def stalenessThreshold (pollIntervalS timeoutS : Time) : TimeLimit :=
  max timeoutS (roundTime (pollIntervalS * 3))

/-- The value of `type` in a source's configuration. -/
def SourceType.name : SourceType → String
  | nd45 => "nd45"
  | huawei => "huawei"
  | etango => "etango"

/-- The function code a poll of this type reads with. -/
def SourceType.functionCode (type : SourceType) : FunctionCode :=
  if type = etango then .input else .holding

/-- Which blocks a source needs, as they go on the wire. -/
def blocksForSource (type : SourceType) (side : SourceSide) (unitId : ℤ) (link : String) :
    Except PyExc (List BlockKey) :=
  match type with
  | .nd45 => .ok (Nd45.READ_GROUPS.map fun (base, count) =>
      ⟨link, unitId, FunctionCode.holding.code, base, count⟩)
  | _ =>
    let blocks : List BlockKey := (side.readGroups.getD []).map fun group =>
      ⟨link, group.unitId.getD unitId, type.functionCode.code, group.base + side.addressOffset,
        group.count⟩
    if blocks = [] then
      .error (.valueError (s!"source type '{type.name}' declares no read_groups; " ++
        "the hub would be asked to poll nothing"))
    else .ok blocks

/-- The loop over the devices in `make_hub_client`. -/
def deviceBlocks (name : String) (side : SourceSide) :
    List EtangoDeviceConf → Except PyExc (List BlockKey)
  | [] => .ok []
  | device :: devices =>
    if device.hubLink = "" then
      .error (.valueError (s!"bridge {strRepr name}: etango device {device.host} has via_hub " ++
        "set but no hub_link; each device needs the hub link name that owns it"))
    else do
      let blocks ← blocksForSource .etango side device.unitId device.hubLink
      let rest ← deviceBlocks name side devices
      return blocks ++ rest

/-- The blocks `make_hub_client` subscribes. -/
def subscribedBlocks (name : String) (source : SourceConf) (side : SourceSide) :
    Except PyExc (List BlockKey) :=
  match source with
  | .etango c => deviceBlocks name side c.devices
  | .nd45 c | .huawei c =>
    if c.hubLink = "" then
      .error (.valueError (s!"bridge {strRepr name}: via_hub is set but hub_link is empty; " ++
        "it must name the link in the hub's own config that owns this device"))
    else blocksForSource source.type side c.unitId c.hubLink

/-- The connection of `make_hub_client`. -/
def makeHubConnection (name : String) (source : SourceConf) (side : SourceSide) (now : Time) :
    Except PyExc HubConnection := do
  let blocks ← subscribedBlocks name source side
  return .new blocks (stalenessThreshold source.base.pollIntervalS source.base.timeoutS)
    source.base.reconnectDelayS source.base.reconnectDelayMaxS now

/-- `HubClient` : a view of the connection on one link. -/
def hubClient (conn : HubConnection) (link : String) : Client := fun _ req =>
  .ok (conn.read link req.fc.code req.address req.count req.slave)

/-- The links of the devices of a source. -/
def hubLinks : SourceConf → List String
  | .nd45 c | .huawei c => [c.hubLink]
  | .etango c => c.devices.map (·.hubLink)

/-- The client of `make_hub_client`. -/
def makeHubClient (source : SourceConf) (conn : HubConnection) : source.type.Client :=
  makeClient source fun i => hubClient conn ((hubLinks source)[i]?.getD "")

/-! ## What is subscribed -/

/-- The block of a read on a link. -/
def Request.block (req : Request) (link : String) : BlockKey :=
  ⟨link, req.slave, req.fc.code, req.address, req.count⟩

/-- The reads of a poll of one device. -/
def requestsOf (type : SourceType) (side : SourceSide) (slave : ℤ) : List Request :=
  match type with
  | .nd45 => Nd45.READ_GROUPS.map fun (base, count) => ⟨.holding, base, count, slave⟩
  | _ => (side.readGroups.getD []).map fun group =>
    ⟨type.functionCode, group.base + side.addressOffset, group.count,
      group.unitId.getD slave⟩

/-- Unit id and link of the devices of a source. -/
def hubDevices : SourceConf → List (ℤ × String)
  | .nd45 c | .huawei c => [(c.unitId, c.hubLink)]
  | .etango c => c.devices.map fun device => (device.unitId, device.hubLink)

/-- The link of a device. -/
theorem hubLinks_getD {source : SourceConf} {i : ℕ} {device : ℤ × String}
    (h : (hubDevices source)[i]? = some device) : (hubLinks source)[i]?.getD "" = device.2 := by
  have hmap : hubLinks source = (hubDevices source).map Prod.snd := by
    cases source <;> simp [hubLinks, hubDevices, Function.comp_def]
  rw [hmap, List.getElem?_map, h]
  rfl

theorem blocksForSource_eq {type : SourceType} {side : SourceSide}
    (hcov : validateCoverage type side = .ok ()) (unitId : ℤ) (link : String) :
    blocksForSource type side unitId link =
      .ok ((requestsOf type side unitId).map (·.block link)) := by
  cases type with
  | nd45 => rfl
  | huawei =>
    have hne := readGroups_of_huawei hcov
    simp [blocksForSource, requestsOf, hne, Request.block, Function.comp_def]
  | etango =>
    have hne := readGroups_of_etango hcov
    simp [blocksForSource, requestsOf, hne, Request.block, Function.comp_def]

theorem deviceBlocks_eq {name : String} {side : SourceSide}
    (hcov : validateCoverage .etango side = .ok ()) : ∀ {devices : List EtangoDeviceConf},
      (∀ device ∈ devices, device.hubLink ≠ "") →
        deviceBlocks name side devices = .ok (devices.flatMap fun device =>
          (requestsOf .etango side device.unitId).map (·.block device.hubLink))
  | [], _ => rfl
  | device :: devices, h => by
    obtain ⟨hd, hds⟩ := List.forall_mem_cons.1 h
    rw [deviceBlocks, if_neg hd, blocksForSource_eq hcov, deviceBlocks_eq hcov hds]
    rfl

/-- A source behind the hub has a link for every device. -/
theorem hubLink_ne {source : SourceConf} (hvia : source.base.viaHub = true) :
    ∀ device ∈ hubDevices source, device.2 ≠ "" := by
  have single : ∀ c : SingleHostSourceConf, c.viaHub = true → c.hubLink ≠ "" := by
    intro c hc hlink
    have h := c.ok
    unfold SourceConfBase.check at h
    simp [hc, hlink] at h
  cases source with
  | nd45 c | huawei c => simpa [hubDevices] using single c hvia
  | etango c =>
    have h := c.devicesOk
    unfold checkDevices at h
    split_ifs at h with h1 h2 h3 h4
    have hlinks : ∀ device ∈ c.devices, device.hubLink ≠ "" := by
      intro device hd hlink
      refine h3 ⟨hvia, List.any_eq_true.2 ⟨device, hd, ?_⟩⟩
      simpa using hlink
    simpa [hubDevices] using hlinks

/-- The blocks subscribed are those of the reads of every device. -/
theorem subscribedBlocks_eq (name : String) {source : SourceConf} {side : SourceSide}
    (hvia : source.base.viaHub = true) (hcov : validateCoverage source.type side = .ok ()) :
    subscribedBlocks name source side = .ok ((hubDevices source).flatMap fun device =>
      (requestsOf source.type side device.1).map (·.block device.2)) := by
  have hlinks := hubLink_ne hvia
  cases source with
  | nd45 c | huawei c =>
    have hlink : c.hubLink ≠ "" := by simpa [hubDevices] using hlinks
    simpa [subscribedBlocks, hlink, SourceConf.type, hubDevices] using
      blocksForSource_eq hcov c.unitId c.hubLink
  | etango c =>
    have hlink : ∀ device ∈ c.devices, device.hubLink ≠ "" := by
      simpa [hubDevices] using hlinks
    simp [subscribedBlocks, deviceBlocks_eq hcov hlink, hubDevices, List.flatMap_map,
      SourceConf.type]

/-! ## A poll reads what is subscribed -/

theorem readBlock_congr {client client' : Client} {n : ℕ} {req : Request}
    (h : client n req = client' n req) (readError : Response → PollError)
    (shortRead : ℕ → PollError) :
    readBlock client n req readError shortRead = readBlock client' n req readError shortRead := by
  rw [readBlock, readBlock, h]

theorem mem_of_mem_zipIdx {α : Type} {xs : List α} {e : α × ℕ} (h : e ∈ xs.zipIdx) :
    e.1 ∈ xs :=
  List.mem_of_getElem? (List.mem_zipIdx_iff_getElem?.1 h)

/-- The blocks of an ND45 depend on the answers to its reads alone. -/
theorem nd45_readGroups_congr {client client' : Client} {side : SourceSide} {slave : ℤ}
    (h : ∀ n, ∀ req ∈ requestsOf .nd45 side slave, client n req = client' n req) :
    Nd45.readGroups client slave = Nd45.readGroups client' slave := by
  refine Except.mapM_congr fun e he => ?_
  obtain ⟨⟨base, count⟩, n⟩ := e
  have hmem := List.mem_map_of_mem (f := fun g : ℤ × ℕ =>
    (⟨.holding, g.1, g.2, slave⟩ : Request)) (mem_of_mem_zipIdx he)
  dsimp only
  rw [readBlock_congr (h n _ hmem)]

/-- The declared blocks depend on the answers to their reads alone. -/
theorem readDeclaredGroups_congr {client client' : Client} {type : SourceType}
    (htype : type ≠ .nd45) {side : SourceSide} {slave : ℤ}
    (h : ∀ n, ∀ req ∈ requestsOf type side slave, client n req = client' n req)
    (readError : ℤ → ℤ → Response → PollError) (shortRead : ℤ → ℤ → ℕ → ℕ → PollError) :
    readDeclaredGroups client type.functionCode side slave readError shortRead =
      readDeclaredGroups client' type.functionCode side slave readError shortRead := by
  refine Except.mapM_congr fun e he => ?_
  obtain ⟨group, n⟩ := e
  have hmem : (⟨type.functionCode, group.base + side.addressOffset, group.count,
      group.unitId.getD slave⟩ : Request) ∈ requestsOf type side slave := by
    have hg : group ∈ side.readGroups.getD [] := mem_of_mem_zipIdx he
    cases type with
    | nd45 => exact absurd rfl htype
    | huawei | etango => exact List.mem_map.2 ⟨group, hg, rfl⟩
  dsimp only
  rw [readBlock_congr (h n _ hmem)]

/-! ## What the hub has delivered -/

/-- Every subscribed block has come, the stream is up and they are fresh, and whatever came
carries the registers of the devices' images. -/
structure HubDelivered (source : SourceConf) (images : ℕ → Image) (blocks : List BlockKey)
    (events : List HubEvent) (conn : HubConnection) : Prop where
  delivered : ∀ key ∈ blocks, ∃ u, HubEvent.deliver u ∈ events ∧ u.key = key
  carries : ∀ u, HubEvent.deliver u ∈ events → u.error = "" ∧
    ∀ i device fc, (hubDevices source)[i]? = some device → u.key.link = device.2 →
      u.key.fc = fc.code →
        u.registers = regsAt (images i) fc u.key.unitId u.key.base u.key.count.toNat
  up : conn.cache.streamError = none
  fresh : ∀ e ∈ conn.cache.entries.entries, e.1 ∈ blocks →
    ((conn.now - e.2.receivedAt : Time) : TimeLimit) ≤ conn.cache.maxStaleS

theorem mem_of_findRev? {α : Type} {p : α → Bool} {xs : List α} {x : α}
    (h : xs.findRev? p = some x) : x ∈ xs ∧ p x = true := by
  rw [List.findRev?_eq_find?_reverse] at h
  exact ⟨List.mem_reverse.1 (List.mem_of_find?_eq_some h), List.find?_some h⟩

/-- The cache has an entry of every delivered key, received when it came last. -/
theorem exists_entry_of_delivered {maxStaleS : TimeLimit} {start : Time} {events : List HubEvent}
    {conn : HubConnection} (h : Tracks maxStaleS start events conn) {u : BlockUpdate}
    (hu : HubEvent.deliver u ∈ events) :
    ∃ entry, (u.key, entry) ∈ conn.cache.entries.entries := by
  obtain ⟨d, hd, rfl⟩ := exists_delivery_iff.2 hu
  cases hf : (deliveries start events).findRev? (·.update.key = d.update.key) with
  | none =>
    have := Latest.findRev?_eq_none_iff.1 hf d hd
    simp at this
  | some d' =>
    refine ⟨d'.entry, Dict.get?_eq_some_iff.1 ?_⟩
    rw [h.entry, hf]
    rfl

/-- What the cache has was delivered. -/
theorem exists_deliver_of_entry {maxStaleS : TimeLimit} {start : Time} {events : List HubEvent}
    {conn : HubConnection} (h : Tracks maxStaleS start events conn) {key : BlockKey}
    {entry : Entry} (he : (key, entry) ∈ conn.cache.entries.entries) :
    ∃ d ∈ deliveries start events, d.update.key = key ∧ d.entry = entry := by
  have hget := Dict.get?_eq_some_iff.2 he
  rw [h.entry] at hget
  obtain ⟨d, hd, hentry⟩ := Option.map_eq_some_iff.1 hget
  obtain ⟨hmem, hkey⟩ := mem_of_findRev? hd
  exact ⟨d, hmem, of_decide_eq_true hkey, hentry⟩

/-- Where an update covers a read of a device, it has the registers of the device's image. -/
theorem registersAt_of_covers {source : SourceConf} {images : ℕ → Image} {blocks : List BlockKey}
    {events : List HubEvent} {conn : HubConnection}
    (hd : HubDelivered source images blocks events conn) {i : ℕ} {device : ℤ × String}
    (hdevice : (hubDevices source)[i]? = some device) {d : Delivery}
    (hdel : HubEvent.deliver d.update ∈ events) {fc : FunctionCode} {slave addr : ℤ} {count : ℕ}
    (hcov : d.covers device.2 slave fc.code addr count = true) :
    d.registersAt addr count = regsAt (images i) fc slave addr count := by
  obtain ⟨-, hregs⟩ := hd.carries d.update hdel
  simp only [Delivery.covers, BlockKey.covers, Bool.and_eq_true, decide_eq_true_eq] at hcov
  obtain ⟨⟨⟨⟨hlink, hunit⟩, hfc⟩, hbase⟩, hend⟩ := hcov
  have hcount : ((d.update.key.count.toNat : ℕ) : ℤ) = d.update.key.count :=
    Int.toNat_of_nonneg (by omega)
  have hslice := @slice_regsAt (images i) fc d.update.key.unitId d.update.key.base
    (addr - d.update.key.base) d.update.key.count.toNat count (by omega) (by omega)
  rwa [← hregs i device fc hdevice hlink hfc, add_sub_cancel, hunit] at hslice

/-- A read of a subscribed block answers with the registers of the device's image. -/
theorem read_of_delivered {maxStaleS : TimeLimit} {start : Time} {events : List HubEvent}
    {conn : HubConnection} (h : Tracks maxStaleS start events conn) {source : SourceConf}
    {images : ℕ → Image} {blocks : List BlockKey}
    (hd : HubDelivered source images blocks events conn) {i : ℕ} {device : ℤ × String}
    (hdevice : (hubDevices source)[i]? = some device) {req : Request}
    (hreq : req.block device.2 ∈ blocks) :
    conn.read device.2 req.fc.code req.address req.count req.slave =
      ⟨regsAt (images i) req.fc req.slave req.address req.count, none⟩ := by
  obtain ⟨u, hu, hkey⟩ := hd.delivered _ hreq
  obtain ⟨entry₀, hentry₀⟩ := exists_entry_of_delivered h hu
  rw [hkey] at hentry₀
  have hcov₀ : (req.block device.2).covers device.2 req.slave req.fc.code req.address
      req.count = true := by
    simp [Request.block, BlockKey.covers]
  have hmem₀ : (req.block device.2, entry₀) ∈ conn.cache.entries.entries.filter
      (·.1.covers device.2 req.slave req.fc.code req.address req.count) :=
    List.mem_filter.2 ⟨hentry₀, hcov₀⟩
  cases hb : conn.cache.best device.2 req.slave req.fc.code req.address req.count with
  | none =>
    rw [BlockCache.best, List.argmax_eq_none] at hb
    rw [hb] at hmem₀
    exact absurd hmem₀ List.not_mem_nil
  | some e =>
    obtain ⟨key, entry⟩ := e
    have hle : entry₀.receivedAt ≤ entry.receivedAt := by
      simpa using List.le_of_mem_argmax hmem₀ (Option.mem_def.2 hb)
    obtain ⟨hmem, hcov⟩ := List.mem_filter.1 (List.argmax_mem (Option.mem_def.2 hb))
    obtain ⟨d, hdmem, rfl, rfl⟩ := exists_deliver_of_entry h hmem
    have hdel : HubEvent.deliver d.update ∈ events := exists_delivery_iff.1 ⟨d, hdmem, rfl⟩
    have hfresh : ((conn.now - d.receivedAt : Time) : TimeLimit) ≤ conn.cache.maxStaleS := by
      rw [Delivery.receivedAt_entry] at hle
      refine le_trans (WithTop.coe_le_coe.2 ?_) (hd.fresh _ hentry₀ hreq)
      exact sub_le_sub_left hle conn.now
    have hread : conn.read device.2 req.fc.code req.address req.count req.slave =
        ⟨d.registersAt req.address req.count, none⟩ :=
      BlockCache.lookup_of_best hd.up hb (hd.carries _ hdel).1 hfresh
    rw [hread, registersAt_of_covers hd hdevice hdel hcov]

section Float

variable [FloatArith]

/-- A poll depends on the answers to its reads of each device alone. -/
theorem pollOnceFn_congr {source : SourceConf} {side : SourceSide} {conn conn' : ℕ → Client}
    (h : ∀ i device, (hubDevices source)[i]? = some device → ∀ n,
      ∀ req ∈ requestsOf source.type side device.1, conn i n req = conn' i n req)
    (seen : Option (Finset String)) :
    pollOnceFn source.type (makeClient source conn) side source.unitId seen =
      pollOnceFn source.type (makeClient source conn') side source.unitId seen := by
  cases source with
  | nd45 c =>
    have hread : Nd45.readGroups (conn 0) c.unitId = Nd45.readGroups (conn' 0) c.unitId :=
      nd45_readGroups_congr (h 0 _ rfl)
    change Nd45.pollOnce (conn 0) side c.unitId seen = Nd45.pollOnce (conn' 0) side c.unitId seen
    rw [Nd45.pollOnce, Nd45.pollOnce, hread]
  | huawei c =>
    have hread : Huawei.readGroups (conn 0) side c.unitId =
        Huawei.readGroups (conn' 0) side c.unitId :=
      @readDeclaredGroups_congr _ _ .huawei (by simp) _ _ (h 0 _ rfl) _ _
    change Huawei.pollOnce (conn 0) side c.unitId seen =
      Huawei.pollOnce (conn' 0) side c.unitId seen
    rw [Huawei.pollOnce, Huawei.pollOnce, hread]
  | etango c =>
    have hvalues : (makeClient (.etango c) conn).devices.mapM (Etango.deviceValues side) =
        (makeClient (.etango c) conn').devices.mapM (Etango.deviceValues side) := by
      refine List.mapM_map.trans (Eq.trans ?_ List.mapM_map.symm)
      refine Except.mapM_congr fun device hdevice => ?_
      have hread : Etango.readGroups (conn device.2) side device.1.unitId device.1.host =
          Etango.readGroups (conn' device.2) side device.1.unitId device.1.host := by
        refine @readDeclaredGroups_congr _ _ .etango (by simp) _ _ ?_ _ _
        refine h device.2 (device.1.unitId, device.1.hubLink) ?_
        simp [hubDevices, List.mem_zipIdx_iff_getElem?.1 hdevice]
      simp only [Function.comp_apply, Etango.deviceValues, hread]
    change Etango.pollOnce (makeClient (.etango c) conn) side c.unitId seen =
      Etango.pollOnce (makeClient (.etango c) conn') side c.unitId seen
    simp only [Etango.pollOnce, Etango.aggregating_makeClient, hvalues]

/-! ## A poll that returns was answered -/

/-- A read comes back without an error. -/
def Answered (client : Client) (n : ℕ) (req : Request) : Prop :=
  ∃ rr, client n req = .ok rr ∧ rr.isError = false

omit [FloatArith] in
theorem answered_of_readBlock {client : Client} {n : ℕ} {req : Request}
    {readError : Response → PollError} {shortRead : ℕ → PollError} {regs : List ℕ}
    (h : readBlock client n req readError shortRead = .ok regs) : Answered client n req := by
  unfold readBlock at h
  split at h
  next => cases h
  next rr hrr =>
    split_ifs at h with herror
    exact ⟨rr, hrr, by simpa using herror⟩

omit [FloatArith] in
/-- Blocks that were all read were all answered. -/
theorem answered_of_mapM {α β : Type} {client : Client} {xs : List α} {req : α → Request}
    {read : α × ℕ → Except PyExc β} {blocks : List β}
    (hread : ∀ x n b, read (x, n) = .ok b → Answered client n (req x))
    (h : xs.zipIdx.mapM read = .ok blocks) {n : ℕ} {r : Request}
    (hr : (xs.map req)[n]? = some r) : Answered client n r := by
  rw [List.getElem?_map] at hr
  obtain ⟨x, hx, rfl⟩ := Option.map_eq_some_iff.1 hr
  have hall := Except.exists_mapM_eq_ok.1 ⟨blocks, h⟩
  obtain ⟨b, hb⟩ := hall (x, n) (List.mem_zipIdx_iff_getElem?.2 hx)
  exact hread x n b hb

omit [FloatArith] in
theorem answered_of_readDeclaredGroups {client : Client} {type : SourceType}
    (htype : type ≠ .nd45) {side : SourceSide} {slave : ℤ}
    {readError : ℤ → ℤ → Response → PollError} {shortRead : ℤ → ℤ → ℕ → ℕ → PollError}
    {blocks : Blocks}
    (h : readDeclaredGroups client type.functionCode side slave readError shortRead = .ok blocks)
    {n : ℕ} {req : Request} (hreq : (requestsOf type side slave)[n]? = some req) :
    Answered client n req := by
  have hreq : ((side.readGroups.getD []).map fun group => (⟨type.functionCode,
      group.base + side.addressOffset, group.count, group.unitId.getD slave⟩ : Request))[n]? =
        some req := by
    rcases type
    · exact absurd rfl htype
    · exact hreq
    · exact hreq
  refine answered_of_mapM (fun group n b hb => ?_) h hreq
  obtain ⟨regs, hregs, -⟩ := Except.bind_eq_ok.1 hb
  exact answered_of_readBlock hregs

/-- A poll that returns has had an answer to each of its reads of every device. -/
theorem answered_of_isOk {source : SourceConf} {side : SourceSide} {conn : ℕ → Client}
    {seen : Option (Finset String)} {values : Sample}
    (h : (pollOnceFn source.type (makeClient source conn) side source.unitId seen).result =
      .ok values)
    {i : ℕ} {device : ℤ × String} (hdevice : (hubDevices source)[i]? = some device) {n : ℕ}
    {req : Request} (hreq : (requestsOf source.type side device.1)[n]? = some req) :
    Answered (conn i) n req := by
  rcases source with c | c | c
  · obtain ⟨rfl, rfl⟩ : i = 0 ∧ (c.unitId, c.hubLink) = device := by
      simpa [hubDevices, List.getElem?_singleton] using hdevice
    have h : (Nd45.pollOnce (conn 0) side c.unitId seen).result = .ok values := h
    unfold Nd45.pollOnce at h
    split at h
    next => cases h
    next groups hr =>
      have hreq : (Nd45.READ_GROUPS.map fun group =>
        (⟨.holding, group.1, group.2, c.unitId⟩ : Request))[n]? = some req := hreq
      refine answered_of_mapM (fun group n b hb => ?_) hr hreq
      obtain ⟨regs, hregs, -⟩ := Except.bind_eq_ok.1 hb
      exact answered_of_readBlock hregs
  · obtain ⟨rfl, rfl⟩ : i = 0 ∧ (c.unitId, c.hubLink) = device := by
      simpa [hubDevices, List.getElem?_singleton] using hdevice
    have h : (Huawei.pollOnce (conn 0) side c.unitId seen).result = .ok values := h
    unfold Huawei.pollOnce at h
    split at h
    next => cases h
    next groups hr =>
      exact @answered_of_readDeclaredGroups _ .huawei (by simp) _ _ _ _ _ hr _ _ hreq
  · have h : (Etango.pollOnce (makeClient (.etango c) conn) side c.unitId seen).result =
      .ok values := h
    obtain ⟨perDevice, hdevices, -⟩ := Except.bind_eq_ok.1 h
    have hall := Except.exists_mapM_eq_ok.1 ⟨perDevice, hdevices⟩
    rw [hubDevices, List.getElem?_map] at hdevice
    obtain ⟨d, hd, rfl⟩ := Option.map_eq_some_iff.1 hdevice
    have hmem : (d, i) ∈ c.devices.zipIdx := List.mem_zipIdx_iff_getElem?.2 hd
    obtain ⟨values', hvalues⟩ := hall _ (List.mem_map_of_mem hmem)
    obtain ⟨groups, hr, -⟩ := Except.bind_eq_ok.1 hvalues
    exact @answered_of_readDeclaredGroups _ .etango (by simp) _ _ _ _ _ hr _ _ hreq

/-- Behind the hub, a source subscribes what its polls read and nothing else answers them.
Once every subscribed block has come with the registers of an image, with the stream up and
all of them fresh, a poll through the hub has the outcome of a poll of the devices. -/
theorem poll_hub_eq_direct (name : String) {source : SourceConf} {side : SourceSide}
    (hvia : source.base.viaHub = true) (hcov : validateCoverage source.type side = .ok ())
    (start : Time) :
    ∃ conn₀, makeHubConnection name source side start = .ok conn₀ ∧
      (∀ events conn, (hubSystem conn₀).run events conn₀ = some conn →
        ∀ images, HubDelivered source images conn₀.blocks events conn → ∀ seen,
          pollOnceFn source.type (makeHubClient source conn) side source.unitId seen =
            pollOnceFn source.type (makeClient source fun i => imageClient (images i)) side
              source.unitId seen) ∧
      ∀ conn conn' : ℕ → Client,
        (∀ i device, (hubDevices source)[i]? = some device → ∀ n req,
          req.block device.2 ∈ conn₀.blocks → conn i n req = conn' i n req) → ∀ seen,
            pollOnceFn source.type (makeClient source conn) side source.unitId seen =
              pollOnceFn source.type (makeClient source conn') side source.unitId seen := by
  have hblocks := subscribedBlocks_eq name hvia hcov
  have hsub : ∀ {i : ℕ} {device}, (hubDevices source)[i]? = some device →
      ∀ req ∈ requestsOf source.type side device.1, req.block device.2 ∈
        (hubDevices source).flatMap fun device =>
          (requestsOf source.type side device.1).map (·.block device.2) := by
    intro i device hdevice req hreq
    exact List.mem_flatMap.2 ⟨device, List.mem_of_getElem? hdevice, List.mem_map_of_mem hreq⟩
  refine ⟨_, by rw [makeHubConnection, hblocks]; rfl, ?_, ?_⟩
  · intro events conn hrun images hd seen
    have htracks := tracks_run hrun
    refine pollOnceFn_congr (fun i device hdevice n req hreq => ?_) seen
    rw [hubLinks_getD hdevice, hubClient,
      read_of_delivered htracks hd hdevice (hsub hdevice req hreq)]
    rfl
  · intro conn conn' h seen
    refine pollOnceFn_congr (fun i device hdevice n req hreq => ?_) seen
    exact h i device hdevice n req (hsub hdevice req hreq)

end Float

theorem hubInterval_pos : (0 : Time) < 3 / 10 := by
  norm_num

theorem hubTimeout_pos : (0 : Time) < 1 := by
  norm_num

theorem hubStallTimeout_pos : (0 : Time) < 30 := by
  norm_num

/-- An ND45 behind the hub. -/
def hubConf : SourceConf := .nd45
  { pollIntervalS := 3 / 10, timeoutS := 1, stallTimeoutS := 30, registerMap := "nd45_source"
    viaHub := true, hubLink := "meter", host := "nd45", unitId := 1
    pollInterval_pos := hubInterval_pos, timeout_pos := hubTimeout_pos
    stallTimeout_pos := hubStallTimeout_pos, ok := by decide +kernel }

/-- Its blocks on the wire. -/
def meterKeys : List BlockKey := [⟨"meter", 1, 3, 50, 96⟩, ⟨"meter", 1, 3, 818, 2⟩,
  ⟨"meter", 1, 3, 900, 96⟩]

/-- The hub delivers each of them once, with zeros. -/
def zeroUpdates : List HubEvent :=
  .connect :: meterKeys.map fun key => .deliver ⟨key, List.replicate key.count.toNat 0, ""⟩

/-- A poll through that hub is a poll of a device of zeros. -/
theorem poll_hub_eq_direct_zeros : ∃ conn,
    (hubSystem (.new meterKeys 1 1 30 0)).run zeroUpdates (.new meterKeys 1 1 30 0) = some conn ∧
    @pollOnceFn .double .nd45 (makeHubClient hubConf conn) freqSource 1 none =
      @pollOnceFn .double .nd45 (makeClient hubConf fun _ => imageClient zeroImage) freqSource 1
        none := by
  have hcov : validateCoverage hubConf.type freqSource = .ok () := by rfl
  have hconn : makeHubConnection "bridge" hubConf freqSource 0 = .ok (.new meterKeys 1 1 30 0) := by
    have hstale : stalenessThreshold (3 / 10) 1 = 1 := by decide +kernel
    exact congrArg (fun t => Except.ok (HubConnection.new meterKeys t 1 30 0)) hstale
  obtain ⟨conn₀, h₀, hpoll, -⟩ := @poll_hub_eq_direct .double "bridge" hubConf freqSource rfl
    hcov 0
  obtain rfl := Except.ok.inj (hconn.symm.trans h₀)
  refine ⟨_, rfl, hpoll zeroUpdates _ rfl (fun _ => zeroImage) ⟨?_, ?_, rfl, ?_⟩ none⟩
  · intro key hkey
    exact ⟨_, List.mem_cons_of_mem _ (List.mem_map_of_mem hkey), rfl⟩
  · intro u hu
    obtain ⟨key, -, hu⟩ := List.mem_map.1 ((List.mem_cons.1 hu).resolve_left nofun)
    obtain rfl := HubEvent.deliver.inj hu
    exact ⟨rfl, fun _ _ _ _ _ _ => (regsAt_zeroImage _ _ _ _).symm⟩
  · rintro e (_ | ⟨_, _ | ⟨_, _ | ⟨_, ⟨⟩⟩⟩⟩) -
    all_goals decide +kernel

end DtsuBridge
