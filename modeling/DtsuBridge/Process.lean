import DtsuBridge.FailSafe
import DtsuBridge.HttpLayer
import DtsuBridge.Lib.Interleave
import DtsuBridge.RegisterTrace

/-!
# The bridges of a process and their health

A process runs the bridges that `build_pipeline` builds side by side under one clock, and its
exporter reads all of them. The stop event is set in each of them by an action of its own, in any
order.

`health_truthful` : what `/healthz` answers at any reading of the clock is the freshness of what
the bridges have published. Of a bridge that it says is fresh the registers are the image of a
sample no older than its maximum age. A bridge that it says is stale holds no server at the end of
any later iteration of its supervisor, until it publishes again.
-/

namespace DtsuBridge

/-! ## The bridges of a process -/

/-- The clock readings of an event, in order. -/
def BridgeEvent.readings : BridgeEvent → List Time
  | .cycle _ _ ts _ => [ts]
  | .check t _ => [t]
  | .poller _ | .server _ => []

/-- What `build_pipeline` has built. -/
structure Process where
  config : AppConfig
  registers : RegisterMap
  only : Option String
  bridges : List BuiltBridge
  selected : config.selectSpecs only = .ok (bridges.map (·.spec))
  shared : ∀ b ∈ bridges, b.registers = registers

/-- One of its bridges. -/
abbrev Process.bridge (p : Process) (i : Fin p.bridges.length) : BuiltBridge :=
  p.bridges[i]

/-- A bridge whose source is found and validated can be built. -/
theorem exists_built {registers : RegisterMap} : ∀ {specs : List BridgeConf},
    (∀ spec ∈ specs, checkSource registers spec = .ok ()) →
      ∃ bridges : List BuiltBridge, bridges.map (·.spec) = specs ∧
        ∀ b ∈ bridges, b.registers = registers
  | [], _ => ⟨[], rfl, by simp⟩
  | spec :: specs, h => by
    obtain ⟨hspec, hspecs⟩ := List.forall_mem_cons.1 h
    obtain ⟨side, hside, hcovered⟩ := Except.bind_eq_ok.1 hspec
    obtain ⟨bridges, hmap, hregisters⟩ := exists_built hspecs
    exact ⟨⟨spec, registers, side, hside, hcovered⟩ :: bridges, congrArg (spec :: ·) hmap,
      List.forall_mem_cons.2 ⟨rfl, hregisters⟩⟩

/-- The bridges of a pipeline that is built are those of a process. -/
theorem exists_process {config : AppConfig} {registers : RegisterMap} {activity : Option Recorder}
    {only : Option String} {runtimes : List BridgeRuntime}
    (h : buildPipeline config registers activity only = .ok runtimes) :
    ∃ p : Process, p.config = config ∧ p.registers = registers ∧ p.only = only ∧
      p.bridges.map (·.spec) = runtimes.map (·.spec) := by
  obtain ⟨specs, hspecs, h⟩ := Except.bind_eq_ok.1 h
  obtain ⟨units, hunits, h⟩ := Except.bind_eq_ok.1 h
  obtain rfl := Except.ok.inj h
  have hsources : ∀ spec ∈ specs, checkSource registers spec = .ok () := by
    intro spec hspec
    obtain ⟨⟨⟩, hok⟩ := Except.exists_mapM_eq_ok.1 ⟨units, hunits⟩ spec hspec
    exact hok
  obtain ⟨bridges, rfl, hregisters⟩ := exists_built hsources
  refine ⟨⟨config, registers, only, bridges, hspecs, hregisters⟩, rfl, rfl, rfl, ?_⟩
  rw [List.map_map]
  exact (List.zipIdx_map_fst 0 (bridges.map (·.spec))).symm

section Float

variable [FloatArith]

/-- A bridge and what its events read. -/
def clockedBridge (conf : BridgeSetup) : Clocked Bridge BridgeEvent Time where
  toSystem := bridgeSystem conf
  readings := BridgeEvent.readings
  past s t := s.clock ≤ t

namespace Process

variable (p : Process)

/-- The states of the bridges and the latest reading of their clock. -/
abbrev State (p : Process) : Type := (Fin p.bridges.length → Bridge) × Time

def system : System p.State (Fin p.bridges.length × BridgeEvent) :=
  Clocked.interleave fun i => clockedBridge (p.bridge i).setup

/-- Every bridge is started at one reading. -/
def initial (t : Time) : p.State :=
  (fun i => {
    poller := .initial false t
    served := ⟨bridgeContext (p.bridge i).setup.registers (p.bridge i).setup.dtsu, {}⟩
    clock := t }, t)

theorem init_initial (t : Time) : p.system.init (p.initial t) :=
  fun _ => ⟨⟨_, _, ⟨false, t, rfl⟩, rfl⟩, le_rfl⟩

/-- What the exporter reads of a bridge besides the state of its supervisors. -/
structure Counters where
  pollStats : PollStats := {}
  activity : Option RtuActivity := none
  wire : Option WireActivity := none
  connected : Option Bool := none

/-- The bridges as the exporter reads them. -/
def exported (s : Fin p.bridges.length → Bridge) (counters : Fin p.bridges.length → Counters) :
    List ExportedBridge :=
  List.ofFn fun i => {
    spec := (p.bridge i).spec
    store := (s i).served.store
    pollStats := (counters i).pollStats
    serverStatus := (s i).supervisor.status
    recovery := (s i).poller.recovery
    activity := (counters i).activity
    wire := (counters i).wire
    heartbeat := some (s i).poller.heartbeat
    connected := (counters i).connected }

omit [FloatArith] in
theorem exported_selected (s : Fin p.bridges.length → Bridge)
    (counters : Fin p.bridges.length → Counters) :
    p.config.selectSpecs p.only = .ok ((p.exported s counters).map (·.spec)) := by
  have hspecs : (p.exported s counters).map (·.spec) = p.bridges.map (·.spec) := by
    rw [exported, List.map_ofFn]
    exact List.ofFn_getElem_eq_map p.bridges (·.spec)
  rw [hspecs]
  exact p.selected

/-- The `MetricsSource` of `build_pipeline`. -/
def exporter (s : Fin p.bridges.length → Bridge) (counters : Fin p.bridges.length → Counters)
    (startedAt : Time) : Exporter where
  config := p.config
  registers := p.registers
  only := p.only
  bridges := p.exported s counters
  selected := p.exported_selected s counters
  watchdogHeartbeat := some (List.ofFn fun i => (s i).poller.heartbeat)
  startedAt := startedAt

end Process

/-! ## The health of the bridges -/

/-- The sample published last is no older than this. -/
def Bridge.freshAt (s : Bridge) (maxAge t : Time) : Bool :=
  s.published.getLast?.any fun pub => t - pub.ts ≤ maxAge

omit [FloatArith] in
theorem Bridge.freshAt_iff {s : Bridge} {maxAge t : Time} :
    s.freshAt maxAge t = true ↔ ∃ pub, s.published.getLast? = some pub ∧ t - pub.ts ≤ maxAge := by
  unfold freshAt
  rw [Option.any_eq_true]
  simp

/-- The store of a reachable bridge is as old as what it published last. -/
theorem shouldServe_eq_freshAt {conf : BridgeSetup} {s : Bridge}
    (h : (bridgeSystem conf).Reachable s) (maxAge t : Time) :
    decide (s.served.store.age t ≤ maxAge) = s.freshAt maxAge t := by
  rw [Bool.eq_iff_iff, decide_eq_true_iff, CanonicalStore.age_le_iff, Bridge.freshAt_iff,
    (reachable_guarded h).stamp]
  constructor
  · rintro ⟨ts, hts, hage⟩
    obtain ⟨pub, hpub, rfl⟩ := Option.map_eq_some_iff.1 hts
    exact ⟨pub, hpub, hage⟩
  · rintro ⟨pub, hpub, hage⟩
    exact ⟨pub.ts, by rw [hpub]; rfl, hage⟩

omit [FloatArith] in
/-- The answer is that every bridge is fresh, or names those that are not, in order. -/
theorem healthAnswer_cases (bridges : List ExportedBridge) (t : Time) :
    ((healthAnswer bridges t).status = 200 ∧ ∀ b ∈ bridges, b.fresh t = true) ∨
      (healthAnswer bridges t).status = 503 ∧ (∃ b ∈ bridges, b.fresh t = false) ∧
        ∃ detail, (healthAnswer bridges t).body =
          "stale: " ++ ", ".intercalate ((bridges.filter (!·.fresh t)).map (·.spec.name)) ++
            " (" ++ detail ++ ")\n" := by
  unfold healthAnswer
  dsimp only
  split_ifs with hstale
  · refine .inr ⟨rfl, ?_, _, rfl⟩
    obtain ⟨b, hb⟩ := List.exists_mem_of_ne_nil _ (mt List.map_eq_nil_iff.2 hstale)
    obtain ⟨hmem, hb⟩ := List.mem_filter.1 hb
    exact ⟨b, hmem, by simpa using hb⟩
  · refine .inl ⟨rfl, fun b hb => ?_⟩
    have hnil := List.map_eq_nil_iff.1 (not_not.1 hstale)
    simpa using List.filter_eq_nil_iff.1 hnil b hb

/-- A bridge that runs in a process. -/
theorem Process.reachable_bridge {p : Process} {s : p.State} (h : p.system.Reachable s)
    (i : Fin p.bridges.length) : (bridgeSystem (p.bridge i).setup).Reachable (s.1 i) :=
  Clocked.reachable_component h i

/-- The exporter finds fresh what is published. -/
theorem Process.fresh_exported {p : Process} {s : p.State} (h : p.system.Reachable s)
    (counters : Fin p.bridges.length → Counters) (t : Time) :
    (p.exported s.1 counters).map (fun b => (b.spec.name, b.fresh t)) =
      (List.finRange p.bridges.length).map fun i => ((p.bridge i).spec.name,
        (s.1 i).freshAt (p.bridge i).spec.safety.maxDataAgeS t) := by
  rw [exported, List.map_ofFn, List.ofFn_eq_map]
  refine List.map_congr_left fun i _ => ?_
  exact congrArg (Prod.mk _) (shouldServe_eq_freshAt (p.reachable_bridge h i) _ t)

/-- What a bridge serves is the image of what it has published last. -/
theorem served_of_freshAt {conf : BridgeSetup} {s : Bridge} (h : (bridgeSystem conf).Reachable s)
    {maxAge t : Time} (hfresh : s.freshAt maxAge t = true) :
    ∃ pub ws, s.published.getLast? = some pub ∧ t - pub.ts ≤ maxAge ∧
      targetWrites pub.values conf.ctRatio conf.registers.targetSides = .ok ws ∧
      (∃ before : Datastore, s.served.datastore = before.writeAll ws) ∧
      (PointsFit conf.registers.targetSides (bridgeContext conf.registers conf.dtsu).lengths →
        s.served.datastore = (bridgeContext conf.registers conf.dtsu).writeAll ws) := by
  obtain ⟨pub, hpub, hage⟩ := Bridge.freshAt_iff.1 hfresh
  have hg := (reachable_guarded h).registers
  have hlast : (s.published.map (·.values)).getLast? = some pub.values := by
    rw [List.getLast?_map, hpub]
    rfl
  obtain ⟨before, ws, hws, hd⟩ := publishAll_getLast hg hlast
  refine ⟨pub, ws, hpub, hage, hws, ⟨before, hd⟩, fun hfit => ?_⟩
  have := publishAll_eq hg hfit
  rw [hlast, sampleWrites] at this
  simpa only [hws] using this

/-- A bridge that is stale at a reading holds no server at the end of a later iteration, as long
as it has not published again. -/
theorem silent_of_stale {b : BuiltBridge} {s s' : Bridge}
    (h : (bridgeSystem b.setup).Reachable s') {t : Time}
    (hstale : s.freshAt b.spec.safety.maxDataAgeS t = false) (hpub : s'.published = s.published)
    {r : Time} {age : WithTop Time} (hpc : s'.supervisor.pc = .waiting r age) (hr : t ≤ r) :
    s'.supervisor.server = none := by
  by_contra hne
  obtain ⟨pub, ws, hlast, -, -, -, hage⟩ :=
    waiting_serves h hpc (Option.isSome_iff_ne_none.2 hne)
  have hfresh : s.freshAt b.spec.safety.maxDataAgeS t = true :=
    Bridge.freshAt_iff.2 ⟨pub, hpub ▸ hlast, (sub_le_sub_right hr _).trans hage⟩
  rw [hstale] at hfresh
  cases hfresh

/-- In every run of a process, at any reading of the clock, `/healthz` answers 200 where every
bridge has published a sample no older than its maximum age, and 503 with the names of the other
bridges where not. The registers of a fresh bridge are the image of that sample. A stale bridge
holds no server at the end of any later iteration of its supervisor, until it publishes again. -/
theorem health_truthful {p : Process} {s : p.State} (h : p.system.Reachable s)
    (counters : Fin p.bridges.length → Process.Counters) (startedAt t monoNow : Time) :
    let fresh i := (s.1 i).freshAt (p.bridge i).spec.safety.maxDataAgeS t
    ∃ answer, route (some "/healthz") (p.exporter s.1 counters startedAt) t monoNow = .ok answer ∧
      ((answer.status = 200 ∧ ∀ i, fresh i = true) ∨
        answer.status = 503 ∧ (∃ i, fresh i = false) ∧ ∃ detail, answer.body =
          "stale: " ++ ", ".intercalate (((List.finRange p.bridges.length).filter
            (!fresh ·)).map fun i => (p.bridge i).spec.name) ++ " (" ++ detail ++ ")\n") ∧
      (∀ i, fresh i = true → ∃ pub ws, (s.1 i).published.getLast? = some pub ∧
        t - pub.ts ≤ (p.bridge i).spec.safety.maxDataAgeS ∧
        targetWrites pub.values (p.bridge i).spec.ctRatio p.registers.targetSides = .ok ws ∧
        ∃ before : Datastore, (s.1 i).served.datastore = before.writeAll ws) ∧
      ∀ i, fresh i = false → ∀ as s', p.system.run as s = some s' →
        (s'.1 i).published = (s.1 i).published →
        ∀ r age, (s'.1 i).supervisor.pc = .waiting r age → t ≤ r →
          (s'.1 i).supervisor.server = none := by
  intro fresh
  have hfresh := p.fresh_exported h counters t
  have hroute : route (some "/healthz") (p.exporter s.1 counters startedAt) t monoNow =
      .ok (healthAnswer (p.exported s.1 counters) t) := by
    rw [route, if_neg (by decide), if_pos rfl]
    rfl
  have hflags : ∀ q : String × Bool, (∃ b ∈ p.exported s.1 counters, (b.spec.name, b.fresh t) = q) ↔
      ∃ i, ((p.bridge i).spec.name, fresh i) = q := by
    intro q
    rw [← List.mem_map, hfresh, List.mem_map]
    simp [fresh]
  refine ⟨_, hroute, ?_, fun i hi => ?_, fun i hi as s' hrun hpub r age hpc hr => ?_⟩
  · rcases healthAnswer_cases (p.exported s.1 counters) t with ⟨hstatus, hall⟩ |
      ⟨hstatus, ⟨b, hb, hstale⟩, detail, hbody⟩
    · refine .inl ⟨hstatus, fun i => ?_⟩
      obtain ⟨b, hb, heq⟩ := (hflags _).2 ⟨i, rfl⟩
      rw [← (Prod.mk.inj heq).2]
      exact hall b hb
    · obtain ⟨i, heq⟩ := (hflags _).1 ⟨b, hb, rfl⟩
      have hnames : ((p.exported s.1 counters).filter (!·.fresh t)).map (·.spec.name) =
          ((List.finRange p.bridges.length).filter (!fresh ·)).map
            fun i => (p.bridge i).spec.name := by
        have hfilter := congrArg (fun l => (l.filter (!·.2)).map Prod.fst) hfresh
        simp only [List.filter_map, List.map_map] at hfilter
        exact hfilter
      rw [hnames] at hbody
      exact .inr ⟨hstatus, ⟨i, (Prod.mk.inj heq).2.trans hstale⟩, detail, hbody⟩
  · obtain ⟨pub, ws, hlast, hage, hws, hbefore, -⟩ :=
      served_of_freshAt (p.reachable_bridge h i) hi
    have hregisters := p.shared _ (List.getElem_mem i.2)
    refine ⟨pub, ws, hlast, hage, ?_, hbefore⟩
    rw [← hregisters]
    exact hws
  · exact silent_of_stale (p.reachable_bridge (System.reachable_of_run h as hrun) i) hi hpub hpc hr

end Float

/-! ## Two bridges, the first of which has published -/

/-- The bridges of one process, of one ND45. -/
def apartBuilt (spec : BridgeConf) (h : spec.source = nd45Conf) : BuiltBridge where
  spec := spec
  registers := freqMap 102
  side := freqSource
  found := by rw [h]; rfl
  covered := by rw [h]; rfl

theorem source_apartApp : ∀ spec ∈ apartApp.bridges, spec.source = nd45Conf := by
  simp [apartApp, tcpBridge]

def apartProcess : Process where
  config := apartApp
  registers := freqMap 102
  only := none
  bridges := apartApp.bridges.pmap apartBuilt source_apartApp
  selected := rfl
  shared := by
    intro b hb
    obtain ⟨spec, hspec, rfl⟩ := List.mem_pmap.1 hb
    rfl

def mainIndex : Fin apartProcess.bridges.length := ⟨0, by decide⟩

def secondIndex : Fin apartProcess.bridges.length := ⟨1, by decide⟩

/-- The second is named, and the first is not. -/
theorem health_truthful_apartProcess : ∃ s, (@Process.system .double apartProcess).Reachable s ∧
    ∃ answer, @route .double (some "/healthz") (apartProcess.exporter s.1 (fun _ => {}) 0) 2 2 =
        .ok answer ∧
      answer.status = 503 ∧ ∃ detail, answer.body = "stale: second (" ++ detail ++ ")\n" := by
  have hrun : ((@Process.system .double apartProcess).run
      (onePoll.map (Prod.mk mainIndex)) (apartProcess.initial 0)).any (fun s =>
        (s.1 mainIndex).freshAt 3 2 && !(s.1 secondIndex).freshAt 3 2) = true := by
    decide +kernel
  obtain ⟨s, hs, hfresh⟩ := (Option.any_eq_true _ _).1 hrun
  rw [Bool.and_eq_true, Bool.not_eq_true'] at hfresh
  have hreach :=
    System.reachable_of_run (.init (@Process.init_initial .double apartProcess 0)) _ hs
  obtain ⟨answer, hroute, hanswer, -⟩ :=
    @health_truthful .double apartProcess s hreach (fun _ => {}) 0 2 2
  rcases hanswer with ⟨-, hall⟩ | ⟨hstatus, -, detail, hbody⟩
  · cases hfresh.2.symm.trans (hall secondIndex)
  · refine ⟨s, hreach, answer, hroute, hstatus, detail, hbody.trans ?_⟩
    have hfilter : (List.finRange apartProcess.bridges.length).filter (fun i => !(s.1 i).freshAt
        (apartProcess.bridge i).spec.safety.maxDataAgeS 2) = [secondIndex] := by
      have hrange : List.finRange apartProcess.bridges.length = [mainIndex, secondIndex] := rfl
      rw [hrange, List.filter_cons_of_neg, List.filter_cons_of_pos]
      · rfl
      · exact congrArg not hfresh.2
      · exact fun h => Bool.false_ne_true ((congrArg not hfresh.1).symm.trans h)
    rw [hfilter]
    rfl

end DtsuBridge
