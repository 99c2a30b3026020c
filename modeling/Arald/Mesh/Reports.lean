import Arald.Foundations.Newest
import Arald.Mesh.RelayPresence

/-!
# Reported positions and telemetry

`LocationRegistry.record` and `RelayRegistry.recordTelemetry`. Both keep one report
for each sender and replace it by a newer one only, and both count a report that
claims to come from the future as one made when it arrived.
-/

namespace Arald

open Foundations

/-! ### Positions -/

structure Position where
  lat : ℚ
  lon : ℚ
  accuracy : Option ℚ
  deriving DecidableEq

structure LocationReportPayload extends Position where
  timestamp : ℚ

structure LocationReport extends Position where
  reporterId : String
  timestamp : ℚ

structure LocationRegistry where
  reports : BoundedFifoMap String LocationReport

namespace LocationRegistry

/-- The score of a reporter, when the registry was given the trust in them. -/
def evictionScore (trustRank : Option (String → ℤ)) :
    Option (BoundedFifoMap.EvictionScore String LocationReport) :=
  trustRank.map fun rank reporterId _ => (rank reporterId : WithTop ℤ)

/-- What is kept of a report that arrives at `now`. -/
def filed (reporterId : String) (report : LocationReportPayload) (now : ℚ) : LocationReport where
  reporterId := reporterId
  lat := report.lat
  lon := report.lon
  accuracy := report.accuracy
  timestamp := min report.timestamp now

def record (r : LocationRegistry) (trustRank : Option (String → ℤ)) (reporterId : String)
    (report : LocationReportPayload) (now : ℚ) : LocationRegistry :=
  let timestamp := min report.timestamp now
  if (r.reports.get? reporterId).any fun existing => timestamp ≤ existing.timestamp then r
  else
    { r with reports :=
        r.reports.set (evictionScore trustRank) reporterId (filed reporterId report now) }

/-- The report on a reporter: where, and when. -/
def held (r : LocationRegistry) (reporterId : String) : Option (Position × ℚ) :=
  (r.reports.get? reporterId).map fun report => (report.toPosition, report.timestamp)

variable {r : LocationRegistry} {trustRank : Option (String → ℤ)} {reporterId other : String}
  {report : LocationReportPayload} {now : ℚ}

theorem maxSize_record : (r.record trustRank reporterId report now).reports.maxSize = r.reports.maxSize := by
  rw [record]
  split_ifs
  · rfl
  · exact BoundedFifoMap.maxSize_set _ _ _ _

/-- A report on the reporter itself is an offer to a register. -/
theorem held_record (hpos : 0 < r.reports.maxSize) :
    (r.record trustRank reporterId report now).held reporterId =
      keepNewest Prod.snd (r.held reporterId)
        (Reception.clamped ⟨report.toPosition, report.timestamp, now⟩) := by
  have hset : ∀ value : LocationReport,
      (r.reports.set (evictionScore trustRank) reporterId value).get? reporterId = some value :=
    fun value => BoundedFifoMap.get?_set_self _ _ _ hpos
  unfold record
  cases hget : r.reports.get? reporterId with
  | none =>
    have hnone : r.held reporterId = none := by rw [held, hget, Option.map_none]
    rw [if_neg (by simp), hnone, held, hset]
    rfl
  | some existing =>
    have hsome : r.held reporterId = some (existing.toPosition, existing.timestamp) := by
      rw [held, hget, Option.map_some]
    by_cases hold : min report.timestamp now ≤ existing.timestamp
    · have hany : (some existing).any (fun e => min report.timestamp now ≤ e.timestamp) = true :=
        decide_eq_true hold
      rw [if_pos hany, hsome]
      exact (keepNewest_of_le hold).symm
    · have hany : ¬(some existing).any (fun e => min report.timestamp now ≤ e.timestamp) = true :=
        mt of_decide_eq_true hold
      rw [if_neg hany, held, hset, hsome]
      refine (keepNewest_of_lt fun h hh => ?_).symm
      obtain rfl := Option.some_inj.mp hh
      exact not_le.mp hold

/-- A report on somebody else that does not evict the reporter. -/
theorem held_record_of_ne (hne : reporterId ≠ other)
    (hspared : r.reports.victim? (evictionScore trustRank) other ≠ some reporterId) :
    (r.record trustRank other report now).held reporterId = r.held reporterId := by
  rw [record]
  split_ifs
  · rfl
  · rw [held, BoundedFifoMap.get?_set_of_spared _ hne hspared, ← held]

end LocationRegistry

/-- A registry, and what it was told about one reporter. -/
structure LocationRun where
  registry : LocationRegistry
  received : List (Reception Position ℚ)

/-- A report arrives, when the node trusts its peers as `trustRank` says. -/
structure LocationEvent where
  reporterId : String
  report : LocationReportPayload
  now : ℚ
  trustRank : Option (String → ℤ)

namespace LocationRun

def reception (e : LocationEvent) : Reception Position ℚ := ⟨e.report.toPosition, e.report.timestamp, e.now⟩

def step (reporter : String) (s : LocationRun) (e : LocationEvent) : LocationRun where
  registry := s.registry.record e.trustRank e.reporterId e.report e.now
  received := if e.reporterId = reporter then s.received ++ [reception e] else s.received

/-- A registry that holds reports, none of them on the reporter yet. -/
def system (reporter : String) : System LocationRun LocationEvent where
  Init s := s.received = [] ∧ 0 < s.registry.reports.maxSize ∧ s.registry.reports.get? reporter = none
  step s e := some (s.step reporter e)

/-- The report on somebody else does not cost the reporter its entry. -/
def spares (reporter : String) (s : LocationRun) (e : LocationEvent) : Bool :=
  e.reporterId = reporter ∨ s.registry.reports.victim?
    (LocationRegistry.evictionScore e.trustRank) e.reporterId ≠ some reporter

variable {reporter : String} {s : LocationRun}

theorem held_eq_newest (h : (system reporter).ReachableUnder (fun s e => s.spares reporter e = true) s) :
    0 < s.registry.reports.maxSize ∧
      s.registry.held reporter = newest Prod.snd (s.received.map Reception.clamped) := by
  apply h.invariant (I := fun s => 0 < s.registry.reports.maxSize ∧
    s.registry.held reporter = newest Prod.snd (s.received.map Reception.clamped))
  · rintro s ⟨hnone, hpos, hnew⟩
    rw [hnone, LocationRegistry.held, hnew]
    exact ⟨hpos, rfl⟩
  · rintro s e s' ⟨hpos, hheld⟩ hspares hstep
    obtain rfl := Option.some_inj.mp hstep
    refine ⟨LocationRegistry.maxSize_record.symm ▸ hpos, ?_⟩
    unfold step
    dsimp only
    split_ifs with hid
    · rw [List.map_append, List.map_cons, List.map_nil, newest_concat, ← hheld, ← hid]
      exact LocationRegistry.held_record hpos
    · rw [← hheld]
      exact LocationRegistry.held_record_of_ne (Ne.symm hid) ((of_decide_eq_true hspares).resolve_left hid)

end LocationRun

/-! ### Telemetry -/

namespace RelayRegistry

/-- The telemetry of an entry: the battery level, and when it was reported. -/
def telemetryOf (entry : RelayEntry) : Option (ℚ × ℚ) :=
  entry.lastTelemetryAt.bind fun reportedAt => entry.batteryPercent.map fun level => (level, reportedAt)

def telemetry (r : RelayRegistry) (relayId : String) : Option (ℚ × ℚ) := (r.get relayId).bind telemetryOf

/-- An entry with a time of its last report has a level from it. -/
def Reported (entry : RelayEntry) : Prop := entry.lastTelemetryAt.isSome → entry.batteryPercent.isSome

/-- A report of the relay itself is an offer to a register. -/
theorem telemetry_recordTelemetry {r : RelayRegistry} {relayId : String} {entry : RelayEntry}
    (hentry : r.get relayId = some entry) (hreported : Reported entry) (batteryPercent timestamp now : ℚ) :
    ∃ entry', (r.recordTelemetry relayId batteryPercent timestamp now).get relayId = some entry' ∧
      Reported entry' ∧
      telemetryOf entry' =
        keepNewest Prod.snd (telemetryOf entry) (Reception.clamped ⟨batteryPercent, timestamp, now⟩) := by
  rw [recordTelemetry, get_update, if_pos rfl, hentry, Option.map_some]
  refine ⟨_, rfl, ?_⟩
  cases hlast : entry.lastTelemetryAt with
  | none =>
    have hnone : telemetryOf entry = none := by rw [telemetryOf, hlast, Option.bind_none]
    rw [if_neg (by simp), hnone]
    exact ⟨fun _ => rfl, rfl⟩
  | some last =>
    obtain ⟨level, hlevel⟩ := Option.isSome_iff_exists.mp (hreported (by rw [hlast]; rfl))
    have hsome : telemetryOf entry = some (level, last) := by
      rw [telemetryOf, hlast, hlevel]
      rfl
    by_cases hold : min timestamp now ≤ last
    · have hany : (some last).any (fun e => min timestamp now ≤ e) = true := decide_eq_true hold
      rw [if_pos hany, hsome]
      exact ⟨hreported, (keepNewest_of_le hold).symm⟩
    · have hany : ¬(some last).any (fun e => min timestamp now ≤ e) = true := mt of_decide_eq_true hold
      rw [if_neg hany, hsome]
      refine ⟨fun _ => rfl, (keepNewest_of_lt fun h hh => ?_).symm⟩
      obtain rfl := Option.some_inj.mp hh
      exact not_le.mp hold

/-- Registering a relay again keeps what it reported, and registering another one
that does not evict it leaves it alone. -/
theorem telemetry_upsert {r : RelayRegistry} {relayId : String} {entry : RelayEntry}
    (hentry : r.get relayId = some entry) (hreported : Reported entry) (fields : RelayStaticFields) (now : ℚ)
    (hspared : fields.relayId ≠ relayId → r.relays.victim? none fields.relayId ≠ some relayId) :
    ∃ entry', (r.upsert fields now).get relayId = some entry' ∧ Reported entry' ∧
      telemetryOf entry' = telemetryOf entry := by
  by_cases hid : fields.relayId = relayId
  · have hsame : r.relays.get? fields.relayId = some entry := hid ▸ hentry
    have hself : (r.upsert fields now).get fields.relayId = _ :=
      BoundedFifoMap.get?_set_self _ _ _ (BoundedFifoMap.maxSize_pos_of_get? hsame)
    rw [← hid]
    refine ⟨_, hself, ?_⟩
    rw [hsame]
    exact ⟨hreported, rfl⟩
  · have hkept : (r.upsert fields now).get relayId = r.get relayId :=
      BoundedFifoMap.get?_set_of_spared _ (Ne.symm hid) (hspared hid)
    exact ⟨entry, hkept.trans hentry, hreported, rfl⟩

/-- A change of the online status of any relay. -/
theorem telemetry_update {r : RelayRegistry} {relayId : String} {entry : RelayEntry}
    (hentry : r.get relayId = some entry) (hreported : Reported entry) (other : String)
    (f : RelayEntry → RelayEntry)
    (hf : relayId = other → (f entry).lastTelemetryAt = entry.lastTelemetryAt ∧
      (f entry).batteryPercent = entry.batteryPercent) :
    ∃ entry', (r.update other f).get relayId = some entry' ∧ Reported entry' ∧
      telemetryOf entry' = telemetryOf entry := by
  rw [get_update]
  split_ifs with hid
  · obtain ⟨hlast, hlevel⟩ := hf hid
    refine ⟨f entry, by rw [hentry, Option.map_some], ?_, ?_⟩
    · rw [Reported, hlast, hlevel]
      exact hreported
    · rw [telemetryOf, hlast, hlevel, ← telemetryOf]
  · exact ⟨entry, hentry, hreported, rfl⟩

end RelayRegistry

/-- A registry of relays, and what it was told about the battery of one of them. -/
structure TelemetryRun where
  registry : RelayRegistry
  received : List (Reception ℚ ℚ)

inductive TelemetryEvent where
  | telemetry (relayId : String) (batteryPercent timestamp now : ℚ)
  | registered (fields : RelayStaticFields) (now : ℚ)
  | online (relayId : String) (now : ℚ)
  | offline (relayId : String) (now : ℚ)

namespace TelemetryRun

def step (relay : String) (s : TelemetryRun) : TelemetryEvent → TelemetryRun
  | .telemetry relayId batteryPercent timestamp now =>
    { registry := s.registry.recordTelemetry relayId batteryPercent timestamp now
      received :=
        if relayId = relay then s.received ++ [⟨batteryPercent, timestamp, now⟩] else s.received }
  | .registered fields now => { s with registry := s.registry.upsert fields now }
  | .online relayId now => { s with registry := s.registry.markOnline relayId now }
  | .offline relayId now => { s with registry := s.registry.markOffline relayId now }

/-- The relay is registered, and has not reported yet. -/
def system (relay : String) : System TelemetryRun TelemetryEvent where
  Init s := s.received = [] ∧ ∃ entry, s.registry.get relay = some entry ∧ entry.lastTelemetryAt = none
  step s e := some (s.step relay e)

/-- The registration of another relay does not cost the relay its entry. -/
def spares (relay : String) (s : TelemetryRun) : TelemetryEvent → Bool
  | .registered fields _ =>
    fields.relayId = relay ∨ s.registry.relays.victim? none fields.relayId ≠ some relay
  | _ => true

variable {relay : String} {s : TelemetryRun}

/-- What the relay reported is in its entry. -/
structure Held (relay : String) (s : TelemetryRun) : Prop where
  entry : ∃ entry, s.registry.get relay = some entry ∧ RelayRegistry.Reported entry ∧
    RelayRegistry.telemetryOf entry = newest Prod.snd (s.received.map Reception.clamped)

theorem Held.step (h : Held relay s) {e : TelemetryEvent} (hspares : s.spares relay e = true) :
    Held relay (s.step relay e) := by
  obtain ⟨entry, hentry, hreported, hnewest⟩ := h.entry
  constructor
  cases e with
  | telemetry relayId batteryPercent timestamp now =>
    unfold TelemetryRun.step
    dsimp only
    split_ifs with hid
    · subst hid
      rw [List.map_append, List.map_cons, List.map_nil, newest_concat, ← hnewest]
      exact RelayRegistry.telemetry_recordTelemetry hentry hreported batteryPercent timestamp now
    · rw [← hnewest]
      exact RelayRegistry.telemetry_update hentry hreported relayId _ fun hsame => absurd hsame.symm hid
  | registered fields now =>
    have hkept := RelayRegistry.telemetry_upsert hentry hreported fields now
      fun hne => (of_decide_eq_true hspares).resolve_left hne
    rw [hnewest] at hkept
    exact hkept
  | online relayId now =>
    have hkept := RelayRegistry.telemetry_update hentry hreported relayId
      (fun entry => { entry with online := true, lastSeenAt := some now }) fun _ => ⟨rfl, rfl⟩
    rw [hnewest] at hkept
    exact hkept
  | offline relayId now =>
    have hkept := RelayRegistry.telemetry_update hentry hreported relayId
      (fun entry => { entry with online := false, lastSeenAt := some now }) fun _ => ⟨rfl, rfl⟩
    rw [hnewest] at hkept
    exact hkept

theorem telemetry_eq_newest (h : (system relay).ReachableUnder (fun s e => s.spares relay e = true) s) :
    s.registry.telemetry relay = newest Prod.snd (s.received.map Reception.clamped) := by
  have hheld : Held relay s := by
    apply h.invariant
    · rintro s ⟨hnone, entry, hentry, hlast⟩
      refine ⟨entry, hentry, fun hsome => ?_, ?_⟩
      · rw [hlast] at hsome
        cases hsome
      · rw [RelayRegistry.telemetryOf, hlast, hnone]
        rfl
    · intro s e s' hs hspares hstep
      obtain rfl := Option.some_inj.mp hstep
      exact hs.step hspares
  obtain ⟨entry, hentry, -, hnewest⟩ := hheld.entry
  rw [RelayRegistry.telemetry, hentry, ← hnewest]
  rfl

end TelemetryRun

/-! ### The newest report is held -/

/-- In every run in which no registration or report of others costs a sender its
entry, the registry of positions and that of relays hold the newest report of that
sender, one from the future counted as of its reception. -/
theorem newest_report_held :
    (∀ reporter s, (LocationRun.system reporter).ReachableUnder (fun s e => s.spares reporter e = true) s →
      HoldsNewest s.received (s.registry.held reporter)) ∧
    ∀ relay s, (TelemetryRun.system relay).ReachableUnder (fun s e => s.spares relay e = true) s →
      HoldsNewest s.received (s.registry.telemetry relay) :=
  ⟨fun _ _ h => .of_eq (LocationRun.held_eq_newest h).2,
    fun _ _ h => .of_eq (TelemetryRun.telemetry_eq_newest h)⟩

namespace LocationRun

def place (lat : ℚ) : Position := ⟨lat, 7, none⟩

/-- A reporter says where it is at the time `timestamp`. -/
def report (lat timestamp now : ℚ) : LocationEvent :=
  ⟨"walker", { place lat with timestamp }, now, none⟩

def start : LocationRun := ⟨⟨.empty (2 : ℤ)⟩, []⟩

theorem start_init : (system "walker").Init start := ⟨rfl, by decide, rfl⟩

/-- The later of two reports is held, though it came first. -/
theorem newest_report_held_late :
    ∃ s, (system "walker").runUnder (spares "walker") start [report 46 60 100, report 45 50 110] = some s ∧
      s.registry.held "walker" = some (place 46, 60) := by
  have hrun : ((system "walker").runUnder (spares "walker") start
      [report 46 60 100, report 45 50 110]).map LocationRun.received =
        some [⟨place 46, 60, 100⟩, ⟨place 45, 50, 110⟩] := by
    decide
  obtain ⟨s, hs, hreceived⟩ := Option.map_eq_some_iff.mp hrun
  have hheld := newest_report_held.1 "walker" s (System.reachableUnder_of_runUnder start_init hs)
  rw [hreceived] at hheld
  have hpresent : ∀ r ∈ [(⟨place 46, 60, 100⟩ : Reception Position ℚ), ⟨place 45, 50, 110⟩],
      r.stamp ≤ r.receivedAt := by
    decide
  have hdistinct : ∀ r ∈ [(⟨place 46, 60, 100⟩ : Reception Position ℚ), ⟨place 45, 50, 110⟩],
      ∀ r' ∈ [(⟨place 46, 60, 100⟩ : Reception Position ℚ), ⟨place 45, 50, 110⟩],
        r.stamp = r'.stamp → r.content = r'.content := by
    decide
  exact ⟨s, hs, hheld.genuine hpresent hdistinct ⟨place 46, 60, 100⟩ List.mem_cons_self (by decide)⟩

/-- A report from the future takes the place of one from the present. -/
theorem future_report_held :
    ¬∀ reporter s, (system reporter).ReachableUnder (fun s e => s.spares reporter e = true) s →
      (∀ r ∈ s.received, ∀ r' ∈ s.received, r.stamp = r'.stamp → r.content = r'.content) →
      ∀ r ∈ s.received, r.stamp ≤ r.receivedAt →
        (∀ r' ∈ s.received, r'.stamp ≤ r'.receivedAt → r'.stamp ≤ r.stamp) →
          s.registry.held reporter = some (r.content, r.stamp) := by
  intro hclaim
  have hrun : ((system "walker").runUnder (spares "walker") start
      [report 46 60 100, report 45 1000 110]).map (fun s => (s.received, s.registry.held "walker")) =
        some ([⟨place 46, 60, 100⟩, ⟨place 45, 1000, 110⟩], some (place 45, 110)) := by
    decide
  obtain ⟨s, hs, hview⟩ := Option.map_eq_some_iff.mp hrun
  obtain ⟨hreceived, hheld⟩ := Prod.mk.inj hview
  have hlatest := hclaim "walker" s (System.reachableUnder_of_runUnder start_init hs)
  rw [hreceived, hheld] at hlatest
  have hsame := hlatest (by decide) ⟨place 46, 60, 100⟩ List.mem_cons_self (by decide)
    (by decide)
  exact absurd hsame (by decide)

end LocationRun
end Arald
