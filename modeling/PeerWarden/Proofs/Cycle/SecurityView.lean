import PeerWarden.Proofs.Peer.Standing

/-!
# What a Security Cycle Looks At

A security cycle goes over the records of all peers, the logged attempts, the bans and the log of events. Every
record says whether its peer is connected, but no stage of the cycle asks. So a security cycle cannot tell two
states apart that differ in the connected set alone: it asks the classifier the same questions, breaks off or
completes alike, reports the same, and does the same to each record.

## Main definitions

- `Registry.standings`: the records of all peers apart from the connected set
- `State.SeenAlike`: two states that a security cycle cannot tell apart

## Main statements

- `Registry.pass_congr`: a pass over the peers that does not ask who is connected
- `SeenAlike.detectedPeer_eq`: in both states the detectors make the same of every record
- `SeenAlike.report_eq`, `SeenAlike.securityCycle`: both cycles report the same and leave states that are seen alike
-/

namespace PeerWarden

/-! ## Passes over the peers -/

/-- The records of all peers apart from the connected set. -/
def Registry.standings (r : Registry) : Directory String Peer := r.peers.map fun _ => Peer.standing

section Passes

variable {r r' : Registry}

theorem Registry.get?_standings (r : Registry) (id : String) :
    r.standings.get? id = (r.get? id).map Peer.standing :=
  Directory.get?_map ..

/-- What is told of some peers, picked without asking who is connected, is told of their standings. -/
theorem Registry.pass_congr (h : r.standings = r'.standings) {β : Type} (test : Peer → Bool)
    (tell : String × Peer → β) (htest : ∀ p : Peer, test p.standing = test p) (htell : ∀ id p, tell (id, p.standing) = tell (id, p)) :
    (r.peers.entries.filter fun e => test e.2).map tell = (r'.peers.entries.filter fun e => test e.2).map tell := by
  have hpass (r : Registry) : (r.peers.entries.filter fun e => test e.2).map tell =
      (r.standings.entries.filter fun e => test e.2).map tell := by
    simp [standings, Directory.map, List.filter_map, Function.comp_def, htest, htell]
  rw [hpass, hpass, h]

variable (h : r.standings = r'.standings)

include h

theorem Registry.standing_congr (id : String) :
    (r.get? id).map Peer.standing = (r'.get? id).map Peer.standing := by
  rw [← Registry.get?_standings, ← Registry.get?_standings, h]

/-- A stage that does the same to every record, and does not ask who is connected, leaves the same standings. -/
theorem Registry.standings_of_stage {f : String → Peer → Peer} (hf : ∀ id p, (f id p).standing = f id p.standing)
    {u u' : Registry} (hu : ∀ id, u.get? id = (r.get? id).map (f id))
    (hu' : ∀ id, u'.get? id = (r'.get? id).map (f id)) : u.standings = u'.standings := by
  apply Directory.ext_get?
  intro id
  have hstage (p? : Option Peer) : (p?.map (f id)).map Peer.standing = (p?.map Peer.standing).map (f id) := by
    simp only [Option.map_map, Function.comp_def, hf]
  rw [Registry.get?_standings, Registry.get?_standings, hu, hu', hstage, hstage, Registry.standing_congr h]

theorem Registry.standings_forget (now : Instant) (retention : Span) :
    (r.forget now retention).standings = (r'.forget now retention).standings := by
  apply Directory.ext_get?
  intro id
  simp only [Registry.get?_standings, Registry.get?_forget]
  rw [Peer.map_standing_filter fun _ => rfl, Peer.map_standing_filter fun _ => rfl, Registry.standing_congr h]

theorem Sybil.clusters_congr (cfg : Config.Security) : clusters cfg r = clusters cfg r' := by
  have haddresses : (r.peers.values.filter (isSuspect cfg)).map (·.address) =
      (r'.peers.values.filter (isSuspect cfg)).map (·.address) := by
    simp only [Directory.values, List.filter_map, List.map_map]
    exact Registry.pass_congr h (isSuspect cfg) (·.2.address) (fun _ => rfl) fun _ _ => rfl
  rw [clusters, clusters, haddresses]

theorem Detector.findings_congr {d : Detector} (hflags : ∀ p : Peer, d.flags p.standing = d.flags p)
    (hfinding : ∀ id (p : Peer), d.finding id p.standing = d.finding id p) : d.findings r = d.findings r' :=
  Registry.pass_congr h d.flags (fun e => d.finding e.1 e.2) hflags hfinding

theorem Classifier.questions_congr (cfg : Config.DosProtection) (rates : Directory String Nat) :
    questions cfg rates r = questions cfg rates r' :=
  Registry.pass_congr h (fun p => !p.isBlocked) (fun e => (e.1, features cfg rates e.2)) (fun _ => rfl)
    fun _ _ => rfl

theorem Registry.forgotten_congr (now : Instant) (retention : Span) :
    r.forgotten now retention = r'.forgotten now retention :=
  Registry.pass_congr h (·.isForgottenAt now retention) Prod.fst (fun _ => rfl) fun _ _ => rfl

theorem Registry.sweepAt_congr (now : Instant) (idleDecayAfter : Span) :
    r.sweepAt now idleDecayAfter = r'.sweepAt now idleDecayAfter := by
  -- How many peers are picked is the length of a pass that tells nothing.
  have hcount {test : Peer → Bool} (htest : ∀ p : Peer, test p.standing = test p) :
      ((r.peers.values.filter fun p => !p.isBlocked).filter test).length =
        ((r'.peers.values.filter fun p => !p.isBlocked).filter test).length := by
    have hpass := congrArg List.length <|
      Registry.pass_congr h (fun p => test p && !p.isBlocked) (fun _ => ()) (fun p => by rw [htest]; rfl) fun _ _ => rfl
    simpa [Directory.values, List.filter_filter, List.filter_map, Function.comp_def] using hpass
  have hunblocked : (r.peers.filter fun _ p => p.isOverdueAt now).keys =
      (r'.peers.filter fun _ p => p.isOverdueAt now).keys :=
    Registry.pass_congr h (·.isOverdueAt now) Prod.fst (fun _ => rfl) fun _ _ => rfl
  unfold sweepAt
  rw [hunblocked]
  simp only
  rw [hcount fun _ => rfl, hcount fun _ => rfl]

end Passes

/-! ## States seen alike -/

namespace State

/-- Two states that a security cycle cannot tell apart: they agree in the attempts, the bans, the log and the records
    of all peers, apart from the connected set. -/
structure SeenAlike (s t : State) : Prop where
  peers : s.registry.standings = t.registry.standings
  attempts : s.attempts = t.attempts
  bans : s.bans = t.bans
  log : s.log = t.log

namespace SeenAlike

variable {s t : State} (h : s.SeenAlike t) (cfg : Config) (now : Instant)

include h

/-! ### Detectors -/

/-- The search for floods looks at the attempts and the bans; the peers are only told of it. -/
theorem floods_eq : s.floods cfg now = { t.floods cfg now with registry := (s.floods cfg now).registry } := by
  simp only [floods, Flood.detect, h.attempts, h.bans]

theorem offenders_eq : (s.floods cfg now).offenders = (t.floods cfg now).offenders := by
  rw [h.floods_eq]

theorem rates_eq : (s.floods cfg now).rates = (t.floods cfg now).rates := by
  rw [h.floods_eq]

theorem blamed_eq : s.blamed cfg now = t.blamed cfg now := by
  funext p
  unfold blamed
  rw [h.offenders_eq]

theorem blamed_standings : (s.floods cfg now).registry.standings = (t.floods cfg now).registry.standings := by
  apply Registry.standings_of_stage h.peers fun _ => t.standing_blamed cfg now
  · intro id
    rw [get?_blamed, h.blamed_eq]
  · exact t.get?_blamed cfg now

theorem clusteredPeer_eq : s.clusteredPeer cfg now = t.clusteredPeer cfg now := by
  funext p
  unfold clusteredPeer
  rw [Sybil.clusters_congr (h.blamed_standings cfg now), h.blamed_eq]

theorem eclipsedPeer_eq : s.eclipsedPeer cfg now = t.eclipsedPeer cfg now := by
  funext p
  rw [eclipsedPeer, h.clusteredPeer_eq, eclipsedPeer]

theorem screenedPeer_eq : s.screenedPeer cfg now = t.screenedPeer cfg now := by
  funext p
  rw [screenedPeer, h.eclipsedPeer_eq, screenedPeer]

theorem clustered_standings : (s.clustered cfg now).standings = (t.clustered cfg now).standings := by
  have hF (p : Peer) : (t.clusteredPeer cfg now p).standing = t.clusteredPeer cfg now p.standing := by
    unfold clusteredPeer
    rw [Sybil.standing_judge, standing_blamed]
  apply Registry.standings_of_stage h.peers fun _ => hF
  · intro id
    rw [get?_clustered, h.clusteredPeer_eq]
  · exact t.get?_clustered cfg now

theorem eclipsed_standings : (s.eclipsed cfg now).standings = (t.eclipsed cfg now).standings := by
  have hF (p : Peer) : (t.eclipsedPeer cfg now p).standing = t.eclipsedPeer cfg now p.standing := by
    unfold eclipsedPeer clusteredPeer
    rw [Detector.standing_judge fun _ => rfl, Sybil.standing_judge, standing_blamed]
  apply Registry.standings_of_stage h.peers fun _ => hF
  · intro id
    rw [get?_eclipsed, h.eclipsedPeer_eq]
  · exact t.get?_eclipsed cfg now

theorem screened_standings : (s.screened cfg now).standings = (t.screened cfg now).standings := by
  apply Registry.standings_of_stage h.peers fun _ => t.standing_screenedPeer cfg now
  · intro id
    rw [get?_screened, h.screenedPeer_eq]
  · exact t.get?_screened cfg now

variable (model : Option Classifier) (asked : List Features)

/-- The classifier is asked the same questions, so it gives the same answers and breaks off or not alike. -/
theorem consult_eq : Classifier.consult model asked cfg now (s.floods cfg now).rates (s.screened cfg now) =
    { Classifier.consult model asked cfg now (t.floods cfg now).rates (t.screened cfg now) with
      registry := (s.detect cfg model asked now).registry } := by
  have hregistry : (s.detect cfg model asked now).registry =
      (Classifier.consult model asked cfg now (s.floods cfg now).rates (s.screened cfg now)).registry := rfl
  rw [hregistry]
  cases model with
  | none => rfl
  | some m =>
    simp only [Classifier.consult, Classifier.questions_congr (h.screened_standings cfg now), h.rates_eq]

theorem accusation?_eq (id : String) : s.accusation? cfg model asked now id = t.accusation? cfg model asked now id := by
  unfold accusation? Classifier.accused
  cases model with
  | none => rfl
  | some m => simp only [Classifier.questions_congr (h.screened_standings cfg now), h.rates_eq]

theorem detectedPeer_eq : s.detectedPeer cfg model asked now = t.detectedPeer cfg model asked now := by
  funext id p
  unfold detectedPeer
  rw [h.accusation?_eq, h.screenedPeer_eq]

theorem detected_standings :
    (s.detect cfg model asked now).registry.standings = (t.detect cfg model asked now).registry.standings := by
  apply Registry.standings_of_stage h.peers fun id p => t.standing_detectedPeer cfg model asked now id p
  · intro id
    rw [get?_detect, h.detectedPeer_eq]
  · exact t.get?_detect cfg model asked now

theorem reviewed_standings :
    ((s.detect cfg model asked now).registry.reviewed now cfg.security.idleDecayAfter).standings =
      ((t.detect cfg model asked now).registry.reviewed now cfg.security.idleDecayAfter).standings :=
  Registry.standings_of_stage (h.detected_standings cfg now model asked)
    (fun _ p => p.standing_reviewed now cfg.security.idleDecayAfter) (fun _ => Registry.get?_map ..)
    fun _ => Registry.get?_map ..

/-- The detectors find the same, in the same order of stages. -/
theorem events_eq : (s.detect cfg model asked now).events = (t.detect cfg model asked now).events := by
  have hfloods : (s.floods cfg now).events = (t.floods cfg now).events := by rw [h.floods_eq]
  have hsybil : Sybil.findings cfg.security now (s.floods cfg now).registry =
      Sybil.findings cfg.security now (t.floods cfg now).registry := by
    rw [Sybil.findings, Sybil.findings, Sybil.clusters_congr (h.blamed_standings cfg now)]
  have heclipse : (Detector.eclipse cfg.security now).findings (s.clustered cfg now) =
      (Detector.eclipse cfg.security now).findings (t.clustered cfg now) :=
    Detector.findings_congr (h.clustered_standings cfg now) (fun _ => rfl) fun _ _ => rfl
  have htiming : (Detector.timing cfg.security now).findings (s.eclipsed cfg now) =
      (Detector.timing cfg.security now).findings (t.eclipsed cfg now) :=
    Detector.findings_congr (h.eclipsed_standings cfg now) (fun _ => rfl) fun _ _ => rfl
  rw [detect_events, detect_events, hfloods, hsybil, heclipse, htiming, ← Classifier.consult_events,
    ← Classifier.consult_events, h.consult_eq]

theorem crash_eq : (s.detect cfg model asked now).crash = (t.detect cfg model asked now).crash := by
  have hcrash (u : State) : (u.detect cfg model asked now).crash =
      (Classifier.consult model asked cfg now (u.floods cfg now).rates (u.screened cfg now)).crash := rfl
  rw [hcrash, hcrash, h.consult_eq]

/-! ### The whole cycle -/

theorem asked_eq : (s.securityCycle cfg model asked now).asked = (t.securityCycle cfg model asked now).asked := by
  have hasked (u : State) : (u.securityCycle cfg model asked now).asked =
      (Classifier.consult model asked cfg now (u.floods cfg now).rates (u.screened cfg now)).asked := by
    cases hcrash : (u.detect cfg model asked now).crash <;> simp only [State.securityCycle, hcrash] <;> rfl
  rw [hasked, hasked, h.consult_eq]

theorem report_eq : (s.securityCycle cfg model asked now).report = (t.securityCycle cfg model asked now).report := by
  have hcrash := h.crash_eq cfg now model asked
  cases ht : (t.detect cfg model asked now).crash with
  | some message =>
    rw [(securityCycle_of_crash s cfg model asked now (hcrash.trans ht)).2,
      (securityCycle_of_crash t cfg model asked now ht).2]
  | none =>
    have hdetected := h.detected_standings cfg now model asked
    have hflood (u : State) : (u.detect cfg model asked now).flood = u.floods cfg now := rfl
    simp only [State.securityCycle, hcrash.trans ht, ht, tidyReport, reviewed, detected, hflood]
    rw [h.events_eq, h.floods_eq, h.log, Registry.sweepAt_congr hdetected,
      Registry.forgotten_congr (h.reviewed_standings cfg now model asked)]

/-- Both cycles leave states that are seen alike. -/
theorem securityCycle :
    (s.securityCycle cfg model asked now).state.SeenAlike (t.securityCycle cfg model asked now).state := by
  have hcrash := h.crash_eq cfg now model asked
  have hattempts : (s.floods cfg now).attempts = (t.floods cfg now).attempts := by rw [h.floods_eq]
  have hbans : (s.floods cfg now).bans = (t.floods cfg now).bans := by rw [h.floods_eq]
  cases ht : (t.detect cfg model asked now).crash with
  | some message =>
    rw [(securityCycle_of_crash s cfg model asked now (hcrash.trans ht)).1,
      (securityCycle_of_crash t cfg model asked now ht).1]
    exact ⟨h.detected_standings cfg now model asked, hattempts, hbans, h.log⟩
  | none =>
    rw [securityCycle_of_complete s cfg model asked now (hcrash.trans ht),
      securityCycle_of_complete t cfg model asked now ht]
    constructor
    case peers => exact Registry.standings_forget (h.reviewed_standings cfg now model asked) ..
    case attempts => exact hattempts
    case bans => exact congrArg (fun bans => (BanList.sweep bans now).1) hbans
    case log =>
      have hlog : s.log ++ (s.detect cfg model asked now).events = t.log ++ (t.detect cfg model asked now).events := by
        rw [h.log, h.events_eq]
      exact congrArg (EventLog.purge · now cfg.security.eventRetention) hlog

end SeenAlike

end State

end PeerWarden
