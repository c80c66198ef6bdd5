import PeerWarden.Proofs.Run.RequestScope
import PeerWarden.Proofs.Threat.Locality

/-!
# Isolation of Addresses

Every cycle goes over all peers and all addresses at once. Still, what happens under one address makes no
difference to the others: when all requests about an address and its peers are taken out of a run, everything else
ends as it would have ended. This holds for the record of a peer apart from the connected set, which is decided for
all peers together, and for bans and logged attempts. It needs a classifier that answers every question by itself.

Two runs are compared, so the invariant is about two states: `State.AlikeOutside` says in what they agree, and
`Registry.Keeps` that in each of them the peers of the address are behind that address, and no others.

## Main definitions

- `Household`: an address and the peers that are used with it
- `Household.Apart`: a run that never mixes a household with anything else
- `State.AlikeOutside`: two states that agree on everything outside a household

## Main statements

- `AlikeOutside.securityCycle`, `AlikeOutside.serve`: what is done to both states keeps them alike
- `AlikeOutside.serve_within`: a request about the household changes nothing outside it
- `addresses_isolated`: a run without the requests about a household ends alike outside it
-/

namespace PeerWarden

/-! ## Households -/

/-- An address and the peers that are used with it. -/
structure Household where
  address : String
  members : List String

namespace Request

/-- Whether a request names the address or a member of a household. -/
def concerns (h : Household) (r : Request) : Bool :=
  r.address?.any (· = h.address) || r.peer?.any (· ∈ h.members)

/-- Whether a request names nothing but the address and the members of a household. -/
def staysWithin (h : Household) (r : Request) : Bool :=
  r.address?.all (· = h.address) && r.peer?.all (· ∈ h.members)

end Request

/-- Whether an operation is a request about a household. A cycle is about everyone. -/
def Operation.concerns (h : Household) : Operation → Bool
  | .request r => r.concerns h
  | .securityCycle _ | .healthCycle _ => false

/-- Whether an operation, if it concerns a household, has nothing to do with anything else. -/
def Operation.keepsApart (h : Household) : Operation → Bool
  | .request r => !r.concerns h || r.staysWithin h
  | .securityCycle _ | .healthCycle _ => true

/-- A run never mixes a household with other addresses and other peers. -/
def Household.Apart (h : Household) (ops : List Operation) : Prop := ∀ op ∈ ops, op.keepsApart h = true

instance (h : Household) (ops : List Operation) : Decidable (h.Apart ops) :=
  inferInstanceAs (Decidable (∀ op ∈ ops, op.keepsApart h = true))

/-- Two states are alike outside a household: the same peers are known there, with the same records apart from the
    connected set, and every other address has the same ban and the same logged attempts. -/
structure State.AlikeOutside (h : Household) (s t : State) : Prop where
  peers : ∀ id, id ∉ h.members → (s.registry.get? id).map Peer.standing = (t.registry.get? id).map Peer.standing
  bans : ∀ address, address ≠ h.address → s.bans.get? address = t.bans.get? address
  attempts : ∀ address, address ≠ h.address → s.attempts.get? address = t.attempts.get? address

/-- In a registry that keeps a household together, its members are the peers behind its address. -/
def Registry.Keeps (h : Household) (r : Registry) : Prop :=
  ∀ id p, r.get? id = some p → (id ∈ h.members ↔ p.address = h.address)

namespace State

variable {h : Household} {s t u : State} {id address : String} {p q : Peer} {r : Request}

namespace AlikeOutside

theorem refl (h : Household) (s : State) : s.AlikeOutside h s := ⟨fun _ _ => rfl, fun _ _ => rfl, fun _ _ => rfl⟩

theorem symm (hst : s.AlikeOutside h t) : t.AlikeOutside h s where
  peers id hid := (hst.peers id hid).symm
  bans address haddress := (hst.bans address haddress).symm
  attempts address haddress := (hst.attempts address haddress).symm

theorem trans (hst : s.AlikeOutside h t) (htu : t.AlikeOutside h u) : s.AlikeOutside h u where
  peers id hid := (hst.peers id hid).trans (htu.peers id hid)
  bans address haddress := (hst.bans address haddress).trans (htu.bans address haddress)
  attempts address haddress := (hst.attempts address haddress).trans (htu.attempts address haddress)

/-- A peer outside the household is unknown in both states, or known in both and behind another address. -/
theorem unknown_or_known (hst : s.AlikeOutside h t) (ht : t.registry.Keeps h) (hid : id ∉ h.members) :
    (s.registry.get? id = none ∧ t.registry.get? id = none) ∨
      ∃ p q, s.registry.get? id = some p ∧ t.registry.get? id = some q ∧ p.standing = q.standing ∧
        q.standing.address ≠ h.address := by
  have hpeers := hst.peers id hid
  cases hs : s.registry.get? id with
  | none =>
    rw [hs] at hpeers
    exact .inl ⟨rfl, Option.map_eq_none_iff.mp hpeers.symm⟩
  | some p =>
    rw [hs] at hpeers
    obtain ⟨q, hq, hstanding⟩ := Option.map_eq_some_iff.mp hpeers.symm
    exact .inr ⟨p, q, rfl, hq, hstanding.symm, fun hhome => hid ((ht id q hq).mpr hhome)⟩

/-! ## Security cycles -/

section Detectors

variable (hst : s.AlikeOutside h t) (cfg : Config) (now : Instant)

include hst

theorem of_eq (haddress : address ≠ h.address) : s.attempts.of address = t.attempts.of address :=
  congrArg (·.getD []) (hst.attempts address haddress)

theorem offenders_eq (haddress : address ≠ h.address) :
    (s.floods cfg now).offenders.contains address = (t.floods cfg now).offenders.contains address := by
  rw [floods, floods, Flood.contains_offenders, Flood.contains_offenders, hst.of_eq haddress]

theorem rates_eq (haddress : address ≠ h.address) :
    (s.floods cfg now).rates.get? address = (t.floods cfg now).rates.get? address := by
  rw [floods, floods, Flood.get?_rates, Flood.get?_rates, hst.of_eq haddress]

theorem blamed_eq (hp : p.address ≠ h.address) : s.blamed cfg now p = t.blamed cfg now p := by
  unfold blamed
  rw [hst.offenders_eq cfg now hp]

variable (hs : s.registry.Keeps h) (ht : t.registry.Keeps h)

include hs ht

/-- The members are not behind another address, so they do not count towards a cluster there. -/
theorem clusters_eq (haddress : address ≠ h.address) :
    (Sybil.clusters cfg.security (s.floods cfg now).registry).contains address =
      (Sybil.clusters cfg.security (t.floods cfg now).registry).contains address := by
  apply Sybil.contains_clusters_congr
  intro id
  rw [get?_blamed, get?_blamed]
  by_cases hid : id ∈ h.members
  · have helsewhere {u : State} (hu : u.registry.Keeps h) :
        ((u.registry.get? id).map (u.blamed cfg now)).filter (fun p => p.address = address) = none := by
      rw [Option.filter_eq_none_iff]
      intro q hq
      obtain ⟨p, hp, rfl⟩ := Option.map_eq_some_iff.mp hq
      have hhome : p.address = h.address := (hu id p hp).mp hid
      simpa [State.blamed_eq, hhome] using Ne.symm haddress
    rw [helsewhere hs, helsewhere ht]
  · rcases hst.unknown_or_known ht hid with ⟨hs', ht'⟩ | ⟨p, q, hp, hq, hpq, haway⟩
    · simp only [hs', ht', Option.map_none]
    · have hblamed : (s.blamed cfg now p).standing = (t.blamed cfg now q).standing := by
        rw [standing_blamed, standing_blamed, hpq, hst.blamed_eq cfg now haway]
      rw [hp, hq, Peer.map_standing_filter (fun _ => rfl), Peer.map_standing_filter (fun _ => rfl)]
      simp only [Option.map_some, hblamed]

theorem screenedPeer_eq (hp : p.address ≠ h.address) : s.screenedPeer cfg now p = t.screenedPeer cfg now p := by
  have haddress : (t.blamed cfg now p).address ≠ h.address := by
    rw [State.blamed_eq]
    exact hp
  unfold screenedPeer eclipsedPeer clusteredPeer Sybil.judge
  rw [hst.blamed_eq cfg now hp, hst.clusters_eq cfg now hs ht haddress]

variable {model : Option Classifier} (hmodel : ∀ m, model = some m → m.IsSteady) (asked asked' : List Features)

include hmodel

/-- A steady model gives the same answer in both states, whatever it was asked before. -/
theorem accusation?_eq (hid : id ∉ h.members) :
    s.accusation? cfg model asked now id = t.accusation? cfg model asked' now id := by
  unfold accusation?
  cases model with
  | none => simp only [Classifier.accused]
  | some m =>
    obtain ⟨classify, hclassify, hcrash⟩ := hmodel m rfl
    rw [Classifier.lookup_accused_of_steady hclassify hcrash, Classifier.lookup_accused_of_steady hclassify hcrash,
      get?_screened, get?_screened]
    rcases hst.unknown_or_known ht hid with ⟨hs', ht'⟩ | ⟨p, q, hp, hq, hpq, haway⟩
    · simp only [hs', ht', Option.map_none, Option.bind_none]
    · have hscreened : (s.screenedPeer cfg now p).standing = (t.screenedPeer cfg now q).standing := by
        rw [standing_screenedPeer, standing_screenedPeer, hpq, hst.screenedPeer_eq cfg now hs ht haway]
      have haddress : (t.screenedPeer cfg now q).address ≠ h.address := by
        rw [address_screenedPeer]
        exact haway
      simp only [hp, hq, Option.map_some, Option.bind_some]
      calc Classifier.verdict? classify cfg (s.floods cfg now).rates (s.screenedPeer cfg now p)
        _ = Classifier.verdict? classify cfg (s.floods cfg now).rates (t.screenedPeer cfg now q) := by
          rw [← Classifier.verdict?_standing, hscreened, Classifier.verdict?_standing]
        _ = Classifier.verdict? classify cfg (t.floods cfg now).rates (t.screenedPeer cfg now q) :=
          Classifier.verdict?_congr classify cfg (hst.rates_eq cfg now haddress)

theorem detectedPeer_eq (hid : id ∉ h.members) (hp : p.address ≠ h.address) :
    s.detectedPeer cfg model asked now id p = t.detectedPeer cfg model asked' now id p := by
  unfold State.detectedPeer
  rw [hst.accusation?_eq cfg now hs ht hmodel asked asked' hid, hst.screenedPeer_eq cfg now hs ht hp]

/-- A security cycle at the same time keeps two states alike. -/
theorem securityCycle : (s.securityCycle cfg model asked now).state.AlikeOutside h
    (t.securityCycle cfg model asked' now).state := by
  have hs' := Classifier.crash_detect_of_steady hmodel s cfg asked now
  have ht' := Classifier.crash_detect_of_steady hmodel t cfg asked' now
  constructor
  case peers =>
    intro id hid
    rw [get?_securityCycle, get?_securityCycle, hs', ht']
    simp only
    rw [Peer.map_standing_filter (fun _ => rfl), Peer.map_standing_filter (fun _ => rfl)]
    rcases hst.unknown_or_known ht hid with ⟨hs', ht'⟩ | ⟨p, q, hp, hq, hpq, haway⟩
    · simp only [hs', ht', Option.map_none]
    · have hreviewed : ((s.detectedPeer cfg model asked now id p).reviewed now cfg.security.idleDecayAfter).standing =
          ((t.detectedPeer cfg model asked' now id q).reviewed now cfg.security.idleDecayAfter).standing := by
        rw [Peer.standing_reviewed, Peer.standing_reviewed, standing_detectedPeer, standing_detectedPeer, hpq,
          hst.detectedPeer_eq cfg now hs ht hmodel asked asked' hid haway]
      rw [hp, hq]
      simp only [Option.map_some, hreviewed]
  case bans =>
    intro address haddress
    have hbans : (s.floods cfg now).bans.get? address = (t.floods cfg now).bans.get? address := by
      have hoffenders := hst.offenders_eq cfg now haddress
      unfold floods at hoffenders ⊢
      rw [Flood.get?_bans, Flood.get?_bans, hoffenders, hst.bans address haddress]
    rw [get?_bans_securityCycle, get?_bans_securityCycle, isOk_report, isOk_report, hs', ht', hbans]
  case attempts =>
    intro address haddress
    rw [get?_attempts_securityCycle, get?_attempts_securityCycle, hst.offenders_eq cfg now haddress,
      hst.of_eq haddress]

end Detectors

/-! ## Health cycles -/

/-- A health cycle changes the connected set, and nothing else that is compared. -/
theorem healthCycle (h : Household) (w : Warden) (s : Session) (now : Instant) :
    (w.healthCycle s now).1.state.AlikeOutside h s.state where
  peers id _ := by
    rw [Warden.get?_healthCycle, Option.map_map]
    refine congrArg (Option.map · (s.state.registry.get? id)) (funext fun p => ?_)
    exact (apply_ite Peer.standing ..).trans (ite_self _)
  bans address _ := by rw [Warden.bans_healthCycle]
  attempts address _ := by rw [Warden.attempts_healthCycle]

/-! ## Requests -/

/-- A request about the household alone changes nothing outside it. -/
theorem serve_within (s : State) (hr : r.staysWithin h = true) : (s.serve r).1.AlikeOutside h s := by
  simp only [Request.staysWithin, Bool.and_eq_true, Option.all_eq_true, decide_eq_true_eq] at hr
  have hpeer {id : String} (hid : id ∉ h.members) : r.peer? ≠ some id := fun hname => hid (hr.2 id hname)
  have haddress {address : String} (haddress : address ≠ h.address) : r.address? ≠ some address :=
    fun hname => haddress (hr.1 address hname)
  constructor
  case peers =>
    intro id hid
    rw [get?_serve, newcomer?_of_ne (hpeer hid), Option.or_none, funext (servedPeer_of_ne (hpeer hid)), Option.map_id']
  case bans =>
    intro address hne
    rw [get?_bans_serve, Request.banAfter_of_ne (haddress hne)]
  case attempts =>
    intro address hne
    rw [get?_attempts_serve, queueAfter_of_ne (haddress hne)]

/-- A request that does not concern the household does the same in both states. -/
theorem serve (hst : s.AlikeOutside h t) (hr : r.concerns h = false) :
    (s.serve r).1.AlikeOutside h (t.serve r).1 := by
  simp only [Request.concerns, Bool.or_eq_false_iff, Option.any_eq_false] at hr
  have hbanned (source : String) (now : Instant) (hattempt : r.attempt? = some (source, now)) :
      s.isBanned source now = t.isBanned source now := by
    have haway : source ≠ h.address := by simpa using hr.1 source (Request.address?_of_attempt hattempt)
    exact congrArg (·.any (·.inForceAt now)) (hst.bans source haway)
  have hstanding (u : State) (id : String) : ((u.registry.get? id).map (u.servedPeer id r)).map Peer.standing =
      ((u.registry.get? id).map Peer.standing).map (u.servedPeer id r) := by
    rw [Option.map_map, Option.map_map]
    exact congrArg (Option.map · _) (funext fun p => u.standing_servedPeer id p r)
  constructor
  case peers =>
    intro id hid
    rw [get?_serve, get?_serve, newcomer?_congr hbanned, Option.map_or, Option.map_or, hstanding, hstanding,
      hst.peers id hid, funext (servedPeer_congr hbanned)]
  case bans =>
    intro address haddress
    rw [get?_bans_serve, get?_bans_serve, hst.bans address haddress]
  case attempts =>
    intro address haddress
    rw [get?_attempts_serve, get?_attempts_serve,
      queueAfter_congr (hst.bans address haddress) (hst.attempts address haddress)]

end AlikeOutside

end State

/-! ## Runs -/

namespace Warden

variable (w : Warden) {h : Household} {s t : Session} {op : Operation}

theorem step_keeps (hs : s.state.registry.Keeps h) (hop : op.keepsApart h = true) :
    (w.step s op).state.registry.Keeps h := by
  intro id p' hp'
  cases op with
  | request r =>
    have hserved : (s.state.serve r).1.registry.get? id = some p' := hp'
    rw [State.get?_serve] at hserved
    rcases Option.or_eq_some_iff.mp hserved with hknown | ⟨-, hnew⟩
    · obtain ⟨p, hp, rfl⟩ := Option.map_eq_some_iff.mp hknown
      rw [State.address_servedPeer]
      exact hs id p hp
    · -- A newcomer is a member behind the address of the household, or neither.
      obtain ⟨address, now, rfl, hpeer, haddress⟩ := State.eq_new_of_newcomer hnew
      simp only [Operation.keepsApart, Request.concerns, Request.staysWithin, hpeer, haddress, Option.any_some,
        Option.all_some, Bool.or_eq_true, Bool.not_eq_true', Bool.or_eq_false_iff, Bool.and_eq_true,
        decide_eq_false_iff_not, decide_eq_true_eq] at hop
      rcases hop with ⟨haway, hother⟩ | ⟨hhome, hmember⟩
      · exact iff_of_false hother haway
      · exact iff_of_true hmember hhome
  | securityCycle now =>
    have hcycle : (w.securityCycle s now).1.state.registry.get? id = some p' := hp'
    rw [securityCycle_state] at hcycle
    obtain ⟨p, hp, haddress, -⟩ := State.floods_securityCycle _ _ _ _ _ hcycle
    rw [haddress]
    exact hs id p hp
  | healthCycle now =>
    have hcycle : (w.healthCycle s now).1.state.registry.get? id = some p' := hp'
    rw [get?_healthCycle] at hcycle
    obtain ⟨p, hp, rfl⟩ := Option.map_eq_some_iff.mp hcycle
    rw [apply_ite Peer.address, ite_self]
    exact hs id p hp

/-- An operation about the household alone changes nothing outside it. -/
theorem step_alikeOutside_self (hconcerns : op.concerns h = true) (hop : op.keepsApart h = true) :
    (w.step s op).state.AlikeOutside h s.state := by
  cases op with
  | request r =>
    have hwithin : r.staysWithin h = true := by
      simpa [Operation.keepsApart, show r.concerns h = true from hconcerns] using hop
    exact State.AlikeOutside.serve_within s.state hwithin
  | securityCycle | healthCycle => cases hconcerns

section Steady

variable (hmodel : ∀ model, w.classifier = some model → model.IsSteady)

include hmodel

/-- Any other operation keeps two sessions alike. -/
theorem step_alikeOutside (hst : s.state.AlikeOutside h t.state) (hs : s.state.registry.Keeps h)
    (ht : t.state.registry.Keeps h) (hop : op.concerns h = false) :
    (w.step s op).state.AlikeOutside h (w.step t op).state := by
  cases op with
  | request r => exact hst.serve hop
  | securityCycle now =>
    simp only [step, securityCycle_state]
    exact hst.securityCycle w.config now hs ht hmodel s.asked t.asked
  | healthCycle now =>
    have hsleft : (w.step s (.healthCycle now)).state.AlikeOutside h s.state := .healthCycle h w s now
    have htright : (w.step t (.healthCycle now)).state.AlikeOutside h t.state := .healthCycle h w t now
    exact (hsleft.trans hst).trans htright.symm

/-- The one session executes all operations, the other one leaves those about the household out. -/
theorem run_alikeOutside {ops : List Operation} (hst : s.state.AlikeOutside h t.state)
    (hs : s.state.registry.Keeps h) (ht : t.state.registry.Keeps h) (hops : h.Apart ops) :
    (w.run s ops).state.AlikeOutside h (w.run t (ops.filter fun op => !op.concerns h)).state := by
  induction ops generalizing s t with
  | nil => exact hst
  | cons op ops ih =>
    have hop := hops op List.mem_cons_self
    have hrest : h.Apart ops := fun op' hop' => hops op' (List.mem_cons_of_mem op hop')
    cases hconcerns : op.concerns h with
    | true =>
      rw [List.filter_cons_of_neg (by simp [hconcerns])]
      exact ih ((w.step_alikeOutside_self hconcerns hop).trans hst) (w.step_keeps hs hop) ht hrest
    | false =>
      rw [List.filter_cons_of_pos (by simp [hconcerns])]
      exact ih (w.step_alikeOutside hmodel hst hs ht hconcerns) (w.step_keeps hs hop) (w.step_keeps ht hop) hrest

end Steady

/-- **Addresses are isolated.** Without the requests about an address and its peers, a run ends alike for everyone
    else: the same peers are known, with the same records apart from the connected set, and all other addresses have
    the same bans and the same logged attempts. -/
theorem addresses_isolated (h : Household) (ops : List Operation)
    (hmodel : ∀ model, w.classifier = some model → model.IsSteady) (hops : h.Apart ops) :
    (w.run w.start ops).state.AlikeOutside h (w.run w.start (ops.filter fun op => !op.concerns h)).state :=
  w.run_alikeOutside hmodel (.refl h w.start.state) nofun nofun hops

/-- A flood from one address, with a blocked peer behind it, leaves no trace on a peer behind another one. -/
theorem addresses_isolated_flood :
    let model := Classifier.linear 0.0 1.0 0.0 0.0
    let w : Warden := { standalone { dosProtection := { rateLimit := 1 } } with classifier := some model }
    let h : Household := { address := "a", members := ["p"] }
    let ops : List Operation :=
      [.request (.register "p" "a" 0), .request (.peerAttempt "q" "b" 0), .request (.attempt "a" 1),
        .request (.peerAttempt "p" "a" 1), .request (.success "q" 2), .securityCycle 2,
        .request (.blockPeer "p" "flood" none 3), .healthCycle 3, .securityCycle 4]
    (∀ model', w.classifier = some model' → model'.IsSteady) ∧ h.Apart ops ∧
      (w.run w.start ops).state.AlikeOutside h (w.run w.start (ops.filter fun op => !op.concerns h)).state ∧
      (w.run w.start ops).state.isBanned "a" 4 = true ∧
      (w.run w.start (ops.filter fun op => !op.concerns h)).state.isBanned "a" 4 = false := by
  intro model w h ops
  have hmodel : ∀ model', w.classifier = some model' → model'.IsSteady := by
    intro model' hmodel'
    obtain rfl := Option.some.inj hmodel'
    exact ⟨model [], fun _ _ => rfl, fun _ _ => nofun⟩
  have hops : h.Apart ops := by decide
  exact ⟨hmodel, hops, addresses_isolated w h ops hmodel hops, by decide +kernel, by decide +kernel⟩

end Warden

end PeerWarden
