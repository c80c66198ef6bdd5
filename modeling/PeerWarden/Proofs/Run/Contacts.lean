import PeerWarden.Proofs.Cycle.HealthView
import PeerWarden.Proofs.Run.Registration

/-!
# Who Is Connected

The registry says of every known peer whether it is connected, and the connection layer is told to drop the peers that
a health cycle evicts. The two agree. A contact is whatever tells whether a peer is connected: its registration, an
attempt that is accepted, a measurement of its latency, or being dropped. At any time the latest contact of a known
peer is what the registry says, so only connected peers are ever dropped, and none is dropped twice in a row.

## Main definitions

- `Warden.issued`: the peers that an operation tells the connection layer to drop
- `Contact`, `Warden.contact?`: what an operation tells of the connection of a peer
- `Warden.ConnectionsAgree`: how registry and connection layer agree

## Main statements

- `issued_healthCycle`: a health cycle drops the peers that it evicts
- `active_step`, `active_run`: a peer is connected as its latest contact says
- `exists_contact_of_isActive_step`, `exists_contact_of_isActive_run`: a peer that becomes connected has a contact that
  connects it
- `connections_agree`: registry and connection layer agree after every run
-/

namespace PeerWarden

/-! ## The evicted peers -/

namespace Pool

variable {preferredLatencyMs : Float} {maxPeers maxOutbound : Nat} {r : Registry}

theorem nodup_ranked : ((ranked r).map Prod.fst).Nodup := by
  have hactive : (r.active.map Prod.fst).Nodup := (List.filter_sublist.map Prod.fst).nodup r.peers.nodup_keys
  exact ((List.mergeSort_perm r.active ranksLE).map Prod.fst).nodup_iff.mpr hactive

theorem evicted_sublist_drop :
    (decision preferredLatencyMs maxPeers maxOutbound r).evicted.Sublist (((ranked r).drop maxOutbound).map Prod.fst) := by
  simp only [decision]
  split
  · exact List.nil_sublist _
  · split
    · exact List.Sublist.refl _
    · exact List.nil_sublist _

theorem evicted_sublist :
    (decision preferredLatencyMs maxPeers maxOutbound r).evicted.Sublist ((ranked r).map Prod.fst) :=
  evicted_sublist_drop.trans ((List.drop_sublist ..).map Prod.fst)

/-- Only connected peers are ranked, so only these are evicted. -/
theorem isActive_of_mem_evicted {id : String} (h : id ∈ (decision preferredLatencyMs maxPeers maxOutbound r).evicted) :
    r.isActive id = true := by
  obtain ⟨⟨id', p⟩, hmem, rfl⟩ := List.mem_map.mp (evicted_sublist.subset h)
  obtain ⟨hlisted, hactive⟩ := List.mem_filter.mp (List.mem_mergeSort.mp hmem)
  have hget : r.get? id' = some p := Directory.mem_entries_iff.mp hlisted
  rw [Registry.isActive, hget]
  exact hactive

end Pool

namespace Warden

variable (w : Warden) (s : Session)

/-! ## Dropping peers -/

/-- What an operation tells the connection layer to drop. -/
def issued (op : Operation) : List Disconnect := (w.step s op).disconnects.drop s.disconnects.length

theorem issued_of_eq {op : Operation} {dropped : List Disconnect}
    (h : (w.step s op).disconnects = s.disconnects ++ dropped) : w.issued s op = dropped := by
  rw [issued, h, List.drop_left]

theorem disconnects_request (r : Request) : (w.step s (.request r)).disconnects = s.disconnects ++ [] :=
  (List.append_nil _).symm

theorem disconnects_securityCycle (now : Instant) :
    (w.step s (.securityCycle now)).disconnects = s.disconnects ++ [] := by
  rw [List.append_nil]
  show (w.securityCycle s now).1.disconnects = _
  cases h : (s.state.securityCycle w.config w.classifier s.asked now).report <;> simp [securityCycle, observe, h]

theorem disconnects_healthCycle (now : Instant) : (w.step s (.healthCycle now)).disconnects =
    s.disconnects ++ (w.evictedBy s now).map fun id => { id, reason := evictionReason } := by
  show (w.healthCycle s now).1.disconnects = _
  cases h : (w.sample s).2 with
  | error fault => simp [evictedBy, healthCycle_of_error h]
  | ok usage => simp [evictedBy, healthCycle_of_ok h]

/-- Nothing that was issued is taken back. -/
theorem disconnects_step (op : Operation) : (w.step s op).disconnects = s.disconnects ++ w.issued s op := by
  cases op with
  | request r => rw [w.issued_of_eq s (w.disconnects_request s r), disconnects_request]
  | securityCycle now => rw [w.issued_of_eq s (w.disconnects_securityCycle s now), disconnects_securityCycle]
  | healthCycle now => rw [w.issued_of_eq s (w.disconnects_healthCycle s now), disconnects_healthCycle]

theorem issued_request (r : Request) : w.issued s (.request r) = [] := w.issued_of_eq s (w.disconnects_request s r)

theorem issued_securityCycle (now : Instant) : w.issued s (.securityCycle now) = [] :=
  w.issued_of_eq s (w.disconnects_securityCycle s now)

theorem issued_healthCycle (now : Instant) : w.issued s (.healthCycle now) =
    (w.evictedBy s now).map fun id => { id, reason := evictionReason } :=
  w.issued_of_eq s (w.disconnects_healthCycle s now)

theorem evictedBy_eq (now : Instant) : w.evictedBy s now = [] ∨ w.evictedBy s now =
    (Pool.decision w.config.pool.preferredLatencyMs w.config.pool.maxPeers w.config.pool.maxOutboundPeers
      s.state.registry).evicted := by
  cases h : (w.sample s).2 with
  | error fault =>
    left
    rw [evictedBy, healthCycle_of_error h]
  | ok usage =>
    right
    rw [evictedBy, healthCycle_of_ok h]
    rfl

/-! ## Contacts -/

end Warden

/-- What tells whether a peer is connected. -/
inductive Contact where
  | registered
  /-- An attempt to connect that names the peer was accepted. -/
  | admitted
  /-- The latency of the peer was noted. -/
  | measured
  /-- The connection layer was told to drop the peer. -/
  | dropped
  deriving DecidableEq

/-- Whether a contact leaves a peer connected. -/
def Contact.connects : Contact → Bool
  | registered | admitted | measured => true
  | dropped => false

namespace Warden

variable (w : Warden)

/-- What an operation tells of the connection of a peer. -/
def contact? (s : Session) (id : String) (op : Operation) : Option Contact :=
  if ∃ d ∈ w.issued s op, d.id = id then some .dropped
  else
    match op with
    | .request (.register name _ _) => if name = id ∧ s.knows id = false then some .registered else none
    | .request (.peerAttempt name source now) =>
      if name = id ∧ (s.state.peerAttempt name source now).2 = .accepted then some .admitted else none
    | .request (.latency name ms) =>
      if name = id ∧ (s.state.registry.recordLatency name ms).isOk then some .measured else none
    | .request (.link name ms mbps) =>
      if name = id ∧ (s.state.registry.recordLink name ms mbps).isOk then some .measured else none
    | _ => none

/-- The contacts of a peer over some operations, in their order. -/
def contacts (s : Session) (id : String) : List Operation → List Contact
  | [] => []
  | op :: ops => (w.contact? s id op).toList ++ contacts (w.step s op) id ops

variable {w} {s : Session} {id : String} {p p' : Peer} {op : Operation} {ops : List Operation}

theorem contact?_healthCycle (now : Instant) :
    w.contact? s id (.healthCycle now) = if id ∈ w.evictedBy s now then some .dropped else none := by
  simp [contact?, issued_healthCycle]

theorem contact?_securityCycle (now : Instant) : w.contact? s id (.securityCycle now) = none := by
  simp [contact?, issued_securityCycle]

theorem contact?_eq_dropped_iff : w.contact? s id op = some .dropped ↔ ∃ d ∈ w.issued s op, d.id = id := by
  unfold contact?
  constructor
  · intro h
    by_contra hnone
    rw [if_neg hnone] at h
    -- All that requests tell is that a peer is connected.
    split at h
    all_goals simp at h
  · intro h
    exact if_pos h

/-- A registration connects the peer. -/
theorem exists_contact_of_registration {address : String} {now : Instant} (hunknown : s.knows id = false)
    (h : registration? s id op = some (address, now)) : ∃ c, w.contact? s id op = some c ∧ c.connects = true := by
  cases op with
  | securityCycle | healthCycle => cases h
  | request r =>
    cases r with
    | register name address' now' =>
      obtain ⟨rfl, -⟩ := Option.ite_none_right_eq_some.mp h
      exact ⟨.registered, by simp [contact?, issued_request, hunknown], rfl⟩
    | peerAttempt name source now' =>
      obtain ⟨⟨rfl, haccepted⟩, -⟩ := Option.ite_none_right_eq_some.mp h
      exact ⟨.admitted, by simp [contact?, issued_request, haccepted], rfl⟩
    | _ => cases h

/-- A known peer is connected as its contact in an operation says, and without a contact it stays as it was. -/
theorem active_step (hp : s.state.registry.get? id = some p)
    (hp' : (w.step s op).state.registry.get? id = some p') :
    p'.active = ((w.contact? s id op).map Contact.connects).getD p.active := by
  cases op with
  | request r =>
    rw [get?_step_request hp] at hp'
    obtain rfl := Option.some.inj hp'
    have hknown : s.knows id = true := Session.knows_iff.mpr ⟨p, hp⟩
    cases r with
    | register => simp [contact?, issued_request, hknown, State.servedPeer]
    | peerAttempt | latency | link =>
      simp only [contact?, issued_request, State.servedPeer]
      split <;> simp_all [Peer.withLatency, Peer.withThroughput, Contact.connects]
    | success | failure | throughput | blockPeer =>
      simp only [contact?, issued_request, State.servedPeer]
      split <;> rfl
    | attempt | outcome | banAddress | liftBan => simp [contact?, issued_request, State.servedPeer]
  | securityCycle now =>
    have hcycle : (w.securityCycle s now).1.state.registry.get? id = some p' := hp'
    rw [securityCycle_state] at hcycle
    obtain ⟨trust, ban, rfl⟩ := State.exists_of_get?_securityCycle _ _ _ _ _ hp hcycle
    obtain ⟨trust', clusterFlags, hdetected⟩ := s.state.detectedPeer_eq w.config w.classifier s.asked now id p
    rw [contact?_securityCycle, hdetected]
    rfl
  | healthCycle now =>
    rw [get?_step_healthCycle hp] at hp'
    obtain rfl := Option.some.inj hp'
    rw [contact?_healthCycle]
    split <;> rfl

/-- Over a run, a known peer is connected as its latest contact says. -/
theorem active_run (hp : s.state.registry.get? id = some p)
    (hknown : ∀ since, since <+: ops → (w.run s since).knows id = true)
    (hp' : (w.run s ops).state.registry.get? id = some p') :
    p'.active = ((w.contacts s id ops).getLast?.map Contact.connects).getD p.active := by
  induction ops generalizing s p with
  | nil =>
    obtain rfl := Option.some.inj (hp.symm.trans hp')
    rfl
  | cons op ops ih =>
    obtain ⟨p₁, hp₁⟩ : ∃ p₁, (w.step s op).state.registry.get? id = some p₁ :=
      Session.knows_iff.mp (hknown [op] ⟨ops, rfl⟩)
    have hrest : ∀ since, since <+: ops → (w.run (w.step s op) since).knows id = true := fun since hsince =>
      hknown (op :: since) (List.cons_prefix_cons.mpr ⟨rfl, hsince⟩)
    rw [ih hp₁ hrest hp', active_step hp hp₁, contacts, List.getLast?_append]
    -- The first operation has the last word only if there is no contact after it.
    cases (w.contacts (w.step s op) id ops).getLast? with
    | some c => rfl
    | none => cases w.contact? s id op <;> rfl

/-! ## Between two drops -/

/-- A peer that becomes connected has a contact that connects it. -/
theorem exists_contact_of_isActive_step (hbefore : s.state.registry.isActive id = false)
    (hafter : (w.step s op).state.registry.isActive id = true) :
    ∃ c, w.contact? s id op = some c ∧ c.connects = true := by
  obtain ⟨p', hp', hactive'⟩ := (Option.any_eq_true ..).mp hafter
  cases hp : s.state.registry.get? id with
  | none =>
    have hstep := w.get?_step_of_unknown hp op
    rw [hp'] at hstep
    obtain ⟨⟨address, now⟩, hregistration, -⟩ := Option.map_eq_some_iff.mp hstep.symm
    exact exists_contact_of_registration (Session.not_knows_iff.mpr hp) hregistration
  | some p =>
    have hactive : p.active = false := by simpa [Registry.isActive, hp] using hbefore
    have hstep := active_step hp hp'
    rw [hactive', hactive] at hstep
    cases hcontact : w.contact? s id op with
    | none =>
      rw [hcontact] at hstep
      cases hstep
    | some c =>
      rw [hcontact] at hstep
      exact ⟨c, rfl, hstep.symm⟩

theorem exists_contact_of_isActive_run (hbefore : s.state.registry.isActive id = false)
    (hafter : (w.run s ops).state.registry.isActive id = true) : ∃ c ∈ w.contacts s id ops, c.connects = true := by
  induction ops generalizing s with
  | nil =>
    rw [run_nil, hbefore] at hafter
    cases hafter
  | cons op ops ih =>
    cases hfirst : (w.step s op).state.registry.isActive id with
    | true =>
      obtain ⟨c, hcontact, hconnects⟩ := exists_contact_of_isActive_step hbefore hfirst
      exact ⟨c, by simp [contacts, hcontact], hconnects⟩
    | false =>
      obtain ⟨c, hmem, hconnects⟩ := ih hfirst hafter
      exact ⟨c, List.mem_append_right _ hmem, hconnects⟩

/-- Only a health cycle drops anybody, and it drops whom it evicts. -/
theorem exists_healthCycle_of_mem_issued {d : Disconnect} (h : d ∈ w.issued s op) :
    ∃ now, op = .healthCycle now ∧ d.id ∈ w.evictedBy s now := by
  cases op with
  | request r =>
    rw [issued_request] at h
    cases h
  | securityCycle now =>
    rw [issued_securityCycle] at h
    cases h
  | healthCycle now =>
    rw [issued_healthCycle] at h
    obtain ⟨id, hid, rfl⟩ := List.mem_map.mp h
    exact ⟨now, rfl, hid⟩

theorem isActive_of_mem_evictedBy {now : Instant} (h : id ∈ w.evictedBy s now) :
    s.state.registry.isActive id = true := by
  rcases w.evictedBy_eq s now with hnobody | hranking
  · rw [hnobody] at h
    cases h
  · rw [hranking] at h
    exact Pool.isActive_of_mem_evicted h

theorem nodup_evictedBy (w : Warden) (s : Session) (now : Instant) : (w.evictedBy s now).Nodup := by
  rcases w.evictedBy_eq s now with hnobody | hranking
  · rw [hnobody]
    exact List.nodup_nil
  · rw [hranking]
    exact Pool.evicted_sublist.nodup Pool.nodup_ranked

/-- Whoever is dropped was connected just before. -/
theorem isActive_of_mem_issued {d : Disconnect} (h : d ∈ w.issued s op) : s.state.registry.isActive d.id = true := by
  obtain ⟨now, -, hevicted⟩ := exists_healthCycle_of_mem_issued h
  exact isActive_of_mem_evictedBy hevicted

/-- Whoever is dropped is not connected afterwards. -/
theorem isActive_step_of_dropped (h : w.contact? s id op = some .dropped) :
    (w.step s op).state.registry.isActive id = false := by
  obtain ⟨d, hd, rfl⟩ := contact?_eq_dropped_iff.mp h
  obtain ⟨now, rfl, hevicted⟩ := exists_healthCycle_of_mem_issued hd
  show (w.healthCycle s now).1.state.registry.isActive d.id = false
  rw [Registry.isActive, get?_healthCycle]
  cases s.state.registry.get? d.id with
  | none => rfl
  | some p => simp [hevicted]

/-! ## Agreement -/

/-- How registry and connection layer agree after a run. -/
structure ConnectionsAgree (w : Warden) (ops : List Operation) : Prop where
  /-- A known peer is not connected exactly if the latest contact since its registration was to be dropped. -/
  latest : ∀ id p, (w.run w.start ops).state.registry.get? id = some p →
    ∃ earlier op later, w.KnownSince id ops earlier op later ∧
      (p.active = false ↔ (w.contacts (w.run w.start earlier) id (op :: later)).getLast? = some .dropped)
  /-- The next operation adds to what the connection layer was told and takes nothing back. -/
  told : ∀ op, (w.run w.start (ops ++ [op])).disconnects =
    (w.run w.start ops).disconnects ++ w.issued (w.run w.start ops) op
  /-- If it is a health cycle, it drops the evicted peers, in the order of the report and each of them once. -/
  evicted : ∀ now report, (w.healthCycle (w.run w.start ops) now).2 = .ok report →
    w.issued (w.run w.start ops) (.healthCycle now) =
        report.pool.evicted.map (fun id => { id, reason := evictionReason }) ∧ report.pool.evicted.Nodup
  /-- Any other operation, and a health cycle that fails, drops nobody. -/
  silent : ∀ op, (∀ now, op = .healthCycle now → (w.healthCycle (w.run w.start ops) now).2.isOk = false) →
    w.issued (w.run w.start ops) op = []
  /-- Whoever is dropped was connected just before. -/
  connected : ∀ op, ∀ d ∈ w.issued (w.run w.start ops) op, (w.run w.start ops).state.registry.isActive d.id = true
  /-- Between two drops of a peer there is a contact that connects it. -/
  between : ∀ id first since second, w.contact? (w.run w.start ops) id first = some .dropped →
    w.contact? (w.run w.start (ops ++ first :: since)) id second = some .dropped →
    ∃ c ∈ w.contacts (w.run w.start (ops ++ [first])) id since, c.connects = true

/-- **Registry and connection layer agree** after every run. -/
theorem connections_agree (w : Warden) (ops : List Operation) : w.ConnectionsAgree ops := by
  constructor
  case latest =>
    intro id p hp
    obtain ⟨earlier, op, later, hsince⟩ := w.exists_knownSince (Session.knows_iff.mpr ⟨p, hp⟩)
    refine ⟨earlier, op, later, hsince, ?_⟩
    obtain ⟨address, now, hregistration, hnew⟩ := hsince.exists_registration
    obtain ⟨first, hfirst, hconnects⟩ := exists_contact_of_registration hsince.unknown hregistration
    have hactive := active_run hnew hsince.knows_later (hsince.run_later ▸ hp)
    rw [hactive, contacts, hfirst, List.getLast?_append]
    cases (w.contacts (w.step (w.run w.start earlier) op) id later).getLast? with
    | none =>
      -- Nothing came after the registration, and that one connects.
      have hne : first ≠ .dropped := by
        rintro rfl
        cases hconnects
      simp [Peer.new, hne]
    | some c => cases c <;> simp [Contact.connects]
  case told =>
    intro op
    rw [run_append]
    exact w.disconnects_step _ op
  case evicted =>
    intro now report hreport
    have hevicted : w.evictedBy (w.run w.start ops) now = report.pool.evicted := by
      rw [evictedBy, hreport]
    refine ⟨by rw [issued_healthCycle, hevicted], ?_⟩
    rw [← hevicted]
    exact w.nodup_evictedBy _ now
  case silent =>
    intro op hfailed
    cases op with
    | request r => exact w.issued_request _ r
    | securityCycle now => exact w.issued_securityCycle _ now
    | healthCycle now =>
      have hfailure := hfailed now rfl
      rw [issued_healthCycle, evictedBy]
      cases h : (w.healthCycle (w.run w.start ops) now).2 with
      | error fault => rfl
      | ok report =>
        rw [h] at hfailure
        cases hfailure
  case connected =>
    intro op d hd
    exact isActive_of_mem_issued hd
  case between =>
    intro id first since second hfirst hsecond
    rw [run_append, run_cons] at hsecond
    rw [run_append]
    -- The peer is not connected after the first drop, but it is connected again before the second one.
    have hbefore := isActive_step_of_dropped hfirst
    obtain ⟨d, hd, rfl⟩ := contact?_eq_dropped_iff.mp hsecond
    exact exists_contact_of_isActive_run hbefore (isActive_of_mem_issued hd)

end Warden

end PeerWarden
