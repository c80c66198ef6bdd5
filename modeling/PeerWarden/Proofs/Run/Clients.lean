import PeerWarden.Proofs.Run.Independence

/-!
# Concurrent Clients

Several clients send requests at the same time, and the warden serves them one at a time, in whatever order they
happen to arrive. A schedule is such an order, with the client of each request. Clients that name different peers and
different addresses do not notice each other: every schedule in which each client keeps its own order ends in the same
state and gives the same replies to each client.

Reports that only count commute even if they are about the same peer, as long as they are made at the same instant.

## Main definitions

- `ofClient`: what belongs to one client in a schedule, or in a list of replies
- `Rescheduled`: schedules that differ by swaps of neighbours of different clients
- `State.serveAll`: the state after a schedule, and the replies
- `Report`: the reports that only count

## Main statements

- `Rescheduled.of_ofClient_eq`: schedules with the same requests of each client differ by such swaps
- `serveAll_rescheduled`: the swaps go unnoticed
- `clients_undisturbed`: schedules of clients that name different things, and reports about one peer
-/

namespace PeerWarden

/-! ## Schedules -/

section Schedules

variable {ι α : Type}

/-- What belongs to one client, in the client's own order. -/
def ofClient [DecidableEq ι] (client : ι) (schedule : List (ι × α)) : List α :=
  (schedule.filter fun e => e.1 = client).map Prod.snd

/-- Two schedules that differ by swaps of neighbours of different clients. -/
inductive Rescheduled : List (ι × α) → List (ι × α) → Prop
  | nil : Rescheduled [] []
  | cons (e : ι × α) {xs ys : List (ι × α)} : Rescheduled xs ys → Rescheduled (e :: xs) (e :: ys)
  | swap {d e : ι × α} (h : d.1 ≠ e.1) (xs : List (ι × α)) : Rescheduled (d :: e :: xs) (e :: d :: xs)
  | trans {xs ys zs : List (ι × α)} : Rescheduled xs ys → Rescheduled ys zs → Rescheduled xs zs

namespace Rescheduled

variable {xs ys : List (ι × α)}

theorem refl (xs : List (ι × α)) : Rescheduled xs xs := by
  induction xs with
  | nil => exact .nil
  | cons e xs ih => exact .cons e ih

theorem perm (h : Rescheduled xs ys) : xs.Perm ys := by
  induction h with
  | nil => exact .nil
  | cons e _ ih => exact .cons e ih
  | swap _ xs => exact .swap ..
  | trans _ _ ih₁ ih₂ => exact .trans ih₁ ih₂

/-- The first entry of a client can be moved to the front. -/
theorem to_front {e : ι × α} {before : List (ι × α)} (hbefore : ∀ d ∈ before, d.1 ≠ e.1) (after : List (ι × α)) :
    Rescheduled (e :: (before ++ after)) (before ++ e :: after) := by
  induction before with
  | nil => exact .refl _
  | cons d before ih =>
    have hne : e.1 ≠ d.1 := (hbefore d List.mem_cons_self).symm
    have hrest : ∀ d' ∈ before, d'.1 ≠ e.1 := fun d' hd' => hbefore d' (List.mem_cons_of_mem d hd')
    exact .trans (.swap hne _) (.cons d (ih hrest))

end Rescheduled

variable [DecidableEq ι]

theorem ofClient_cons (client : ι) (e : ι × α) (xs : List (ι × α)) :
    ofClient client (e :: xs) = if e.1 = client then e.2 :: ofClient client xs else ofClient client xs := by
  by_cases h : e.1 = client <;> simp [ofClient, h]

theorem ofClient_append (client : ι) (xs ys : List (ι × α)) :
    ofClient client (xs ++ ys) = ofClient client xs ++ ofClient client ys := by
  simp [ofClient]

theorem ofClient_eq_nil {client : ι} {xs : List (ι × α)} (h : ∀ e ∈ xs, e.1 ≠ client) : ofClient client xs = [] := by
  simpa [ofClient] using h

/-- What a client comes first with stands behind entries of other clients only. -/
theorem exists_split_of_ofClient_eq_cons {client : ι} {a : α} {as : List α} {xs : List (ι × α)}
    (h : ofClient client xs = a :: as) :
    ∃ before after, xs = before ++ (client, a) :: after ∧ ∀ e ∈ before, e.1 ≠ client := by
  obtain ⟨⟨c, a'⟩, rest, hfilter, rfl, -⟩ := List.map_eq_cons_iff.mp h
  obtain ⟨before, after, rfl, hbefore, hclient, -⟩ := List.filter_eq_cons_iff.mp hfilter
  obtain rfl : c = client := by simpa using hclient
  exact ⟨before, after, rfl, fun e he => by simpa using hbefore e he⟩

/-- Schedules with the same entries of each client, in the client's order, differ by swaps alone. -/
theorem Rescheduled.of_ofClient_eq {xs ys : List (ι × α)} (h : ∀ client, ofClient client xs = ofClient client ys) :
    Rescheduled xs ys := by
  induction xs generalizing ys with
  | nil =>
    cases ys with
    | nil => exact .nil
    | cons e ys =>
      have hempty := h e.1
      rw [ofClient_cons, if_pos rfl] at hempty
      cases hempty
  | cons e xs ih =>
    -- The first entry is also the first one of its client in the other schedule, and it is moved to the front there.
    obtain ⟨client, a⟩ := e
    have hfirst := (h client).symm
    rw [ofClient_cons, if_pos rfl] at hfirst
    obtain ⟨before, after, rfl, hbefore⟩ := exists_split_of_ofClient_eq_cons hfirst
    have hrest (c : ι) : ofClient c xs = ofClient c (before ++ after) := by
      have hc := h c
      rw [ofClient_cons, ofClient_append, ofClient_cons] at hc
      rw [ofClient_append]
      by_cases heq : client = c
      · subst heq
        rw [if_pos rfl, if_pos rfl, ofClient_eq_nil hbefore] at hc
        rw [ofClient_eq_nil hbefore]
        exact (List.cons.inj hc).2
      · rwa [if_neg heq, if_neg heq] at hc
    exact .trans (.cons _ (ih hrest)) (.to_front hbefore after)

end Schedules

/-! ## Serving a schedule -/

namespace State

variable {ι : Type}

/-- Serves the requests of a schedule in turn. Each reply goes to the client of the request. -/
def serveAll (s : State) : List (ι × Request) → State × List (ι × Reply)
  | [] => (s, [])
  | (client, r) :: rest =>
    let later := (s.serve r).1.serveAll rest
    (later.1, (client, (s.serve r).2) :: later.2)

/-- Requests of different clients name different peers and different addresses. -/
def ClientsApart (schedule : List (ι × Request)) : Prop :=
  ∀ d ∈ schedule, ∀ e ∈ schedule, d.1 ≠ e.1 → d.2.Apart e.2

instance [DecidableEq ι] (schedule : List (ι × Request)) : Decidable (ClientsApart schedule) :=
  inferInstanceAs (Decidable (∀ d ∈ schedule, ∀ e ∈ schedule, d.1 ≠ e.1 → d.2.Apart e.2))

/-- Swaps of neighbours of different clients go unnoticed. -/
theorem serveAll_rescheduled [DecidableEq ι] {xs ys : List (ι × Request)} (h : Rescheduled xs ys)
    (hapart : ClientsApart xs) (s : State) :
    (s.serveAll xs).1 = (s.serveAll ys).1 ∧
      ∀ client, ofClient client (s.serveAll xs).2 = ofClient client (s.serveAll ys).2 := by
  induction h generalizing s with
  | nil => exact ⟨rfl, fun _ => rfl⟩
  | cons e _ ih =>
    have hrest : ClientsApart _ := fun d hd e' he' =>
      hapart d (List.mem_cons_of_mem e hd) e' (List.mem_cons_of_mem e he')
    obtain ⟨hstate, hreplies⟩ := ih hrest (s.serve e.2).1
    refine ⟨hstate, fun client => ?_⟩
    simp only [serveAll, ofClient_cons, hreplies]
  | @swap d e hne xs =>
    have hde : d.2.Apart e.2 := hapart d (by simp) e (by simp) hne
    -- Each of the two gets the reply that it gets without the other one, and what follows finds the same state.
    refine ⟨?_, fun client => ?_⟩
    · simp only [serveAll, s.serve_comm hde]
    · simp only [serveAll, ofClient_cons, s.serve_comm hde, s.reply_serve hde, s.reply_serve hde.symm]
      by_cases hd : d.1 = client
      · have he : e.1 ≠ client := fun he => hne (hd.trans he.symm)
        rw [if_pos hd, if_pos hd, if_neg he, if_neg he]
      · rw [if_neg hd, if_neg hd]
  | trans hxy _ ih₁ ih₂ =>
    have hmiddle : ClientsApart _ := fun d hd e he =>
      hapart d (hxy.perm.mem_iff.mpr hd) e (hxy.perm.mem_iff.mpr he)
    obtain ⟨hstate₁, hreplies₁⟩ := ih₁ hapart s
    obtain ⟨hstate₂, hreplies₂⟩ := ih₂ hmiddle s
    exact ⟨hstate₁.trans hstate₂, fun client => (hreplies₁ client).trans (hreplies₂ client)⟩

theorem serveAll_fst (s : State) (xs : List (ι × Request)) :
    (s.serveAll xs).1 = (xs.map Prod.snd).foldl (fun s r => (s.serve r).1) s := by
  induction xs generalizing s with
  | nil => rfl
  | cons e xs ih => exact ih (s.serve e.2).1

end State

/-! ## Reports that only count -/

/-- A report about a peer or a connection that only adds to a count. -/
inductive Report where
  | success
  | failure
  | outcome (succeeded : Bool)
  deriving DecidableEq

/-- The request that makes a report about a peer at an instant. -/
def Report.request (id : String) (now : Instant) : Report → Request
  | success => .success id now
  | failure => .failure id now
  | outcome succeeded => .outcome succeeded

namespace State

theorem adjust_adjust (r : Registry) (id : String) (f g : Peer → Peer) :
    (r.adjust id f).adjust id g = r.adjust id (g ∘ f) := by
  refine Registry.ext_get? (fun other => ?_) rfl rfl
  rw [Registry.get?_adjust, Registry.get?_adjust, Registry.get?_adjust]
  by_cases h : other = id <;> simp [h]

/-- A valid and an invalid block at the same instant may be counted in either order. -/
theorem reports_comm (s : State) (id : String) (now : Instant) (a b : Report) :
    ((s.serve (a.request id now)).1.serve (b.request id now)).1 =
      ((s.serve (b.request id now)).1.serve (a.request id now)).1 := by
  have hblocks : ((s.serve (.success id now)).1.serve (.failure id now)).1 =
      ((s.serve (.failure id now)).1.serve (.success id now)).1 := by
    simp only [serve, Registry.recordSuccess, Registry.recordFailure, adjust_adjust]
    rfl
  -- The outcome of a connection names nobody, so it is apart from every request.
  have hleft (succeeded : Bool) (r : Request) : (Request.outcome succeeded).Apart r := by
    constructor <;> intro name hname <;> cases hname
  cases a with
  | outcome succeeded => exact s.serve_comm (hleft succeeded _)
  | success =>
    cases b with
    | success => rfl
    | failure => exact hblocks
    | outcome succeeded => exact s.serve_comm (hleft succeeded _).symm
  | failure =>
    cases b with
    | success => exact hblocks.symm
    | failure => rfl
    | outcome succeeded => exact s.serve_comm (hleft succeeded _).symm

/-- Every such report is taken note of, whatever came before. -/
theorem ofClient_serveAll_reports {ι : Type} [DecidableEq ι] (s : State) (id : String) (now : Instant)
    (reports : List (ι × Report)) (client : ι) :
    ofClient client (s.serveAll (reports.map fun e => (e.1, e.2.request id now))).2 =
      (ofClient client reports).map fun _ => .done := by
  induction reports generalizing s with
  | nil => rfl
  | cons e reports ih =>
    have hdone : (s.serve (e.2.request id now)).2 = .done := by cases e.2 <;> rfl
    rw [List.map_cons, serveAll, ofClient_cons, ofClient_cons, hdone, ih, apply_ite (List.map _)]
    rfl

/-- **Concurrent clients do not disturb each other.** If requests of different clients name different peers and
    different addresses, then all schedules in which each client keeps its own order end in the same state, and each
    client gets the same replies. Reports of valid blocks, invalid blocks and outcomes about one peer and at one
    instant may even be mixed freely: the state in the end depends only on how many there are of each. -/
theorem clients_undisturbed {ι : Type} [DecidableEq ι] (s : State) :
    (∀ xs ys : List (ι × Request), ClientsApart xs → (∀ client, ofClient client xs = ofClient client ys) →
      (s.serveAll xs).1 = (s.serveAll ys).1 ∧
        ∀ client, ofClient client (s.serveAll xs).2 = ofClient client (s.serveAll ys).2) ∧
    ∀ (id : String) (now : Instant) (xs ys : List (ι × Report)),
      (∀ report, (xs.map Prod.snd).count report = (ys.map Prod.snd).count report) →
      (s.serveAll (xs.map fun e => (e.1, e.2.request id now))).1 =
          (s.serveAll (ys.map fun e => (e.1, e.2.request id now))).1 ∧
        ∀ client, ofClient client (s.serveAll (xs.map fun e => (e.1, e.2.request id now))).2 =
          (ofClient client xs).map fun _ => .done := by
  constructor
  · intro xs ys hapart hsame
    exact serveAll_rescheduled (.of_ofClient_eq hsame) hapart s
  · intro id now xs ys hcount
    refine ⟨?_, s.ofClient_serveAll_reports id now xs⟩
    have hperm : (xs.map Prod.snd).Perm (ys.map Prod.snd) := List.perm_iff_count.mpr hcount
    -- The state does not depend on who reports.
    have hreports (reports : List (ι × Report)) : (s.serveAll (reports.map fun e => (e.1, e.2.request id now))).1 =
        (reports.map Prod.snd).foldl (fun s report => (s.serve (report.request id now)).1) s := by
      rw [serveAll_fst, List.map_map, List.foldl_map, List.foldl_map]
      rfl
    rw [hreports, hreports]
    exact hperm.foldl_eq' (fun a _ b _ u => u.reports_comm id now a b) s

/-- A relay and an operator, and three reports about one peer in two orders. -/
theorem clients_undisturbed_relay_operator :
    let s := State.initial {}
    let relay := true
    let operator := false
    let xs : List (Bool × Request) :=
      [(relay, .register "p" "a" 0), (operator, .banAddress "b" "abuse" none 0), (relay, .peerAttempt "p" "a" 1),
        (operator, .peerAttempt "q" "b" 1), (relay, .failure "p" 2)]
    let ys : List (Bool × Request) :=
      [(operator, .banAddress "b" "abuse" none 0), (operator, .peerAttempt "q" "b" 1), (relay, .register "p" "a" 0),
        (relay, .peerAttempt "p" "a" 1), (relay, .failure "p" 2)]
    let us : List (Bool × Report) := [(relay, .success), (operator, .failure), (relay, .outcome false)]
    let vs : List (Bool × Report) := [(relay, .outcome false), (relay, .failure), (relay, .success)]
    ClientsApart xs ∧ (∀ client, ofClient client xs = ofClient client ys) ∧
      (∀ report, (us.map Prod.snd).count report = (vs.map Prod.snd).count report) ∧
      (s.serveAll xs).1 = (s.serveAll ys).1 ∧
      (∀ client, ofClient client (s.serveAll xs).2 = ofClient client (s.serveAll ys).2) ∧
      (s.serveAll (us.map fun e => (e.1, e.2.request "p" 3))).1 =
        (s.serveAll (vs.map fun e => (e.1, e.2.request "p" 3))).1 := by
  intro s relay operator xs ys us vs
  have hapart : ClientsApart xs := by decide
  have hsame : ∀ client, ofClient client xs = ofClient client ys := by
    intro client
    cases client <;> rfl
  have hcount : ∀ report, (us.map Prod.snd).count report = (vs.map Prod.snd).count report := by
    rintro (_ | _ | _ | _) <;> rfl
  obtain ⟨hrequests, hreports⟩ := @clients_undisturbed Bool _ s
  obtain ⟨hstate, hreplies⟩ := hrequests xs ys hapart hsame
  exact ⟨hapart, hsame, hcount, hstate, hreplies, (hreports "p" 3 us vs hcount).1⟩

end State

end PeerWarden
