import PeerWarden.Audit.Event
import PeerWarden.Config
import PeerWarden.Peer.Registry

/-!
# The Classifier

A model that was trained elsewhere may be asked about every peer that is not blocked. Its answers may depend
on everything it was asked before, it may refuse an answer, and it may break off. What it was asked is kept,
the latest question first.
-/

namespace PeerWarden

/-- What a model is told about a peer. -/
structure Features where
  /-- Attempts per second from the address of the peer. -/
  messageRate : Float
  /-- All blocks that the peer delivered. -/
  history : Float
  reputation : Float

/-- What a model answers. -/
inductive Answer where
  /-- The probability of a threat, if it is a finite number. -/
  | score (probability : Float)
  | refused (cause : String)
  | crash (message : String)

/-- A model: the answer to a question, given the earlier questions. -/
abbrev Classifier := (earlier : List Features) → Features → Answer

namespace Classifier

/-- The model that gives some answers in turn and repeats the last one. -/
def scripted (answers : List Answer) : Classifier := fun earlier _ =>
  answers[min earlier.length (answers.length - 1)]?.getD (.refused "no answer")

/-- The model that weighs the three features. -/
def linear (bias rate history reputation : Float) : Classifier := fun _ f =>
  .score (((bias + rate * f.messageRate) + history * f.history) + reputation * f.reputation)

/-! ## Asking -/

/-- What came of asking a model about some peers. -/
structure Interview where
  /-- The peers that got an answer, in the order of asking. -/
  answers : List (String × Answer) := []
  /-- All questions so far, the latest first. -/
  asked : List Features
  /-- Why the model broke off. -/
  crash : Option String := none

/-- Asks about one peer after the other, until the model breaks off. -/
def interview (model : Classifier) (asked : List Features) : List (String × Features) → Interview
  | [] => { asked }
  | (id, f) :: rest =>
    match model asked f with
    -- A question that breaks the model off has been asked all the same.
    | .crash message => { asked := f :: asked, crash := some message }
    | answer =>
      let later := interview model (f :: asked) rest
      { later with answers := (id, answer) :: later.answers }

/-- What a model is told about a peer. A window shorter than a second counts as one second. -/
def features (cfg : Config.DosProtection) (rates : Directory String Nat) (p : Peer) : Features :=
  { messageRate :=
      Float.ofNat ((rates.get? p.address).getD 0) / Number.atLeast 1.0 cfg.window.toFloat
    history := Float.ofNat p.interactions
    reputation := p.trust }

/-- The peers that a model is asked about, in the order of their identities. -/
def questions (cfg : Config.DosProtection) (rates : Directory String Nat) (r : Registry) :
    List (String × Features) :=
  (r.peers.entries.filter fun e => !e.2.isBlocked).map fun e => (e.1, features cfg rates e.2)

/-! ## Acting on the answers -/

/-- The probability that an answer gives, if it reaches the threshold. -/
def flagged? (threshold : Float) : Answer → Option Float
  | .score probability =>
    if probability.isFinite then
      let p := Number.clampUnit probability
      if p < threshold then none else some p
    else none
  | _ => none

/-- The flagged peers with the probability of a threat, in the order of asking. -/
def flagged (threshold : Float) (answers : List (String × Answer)) : List (String × Float) :=
  answers.filterMap fun (id, answer) => (flagged? threshold answer).map (id, ·)

/-- Caps the trust of a peer at what the probability of a threat leaves. -/
def cap (probability : Float) (p : Peer) : Peer := p.withTrust (Number.lesser p.trust (1.0 - probability))

/-- Caps the trust of the flagged peers. -/
def penalize (flagged : List (String × Float)) (r : Registry) : Registry :=
  r.map fun id p => (flagged.lookup id).elim p (cap · p)

/-- One finding for each flagged peer. -/
def findings (now : Instant) (flagged : List (String × Float)) : List Event :=
  flagged.map fun (id, probability) =>
    { time := now
      attack := .unknown
      subject := id
      severity := .warning
      description := s!"classifier threat probability {Number.fixed 2 probability}"
      action := .penalized }

/-- What the classifier stage leaves behind. -/
structure Outcome where
  registry : Registry
  events : List Event := []
  asked : List Features
  crash : Option String := none

/-- Asks the model, if there is one, about every peer that is not blocked, and acts on its answers. When
    the model breaks off, the answers given so far have taken effect. -/
def consult (model : Option Classifier) (asked : List Features) (cfg : Config) (now : Instant)
    (rates : Directory String Nat) (r : Registry) : Outcome :=
  match model with
  | none => { registry := r, asked }
  | some model =>
    let result := interview model asked (questions cfg.dosProtection rates r)
    let flagged := flagged cfg.security.classifierThreshold result.answers
    { registry := penalize flagged r
      events := findings now flagged
      asked := result.asked
      crash := result.crash }

end Classifier

end PeerWarden
