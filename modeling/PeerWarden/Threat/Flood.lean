import PeerWarden.Admission.Attempts
import PeerWarden.Audit.Event
import PeerWarden.Config
import PeerWarden.Peer.Registry

/-!
# Floods

An address that makes more attempts within the sliding window than the rate limit allows is banned. Its
attempts are forgotten, and the flood is counted against every peer behind it.
-/

namespace PeerWarden

/-- What the search for floods leaves behind. -/
structure FloodOutcome where
  registry : Registry
  attempts : AttemptLog
  bans : BanList
  /-- The banned addresses with their attempts. -/
  offenders : Directory String Nat
  /-- The attempts of the addresses within the limit. -/
  rates : Directory String Nat
  events : List Event

namespace Flood

/-- The ban on an address that floods. -/
def ban (cfg : Config.DosProtection) (now : Instant) : Ban :=
  { reason := "DoS attack", expires := deadlineAfter now cfg.blacklistDuration }

/-- The finding about an address that floods. -/
def finding (cfg : Config.DosProtection) (now : Instant) (address : String) (attempts : Nat) : Event :=
  { time := now
    attack := .dos
    subject := address
    severity := .critical
    description := s!"DoS attempt: {attempts} requests in {cfg.window.wholeSeconds}s"
    action := .blocked }

/-- Bans some addresses. -/
def banAll (ban : Ban) (addresses : List String) (bans : BanList) : BanList :=
  addresses.foldl (fun bans address => bans.insert address ban) bans

/-- Bans every address with more attempts in the window than the limit allows. -/
def detect (cfg : Config.DosProtection) (now : Instant) (registry : Registry) (attempts : AttemptLog)
    (bans : BanList) : FloodOutcome :=
  let recent := attempts.prune now cfg.window
  let offenders := recent.counts.filter fun _ n => decide (cfg.rateLimit < n)
  -- A banned address starts again with an empty queue, also when it was banned before.
  { registry := registry.map fun _ p => if offenders.contains p.address then p.noteFlood else p
    attempts := recent.filter fun address _ => !offenders.contains address
    bans := banAll (ban cfg now) offenders.keys bans
    offenders
    rates := recent.counts.filter fun _ n => decide (n ≤ cfg.rateLimit)
    events := offenders.entries.map fun e => finding cfg now e.1 e.2 }

end Flood

end PeerWarden
