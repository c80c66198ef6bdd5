import PeerWarden.Config
import PeerWarden.Fault

/-!
# Host Figures

Memory, disk and block rate cannot be measured from the network. A sampler supplies them, once for each
health cycle; it may also break off, which ends that cycle.
-/

namespace PeerWarden

/-- The figures of the host: two shares in percent and the blocks synced per minute. -/
structure HostUsage where
  memPct : Float := 0.0
  diskPct : Float := 0.0
  blockRate : Float := 0.0

namespace HostUsage

/-- The figures under their names, in the order in which they are checked. -/
def fields (u : HostUsage) : List (String × Float) :=
  [("mem_pct", u.memPct), ("disk_pct", u.diskPct), ("block_rate", u.blockRate)]

/-- Refuses figures of which one is infinite or no number, and names the first such one. -/
def check (u : HostUsage) : Except Fault HostUsage :=
  match u.fields.find? fun field => !field.2.isFinite with
  | some (field, value) => .error (.readingMalformed field value)
  | none => .ok u

end HostUsage

/-- What a sampler does when it is asked. -/
inductive Reading where
  | usage (u : HostUsage)
  | crash (message : String)

/-- A sampler: its answer to each request, counted from zero. -/
abbrev Sampler := Nat → Reading

/-- The sampler that always reports the configured figures. -/
def Sampler.fixed (cfg : Config.Sampler) : Sampler := fun _ =>
  .usage { memPct := cfg.memPct, diskPct := cfg.diskPct, blockRate := cfg.blockRate }

/-- The sampler that gives some answers in turn and repeats the last one. -/
def Sampler.scripted (readings : List Reading) : Sampler := fun n =>
  readings[min n (readings.length - 1)]?.getD (.usage {})

end PeerWarden
