import ScanPolicy.Host.Evaluation
import ScanPolicy.Pattern.Search
import ScanPolicy.Schedule.Next
import ScanPolicy.Settings
import ScanPolicy.Severity

/-!
# The service

The functions that policy rules call. A missing text gives the answer that holds of nothing; the cap
on hosts is asked for anew at every call.

- `Service.ofSettings?`: the service that the settings ask for.
- `Service.hostsContain`, `Service.hostCount`, `Service.nextTime`, `Service.patternOccurs`.
-/

namespace ScanPolicy

/-- The functions that policy rules call, over a store. -/
structure Service where
  store : Store
  /-- The cap on hosts if the store has none. -/
  fallbackCap : Int

namespace Service

/-- The service over the store that the settings ask for, if it can be made; a live one holds
`fields`. The cap of the settings is also the fallback. -/
def ofSettings? (s : Settings) (fields : List (String × Json)) : Option Service :=
  if s.hasStore then some ⟨s.store fields, s.maxHosts⟩ else none

/-- The cap on hosts. -/
def cap (s : Service) : Traced Int := Settings.resolveCap s.store s.fallbackCap

/-- Whether a host list denotes a host. -/
def hostsContain (s : Service) (hosts host : Option Text) : Traced (Except CapFault Bool) :=
  match hosts, host with
  | some hosts, some host => do HostList.contains hosts host (← s.cap)
  | _, _ => .quiet (.ok false)

/-- The number of hosts that a host list denotes and that are not excluded. -/
def hostCount (s : Service) (hosts exclude : Option Text) : Traced (Except CapFault Nat) :=
  match hosts with
  | some hosts => do HostList.count hosts (exclude.getD []) (← s.cap)
  | none => .quiet (.ok 0)

/-- The next occurrence of a schedule. -/
def nextTime (calendar zoneName : Option Text) (offset : Int) (now : Moment) :
    Descriptor.Reading (Option Moment) :=
  match calendar with
  | some text => Schedule.next text zoneName offset now
  | none => pure none

/-- Whether a pattern occurs in a text. -/
def patternOccurs (text pattern : Option Text) : Traced (Except Pattern.Breach Bool) :=
  match text, pattern with
  | some text, some pattern => Pattern.occurs pattern text
  | _, _ => .quiet (.ok false)

end Service

end ScanPolicy
