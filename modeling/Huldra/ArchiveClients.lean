import Huldra.Clients
import Huldra.Maintenance

/-!
# ArchiveClients — everything that runs against one archive

The clients of the store, the callers of the broker, the maintenance calls and the collections of
the operators, over one database.
-/

namespace Huldra

open Process (Prog)

inductive ArchiveClient where
  | store (c : Client)
  | ensure (request : ArxivRequest)
  /-- The call, and a bound on the rounds it waits for. -/
  | syncWindows (call : SyncWindowsCall) (rounds : Nat)
  | gc (cutoff : Int) (dryRun : Bool)

inductive ArchiveOutcome where
  | store (outcome : Outcome)
  | ensured (result : ArxivResult)
  | maintenance (result : MaintenanceResult)
  | collected (result : RetentionGCResult)

namespace ArchiveClient

/-- What the process `pid` runs. -/
def program (d : Deployment) : ArchiveClient → Nat → ArchiveProgram ArchiveOutcome
  | .store c, pid => do
      let outcome ← embed (c.program d pid)
      pure (.store outcome)
  | .ensure request, _ => do
      let result ← embed (Broker.ensure d request)
      pure (.ensured result)
  | .syncWindows call rounds, _ => do
      let result ← Maintenance.syncWindows d call rounds
      pure (.maintenance result)
  | .gc cutoff dryRun, _ => do
      let result ← performJob (.gc cutoff dryRun)
      pure (.collected result)

end ArchiveClient

/-- All clients of one deployment over one archive. -/
abbrev archiveFleet (d : Deployment) : Process.System archive :=
  archiveSystem ArchiveClient ArchiveOutcome (ArchiveClient.program d)

end Huldra
