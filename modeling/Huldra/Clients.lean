import Huldra.Harvest

/-!
# Clients — everything that runs against one store

A process is a worker pass, a harvest, or one of the short calls that feed the queue and the
budgets.  All of them share one deployment; a process may be started again after it has ended or
was stopped, and a worker keeps its token when it is.
-/

namespace Huldra

inductive Client where
  | runOnce (targetCacheKeys : Option (List CacheKey))
  | harvestOai (request : OaiHarvestRequest)
  | enqueueRequestForWork (request : ArxivRequest) (cacheKey : CacheKey) (workKind : QueueWorkKind)
      (upstreamBudgetId : Option Uuid)
  | enqueueRefreshIfDue (request : ArxivRequest) (cacheKey : CacheKey)
  | createUpstreamRequestBudget (maxRequests : Nat) (deadlineAt : Option Int)
  | failActiveUpstreamBudgetItems (budgetId : Uuid) (errorCategory errorMessage : String)

inductive Outcome where
  | pass (result : WorkerPassResult)
  | harvest (result : OaiHarvestResult)
  | queued (item : Option QueueItem) (joined : Bool)
  | budget (budgetId : Uuid)
  | done

namespace Client

/-- What the process `pid` runs. -/
def program (d : Deployment) : Client → Nat → Program Outcome
  | .runOnce targets, pid => do
      let result ← Worker.runOnce ⟨d, .worker pid⟩ targets
      pure (.pass result)
  | .harvestOai request, _ => do
      let result ← Harvest.harvestOai d request
      pure (.harvest result)
  | .enqueueRequestForWork request cacheKey workKind budgetId, _ => do
      let queued ← Huldra.enqueueRequestForWork request cacheKey workKind budgetId
        d.settings.requestTimeoutSeconds
      pure (.queued (some queued.1) queued.2)
  | .enqueueRefreshIfDue request cacheKey, _ => do
      let queued ← Huldra.enqueueRefreshIfDue request cacheKey d.settings.requestTimeoutSeconds
      pure (.queued queued.1 queued.2)
  | .createUpstreamRequestBudget maxRequests deadlineAt, _ => do
      let budgetId ← Huldra.createUpstreamRequestBudget maxRequests deadlineAt
      pure (.budget budgetId)
  | .failActiveUpstreamBudgetItems budgetId category message, _ => do
      Huldra.failActiveUpstreamBudgetItems budgetId category message
      pure .done

end Client

/-- All clients of one deployment over one store. -/
abbrev fleet (d : Deployment) : Process.System huldra :=
  storeSystem Client Outcome (Client.program d)

end Huldra
