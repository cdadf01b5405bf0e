import Rollout.Handler.Basic

/-! Commands to the agents of instances and to the controller of clients. An agent takes commands once
its instance runs, and a dependency is announced only when its provider is ready. -/

namespace Rollout.Handler

def Middleware.execute (s : Settings) : Payload → Work
  | .setDependencyAddress i dependency provider address =>
    resolve address fun address =>
      s.provided provider <| s.reach i .init <| s.make (.setDependencyAddress i dependency address)
  | .initializeInstance i runCount accessToken production =>
    s.reach i .init <| s.make (.initializeInstance i ⟨i.id, runCount, accessToken, production⟩)
  | .finalizeInstance i => s.reach i .init <| s.make (.finalizeExecution i)
  | .setStatefulnessParameters i shardKey routerAddress =>
    s.reach i .init <| s.make (.setStatefulnessParameters i shardKey routerAddress)
  | p => wrong "middleware agent" p

def ClientController.execute (s : Settings) : Payload → Work
  | .setClientDependency application clientType clientId dependency provider address =>
    resolve address fun address =>
      s.provided provider <|
        s.make (.setClientDependency ⟨application, clientType, clientId, dependency, address⟩)
  | .disconnectApplicationClients application => s.make (.disconnectApplication application)
  | p => wrong "client controller" p

end Rollout.Handler
