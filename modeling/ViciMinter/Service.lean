import ViciMinter.Lib.Await
import ViciMinter.Queries
import ViciMinter.Upgrade

/-!
# The canister as its callers see it

All endpoints of `api/`, with their guards, and the timer. A message opens a task, and
so does a cycle of the timer; a task runs a segment and then waits for a reply of the
ledger, or answers. `rebalance_all` and the preview of all reserves are loops that await
one reserve after the other, and one segment may pass over several reserves that answer
at once.

The minter below is the `Canister`: every segment of a task is a run of it
(`Ran.run` in `Waiting`).
-/

namespace ViciMinter

open Lts

/-! ## Messages -/

inductive Message where
  | addReserve (arg : AddReserveArg)
  | updateReserve (arg : UpdateReserveArg)
  | removeReserve (id : ReserveId)
  | setGlobalPolicy (policy : GlobalPolicy)
  | releaseStuckMintState (reserveId : ReserveId) (idempotencyKey : Option String)
  | rebalanceReserve (id : ReserveId)
  | rebalanceAllReserves
  | manualTopupReserve (arg : ManualTopupArg)
  | previewRebalanceReserve (id : ReserveId)
  | previewRebalanceAllReserves
  | listReserves
  | getReserve (id : ReserveId)
  | getGlobalPolicy
  | getLedgerId
  deriving DecidableEq, Repr

def callerIsNotAnonymous (caller : Principal) : Except String Unit :=
  if caller = .anonymous then .error "anonymous callers are not allowed" else .ok ()

def callerIsController (controllers : List Principal) (caller : Principal) :
    Except String Unit :=
  if caller ∈ controllers then .ok () else .error "caller is not a controller"

/-- The guard of an endpoint. -/
def Message.guard (controllers : List Principal) (caller : Principal) :
    Message → Except String Unit
  | .addReserve _ | .updateReserve _ | .removeReserve _ | .setGlobalPolicy _
  | .releaseStuckMintState _ _ | .rebalanceReserve _ | .rebalanceAllReserves
  | .manualTopupReserve _ => callerIsController controllers caller
  | .previewRebalanceReserve _ | .previewRebalanceAllReserves
  | .listReserves | .getReserve _ | .getGlobalPolicy | .getLedgerId => callerIsNotAnonymous caller

/-- What a task ends with. -/
inductive Answer where
  | rejected (message : String)
  | minter (o : Output)
  | rebalancedAll (results : List (Except MinterError RebalanceResponse))
  | previewed (r : Except MinterError PreviewRebalanceResponse)
  | previewedAll (results : List (Except MinterError PreviewRebalanceResponse))
  | reserves (infos : List ReserveInfo)
  | reserve (r : Except MinterError ReserveInfo)
  | globalPolicy (policy : GlobalPolicy)
  | ledgerId (id : Principal)
  deriving DecidableEq, Repr

/-! ## Tasks -/

inductive TaskId where
  | message (n : Nat) (caller : Principal)
  | timer
  deriving DecidableEq, Repr

/-- A task that waits, with what it keeps across its await. -/
inductive Task where
  | single (op : OpId)
  | sweep (results : List (Except MinterError RebalanceResponse)) (op : OpId)
      (rest : List ReserveId)
  | preview (id : ReserveId) (snap : MintSnapshot)
  | previews (results : List (Except MinterError PreviewRebalanceResponse)) (id : ReserveId)
      (snap : MintSnapshot) (rest : List ReserveId)
  deriving DecidableEq, Repr

/-- The operation a task waits for. -/
def Task.op? : Task → Option OpId
  | single op => some op
  | sweep _ op _ => some op
  | preview _ _ => none
  | previews _ _ _ _ => none

/-- How a segment of a task ends. -/
inductive Reaction where
  | answer (a : Answer)
  | balanceCall (ledgerId : Principal) (account : Account)
  | transferCall (ledgerId : Principal) (arg : TransferArg)
  | skipped
  | lost
  | upgraded
  deriving DecidableEq, Repr

/-- `controllers` are those of the canister when the message arrives. -/
inductive TaskEvent where
  | call (m : Message) (controllers : List Principal) (now : Nat)
  | tick
  | balanceReply (reply : Reply Nat) (now : Nat)
  | transferReply (reply : Reply (Except TransferError Nat))
  | lose
  deriving DecidableEq, Repr

/-! ## The rounds of the loops -/

/-- The first segment of `rebalance_one`. -/
def rebalanceStart (w : World) (id : ReserveId) :
    World × (Except MinterError RebalanceResponse ⊕ (OpId × MintSnapshot)) :=
  match rebalanceBegin w.state id with
  | (s, .error e) => ({ w with state := s }, .inl (.error e))
  | (s, .ok snap) => (w.suspend s (.awaitBalance id snap), .inr (w.nextOp, snap))

/-- The first segment of `preview_inner`. -/
def previewStart (s : State) (id : ReserveId) :
    State × (Except MinterError PreviewRebalanceResponse ⊕ MintSnapshot) :=
  match previewBegin s id with
  | .error e => (s, .inl (.error e))
  | .ok snap => (s, .inr snap)

/-! ## Segments -/

/-- What a segment makes of the minter and of its task. -/
abbrev Moved := World × Option Task × Reaction

/-- A segment of one operation, or an admin call. -/
def settle : World × Output → Moved
  | (w, .balanceCall n ledgerId account) => (w, some (.single n), .balanceCall ledgerId account)
  | (w, .transferCall n ledgerId arg) => (w, some (.single n), .transferCall ledgerId arg)
  | (w, o) => (w, none, .answer (.minter o))

/-- The loop of `rebalance_all` goes on. -/
def sweepOn (w : World) (results : List (Except MinterError RebalanceResponse))
    (ids : List ReserveId) : Moved :=
  match Await.loop rebalanceStart w results ids with
  | (w, .done results) => (w, none, .answer (.rebalancedAll results))
  | (w, .waits results _ (n, snap) rest) =>
    (w, some (.sweep results n rest), .balanceCall snap.ledgerId snap.config.account)

/-- A segment of the operation that the loop waits for. -/
def settleSweep (results : List (Except MinterError RebalanceResponse)) (rest : List ReserveId) :
    World × Output → Moved
  | (w, .rebalanced r) => sweepOn w (results ++ [r]) rest
  | (w, .transferCall n ledgerId arg) =>
    (w, some (.sweep results n rest), .transferCall ledgerId arg)
  | (w, o) => (w, none, .answer (.minter o))

/-- The loop of `preview_rebalance_all_reserves` goes on. -/
def previewOn (w : World) (results : List (Except MinterError PreviewRebalanceResponse))
    (ids : List ReserveId) : Moved :=
  match Await.loop previewStart w.state results ids with
  | (_, .done results) => (w, none, .answer (.previewedAll results))
  | (_, .waits results id snap rest) =>
    (w, some (.previews results id snap rest), .balanceCall snap.ledgerId snap.config.account)

/-- The first segment of a message that its guard has let through. -/
def handle (w : World) (now : Nat) : Message → Option Moved
  | .addReserve arg => (w.step (.addReserve arg)).map settle
  | .updateReserve arg => (w.step (.updateReserve arg)).map settle
  | .removeReserve id => (w.step (.removeReserve id)).map settle
  | .setGlobalPolicy policy => (w.step (.setGlobalPolicy policy)).map settle
  | .releaseStuckMintState id key => (w.step (.releaseStuckMintState id key)).map settle
  | .rebalanceReserve id => (w.step (.rebalance id)).map settle
  | .rebalanceAllReserves => some (sweepOn w [] w.state.reserves.keys)
  | .manualTopupReserve arg => (w.step (.manualTopup arg now)).map settle
  | .previewRebalanceReserve id =>
    match previewBegin w.state id with
    | .error e => some (w, none, .answer (.previewed (.error e)))
    | .ok snap =>
      some (w, some (.preview id snap), .balanceCall snap.ledgerId snap.config.account)
  | .previewRebalanceAllReserves => some (previewOn w [] w.state.reserves.keys)
  | .listReserves => some (w, none, .answer (.reserves (listReserves w.state)))
  | .getReserve id => some (w, none, .answer (.reserve (getReserveImpl w.state id)))
  | .getGlobalPolicy => some (w, none, .answer (.globalPolicy (getGlobalPolicy w.state)))
  | .getLedgerId => some (w, none, .answer (.ledgerId (getLedgerId w.state)))

/-- One segment of a task. -/
def segment (w : World) : TaskId → Option Task → TaskEvent → Option Moved
  | .message _ caller, none, .call m controllers now =>
    match m.guard controllers caller with
    | .error message => some (w, none, .answer (.rejected message))
    | .ok () => handle w now m
  | .timer, none, .tick => some (sweepOn w [] w.state.reserves.keys)
  -- a cycle that still runs makes the timer skip this one
  | .timer, some task, .tick => some (w, some task, .skipped)
  | _, some (.single n), .balanceReply reply now => (w.step (.balanceReply n reply now)).map settle
  | _, some (.single n), .transferReply reply => (w.step (.transferReply n reply)).map settle
  | _, some (.sweep results n rest), .balanceReply reply now =>
    (w.step (.balanceReply n reply now)).map (settleSweep results rest)
  | _, some (.sweep results n rest), .transferReply reply =>
    (w.step (.transferReply n reply)).map (settleSweep results rest)
  | _, some (.preview id snap), .balanceReply reply now =>
    some (w, none, .answer (.previewed (previewEnd id snap reply now)))
  | _, some (.previews results id snap rest), .balanceReply reply now =>
    some (previewOn w (results ++ [previewEnd id snap reply now]) rest)
  | _, some task, .lose =>
    match task.op? with
    | some n => (w.step (.lose n)).map fun (w, _) => (w, none, .lost)
    | none => some (w, none, .lost)
  | _, _, _ => none

/-! ## The service -/

structure Service where
  canister : Canister
  tasks : TaskId → Option Task

inductive ServiceEvent where
  | task (t : TaskId) (e : TaskEvent)
  | upgrade (limit : Nat) (arg : Arg)

namespace Service

def init (ledgerId : Principal) (memory : StableMemory) : Service :=
  ⟨Canister.init ledgerId memory, fun _ => none⟩

/-- The minter of the service. -/
def world (s : Service) : World := s.canister.world

/-- Task `t` has run a segment. -/
def put (s : Service) (t : TaskId) (w : World) (task : Option Task) : Service :=
  ⟨{ s.canister with world := w }, Function.update s.tasks t task⟩

@[simp] theorem put_world (s : Service) (t : TaskId) (w : World) (task : Option Task) :
    (s.put t w task).world = w := rfl

@[simp] theorem put_tasks (s : Service) (t : TaskId) (w : World) (task : Option Task) :
    (s.put t w task).tasks = Function.update s.tasks t task := rfl

def step (candid : Candid) (s : Service) : ServiceEvent → Option (Service × Reaction)
  | .task t e =>
    (segment s.world t (s.tasks t) e).map fun (w, task, r) => (s.put t w task, r)
  | .upgrade limit arg =>
    -- the new code arms the timer again, and no cycle runs
    (s.canister.step candid (.upgrade limit arg)).map fun (canister, _) =>
      (⟨canister, fun _ => none⟩, .upgraded)

abbrev Step (candid : Candid) : Service → ServiceEvent → Service → Prop :=
  Lts.ofFun (step candid)

end Service

end ViciMinter
