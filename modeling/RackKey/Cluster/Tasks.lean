import RackKey.Cluster.Concurrent
import RackKey.Cluster.Durable
import RackKey.Lib.KeyValue

set_option autoImplicit false

/-! # All requests of all clients at the same time

The master handles every request of a client in a task of its own, whatever its key. The steps of
the tasks are interleaved in any order, with health checks and restarts of storage nodes on their
files (`removeExistingStoreFile` is off). A request to a node may not reach it, and a reply may get
lost.

`when_all` is over when all requests of a task to the nodes are done, or as soon as one of them has
failed. So a handler may answer an error while others of its requests are still on their way; a
node may handle such a request at any later time. (The continuations that would then run use an
endpoint that is gone. They are left out.)

A step shows the client an event when the answer to a request is decided: for a PUT and a DELETE
that succeed, when the map is changed. A null pointer that is dereferenced shows as a crash.

The tasks of `Concurrent` are tasks of one key (`OneKey`), and `NullMap` takes PUTs and DELETEs of
one key in finer steps (`SingleSteps`).
-/

namespace RackKey

open Std Words Payloads DiskStorage

namespace Tasks

open Cluster
open Concurrent (Stage)

/-- What a client sees. A GET that is answered with an error, or not at all, gives nothing. -/
inductive Event where
  | answered (e : KeyValue.Event Bytes Bytes)
  | crashed
  deriving DecidableEq

/-- The variables of the three handlers. -/
inductive Job where
  | put (payload : Bytes) (nodeBlockMap : ExtTreeMap Nat (List Block)) (success : Bool)
      (blockNodeMap : BlockNodeMap)
  | get (nodeBlockMap : ExtTreeMap Nat (List UInt32)) (success : Bool)
      (blockMap : ExtTreeMap UInt32 Block)
  | delete (nodeIds : ExtTreeSet Nat) (success : Bool)

/-- The request of a client for a key. Its requests to the nodes outlive it when it is answered
early. -/
structure Task where
  key : Bytes
  job : Job
  stage : Nat → Stage
  answered : Bool

/-- The cluster, and the tasks by their numbers. -/
structure State where
  cluster : Cluster
  tasks : Nat → Option Task

inductive Step where
  | put (id fuel : Nat) (key payload : Bytes)
  | get (id : Nat) (key : Bytes)
  | delete (id : Nat) (key : Bytes)
  | keys
  | handle (id nodeId : Nat) (reached : Bool)
  | lose (id nodeId : Nat)
  | receive (id nodeId : Nat)
  | finish (id : Nat)
  | health (healthy : Nat → Bool)
  | restart (nodeId : Nat) (junk : Junk)

namespace Job

/-- The nodes that requests are sent to. -/
def nodes : Job → List Nat
  | put _ nodeBlockMap _ _ => nodeBlockMap.keys
  | get nodeBlockMap _ _ => nodeBlockMap.keys
  | delete nodeIds _ => nodeIds.toList

def request (key : Bytes) (nodeId : Nat) : Job → Request
  | put _ nodeBlockMap _ _ =>
      ⟨.PUT, storeUri key, Block.serializeAll (nodeBlockMap.getD nodeId [])⟩
  | get nodeBlockMap _ _ => ⟨.GET, storeUri key, blockNumBytes (nodeBlockMap.getD nodeId [])⟩
  | delete _ _ => ⟨.DEL, storeUri key, []⟩

def success : Job → Bool
  | put _ _ success _ => success
  | get _ success _ => success
  | delete _ success => success

/-- The request may change what is stored for its key. -/
def changes : Job → Bool
  | get _ _ _ => false
  | _ => true

/-- The continuations of `sendBlocks`, `getBlocks` and `deleteBlocks`; `none` when a null pointer is
dereferenced. -/
def receive (key : Bytes) (nodeId : Nat) (reply : Option Response) (m : MasterServer) :
    Job → Option (Job × MasterServer)
  | put payload nodeBlockMap success blockNodeMap =>
      let p := assign key nodeId (nodeBlockMap.getD nodeId []) (success, blockNodeMap) m reply
      some (put payload nodeBlockMap p.1.1 p.1.2, p.2)
  | get nodeBlockMap success blockMap =>
      let p := collect (success, blockMap) reply
      some (get nodeBlockMap p.1 p.2, m)
  | delete nodeIds success =>
      match accepted reply with
      | none => some (delete nodeIds false, m)
      | some sizeInfo =>
          if key ∈ m.keyBlockNodeMap then
            some (delete nodeIds success,
              m.updateStats nodeId 0 (m.existingBlocks key nodeId) sizeInfo)
          else none

end Job

/-- Erase the inner map of a key. -/
def eraseEntry (c : Cluster) (key : Bytes) : Cluster :=
  { c with
    master := { c.master with keyBlockNodeMap := c.master.keyBlockNodeMap.erase key } }

/-- The ends of the handlers: what is answered, and the cluster then. -/
def Job.finish (key : Bytes) (c : Cluster) : Job → KeyValue.Event Bytes Bytes × Cluster
  | put payload _ success blockNodeMap =>
      (.put key payload success, if success then c.record (padded key) blockNodeMap else c)
  | get _ success blockMap => (.get key (if success then some (recombine blockMap) else none), c)
  | delete _ success => (.delete key success, if success then eraseEntry c (padded key) else c)

/-- `when_all` is over. -/
def Task.Over (t : Task) : Prop :=
  (∀ n ∈ t.job.nodes, t.stage n = .received) ∨ t.job.success = false

instance (t : Task) : Decidable t.Over := inferInstanceAs (Decidable (_ ∨ _))

def State.setTask (s : State) (id : Nat) (task : Task) : State :=
  { s with tasks := Function.update s.tasks id (some task) }

def State.setCluster (s : State) (c : Cluster) : State := { s with cluster := c }

/-- The keys of the map as `/keys` lists them. -/
def listed (c : Cluster) : List Bytes :=
  c.master.keyBlockNodeMap.keys.map StringUtils.removeNullChars

/-- The beginning of `getHandler`; `none` when it is answered at once. -/
def startGet (c : Cluster) (key : Bytes) : Option Job :=
  (c.master.keyBlockNodeMap[key]?).bind fun blockNodeMap =>
    (c.chooseNodes blockNodeMap.toList).map fun choices => .get (Groups.group choices) true ∅

/-- The beginning of `deleteHandler`. -/
def startDelete (c : Cluster) (key : Bytes) : Option Job :=
  (c.master.keyBlockNodeMap[key]?).map fun blockNodeMap => .delete (allNodeIds blockNodeMap) true

section Step

variable (env : Env) (d m : UInt32)

/-- A request that is sent to the nodes, or answered at once. -/
def State.begin (s : State) (id : Nat) (key : Bytes) (refused : KeyValue.Event Bytes Bytes) :
    Option Job → Option (Option Event × State)
  | none => some (some (.answered refused), s)
  | some job => some (none, s.setTask id ⟨key, job, fun _ => .sent, false⟩)

/-- A step of the task `t`, whose number is `id`. -/
def taskStep (s : State) (id : Nat) (t : Task) : Step → Option (Option Event × State)
  | .handle _ n reached =>
      if n ∈ t.job.nodes ∧ t.stage n = .sent then
        let r := s.cluster.send env (fun _ => reached) n (t.job.request (padded t.key) n)
        some (none, (s.setCluster r.2).setTask id
          { t with stage := Function.update t.stage n (.replied r.1) })
      else none
  | .lose _ n =>
      match t.stage n with
      | .replied _ =>
          some (none, s.setTask id { t with stage := Function.update t.stage n (.replied none) })
      | _ => none
  | .receive _ n =>
      match t.stage n with
      | .replied reply =>
          if t.answered then none
          else match t.job.receive (padded t.key) n reply s.cluster.master with
            | none => some (some .crashed, s)
            | some p => some (none, (s.setCluster { s.cluster with master := p.2 }).setTask id
                { t with job := p.1, stage := Function.update t.stage n .received })
      | _ => none
  | .finish _ =>
      if t.answered = false ∧ t.Over then
        let p := t.job.finish t.key s.cluster
        some (some (.answered p.1), (s.setCluster p.2).setTask id { t with answered := true })
      else none
  | _ => none

def step (s : State) (op : Step) : Option (Option Event × State) :=
  match op with
  | .put id fuel key payload =>
      if s.tasks id = none then
        (s.cluster.distribute env fuel (padded key) payload).bind fun nodeBlockMap =>
          s.begin id key (.put key payload false) (some (.put payload nodeBlockMap true ∅))
      else none
  | .get id key =>
      if s.tasks id = none then s.begin id key (.get key none) (startGet s.cluster (padded key))
      else none
  | .delete id key =>
      if s.tasks id = none then
        s.begin id key (.delete key false) (startDelete s.cluster (padded key))
      else none
  | .keys => some (some (.answered (.keys (listed s.cluster))), s)
  | .health healthy => some (none, s.setCluster (s.cluster.withHealth healthy))
  | .restart n junk =>
      ((s.cluster.nodes n).restart d m junk).map fun srv =>
        (none, s.setCluster { s.cluster with nodes := Function.update s.cluster.nodes n srv })
  | .handle id _ _ | .lose id _ | .receive id _ | .finish id =>
      (s.tasks id).bind fun t => taskStep env s id t op

end Step

variable {env : Env} {d m : UInt32} {s s' : State} {e : Option Event} {id n : Nat} {key : Bytes}

/-! ## What a step does -/

theorem begin_eq {refused : KeyValue.Event Bytes Bytes} {job : Option Job}
    (h : s.begin id key refused job = some (e, s')) :
    (job = none ∧ e = some (.answered refused) ∧ s' = s) ∨
      ∃ j, job = some j ∧ e = none ∧ s' = s.setTask id ⟨key, j, fun _ => .sent, false⟩ := by
  cases job with
  | none =>
      cases h
      exact Or.inl ⟨rfl, rfl, rfl⟩
  | some j =>
      cases h
      exact Or.inr ⟨j, rfl, rfl, rfl⟩

theorem step_put {fuel : Nat} {payload : Bytes}
    (h : step env d m s (.put id fuel key payload) = some (e, s')) :
    s.tasks id = none ∧ e = none ∧ ∃ nodeBlockMap,
      s.cluster.distribute env fuel (padded key) payload = some nodeBlockMap ∧
      s' = s.setTask id ⟨key, .put payload nodeBlockMap true ∅, fun _ => .sent, false⟩ := by
  simp only [step] at h
  split at h
  · rename_i hnone
    obtain ⟨nodeBlockMap, hd, hbegin⟩ := Option.bind_eq_some_iff.mp h
    rcases begin_eq hbegin with ⟨hjob, -⟩ | ⟨job, hjob, he, hs'⟩
    · cases hjob
    · obtain rfl := Option.some.inj hjob
      exact ⟨hnone, he, nodeBlockMap, hd, hs'⟩
  · cases h

theorem step_get (h : step env d m s (.get id key) = some (e, s')) :
    s.tasks id = none ∧
      ((startGet s.cluster (padded key) = none ∧ e = some (.answered (.get key none)) ∧ s' = s) ∨
        ∃ job, startGet s.cluster (padded key) = some job ∧ e = none ∧
          s' = s.setTask id ⟨key, job, fun _ => .sent, false⟩) := by
  simp only [step] at h
  split at h
  · rename_i hnone
    exact ⟨hnone, begin_eq h⟩
  · cases h

theorem step_delete (h : step env d m s (.delete id key) = some (e, s')) :
    s.tasks id = none ∧
      ((startDelete s.cluster (padded key) = none ∧ e = some (.answered (.delete key false)) ∧
          s' = s) ∨
        ∃ job, startDelete s.cluster (padded key) = some job ∧ e = none ∧
          s' = s.setTask id ⟨key, job, fun _ => .sent, false⟩) := by
  simp only [step] at h
  split at h
  · rename_i hnone
    exact ⟨hnone, begin_eq h⟩
  · cases h

theorem step_handle {reached : Bool} (h : step env d m s (.handle id n reached) = some (e, s')) :
    ∃ t, s.tasks id = some t ∧ n ∈ t.job.nodes ∧ t.stage n = .sent ∧ e = none ∧
      let r := s.cluster.send env (fun _ => reached) n (t.job.request (padded t.key) n)
      s' = (s.setCluster r.2).setTask id
        { t with stage := Function.update t.stage n (.replied r.1) } := by
  simp only [step] at h
  obtain ⟨t, ht, h⟩ := Option.bind_eq_some_iff.mp h
  simp only [taskStep] at h
  split at h
  · rename_i hn
    cases h
    exact ⟨t, ht, hn.1, hn.2, rfl, rfl⟩
  · cases h

theorem step_receive (h : step env d m s (.receive id n) = some (e, s')) :
    ∃ t reply, s.tasks id = some t ∧ t.stage n = .replied reply ∧ t.answered = false ∧
      ((t.job.receive (padded t.key) n reply s.cluster.master = none ∧ e = some .crashed ∧
          s' = s) ∨
        ∃ p, t.job.receive (padded t.key) n reply s.cluster.master = some p ∧ e = none ∧
          s' = (s.setCluster { s.cluster with master := p.2 }).setTask id
            { t with job := p.1, stage := Function.update t.stage n .received }) := by
  simp only [step] at h
  obtain ⟨t, ht, h⟩ := Option.bind_eq_some_iff.mp h
  simp only [taskStep] at h
  split at h
  · rename_i reply hreply
    split at h
    · cases h
    · rename_i hanswered
      refine ⟨t, reply, ht, hreply, Bool.eq_false_iff.mpr hanswered, ?_⟩
      split at h
      · rename_i hreceive
        cases h
        exact Or.inl ⟨hreceive, rfl, rfl⟩
      · rename_i p hreceive
        cases h
        exact Or.inr ⟨p, hreceive, rfl, rfl⟩
  · cases h

theorem step_finish (h : step env d m s (.finish id) = some (e, s')) :
    ∃ t, s.tasks id = some t ∧ t.answered = false ∧ t.Over ∧
      let p := t.job.finish t.key s.cluster
      e = some (.answered p.1) ∧
        s' = (s.setCluster p.2).setTask id { t with answered := true } := by
  simp only [step] at h
  obtain ⟨t, ht, h⟩ := Option.bind_eq_some_iff.mp h
  simp only [taskStep] at h
  split at h
  · rename_i hover
    cases h
    exact ⟨t, ht, hover.1, hover.2, rfl, rfl⟩
  · cases h

end Tasks

end RackKey
