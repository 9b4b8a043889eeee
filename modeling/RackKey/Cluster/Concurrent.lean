import RackKey.Cluster.Write

set_option autoImplicit false

/-! # PUTs and GETs of one key at the same time

The master handles every request of a client in a task of its own. A task sends its requests to
the nodes at once. Each of them is later handled by its node, or gets lost, its reply is later
received by the continuation of the task, and when all replies are in, the task finishes: a PUT
replaces the inner map of the key. These steps of the tasks are interleaved in any order; the
master does nothing to keep the tasks of one key apart.
-/

namespace RackKey

open Std Words Payloads

namespace Concurrent

/-- Where a request to a node is: on its way to the node, on its way back, or done. -/
inductive Stage where
  | sent
  | replied (reply : Option Response)
  | received
  deriving DecidableEq, Repr

/-- The variables of the two handlers. -/
inductive Job where
  | put (payload : Bytes) (nodeBlockMap : ExtTreeMap Nat (List Block)) (success : Bool)
      (blockNodeMap : BlockNodeMap)
  | get (nodeBlockMap : ExtTreeMap Nat (List UInt32)) (success : Bool)
      (blockMap : ExtTreeMap UInt32 Block)

/-- A request of a client: under way, or answered. -/
inductive Task where
  | running (job : Job) (stage : Nat → Stage)
  | putDone (payload : Bytes) (answer : Response)
  | getDone (answer : Option Response)

instance (task : Option Task) (payload : Bytes) (answer : Response) :
    Decidable (task = some (.putDone payload answer)) :=
  match task with
  | some (.putDone payload' answer') =>
      decidable_of_iff (payload' = payload ∧ answer' = answer) (by simp)
  | some (.running _ _) => isFalse (by simp)
  | some (.getDone _) => isFalse (by simp)
  | none => isFalse (by simp)

instance (task : Option Task) (answer : Option Response) :
    Decidable (task = some (.getDone answer)) :=
  match task with
  | some (.getDone answer') => decidable_of_iff (answer' = answer) (by simp)
  | some (.running _ _) => isFalse (by simp)
  | some (.putDone _ _) => isFalse (by simp)
  | none => isFalse (by simp)

/-- The cluster, and the tasks by their numbers. -/
structure State where
  cluster : Cluster
  tasks : Nat → Option Task

inductive Step where
  | put (id fuel : Nat) (payload : Bytes)
  | get (id : Nat)
  | handle (id nodeId : Nat) (reached : Bool)
  | receive (id nodeId : Nat)
  | finish (id : Nat)
  | health (healthy : Nat → Bool)

/-- The task that takes the step. -/
def Step.task : Step → Option Nat
  | put id _ _ | get id | handle id _ _ | receive id _ | finish id => some id
  | health _ => none

namespace Job

/-- The nodes that requests are sent to. -/
def nodes : Job → List Nat
  | put _ nodeBlockMap _ _ => nodeBlockMap.keys
  | get nodeBlockMap _ _ => nodeBlockMap.keys

def request (key : Bytes) (nodeId : Nat) : Job → Request
  | put _ nodeBlockMap _ _ =>
      ⟨.PUT, storeUri key, Block.serializeAll (nodeBlockMap.getD nodeId [])⟩
  | get nodeBlockMap _ _ => ⟨.GET, storeUri key, blockNumBytes (nodeBlockMap.getD nodeId [])⟩

/-- The continuations of `sendBlocks` and `getBlocks`. -/
def receive (key : Bytes) (nodeId : Nat) (reply : Option Response) (m : MasterServer) :
    Job → Job × MasterServer
  | put payload nodeBlockMap success blockNodeMap =>
      let p := Cluster.assign key nodeId (nodeBlockMap.getD nodeId []) (success, blockNodeMap) m
        reply
      (put payload nodeBlockMap p.1.1 p.1.2, p.2)
  | get nodeBlockMap success blockMap =>
      let p := Cluster.collect (success, blockMap) reply
      (get nodeBlockMap p.1 p.2, m)

/-- The ends of `putHandler` and `getHandler`. -/
def finish (key : Bytes) (c : Cluster) : Job → Task × Cluster
  | put payload _ success blockNodeMap =>
      if success then (.putDone payload ⟨.OK, []⟩, c.record key blockNodeMap)
      else (.putDone payload ⟨.InternalError, []⟩, c)
  | get _ success blockMap =>
      (.getDone (some (if success then ⟨.OK, Cluster.recombine blockMap⟩
        else ⟨.InternalError, []⟩)), c)

end Job

def State.setTask (s : State) (id : Nat) (task : Task) : State :=
  { s with tasks := Function.update s.tasks id (some task) }

/-- The beginning of `getHandler`. -/
def startGet (c : Cluster) (key : Bytes) : Task :=
  match c.master.keyBlockNodeMap[key]? with
  | none => .getDone (some ⟨.InternalError, []⟩)
  | some blockNodeMap =>
      match c.chooseNodes blockNodeMap.toList with
      | none => .getDone none
      | some choices => .running (.get (Groups.group choices) true ∅) fun _ => .sent

section Step

variable (env : Env) (key : Bytes)

def step (s : State) : Step → Option State
  | .put id fuel payload =>
      match s.tasks id with
      | some _ => none
      | none => (s.cluster.distribute env fuel (padded key) payload).map fun nodeBlockMap =>
          s.setTask id (.running (.put payload nodeBlockMap true ∅) fun _ => .sent)
  | .get id =>
      match s.tasks id with
      | some _ => none
      | none => some (s.setTask id (startGet s.cluster (padded key)))
  | .handle id nodeId reached =>
      match s.tasks id with
      | some (.running job stage) =>
          if nodeId ∈ job.nodes ∧ stage nodeId = .sent then
            let r := s.cluster.send env (fun _ => reached) nodeId
              (job.request (padded key) nodeId)
            some ({ s with cluster := r.2 }.setTask id
              (.running job (Function.update stage nodeId (.replied r.1))))
          else none
      | _ => none
  | .receive id nodeId =>
      match s.tasks id with
      | some (.running job stage) =>
          match stage nodeId with
          | .replied reply =>
              let p := job.receive (padded key) nodeId reply s.cluster.master
              some ({ s with cluster := { s.cluster with master := p.2 } }.setTask id
                (.running p.1 (Function.update stage nodeId .received)))
          | _ => none
      | _ => none
  | .finish id =>
      match s.tasks id with
      | some (.running job stage) =>
          if ∀ nodeId ∈ job.nodes, stage nodeId = .received then
            let p := job.finish (padded key) s.cluster
            some ({ s with cluster := p.2 }.setTask id p.1)
          else none
      | _ => none
  | .health healthy => some { s with cluster := s.cluster.withHealth healthy }

end Step

variable {env : Env} {key : Bytes} {s s' : State} {id n : Nat}

/-! ## What a step does -/

theorem step_put {fuel : Nat} {payload : Bytes}
    (h : step env key s (.put id fuel payload) = some s') :
    s.tasks id = none ∧ ∃ nodeBlockMap,
      s.cluster.distribute env fuel (padded key) payload = some nodeBlockMap ∧
      s' = s.setTask id (.running (.put payload nodeBlockMap true ∅) fun _ => .sent) := by
  unfold step at h
  dsimp only at h
  cases ht : s.tasks id with
  | some task =>
      rw [ht] at h
      cases h
  | none =>
      rw [ht] at h
      obtain ⟨nodeBlockMap, hd, rfl⟩ := Option.map_eq_some_iff.mp h
      exact ⟨rfl, nodeBlockMap, hd, rfl⟩

theorem step_get (h : step env key s (.get id) = some s') :
    s.tasks id = none ∧ s' = s.setTask id (startGet s.cluster (padded key)) := by
  unfold step at h
  dsimp only at h
  cases ht : s.tasks id with
  | some task =>
      rw [ht] at h
      cases h
  | none =>
      rw [ht] at h
      exact ⟨rfl, (Option.some.inj h).symm⟩

theorem step_handle {reached : Bool} (h : step env key s (.handle id n reached) = some s') :
    ∃ job stage, s.tasks id = some (.running job stage) ∧ n ∈ job.nodes ∧ stage n = .sent ∧
      let r := s.cluster.send env (fun _ => reached) n (job.request (padded key) n)
      s' = { s with cluster := r.2 }.setTask id
        (.running job (Function.update stage n (.replied r.1))) := by
  unfold step at h
  dsimp only at h
  split at h
  · rename_i job stage ht
    split at h
    · rename_i hn
      exact ⟨job, stage, ht, hn.1, hn.2, (Option.some.inj h).symm⟩
    · cases h
  · cases h

theorem step_receive (h : step env key s (.receive id n) = some s') :
    ∃ job stage reply, s.tasks id = some (.running job stage) ∧ stage n = .replied reply ∧
      let p := job.receive (padded key) n reply s.cluster.master
      s' = { s with cluster := { s.cluster with master := p.2 } }.setTask id
        (.running p.1 (Function.update stage n .received)) := by
  unfold step at h
  dsimp only at h
  split at h
  · rename_i job stage ht
    split at h
    · rename_i reply hn
      exact ⟨job, stage, reply, ht, hn, (Option.some.inj h).symm⟩
    · cases h
  · cases h

theorem step_finish (h : step env key s (.finish id) = some s') :
    ∃ job stage, s.tasks id = some (.running job stage) ∧
      (∀ n ∈ job.nodes, stage n = .received) ∧
      let p := job.finish (padded key) s.cluster
      s' = { s with cluster := p.2 }.setTask id p.1 := by
  unfold step at h
  dsimp only at h
  split at h
  · rename_i job stage ht
    split at h
    · rename_i hn
      exact ⟨job, stage, ht, hn, (Option.some.inj h).symm⟩
    · cases h
  · cases h

/-- The task is under way. -/
def Running (s : State) (id : Nat) : Prop := ∃ job stage, s.tasks id = some (.running job stage)

theorem setTask_tasks_self (s : State) (id : Nat) (task : Task) :
    (s.setTask id task).tasks id = some task := Function.update_self ..

theorem setTask_tasks_of_ne {s : State} {id id' : Nat} (h : id' ≠ id) (task : Task) :
    (s.setTask id task).tasks id' = s.tasks id' := Function.update_of_ne h ..

theorem tasks_setTask {s : State} {id id' : Nat} {task task' : Task}
    (h : (s.setTask id task).tasks id' = some task') :
    (id' = id ∧ task' = task) ∨ (id' ≠ id ∧ s.tasks id' = some task') := by
  by_cases hid : id' = id
  · subst hid
    rw [setTask_tasks_self] at h
    exact Or.inl ⟨rfl, (Option.some.inj h).symm⟩
  · rw [setTask_tasks_of_ne hid] at h
    exact Or.inr ⟨hid, h⟩

/-- **A step changes its own task only**, which is new or under way. -/
theorem step_tasks {op : Step} (h : step env key s op = some s') :
    (op.task = none ∧ s'.tasks = s.tasks) ∨
      ∃ id c task, op.task = some id ∧ (s.tasks id = none ∨ Running s id) ∧
        s' = { s with cluster := c }.setTask id task := by
  cases op with
  | put id fuel payload =>
      obtain ⟨hnone, nodeBlockMap, -, rfl⟩ := step_put h
      exact Or.inr ⟨id, s.cluster, _, rfl, Or.inl hnone, rfl⟩
  | get id =>
      obtain ⟨hnone, rfl⟩ := step_get h
      exact Or.inr ⟨id, s.cluster, _, rfl, Or.inl hnone, rfl⟩
  | handle id n reached =>
      obtain ⟨job, stage, hrun, -, -, rfl⟩ := step_handle h
      exact Or.inr ⟨id, _, _, rfl, Or.inr ⟨job, stage, hrun⟩, rfl⟩
  | receive id n =>
      obtain ⟨job, stage, reply, hrun, -, rfl⟩ := step_receive h
      exact Or.inr ⟨id, _, _, rfl, Or.inr ⟨job, stage, hrun⟩, rfl⟩
  | finish id =>
      obtain ⟨job, stage, hrun, -, rfl⟩ := step_finish h
      exact Or.inr ⟨id, _, _, rfl, Or.inr ⟨job, stage, hrun⟩, rfl⟩
  | health healthy =>
      obtain rfl := Option.some.inj h
      exact Or.inl ⟨rfl, rfl⟩

theorem tasks_of_ne {op : Step} (h : step env key s op = some s') (hid : op.task ≠ some id) :
    s'.tasks id = s.tasks id := by
  rcases step_tasks h with ⟨-, htasks⟩ | ⟨id', c, task, hid', -, rfl⟩
  · rw [htasks]
  · refine setTask_tasks_of_ne ?_ task
    rintro rfl
    exact hid hid'

theorem foldlM_tasks_of_ne : ∀ {ops : List Step} {s : State},
    ops.foldlM (step env key) s = some s' → (∀ op ∈ ops, op.task ≠ some id) →
      s'.tasks id = s.tasks id
  | [], s, h, _ => by
      obtain rfl := Option.some.inj h
      rfl
  | op :: ops, s, h, hid => by
      rw [List.foldlM_cons, Option.bind_eq_bind, Option.bind_eq_some_iff] at h
      obtain ⟨s₁, h₁, h₂⟩ := h
      rw [foldlM_tasks_of_ne h₂ fun op' hop' => hid op' (by simp [hop']),
        tasks_of_ne h₁ (hid op (by simp))]

/-- **A task that is answered stays as it is.** -/
theorem task_done {op : Step} (h : step env key s op = some s') {task : Task}
    (ht : s.tasks id = some task) (hdone : ¬ Running s id) : s'.tasks id = some task := by
  rw [← ht]
  refine tasks_of_ne h fun hop => ?_
  rcases step_tasks h with ⟨hnone, -⟩ | ⟨id', c, task', hid', hold, -⟩
  · rw [hop] at hnone
    cases hnone
  · -- a step of the task itself finds it new or under way, and it is neither
    obtain rfl : id = id' := Option.some.inj (hop.symm.trans hid')
    rcases hold with hnew | hrun
    · rw [ht] at hnew
      cases hnew
    · exact hdone hrun

end Concurrent

end RackKey
