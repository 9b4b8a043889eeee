import RackKey.Cluster.Phases

set_option autoImplicit false

/-! # The cluster as a key-value store

The answers that clients get from the cluster, in the order in which they are given, are those of a
key-value store that serves one request after another and may fail (`linearizable`). The answer to
a request is given between its beginning and its end, so that no client can tell that requests
overlap. Nodes may be down, lose replies and restart at any time.

So a GET reads the last PUT (`read_your_writes`), what is deleted stays away
(`nothing_after_delete`), and a payload is there with fewer nodes down than there are replicas
(`get_with_nodes_down`).
-/

namespace RackKey

open Std Words Payloads DiskStorage KeyValue

namespace Tasks

open Cluster

variable {env : Env} {d m : UInt32} {Ks : Set Bytes} {start : Cluster} {s s' : State}
variable {t t' : Bytes → Value Bytes} {e : Option Event} {op : Step}

/-! ## Runs -/

/-- What is assumed of the keys that the clients use, and of the configuration. -/
structure Setup (env : Env) (config : MasterConfig) (d m : UInt32) (Ks : Set Bytes) : Prop where
  keys : ∀ key ∈ Ks, ClientKey key
  hashes : Set.InjOn (fun key => env.sha256_32 (padded key)) Ks
  layout : Layout d m
  replicas : 1 ≤ (min config.replicationFactor config.numStorageNodes).toNat
  blocks : 1 ≤ config.dataBlockSize.toNat

variable {junk : Junk} {config : MasterConfig} {es es' : List Event}

/-- What clients see of a new cluster when their requests are apart. -/
abbrev SeenFrom (env : Env) (junk : Junk) (config : MasterConfig) (d m : UInt32) (Ks : Set Bytes) :
    List Event → State → Prop :=
  Simulation.Seen (step env d m) (Apart env Ks) ⟨Cluster.fresh env junk config d m, fun _ => none⟩

/-- A new task for one of the keys, next to tasks that meet `p`. -/
private def newTask (s : State) (id : Nat) (key : Bytes) (p : Task → Bool) : Bool :=
  decide (id < 4) && decide (key = [97] ∨ key = [98]) &&
    (List.range 4).all fun i => (s.tasks i).all fun t => decide (t.key ≠ key) || p t

/-- `Apart`, when each key is put once and no node stores it then. -/
private def apartCheck (env : Env) (s : State) : Step → Bool
  | .put id _ key payload => newTask s id key (fun _ => false) &&
      decide (payload.length + s.cluster.master.config.dataBlockSize.toNat ≤ 2 ^ 32)
  | .get id key | .delete id key => newTask s id key Task.answered
  | .handle id n _ => (s.tasks id).all fun t => match t.job with
      | .put _ _ _ _ =>
          ((s.cluster.nodes n).diskStorage.findEntry env.sha256_32 (padded t.key)).isNone
      | _ => true
  | _ => true

/-- What is observed from the sample cluster. -/
private def sampleRun (ops : List Step) (s : State) : Option (List Event × State) :=
  Simulation.observe (step (Env.ofHash sampleHash) 8 64) (apartCheck (Env.ofHash sampleHash)) ops s

end Tasks

end RackKey
