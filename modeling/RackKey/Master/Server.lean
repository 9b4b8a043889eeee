import Mathlib.Data.List.DropRight
import Mathlib.Data.List.Perm.Basic
import Mathlib.Logic.Function.Basic
import RackKey.Master.HashRing
import RackKey.Storage.Server

set_option autoImplicit false

/-! # The master server

The handlers of the master, over a cluster of the master and its storage nodes. A request that
the master sends to a node is handled by the node's router at once, and its first reply is the
one the master sees; `reach` says which nodes the requests get through to. The per-node
requests of one handler run one after another, in the iteration order of the unordered map
they come from.

The loops over the payload and over the ring take fuel; `none` when it runs out.
-/

namespace RackKey

open Std Words Payloads

/-- What the master takes from outside. -/
structure Env where
  /-- `Crypto::sha256_32`. -/
  sha256_32 : Bytes → UInt32
  /-- The URI a server receives for the one its client sets. -/
  uri : Bytes → Bytes
  /-- The network cuts off trailing null bytes and nothing else. -/
  uri_nul : ∀ p n, 0 ∉ p → uri (p ++ List.replicate n 0) = p
  /-- The order in which an unordered container with the given keys is iterated. -/
  order : List Nat → List Nat
  order_perm : ∀ l, (order l).Perm l
  /-- `createStatsDisplay`, a page with rounded sizes. -/
  createStatsDisplay : ExtTreeMap Nat StorageNode → Bytes

/-- The environment of a hash function in which every iteration is in the order of the keys as
they are listed. -/
def Env.ofHash (sha256_32 : Bytes → UInt32) : Env where
  sha256_32 := sha256_32
  uri := List.rdropWhile (· == 0)
  uri_nul := by
    intro p n hp
    induction n with
    | zero =>
        rw [List.replicate_zero, List.append_nil, List.rdropWhile_eq_self_iff]
        intro hne hlast
        exact hp (eq_of_beq hlast ▸ List.getLast_mem hne)
    | succ n ih =>
        rw [List.replicate_succ', ← List.append_assoc, List.rdropWhile_concat,
          if_pos (by decide), ih]
  order := id
  order_perm := fun l => List.Perm.refl l
  createStatsDisplay := fun _ => []

structure MasterConfig where
  storageNodeIPs : List Bytes
  numVirtualNodes : UInt32
  replicationFactor : UInt32
  dataBlockSize : UInt32
  deriving DecidableEq, Repr

/-- `numStorageNodes`, as `loadVariables` sets it. -/
def MasterConfig.numStorageNodes (config : MasterConfig) : UInt32 :=
  UInt32.ofNat config.storageNodeIPs.length

/-- The inner map of the KBN: block number to the ids of the nodes that store the block. -/
abbrev BlockNodeMap : Type := Multimap UInt32 Nat

abbrev KeyBlockNodeMap : Type := ExtTreeMap Bytes BlockNodeMap

structure MasterServer where
  hashRing : HashRing
  keyBlockNodeMap : KeyBlockNodeMap
  storageNodes : ExtTreeMap Nat StorageNode
  config : MasterConfig

/-- The master and the servers behind its nodes. -/
structure Cluster where
  master : MasterServer
  nodes : Nat → StorageServer

/-! ## Placement -/

namespace MasterServer

variable (env : Env) (m : MasterServer)

/-- The replication factor in use. -/
def R : UInt32 := min m.config.replicationFactor m.config.numStorageNodes

/-- The loop of `putHandler` that cuts the payload, from position `i` and block `blockCnt` on.
All numbers are 32-bit words. A block whose end wraps lies before its start, and has no data. -/
def buildBlocks (key payload : Bytes) (payloadSize : UInt32) :
    Nat → UInt32 → UInt32 → Option (List Block)
  | 0, i, _ => if i < payloadSize then none else some []
  | fuel + 1, i, blockCnt =>
      if i < payloadSize then do
        let blockEnd := min (i + m.config.dataBlockSize) payloadSize
        let data := (payload.drop i.toNat).take (blockEnd.toNat - i.toNat)
        let blocks ← buildBlocks key payload payloadSize fuel (i + m.config.dataBlockSize)
          (blockCnt + 1)
        some (⟨key, blockCnt, blockEnd - i, data⟩ :: blocks)
      else some []

/-- The placement loop of `putHandler`, with the nodes used so far in the order of their
selection. -/
def selectNodes : Nat → UInt32 → List Nat → Option (List Nat)
  | 0, _, usedStorageNodes => if usedStorageNodes.length < m.R.toNat then none else usedStorageNodes
  | fuel + 1, hash, usedStorageNodes =>
      if usedStorageNodes.length < m.R.toNat then do
        let vn ← m.hashRing.findNextNode hash
        let sn ← m.storageNodes[vn.physicalNodeId]?
        selectNodes fuel (vn.hash env.sha256_32)
          (if vn.physicalNodeId ∉ usedStorageNodes ∧ sn.isHealthy then
            usedStorageNodes ++ [vn.physicalNodeId]
          else usedStorageNodes)
      else usedStorageNodes

/-- The nodes of one block. -/
def placeBlock (fuel : Nat) (key : Bytes) (blockNum : UInt32) : Option (List Nat) :=
  selectNodes env m fuel (env.sha256_32 (key ++ StringUtils.toString blockNum.toNat)) []

/-- The blocks with the nodes they are added to, in the order `putHandler` adds them. -/
def placeBlocks (fuel : Nat) (key : Bytes) : List Block → Option (List (Nat × Block))
  | [] => some []
  | block :: blocks => do
      let nodeIds ← placeBlock env m fuel key block.blockNum
      let rest ← placeBlocks fuel key blocks
      some (nodeIds.map (fun nodeId => (nodeId, block)) ++ rest)

/-! ## Statistics -/

/-- The number of blocks a map records on a node. -/
def blocksOn (blockNodeMap : BlockNodeMap) (nodeId : Nat) : UInt32 :=
  UInt32.ofNat (blockNodeMap.toList.countP fun p => decide (nodeId ∈ p.2))

/-- `updateNodeDataSizes`. -/
def updateNodeDataSizes (sn : StorageNode) (sizeInfo : SizeInfo) : StorageNode :=
  { sn with
    stats :=
      { sn.stats with
        dataBytesUsed := sizeInfo.dataUsedSize
        dataBytesTotal := sizeInfo.dataTotalSize
        dataBytesFree := sizeInfo.dataTotalSize - sizeInfo.dataUsedSize } }

/-- Add to `blocksStored` of a node, and take the sizes it reports. -/
def updateStats (nodeId : Nat) (blocksAdded blocksRemoved : UInt32) (sizeInfo : SizeInfo) :
    MasterServer :=
  { m with
    storageNodes := m.storageNodes.modify nodeId fun sn =>
      updateNodeDataSizes
        { sn with
          stats :=
            { sn.stats with
              blocksStored := sn.stats.blocksStored - blocksRemoved + blocksAdded } } sizeInfo }

/-- The blocks of a key that the KBN records on a node. -/
def existingBlocks (key : Bytes) (nodeId : Nat) : UInt32 :=
  match m.keyBlockNodeMap[key]? with
  | none => 0
  | some blockNodeMap => blocksOn blockNodeMap nodeId

end MasterServer

namespace Cluster

variable (env : Env) (reach : Nat → Bool)

/-- A request of the master to a node, and the first reply. -/
def send (c : Cluster) (nodeId : Nat) (request : Request) : Option Response × Cluster :=
  if reach nodeId then
    let r := (c.nodes nodeId).router env.sha256_32 { request with uri := env.uri request.uri }
    (r.1.head?, { c with nodes := Function.update c.nodes nodeId r.2 })
  else (none, c)

/-! ## GET -/

/-- `isHealthy` of a node. (The source dereferences a null pointer for an id it does not know;
the ids of the KBN are known.) -/
def isHealthy (c : Cluster) (nodeId : Nat) : Bool :=
  match c.master.storageNodes[nodeId]? with
  | none => false
  | some sn => sn.isHealthy

/-- The first healthy node of each block; `none` when a block has none. -/
def chooseNodes (c : Cluster) : List (UInt32 × ExtTreeSet Nat) → Option (List (Nat × UInt32))
  | [] => some []
  | (blockNum, nodeIds) :: rest => do
      let nodeId ← nodeIds.toList.find? c.isHealthy
      let choices ← chooseNodes c rest
      some ((nodeId, blockNum) :: choices)

/-- What the continuation of `getBlocks` makes of a reply: the success flag and the block map. -/
def collect (s : Bool × ExtTreeMap UInt32 Block) :
    Option Response → Bool × ExtTreeMap UInt32 Block
  | some ⟨.OK, payload⟩ =>
      match Block.deserialize payload with
      | none => (false, s.2)
      | some blocks => (s.1, blocks.foldl (fun m b => m.insertIfNew b.blockNum b) s.2)
  | _ => (false, s.2)

structure GetState where
  success : Bool
  blockMap : ExtTreeMap UInt32 Block
  cluster : Cluster

/-- `getBlocks`. -/
def getBlocks (key : Bytes) (s : GetState) (nodeId : Nat) (blockNums : List UInt32) : GetState :=
  let r := s.cluster.send env reach nodeId ⟨.GET, storeUri key, blockNumBytes blockNums⟩
  let p := collect (s.success, s.blockMap) r.1
  ⟨p.1, p.2, r.2⟩

/-- The response body: the data of the blocks in the order of their numbers. -/
def recombine (blockMap : ExtTreeMap UInt32 Block) : Bytes :=
  blockMap.toList.flatMap fun p => p.2.data

/-- `getHandler`; no reply when an exception leaves it. -/
def getHandler (c : Cluster) (key : Bytes) : Option Response × Cluster :=
  match c.master.keyBlockNodeMap[key]? with
  | none => (some ⟨.InternalError, []⟩, c)
  | some blockNodeMap =>
      match c.chooseNodes blockNodeMap.toList with
      | none => (none, c)
      | some choices =>
          let nodeBlockMap := Groups.group choices
          let s := (env.order nodeBlockMap.keys).foldl
            (fun s nodeId => getBlocks env reach key s nodeId (nodeBlockMap.getD nodeId []))
            ⟨true, ∅, c⟩
          if s.success then (some ⟨.OK, recombine s.blockMap⟩, s.cluster)
          else (some ⟨.InternalError, []⟩, s.cluster)

/-! ## PUT -/

/-- What the continuation of `sendBlocks` makes of a reply: the success flag, the inner map, and
the statistics of the node. -/
def assign (key : Bytes) (nodeId : Nat) (blocks : List Block) (s : Bool × BlockNodeMap)
    (m : MasterServer) : Option Response → (Bool × BlockNodeMap) × MasterServer
  | some ⟨.OK, payload⟩ =>
      let blockNodeMap := s.2.addAll (blocks.map fun b => (b.blockNum, nodeId))
      match SizeInfo.deserialize payload with
      | none => ((false, blockNodeMap), m)
      | some sizeInfo =>
          ((s.1, blockNodeMap), m.updateStats nodeId (UInt32.ofNat blocks.length)
            (m.existingBlocks key nodeId) sizeInfo)
  | _ => ((false, s.2), m)

structure PutState where
  success : Bool
  blockNodeMap : BlockNodeMap
  cluster : Cluster

/-- `sendBlocks`. -/
def sendBlocks (key : Bytes) (s : PutState) (nodeId : Nat) (blocks : List Block) : PutState :=
  let r := s.cluster.send env reach nodeId ⟨.PUT, storeUri key, Block.serializeAll blocks⟩
  let p := assign key nodeId blocks (s.success, s.blockNodeMap) r.2.master r.1
  ⟨p.1.1, p.1.2, { r.2 with master := p.2 }⟩

/-- Replace the inner map of a key. -/
def record (c : Cluster) (key : Bytes) (blockNodeMap : BlockNodeMap) : Cluster :=
  { c with
    master :=
      { c.master with keyBlockNodeMap := c.master.keyBlockNodeMap.insert key blockNodeMap } }

/-- The first part of `putHandler`: the payload cut into blocks, and the blocks of each node. -/
def distribute (fuel : Nat) (c : Cluster) (key payload : Bytes) :
    Option (ExtTreeMap Nat (List Block)) := do
  let blocks ← c.master.buildBlocks key payload (UInt32.ofNat payload.length) fuel 0 0
  let placed ← c.master.placeBlocks env fuel key blocks
  some (Groups.group placed)

/-- `putHandler`. -/
def putHandler (fuel : Nat) (c : Cluster) (key payload : Bytes) : Option (Response × Cluster) := do
  let nodeBlockMap ← c.distribute env fuel key payload
  let s := (env.order nodeBlockMap.keys).foldl
    (fun s nodeId => sendBlocks env reach key s nodeId (nodeBlockMap.getD nodeId []))
    ⟨true, ∅, c⟩
  if s.success then some (⟨.OK, []⟩, s.cluster.record key s.blockNodeMap)
  else some (⟨.InternalError, []⟩, s.cluster)

/-! ## DELETE -/

/-- `deleteBlocks`. -/
def deleteBlocks (key : Bytes) (s : Bool × Cluster) (nodeId : Nat) : Bool × Cluster :=
  let r := s.2.send env reach nodeId ⟨.DEL, storeUri key, []⟩
  match r.1 with
  | some ⟨.OK, payload⟩ =>
      match SizeInfo.deserialize payload with
      | none => (false, r.2)
      | some sizeInfo =>
          (s.1, { r.2 with
            master := r.2.master.updateStats nodeId 0 (r.2.master.existingBlocks key nodeId)
              sizeInfo })
  | _ => (false, r.2)

/-- All nodes that store at least one block of a key, as the map records them. -/
def allNodeIds (blockNodeMap : BlockNodeMap) : ExtTreeSet Nat :=
  blockNodeMap.toList.foldl (fun s p => p.2.toList.foldl (fun s nodeId => s.insert nodeId) s) ∅

/-- `deleteHandler`. -/
def deleteHandler (c : Cluster) (key : Bytes) : Response × Cluster :=
  match c.master.keyBlockNodeMap[key]? with
  | none => (⟨.InternalError, []⟩, c)
  | some blockNodeMap =>
      let s := (env.order (allNodeIds blockNodeMap).toList).foldl (deleteBlocks env reach key)
        (true, c)
      if s.1 then
        (⟨.OK, []⟩,
          { s.2 with
            master :=
              { s.2.master with keyBlockNodeMap := s.2.master.keyBlockNodeMap.erase key } })
      else (⟨.InternalError, []⟩, s.2)

/-! ## Routing -/

/-- `KeysEndpoint::getHandler`. -/
def keysHandler (c : Cluster) : Response :=
  ⟨.OK, c.master.keyBlockNodeMap.keys.flatMap fun key => StringUtils.removeNullChars key ++ [10]⟩

/-- `router`: the reply, if there is one, and the cluster after the request. -/
def router (fuel : Nat) (c : Cluster) (request : Request) : Option (Option Response × Cluster) :=
  let p := ApiUtils.parsePath request.uri
  let key := StringUtils.fixedSize p.2 50
  if p.1 = storePath then
    match request.method with
    | .GET => some (c.getHandler env reach key)
    | .PUT => (c.putHandler env reach fuel key request.body).map fun r => (some r.1, r.2)
    | .DEL =>
        let r := c.deleteHandler env reach key
        some (some r.1, r.2)
    | .other => some (none, c)
  else if p.1 = keysPath ∧ request.method = .GET then some (some c.keysHandler, c)
  else if p.1 = statsPath ∧ request.method = .GET then
    some (some ⟨.OK, env.createStatsDisplay c.master.storageNodes⟩, c)
  else some (none, c)

/-! ## Starting -/

/-- The answer of one node merged into the KBN, key by key. -/
def mergeSync (nodeId : Nat) (kbn : KeyBlockNodeMap) (entries : List (Bytes × List UInt32)) :
    KeyBlockNodeMap :=
  entries.foldl
    (fun kbn p =>
      kbn.insert p.1 ((kbn.getD p.1 ∅).addAll (p.2.map fun blockNum => (blockNum, nodeId))))
    kbn

/-- `syncWithStorageNode`; `none` when it throws. -/
def syncWithStorageNode (c : Cluster) (nodeId : Nat) : Option Cluster :=
  let r := c.send env reach nodeId ⟨.GET, syncPath, []⟩
  match r.1 with
  | some ⟨.OK, payload⟩ => do
      let syncInfo ← SyncInfo.deserialize payload
      let entries := syncInfo.keyBlockNumMap.toList
      let blocksStored := entries.foldl (fun n p => n + UInt32.ofNat p.2.length) 0
      some { r.2 with
        master :=
          { r.2.master with
            keyBlockNodeMap := mergeSync nodeId r.2.master.keyBlockNodeMap entries
            storageNodes := r.2.master.storageNodes.modify nodeId fun sn =>
              MasterServer.updateNodeDataSizes
                { sn with stats := { sn.stats with blocksStored := blocksStored } }
                syncInfo.sizeInfo } }
  | _ => none

/-- `syncWithStorageNodes`, with the answers processed in the given order. -/
def syncWithStorageNodes (c : Cluster) (answers : List Nat) : Option Cluster :=
  answers.foldlM (syncWithStorageNode env reach) c

end Cluster

/-- `initialiseStorageNodes` of a new master. -/
def MasterServer.initialise (env : Env) (config : MasterConfig) : MasterServer :=
  let storageNodes := config.storageNodeIPs.zipIdx.map fun p =>
    StorageNode.new p.2 p.1 config.numVirtualNodes.toNat
  { hashRing := storageNodes.foldl
      (fun hr sn => sn.virtualNodes.foldl (HashRing.addNode env.sha256_32) hr) HashRing.empty
    keyBlockNodeMap := ∅
    storageNodes := storageNodes.foldl (fun m sn => m.insert sn.id sn) ∅
    config := config }

/-- The constructor of the master over running nodes. -/
def Cluster.start (env : Env) (reach : Nat → Bool) (config : MasterConfig)
    (nodes : Nat → StorageServer) (answers : List Nat) : Option Cluster :=
  Cluster.syncWithStorageNodes env reach ⟨MasterServer.initialise env config, nodes⟩ answers

/-- The cluster after health checks that found exactly the nodes of `healthy` up. -/
def Cluster.withHealth (c : Cluster) (healthy : Nat → Bool) : Cluster :=
  { c with
    master :=
      { c.master with
        storageNodes := c.master.storageNodes.map fun id sn =>
          { sn with isHealthy := healthy id } } }

end RackKey
