import Std.Data.ExtTreeMap
import RackKey.Shared.Http

set_option autoImplicit false

/-! # The hash ring and the storage nodes of the master

The ring maps hashes to virtual nodes. `findNextNode` is the virtual node with the least hash
above the given one, and the first of the ring when there is none.
-/

namespace RackKey

open Std Words

structure VirtualNode where
  id : Bytes
  physicalNodeId : Nat
  deriving DecidableEq, Repr

/-- `VirtualNode::hash`. -/
def VirtualNode.hash (sha256_32 : Bytes → UInt32) (vn : VirtualNode) : UInt32 := sha256_32 vn.id

structure HashRing where
  ring : ExtTreeMap UInt32 VirtualNode

namespace HashRing

def empty : HashRing := ⟨∅⟩

def addNode (sha256_32 : Bytes → UInt32) (hr : HashRing) (vn : VirtualNode) : HashRing :=
  ⟨hr.ring.insert (vn.hash sha256_32) vn⟩

def removeNode (sha256_32 : Bytes → UInt32) (hr : HashRing) (vn : VirtualNode) : HashRing :=
  ⟨hr.ring.erase (vn.hash sha256_32)⟩

/-- `findNextNode`; `none` on an empty ring, where the source dereferences the end iterator. -/
def findNextNode (hr : HashRing) (hash : UInt32) : Option VirtualNode :=
  match hr.ring.toList.find? (fun p => decide (hash < p.1)) with
  | some p => some p.2
  | none => hr.ring.toList.head?.map Prod.snd

end HashRing

structure StorageNodeStats where
  blocksStored : UInt32
  dataBytesUsed : UInt32
  dataBytesFree : UInt32
  dataBytesTotal : UInt32
  deriving DecidableEq, Repr

structure StorageNode where
  id : Nat
  ipPort : Bytes
  isHealthy : Bool
  stats : StorageNodeStats
  virtualNodes : List VirtualNode
  deriving DecidableEq, Repr

/-- `std::to_string`. -/
def StringUtils.toString (n : Nat) : Bytes := (Nat.toDigits 10 n).map fun c => UInt8.ofNat c.toNat

/-- `createVirtualNodes`: the ids are `ipPort:0`, `ipPort:1`, … -/
def StorageNode.createVirtualNodes (id : Nat) (ipPort : Bytes) (numVirtualNodes : Nat) :
    List VirtualNode :=
  (List.range numVirtualNodes).map fun i => ⟨ipPort ++ [58] ++ StringUtils.toString i, id⟩

/-- The constructor of `StorageNode`; `id` is the next value of `idGenerator`. -/
def StorageNode.new (id : Nat) (ipPort : Bytes) (numVirtualNodes : Nat) : StorageNode :=
  ⟨id, ipPort, false, ⟨0, 0, 0, 0⟩, createVirtualNodes id ipPort numVirtualNodes⟩

end RackKey
