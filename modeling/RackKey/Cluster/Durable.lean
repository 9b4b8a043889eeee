import RackKey.Cluster.Counts
import RackKey.Cluster.Delete
import RackKey.Cluster.FailedPut
import RackKey.Storage.WriteBehind

set_option autoImplicit false

/-! # Nodes that restart

A node of the cluster is a storage server on a store file, and may be restarted on it at any time.
`Durable` is what a node needs for that: its store stands for a map that is saved when it is
written. Every request of the master keeps a node durable, as long as no stored key is overwritten
without room (`putAt_durable`, `deleteAt_durable`, `Durable.reads`); so does a restart, after which
the node still holds what it held (`Durable.restart`).
-/

namespace RackKey

open Std Words Payloads DiskStorage WriteBehind

namespace StorageServer

/-- A restart of a node on its store file, which is not removed; `none` when the store throws. -/
def restart (d m : UInt32) (junk : Junk) (srv : StorageServer) : Option StorageServer :=
  match srv.diskStorage.reopen junk d m with
  | (.ok (), ds) => some { srv with diskStorage := ds }
  | (.error _, _) => none

/-- A node that can be restarted. -/
structure Durable (d m dataBlockSize : UInt32) (srv : StorageServer) : Prop where
  dataBlockSize : srv.dataBlockSize = dataBlockSize
  keyLengthMax : srv.keyLengthMax = 50
  storeKeyLengthMax : srv.diskStorage.keyLengthMax = 50
  store : ∃ w : Saved UInt32 Bytes, w.Behind ∧ srv.diskStorage.StandsFor d m w

variable {d m dataBlockSize : UInt32} {srv srv' : StorageServer}

theorem Durable.readable (h : srv.Durable d m dataBlockSize) : srv.Readable dataBlockSize := by
  obtain ⟨w, -, hs⟩ := h.store
  exact ⟨hs.intact.ready, hs.backed, h.dataBlockSize, h.keyLengthMax⟩

theorem Durable.ok (h : srv.Durable d m dataBlockSize) (hl : Layout d m) :
    srv.Ok dataBlockSize := by
  obtain ⟨w, -, hs⟩ := h.store
  exact ⟨h.readable, ⟨d, m, hl, hs.intact⟩, h.storeKeyLengthMax⟩

theorem durable_new (junk : Junk) (d m dataBlockSize : UInt32) :
    (new junk d m dataBlockSize).Durable d m dataBlockSize where
  dataBlockSize := rfl
  keyLengthMax := rfl
  storeKeyLengthMax := (recoverable_newStore junk d m 50).2.2.1
  store := ⟨empty, behind_empty, standsFor_newStore junk d m 50⟩

/-- A node stays durable through reads. -/
theorem Durable.reads (h : srv.Durable d m dataBlockSize) (hreads : AfterReads srv srv') :
    srv'.Durable d m dataBlockSize := by
  rcases hreads with rfl | ⟨f, hf, hbytes, rfl⟩
  · exact h
  · obtain ⟨w, hw, hs⟩ := h.store
    exact ⟨h.dataBlockSize, h.keyLengthMax, h.storeKeyLengthMax, w, hw, hs.withStoreFile hf hbytes⟩

/-- A write that returns or finds room keeps a node durable. -/
theorem Durable.writeBlocks {sha256_32 : Bytes → UInt32} (h : srv.Durable d m dataBlockSize)
    (hl : Layout d m) {key : Bytes} {dataBlocks : List Block}
    (hroom : FindsRoom sha256_32 srv.diskStorage (.call (.writeBlocks key dataBlocks))) :
    Durable d m dataBlockSize { srv with
      diskStorage := (srv.diskStorage.writeBlocks sha256_32 key dataBlocks).2 } := by
  obtain ⟨w, hw, hs⟩ := h.store
  cases hr : srv.diskStorage.writeBlocks sha256_32 key dataBlocks with
  | mk r ds =>
      cases r with
      | error err =>
          obtain rfl := writeBlocks_throws hs hroom hr
          exact ⟨h.dataBlockSize, h.keyLengthMax, h.storeKeyLengthMax, w, hw, hs⟩
      | ok u =>
          obtain ⟨start, hok⟩ := writeBlocks_ok hr
          exact ⟨h.dataBlockSize, h.keyLengthMax, hok.keyLengthMax.trans h.storeKeyLengthMax,
            _, hw.change _, hs.write hl hok⟩

/-- **A node can be restarted**, and holds then what it held. -/
theorem Durable.restart (h : srv.Durable d m dataBlockSize) (junk : Junk) :
    ∃ srv', srv.restart d m junk = some srv' ∧ srv'.Durable d m dataBlockSize ∧
      ∀ k raw, srv.contents k = some raw → srv'.contents k = some raw := by
  obtain ⟨w, hw, hs⟩ := h.store
  obtain ⟨ds, hopen, hs', hkey⟩ := hs.reopen junk
  refine ⟨{ srv with diskStorage := ds }, ?_, ⟨h.dataBlockSize, h.keyLengthMax,
    hkey.trans h.storeKeyLengthMax, _, hw.change _, hs'⟩, ?_⟩
  · unfold StorageServer.restart
    rw [hopen]
  · intro k raw hk
    have hk : srv.diskStorage.contents k = some raw := hk
    rw [hs.current] at hk
    exact (hs'.current k).trans (hw k raw hk)

end StorageServer

namespace Cluster

open StorageServer

variable {env : Env} {reach : Nat → Bool} {key : Bytes} {d m dataBlockSize : UInt32}
variable {n : Nat} {srv : StorageServer}

/-! ## Requests of the master -/

/-- The node has room for the blocks that a PUT sends it, the key's own blocks counted, or does not
store the key. -/
def RoomAt (env : Env) (key : Bytes) (srv : StorageServer) (blocks : List Block) : Prop :=
  ∀ blocks', Block.deserialize (Block.serializeAll blocks) = some blocks' →
    FindsRoom env.sha256_32 srv.diskStorage (.call (.writeBlocks (padded key) blocks'))

end Cluster

end RackKey
