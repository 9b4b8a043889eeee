import RackKey.Shared.Http
import RackKey.Shared.Payloads
import RackKey.Storage.Contents

set_option autoImplicit false

/-! # The storage server

The handlers of a storage node. A handler returns the replies it sends, in order: the write and
delete handlers of the source send a second reply after an error, and a handler that an
exception leaves sends none.
-/

namespace RackKey

open Std Words Payloads

structure StorageServer where
  diskStorage : DiskStorage
  dataBlockSize : UInt32
  keyLengthMax : UInt32

namespace StorageServer

variable (sha256_32 : Bytes → UInt32)

/-- `getHandler`. A payload that is not a list of words is read past its end, which is
undefined; no reply is promised then. -/
def getHandler (srv : StorageServer) (body key : Bytes) : List Response × StorageServer :=
  match readBlockNums body.length body with
  | none => ([], srv)
  | some blockNums =>
      let r := srv.diskStorage.readBlocks sha256_32 key blockNums.toFinset srv.dataBlockSize
      let srv := { srv with diskStorage := r.2 }
      match r.1 with
      | .error _ => ([⟨.InternalError, []⟩], srv)
      | .ok blocks => ([⟨.OK, Block.serializeAll blocks⟩], srv)

/-- `createSizeResponsePayload`. -/
def createSizeResponsePayload (srv : StorageServer) : Bytes :=
  (SizeInfo.mk srv.diskStorage.dataUsedSize srv.diskStorage.dataTotalSize).serialize

/-- `putHandler`. The `return` of the error path leaves the continuation only. -/
def putHandler (srv : StorageServer) (body key : Bytes) : List Response × StorageServer :=
  match Block.deserialize body with
  | none => ([], srv)
  | some blocks =>
      let r := srv.diskStorage.writeBlocks sha256_32 key blocks
      let srv := { srv with diskStorage := r.2 }
      let replies := match r.1 with
        | .error _ => [⟨.InternalError, []⟩]
        | .ok () => []
      (replies ++ [⟨.OK, srv.createSizeResponsePayload⟩], srv)

/-- `deleteHandler`. The error path goes on. -/
def deleteHandler (srv : StorageServer) (key : Bytes) : List Response × StorageServer :=
  let r := srv.diskStorage.deleteBlocks sha256_32 key
  let srv := { srv with diskStorage := r.2 }
  let replies := match r.1 with
    | .error _ => [⟨.InternalError, []⟩]
    | .ok () => []
  (replies ++ [⟨.OK, srv.createSizeResponsePayload⟩], srv)

/-- The loop of `createSyncResponsePayload` over the keys. -/
def collectBlockNums (dataBlockSize : UInt32) :
    List Bytes → ExtTreeMap Bytes (List UInt32) → DiskStorage →
      Except StorageError (ExtTreeMap Bytes (List UInt32)) × DiskStorage
  | [], keyBlockNumMap, ds => (.ok keyBlockNumMap, ds)
  | key :: keys, keyBlockNumMap, ds =>
      match ds.getBlockNums sha256_32 key dataBlockSize with
      | (.error err, ds) => (.error err, ds)
      | (.ok blockNums, ds) =>
          collectBlockNums dataBlockSize keys (keyBlockNumMap.insert key blockNums) ds

/-- `createSyncResponsePayload`. -/
def createSyncResponsePayload (srv : StorageServer) : Except StorageError Bytes × StorageServer :=
  let r := collectBlockNums sha256_32 srv.dataBlockSize srv.diskStorage.getKeys ∅ srv.diskStorage
  let srv := { srv with diskStorage := r.2 }
  match r.1 with
  | .error err => (.error err, srv)
  | .ok keyBlockNumMap =>
      (.ok (SyncInfo.mk keyBlockNumMap
        ⟨srv.diskStorage.dataUsedSize, srv.diskStorage.dataTotalSize⟩).serialize, srv)

/-- `syncHandler`; an exception of the store leaves it. -/
def syncHandler (srv : StorageServer) : List Response × StorageServer :=
  match srv.createSyncResponsePayload sha256_32 with
  | (.error _, srv) => ([], srv)
  | (.ok responseBuffer, srv) => ([⟨.OK, responseBuffer⟩], srv)

/-- `router`. -/
def router (srv : StorageServer) (request : Request) : List Response × StorageServer :=
  let p := ApiUtils.parsePath request.uri
  let key := StringUtils.fixedSize p.2 srv.keyLengthMax
  if p.1 = storePath then
    match request.method with
    | .GET => srv.getHandler sha256_32 request.body key
    | .PUT => srv.putHandler sha256_32 request.body key
    | .DEL => srv.deleteHandler sha256_32 key
    | .other => ([], srv)
  else if p.1 = healthPath then
    match request.method with
    | .GET => ([⟨.OK, []⟩], srv)
    | _ => ([], srv)
  else if p.1 = syncPath then
    match request.method with
    | .GET => srv.syncHandler sha256_32
    | _ => ([], srv)
  else ([⟨.NotImplemented, []⟩], srv)

end StorageServer

end RackKey
