import RackKey.Storage.Rollback
import RackKey.Storage.Server

set_option autoImplicit false

/-! # The replies of a storage node

A handler should send one reply, with a status that says how its call of the store ended. The
read handler does. The write and delete handlers go on after the reply of their error path, the
exception of the store leaves the sync handler, and a method that a known endpoint does not serve
falls through the router: `router_truthful_iff` says exactly which requests are answered well.
-/

namespace RackKey

open Std Words Payloads

namespace StorageServer

variable {sha256_32 : Bytes → UInt32}

/-- One reply, and its status says whether the store call, if there is one, returned. -/
def Truthful (replies : List Response) (outcome : Option (Except StorageError Unit)) : Prop :=
  ∃ r, replies = [r] ∧ ∀ o ∈ outcome, (r.status = .OK ↔ o = .ok ())

/-- How the call of the store that a request leads to ends, if it leads to one. -/
def storageOutcome (sha256_32 : Bytes → UInt32) (srv : StorageServer) (request : Request) :
    Option (Except StorageError Unit) :=
  let p := ApiUtils.parsePath request.uri
  let key := StringUtils.fixedSize p.2 srv.keyLengthMax
  if p.1 = storePath then
    match request.method with
    | .GET => (readBlockNums request.body.length request.body).map fun blockNums =>
        (srv.diskStorage.readBlocks sha256_32 key blockNums.toFinset srv.dataBlockSize).1.map
          fun _ => ()
    | .PUT => (Block.deserialize request.body).map fun blocks =>
        (srv.diskStorage.writeBlocks sha256_32 key blocks).1
    | .DEL => some (srv.diskStorage.deleteBlocks sha256_32 key).1
    | .other => none
  else if p.1 = syncPath ∧ request.method = .GET then
    some ((srv.createSyncResponsePayload sha256_32).1.map fun _ => ())
  else none

/-- The body of a request for a key is what its method reads. -/
def DecodableBody (request : Request) : Prop :=
  (ApiUtils.parsePath request.uri).1 = storePath →
    (request.method = .GET → readBlockNums request.body.length request.body ≠ none) ∧
      (request.method = .PUT → Block.deserialize request.body ≠ none)

/-- The endpoint is unknown, or serves the method. -/
def Routed (request : Request) : Prop :=
  ((ApiUtils.parsePath request.uri).1 = storePath → request.method ≠ .other) ∧
    ((ApiUtils.parsePath request.uri).1 = healthPath → request.method = .GET) ∧
    ((ApiUtils.parsePath request.uri).1 = syncPath → request.method = .GET)

/-- A request to read blocks of a key. -/
def IsRead (request : Request) : Prop :=
  (ApiUtils.parsePath request.uri).1 = storePath ∧ request.method = .GET

theorem not_truthful_nil (outcome : Option (Except StorageError Unit)) :
    ¬ Truthful [] outcome := by
  rintro ⟨r, hr, -⟩
  cases hr

theorem truthful_none (r : Response) : Truthful [r] none :=
  ⟨r, rfl, by simp⟩

theorem not_truthful_two (r r' : Response) (outcome : Option (Except StorageError Unit)) :
    ¬ Truthful [r, r'] outcome := by
  rintro ⟨_, hr, -⟩
  cases hr

theorem truthful_single {r : Response} {outcome : Except StorageError Unit}
    (h : r.status = .OK ↔ outcome = .ok ()) : Truthful [r] (some outcome) := by
  refine ⟨r, rfl, fun o ho => ?_⟩
  obtain rfl := Option.some.inj ho
  exact h

/-- The write handler goes on after its error path. -/
theorem truthful_putHandler_iff (srv : StorageServer) (body key : Bytes) {blocks : List Block}
    (h : Block.deserialize body = some blocks) :
    Truthful (srv.putHandler sha256_32 body key).1
        (some (srv.diskStorage.writeBlocks sha256_32 key blocks).1) ↔
      (srv.diskStorage.writeBlocks sha256_32 key blocks).1 = .ok () := by
  unfold putHandler
  rw [h]
  dsimp only
  cases (srv.diskStorage.writeBlocks sha256_32 key blocks).1 with
  | error err => simpa using not_truthful_two _ _ _
  | ok u => simpa using truthful_single (by simp)

/-- So does the delete handler. -/
theorem truthful_deleteHandler_iff (srv : StorageServer) (key : Bytes) :
    Truthful (srv.deleteHandler sha256_32 key).1
        (some (srv.diskStorage.deleteBlocks sha256_32 key).1) ↔
      (srv.diskStorage.deleteBlocks sha256_32 key).1 = .ok () := by
  unfold deleteHandler
  dsimp only
  cases (srv.diskStorage.deleteBlocks sha256_32 key).1 with
  | error err => simpa using not_truthful_two _ _ _
  | ok u => simpa using truthful_single (by simp)

/-- The read handler replies once, `OK` when the store has returned the blocks. -/
theorem truthful_getHandler (sha256_32 : Bytes → UInt32) (srv : StorageServer)
    (body key : Bytes) {blockNums : List UInt32}
    (h : readBlockNums body.length body = some blockNums) :
    Truthful (srv.getHandler sha256_32 body key).1
      (some ((srv.diskStorage.readBlocks sha256_32 key blockNums.toFinset
        srv.dataBlockSize).1.map fun _ => ())) := by
  unfold getHandler
  rw [h]
  dsimp only
  cases (srv.diskStorage.readBlocks sha256_32 key blockNums.toFinset srv.dataBlockSize).1 with
  | error err => exact truthful_single (by simp [Except.map])
  | ok blocks => exact truthful_single (by simp [Except.map])

/-- The sync handler replies when no read of the store throws. -/
theorem truthful_syncHandler_iff (srv : StorageServer) :
    Truthful (srv.syncHandler sha256_32).1
        (some ((srv.createSyncResponsePayload sha256_32).1.map fun _ => ())) ↔
      (srv.createSyncResponsePayload sha256_32).1.map (fun _ => ()) = .ok () := by
  unfold syncHandler
  rcases srv.createSyncResponsePayload sha256_32 with ⟨outcome, srv'⟩
  cases outcome with
  | error err => simpa [Except.map] using not_truthful_nil _
  | ok responseBuffer => simpa [Except.map] using truthful_single (by simp)

/-- **When a node answers once and truthfully**: the router has a handler for the request, and the
store call returns or is one of the read handler. -/
theorem router_truthful_iff (srv : StorageServer) (request : Request)
    (hbody : DecodableBody request) :
    Truthful (srv.router sha256_32 request).1 (srv.storageOutcome sha256_32 request) ↔
      Routed request ∧
        (IsRead request ∨ ∀ o ∈ srv.storageOutcome sha256_32 request, o = .ok ()) := by
  unfold Routed IsRead router storageOutcome
  dsimp only
  by_cases hstore : (ApiUtils.parsePath request.uri).1 = storePath
  · have hpaths : storePath ≠ healthPath ∧ storePath ≠ syncPath := by decide
    rw [if_pos hstore, if_pos hstore]
    cases hmethod : request.method with
    | GET =>
        obtain ⟨blockNums, hnums⟩ := Option.ne_none_iff_exists'.mp ((hbody hstore).1 hmethod)
        have htrue := truthful_getHandler sha256_32 srv request.body
          (StringUtils.fixedSize (ApiUtils.parsePath request.uri).2 srv.keyLengthMax) hnums
        simp only [hnums, Option.map_some]
        simp [htrue, hstore, hpaths]
    | PUT =>
        obtain ⟨blocks, hblocks⟩ := Option.ne_none_iff_exists'.mp ((hbody hstore).2 hmethod)
        simp only [hblocks, Option.map_some]
        rw [truthful_putHandler_iff srv _ _ hblocks]
        simp [hstore, hpaths]
    | DEL =>
        dsimp only
        rw [truthful_deleteHandler_iff]
        simp [hstore, hpaths]
    | other => simp [not_truthful_nil, hstore]
  · rw [if_neg hstore, if_neg hstore]
    by_cases hhealth : (ApiUtils.parsePath request.uri).1 = healthPath
    · have hpaths : healthPath ≠ storePath ∧ healthPath ≠ syncPath := by decide
      rw [if_pos hhealth]
      cases hmethod : request.method <;>
        simp [hhealth, hpaths, not_truthful_nil, truthful_none]
    · rw [if_neg hhealth]
      by_cases hsync : (ApiUtils.parsePath request.uri).1 = syncPath
      · have hpaths : syncPath ≠ storePath ∧ syncPath ≠ healthPath := by decide
        rw [if_pos hsync]
        cases hmethod : request.method with
        | GET =>
            simp only [hsync, and_self, if_true]
            rw [truthful_syncHandler_iff]
            simp [hpaths]
        | PUT => simp [hsync, hpaths, not_truthful_nil]
        | DEL => simp [hsync, hpaths, not_truthful_nil]
        | other => simp [hsync, hpaths, not_truthful_nil]
      · rw [if_neg hsync]
        simp [hstore, hhealth, hsync, truthful_none]

/-- A node with an empty store of eight disk blocks. -/
private def emptyNode : StorageServer := ⟨DiskStorage.newStore default 8 64 50, 4, 50⟩

private def putOne : Request :=
  ⟨.PUT, storeUri [97], Block.serializeAll [⟨[97], 0, 2, [1, 2]⟩]⟩

/-- A write for which the store has room is answered once and truthfully. -/
theorem router_truthful_put :
    Truthful (emptyNode.router lengthHash putOne).1
      (emptyNode.storageOutcome lengthHash putOne) := by
  have hbody : DecodableBody putOne := by
    unfold DecodableBody
    decide +kernel
  refine (router_truthful_iff emptyNode putOne hbody).mpr ⟨?_, Or.inr ?_⟩
  · unfold Routed
    decide +kernel
  · intro o ho
    have hok : emptyNode.storageOutcome lengthHash putOne = some (.ok ()) := by rfl
    exact Option.some.inj (ho.symm.trans hok)

/-- On the empty node a delete, and a write of no blocks, are answered twice, first with an error
and then with `OK`; another method is not answered. -/
theorem router_not_truthful :
    (DecodableBody ⟨.DEL, storeUri [97], []⟩ ∧
        (emptyNode.router lengthHash ⟨.DEL, storeUri [97], []⟩).1.map Response.status
          = [.InternalError, .OK]) ∧
      (DecodableBody ⟨.PUT, storeUri [97], []⟩ ∧
        (emptyNode.router lengthHash ⟨.PUT, storeUri [97], []⟩).1.map Response.status
          = [.InternalError, .OK]) ∧
      (DecodableBody ⟨.other, storeUri [97], []⟩ ∧
        (emptyNode.router lengthHash ⟨.other, storeUri [97], []⟩).1 = []) ∧
      ¬ ∀ request, DecodableBody request →
        Truthful (emptyNode.router lengthHash request).1
          (emptyNode.storageOutcome lengthHash request) := by
  have hbody : ∀ method, DecodableBody ⟨method, storeUri [97], []⟩ := by
    intro method _
    cases method <;> exact ⟨fun _ => by decide, fun _ => by decide⟩
  have hdelete : (emptyNode.router lengthHash ⟨.DEL, storeUri [97], []⟩).1.map Response.status
      = [.InternalError, .OK] := by decide +kernel
  refine ⟨⟨hbody _, hdelete⟩, ⟨hbody _, by decide +kernel⟩, ⟨hbody _, by decide +kernel⟩,
    fun h => ?_⟩
  obtain ⟨r, hr, -⟩ := h _ (hbody .DEL)
  rw [hr] at hdelete
  simp at hdelete

end StorageServer

end RackKey
