import RackKey.Cluster.Write
import RackKey.Lib.Runs
import RackKey.Storage.Rollback

set_option autoImplicit false

/-! # Reachable clusters

Every step of a cluster changes its nodes by requests to them only. So a property of single
nodes that every request keeps holds at all nodes of every reachable cluster
(`Reachable.allNodes`), and in particular no node ever has two entries with one hash
(`Reachable.distinct`), whatever fails on the way.
-/

namespace RackKey

open Std Words Payloads DiskStorage

namespace Cluster

/-- The clusters reached from `c₀` by requests of clients, however they end and whichever nodes
they get through to, by health checks, and by new masters over the running nodes. -/
inductive Reachable (env : Env) (c₀ : Cluster) : Cluster → Prop
  | start : Reachable env c₀ c₀
  | request {c c' : Cluster} {reach : Nat → Bool} {fuel : Nat} {request : Request}
      {response : Option Response} (before : Reachable env c₀ c)
      (step : c.router env reach fuel request = some (response, c')) : Reachable env c₀ c'
  | health {c : Cluster} (before : Reachable env c₀ c) (healthy : Nat → Bool) :
      Reachable env c₀ (c.withHealth healthy)
  | restart {c c' : Cluster} {reach : Nat → Bool} {config : MasterConfig} {answers : List Nat}
      (before : Reachable env c₀ c)
      (step : Cluster.start env reach config c.nodes answers = some c') : Reachable env c₀ c'

/-! ## What every request keeps -/

/-- The property holds at every node. -/
def AllNodes (P : StorageServer → Prop) (c : Cluster) : Prop := ∀ n, P (c.nodes n)

/-- What the step of every item keeps is kept by the loop. -/
theorem allNodes_foldl {P : StorageServer → Prop} {σ : Type} (cluster : σ → Cluster)
    {f : σ → Nat → σ} (hf : ∀ s n, AllNodes P (cluster s) → AllNodes P (cluster (f s n))) :
    ∀ (ns : List Nat) (s : σ), AllNodes P (cluster s) → AllNodes P (cluster (ns.foldl f s))
  | [], _, h => h
  | n :: ns, s, h => allNodes_foldl cluster hf ns (f s n) (hf s n h)

section Nodes

variable {env : Env} {P : StorageServer → Prop}
  (hP : ∀ srv request, P srv → P (srv.router env.sha256_32 request).2)

include hP

theorem allNodes_send {c : Cluster} (h : AllNodes P c) (reach : Nat → Bool) (nodeId : Nat)
    (request : Request) : AllNodes P (c.send env reach nodeId request).2 := by
  intro n
  unfold send
  split
  · -- the node asked has served a request; the others are as before
    by_cases hn : n = nodeId
    · subst hn
      simpa using hP _ _ (h n)
    · simpa [hn] using h n
  · exact h n

theorem allNodes_getBlocks (reach : Nat → Bool) (K : Bytes) {s : GetState}
    (h : AllNodes P s.cluster) (n : Nat) (blockNums : List UInt32) :
    AllNodes P (getBlocks env reach K s n blockNums).cluster := by
  exact allNodes_send hP h reach n ⟨.GET, storeUri K, blockNumBytes blockNums⟩

theorem allNodes_sendBlocks (reach : Nat → Bool) (K : Bytes) {s : PutState}
    (h : AllNodes P s.cluster) (n : Nat) (blocks : List Block) :
    AllNodes P (sendBlocks env reach K s n blocks).cluster := by
  exact allNodes_send hP h reach n ⟨.PUT, storeUri K, Block.serializeAll blocks⟩

theorem allNodes_deleteBlocks (reach : Nat → Bool) (K : Bytes) {s : Bool × Cluster}
    (h : AllNodes P s.2) (n : Nat) : AllNodes P (deleteBlocks env reach K s n).2 := by
  have hsend := allNodes_send hP h reach n ⟨.DEL, storeUri K, []⟩
  unfold deleteBlocks
  dsimp only
  split
  · split
    · exact hsend
    · exact hsend
  · exact hsend

theorem allNodes_getHandler {c : Cluster} (h : AllNodes P c) (reach : Nat → Bool) (K : Bytes) :
    AllNodes P (c.getHandler env reach K).2 := by
  unfold getHandler
  cases c.master.keyBlockNodeMap[K]? with
  | none => exact h
  | some bm =>
      dsimp only
      cases c.chooseNodes bm.toList with
      | none => exact h
      | some choices =>
          have hloop := allNodes_foldl GetState.cluster
            (fun s n hs => allNodes_getBlocks hP reach K hs n ((Groups.group choices).getD n []))
            (env.order (Groups.group choices).keys) ⟨true, ∅, c⟩ h
          dsimp only
          split
          · exact hloop
          · exact hloop

theorem allNodes_putHandler {c : Cluster} (h : AllNodes P c) {reach : Nat → Bool} {fuel : Nat}
    {K payload : Bytes} {r : Response × Cluster}
    (hr : c.putHandler env reach fuel K payload = some r) : AllNodes P r.2 := by
  unfold putHandler at hr
  simp only [Option.bind_eq_bind, Option.bind_eq_some_iff] at hr
  obtain ⟨nodeBlockMap, -, hr⟩ := hr
  have hloop := allNodes_foldl PutState.cluster
    (fun s n hs => allNodes_sendBlocks hP reach K hs n (nodeBlockMap.getD n []))
    (env.order nodeBlockMap.keys) ⟨true, ∅, c⟩ h
  split at hr
  · obtain rfl := Option.some.inj hr
    exact hloop
  · obtain rfl := Option.some.inj hr
    exact hloop

theorem allNodes_deleteHandler {c : Cluster} (h : AllNodes P c) (reach : Nat → Bool) (K : Bytes) :
    AllNodes P (c.deleteHandler env reach K).2 := by
  unfold deleteHandler
  cases c.master.keyBlockNodeMap[K]? with
  | none => exact h
  | some bm =>
      have hloop := allNodes_foldl Prod.snd
        (fun s n hs => allNodes_deleteBlocks hP reach K hs n)
        (env.order (allNodeIds bm).toList) (true, c) h
      dsimp only
      split
      · exact hloop
      · exact hloop

theorem allNodes_router {c c' : Cluster} (h : AllNodes P c) {reach : Nat → Bool} {fuel : Nat}
    {request : Request} {response : Option Response}
    (hr : c.router env reach fuel request = some (response, c')) : AllNodes P c' := by
  unfold router at hr
  dsimp only at hr
  split at hr
  · split at hr
    · obtain ⟨-, rfl⟩ := Prod.mk.inj (Option.some.inj hr)
      exact allNodes_getHandler hP h reach _
    · obtain ⟨r, hput, hr⟩ := Option.map_eq_some_iff.mp hr
      obtain ⟨-, rfl⟩ := Prod.mk.inj hr
      exact allNodes_putHandler hP h hput
    · obtain ⟨-, rfl⟩ := Prod.mk.inj (Option.some.inj hr)
      exact allNodes_deleteHandler hP h reach _
    · obtain ⟨-, rfl⟩ := Prod.mk.inj (Option.some.inj hr)
      exact h
  · -- the other paths leave the cluster as it is
    split at hr
    · obtain ⟨-, rfl⟩ := Prod.mk.inj (Option.some.inj hr)
      exact h
    · split at hr
      · obtain ⟨-, rfl⟩ := Prod.mk.inj (Option.some.inj hr)
        exact h
      · obtain ⟨-, rfl⟩ := Prod.mk.inj (Option.some.inj hr)
        exact h

theorem allNodes_syncWithStorageNode {c c' : Cluster} (h : AllNodes P c) {reach : Nat → Bool}
    {n : Nat} (hr : syncWithStorageNode env reach c n = some c') : AllNodes P c' := by
  have hsend := allNodes_send hP h reach n ⟨.GET, syncPath, []⟩
  unfold syncWithStorageNode at hr
  dsimp only at hr
  split at hr
  · simp only [Option.bind_eq_bind, Option.bind_eq_some_iff] at hr
    obtain ⟨syncInfo, -, hr⟩ := hr
    obtain rfl := Option.some.inj hr
    exact hsend
  · cases hr

/-- **What every request keeps holds at all nodes of every reachable cluster.** -/
theorem Reachable.allNodes {c₀ c : Cluster} (h : Reachable env c₀ c) (h₀ : AllNodes P c₀) :
    AllNodes P c := by
  induction h with
  | start => exact h₀
  | request before step ih => exact allNodes_router hP ih step
  | health before healthy ih => exact ih
  | @restart c c' reach config answers before step ih =>
      -- a new master asks the running nodes for their tables
      have hrun : answers.foldlM (syncWithStorageNode env reach)
          ⟨MasterServer.initialise env config, c.nodes⟩ = some c' := step
      have hsync : ∀ s n s', AllNodes P s → syncWithStorageNode env reach s n = some s' →
          AllNodes P s' := fun s n s' hs hn => allNodes_syncWithStorageNode hP hs hn
      have hnew : AllNodes P ⟨MasterServer.initialise env config, c.nodes⟩ := ih
      exact Runs.foldlM_invariant hsync answers _ c' hnew hrun

end Nodes

end Cluster

/-! ## Distinct hashes -/

namespace StorageServer

/-- No two entries of the node have one hash. -/
structure Distinct (srv : StorageServer) : Prop where
  hashes : (srv.diskStorage.bat.table.map BATEntry.keyHash).Nodup
  keyLengthMax : srv.keyLengthMax = 50

/-- A store with the same table. -/
theorem Distinct.congr {srv : StorageServer} (h : srv.Distinct) {ds : DiskStorage}
    (hbat : ds.bat = srv.diskStorage.bat) : Distinct { srv with diskStorage := ds } := by
  refine ⟨?_, h.keyLengthMax⟩
  show (ds.bat.table.map BATEntry.keyHash).Nodup
  rw [hbat]
  exact h.hashes

/-- A delete that returns keeps the hashes distinct and removes the contents of its hash. -/
theorem Distinct.delete {sha256_32 : Bytes → UInt32} {srv : StorageServer} (h : srv.Distinct)
    {K : Bytes} {ds' : DiskStorage}
    (hd : srv.diskStorage.deleteBlocks sha256_32 K = (.ok (), ds')) :
    Distinct { srv with diskStorage := ds' } ∧
      ∀ k, ds'.contents k = if k = sha256_32 K then none else srv.contents k := by
  obtain ⟨i, e, hf, rfl⟩ := deleteBlocks_ok hd
  refine ⟨⟨Keyed.nodup_eraseIdx h.hashes, h.keyLengthMax⟩, ?_⟩
  exact (contents_deleteBlocks h.hashes hf _ _).2

theorem Distinct.write {sha256_32 : Bytes → UInt32} {srv : StorageServer} (h : srv.Distinct)
    (K : Bytes) (blocks : List Block) :
    Distinct { srv with diskStorage := (srv.diskStorage.writeBlocks sha256_32 K blocks).2 } := by
  rcases hw : srv.diskStorage.writeBlocks sha256_32 K blocks with ⟨res, ds'⟩
  cases res with
  | error err => exact h.congr (writeBlocks_error_bat hw)
  | ok u =>
      obtain ⟨start, hok⟩ := writeBlocks_ok hw
      refine ⟨?_, h.keyLengthMax⟩
      show (ds'.bat.table.map BATEntry.keyHash).Nodup
      rw [hok.bat]
      exact (mem_updateBAT sha256_32 h.hashes K start _).1

theorem bat_readBlocks (sha256_32 : Bytes → UInt32) (ds : DiskStorage) (K : Bytes)
    (S : Finset UInt32) (dataBlockSize : UInt32) :
    (ds.readBlocks sha256_32 K S dataBlockSize).2.bat = ds.bat := by
  unfold readBlocks
  split
  · rfl
  · dsimp only
    split <;> rfl

theorem bat_getBlockNums (sha256_32 : Bytes → UInt32) (ds : DiskStorage) (K : Bytes)
    (dataBlockSize : UInt32) : (ds.getBlockNums sha256_32 K dataBlockSize).2.bat = ds.bat := by
  unfold getBlockNums
  split
  · rfl
  · dsimp only
    split <;> rfl

theorem bat_collectBlockNums (sha256_32 : Bytes → UInt32) (dataBlockSize : UInt32) :
    ∀ (keys : List Bytes) (m : ExtTreeMap Bytes (List UInt32)) (ds : DiskStorage),
      (collectBlockNums sha256_32 dataBlockSize keys m ds).2.bat = ds.bat
  | [], _, _ => rfl
  | K :: keys, m, ds => by
      have hget := bat_getBlockNums sha256_32 ds K dataBlockSize
      rw [collectBlockNums]
      rcases hres : ds.getBlockNums sha256_32 K dataBlockSize with ⟨res, ds'⟩
      rw [hres] at hget
      cases res with
      | error err => exact hget
      | ok blockNums => exact (bat_collectBlockNums sha256_32 dataBlockSize keys _ ds').trans hget

theorem Distinct.getHandler {sha256_32 : Bytes → UInt32} {srv : StorageServer} (h : srv.Distinct)
    (body K : Bytes) : (srv.getHandler sha256_32 body K).2.Distinct := by
  unfold StorageServer.getHandler
  cases readBlockNums body.length body with
  | none => exact h
  | some blockNums =>
      have hread := h.congr (bat_readBlocks sha256_32 srv.diskStorage K blockNums.toFinset
        srv.dataBlockSize)
      dsimp only
      split
      · exact hread
      · exact hread

theorem Distinct.putHandler {sha256_32 : Bytes → UInt32} {srv : StorageServer} (h : srv.Distinct)
    (body K : Bytes) : (srv.putHandler sha256_32 body K).2.Distinct := by
  unfold StorageServer.putHandler
  cases Block.deserialize body with
  | none => exact h
  | some blocks => exact h.write K blocks

theorem Distinct.deleteHandler {sha256_32 : Bytes → UInt32} {srv : StorageServer}
    (h : srv.Distinct) (K : Bytes) : (srv.deleteHandler sha256_32 K).2.Distinct := by
  unfold StorageServer.deleteHandler
  dsimp only
  rcases hd : srv.diskStorage.deleteBlocks sha256_32 K with ⟨res, ds'⟩
  cases res with
  | ok u => exact (h.delete hd).1
  | error err => exact h.congr (congrArg bat (deleteBlocks_error hd))

/-- A `/sync` request leaves the store as the reads of all keys do, whether one throws or not. -/
theorem syncHandler_snd (sha256_32 : Bytes → UInt32) (srv : StorageServer) :
    (srv.syncHandler sha256_32).2 = { srv with
      diskStorage := (collectBlockNums sha256_32 srv.dataBlockSize srv.diskStorage.getKeys ∅
        srv.diskStorage).2 } := by
  unfold syncHandler createSyncResponsePayload
  dsimp only
  rcases collectBlockNums sha256_32 srv.dataBlockSize srv.diskStorage.getKeys ∅
    srv.diskStorage with ⟨res, ds'⟩
  cases res with
  | error err => rfl
  | ok keyBlockNumMap => rfl

theorem Distinct.syncHandler {sha256_32 : Bytes → UInt32} {srv : StorageServer}
    (h : srv.Distinct) : (srv.syncHandler sha256_32).2.Distinct := by
  rw [syncHandler_snd]
  exact h.congr (bat_collectBlockNums sha256_32 srv.dataBlockSize srv.diskStorage.getKeys ∅
    srv.diskStorage)

/-- **Every request keeps the hashes of a node distinct.** -/
theorem distinct_router (sha256_32 : Bytes → UInt32) (srv : StorageServer) (request : Request)
    (h : srv.Distinct) : (srv.router sha256_32 request).2.Distinct := by
  unfold router
  dsimp only
  split
  · split
    · exact h.getHandler _ _
    · exact h.putHandler _ _
    · exact h.deleteHandler _
    · exact h
  · -- `/health` answers from nothing, and `/sync` reads
    split
    · split
      · exact h
      · exact h
    · split
      · split
        · exact h.syncHandler
        · exact h
      · exact h

end StorageServer

namespace Cluster

/-- The nodes of every cluster reached from a new one have distinct hashes. -/
theorem Reachable.distinct {env : Env} {junk : Junk} {config : MasterConfig}
    {diskBlockSize maxDataSize : UInt32} {c : Cluster}
    (h : Reachable env (Cluster.fresh env junk config diskBlockSize maxDataSize) c) (n : Nat) :
    (c.nodes n).Distinct := by
  refine h.allNodes (StorageServer.distinct_router env.sha256_32) (fun n => ?_) n
  refine ⟨?_, rfl⟩
  show ((StorageServer.new junk diskBlockSize maxDataSize
    config.dataBlockSize).diskStorage.bat.table.map BATEntry.keyHash).Nodup
  rw [StorageServer.table_new]
  exact List.nodup_nil

end Cluster

end RackKey
