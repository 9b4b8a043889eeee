import RackKey.Cluster.Accounting
import RackKey.Cluster.Reachable
import RackKey.Cluster.Sync

set_option autoImplicit false

/-! # The sizes that the master shows

A node reports the sizes of its store when it answers a PUT or a DELETE, and at the start of the
master. The master keeps what was reported last. Whatever a node does without being answered OK
leaves its sizes as they are, so what the master keeps is what the node would report now
(`sizes_known`).
-/

namespace RackKey

open Std Words Payloads DiskStorage

/-- What a node reports about its store. -/
def DiskStorage.sizeInfo (ds : DiskStorage) : SizeInfo := ⟨ds.dataUsedSize, ds.dataTotalSize⟩

/-- The statistics of a node show the sizes. -/
def StorageNode.Shows (sn : StorageNode) (s : SizeInfo) : Prop :=
  sn.stats.dataBytesUsed = s.dataUsedSize ∧ sn.stats.dataBytesTotal = s.dataTotalSize ∧
    sn.stats.dataBytesFree = s.dataTotalSize - s.dataUsedSize

theorem shows_updateNodeDataSizes (sn : StorageNode) (s : SizeInfo) :
    (MasterServer.updateNodeDataSizes sn s).Shows s := ⟨rfl, rfl, rfl⟩

/-! ## The sizes at the end of a sync answer -/

namespace Payloads.SyncInfo

theorem suffix_of_readLe32 {bs rest : Bytes} {w : UInt32} (h : readLe32 bs = some (w, rest)) :
    rest <:+ bs := by
  rw [eq_of_readLe32 h]
  exact List.suffix_append _ _

theorem suffix_of_takeBytes {n : Nat} {bs taken rest : Bytes}
    (h : Block.takeBytes n bs = some (taken, rest)) : rest <:+ bs := by
  unfold Block.takeBytes at h
  split at h
  · obtain ⟨-, rfl⟩ := Prod.mk.inj (Option.some.inj h)
    exact List.drop_suffix _ _
  · cases h

/-- What is left after the entries is an end of the buffer. -/
theorem suffix_of_deserializeEntries :
    ∀ {fuel : Nat} {bs rest : Bytes} {m m' : ExtTreeMap Bytes (List UInt32)},
      deserializeEntries fuel bs m = some (m', rest) → rest <:+ bs
  | 0, bs, rest, m, m', h => by
      rw [deserializeEntries] at h
      split at h
      · cases h
      · obtain ⟨-, rfl⟩ := Prod.mk.inj (Option.some.inj h)
        exact List.suffix_rfl
  | fuel + 1, bs, rest, m, m', h => by
      rw [deserializeEntries] at h
      split at h
      · simp only [Option.bind_eq_bind, Option.bind_eq_some_iff, Prod.exists] at h
        obtain ⟨key, bs₁, hkey, n, bs₂, hn, nums, bs₃, hnums, hrest⟩ := h
        calc rest <:+ bs₃ := suffix_of_deserializeEntries hrest
          _ <:+ bs₂ := by
            rw [(eq_of_readWords hnums).2]
            exact List.suffix_append _ _
          _ <:+ bs₁ := suffix_of_readLe32 hn
          _ <:+ bs := suffix_of_takeBytes hkey
      · obtain ⟨-, rfl⟩ := Prod.mk.inj (Option.some.inj h)
        exact List.suffix_rfl

theorem eq_of_sizeInfo {bs : Bytes} {sizes : SizeInfo}
    (h : SizeInfo.deserialize bs = some sizes) : bs = sizes.serialize := by
  simp only [SizeInfo.deserialize, Option.bind_eq_bind, Option.bind_eq_some_iff, Prod.exists] at h
  obtain ⟨used, bs₁, hused, total, bs₂, htotal, h⟩ := h
  split at h
  · rename_i hnil
    obtain rfl := Option.some.inj h
    rw [eq_of_readLe32 hused, eq_of_readLe32 htotal, hnil, List.append_nil]
    rfl
  · cases h

/-- **The sizes read from an answer are those at its end**, whatever comes before them. -/
theorem sizeInfo_of_deserialize {entries : Bytes} {sizes : SizeInfo} {info : SyncInfo}
    (h : deserialize (entries ++ sizes.serialize) = some info) : info.sizeInfo = sizes := by
  simp only [deserialize, Option.bind_eq_bind, Option.bind_eq_some_iff, Prod.exists] at h
  obtain ⟨keyBlockNumMap, rest, hentries, sizes', hsizes, hinfo⟩ := h
  obtain rfl := Option.some.inj hinfo
  have hrest := eq_of_sizeInfo hsizes
  -- both are the last eight bytes of the answer
  have hsuffix : sizes'.serialize <:+ sizes.serialize := by
    refine List.suffix_of_suffix_length_le ?_ (List.suffix_append entries sizes.serialize) ?_
    · rw [← hrest]
      exact suffix_of_deserializeEntries hentries
    · rw [SizeInfo.serialize_length, SizeInfo.serialize_length]
  have hsame : sizes'.serialize = sizes.serialize := hsuffix.eq_of_length (by
    rw [SizeInfo.serialize_length, SizeInfo.serialize_length])
  have hread := SizeInfo.deserialize_serialize sizes'
  rw [hsame, SizeInfo.deserialize_serialize] at hread
  exact (Option.some.inj hread).symm

end Payloads.SyncInfo

/-! ## One node -/

namespace DiskStorage

variable {sha256_32 : Bytes → UInt32} {ds ds' : DiskStorage} {key : Bytes}

variable (sha256_32) in
theorem sizeInfo_readBlocks (ds : DiskStorage) (key : Bytes) (S : Finset UInt32) (n : UInt32) :
    (ds.readBlocks sha256_32 key S n).2.sizeInfo = ds.sizeInfo := by
  unfold readBlocks
  split
  · rfl
  · dsimp only
    split <;> rfl

variable (sha256_32) in
theorem sizeInfo_getBlockNums (ds : DiskStorage) (key : Bytes) (n : UInt32) :
    (ds.getBlockNums sha256_32 key n).2.sizeInfo = ds.sizeInfo := by
  unfold getBlockNums
  split
  · rfl
  · dsimp only
    split <;> rfl

/-- A write that throws keeps the table, also where it loses the marks of the old blocks. -/
theorem sizeInfo_writeBlocks_error {dataBlocks : List Block} {err : StorageError}
    (h : ds.writeBlocks sha256_32 key dataBlocks = (.error err, ds')) :
    ds'.sizeInfo = ds.sizeInfo := by
  rcases writeBlocks_error h with ⟨-, rfl⟩ | ⟨-, -, rfl⟩ | ⟨f, -, rfl⟩
  · rfl
  · rfl
  · rfl

end DiskStorage

namespace StorageServer

variable {sha256_32 : Bytes → UInt32} {srv : StorageServer}

variable (sha256_32) in
theorem sizeInfo_collectBlockNums (dataBlockSize : UInt32) :
    ∀ (keys : List Bytes) (m : ExtTreeMap Bytes (List UInt32)) (ds : DiskStorage),
      (collectBlockNums sha256_32 dataBlockSize keys m ds).2.sizeInfo = ds.sizeInfo
  | [], _, _ => rfl
  | key :: keys, m, ds => by
      have hget := sizeInfo_getBlockNums sha256_32 ds key dataBlockSize
      rw [collectBlockNums]
      rcases hres : ds.getBlockNums sha256_32 key dataBlockSize with ⟨res, ds'⟩
      rw [hres] at hget
      cases res with
      | error err => exact hget
      | ok blockNums => exact (sizeInfo_collectBlockNums dataBlockSize keys _ ds').trans hget

/-- A request that is not answered OK leaves the sizes; one that is tells them. -/
def AnswersSizes (srv : StorageServer) (r : List Response × StorageServer) : Prop :=
  match Cluster.accepted r.1.head? with
  | some sizes => sizes = r.2.diskStorage.sizeInfo
  | none => r.2.diskStorage.sizeInfo = srv.diskStorage.sizeInfo

/-- An answer OK with the sizes after the request. -/
theorem answersSizes_ok {ds : DiskStorage} (replies : List Response) :
    srv.AnswersSizes (⟨.OK, ds.sizeInfo.serialize⟩ :: replies,
      { srv with diskStorage := ds }) := by
  show match SizeInfo.deserialize ds.sizeInfo.serialize with
    | some sizes => sizes = ds.sizeInfo
    | none => ds.sizeInfo = srv.diskStorage.sizeInfo
  rw [SizeInfo.deserialize_serialize]

theorem answersSizes_putHandler (srv : StorageServer) (body key : Bytes) :
    srv.AnswersSizes (srv.putHandler sha256_32 body key) := by
  unfold putHandler
  cases Block.deserialize body with
  | none => exact rfl
  | some blocks =>
      dsimp only
      rcases hw : srv.diskStorage.writeBlocks sha256_32 key blocks with ⟨res, ds'⟩
      cases res with
      | ok u => exact answersSizes_ok []
      | error err => exact sizeInfo_writeBlocks_error hw

theorem answersSizes_deleteHandler (srv : StorageServer) (key : Bytes) :
    srv.AnswersSizes (srv.deleteHandler sha256_32 key) := by
  unfold deleteHandler
  dsimp only
  rcases hd : srv.diskStorage.deleteBlocks sha256_32 key with ⟨res, ds'⟩
  cases res with
  | ok u => exact answersSizes_ok []
  | error err => exact congrArg sizeInfo (deleteBlocks_error hd)

theorem sizeInfo_getHandler (srv : StorageServer) (body key : Bytes) :
    (srv.getHandler sha256_32 body key).2.diskStorage.sizeInfo = srv.diskStorage.sizeInfo := by
  unfold getHandler
  cases readBlockNums body.length body with
  | none => rfl
  | some blockNums =>
      have hread := sizeInfo_readBlocks sha256_32 srv.diskStorage key blockNums.toFinset
        srv.dataBlockSize
      dsimp only
      split
      · exact hread
      · exact hread

theorem sizeInfo_syncHandler (srv : StorageServer) :
    (srv.syncHandler sha256_32).2.diskStorage.sizeInfo = srv.diskStorage.sizeInfo := by
  rw [syncHandler_snd]
  exact sizeInfo_collectBlockNums sha256_32 srv.dataBlockSize srv.diskStorage.getKeys ∅
    srv.diskStorage

variable (sha256_32) in
/-- **A PUT or a DELETE at a node**, whatever its path. -/
theorem answersSizes_router (srv : StorageServer) {request : Request}
    (hm : request.method = .PUT ∨ request.method = .DEL) :
    srv.AnswersSizes (srv.router sha256_32 request) := by
  obtain ⟨method, uri, body⟩ := request
  unfold router
  dsimp only at hm ⊢
  split
  · rcases hm with rfl | rfl
    · exact answersSizes_putHandler srv body _
    · exact answersSizes_deleteHandler srv _
  · -- the other paths do nothing for these methods
    split
    · rcases hm with rfl | rfl
      · exact rfl
      · exact rfl
    · split
      · rcases hm with rfl | rfl
        · exact rfl
        · exact rfl
      · exact rfl

variable (sha256_32) in
/-- **A GET at a node** only reads. -/
theorem sizeInfo_router (srv : StorageServer) (uri body : Bytes) :
    (srv.router sha256_32 ⟨.GET, uri, body⟩).2.diskStorage.sizeInfo
      = srv.diskStorage.sizeInfo := by
  unfold router
  dsimp only
  split
  · exact sizeInfo_getHandler srv body _
  · split
    · rfl
    · split
      · exact sizeInfo_syncHandler srv
      · rfl

variable (sha256_32) in
/-- The sizes in the answer of a sync are those of the node. -/
theorem sizeInfo_sync {payload : Bytes} {info : SyncInfo}
    (h : (srv.router sha256_32 ⟨.GET, syncPath, []⟩).1.head? = some ⟨.OK, payload⟩)
    (hinfo : SyncInfo.deserialize payload = some info) :
    info.sizeInfo = srv.diskStorage.sizeInfo := by
  have hpath : (ApiUtils.parsePath syncPath).1 = syncPath := by decide
  unfold router at h
  dsimp only at h
  rw [hpath, if_neg (by decide), if_neg (by decide), if_pos rfl] at h
  unfold syncHandler createSyncResponsePayload at h
  dsimp only at h
  have hsizes := sizeInfo_collectBlockNums sha256_32 srv.dataBlockSize
    srv.diskStorage.getKeys ∅ srv.diskStorage
  rcases hcollect : collectBlockNums sha256_32 srv.dataBlockSize srv.diskStorage.getKeys ∅
    srv.diskStorage with ⟨res, ds'⟩
  rw [hcollect] at h hsizes
  cases res with
  | error err => cases h
  | ok keyBlockNumMap =>
      obtain rfl := (Response.mk.inj (Option.some.inj h)).2
      exact (SyncInfo.sizeInfo_of_deserialize hinfo).trans hsizes

end StorageServer

namespace Cluster

variable {env : Env} {reach : Nat → Bool} {c c' : Cluster}

/-! ## The master -/

/-- What the master keeps about the node is what the node would report. -/
def Seen.Known (v : Seen) : Prop := ∀ sn ∈ v.sn, sn.Shows v.srv.diskStorage.sizeInfo

/-- The master knows the sizes of all its nodes. -/
def SizesKnown (c : Cluster) : Prop := ∀ n, (see c n).Known

variable (env reach) in
/-- The sizes of a node after a PUT or DELETE request that may not get through. -/
theorem exchange_sizes (n : Nat) (srv : StorageServer) {request : Request}
    (hm : request.method = .PUT ∨ request.method = .DEL) :
    match accepted (exchange env reach n srv request).1 with
    | some sizes => sizes = (exchange env reach n srv request).2.diskStorage.sizeInfo
    | none => (exchange env reach n srv request).2.diskStorage.sizeInfo
        = srv.diskStorage.sizeInfo := by
  unfold exchange
  cases reach n with
  | false => exact rfl
  | true => exact StorageServer.answersSizes_router env.sha256_32 srv hm

/-- **A request of a PUT or a DELETE keeps what is known of its node.** -/
theorem Seen.Known.after {v : Seen} (h : v.Known) {key : Bytes} {request : Nat → Request}
    {added : Nat → Nat} {n : Nat}
    (hm : (request n).method = .PUT ∨ (request n).method = .DEL) :
    (Seen.after env reach key request added n v).Known := by
  have hsizes := exchange_sizes env reach n v.srv hm
  cases hacc : accepted (exchange env reach n v.srv (request n)).1 with
  | none =>
      rw [hacc] at hsizes
      rw [Seen.after_rejected hacc]
      intro sn hsn
      dsimp only
      rw [hsizes]
      exact h sn hsn
  | some sizes =>
      rw [hacc] at hsizes
      rw [Seen.after_accepted hacc]
      intro sn hsn
      obtain ⟨sn₀, -, rfl⟩ := Option.map_eq_some_iff.mp hsn
      dsimp only
      rw [← hsizes]
      exact shows_updateNodeDataSizes _ sizes

/-- A request of a GET keeps it, too: nothing changes. -/
theorem Seen.Known.get {v : Seen} (h : v.Known) (n : Nat) (uri body : Bytes) :
    Seen.Known { v with srv := (exchange env reach n v.srv ⟨.GET, uri, body⟩).2 } := by
  intro sn hsn
  have hsizes : (exchange env reach n v.srv ⟨.GET, uri, body⟩).2.diskStorage.sizeInfo
      = v.srv.diskStorage.sizeInfo := by
    unfold exchange
    cases reach n with
    | false => rfl
    | true => exact StorageServer.sizeInfo_router env.sha256_32 v.srv _ body
  dsimp only
  rw [hsizes]
  exact h sn hsn

/-- One node has changed, and what is known of it is right. -/
theorem SizesKnown.update (h : c.SizesKnown) {n : Nat} {v : Seen} (hv : v.Known)
    (hsee : see c' = Function.update (see c) n v) : c'.SizesKnown := by
  intro n'
  rw [hsee]
  by_cases hn : n' = n
  · subst hn
    rwa [Function.update_self]
  · rw [Function.update_of_ne hn]
    exact h n'

/-- The map of the master does not matter. -/
theorem SizesKnown.congr (h : c.SizesKnown) (hnodes : c'.nodes = c.nodes)
    (hstorage : c'.master.storageNodes = c.master.storageNodes) : c'.SizesKnown := by
  intro n sn hsn
  have hsn : c'.master.storageNodes[n]? = some sn := hsn
  rw [hstorage] at hsn
  have hknown := h n sn hsn
  show sn.Shows (c'.nodes n).diskStorage.sizeInfo
  rw [hnodes]
  exact hknown

theorem SizesKnown.getHandler (h : c.SizesKnown) (reach : Nat → Bool) (key : Bytes) :
    (c.getHandler env reach key).2.SizesKnown := by
  unfold Cluster.getHandler
  cases c.master.keyBlockNodeMap[key]? with
  | none => exact h
  | some bm =>
      dsimp only
      cases c.chooseNodes bm.toList with
      | none => exact h
      | some choices =>
          have hloop := List.foldlRecOn (motive := fun s : GetState => s.cluster.SizesKnown)
            (env.order (Groups.group choices).keys)
            (fun s n => getBlocks env reach key s n ((Groups.group choices).getD n []))
            (b := ⟨true, ∅, c⟩) h fun s hs n _ =>
              hs.update ((hs n).get n _ _) (see_send env reach s.cluster n _)
          dsimp only
          split
          · exact hloop
          · exact hloop

theorem SizesKnown.putHandler (h : c.SizesKnown) {fuel : Nat} {key payload : Bytes}
    {r : Response × Cluster} (hr : c.putHandler env reach fuel key payload = some r) :
    r.2.SizesKnown := by
  unfold Cluster.putHandler at hr
  simp only [Option.bind_eq_bind, Option.bind_eq_some_iff] at hr
  obtain ⟨nodeBlockMap, -, hr⟩ := hr
  have hloop := List.foldlRecOn (motive := fun s : PutState => s.cluster.SizesKnown)
    (env.order nodeBlockMap.keys)
    (fun s n => sendBlocks env reach key s n (nodeBlockMap.getD n []))
    (b := ⟨true, ∅, c⟩) h fun s hs n _ =>
      hs.update ((hs n).after (Or.inl rfl))
        (sendBlocks_see env reach key (fun n => nodeBlockMap.getD n []) s n).1
  split at hr
  · obtain rfl := Option.some.inj hr
    exact hloop.congr rfl rfl
  · obtain rfl := Option.some.inj hr
    exact hloop

theorem SizesKnown.deleteHandler (h : c.SizesKnown) (reach : Nat → Bool) (key : Bytes) :
    (c.deleteHandler env reach key).2.SizesKnown := by
  unfold Cluster.deleteHandler
  cases c.master.keyBlockNodeMap[key]? with
  | none => exact h
  | some bm =>
      have hloop := List.foldlRecOn (motive := fun s : Bool × Cluster => s.2.SizesKnown)
        (env.order (allNodeIds bm).toList) (deleteBlocks env reach key) (b := (true, c)) h
        fun s hs n _ => hs.update ((hs n).after (Or.inr rfl)) (deleteBlocks_see env reach key s n).1
      dsimp only
      split
      · exact hloop.congr rfl rfl
      · exact hloop

/-- **A request of a client**, however it ends. -/
theorem SizesKnown.router (h : c.SizesKnown) {fuel : Nat} {request : Request}
    {response : Option Response}
    (hr : c.router env reach fuel request = some (response, c')) : c'.SizesKnown := by
  unfold Cluster.router at hr
  dsimp only at hr
  split at hr
  · split at hr
    · obtain ⟨-, rfl⟩ := Prod.mk.inj (Option.some.inj hr)
      exact h.getHandler reach _
    · obtain ⟨r, hput, hr⟩ := Option.map_eq_some_iff.mp hr
      obtain ⟨-, rfl⟩ := Prod.mk.inj hr
      exact h.putHandler hput
    · obtain ⟨-, rfl⟩ := Prod.mk.inj (Option.some.inj hr)
      exact h.deleteHandler reach _
    · obtain ⟨-, rfl⟩ := Prod.mk.inj (Option.some.inj hr)
      exact h
  · -- `/keys` and `/stats` ask no node
    split at hr
    · obtain ⟨-, rfl⟩ := Prod.mk.inj (Option.some.inj hr)
      exact h
    · split at hr
      · obtain ⟨-, rfl⟩ := Prod.mk.inj (Option.some.inj hr)
        exact h
      · obtain ⟨-, rfl⟩ := Prod.mk.inj (Option.some.inj hr)
        exact h

theorem SizesKnown.withHealth (h : c.SizesKnown) (healthy : Nat → Bool) :
    (c.withHealth healthy).SizesKnown := by
  intro n sn hsn
  have hsn : (c.master.storageNodes.map fun id sn => { sn with isHealthy := healthy id })[n]?
      = some sn := hsn
  rw [ExtTreeMap.getElem?_map] at hsn
  obtain ⟨sn₀, hsn₀, rfl⟩ := Option.map_eq_some_iff.mp hsn
  exact h n sn₀ hsn₀

/-! ## The start of a master, and what follows -/

/-- The sizes in a sync answer that gets through are those of the node after it. -/
theorem exchange_sync {n : Nat} {srv : StorageServer} {payload : Bytes} {info : SyncInfo}
    (h : (exchange env reach n srv ⟨.GET, syncPath, []⟩).1 = some ⟨.OK, payload⟩)
    (hinfo : SyncInfo.deserialize payload = some info) :
    info.sizeInfo
      = (exchange env reach n srv ⟨.GET, syncPath, []⟩).2.diskStorage.sizeInfo := by
  have huri : env.uri syncPath = syncPath := by
    have h := env.uri_nul syncPath 0 (by decide)
    rwa [List.replicate_zero, List.append_nil] at h
  unfold exchange at h ⊢
  cases hn : reach n with
  | false =>
      rw [hn] at h
      cases h
  | true =>
      rw [hn] at h
      dsimp only at h ⊢
      rw [huri] at h ⊢
      calc info.sizeInfo = srv.diskStorage.sizeInfo := StorageServer.sizeInfo_sync _ h hinfo
        _ = (srv.router env.sha256_32 ⟨.GET, syncPath, []⟩).2.diskStorage.sizeInfo :=
          (StorageServer.sizeInfo_router env.sha256_32 srv syncPath []).symm

/-- A node that has answered is known, and the others are as before. -/
theorem syncWithStorageNode_known {n : Nat} (h : syncWithStorageNode env reach c n = some c') :
    (see c' n).Known ∧ ∀ n' ≠ n, (see c n').Known → (see c' n').Known := by
  unfold syncWithStorageNode at h
  dsimp only at h
  rw [send_eq] at h
  split at h
  swap
  · cases h
  rename_i payload hreply
  simp only [Option.bind_eq_bind, Option.bind_eq_some_iff] at h
  obtain ⟨info, hinfo, h⟩ := h
  obtain rfl := Option.some.inj h
  constructor
  · intro sn hsn
    simp only [see, ExtTreeMap.getElem?_modify_self] at hsn
    obtain ⟨sn₀, -, rfl⟩ := Option.map_eq_some_iff.mp hsn
    simp only [see, Function.update_self]
    rw [← exchange_sync hreply hinfo]
    exact shows_updateNodeDataSizes _ _
  · intro n' hn h sn hsn
    simp only [see, ExtTreeMap.getElem?_modify] at hsn
    rw [if_neg fun he => hn (LawfulEqOrd.compare_eq_iff_eq.mp he).symm] at hsn
    simp only [see, Function.update_of_ne hn]
    exact h sn hsn

/-- Every node that has answered is known. -/
theorem syncWithStorageNodes_known :
    ∀ (answers : List Nat) {c : Cluster}, syncWithStorageNodes env reach c answers = some c' →
      ∀ n, n ∈ answers ∨ (see c n).Known → (see c' n).Known
  | [], c, h, n, hn => by
      obtain rfl := Option.some.inj h
      exact hn.resolve_left List.not_mem_nil
  | n₀ :: answers, c, h, n, hn => by
      rw [syncWithStorageNodes, List.foldlM_cons, Option.bind_eq_bind, Option.bind_eq_some_iff] at h
      obtain ⟨c₁, hone, hrest⟩ := h
      obtain ⟨hasked, hothers⟩ := syncWithStorageNode_known hone
      refine syncWithStorageNodes_known answers hrest n ?_
      by_cases hn₀ : n = n₀
      · subst hn₀
        exact Or.inr hasked
      · rcases hn with hn | hn
        · exact Or.inl ((List.mem_cons.mp hn).resolve_left hn₀)
        · exact Or.inr (hothers n hn₀ hn)

/-- **The statistics of the master are right**: after a start at which all nodes answer, and any
requests of clients and health checks, whatever fails in them, the used, total and free bytes that
the master keeps of each node are those of the node. -/
theorem sizes_known {config : MasterConfig} {nodes : Nat → StorageServer} {answers : List Nat}
    {events : List Event}
    (hstart : Cluster.start env reach config nodes answers = some c)
    (hall : ∀ n : Nat, n ∈ (MasterServer.initialise env config).storageNodes → n ∈ answers)
    (hrun : events.foldlM (Event.run env) c = some c') (n : Nat) (sn : StorageNode)
    (hsn : c'.master.storageNodes[n]? = some sn) :
    let ds := (c'.nodes n).diskStorage
    sn.stats.dataBytesUsed = ds.dataUsedSize ∧ sn.stats.dataBytesTotal = ds.dataTotalSize ∧
      sn.stats.dataBytesFree = ds.dataTotalSize - ds.dataUsedSize := by
  have hknown : c.SizesKnown := by
    intro n
    refine syncWithStorageNodes_known answers hstart n ?_
    by_cases hn : n ∈ (MasterServer.initialise env config).storageNodes
    · exact Or.inl (hall n hn)
    · refine Or.inr fun sn hsn => ?_
      have hsn : (MasterServer.initialise env config).storageNodes[n]? = some sn := hsn
      rw [ExtTreeMap.getElem?_eq_none hn] at hsn
      cases hsn
  have hstep : ∀ s e s', s.SizesKnown → Event.run env s e = some s' → s'.SizesKnown := by
    intro s e s' hs he
    cases e with
    | request reach fuel request =>
        obtain ⟨⟨response, s₁⟩, hrouter, rfl⟩ := Option.map_eq_some_iff.mp he
        exact hs.router hrouter
    | health healthy =>
        obtain rfl := Option.some.inj he
        exact hs.withHealth healthy
  exact Runs.foldlM_invariant hstep events c c' hknown hrun n sn hsn

private def halfPut : List Event :=
  [.health fun _ => true,
    .request (fun n => n != 1) 100 ⟨.PUT, storeUri [97], [1, 2, 3, 4, 5, 6, 7, 8, 9, 10]⟩]

/-- A PUT that one of three nodes does not get: it fails, and two nodes store their blocks. -/
theorem sizes_known_sample :
    ∃ c c' sn, Cluster.start (Env.ofHash sampleHash) (fun _ => true) sampleConfig
        (fun _ => StorageServer.new default 8 64 4) [2, 0, 1] = some c ∧
      halfPut.foldlM (Event.run (Env.ofHash sampleHash)) c = some c' ∧
      c'.master.storageNodes[2]? = some sn ∧ sn.stats.dataBytesUsed = 22 ∧
      (c'.nodes 2).diskStorage.dataUsedSize = 22 := by
  have hsome : (do
      let c ← Cluster.start (Env.ofHash sampleHash) (fun _ => true) sampleConfig
        (fun _ => StorageServer.new default 8 64 4) [2, 0, 1]
      let c' ← halfPut.foldlM (Event.run (Env.ofHash sampleHash)) c
      let sn ← c'.master.storageNodes[2]?
      some sn.stats.dataBytesUsed) = some (22 : UInt32) := by decide +kernel
  simp only [Option.bind_eq_bind, Option.bind_eq_some_iff, Option.some.injEq] at hsome
  obtain ⟨c, hstart, c', hrun, sn, hsn, hused⟩ := hsome
  have hids : (MasterServer.initialise (Env.ofHash sampleHash) sampleConfig).storageNodes.keys
      = [0, 1, 2] := by decide +kernel
  have hall : ∀ n : Nat,
      n ∈ (MasterServer.initialise (Env.ofHash sampleHash) sampleConfig).storageNodes →
        n ∈ [2, 0, 1] := by
    intro n hn
    have hmem := ExtTreeMap.mem_keys.mpr hn
    rw [hids] at hmem
    simp only [List.mem_cons, List.not_mem_nil, or_false] at hmem ⊢
    omega
  have hknown := (sizes_known hstart hall hrun 2 sn hsn).1
  exact ⟨c, c', sn, hstart, hrun, hsn, hused, hknown.symm.trans hused⟩

end Cluster

end RackKey
