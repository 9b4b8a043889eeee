import Mathlib.Data.Set.Function
import RackKey.Cluster.Write

set_option autoImplicit false

/-! # What a node reports to a starting master

A node whose table entries carry their keys (`Labelled`) reports each of its keys with the
numbers of the blocks it holds for it (`router_sync`), and a master that processes the reports of
some nodes, in any order, relates exactly what they report (`syncWithStorageNodes_spec`).
-/

namespace RackKey

open Std Words Payloads DiskStorage

/-! ## Tables that carry their keys -/

namespace DiskStorage

variable {sha256_32 : Bytes → UInt32} {Ks : Set Bytes}

/-- Every entry carries a key of `Ks` and its hash. -/
def Labelled (sha256_32 : Bytes → UInt32) (Ks : Set Bytes) (ds : DiskStorage) : Prop :=
  ∀ e ∈ ds.bat.table, ∃ key ∈ Ks,
    StringUtils.fixedSize e.keyText ds.keyLengthMax = padded key ∧
      e.keyHash = sha256_32 (padded key)

theorem keyText_ofKey {key : Bytes} (hk : ClientKey key) :
    StringUtils.cStr (KeyField.ofKey (padded key)).val = key := by
  have hle := hk.length_le
  show StringUtils.cStr ((StringUtils.cStr (padded key)).take 49
    ++ List.replicate (50 - ((StringUtils.cStr (padded key)).take 49).length) 0) = key
  rw [hk.cStr_padded, List.take_of_length_le hle]
  exact StringUtils.takeWhile_append_replicate_zero hk.nul _

/-- A write labels its entry. -/
theorem Labelled.write {d m : UInt32} {ds ds' : DiskStorage} (h : ds.Labelled sha256_32 Ks)
    (hi : ds.Intact d m) (hmax : ds.keyLengthMax = 50) {key : Bytes} (hk : ClientKey key)
    (hmem : key ∈ Ks) {blocks : List Block}
    (hw : ds.writeBlocks sha256_32 (padded key) blocks = (.ok (), ds')) :
    ds'.Labelled sha256_32 Ks := by
  obtain ⟨start, hok⟩ := writeBlocks_ok hw
  intro e he
  rw [hok.keyLengthMax]
  rw [hok.bat] at he
  rcases ((mem_updateBAT sha256_32 hi.sound.table.hashes (padded key) start
    (totalNumBytes blocks)).2 e).mp he with rfl | ⟨he, -⟩
  · -- the entry written: a new one carries the key, an old one keeps its text
    cases hf : ds.findEntry sha256_32 (padded key) with
    | none =>
        refine ⟨key, hmem, ?_, rfl⟩
        show StringUtils.fixedSize (StringUtils.cStr (KeyField.ofKey (padded key)).val) _ = _
        rw [keyText_ofKey hk, hmax]
        rfl
    | some ie =>
        obtain ⟨i, e⟩ := ie
        exact h e (findEntry_eq_some hf).2.2.1
  · exact h e he

theorem Labelled.delete {ds ds' : DiskStorage} (h : ds.Labelled sha256_32 Ks) {key : Bytes}
    (hd : ds.deleteBlocks sha256_32 (padded key) = (.ok (), ds')) :
    ds'.Labelled sha256_32 Ks := by
  obtain ⟨i, e, -, rfl⟩ := deleteBlocks_ok hd
  intro e' he'
  exact h e' (List.mem_of_mem_eraseIdx he')

/-- Among keys without collisions, the keys listed are those with contents. -/
theorem mem_getKeys {ds : DiskStorage} (h : ds.Labelled sha256_32 Ks)
    (hinj : Set.InjOn (fun key => sha256_32 (padded key)) Ks) {K : Bytes} :
    K ∈ ds.getKeys ↔ ∃ key ∈ Ks, K = padded key ∧ ds.contents (sha256_32 (padded key)) ≠ none := by
  unfold getKeys contents
  simp only [List.mem_map, ne_eq, Option.map_eq_none_iff, Keyed.lookup_eq_none]
  constructor
  · rintro ⟨e, he, rfl⟩
    obtain ⟨key, hmem, htext, hhash⟩ := h e he
    exact ⟨key, hmem, htext, fun hno => hno e he hhash⟩
  · rintro ⟨key, hmem, rfl, hsome⟩
    simp only [not_forall, not_not] at hsome
    obtain ⟨e, he, hhash⟩ := hsome
    obtain ⟨key', hmem', htext, hhash'⟩ := h e he
    -- the entry of the hash carries this key, since no other one has the hash
    have heq : key' = key := hinj hmem' hmem (hhash'.symm.trans hhash)
    exact ⟨e, he, by rw [htext, heq]⟩

end DiskStorage

/-! ## The report of a node -/

namespace StorageServer

/-- The numbers of the blocks a node holds for a key. -/
def reported (sha256_32 : Bytes → UInt32) (srv : StorageServer) (K : Bytes) : List UInt32 :=
  match srv.contents (sha256_32 K) with
  | none => []
  | some raw =>
      match parseBlockNums srv.dataBlockSize raw with
      | .error _ => []
      | .ok blockNums => blockNums

theorem reported_eq {sha256_32 : Bytes → UInt32} {srv : StorageServer} {K raw : Bytes}
    {blockNums : List UInt32} (hraw : srv.contents (sha256_32 K) = some raw)
    (hparse : parseBlockNums srv.dataBlockSize raw = .ok blockNums) :
    srv.reported sha256_32 K = blockNums := by
  unfold reported
  rw [hraw]
  dsimp only
  rw [hparse]

/-- A node that can report: what it holds for each of its keys can be decoded. -/
structure Reports (sha256_32 : Bytes → UInt32) (srv : StorageServer) : Prop where
  ready : srv.diskStorage.storeFile.Ready
  backed : srv.diskStorage.Backed
  keyLengthMax : srv.diskStorage.keyLengthMax = 50
  keys : ∀ K ∈ srv.diskStorage.getKeys, ∃ raw blockNums,
    srv.contents (sha256_32 K) = some raw ∧
      parseBlockNums srv.dataBlockSize raw = .ok blockNums ∧ blockNums ≠ [] ∧
      blockNums.length < 2 ^ 32

/-- What `createSyncResponsePayload` collects. -/
def entries (sha256_32 : Bytes → UInt32) (srv : StorageServer) : ExtTreeMap Bytes (List UInt32) :=
  srv.diskStorage.getKeys.foldl (fun m K => m.insert K (srv.reported sha256_32 K)) ∅

theorem getElem?_foldl_insert_keys {nums : Bytes → List UInt32} (keys : List Bytes)
    (m : ExtTreeMap Bytes (List UInt32)) (K : Bytes) :
    (keys.foldl (fun m K => m.insert K (nums K)) m)[K]?
      = if K ∈ keys then some (nums K) else m[K]? := by
  induction keys generalizing m with
  | nil => simp
  | cons K₀ keys ih =>
      rw [List.foldl_cons, ih, getElem?_insert_eq]
      by_cases hK : K₀ = K
      · subst hK
        simp
      · have hK' : ¬ K = K₀ := fun h => hK h.symm
        simp [hK, hK']

theorem mem_entries {sha256_32 : Bytes → UInt32} {srv : StorageServer} {K : Bytes}
    {blockNums : List UInt32} :
    (K, blockNums) ∈ (srv.entries sha256_32).toList ↔
      K ∈ srv.diskStorage.getKeys ∧ blockNums = srv.reported sha256_32 K := by
  rw [ExtTreeMap.mem_toList_iff_getElem?_eq_some, entries, getElem?_foldl_insert_keys]
  by_cases hK : K ∈ srv.diskStorage.getKeys
  · simp [hK, eq_comm]
  · simp [hK]

theorem collectBlockNums_eq (sha256_32 : Bytes → UInt32) (dataBlockSize : UInt32)
    (nums : Bytes → List UInt32) :
    ∀ (keys : List Bytes) (m : ExtTreeMap Bytes (List UInt32)) {ds : DiskStorage},
      ds.storeFile.Ready → ds.Backed →
      (∀ K ∈ keys, ∃ raw, ds.contents (sha256_32 K) = some raw ∧
        parseBlockNums dataBlockSize raw = .ok (nums K)) →
      ∃ f : StoreFile, f.Ready ∧ f.bytes = ds.storeFile.bytes ∧
        collectBlockNums sha256_32 dataBlockSize keys m ds
          = (.ok (keys.foldl (fun m K => m.insert K (nums K)) m), { ds with storeFile := f })
  | [], m, ds, hready, _, _ => ⟨ds.storeFile, hready, rfl, rfl⟩
  | K :: keys, m, ds, hready, hb, hkeys => by
      obtain ⟨raw, hraw, hparse⟩ := hkeys K (by simp)
      obtain ⟨f, hf, hbytes, hget⟩ := getBlockNums_eq sha256_32 hready hb K dataBlockSize
      rw [hraw] at hget
      dsimp only at hget
      rw [hparse] at hget
      -- reading the first key's blocks leaves what the others are read from
      obtain ⟨hcontents, hbacked⟩ := contents_congr ds { ds with storeFile := f } rfl rfl hbytes
      obtain ⟨f', hf', hbytes', hrest⟩ := collectBlockNums_eq sha256_32 dataBlockSize nums keys
        (m.insert K (nums K)) hf (hbacked hb) fun K' hK' => by
          rw [hcontents]
          exact hkeys K' (by simp [hK'])
      refine ⟨f', hf', hbytes'.trans hbytes, ?_⟩
      rw [collectBlockNums, hget]
      exact hrest

/-- The answer of a node that can decode what it holds for each of its keys. -/
theorem router_sync_eq {sha256_32 : Bytes → UInt32} {srv : StorageServer}
    (hready : srv.diskStorage.storeFile.Ready) (hbacked : srv.diskStorage.Backed)
    (hkeys : ∀ K ∈ srv.diskStorage.getKeys, ∃ raw blockNums,
      srv.contents (sha256_32 K) = some raw ∧
        parseBlockNums srv.dataBlockSize raw = .ok blockNums) :
    ∃ srv', AfterReads srv srv' ∧
      srv.router sha256_32 ⟨.GET, syncPath, []⟩
        = ([⟨.OK, (SyncInfo.mk (srv.entries sha256_32)
            ⟨srv.diskStorage.dataUsedSize, srv.diskStorage.dataTotalSize⟩).serialize⟩], srv') := by
  obtain ⟨f, hf, hbytes, hcollect⟩ := collectBlockNums_eq sha256_32 srv.dataBlockSize
    (srv.reported sha256_32) srv.diskStorage.getKeys ∅ hready hbacked fun K hK => by
      obtain ⟨raw, blockNums, hraw, hparse⟩ := hkeys K hK
      exact ⟨raw, hraw, hparse.trans (congrArg _ (reported_eq hraw hparse).symm)⟩
  refine ⟨{ srv with diskStorage := { srv.diskStorage with storeFile := f } },
    Or.inr ⟨f, hf, hbytes, rfl⟩, ?_⟩
  have hpath : (ApiUtils.parsePath syncPath).1 = syncPath := by decide
  unfold router
  dsimp only
  rw [hpath, if_neg (by decide), if_neg (by decide), if_pos rfl]
  simp only [syncHandler, createSyncResponsePayload, hcollect]
  rfl

/-- **The answer of a node that can report.** -/
theorem router_sync {sha256_32 : Bytes → UInt32} {srv : StorageServer}
    (hr : srv.Reports sha256_32) :
    ∃ srv', AfterReads srv srv' ∧
      srv.router sha256_32 ⟨.GET, syncPath, []⟩
        = ([⟨.OK, (SyncInfo.mk (srv.entries sha256_32)
            ⟨srv.diskStorage.dataUsedSize, srv.diskStorage.dataTotalSize⟩).serialize⟩], srv') :=
  router_sync_eq hr.ready hr.backed fun K hK => by
    obtain ⟨raw, blockNums, hraw, hparse, -⟩ := hr.keys K hK
    exact ⟨raw, blockNums, hraw, hparse⟩

theorem AfterReads.reports {sha256_32 : Bytes → UInt32} {srv srv' : StorageServer}
    (h : AfterReads srv srv') (hr : srv.Reports sha256_32) :
    srv'.Reports sha256_32 ∧ srv'.diskStorage.getKeys = srv.diskStorage.getKeys ∧
      srv'.reported sha256_32 = srv.reported sha256_32 := by
  have hcontents := h.contents
  rcases h with rfl | ⟨f, hf, hb, rfl⟩
  · exact ⟨hr, rfl, rfl⟩
  · have hcongr := contents_congr srv.diskStorage { srv.diskStorage with storeFile := f } rfl rfl hb
    refine ⟨⟨hf, hcongr.2 hr.backed, hr.keyLengthMax, fun K hK => ?_⟩, rfl, ?_⟩
    · rw [hcontents]
      exact hr.keys K hK
    · funext K
      simp only [reported, hcontents]

/-- Every entry is a key of fixed size with at least one block. -/
theorem Reports.entries_spec {sha256_32 : Bytes → UInt32} {srv : StorageServer}
    (hr : srv.Reports sha256_32) {p : Bytes × List UInt32}
    (hp : p ∈ (srv.entries sha256_32).toList) :
    p.1.length = 50 ∧ p.2.length < 2 ^ 32 ∧ p.2 ≠ [] := by
  obtain ⟨hK, hnums⟩ := mem_entries.mp hp
  obtain ⟨raw, blockNums, hraw, hparse, hne, hlt⟩ := hr.keys p.1 hK
  have heq : p.2 = blockNums := hnums.trans (reported_eq hraw hparse)
  refine ⟨?_, heq ▸ hlt, heq ▸ hne⟩
  obtain ⟨e, -, hfix⟩ := List.mem_map.mp hK
  rw [← hfix, StringUtils.fixedSize_length, hr.keyLengthMax]
  rfl

end StorageServer

/-! ## The master's side -/

namespace Cluster

/-- What a node that holds its share of a payload reports for the key. -/
theorem Stores.reported {env : Env} {c : Cluster} {key payload : Bytes} {bm : BlockNodeMap}
    (hs : Stores env c key payload bm) {n : Nat} {b : UInt32} (hb : bm.Related b n)
    (hd : (c.nodes n).dataBlockSize = c.master.config.dataBlockSize) :
    ∃ raw blockNums, (c.nodes n).contents (env.sha256_32 (padded key)) = some raw ∧
      parseBlockNums (c.nodes n).dataBlockSize raw = .ok blockNums ∧
      (c.nodes n).reported env.sha256_32 (padded key) = blockNums ∧
      blockNums.length < 2 ^ 32 ∧ ∀ num, num ∈ blockNums ↔ bm.Related num n := by
  have hheld := hs.held n b hb
  have hparse := (congrArg (parseBlockNums · _) hd).trans
    (parseBlockNums_copyBlocks (hs.chunked_share n).1 (contents_length_lt hheld))
  refine ⟨_, _, hheld, hparse, StorageServer.reported_eq hheld hparse, ?_, hs.mem_share n⟩
  have hlen := (share_sublist bm n (payloadBlocks (padded key) c.master.config.dataBlockSize
    payload)).length_le
  rw [payloadBlocks, List.length_map, List.length_range] at hlen
  rw [List.length_map]
  exact Nat.lt_of_le_of_lt hlen hs.fits.numBlocks_lt

/-- What the entries of one node add to the map. -/
theorem holds_mergeSync (n : Nat) :
    ∀ (entries : List (Bytes × List UInt32)) (kbn : KeyBlockNodeMap) (K : Bytes) (b : UInt32)
      (n' : Nat), Nested.Holds (mergeSync n kbn entries) K b n' ↔
        Nested.Holds kbn K b n' ∨ (n' = n ∧ ∃ nums, (K, nums) ∈ entries ∧ b ∈ nums)
  | [], kbn, K, b, n' => by simp [mergeSync]
  | (K₀, nums₀) :: entries, kbn, K, b, n' => by
      have hstep : mergeSync n kbn ((K₀, nums₀) :: entries)
          = mergeSync n (Nested.merge kbn K₀ (nums₀.map fun blockNum => (blockNum, n))) entries :=
        rfl
      rw [hstep, holds_mergeSync n entries, Nested.holds_merge]
      simp only [List.mem_map, Prod.mk.injEq, List.mem_cons]
      -- from the first entry, from a later one, or from before
      constructor
      · rintro ((⟨rfl, b', hb', rfl, rfl⟩ | h) | ⟨rfl, nums, hnums, hb⟩)
        · exact Or.inr ⟨rfl, nums₀, Or.inl ⟨rfl, rfl⟩, hb'⟩
        · exact Or.inl h
        · exact Or.inr ⟨rfl, nums, Or.inr hnums, hb⟩
      · rintro (h | ⟨rfl, nums, ⟨rfl, rfl⟩ | hnums, hb⟩)
        · exact Or.inl (Or.inr h)
        · exact Or.inl (Or.inl ⟨rfl, b, hb, rfl, rfl⟩)
        · exact Or.inr ⟨rfl, nums, hnums, hb⟩

theorem full_mergeSync (n : Nat) :
    ∀ (entries : List (Bytes × List UInt32)) {kbn : KeyBlockNodeMap}, Nested.Full kbn →
      (∀ p ∈ entries, p.2 ≠ []) → Nested.Full (mergeSync n kbn entries)
  | [], _, h, _ => h
  | (K₀, nums₀) :: entries, kbn, h, hne => by
      have hne₀ : nums₀.map (fun blockNum => (blockNum, n)) ≠ [] := by
        simpa using hne (K₀, nums₀) (by simp)
      exact full_mergeSync n entries (h.merge K₀ hne₀) fun p hp => hne p (by simp [hp])

/-- The answer of a node, and what the master decodes from it. -/
theorem send_sync (env : Env) {reach : Nat → Bool} {c : Cluster} {n : Nat} (hn : reach n = true)
    (hr : (c.nodes n).Reports env.sha256_32) :
    ∃ srv' sizes, StorageServer.AfterReads (c.nodes n) srv' ∧
      c.send env reach n ⟨.GET, syncPath, []⟩
        = (some ⟨.OK, (SyncInfo.mk ((c.nodes n).entries env.sha256_32) sizes).serialize⟩,
            { c with nodes := Function.update c.nodes n srv' }) ∧
      SyncInfo.deserialize (SyncInfo.mk ((c.nodes n).entries env.sha256_32) sizes).serialize
        = some ⟨(c.nodes n).entries env.sha256_32, sizes⟩ := by
  obtain ⟨srv', hafter, hrouter⟩ := StorageServer.router_sync hr
  have huri : env.uri syncPath = syncPath := by
    have h := env.uri_nul syncPath 0 (by decide)
    rwa [List.replicate_zero, List.append_nil] at h
  refine ⟨srv', ⟨(c.nodes n).diskStorage.dataUsedSize, (c.nodes n).diskStorage.dataTotalSize⟩,
    hafter, ?_, SyncInfo.deserialize_serialize _
      fun p hp => ⟨(hr.entries_spec hp).1, (hr.entries_spec hp).2.1⟩⟩
  unfold send
  rw [if_pos hn]
  dsimp only
  rw [huri, hrouter]
  rfl

/-- One answer is merged into the map. -/
theorem syncWithStorageNode_eq (env : Env) {reach : Nat → Bool} {c : Cluster} {n : Nat}
    (hn : reach n = true) (hr : (c.nodes n).Reports env.sha256_32) :
    ∃ c', syncWithStorageNode env reach c n = some c' ∧
      MasterServer.NodesOnly
        { c.master with
          keyBlockNodeMap := mergeSync n c.master.keyBlockNodeMap
            ((c.nodes n).entries env.sha256_32).toList } c'.master ∧
      ∀ n', StorageServer.AfterReads (c.nodes n') (c'.nodes n') := by
  obtain ⟨srv', sizes, hafter, hsend, hdecode⟩ := send_sync env hn hr
  unfold syncWithStorageNode
  simp only [hsend, hdecode, Option.bind_eq_bind, Option.bind_some]
  exact ⟨_, rfl, ⟨rfl, rfl, rfl, fun _ => ExtTreeMap.mem_modify⟩, (AfterReads.update hafter).nodes⟩

/-- **The map after the answers of some nodes**: what it related before, and what the nodes
report. -/
theorem syncWithStorageNodes_spec (env : Env) {reach : Nat → Bool} :
    ∀ (answers : List Nat) {c : Cluster}, Nested.Full c.master.keyBlockNodeMap →
      (∀ n ∈ answers, reach n = true ∧ (c.nodes n).Reports env.sha256_32) →
      ∃ c', syncWithStorageNodes env reach c answers = some c' ∧
        Nested.Full c'.master.keyBlockNodeMap ∧
        (∀ K b n, Nested.Holds c'.master.keyBlockNodeMap K b n ↔
          Nested.Holds c.master.keyBlockNodeMap K b n ∨
            (n ∈ answers ∧ K ∈ (c.nodes n).diskStorage.getKeys ∧
              b ∈ (c.nodes n).reported env.sha256_32 K)) ∧
        c'.master.config = c.master.config ∧
        (∀ n, n ∈ c'.master.storageNodes ↔ n ∈ c.master.storageNodes) ∧
        ∀ n, StorageServer.AfterReads (c.nodes n) (c'.nodes n)
  | [], c, hfull, _ => by
      refine ⟨c, rfl, hfull, ?_, rfl, fun _ => Iff.rfl, fun n => StorageServer.AfterReads.refl _⟩
      simp
  | n :: answers, c, hfull, hnodes => by
      obtain ⟨hn, hr⟩ := hnodes n (by simp)
      obtain ⟨c₁, hone, hmaster, hafter⟩ := syncWithStorageNode_eq env hn hr
      have hfull₁ : Nested.Full c₁.master.keyBlockNodeMap := by
        rw [hmaster.keyBlockNodeMap]
        exact full_mergeSync n _ hfull fun p hp => (hr.entries_spec hp).2.2
      obtain ⟨c', hrest, hfull', hholds, hconfig, hstorage, hafter'⟩ :=
        syncWithStorageNodes_spec env answers hfull₁ fun n' hn' =>
          ⟨(hnodes n' (by simp [hn'])).1,
            ((hafter n').reports (hnodes n' (by simp [hn'])).2).1⟩
      refine ⟨c', ?_, hfull', fun K b n' => ?_, hconfig.trans hmaster.config,
        fun n' => (hstorage n').trans (hmaster.mem_storageNodes n'),
        fun n' => (hafter n').trans (hafter' n')⟩
      · rw [syncWithStorageNodes, List.foldlM_cons, hone]
        exact hrest
      · have hsame : ∀ n' ∈ answers,
            (c₁.nodes n').diskStorage.getKeys = (c.nodes n').diskStorage.getKeys ∧
              (c₁.nodes n').reported env.sha256_32 = (c.nodes n').reported env.sha256_32 :=
          fun n' hn' => ((hafter n').reports (hnodes n' (by simp [hn'])).2).2
        rw [hholds, hmaster.keyBlockNodeMap, holds_mergeSync]
        simp only [StorageServer.mem_entries, List.mem_cons]
        -- reported by the first node, or by a later one, whose report is the same
        constructor
        · rintro ((h | ⟨rfl, nums, ⟨hK, rfl⟩, hb⟩) | ⟨hn', hK, hb⟩)
          · exact Or.inl h
          · exact Or.inr ⟨Or.inl rfl, hK, hb⟩
          · rw [(hsame n' hn').1] at hK
            rw [(hsame n' hn').2] at hb
            exact Or.inr ⟨Or.inr hn', hK, hb⟩
        · rintro (h | ⟨rfl | hn', hK, hb⟩)
          · exact Or.inl (Or.inl h)
          · exact Or.inl (Or.inr ⟨rfl, _, ⟨hK, rfl⟩, hb⟩)
          · rw [← (hsame n' hn').1] at hK
            rw [← (hsame n' hn').2] at hb
            exact Or.inr ⟨hn', hK, hb⟩

end Cluster

end RackKey
