import RackKey.Master.Server

set_option autoImplicit false

/-! # Requests to a node

What one request of the master does at a node, for keys that travel unchanged: the reply and
the state of the node afterwards as functions of the contents of its store.
-/

namespace RackKey

open Std Words Payloads DiskStorage

/-! ## Keys on the wire -/

/-- The fixed-size form of a key, as the routers make it. -/
def padded (key : Bytes) : Bytes := StringUtils.fixedSize key 50

/-- A key that keeps its identity on its way to a node and back. -/
structure ClientKey (key : Bytes) : Prop extends PlainKey key where
  length_le : key.length ≤ 49

theorem padded_length (key : Bytes) : (padded key).length = 50 :=
  StringUtils.fixedSize_length key 50

/-- The padded key is the first 50 bytes of the key, and null bytes. -/
theorem padded_eq_take (key : Bytes) :
    padded key = key.take 50 ++ List.replicate (50 - key.length) 0 := rfl

theorem padded_take (key : Bytes) : padded (key.take 50) = padded key := by
  rw [padded_eq_take, padded_eq_take, List.take_take, Nat.min_self, List.length_take]
  congr 2
  omega

theorem PlainKey.take {key : Bytes} (h : PlainKey key) (n : Nat) : PlainKey (key.take n) :=
  ⟨fun hs => h.slash (List.mem_of_mem_take hs), fun h0 => h.nul (List.mem_of_mem_take h0)⟩

/-- A node receives the bytes of the padded key up to the null bytes. -/
theorem PlainKey.uri_padded {key : Bytes} (h : PlainKey key) (env : Env) :
    env.uri (storeUri (padded key)) = storeUri (key.take 50) := by
  have hnul : (0 : UInt8) ∉ storeUri (key.take 50) := by
    simp only [storeUri, List.mem_append, not_or]
    exact ⟨by decide, (h.take 50).nul⟩
  have heq : storeUri (padded key)
      = storeUri (key.take 50) ++ List.replicate (50 - key.length) 0 := by
    rw [padded_eq_take]
    simp only [storeUri, List.append_assoc]
  rw [heq]
  exact env.uri_nul _ _ hnul

namespace ClientKey

variable {key : Bytes} (h : ClientKey key)

include h

theorem padded_eq : padded key = key ++ List.replicate (50 - key.length) 0 := by
  have hle := h.length_le
  rw [padded_eq_take, List.take_of_length_le (by omega)]

/-- Reading the padded key as a C string gives the key back. -/
theorem cStr_padded : StringUtils.cStr (padded key) = key := by
  rw [h.padded_eq]
  exact StringUtils.takeWhile_append_replicate_zero h.nul _

end ClientKey

theorem padded_inj {key key' : Bytes} (h : ClientKey key) (h' : ClientKey key')
    (heq : padded key = padded key') : key = key' := by
  rw [← h.cStr_padded, heq, h'.cStr_padded]

/-! ## Nodes that can be read -/

namespace StorageServer

/-- A node that answers reads from its contents. -/
structure Readable (dataBlockSize : UInt32) (srv : StorageServer) : Prop where
  ready : srv.diskStorage.storeFile.Ready
  backed : srv.diskStorage.Backed
  dataBlockSize : srv.dataBlockSize = dataBlockSize
  keyLengthMax : srv.keyLengthMax = 50

/-- A node with an intact store. -/
structure Ok (dataBlockSize : UInt32) (srv : StorageServer) : Prop
    extends Readable dataBlockSize srv where
  store : ∃ d m, Layout d m ∧ srv.diskStorage.Intact d m
  storeKeyLengthMax : srv.diskStorage.keyLengthMax = 50

def contents (srv : StorageServer) (keyHash : UInt32) : Option Bytes :=
  srv.diskStorage.contents keyHash

/-- `srv'` is `srv` with another ready stream on the same file. -/
def AfterReads (srv srv' : StorageServer) : Prop :=
  srv' = srv ∨ ∃ f : StoreFile, f.Ready ∧ f.bytes = srv.diskStorage.storeFile.bytes ∧
    srv' = { srv with diskStorage := { srv.diskStorage with storeFile := f } }

theorem AfterReads.refl (srv : StorageServer) : AfterReads srv srv := Or.inl rfl

theorem AfterReads.trans {srv srv' srv'' : StorageServer} (h : AfterReads srv srv')
    (h' : AfterReads srv' srv'') : AfterReads srv srv'' := by
  rcases h' with rfl | ⟨f', hf', hb', rfl⟩
  · exact h
  · rcases h with rfl | ⟨f, hf, hb, rfl⟩
    · exact Or.inr ⟨f', hf', hb', rfl⟩
    · exact Or.inr ⟨f', hf', hb'.trans hb, rfl⟩

theorem AfterReads.contents {srv srv' : StorageServer} (h : AfterReads srv srv') (k : UInt32) :
    srv'.contents k = srv.contents k := by
  rcases h with rfl | ⟨f, -, hb, rfl⟩
  · rfl
  · exact (contents_congr srv.diskStorage { srv.diskStorage with storeFile := f } rfl rfl hb).1 k

theorem AfterReads.readable {dataBlockSize : UInt32} {srv srv' : StorageServer}
    (h : AfterReads srv srv') (hr : srv.Readable dataBlockSize) : srv'.Readable dataBlockSize := by
  rcases h with rfl | ⟨f, hf, hb, rfl⟩
  · exact hr
  · have hcongr := contents_congr srv.diskStorage { srv.diskStorage with storeFile := f } rfl rfl hb
    exact ⟨hf, hcongr.2 hr.backed, hr.dataBlockSize, hr.keyLengthMax⟩

theorem AfterReads.ok {dataBlockSize : UInt32} {srv srv' : StorageServer}
    (h : AfterReads srv srv') (ho : srv.Ok dataBlockSize) : srv'.Ok dataBlockSize := by
  have hr := h.readable ho.toReadable
  rcases h with rfl | ⟨f, hf, hb, rfl⟩
  · exact ho
  · obtain ⟨d, m, hl, hi⟩ := ho.store
    exact ⟨hr, ⟨d, m, hl, hi.withStoreFile hf hb⟩, ho.storeKeyLengthMax⟩

/-- A write that returns keeps a node in order and replaces the contents of its hash. -/
theorem Ok.write {sha256_32 : Bytes → UInt32} {dataBlockSize : UInt32} {srv : StorageServer}
    (ho : srv.Ok dataBlockSize) {K : Bytes} {blocks : List Block} {ds' : DiskStorage}
    (hw : srv.diskStorage.writeBlocks sha256_32 K blocks = (.ok (), ds')) :
    Ok dataBlockSize { srv with diskStorage := ds' } ∧
      ∀ k, ds'.contents k
        = if k = sha256_32 K then some (copyBlocks blocks) else srv.contents k := by
  obtain ⟨d, m, hl, hi⟩ := ho.store
  obtain ⟨start, hok⟩ := writeBlocks_ok hw
  obtain ⟨hb, hc⟩ := hok.contents hl hi ho.backed
  have hr := (hok.recoverable hi (hi.headerClear hl.clear)).1
  exact ⟨⟨⟨hr.ready, hb, ho.dataBlockSize, ho.keyLengthMax⟩, ⟨d, m, hl, hr.toIntact⟩,
    hok.keyLengthMax.trans ho.storeKeyLengthMax⟩, hc⟩

/-- A delete that returns keeps a node in order and removes the contents of its hash. -/
theorem Ok.delete {sha256_32 : Bytes → UInt32} {dataBlockSize : UInt32} {srv : StorageServer}
    (ho : srv.Ok dataBlockSize) {K : Bytes} {ds' : DiskStorage}
    (hd : srv.diskStorage.deleteBlocks sha256_32 K = (.ok (), ds')) :
    Ok dataBlockSize { srv with diskStorage := ds' } ∧
      ∀ k, ds'.contents k = if k = sha256_32 K then none else srv.contents k := by
  obtain ⟨d, m, hl, hi⟩ := ho.store
  obtain ⟨i, e, hf, rfl⟩ := deleteBlocks_ok hd
  obtain ⟨hb, hc⟩ := contents_deleteBlocks hi.sound.table.hashes hf
    (srv.diskStorage.freeSpaceMap.freeNBlocks e.startingDiskBlockNum
      (srv.diskStorage.getNumDiskBlocks e.numBytes)) (srv.diskStorage.bat.numEntries - 1)
  exact ⟨⟨⟨ho.ready, hb ho.backed, ho.dataBlockSize, ho.keyLengthMax⟩,
    ⟨d, m, hl, intact_deleteBlocks hi hf⟩,
    ho.storeKeyLengthMax⟩, hc⟩

/-- A node with a newly created store. -/
def new (junk : Junk) (diskBlockSize maxDataSize dataBlockSize : UInt32) : StorageServer :=
  ⟨newStore junk diskBlockSize maxDataSize 50, dataBlockSize, 50⟩

theorem table_new (junk : Junk) (d m dataBlockSize : UInt32) :
    (new junk d m dataBlockSize).diskStorage.bat.table = [] := table_newStore junk d m 50

theorem contents_new (junk : Junk) (d m dataBlockSize : UInt32) (k : UInt32) :
    (new junk d m dataBlockSize).contents k = none := by
  rw [contents, DiskStorage.contents, table_new]
  rfl

theorem ok_new (junk : Junk) {d m : UInt32} (hl : Layout d m) (dataBlockSize : UInt32) :
    (new junk d m dataBlockSize).Ok dataBlockSize := by
  obtain ⟨hr, -, -, -⟩ := recoverable_newStore junk d m 50
  exact ⟨⟨hr.ready, backed_newStore junk d m 50, rfl, rfl⟩, ⟨d, m, hl, hr.toIntact⟩, rfl⟩

end StorageServer

/-- A new master over new nodes, after its first health checks found all of them up. -/
def Cluster.fresh (env : Env) (junk : Junk) (config : MasterConfig)
    (diskBlockSize maxDataSize : UInt32) : Cluster :=
  Cluster.withHealth ⟨MasterServer.initialise env config,
    fun _ => StorageServer.new junk diskBlockSize maxDataSize config.dataBlockSize⟩ fun _ => true

/-! ## The three requests -/

/-- The reply of a readable node to a read. -/
def readReply (dataBlockSize : UInt32) (K : Bytes) (blockNums : List UInt32) :
    Option Bytes → Response
  | none => ⟨.InternalError, []⟩
  | some raw =>
      match selectBlocks K blockNums.toFinset dataBlockSize raw with
      | .error _ => ⟨.InternalError, []⟩
      | .ok blocks => ⟨.OK, Block.serializeAll blocks⟩

namespace Cluster

/-- `c'` is `c` after reads at some of its nodes. -/
structure AfterReads (c c' : Cluster) : Prop where
  master : c'.master = c.master
  nodes : ∀ n, StorageServer.AfterReads (c.nodes n) (c'.nodes n)

theorem AfterReads.refl (c : Cluster) : AfterReads c c :=
  ⟨rfl, fun n => StorageServer.AfterReads.refl (c.nodes n)⟩

theorem AfterReads.trans {c c' c'' : Cluster} (h : AfterReads c c') (h' : AfterReads c' c'') :
    AfterReads c c'' :=
  ⟨h'.master.trans h.master, fun n => (h.nodes n).trans (h'.nodes n)⟩

theorem AfterReads.update {c : Cluster} {n : Nat} {srv : StorageServer}
    (h : StorageServer.AfterReads (c.nodes n) srv) :
    AfterReads c { c with nodes := Function.update c.nodes n srv } := by
  refine ⟨rfl, fun n' => ?_⟩
  by_cases hn : n' = n
  · subst hn
    simpa using h
  · simpa [hn] using StorageServer.AfterReads.refl (c.nodes n')

section Requests

variable {env : Env} {reach : Nat → Bool} {key : Bytes}

/-- What reaches the node's handlers: the path of the client and the padded key. -/
theorem parse_uri_padded (env : Env) (hk : PlainKey key) {srv : StorageServer}
    (hl : srv.keyLengthMax = 50) :
    (ApiUtils.parsePath (env.uri (storeUri (padded key)))).1 = storePath ∧
      StringUtils.fixedSize (ApiUtils.parsePath (env.uri (storeUri (padded key)))).2
        srv.keyLengthMax = padded key := by
  rw [hk.uri_padded, ApiUtils.parsePath_storeUri (hk.take 50), hl]
  exact ⟨rfl, padded_take key⟩

theorem send_get (hk : PlainKey key) {dataBlockSize : UInt32} (c : Cluster) {n : Nat}
    (hr : reach n = true → (c.nodes n).Readable dataBlockSize) (blockNums : List UInt32) :
    (c.send env reach n ⟨.GET, storeUri (padded key), blockNumBytes blockNums⟩).1
        = (if reach n then some (readReply dataBlockSize (padded key) blockNums
            ((c.nodes n).contents (env.sha256_32 (padded key)))) else none) ∧
      AfterReads c
        (c.send env reach n ⟨.GET, storeUri (padded key), blockNumBytes blockNums⟩).2 := by
  unfold send
  cases hn : reach n with
  | false => exact ⟨rfl, AfterReads.refl c⟩
  | true =>
      have hr := hr hn
      obtain rfl := hr.dataBlockSize
      obtain ⟨hpath, hpad⟩ := parse_uri_padded env hk hr.keyLengthMax
      obtain ⟨f, hf, hb, hread⟩ := readBlocks_eq env.sha256_32 hr.ready hr.backed
        (padded key) blockNums.toFinset (c.nodes n).dataBlockSize
      have hnums := readBlockNums_blockNumBytes blockNums _ (Nat.le_refl _)
      have hview : (c.nodes n).diskStorage.contents = (c.nodes n).contents := rfl
      have hafter : StorageServer.AfterReads (c.nodes n)
          { c.nodes n with diskStorage := { (c.nodes n).diskStorage with storeFile := f } } :=
        Or.inr ⟨f, hf, hb, rfl⟩
      simp only [if_true, StorageServer.router, hpath, hpad, StorageServer.getHandler, hnums,
        hread, hview]
      cases hc : (c.nodes n).contents (env.sha256_32 (padded key)) with
      | none => exact ⟨rfl, AfterReads.update hafter⟩
      | some raw =>
          cases hs : selectBlocks (padded key) blockNums.toFinset (c.nodes n).dataBlockSize raw with
          | error err =>
              simp only [readReply, hs]
              exact ⟨rfl, AfterReads.update hafter⟩
          | ok blocks =>
              simp only [readReply, hs]
              exact ⟨rfl, AfterReads.update hafter⟩

/-- The reply of a node to a write or a delete, given the outcome and the store left. -/
def sizeReply (r : Except StorageError Unit × DiskStorage) : Response :=
  match r.1 with
  | .error _ => ⟨.InternalError, []⟩
  | .ok () => ⟨.OK, (SizeInfo.mk r.2.dataUsedSize r.2.dataTotalSize).serialize⟩

theorem send_put (hk : PlainKey key) (c : Cluster) {n : Nat}
    (hl : reach n = true → (c.nodes n).keyLengthMax = 50) (body : Bytes) :
    c.send env reach n ⟨.PUT, storeUri (padded key), body⟩
      = if reach n then
          match Block.deserialize body with
          | none => (none, c)
          | some blocks =>
              let r := (c.nodes n).diskStorage.writeBlocks env.sha256_32 (padded key) blocks
              (some (sizeReply r), { c with
                nodes := Function.update c.nodes n { c.nodes n with diskStorage := r.2 } })
        else (none, c) := by
  unfold send
  cases hn : reach n with
  | false => rfl
  | true =>
      obtain ⟨hpath, hpad⟩ := parse_uri_padded env hk (hl hn)
      simp only [if_true, StorageServer.router, hpath, hpad, StorageServer.putHandler, sizeReply]
      cases Block.deserialize body with
      | none => simp only [Function.update_eq_self, List.head?_nil]
      | some blocks =>
          dsimp only
          cases ((c.nodes n).diskStorage.writeBlocks env.sha256_32 (padded key) blocks).1 with
          | error err => rfl
          | ok u => rfl

theorem send_delete (hk : PlainKey key) (c : Cluster) {n : Nat}
    (hl : reach n = true → (c.nodes n).keyLengthMax = 50) :
    c.send env reach n ⟨.DEL, storeUri (padded key), []⟩
      = if reach n then
          let r := (c.nodes n).diskStorage.deleteBlocks env.sha256_32 (padded key)
          (some (sizeReply r), { c with
            nodes := Function.update c.nodes n { c.nodes n with diskStorage := r.2 } })
        else (none, c) := by
  unfold send
  cases hn : reach n with
  | false => rfl
  | true =>
      obtain ⟨hpath, hpad⟩ := parse_uri_padded env hk (hl hn)
      simp only [if_true, StorageServer.router, hpath, hpad, StorageServer.deleteHandler, sizeReply]
      cases hw : ((c.nodes n).diskStorage.deleteBlocks env.sha256_32 (padded key)).1 with
      | error err => rfl
      | ok u => rfl

end Requests

end Cluster

end RackKey
