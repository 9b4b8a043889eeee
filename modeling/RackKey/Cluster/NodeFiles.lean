import RackKey.Cluster.Durable
import RackKey.Cluster.Sync

set_option autoImplicit false

/-! # What the files of the nodes hold

A node that is restarted goes back to its file, that is to what it held when it was last written
(`StorageServer.inFile`). `Restorable` is a durable node whose entries, in memory and in the file,
carry keys of clients and hold blocks that can be decoded. The requests of the master and restarts
keep it, and there is one equation for each about the file. A restorable node can report to a
starting master at any time (`Restorable.reports`).
-/

namespace RackKey

open Std Words Payloads DiskStorage WriteBehind

namespace StorageServer

/-- What the node holds under a hash after a restart. -/
def inFile (d m : UInt32) (srv : StorageServer) (keyHash : UInt32) : Option Bytes :=
  (srv.diskStorage.reopen default d m).2.contents keyHash

/-- The bytes are blocks with distinct numbers that can be read back. -/
def Decodes (dataBlockSize : UInt32) (raw : Bytes) : Prop :=
  ∃ blocks, raw = copyBlocks blocks ∧ Chunked dataBlockSize blocks ∧ blocks ≠ [] ∧
    (blocks.map Block.blockNum).Nodup ∧ raw.length < 2 ^ 32

/-- A node that can be restarted, and can then report what it holds. -/
structure Restorable (sha256_32 : Bytes → UInt32) (Ks : Set Bytes) (d m dataBlockSize : UInt32)
    (srv : StorageServer) : Prop extends Durable d m dataBlockSize srv where
  labelled : srv.diskStorage.Labelled sha256_32 Ks
  fileLabelled : ∃ t, StoreFile.HoldsTable srv.diskStorage.storeFile.bytes t ∧
    TableOk srv.diskStorage.header srv.diskStorage.freeSpaceMap.numBits t ∧
    (srv.diskStorage.withTable t).Labelled sha256_32 Ks
  decodes : ∀ k raw, srv.inFile d m k = some raw → Decodes srv.dataBlockSize raw

variable {sha256_32 : Bytes → UInt32} {Ks : Set Bytes} {d m dataBlockSize : UInt32}
variable {srv srv' : StorageServer}

/-- The numbers are read, and each has taken four bytes. -/
theorem Decodes.blockNums {raw : Bytes} (h : Decodes dataBlockSize raw) :
    ∃ blockNums, parseBlockNums dataBlockSize raw = .ok blockNums ∧ blockNums ≠ [] ∧
      blockNums.Nodup ∧ 4 * blockNums.length ≤ raw.length := by
  obtain ⟨blocks, rfl, hchunked, hne, hnodup, hlen⟩ := h
  refine ⟨_, parseBlockNums_copyBlocks hchunked hlen, by simpa using hne, hnodup, ?_⟩
  rw [List.length_map]
  exact four_mul_length_le_copyBlocks blocks

theorem inFile_eq (srv : StorageServer) {w : Saved UInt32 Bytes}
    (h : srv.diskStorage.StandsFor d m w) (k : UInt32) : srv.inFile d m k = w.saved k := by
  obtain ⟨ds, hopen, hs, -⟩ := h.reopen default
  rw [inFile, hopen]
  exact hs.current k

/-- The file holds what the node holds. -/
theorem Durable.inFile (h : srv.Durable d m dataBlockSize) {k : UInt32} {raw : Bytes}
    (hk : srv.contents k = some raw) : srv.inFile d m k = some raw := by
  obtain ⟨w, hw, hs⟩ := h.store
  rw [inFile_eq srv hs]
  exact hw k raw ((hs.current k).symm.trans hk)

theorem Durable.contents_none (h : srv.Durable d m dataBlockSize) {k : UInt32}
    (hk : srv.inFile d m k = none) : srv.contents k = none := by
  by_contra hne
  obtain ⟨raw, hraw⟩ := Option.ne_none_iff_exists'.mp hne
  rw [h.inFile hraw] at hk
  cases hk

theorem restorable_new (sha256_32 : Bytes → UInt32) (Ks : Set Bytes) (junk : Junk)
    (d m dataBlockSize : UInt32) :
    (new junk d m dataBlockSize).Restorable sha256_32 Ks d m dataBlockSize ∧
      ∀ k, (new junk d m dataBlockSize).inFile d m k = none := by
  have hfile : ∀ k, (new junk d m dataBlockSize).inFile d m k = none :=
    inFile_eq (new junk d m dataBlockSize) (standsFor_newStore junk d m 50)
  obtain ⟨-, -, -, hholds⟩ := recoverable_newStore junk d m 50
  refine ⟨⟨durable_new junk d m dataBlockSize, ?_, ⟨[], hholds, TableOk.nil _ _, ?_⟩, ?_⟩, hfile⟩
  · intro e he
    rw [table_new] at he
    cases he
  · intro e he
    cases he
  · intro k raw hk
    rw [hfile] at hk
    cases hk

namespace Restorable

/-! ## Reads, writes, deletes and restarts -/

theorem reads (h : srv.Restorable sha256_32 Ks d m dataBlockSize) (hreads : AfterReads srv srv') :
    srv'.Restorable sha256_32 Ks d m dataBlockSize ∧
      ∀ k, srv'.inFile d m k = srv.inFile d m k := by
  have hdurable := h.toDurable.reads hreads
  rcases hreads with rfl | ⟨f, hf, hbytes, rfl⟩
  · exact ⟨h, fun _ => rfl⟩
  · obtain ⟨w, -, hs⟩ := h.store
    have hfile : ∀ k, inFile d m { srv with
        diskStorage := { srv.diskStorage with storeFile := f } } k = srv.inFile d m k :=
      fun k => (inFile_eq _ (by exact hs.withStoreFile hf hbytes) k).trans (inFile_eq srv hs k).symm
    obtain ⟨t, hholds, hok, hlabel⟩ := h.fileLabelled
    refine ⟨⟨hdurable, h.labelled, ⟨t, ?_, hok, hlabel⟩, fun k raw hk => ?_⟩, hfile⟩
    · show StoreFile.HoldsTable f.bytes t
      rw [hbytes]
      exact hholds
    · rw [hfile] at hk
      exact h.decodes k raw hk

/-- **A write that returns** puts all that the node holds into its file. -/
theorem write (h : srv.Restorable sha256_32 Ks d m dataBlockSize) (hl : Layout d m) {key : Bytes}
    (hk : ClientKey key) (hmem : key ∈ Ks) {blocks : List Block} {ds' : DiskStorage}
    (hchunked : Chunked srv.dataBlockSize blocks) (hnodup : (blocks.map Block.blockNum).Nodup)
    (hw : srv.diskStorage.writeBlocks sha256_32 (padded key) blocks = (.ok (), ds')) :
    Restorable sha256_32 Ks d m dataBlockSize { srv with diskStorage := ds' } ∧
      ∀ k, inFile d m { srv with diskStorage := ds' } k
        = if k = sha256_32 (padded key) then some (copyBlocks blocks) else srv.contents k := by
  obtain ⟨w, hbehind, hs⟩ := h.store
  obtain ⟨start, hok⟩ := writeBlocks_ok hw
  have hs' := hs.write hl hok
  have hlabel := h.labelled.write hs.intact h.storeKeyLengthMax hk hmem hw
  obtain ⟨hr, hholds⟩ := hok.recoverable hs.intact (hs.intact.headerClear hl.clear)
  have hfile : ∀ k, inFile d m { srv with diskStorage := ds' } k
      = if k = sha256_32 (padded key) then some (copyBlocks blocks) else srv.contents k := by
    intro k
    rw [inFile_eq { srv with diskStorage := ds' } hs']
    show Function.update w.current _ _ k = _
    rw [Function.update_apply, ← hs.current]
    rfl
  refine ⟨⟨⟨h.dataBlockSize, h.keyLengthMax, hok.keyLengthMax.trans h.storeKeyLengthMax, _,
    hbehind.change _, hs'⟩, hlabel, ⟨_, hholds, hr.sound.table, hlabel⟩, fun k raw hraw => ?_⟩,
    hfile⟩
  rw [hfile] at hraw
  split at hraw
  · obtain rfl := Option.some.inj hraw
    refine ⟨blocks, rfl, hchunked, hok.nonempty, hnodup, ?_⟩
    rw [hok.copied]
    exact UInt32.toNat_lt _
  · exact h.decodes k raw (h.inFile hraw)

/-- **A delete that returns** leaves the file as it is. -/
theorem delete (h : srv.Restorable sha256_32 Ks d m dataBlockSize) {key : Bytes}
    {ds' : DiskStorage}
    (hd : srv.diskStorage.deleteBlocks sha256_32 (padded key) = (.ok (), ds')) :
    Restorable sha256_32 Ks d m dataBlockSize { srv with diskStorage := ds' } ∧
      ∀ k, inFile d m { srv with diskStorage := ds' } k = srv.inFile d m k := by
  obtain ⟨w, hbehind, hs⟩ := h.store
  have hs' := hs.delete hd
  have hfile : ∀ k, inFile d m { srv with diskStorage := ds' } k = srv.inFile d m k :=
    fun k => (inFile_eq { srv with diskStorage := ds' } hs' k).trans (inFile_eq srv hs k).symm
  have hlabel := h.labelled.delete hd
  obtain ⟨t, hholds, hok, hfileLabel⟩ := h.fileLabelled
  obtain ⟨i, e, he, rfl⟩ := deleteBlocks_ok hd
  obtain ⟨-, hbits⟩ := sound_deleteBlocks hs.intact.sound he
  refine ⟨⟨⟨h.dataBlockSize, h.keyLengthMax, h.storeKeyLengthMax, _, hbehind.change _, hs'⟩, hlabel,
    ⟨t, hholds, ?_, hfileLabel⟩, fun k raw hraw => ?_⟩, hfile⟩
  · rw [hbits]
    exact hok
  · rw [hfile] at hraw
    exact h.decodes k raw hraw

/-- **A restart** goes back to the file. -/
theorem restart (h : srv.Restorable sha256_32 Ks d m dataBlockSize) (junk : Junk) :
    ∃ srv', srv.restart d m junk = some srv' ∧
      srv'.Restorable sha256_32 Ks d m dataBlockSize ∧
      ∀ k, srv'.contents k = srv.inFile d m k ∧ srv'.inFile d m k = srv.inFile d m k := by
  obtain ⟨w, hbehind, hs⟩ := h.store
  obtain ⟨t, hholds, hok, hlabel⟩ := h.fileLabelled
  obtain ⟨ds, hopen, hs', hkey⟩ := hs.reopen junk
  obtain ⟨ds', hopen', -, htable, hheader, hbytes, -, hbits, -⟩ :=
    reopen_spec hs.intact junk hholds hok
  obtain rfl : ds' = ds := (Prod.mk.inj (hopen'.symm.trans hopen)).2
  have hfile : ∀ k, inFile d m { srv with diskStorage := ds' } k = srv.inFile d m k :=
    fun k => (inFile_eq { srv with diskStorage := ds' } hs' k).trans (inFile_eq srv hs k).symm
  -- the table in memory is then the one in the file
  have hlabel' : ds'.Labelled sha256_32 Ks := by
    intro e he
    rw [htable] at he
    rw [hkey]
    exact hlabel e he
  refine ⟨{ srv with diskStorage := ds' }, ?_, ⟨⟨h.dataBlockSize, h.keyLengthMax,
    hkey.trans h.storeKeyLengthMax, _, hbehind.change _, hs'⟩, hlabel', ⟨t, ?_, ?_, ?_⟩,
    fun k raw hraw => ?_⟩, fun k => ⟨?_, hfile k⟩⟩
  · unfold StorageServer.restart
    rw [hopen]
  · show StoreFile.HoldsTable ds'.storeFile.bytes t
    rw [hbytes]
    exact hholds
  · show TableOk ds'.header ds'.freeSpaceMap.numBits t
    rw [hheader, hbits]
    exact hok
  · intro e he
    exact hlabel' e (htable ▸ he)
  · rw [hfile] at hraw
    exact h.decodes k raw hraw
  · exact (hs'.current k).trans (inFile_eq srv hs k).symm

/-- **A restorable node can report.** -/
theorem reports (h : srv.Restorable sha256_32 Ks d m dataBlockSize)
    (hinj : Set.InjOn (fun key => sha256_32 (padded key)) Ks) : srv.Reports sha256_32 := by
  have hreadable := h.readable
  refine ⟨hreadable.ready, hreadable.backed, h.storeKeyLengthMax, fun K hK => ?_⟩
  obtain ⟨key, -, rfl, hsome⟩ := (mem_getKeys h.labelled hinj).mp hK
  obtain ⟨raw, hraw⟩ := Option.ne_none_iff_exists'.mp hsome
  obtain ⟨blockNums, hparse, hne, -, hlen⟩ := (h.decodes _ raw (h.inFile hraw)).blockNums
  have hlt := contents_length_lt hraw
  exact ⟨raw, blockNums, hraw, hparse, hne, by omega⟩

end Restorable

end StorageServer

namespace Cluster

open StorageServer

variable {env : Env} {reach : Nat → Bool} {key : Bytes} {Ks : Set Bytes}
variable {d m dataBlockSize : UInt32} {n : Nat} {srv : StorageServer}

/-! ## Requests of the master -/

/-- **The request of a PUT** that is answered OK, or comes to a node that has room. -/
theorem putAt_restorable (h : srv.Restorable env.sha256_32 Ks d m dataBlockSize) (hl : Layout d m)
    (hk : ClientKey key) (hmem : key ∈ Ks) {blocks : List Block} (hframed : ∀ b ∈ blocks, b.Framed)
    (hchunked : Chunked dataBlockSize blocks) (hnodup : (blocks.map Block.blockNum).Nodup)
    (hroom : (putAt env reach key n srv blocks).1 = true ∨
      (reach n = true → RoomAt env key srv blocks)) :
    let p := putAt env reach key n srv blocks
    p.2.Restorable env.sha256_32 Ks d m dataBlockSize ∧ (p.1 = false → p.2 = srv) ∧
      (p.1 = true → ∀ k, p.2.inFile d m k
        = if k = env.sha256_32 (padded key) then some (copyBlocks blocks)
          else srv.contents k) := by
  dsimp only
  cases hok : (putAt env reach key n srv blocks).1 with
  | true =>
      obtain ⟨blocks', ds', hdecode, hw, hsrv⟩ := putAt_ok hok
      rw [Block.deserialize_serialize hframed] at hdecode
      obtain rfl := Option.some.inj hdecode
      rw [hsrv]
      obtain ⟨h', hfile⟩ := h.write hl hk hmem (h.dataBlockSize ▸ hchunked) hnodup hw
      exact ⟨h', ⟨fun hno => Bool.noConfusion hno, fun _ => hfile⟩⟩
  | false =>
      have hroom := hroom.resolve_left (by rw [hok]; exact Bool.false_ne_true)
      -- the node is not reached, or its write throws
      have hsame : (putAt env reach key n srv blocks).2 = srv := by
        unfold putAt at hok ⊢
        cases hn : reach n with
        | false => rfl
        | true =>
            simp only [hn, if_true, Block.deserialize_serialize hframed] at hok ⊢
            have hfinds := hroom hn blocks (Block.deserialize_serialize hframed)
            rcases hw : srv.diskStorage.writeBlocks env.sha256_32 (padded key) blocks with
              ⟨res, ds'⟩
            rw [hw] at hok
            cases res with
            | ok u => cases hok
            | error err =>
                obtain ⟨w, -, hs⟩ := h.store
                obtain rfl := writeBlocks_throws hs hfinds hw
                rfl
      rw [hsame]
      exact ⟨h, fun _ => rfl, fun hno => Bool.noConfusion hno⟩

variable (env reach key n) in
/-- The request of a DELETE leaves the file as it is. -/
theorem deleteAt_restorable (h : srv.Restorable env.sha256_32 Ks d m dataBlockSize) :
    (deleteAt env reach key n srv).2.Restorable env.sha256_32 Ks d m dataBlockSize ∧
      ∀ k, (deleteAt env reach key n srv).2.inFile d m k = srv.inFile d m k := by
  cases hok : (deleteAt env reach key n srv).1 with
  | false =>
      rw [deleteAt_failed hok]
      exact ⟨h, fun _ => rfl⟩
  | true =>
      obtain ⟨ds', hd, hsrv⟩ := deleteAt_ok hok
      rw [hsrv]
      exact h.delete hd

end Cluster

end RackKey
