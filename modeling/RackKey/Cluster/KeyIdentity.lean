import RackKey.Cluster.RoundTrip
import RackKey.Cluster.Sync
import RackKey.Shared.KeyWidths

set_option autoImplicit false

/-! # Keys through recovery

A key is cut or padded in five places: to 50 bytes by the router of the master, to the configured
length by the router of a node and by `getKeys`, to 49 bytes by the table entry, and to 50 bytes by
the decoder of the sync payload. `recovered_iff` says for which configured length, keys and hash a
starting master learns from a node the keys that were stored there, with the numbers last written.
-/

namespace RackKey

open Std Words Payloads DiskStorage

namespace KeyIdentity

open StringUtils
open Cluster (sampleHash clientKey_sample)

/-- A node with a new store and the configured key length `L`. -/
def node (junk : Junk) (diskBlockSize maxDataSize dataBlockSize L : UInt32) : StorageServer :=
  ⟨newStore junk diskBlockSize maxDataSize L, dataBlockSize, L⟩

/-- The states of a new node that serves requests of a master for keys of `Ks`, and the block
numbers last written for each key. -/
inductive Wrote (env : Env) (L : UInt32) (Ks : Set Bytes) :
    StorageServer → (Bytes → Option (List UInt32)) → Prop
  | new (junk : Junk) {d m : UInt32} (hl : Layout d m) (dataBlockSize : UInt32) :
      Wrote env L Ks (node junk d m dataBlockSize L) fun _ => none
  | put {srv srv' : StorageServer} {last : Bytes → Option (List UInt32)} {key : Bytes}
      {blocks : List Block} {body : Bytes} (before : Wrote env L Ks srv last) (hmem : key ∈ Ks)
      (hkeys : ∀ b ∈ blocks, b.key = padded key) (hc : Chunked srv.dataBlockSize blocks)
      (ok : srv.router env.sha256_32
        ⟨.PUT, env.uri (storeUri (padded key)), Block.serializeAll blocks⟩
          = ([⟨.OK, body⟩], srv')) :
      Wrote env L Ks srv' (Function.update last key (some (blocks.map Block.blockNum)))
  | delete {srv srv' : StorageServer} {last : Bytes → Option (List UInt32)} {key body : Bytes}
      (before : Wrote env L Ks srv last) (hmem : key ∈ Ks)
      (ok : srv.router env.sha256_32 ⟨.DEL, env.uri (storeUri (padded key)), []⟩
        = ([⟨.OK, body⟩], srv')) :
      Wrote env L Ks srv' (Function.update last key none)
  /-- A request that leaves the store as it was: a read, or one that is refused. -/
  | other {srv srv' : StorageServer} {last : Bytes → Option (List UInt32)} {request : Request}
      {replies : List Response} (before : Wrote env L Ks srv last)
      (h : srv.router env.sha256_32 request = (replies, srv'))
      (same : StorageServer.AfterReads srv srv') : Wrote env L Ks srv' last

/-- A starting master decodes the answer of the node to the keys stored, in the form the router
of the master gives them, with the block numbers last written for each. -/
def Recovered (env : Env) (srv : StorageServer) (last : Bytes → Option (List UInt32)) : Prop :=
  ∃ body srv' info, srv.router env.sha256_32 ⟨.GET, syncPath, []⟩ = ([⟨.OK, body⟩], srv') ∧
    SyncInfo.deserialize body = some info ∧
    ∀ K nums, info.keyBlockNumMap[K]? = some nums ↔ ∃ key, K = padded key ∧ last key = some nums

/-! ## What a table entry keeps of its key -/

/-- The text of a table entry is the key, cut to 49 bytes. -/
theorem keyText_cut {s : Bytes} (hnul : (0 : UInt8) ∉ s) {L : UInt32} (hL : s.length ≤ L.toNat) :
    cStr (KeyField.ofKey (fixedSize s L)).val = s.take 49 := by
  have htext : cStr (fixedSize s L) = s := by
    rw [fixedSize, List.take_of_length_le hL]
    exact takeWhile_append_replicate_zero hnul _
  show cStr ((cStr (fixedSize s L)).take 49
    ++ List.replicate (50 - ((cStr (fixedSize s L)).take 49).length) 0) = s.take 49
  rw [htext]
  exact takeWhile_append_replicate_zero (fun h => hnul (List.mem_of_mem_take h)) _

/-! ## The requests -/

section Requests

variable {env : Env} {srv srv' : StorageServer} {key body : Bytes} {blocks : List Block}

theorem parse_uri (hk : PlainKey key) (env : Env) :
    ApiUtils.parsePath (env.uri (storeUri (padded key))) = (storePath, key.take 50) := by
  rw [hk.uri_padded, ApiUtils.parsePath_storeUri (hk.take 50)]

/-- When a write is answered OK: the store has written the blocks, for the key as the node pads
it. -/
theorem router_put_iff (hk : PlainKey key) (hframed : ∀ b ∈ blocks, b.Framed) :
    srv.router env.sha256_32 ⟨.PUT, env.uri (storeUri (padded key)), Block.serializeAll blocks⟩
        = ([⟨.OK, body⟩], srv') ↔
      ∃ ds', srv.diskStorage.writeBlocks env.sha256_32 (fixedSize (key.take 50) srv.keyLengthMax)
        blocks = (.ok (), ds') ∧ srv' = { srv with diskStorage := ds' } ∧
          body = srv'.createSizeResponsePayload := by
  unfold StorageServer.router
  rw [parse_uri hk]
  simp only [if_true, StorageServer.putHandler, Block.deserialize_serialize hframed]
  cases srv.diskStorage.writeBlocks env.sha256_32 (fixedSize (key.take 50) srv.keyLengthMax)
      blocks with
  | mk outcome ds' =>
      cases outcome with
      | error err => simp
      | ok u =>
          simp only [List.nil_append, Prod.mk.injEq, List.cons.injEq, Response.mk.injEq, true_and,
            and_true, exists_eq_left']
          constructor
          · rintro ⟨rfl, rfl⟩
            exact ⟨rfl, rfl⟩
          · rintro ⟨rfl, rfl⟩
            exact ⟨rfl, rfl⟩

theorem router_delete (hk : PlainKey key) :
    srv.router env.sha256_32 ⟨.DEL, env.uri (storeUri (padded key)), []⟩ = ([⟨.OK, body⟩], srv') →
      ∃ ds', srv.diskStorage.deleteBlocks env.sha256_32 (fixedSize (key.take 50) srv.keyLengthMax)
        = (.ok (), ds') ∧ srv' = { srv with diskStorage := ds' } := by
  intro h
  unfold StorageServer.router at h
  rw [parse_uri hk] at h
  simp only [if_true, StorageServer.deleteHandler] at h
  obtain ⟨hreplies, rfl⟩ := Prod.mk.inj h
  cases hd : srv.diskStorage.deleteBlocks env.sha256_32
      (fixedSize (key.take 50) srv.keyLengthMax) with
  | mk outcome ds' =>
      rw [hd] at hreplies
      cases outcome with
      | error err => simp at hreplies
      | ok u => exact ⟨ds', rfl, rfl⟩

end Requests

/-! ## Nodes that keep their keys -/

/-- What the store holds behind a hash, for the numbers last written. -/
inductive Held (dataBlockSize : UInt32) : Option (List UInt32) → Option Bytes → Prop
  | nothing : Held dataBlockSize none none
  | blocks {dataBlocks : List Block} (hne : dataBlocks ≠ [])
      (hc : Chunked dataBlockSize dataBlocks) :
      Held dataBlockSize (some (dataBlocks.map Block.blockNum)) (some (copyBlocks dataBlocks))

/-- A node whose entries carry whole keys of `Ks`, and what it holds for each of them. -/
structure Keeps (env : Env) (L : UInt32) (Ks : Set Bytes) (srv : StorageServer)
    (last : Bytes → Option (List UInt32)) : Prop where
  keyLengthMax : srv.keyLengthMax = L
  storeKeyLengthMax : srv.diskStorage.keyLengthMax = L
  store : ∃ d m, Layout d m ∧ srv.diskStorage.Intact d m
  backed : srv.diskStorage.Backed
  labelled : ∀ e ∈ srv.diskStorage.bat.table, ∃ key ∈ Ks,
    e.keyText = key ∧ e.keyHash = env.sha256_32 (fixedSize key L)
  held : ∀ key ∈ Ks, Held srv.dataBlockSize (last key)
    (srv.contents (env.sha256_32 (fixedSize key L)))
  outside : ∀ key, key ∉ Ks → last key = none

/-- Keys that a table entry carries whole, without collisions. -/
structure Whole (env : Env) (L : UInt32) (Ks : Set Bytes) : Prop where
  plain : ∀ key ∈ Ks, PlainKey key
  fits : ∀ key ∈ Ks, key.length ≤ L.toNat
  short : ∀ key ∈ Ks, key.length ≤ 49
  injective : Set.InjOn (fun key => env.sha256_32 (fixedSize key L)) Ks

section Keeps

variable {env : Env} {L : UInt32} {Ks : Set Bytes} {srv srv' : StorageServer}
variable {last : Bytes → Option (List UInt32)} {key : Bytes}

theorem keeps_new (env : Env) (L : UInt32) (Ks : Set Bytes) (junk : Junk) {d m : UInt32}
    (hl : Layout d m) (dataBlockSize : UInt32) :
    Keeps env L Ks (node junk d m dataBlockSize L) fun _ => none := by
  obtain ⟨hr, -, hmax, -⟩ := recoverable_newStore junk d m L
  have htable : (node junk d m dataBlockSize L).diskStorage.bat.table = [] :=
    table_newStore junk d m L
  refine ⟨rfl, hmax, ⟨d, m, hl, hr.toIntact⟩, backed_newStore junk d m L, ?_, fun key _ => ?_,
    fun _ _ => rfl⟩
  · intro e he
    rw [htable] at he
    cases he
  · have hnone : (node junk d m dataBlockSize L).contents (env.sha256_32 (fixedSize key L))
        = none := by
      rw [StorageServer.contents, DiskStorage.contents, htable]
      rfl
    rw [hnone]
    exact .nothing

/-- What is held after a request that has replaced what is behind the hash of one key. -/
theorem held_update (hw : Whole env L Ks) (hmem : key ∈ Ks) {raw : Option Bytes}
    {nums : Option (List UInt32)} {dataBlockSize : UInt32} (hnew : Held dataBlockSize nums raw)
    {contents contents' : UInt32 → Option Bytes}
    (hcontents : ∀ k, contents' k
      = if k = env.sha256_32 (fixedSize key L) then raw else contents k)
    (hold : ∀ key ∈ Ks,
      Held dataBlockSize (last key) (contents (env.sha256_32 (fixedSize key L)))) :
    ∀ key' ∈ Ks, Held dataBlockSize (Function.update last key nums key')
      (contents' (env.sha256_32 (fixedSize key' L))) := by
  intro key' hmem'
  rw [hcontents]
  by_cases heq : key' = key
  · subst heq
    rw [if_pos rfl, Function.update_self]
    exact hnew
  · rw [if_neg fun hhash => heq (hw.injective hmem' hmem hhash), Function.update_of_ne heq]
    exact hold key' hmem'

theorem outside_update (h : ∀ key, key ∉ Ks → last key = none) (hmem : key ∈ Ks)
    (nums : Option (List UInt32)) :
    ∀ key', key' ∉ Ks → Function.update last key nums key' = none := by
  intro key' hout
  have hne : key' ≠ key := by
    rintro rfl
    exact hout hmem
  rw [Function.update_of_ne hne]
  exact h key' hout

theorem Keeps.put (h : Keeps env L Ks srv last) (hw : Whole env L Ks) (hmem : key ∈ Ks)
    {blocks : List Block} (hc : Chunked srv.dataBlockSize blocks) {ds' : DiskStorage}
    (hwrite : srv.diskStorage.writeBlocks env.sha256_32 (fixedSize key L) blocks = (.ok (), ds')) :
    Keeps env L Ks { srv with diskStorage := ds' }
      (Function.update last key (some (blocks.map Block.blockNum))) := by
  obtain ⟨d, m, hl, hi⟩ := h.store
  obtain ⟨start, hok⟩ := writeBlocks_ok hwrite
  obtain ⟨hb, hcontents⟩ := hok.contents hl hi h.backed
  have hr := (hok.recoverable hi (hi.headerClear hl.clear)).1
  refine ⟨h.keyLengthMax, hok.keyLengthMax.trans h.storeKeyLengthMax, ⟨d, m, hl, hr.toIntact⟩, hb,
    ?_, ?_, outside_update h.outside hmem _⟩
  · -- a new entry carries the key, a patched one a key that it carried before
    intro e he
    rcases ((hok.mem_table hi).2 e).mp he with rfl | ⟨he, -⟩
    · cases hf : srv.diskStorage.findEntry env.sha256_32 (fixedSize key L) with
      | none =>
          refine ⟨key, hmem, ?_, rfl⟩
          show cStr (KeyField.ofKey (fixedSize key L)).val = key
          rw [keyText_cut (hw.plain key hmem).nul (hw.fits key hmem),
            List.take_of_length_le (hw.short key hmem)]
      | some ie =>
          obtain ⟨i, e⟩ := ie
          exact h.labelled e (findEntry_eq_some hf).2.2.1
    · exact h.labelled e he
  · exact held_update hw hmem (.blocks hok.nonempty hc) hcontents h.held

theorem Keeps.delete (h : Keeps env L Ks srv last) (hw : Whole env L Ks) (hmem : key ∈ Ks)
    {ds' : DiskStorage}
    (hdelete : srv.diskStorage.deleteBlocks env.sha256_32 (fixedSize key L) = (.ok (), ds')) :
    Keeps env L Ks { srv with diskStorage := ds' } (Function.update last key none) := by
  obtain ⟨d, m, hl, hi⟩ := h.store
  obtain ⟨i, e, hf, rfl⟩ := deleteBlocks_ok hdelete
  obtain ⟨hb, hcontents⟩ := contents_deleteBlocks hi.sound.table.hashes hf
    (srv.diskStorage.freeSpaceMap.freeNBlocks e.startingDiskBlockNum
      (srv.diskStorage.getNumDiskBlocks e.numBytes)) (srv.diskStorage.bat.numEntries - 1)
  exact ⟨h.keyLengthMax, h.storeKeyLengthMax, ⟨d, m, hl, intact_deleteBlocks hi hf⟩, hb h.backed,
    fun e' he' => h.labelled e' (List.mem_of_mem_eraseIdx he'),
    held_update hw hmem .nothing hcontents h.held, outside_update h.outside hmem _⟩

theorem Keeps.other (h : Keeps env L Ks srv last) (same : StorageServer.AfterReads srv srv') :
    Keeps env L Ks srv' last := by
  rcases same with rfl | ⟨f, hf, hbytes, rfl⟩
  · exact h
  · obtain ⟨d, m, hl, hi⟩ := h.store
    obtain ⟨hcontents, hbacked⟩ := contents_congr srv.diskStorage
      { srv.diskStorage with storeFile := f } rfl rfl hbytes
    refine ⟨h.keyLengthMax, h.storeKeyLengthMax, ⟨d, m, hl, hi.withStoreFile hf hbytes⟩,
      hbacked h.backed, h.labelled, fun key hmem => ?_, h.outside⟩
    show Held srv.dataBlockSize _ (DiskStorage.contents _ _)
    rw [hcontents]
    exact h.held key hmem

/-- **Every run keeps the keys**, when they fit in a table entry. -/
theorem keeps_of_wrote (hw : Whole env L Ks) (h : Wrote env L Ks srv last) :
    Keeps env L Ks srv last := by
  have hcut : ∀ key ∈ Ks, key.take 50 = key := fun key hmem =>
    List.take_of_length_le (Nat.le_succ_of_le (hw.short key hmem))
  induction h with
  | new junk hl dataBlockSize => exact keeps_new env L Ks junk hl dataBlockSize
  | put before hmem hkeys hc ok ih =>
      rename_i srv srv' last key blocks body
      have hframed : ∀ b ∈ blocks, b.Framed := fun b hb =>
        ⟨by rw [hkeys b hb, padded_length]; decide, hc.framed b hb⟩
      obtain ⟨ds', hwrite, rfl, -⟩ := (router_put_iff (hw.plain key hmem) hframed).mp ok
      rw [hcut key hmem, ih.keyLengthMax] at hwrite
      exact ih.put hw hmem hc hwrite
  | delete before hmem ok ih =>
      rename_i srv srv' last key body
      obtain ⟨ds', hdelete, rfl⟩ := router_delete (hw.plain key hmem) ok
      rw [hcut key hmem, ih.keyLengthMax] at hdelete
      exact ih.delete hw hmem hdelete
  | other before h same ih => exact ih.other same

/-- The keys a node lists are those it holds something for. -/
theorem Keeps.mem_getKeys (h : Keeps env L Ks srv last) (hw : Whole env L Ks) {K : Bytes} :
    K ∈ srv.diskStorage.getKeys ↔ ∃ key ∈ Ks, K = fixedSize key L ∧
      srv.contents (env.sha256_32 (fixedSize key L)) ≠ none := by
  unfold getKeys StorageServer.contents DiskStorage.contents
  rw [h.storeKeyLengthMax]
  simp only [List.mem_map, ne_eq, Option.map_eq_none_iff, Keyed.lookup_eq_none]
  constructor
  · rintro ⟨e, he, rfl⟩
    obtain ⟨key, hmem, htext, hhash⟩ := h.labelled e he
    exact ⟨key, hmem, by rw [htext], fun hno => hno e he hhash⟩
  · rintro ⟨key, hmem, rfl, hsome⟩
    simp only [not_forall, not_not] at hsome
    obtain ⟨e, he, hhash⟩ := hsome
    obtain ⟨key', hmem', htext, hhash'⟩ := h.labelled e he
    have heq : key' = key := hw.injective hmem' hmem (hhash'.symm.trans hhash)
    exact ⟨e, he, by rw [htext, heq]⟩

/-- What is held for a key is decoded to the numbers last written. -/
theorem Held.reported {dataBlockSize : UInt32} {nums : Option (List UInt32)} {raw : Option Bytes}
    (h : Held dataBlockSize nums raw) (hlt : ∀ bs, raw = some bs → bs.length < 2 ^ 32) :
    (raw = none ∧ nums = none) ∨ ∃ bs ns, raw = some bs ∧ nums = some ns ∧
      parseBlockNums dataBlockSize bs = .ok ns ∧ ns.length < 2 ^ 32 := by
  cases h with
  | nothing => exact Or.inl ⟨rfl, rfl⟩
  | blocks hne hc =>
      rename_i dataBlocks
      have hlen := hlt _ rfl
      refine Or.inr ⟨_, _, rfl, rfl, parseBlockNums_copyBlocks hc hlen, ?_⟩
      have hle := four_mul_length_le_copyBlocks dataBlocks
      rw [List.length_map]
      omega

/-- **The answer of a node that keeps its keys**: each key in the width of the node, with the
numbers last written. -/
theorem Keeps.sync (h : Keeps env L Ks srv last) (hw : Whole env L Ks) :
    ∃ (m : ExtTreeMap Bytes (List UInt32)) (sizes : SizeInfo) (srv' : StorageServer),
      srv.router env.sha256_32 ⟨.GET, syncPath, []⟩
          = ([⟨.OK, (SyncInfo.mk m sizes).serialize⟩], srv') ∧
        (∀ K nums, m[K]? = some nums ↔ ∃ key, K = fixedSize key L ∧ last key = some nums) ∧
        ∀ key nums, last key = some nums → nums.length < 2 ^ 32 := by
  obtain ⟨d, dm, hl, hi⟩ := h.store
  have hheld : ∀ key ∈ Ks, (srv.contents (env.sha256_32 (fixedSize key L)) = none ∧
      last key = none) ∨ ∃ bs ns, srv.contents (env.sha256_32 (fixedSize key L)) = some bs ∧
        last key = some ns ∧ parseBlockNums srv.dataBlockSize bs = .ok ns ∧ ns.length < 2 ^ 32 :=
    fun key hmem => (h.held key hmem).reported fun bs hbs => contents_length_lt hbs
  obtain ⟨srv', -, hrouter⟩ := StorageServer.router_sync_eq hi.ready h.backed fun K hK => by
    obtain ⟨key, hmem, rfl, hsome⟩ := (h.mem_getKeys hw).mp hK
    rcases hheld key hmem with ⟨hnone, -⟩ | ⟨bs, ns, hbs, -, hparse, -⟩
    · exact absurd hnone hsome
    · exact ⟨bs, ns, hbs, hparse⟩
  refine ⟨_, _, srv', hrouter, fun K nums => ?_, fun key nums hlast => ?_⟩
  · rw [← ExtTreeMap.mem_toList_iff_getElem?_eq_some, StorageServer.mem_entries,
      h.mem_getKeys hw]
    constructor
    · rintro ⟨⟨key, hmem, rfl, hsome⟩, rfl⟩
      rcases hheld key hmem with ⟨hnone, -⟩ | ⟨bs, ns, hbs, hlast, hparse, -⟩
      · exact absurd hnone hsome
      · exact ⟨key, rfl, by rw [hlast, StorageServer.reported_eq hbs hparse]⟩
    · rintro ⟨key, rfl, hlast⟩
      have hmem : key ∈ Ks := by
        by_contra hout
        rw [h.outside key hout] at hlast
        cases hlast
      rcases hheld key hmem with ⟨-, hnone⟩ | ⟨bs, ns, hbs, hlast', hparse, -⟩
      · rw [hnone] at hlast
        cases hlast
      · obtain rfl := Option.some.inj (hlast'.symm.trans hlast)
        exact ⟨⟨key, hmem, rfl, by rw [hbs]; simp⟩, (StorageServer.reported_eq hbs hparse).symm⟩
  · have hmem : key ∈ Ks := by
      by_contra hout
      rw [h.outside key hout] at hlast
      cases hlast
    rcases hheld key hmem with ⟨-, hnone⟩ | ⟨bs, ns, -, hlast', -, hlt⟩
    · rw [hnone] at hlast
      cases hlast
    · obtain rfl := Option.some.inj (hlast'.symm.trans hlast)
      exact hlt

/-- The master decodes the answer of such a node if the configured length is the width it
takes, if no key is stored, or by accident if the empty key is the only one. -/
theorem Keeps.recovered (h : Keeps env L Ks srv last) (hw : Whole env L Ks)
    (hL : Ks = ∅ ∨ L = 50 ∨ (Ks = {[]} ∧ L.toNat % 54 = 50)) : Recovered env srv last := by
  obtain ⟨m, sizes, srv', hrouter, hmap, hlt⟩ := h.sync hw
  have hmem : ∀ key nums, last key = some nums → key ∈ Ks := by
    intro key nums hlast
    by_contra hout
    rw [h.outside key hout] at hlast
    cases hlast
  -- the usual case: all keys have the width of the decoder
  have hdecode : (∀ key nums, last key = some nums → fixedSize key L = padded key) →
      Recovered env srv last := by
    intro hwidth
    have hkeys : ∀ p ∈ m.toList, p.1.length = 50 ∧ p.2.length < 2 ^ 32 := by
      rintro ⟨K, nums⟩ hp
      rw [ExtTreeMap.mem_toList_iff_getElem?_eq_some, hmap] at hp
      obtain ⟨key, rfl, hlast⟩ := hp
      exact ⟨by rw [hwidth key nums hlast]; exact padded_length key, hlt key nums hlast⟩
    refine ⟨_, srv', _, hrouter, SyncInfo.deserialize_serialize _ hkeys, fun K nums => ?_⟩
    rw [hmap]
    refine exists_congr fun key => and_congr_left fun hlast => ?_
    rw [hwidth key nums hlast]
  rcases hL with rfl | rfl | ⟨rfl, hL⟩
  · exact hdecode fun key nums hlast => absurd (hmem key nums hlast) (Set.notMem_empty key)
  · exact hdecode fun key nums hlast => rfl
  · cases hlast : last [] with
    | none =>
        refine hdecode fun key nums hlast' => ?_
        obtain rfl := Set.mem_singleton_iff.mp (hmem key nums hlast')
        rw [hlast] at hlast'
        cases hlast'
    | some nums =>
        have hzeros : fixedSize [] L = List.replicate L.toNat 0 := by
          rw [fixedSize, List.take_nil, List.nil_append, List.length_nil, Nat.sub_zero]
        have hone : ∀ K nums', (∃ key, K = fixedSize key L ∧ last key = some nums') ↔
            K = List.replicate L.toNat 0 ∧ nums' = nums := by
          intro K nums'
          constructor
          · rintro ⟨key, rfl, hlast'⟩
            obtain rfl := Set.mem_singleton_iff.mp (hmem key nums' hlast')
            exact ⟨hzeros, Option.some.inj (hlast'.symm.trans hlast)⟩
          · rintro ⟨rfl, rfl⟩
            exact ⟨[], hzeros.symm, hlast⟩
        have hserialize := SyncInfo.serialize_single (s := ⟨m, sizes⟩) fun K nums' =>
          (hmap K nums').trans (hone K nums')
        obtain ⟨info, hinfo, hget⟩ := SyncInfo.deserialize_zeros hL (hlt [] nums hlast) sizes
        refine ⟨_, srv', info, hrouter, by rw [hserialize]; exact hinfo, fun K nums' => ?_⟩
        rw [hget]
        constructor
        · rintro ⟨rfl, rfl⟩
          exact ⟨[], rfl, hlast⟩
        · rintro ⟨key, rfl, hlast'⟩
          obtain rfl := Set.mem_singleton_iff.mp (hmem key nums' hlast')
          exact ⟨rfl, Option.some.inj (hlast'.symm.trans hlast)⟩

end Keeps

/-! ## A node with one entry -/

/-- One block of one byte. -/
def oneByte (key : Bytes) : Block := ⟨padded key, 0, 1, [0]⟩

theorem chunked_oneByte (key : Bytes) : Chunked 1 [oneByte key] :=
  ⟨by simp [oneByte], by simp, by simp [oneByte]⟩

/-- A store of eight disk blocks whose entries all have one hash, the text of the first being
`text`, and a node with it. -/
structure OneEntry (L : UInt32) (srv : StorageServer) (keyHash : UInt32) (table : List Bytes) :
    Prop where
  keyLengthMax : srv.keyLengthMax = L
  storeKeyLengthMax : srv.diskStorage.keyLengthMax = L
  dataBlockSize : srv.dataBlockSize = 1
  intact : srv.diskStorage.Intact 8 64
  backed : srv.diskStorage.Backed
  table : srv.diskStorage.bat.table.map BATEntry.keyText = table
  hashes : ∀ e ∈ srv.diskStorage.bat.table, e.keyHash = keyHash

section OneEntry

variable {env : Env} {L : UInt32} {srv : StorageServer} {key : Bytes} {table : List Bytes}

theorem oneEntry_new (L : UInt32) (keyHash : UInt32) :
    OneEntry L (node default 8 64 1 L) keyHash [] := by
  obtain ⟨hr, -, hmax, -⟩ := recoverable_newStore default 8 64 L
  have htable : (node default 8 64 1 L).diskStorage.bat.table = [] := table_newStore default 8 64 L
  refine ⟨rfl, hmax, rfl, hr.toIntact, backed_newStore default 8 64 L, by rw [htable]; rfl, ?_⟩
  intro e he
  rw [htable] at he
  cases he

/-- There is room for a block of any key with the hash. -/
theorem OneEntry.room {K : Bytes} (h : OneEntry L srv (env.sha256_32 K) table) (b : Block)
    (hsize : b.dataSize = 1) (hdata : b.data = [0]) :
    (srv.diskStorage.writeBlocks env.sha256_32 K [b]).1 = .ok () := by
  have hsum : totalNumBytes [b] = 5 := by
    rw [totalNumBytes, List.foldl_cons, List.foldl_nil, hsize]
    rfl
  have hN : srv.diskStorage.getNumDiskBlocks 5 = 1 := by
    rw [getNumDiskBlocks, h.intact.header]
    rfl
  have hbits : srv.diskStorage.freeSpaceMap.numBits = 8 := by
    rw [h.intact.numBits]
    rfl
  -- all entries have the hash of the write, whose blocks are freed first, so block 0 is free
  refine writeBlocks_of_room env.sha256_32 h.intact.ready (by simp) ?_ ?_
  · rw [hsum, hN, ne_eq, FreeSpaceMap.findNFreeBlocks_eq_none_iff (by decide), not_forall_not]
    refine ⟨0, ?_, fun b' _ hmapped => ?_⟩
    · rw [(srv.diskStorage.freeExisting_capacity _).2, hbits]
      decide
    · obtain ⟨e, he, hne, -⟩ := (mapped_freeExisting env.sha256_32 h.intact.sound K b').mp hmapped
      exact hne (h.hashes e he)
  · rw [hsum, copyBlocks_cons, hdata]
    rfl

/-- The entries after a write: the one there was, or one that carries the key, cut to 49 bytes. -/
theorem OneEntry.updateBAT (hk : PlainKey key) (hle : key.length ≤ L.toNat)
    (h : OneEntry L srv (env.sha256_32 (fixedSize (key.take 50) L)) table) (hlen : table.length ≤ 1)
    (start size : UInt32) :
    (DiskStorage.updateBAT env.sha256_32 srv.diskStorage.bat (fixedSize (key.take 50) L) start size
      (srv.diskStorage.findEntry env.sha256_32 (fixedSize (key.take 50) L))).table.map
        BATEntry.keyText = [table.headD (key.take 49)] := by
  have htable := h.table
  cases hf : srv.diskStorage.findEntry env.sha256_32 (fixedSize (key.take 50) L) with
  | none =>
      have hnone := Keyed.find_eq_none.mp (BAT.findBATEntry_eq_none.mp hf)
      -- all entries have the hash, so there is none
      have hnil : srv.diskStorage.bat.table = [] :=
        List.eq_nil_iff_forall_not_mem.mpr fun e he => hnone e he (h.hashes e he)
      rw [hnil] at htable
      obtain rfl := htable
      have hcut := keyText_cut (hk.take 50).nul (L := L) (by rw [List.length_take]; omega)
      rw [List.take_take, Nat.min_eq_left (by omega)] at hcut
      simp only [DiskStorage.updateBAT, hnil, List.nil_append, List.map_cons, List.map_nil,
        BATEntry.keyText, hcut, List.headD_nil]
  | some ie =>
      obtain ⟨i, e⟩ := ie
      obtain ⟨-, hi, he, -⟩ := findEntry_eq_some hf
      cases hl : srv.diskStorage.bat.table with
      | nil =>
          rw [hl] at he
          cases he
      | cons e₀ rest =>
          rw [hl, List.map_cons] at htable
          obtain rfl := htable
          obtain rfl : rest = [] := by
            cases rest with
            | nil => rfl
            | cons e₁ rest => simp at hlen
          rw [hl] at hi
          obtain ⟨hlt, heq⟩ := List.getElem?_eq_some_iff.mp hi
          obtain rfl : i = 0 := by simpa using hlt
          obtain rfl : e₀ = e := heq
          simp [DiskStorage.updateBAT, hl, BATEntry.keyText]

/-- A write patches the entry, or makes one that carries the key, cut to 49 bytes. -/
theorem OneEntry.put (hk : PlainKey key) (hle : key.length ≤ L.toNat)
    (h : OneEntry L srv (env.sha256_32 (fixedSize (key.take 50) L)) table) (hlen : table.length ≤ 1)
    {Ks : Set Bytes} {last : Bytes → Option (List UInt32)} (hwrote : Wrote env L Ks srv last)
    (hmem : key ∈ Ks) :
    ∃ srv', Wrote env L Ks srv' (Function.update last key (some [0])) ∧
      OneEntry L srv' (env.sha256_32 (fixedSize (key.take 50) L))
        [table.headD (key.take 49)] ∧
      srv'.contents (env.sha256_32 (fixedSize (key.take 50) L))
        = some (copyBlocks [oneByte key]) := by
  have hwrite : srv.diskStorage.writeBlocks env.sha256_32 (fixedSize (key.take 50) L) [oneByte key]
      = (.ok (), (srv.diskStorage.writeBlocks env.sha256_32 (fixedSize (key.take 50) L)
          [oneByte key]).2) := Prod.ext (h.room (oneByte key) rfl rfl) rfl
  set ds' := (srv.diskStorage.writeBlocks env.sha256_32 (fixedSize (key.take 50) L)
    [oneByte key]).2 with hds'
  obtain ⟨start, hok⟩ := writeBlocks_ok hwrite
  obtain ⟨hb, hcontents⟩ := hok.contents layout_sample h.intact h.backed
  have hr := (hok.recoverable h.intact (h.intact.headerClear layout_sample.clear)).1
  have hframed : ∀ b ∈ [oneByte key], b.Framed := by
    intro b hb
    obtain rfl := List.mem_singleton.mp hb
    exact ⟨by rw [oneByte, padded_length]; decide, rfl⟩
  have hc : Chunked srv.dataBlockSize [oneByte key] := by
    rw [h.dataBlockSize]
    exact chunked_oneByte key
  have hput : srv.router env.sha256_32
      ⟨.PUT, env.uri (storeUri (padded key)), Block.serializeAll [oneByte key]⟩ = ([⟨.OK, _⟩], _) :=
    (router_put_iff hk hframed).mpr ⟨ds', by rw [h.keyLengthMax]; exact hwrite, rfl, rfl⟩
  refine ⟨_, hwrote.put hmem (by simp [oneByte]) hc hput, ⟨h.keyLengthMax,
    hok.keyLengthMax.trans h.storeKeyLengthMax, h.dataBlockSize, hr.toIntact, hb, ?_, ?_⟩, ?_⟩
  · show ds'.bat.table.map BATEntry.keyText = _
    rw [hok.bat]
    exact h.updateBAT hk hle hlen _ _
  · intro e he
    rcases ((hok.mem_table h.intact).2 e).mp he with rfl | ⟨he, -⟩
    · exact newEntry_keyHash _ _ _ _ _
    · exact h.hashes e he
  · exact (hcontents _).trans (if_pos rfl)

/-- What a node with one entry answers, if it does. -/
theorem OneEntry.sync {keyHash : UInt32} {text body : Bytes} {srv' : StorageServer}
    (h : OneEntry L srv keyHash [text])
    (hcontents : srv.contents keyHash = some (copyBlocks [oneByte key]))
    (hsync : srv.router env.sha256_32 ⟨.GET, syncPath, []⟩ = ([⟨.OK, body⟩], srv')) :
    ∃ sizes : SizeInfo, body
      = SyncInfo.entryBytes (fixedSize text L, [0]) ++ sizes.serialize := by
  have hkeys : srv.diskStorage.getKeys = [fixedSize text L] := by
    have hmap := congrArg (List.map fun t => fixedSize t L) h.table
    rw [List.map_map] at hmap
    rw [getKeys, h.storeKeyLengthMax]
    exact hmap
  have hpath : (ApiUtils.parsePath syncPath).1 = syncPath := by decide
  unfold StorageServer.router at hsync
  dsimp only at hsync
  rw [hpath, if_neg (by decide), if_neg (by decide), if_pos rfl] at hsync
  obtain ⟨f, -, -, hget⟩ := getBlockNums_eq env.sha256_32 h.intact.ready h.backed
    (fixedSize text L) srv.dataBlockSize
  simp only [StorageServer.syncHandler, StorageServer.createSyncResponsePayload, hkeys,
    StorageServer.collectBlockNums, hget] at hsync
  cases hfound : srv.diskStorage.contents (env.sha256_32 (fixedSize text L)) with
  | none =>
      rw [hfound] at hsync
      simp at hsync
  | some raw =>
      -- the only entry has been found
      obtain ⟨e, he, -⟩ := Option.map_eq_some_iff.mp hfound
      obtain ⟨hmem, hhash⟩ := Keyed.lookup_eq_some he
      rw [h.hashes e hmem] at hhash
      have hraw : raw = copyBlocks [oneByte key] := by
        rw [← hhash] at hfound
        exact Option.some.inj (hfound.symm.trans hcontents)
      have hparse : parseBlockNums srv.dataBlockSize raw = .ok [0] := by
        rw [hraw, h.dataBlockSize]
        exact parseBlockNums_copyBlocks (chunked_oneByte key) (show 5 < 2 ^ 32 by decide)
      rw [hfound] at hsync
      simp only [hparse] at hsync
      obtain ⟨hreplies, -⟩ := Prod.mk.inj hsync
      obtain rfl := (Response.mk.inj (List.cons.inj hreplies).1).2
      exact ⟨_, SyncInfo.serialize_single fun K nums => getElem?_single _ K _ nums⟩

end OneEntry

/-! ## The exact condition -/

section Exact

variable {env : Env} {L : UInt32} {Ks : Set Bytes}

/-- A key whose blocks are recovered is not cut, and has the width of the decoder. -/
theorem width_of_recovered {key : Bytes} (hk : PlainKey key) (hle : key.length ≤ L.toNat)
    (hmem : key ∈ Ks) (hall : ∀ srv last, Wrote env L Ks srv last → Recovered env srv last) :
    key.length ≤ 49 ∧ (L.toNat = 50 ∨ (key = [] ∧ L.toNat % 54 = 50)) := by
  have hnew : Wrote env L Ks (node default 8 64 1 L) fun _ => none := .new default layout_sample 1
  obtain ⟨srv, hwrote, hone, hcontents⟩ := (oneEntry_new L _).put hk hle (by simp) hnew hmem
  obtain ⟨body, srv', info, hsync, hinfo, hmap⟩ := hall _ _ hwrote
  obtain ⟨sizes, rfl⟩ := hone.sync hcontents hsync
  refine SyncInfo.width_of_deserialize sizes.serialize_length hk.nul hle info ?_ ?_
  · rw [← hinfo]
    simp only [SyncInfo.entryBytes, List.append_assoc]
    rfl
  · intro K hK
    obtain ⟨nums, hnums⟩ := Option.isSome_iff_exists.mp (ExtTreeMap.isSome_getElem?_iff_mem.mpr hK)
    obtain ⟨key', rfl, hlast⟩ := (hmap K nums).mp hnums
    by_cases heq : key' = key
    · rw [heq]
      rfl
    · rw [Function.update_of_ne heq] at hlast
      cases hlast

/-- Two keys with one hash share an entry, which carries one of them. -/
theorem eq_of_recovered {key key' : Bytes} (hk : ClientKey key) (hk' : ClientKey key')
    (hmem : key ∈ Ks) (hmem' : key' ∈ Ks)
    (hhash : env.sha256_32 (padded key) = env.sha256_32 (padded key'))
    (hall : ∀ srv last, Wrote env 50 Ks srv last → Recovered env srv last) : key = key' := by
  have h50 : (50 : UInt32).toNat = 50 := rfl
  have hpad : ∀ key : Bytes, fixedSize (key.take 50) 50 = padded key := padded_take
  have hnew : Wrote env 50 Ks (node default 8 64 1 50) fun _ => none := .new default layout_sample 1
  obtain ⟨srv, hwrote, hone, -⟩ := (oneEntry_new 50 _).put hk.toPlainKey
    (by have := hk.length_le; omega) (by simp) hnew hmem
  rw [hpad, hhash, ← hpad] at hone
  -- the second write patches the entry of the first one
  obtain ⟨srv', hwrote', hone', hcontents⟩ := hone.put hk'.toPlainKey
    (by have := hk'.length_le; omega) (by simp) hwrote hmem'
  obtain ⟨body, srv'', info, hsync, hinfo, hmap⟩ := hall _ _ hwrote'
  obtain ⟨sizes, rfl⟩ := hone'.sync hcontents hsync
  -- the only key that is decoded is the text of the entry
  obtain ⟨m, hm⟩ : ∃ m : ExtTreeMap Bytes (List UInt32),
      ∀ (K : Bytes) (nums : List UInt32),
        m[K]? = some nums ↔ K = fixedSize (key.take 49) 50 ∧ nums = [0] :=
    ⟨(∅ : ExtTreeMap Bytes (List UInt32)).insert (fixedSize (key.take 49) 50) [0],
      fun K nums => getElem?_single _ K _ nums⟩
  have hkeys : ∀ p ∈ m.toList, p.1.length = 50 ∧ p.2.length < 2 ^ 32 := by
    rintro ⟨K, nums⟩ hp
    obtain ⟨rfl, rfl⟩ := (hm K nums).mp (ExtTreeMap.mem_toList_iff_getElem?_eq_some.mp hp)
    exact ⟨fixedSize_length _ _, show 1 < 2 ^ 32 by decide⟩
  have hbody := SyncInfo.serialize_single (s := ⟨m, sizes⟩) hm
  rw [List.headD_nil, List.headD_cons, ← hbody, SyncInfo.deserialize_serialize _ hkeys] at hinfo
  obtain rfl := Option.some.inj hinfo
  have hlast : ∀ k, k = key ∨ k = key' → Function.update
      (Function.update (fun _ => none) key (some [(0 : UInt32)])) key' (some [0]) k = some [0] := by
    intro k hk
    by_cases h' : k = key'
    · rw [h', Function.update_self]
    · rw [Function.update_of_ne h', hk.resolve_right h', Function.update_self]
  have hkey := (hm _ _).mp ((hmap _ _).mpr ⟨key, rfl, hlast key (Or.inl rfl)⟩)
  have hkey' := (hm _ _).mp ((hmap _ _).mpr ⟨key', rfl, hlast key' (Or.inr rfl)⟩)
  exact padded_inj hk hk' (hkey.1.trans hkey'.1.symm)

/-- **Which keys are recovered**: those of at most 49 bytes without collisions, when the
configured length is 50. A configured length that leaves 50 divided by 54 does for the empty key
alone. -/
theorem recovered_iff (env : Env) (L : UInt32) (Ks : Set Bytes)
    (hKs : ∀ key ∈ Ks, PlainKey key ∧ key.length ≤ L.toNat) :
    (∀ srv last, Wrote env L Ks srv last → Recovered env srv last) ↔
      Ks = ∅ ∨
      (L = 50 ∧ (∀ key ∈ Ks, key.length ≤ 49) ∧
        Set.InjOn (fun key => env.sha256_32 (padded key)) Ks) ∨
      (Ks = {[]} ∧ L.toNat % 54 = 50) := by
  constructor
  · intro hall
    by_cases hempty : Ks = ∅
    · exact Or.inl hempty
    have hwidth : ∀ key ∈ Ks, key.length ≤ 49 ∧
        (L.toNat = 50 ∨ (key = [] ∧ L.toNat % 54 = 50)) := fun key hmem =>
      width_of_recovered (hKs key hmem).1 (hKs key hmem).2 hmem hall
    -- the width of the decoder, or a multiple of an entry's bytes more
    by_cases hL : L.toNat = 50
    · obtain rfl : L = 50 := UInt32.toNat_inj.mp hL
      refine Or.inr (Or.inl ⟨rfl, fun key hmem => (hwidth key hmem).1, ?_⟩)
      intro key hmem key' hmem' hhash
      exact eq_of_recovered ⟨(hKs key hmem).1, (hwidth key hmem).1⟩
        ⟨(hKs key' hmem').1, (hwidth key' hmem').1⟩ hmem hmem' hhash hall
    · -- every key is empty
      have hnil : ∀ key ∈ Ks, key = [] ∧ L.toNat % 54 = 50 := fun key hmem =>
        (hwidth key hmem).2.resolve_left hL
      obtain ⟨key, hmem⟩ := Set.nonempty_iff_ne_empty.mpr hempty
      exact Or.inr (Or.inr ⟨Set.eq_singleton_iff_unique_mem.mpr
        ⟨(hnil key hmem).1 ▸ hmem, fun key' hmem' => (hnil key' hmem').1⟩, (hnil key hmem).2⟩)
  · intro h srv last hwrote
    -- in all three cases the entries carry whole keys without collisions
    have hwhole : Whole env L Ks ∧ (Ks = ∅ ∨ L = 50 ∨ (Ks = {[]} ∧ L.toNat % 54 = 50)) := by
      have hplain := fun key hmem => (hKs key hmem).1
      have hfits := fun key hmem => (hKs key hmem).2
      rcases h with rfl | ⟨rfl, hshort, hinj⟩ | ⟨rfl, hL⟩
      · exact ⟨⟨hplain, hfits, by simp, Set.injOn_empty _⟩, Or.inl rfl⟩
      · exact ⟨⟨hplain, hfits, hshort, hinj⟩, Or.inr (Or.inl rfl)⟩
      · exact ⟨⟨hplain, hfits, by simp, Set.injOn_singleton _ _⟩, Or.inr (Or.inr ⟨rfl, hL⟩)⟩
    exact (keeps_of_wrote hwhole.1 hwrote).recovered hwhole.1 hwhole.2

end Exact

/-- A new node with the configured length `L` after a write of one block. -/
def stored (L : UInt32) (key : Bytes) : List Response × StorageServer :=
  (node default 8 64 4 L).router sampleHash
    ⟨.PUT, (Env.ofHash sampleHash).uri (storeUri (padded key)),
      Block.serializeAll [⟨padded key, 0, 4, [1, 2, 3, 4]⟩]⟩

/-- What the node then answers to a starting master. -/
def synced (L : UInt32) (key : Bytes) : List Response :=
  ((stored L key).2.router sampleHash ⟨.GET, syncPath, []⟩).1

theorem wrote_stored (L : UInt32) {key : Bytes}
    (hok : (stored L key).1 = [⟨.OK, (SizeInfo.mk 8 64).serialize⟩]) :
    Wrote (Env.ofHash sampleHash) L {key} (stored L key).2
      (Function.update (fun _ => none) key (some [0])) :=
  Wrote.put (.new default layout_sample 4)
    (Set.mem_singleton key) (by simp) ⟨by simp, by simp, by simp [node]⟩ (Prod.ext hok rfl)

/-- The key `a`, at the configured length of 50. -/
theorem recovered_iff_sample :
    Recovered (Env.ofHash sampleHash) (stored 50 [97]).2
      (Function.update (fun _ => none) [97] (some [0])) := by
  have hok : (stored 50 [97]).1 = [⟨.OK, (SizeInfo.mk 8 64).serialize⟩] := by decide +kernel
  refine (recovered_iff (Env.ofHash sampleHash) 50 {[97]} ?_).mpr (Or.inr (Or.inl ⟨rfl, ?_, ?_⟩))
    _ _ (wrote_stored 50 hok)
  · rintro key rfl
    exact ⟨clientKey_sample.toPlainKey, by decide⟩
  · rintro key rfl
    decide
  · exact Set.injOn_singleton _ _

/-- **Keys that are lost**: a key of 50 bytes at the configured length of 50 is written, and the
node does not answer any more; at the configured length of 20 the answer for the key `a` is not
decoded. -/
theorem key_lost :
    (∃ srv last, Wrote (Env.ofHash sampleHash) 50 {List.replicate 50 97} srv last ∧
      PlainKey (List.replicate 50 97) ∧ ¬ Recovered (Env.ofHash sampleHash) srv last) ∧
    ∃ srv last, Wrote (Env.ofHash sampleHash) 20 {[97]} srv last ∧
      ¬ Recovered (Env.ofHash sampleHash) srv last := by
  have hok : (stored 50 (List.replicate 50 97)).1 = [⟨.OK, (SizeInfo.mk 8 64).serialize⟩] ∧
      (stored 20 [97]).1 = [⟨.OK, (SizeInfo.mk 8 64).serialize⟩] := by decide +kernel
  have hsync : synced 50 (List.replicate 50 97) = [] ∧
      ∀ r ∈ synced 20 [97], (SyncInfo.deserialize r.body).isNone = true := by decide +kernel
  refine ⟨⟨_, _, wrote_stored 50 hok.1, ⟨by decide, by decide⟩, ?_⟩, _, _,
    wrote_stored 20 hok.2, ?_⟩
  · rintro ⟨body, srv', info, hrouter, -⟩
    have hnil : synced 50 (List.replicate 50 97) = [⟨.OK, body⟩] := congrArg Prod.fst hrouter
    rw [hsync.1] at hnil
    cases hnil
  · rintro ⟨body, srv', info, hrouter, hinfo, -⟩
    have hone : synced 20 [97] = [⟨.OK, body⟩] := congrArg Prod.fst hrouter
    have hnone := hsync.2 ⟨.OK, body⟩ (by rw [hone]; simp)
    rw [hinfo] at hnone
    cases hnone

end KeyIdentity

end RackKey
