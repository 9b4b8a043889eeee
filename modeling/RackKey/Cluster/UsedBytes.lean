import Mathlib.Algebra.BigOperators.Group.Finset.Sigma
import Mathlib.Algebra.BigOperators.Ring.Finset
import Mathlib.Tactic.Ring
import RackKey.Cluster.Health
import RackKey.Cluster.Recovery
import RackKey.Storage.Space

set_option autoImplicit false

/-! # The bytes that payloads take

A node holds for a key its blocks of the payload, four bytes with the number before each, and tells
the master the sum of what it holds (`dataUsedSize`). After PUTs and DELETEs answered OK the used
bytes of all nodes together are those of the payloads and of their block numbers, once for each
replica: neither overwritten nor deleted payloads count (`used_bytes_total`).
-/

namespace RackKey

open Std Words Payloads DiskStorage Chunks

/-- The bytes that one replica of a payload takes: its own, and four for each block. -/
def storedSize (dataBlockSize : UInt32) (payload : Bytes) : Nat :=
  payload.length + 4 * numBlocks dataBlockSize payload

/-- The bytes that a node holds under a hash. -/
def StorageServer.heldSize (srv : StorageServer) (keyHash : UInt32) : Nat :=
  ((srv.contents keyHash).map List.length).getD 0

namespace Cluster

variable {env : Env} {config : MasterConfig} {Ks : Set Bytes} {c c' : Cluster} {vals : Values}
variable {key payload : Bytes} {bm : BlockNodeMap} {n : Nat}

/-! ## One node -/

/-- The used bytes of a node are those that it holds under the hashes of its entries. -/
theorem usedBytes_eq {srv : StorageServer} {dataBlockSize : UInt32} (ho : srv.Ok dataBlockSize)
    {hashes : Finset UInt32} (hhashes : ∀ e ∈ srv.diskStorage.bat.table, e.keyHash ∈ hashes) :
    srv.diskStorage.usedBytes = ∑ k ∈ hashes, srv.heldSize k := by
  obtain ⟨d, m, -, hi⟩ := ho.store
  calc srv.diskStorage.usedBytes
      = ∑ k ∈ hashes, ((Keyed.lookup BATEntry.keyHash srv.diskStorage.bat.table k).map
          fun e => e.numBytes.toNat).getD 0 :=
        Keyed.sum_map_eq_sum_lookup _ hi.sound.table.hashes hhashes
    _ = ∑ k ∈ hashes, srv.heldSize k := by
        refine Finset.sum_congr rfl fun k _ => ?_
        unfold StorageServer.heldSize StorageServer.contents contents
        cases hk : Keyed.lookup BATEntry.keyHash srv.diskStorage.bat.table k with
        | none => rfl
        | some e =>
            -- the bytes of an entry are in the file
            have hbacked := ho.backed e (Keyed.lookup_eq_some hk).1
            exact (ByteFile.readAt_length hbacked).symm

/-- A node holds for a stored key what is recorded on it. -/
theorem Stores.heldSize (h : Stores env c key payload bm)
    (hclean : (∀ b, ¬ bm.Related b n) →
      (c.nodes n).contents (env.sha256_32 (padded key)) = none) :
    (c.nodes n).heldSize (env.sha256_32 (padded key))
      = ∑ b ∈ Finset.range (numBlocks c.master.config.dataBlockSize payload),
          if bm.Related (UInt32.ofNat b) n
            then 4 + (chunk c.master.config.dataBlockSize.toNat payload b).length else 0 := by
  unfold StorageServer.heldSize
  by_cases hrel : ∃ b, bm.Related b n
  · obtain ⟨b, hb⟩ := hrel
    rw [h.held n b hb, ← Tally.sum_filter_range, ← length_copyBlocks_filter (padded key) _ payload
      fun b => bm.Related b n]
    rfl
  · have hno : ∀ b, ¬ bm.Related b n := fun b hb => hrel ⟨b, hb⟩
    rw [hclean hno]
    exact (Finset.sum_eq_zero fun b _ => if_neg (hno _)).symm

/-! ## One key -/

/-- **A stored payload takes its bytes once for each replica.** -/
theorem Replicated.heldSize_total (h : Replicated env c key payload bm) {nodes : Finset Nat}
    (hnodes : ∀ n : Nat, n ∈ c.master.storageNodes → n ∈ nodes)
    (hclean : ∀ n ∈ nodes, (∀ b, ¬ bm.Related b n) →
      (c.nodes n).contents (env.sha256_32 (padded key)) = none) :
    ∑ n ∈ nodes, (c.nodes n).heldSize (env.sha256_32 (padded key))
      = c.master.R.toNat * storedSize c.master.config.dataBlockSize payload := by
  set d := c.master.config.dataBlockSize with hd
  have hcard : ∀ b < numBlocks d payload,
      (nodes.filter fun n => bm.Related (UInt32.ofNat b) n).card = c.master.R.toNat := by
    intro b hb
    rw [← h.replicas b hb, ← Finset.length_toList]
    refine (size_values (Finset.nodup_toList _) fun n => ?_).symm
    rw [Finset.mem_toList, Finset.mem_filter]
    exact ⟨fun hn => ⟨hnodes n (h.known _ n hn), hn⟩, fun hn => hn.2⟩
  have hchunks : ∑ b ∈ Finset.range (numBlocks d payload), (chunk d.toNat payload b).length
      = payload.length := sum_length_chunk h.fits.pos payload
  calc ∑ n ∈ nodes, (c.nodes n).heldSize (env.sha256_32 (padded key))
      = ∑ n ∈ nodes, ∑ b ∈ Finset.range (numBlocks d payload),
          if bm.Related (UInt32.ofNat b) n then 4 + (chunk d.toNat payload b).length else 0 :=
        Finset.sum_congr rfl fun n hn => h.toStores.heldSize (hclean n hn)
    _ = ∑ b ∈ Finset.range (numBlocks d payload), ∑ n ∈ nodes,
          if bm.Related (UInt32.ofNat b) n then 4 + (chunk d.toNat payload b).length else 0 :=
        Finset.sum_comm
    _ = ∑ b ∈ Finset.range (numBlocks d payload),
          c.master.R.toNat * (4 + (chunk d.toNat payload b).length) := by
        refine Finset.sum_congr rfl fun b hb => ?_
        rw [← Finset.sum_filter, Finset.sum_const, hcard b (Finset.mem_range.mp hb),
          Nat.nsmul_eq_mul]
    _ = c.master.R.toNat * storedSize d payload := by
        rw [← Finset.mul_sum, Finset.sum_add_distrib, hchunks, Finset.sum_const, Finset.card_range,
          Nat.nsmul_eq_mul, storedSize]
        ring

/-! ## Runs -/

/-- The keys with a payload are finitely many. -/
theorem exists_keys {cond : Cluster → Nat → Bytes → Bytes → Prop} {c₀ : Cluster}
    (h : History env Ks cond c₀ c vals) :
    ∃ keys : Finset Bytes, ∀ key, key ∈ keys ↔ vals key ≠ none := by
  induction h with
  | start => exact ⟨∅, fun key => by simp⟩
  | @put _ _ vals key payload _ _ _ before mem nonempty meets ok ih =>
      obtain ⟨keys, hkeys⟩ := ih
      refine ⟨insert key keys, fun key' => ?_⟩
      by_cases hne : key' = key
      · simp [hne]
      · simp [hne, hkeys]
  | @delete _ _ vals key _ _ _ before mem ok ih =>
      obtain ⟨keys, hkeys⟩ := ih
      refine ⟨keys.erase key, fun key' => ?_⟩
      by_cases hne : key' = key
      · simp [hne]
      · simp [hne, hkeys]
  | health before healthy ih => exact ih

/-- The used bytes that a node tells are those that it holds for the keys with a payload. -/
theorem Tracks.dataUsedSize_eq (h : Tracks env config Ks c vals) {keys : Finset Bytes}
    (hinj : Set.InjOn (fun key => env.sha256_32 (padded key)) (keys : Set Bytes))
    (hkeys : ∀ key, key ∈ keys ↔ vals key ≠ none) (hn : n ∈ c.master.storageNodes) :
    (c.nodes n).diskStorage.dataUsedSize.toNat
      = ∑ key ∈ keys, (c.nodes n).heldSize (env.sha256_32 (padded key)) := by
  have ho := h.ok n hn
  obtain ⟨d, m, hl, hi⟩ := ho.store
  rw [hi.dataUsedSize_toNat hl, ← Finset.sum_image (f := (c.nodes n).heldSize) hinj]
  refine usedBytes_eq ho fun e he => Finset.mem_image.mpr ?_
  obtain ⟨key, hmem, -, hhash⟩ := h.labelled n hn e he
  -- an entry that the map does not record would not be there
  have hrecorded : ∃ b, Nested.Holds c.master.keyBlockNodeMap (padded key) b n := by
    by_contra hno
    have hnone := h.clean n hn key hmem fun b hb => hno ⟨b, hb⟩
    unfold StorageServer.contents contents at hnone
    exact Keyed.lookup_eq_none.mp (Option.map_eq_none_iff.mp hnone) e he hhash
  obtain ⟨b, hb⟩ := hrecorded
  obtain ⟨bm, hbm, -⟩ := (Nested.holds_iff _ _ _ _).mp hb
  obtain ⟨key', -, hpadded, hv⟩ := h.recorded _ (mem_of_getElem?_eq_some hbm)
  exact ⟨key', (hkeys key').mpr hv, by rw [hhash, hpadded]⟩

/-! ## Other keys -/

/-- A PUT answered OK keeps what is stored for another key. -/
theorem PutDone.keeps {fuel : Nat} (h : PutDone env fuel key payload c c' bm) {key' : Bytes}
    (hhash : env.sha256_32 (padded key') ≠ env.sha256_32 (padded key)) : Keeps env key' c c' where
  entry := by
    rw [h.master.keyBlockNodeMap]
    exact (getElem?_insert_eq _ _ _ _).trans
      (if_neg fun he => hhash (congrArg env.sha256_32 he.symm))
  config := h.master.config
  storageNodes := h.master.mem_storageNodes
  contents := fun n raw hraw => by
    rw [h.others n _ fun he => absurd he hhash]
    exact hraw

/-- What a client knows after a DELETE answered OK: the key was in the map, and all nodes recorded
for it have answered OK. -/
theorem Tracks.delete_done (h : Tracks env config Ks c vals) (hk : PlainKey key)
    {reach : Nat → Bool} {fuel : Nat} {body : Bytes}
    (ok : c.router env reach fuel ⟨.DEL, storeUri key, []⟩ = some (some ⟨.OK, body⟩, c')) :
    ∃ bm, c.master.keyBlockNodeMap[padded key]? = some bm ∧
      DeleteRun env reach key c bm (⟨.OK, body⟩, c') := by
  rw [(router_store env reach hk fuel c []).2.2, Option.some.injEq, Prod.mk.injEq,
    Option.some.injEq] at ok
  obtain ⟨hr, rfl⟩ := ok
  cases hbm : c.master.keyBlockNodeMap[padded key]? with
  | none =>
      -- a key that is not in the map is not deleted with an OK
      unfold deleteHandler at hr
      rw [hbm] at hr
      cases hr
  | some bm =>
      have hrun := deleteHandler_run env reach hk hbm fun b n hb =>
        (h.ok n (h.known _ b n ((Nested.holds_of_some hbm b n).mpr hb))).keyLengthMax
      refine ⟨bm, rfl, ?_⟩
      rw [← hr]
      exact hrun

/-- A DELETE answered OK keeps what is stored for another key. -/
theorem Tracks.delete_keeps (h : Tracks env config Ks c vals) {reach : Nat → Bool}
    (hbm : c.master.keyBlockNodeMap[padded key]? = some bm) {body : Bytes}
    (hrun : DeleteRun env reach key c bm (⟨.OK, body⟩, c')) {key' : Bytes}
    (hhash : env.sha256_32 (padded key') ≠ env.sha256_32 (padded key)) : Keeps env key' c c' := by
  rcases hrun.answer with ⟨-, hall, hmaster⟩ | ⟨herr, -⟩
  swap
  · cases herr
  refine ⟨?_, hmaster.config, hmaster.mem_storageNodes, fun n raw hraw => ?_⟩
  · rw [hmaster.keyBlockNodeMap]
    exact (getElem?_erase_eq _ _ _).trans (if_neg fun he => hhash (congrArg env.sha256_32 he.symm))
  · rcases h.deleted_at hbm hrun hall n with ⟨-, -, hcontents, -⟩ | ⟨-, hsame⟩
    · rw [hcontents, if_neg hhash]
      exact hraw
    · rw [hsame]
      exact hraw

section Runs

variable (hKs : ∀ key ∈ Ks, ClientKey key)
  (hinj : Set.InjOn (fun key => env.sha256_32 (padded key)) Ks) {junk : Junk} {d m : UInt32}
  (hl : Layout d m) (hR : 1 ≤ (min config.replicationFactor config.numStorageNodes).toNat)

include hKs hinj hl hR

/-- **Every payload is stored with all its replicas**, in every state of a run. -/
theorem replicated_of_history
    (h : History env Ks (Covers env) (Cluster.fresh env junk config d m) c vals) :
    ∀ key payload, vals key = some payload → ∃ bm, Replicated env c key payload bm := by
  induction h with
  | start => exact fun _ _ hv => by cases hv
  | @put c c' vals key payload body reach fuel before mem nonempty meets ok ih =>
      have ht := tracks_of_history hKs hinj hl hR before
      obtain ⟨bm, hd⟩ := put_done (hKs _ mem).toPlainKey meets.fits
        (fun n hn => ht.sameConfig ▸ ht.ok n hn) ok
      intro key' payload' hv
      by_cases hne : key' = key
      · subst hne
        rw [Function.update_self] at hv
        obtain rfl := Option.some.inj hv
        refine ⟨bm, hd.replicated meets.fits ?_⟩
        rw [MasterServer.R, ht.sameConfig]
        exact hR
      · rw [Function.update_of_ne hne] at hv
        obtain ⟨bm', hbm'⟩ := ih key' payload' hv
        have hmem' := (ht.stored key' payload' hv).1
        exact ⟨bm', hbm'.keeps (hd.keeps fun he => hne (hinj hmem' mem he))⟩
  | @delete c c' vals key body reach fuel before mem ok ih =>
      have ht := tracks_of_history hKs hinj hl hR before
      obtain ⟨bm, hbm, hrun⟩ := ht.delete_done (hKs key mem).toPlainKey ok
      intro key' payload' hv
      have hne : key' ≠ key := by
        rintro rfl
        rw [Function.update_self] at hv
        cases hv
      rw [Function.update_of_ne hne] at hv
      obtain ⟨bm', hbm'⟩ := ih key' payload' hv
      have hmem' := (ht.stored key' payload' hv).1
      exact ⟨bm', hbm'.keeps (ht.delete_keeps hbm hrun fun he => hne (hinj hmem' mem he))⟩
  | health before healthy ih =>
      intro key payload hv
      obtain ⟨bm, hbm⟩ := ih key payload hv
      exact ⟨bm, hbm.keeps (keeps_withHealth env key _ healthy)⟩

/-- **The used bytes of all nodes** are those of the payloads and of their block numbers, once for
each replica. -/
theorem used_bytes_total
    (h : History env Ks (Covers env) (Cluster.fresh env junk config d m) c vals) :
    ∃ keys : Finset Bytes, (∀ key, key ∈ keys ↔ vals key ≠ none) ∧
      ∑ n ∈ c.master.storageNodes.keys.toFinset, (c.nodes n).diskStorage.dataUsedSize.toNat
        = (min config.replicationFactor config.numStorageNodes).toNat *
            ∑ key ∈ keys, storedSize config.dataBlockSize ((vals key).getD []) := by
  have ht := tracks_of_history hKs hinj hl hR h
  have hreplicated := replicated_of_history hKs hinj hl hR h
  obtain ⟨keys, hkeys⟩ := exists_keys h
  have hmem : ∀ key ∈ keys, key ∈ Ks := by
    intro key hkey
    obtain ⟨payload, hv⟩ := Option.ne_none_iff_exists'.mp ((hkeys key).mp hkey)
    exact (ht.stored key payload hv).1
  have hnodes : ∀ n : Nat, n ∈ c.master.storageNodes.keys.toFinset ↔ n ∈ c.master.storageNodes :=
    fun n => by rw [List.mem_toFinset, ExtTreeMap.mem_keys]
  refine ⟨keys, hkeys, ?_⟩
  set nodes := c.master.storageNodes.keys.toFinset
  calc ∑ n ∈ nodes, (c.nodes n).diskStorage.dataUsedSize.toNat
      = ∑ n ∈ nodes, ∑ key ∈ keys, (c.nodes n).heldSize (env.sha256_32 (padded key)) :=
        Finset.sum_congr rfl fun n hn =>
          ht.dataUsedSize_eq (hinj.mono hmem) hkeys ((hnodes n).mp hn)
    _ = ∑ key ∈ keys, ∑ n ∈ nodes, (c.nodes n).heldSize (env.sha256_32 (padded key)) :=
        Finset.sum_comm
    _ = ∑ key ∈ keys, (min config.replicationFactor config.numStorageNodes).toNat *
          storedSize config.dataBlockSize ((vals key).getD []) := by
        refine Finset.sum_congr rfl fun key hkey => ?_
        obtain ⟨payload, hv⟩ := Option.ne_none_iff_exists'.mp ((hkeys key).mp hkey)
        obtain ⟨bm, hbm⟩ := hreplicated key payload hv
        have htotal := hbm.heldSize_total (fun n => (hnodes n).mpr) fun n hn hno =>
          ht.clean n ((hnodes n).mp hn) key (hmem key hkey) fun b hb =>
            hno b ((Nested.holds_of_some hbm.recorded b n).mp hb)
        rw [MasterServer.R, ht.sameConfig] at htotal
        rw [htotal, hv]
        rfl
    _ = _ := (Finset.mul_sum _ _ _).symm

end Runs

theorem used_bytes_total_sample :
    ∃ c vals keys, History (Env.ofHash sampleHash) sampleKeys (Covers (Env.ofHash sampleHash))
        sampleCluster c vals ∧ vals [97] = some sampleOverwrite ∧ vals [98] = none ∧
      (∀ key, key ∈ keys ↔ vals key ≠ none) ∧
      ∑ n ∈ c.master.storageNodes.keys.toFinset, (c.nodes n).diskStorage.dataUsedSize.toNat
        = 2 * ∑ key ∈ keys, storedSize 4 ((vals key).getD []) := by
  obtain ⟨c, vals, hrun, hoverwritten, hdeleted⟩ := history_sample
  obtain ⟨keys, hkeys, htotal⟩ := used_bytes_total clientKey_sampleKeys injOn_sampleKeys
    layout_sample (by decide) hrun
  exact ⟨c, vals, keys, hrun, hoverwritten, hdeleted, hkeys, htotal⟩

end Cluster

end RackKey
