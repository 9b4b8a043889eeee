import RackKey.Cluster.Write

set_option autoImplicit false

/-! # The round trip of the cluster

After a PUT that the master answers OK, every block is recorded on exactly `R` nodes, and a GET
answers the payload under every assignment of health that leaves each block one of its nodes,
so after the loss of any `R - 1` nodes (`get_after_put`).
-/

namespace RackKey

open Std Words Payloads DiskStorage

namespace Cluster

variable {env : Env} {reach : Nat → Bool} {key : Bytes}

/-! ## Requests of a client -/

/-- The master takes the key of a client's request as the client wrote it. -/
theorem router_store (env : Env) (reach : Nat → Bool) (hk : PlainKey key) (fuel : Nat)
    (c : Cluster) (payload : Bytes) :
    c.router env reach fuel ⟨.PUT, storeUri key, payload⟩
        = (c.putHandler env reach fuel (padded key) payload).map (fun r => (some r.1, r.2)) ∧
      c.router env reach fuel ⟨.GET, storeUri key, payload⟩
        = some (c.getHandler env reach (padded key)) ∧
      c.router env reach fuel ⟨.DEL, storeUri key, payload⟩
        = some (some (c.deleteHandler env reach (padded key)).1,
            (c.deleteHandler env reach (padded key)).2) := by
  unfold router
  simp only [ApiUtils.parsePath_storeUri hk, if_true]
  exact ⟨rfl, rfl, rfl⟩

theorem isHealthy_withHealth (c : Cluster) (healthy : Nat → Bool) (n : Nat) :
    (c.withHealth healthy).isHealthy n = true ↔ n ∈ c.master.storageNodes ∧ healthy n = true := by
  unfold isHealthy withHealth
  dsimp only
  rw [ExtTreeMap.getElem?_map]
  by_cases hn : n ∈ c.master.storageNodes
  · rw [ExtTreeMap.getElem?_eq_some_getElem hn]
    simp [hn]
  · rw [ExtTreeMap.getElem?_eq_none hn]
    simp [hn]

/-! ## What the map records -/

/-- A value set with the elements of a list without repetition has the size of the list. -/
theorem size_values {bm : BlockNodeMap} {b : UInt32} {nodeIds : List Nat} (hn : nodeIds.Nodup)
    (h : ∀ n, bm.Related b n ↔ n ∈ nodeIds) : (bm.values b).size = nodeIds.length := by
  have hperm : (bm.values b).toList.Perm nodeIds :=
    (List.perm_ext_iff_of_nodup (nodup_toList _) hn).mpr fun n => by
      rw [ExtTreeSet.mem_toList]
      exact h n
  rw [← ExtTreeSet.length_toList, hperm.length_eq]

section Done

variable {fuel : Nat} {payload : Bytes} {c c' : Cluster} {bm : BlockNodeMap}
variable (h : PutDone env fuel key payload c c' bm)

include h

/-- **Every block is recorded on `R` distinct nodes.** -/
theorem PutDone.replicas (hfits : FitsPayload c.master.config.dataBlockSize payload) {b : Nat}
    (hb : b < numBlocks c.master.config.dataBlockSize payload) :
    (bm.values (UInt32.ofNat b)).size = c.master.R.toNat := by
  rw [← h.placed b hb]
  refine size_values (MasterServer.selected_placement fuel (padded key) _).nodup fun n => ?_
  rw [h.related, hfits.toNat_blockNum hb]
  exact and_iff_right hb

/-- The nodes recorded are nodes the master knows. -/
theorem PutDone.known {b : UInt32} {n : Nat} (hb : bm.Related b n) :
    n ∈ c.master.storageNodes := by
  obtain ⟨sn, hsn, -⟩ := (MasterServer.selected_placement fuel (padded key) b).healthy n
    ((h.related b n).mp hb).2
  exact mem_of_getElem?_eq_some hsn

/-- The cluster stores the payload, if every block has been placed somewhere. -/
theorem PutDone.stores (hfits : FitsPayload c.master.config.dataBlockSize payload)
    (hcover : ∀ b < numBlocks c.master.config.dataBlockSize payload,
      ∃ n, bm.Related (UInt32.ofNat b) n) :
    Stores env c' key payload bm := by
  have hconfig : c'.master.config = c.master.config := h.master.config
  refine ⟨?_, by rwa [hconfig], fun b => ?_, fun n b hb => ?_⟩
  · rw [h.master.keyBlockNodeMap]
    show (c.master.keyBlockNodeMap.insert (padded key) bm)[padded key]? = _
    rw [getElem?_insert_eq, if_pos rfl]
  · rw [hconfig]
    constructor
    · intro hb
      obtain ⟨n, hn⟩ := h.proper b hb
      exact ((h.related b n).mp hn).1
    · intro hb
      obtain ⟨n, hn⟩ := hcover b.toNat hb
      rw [UInt32.ofNat_toNat] at hn
      exact Multimap.mem_of_related hn
  · rw [hconfig]
    exact h.stored n b hb

/-- A GET under an assignment of health that leaves each block one of its nodes. -/
theorem PutDone.get (hk : PlainKey key)
    (hfits : FitsPayload c.master.config.dataBlockSize payload) {healthy : Nat → Bool}
    (hcover : ∀ b < numBlocks c.master.config.dataBlockSize payload,
      ∃ n, bm.Related (UInt32.ofNat b) n ∧ healthy n = true)
    (hreach : ∀ n, healthy n = true → reach n = true) :
    ((c'.withHealth healthy).getHandler env reach (padded key)).1 = some ⟨.OK, payload⟩ := by
  have hs := h.stores hfits fun b hb => ⟨_, (hcover b hb).choose_spec.1⟩
  have hs' : Stores env (c'.withHealth healthy) key payload bm :=
    ⟨hs.recorded, hs.fits, hs.blocks, hs.held⟩
  have hconfig : c'.master.config = c.master.config := h.master.config
  refine hs'.getHandler hk (fun n hn _ => ?_) (fun n hn => ?_) fun b hb => ?_
  · show (c'.nodes n).Readable c'.master.config.dataBlockSize
    rw [hconfig]
    have hn : n ∈ c'.master.storageNodes := ExtTreeMap.mem_map.mp hn
    exact (h.ok n ((h.master.mem_storageNodes n).mp hn)).toReadable
  · exact hreach n ((isHealthy_withHealth c' healthy n).mp hn).2
  · have hlt := (hs.blocks b).mp hb
    rw [hconfig] at hlt
    obtain ⟨n, hn, hup⟩ := hcover b.toNat hlt
    rw [UInt32.ofNat_toNat] at hn
    exact ⟨n, hn, (isHealthy_withHealth c' healthy n).mpr
      ⟨(h.master.mem_storageNodes n).mpr (h.known hn), hup⟩⟩

/-- A set of fewer than `R` nodes leaves each block a node. -/
theorem PutDone.survives (hfits : FitsPayload c.master.config.dataBlockSize payload)
    {down : Finset Nat} (hdown : down.card < c.master.R.toNat) {b : Nat}
    (hb : b < numBlocks c.master.config.dataBlockSize payload) :
    ∃ n, bm.Related (UInt32.ofNat b) n ∧ n ∉ down := by
  by_contra hnone
  have hlen := h.placed b hb
  set ns := c.master.placement env fuel (padded key) (UInt32.ofNat b) with hns
  have hnodup : ns.Nodup := (MasterServer.selected_placement fuel (padded key) _).nodup
  have hsub : ns.toFinset ⊆ down := by
    intro n hn
    by_contra hup
    refine hnone ⟨n, (h.related _ n).mpr ⟨?_, List.mem_toFinset.mp hn⟩, hup⟩
    rwa [hfits.toNat_blockNum hb]
  have hcard := Finset.card_le_card hsub
  rw [List.toFinset_card_of_nodup hnodup] at hcard
  omega

/-- With at least one replica, every block has a node. -/
theorem PutDone.exists_node (hfits : FitsPayload c.master.config.dataBlockSize payload)
    (hR : 0 < c.master.R.toNat) {b : Nat}
    (hb : b < numBlocks c.master.config.dataBlockSize payload) :
    ∃ n, bm.Related (UInt32.ofNat b) n := by
  obtain ⟨n, hn, -⟩ := h.survives hfits (Finset.card_empty ▸ hR) hb
  exact ⟨n, hn⟩

end Done

/-- What a client knows after a PUT answered OK. -/
theorem put_done (hk : PlainKey key) {fuel : Nat} {c c' : Cluster} {payload body : Bytes}
    (hfits : FitsPayload c.master.config.dataBlockSize payload)
    (hnodes : ∀ n ∈ c.master.storageNodes, (c.nodes n).Ok c.master.config.dataBlockSize)
    (hput : c.router env reach fuel ⟨.PUT, storeUri key, payload⟩
      = some (some ⟨.OK, body⟩, c')) :
    ∃ bm, PutDone env fuel key payload c c' bm := by
  rw [(router_store env reach hk fuel c payload).1] at hput
  obtain ⟨⟨response, c₁⟩, hrun, hr⟩ := Option.map_eq_some_iff.mp hput
  rw [Prod.mk.injEq, Option.some.injEq] at hr
  obtain ⟨rfl, rfl⟩ := hr
  exact (putHandler_run hk (fun n hn => (hnodes n hn).keyLengthMax) hrun).done rfl hfits
    hnodes

/-- **The round trip**: what a PUT answered OK leaves recorded, and what GETs then answer. -/
theorem get_after_put (hk : PlainKey key) {fuel : Nat} {c c' : Cluster} {payload body : Bytes}
    (hpos : 1 ≤ c.master.config.dataBlockSize.toNat)
    (hsize : payload.length + c.master.config.dataBlockSize.toNat ≤ 2 ^ 32)
    (hnodes : ∀ n ∈ c.master.storageNodes, (c.nodes n).Ok c.master.config.dataBlockSize)
    (hput : c.router env reach fuel ⟨.PUT, storeUri key, payload⟩
      = some (some ⟨.OK, body⟩, c')) :
    ∃ bm, c'.master.keyBlockNodeMap[padded key]? = some bm ∧
      (∀ b < numBlocks c.master.config.dataBlockSize payload,
        (bm.values (UInt32.ofNat b)).size
          = (min c.master.config.replicationFactor c.master.config.numStorageNodes).toNat) ∧
      ∀ healthy reach' : Nat → Bool, (∀ n, healthy n = true → reach' n = true) →
        ((∀ b < numBlocks c.master.config.dataBlockSize payload,
            ∃ n, bm.Related (UInt32.ofNat b) n ∧ healthy n = true) ∨
          ∃ down : Finset Nat, down.card
              < (min c.master.config.replicationFactor c.master.config.numStorageNodes).toNat ∧
            ∀ n, n ∉ down → healthy n = true) →
        ∃ c'', (c'.withHealth healthy).router env reach' fuel ⟨.GET, storeUri key, []⟩
          = some (some ⟨.OK, payload⟩, c'') := by
  have hfits := FitsPayload.of_le hpos hsize
  obtain ⟨bm, h⟩ := put_done hk hfits hnodes hput
  refine ⟨bm, ?_, fun b hb => h.replicas hfits hb, fun healthy reach' hreach hcover => ?_⟩
  · rw [h.master.keyBlockNodeMap]
    show (c.master.keyBlockNodeMap.insert (padded key) bm)[padded key]? = _
    rw [getElem?_insert_eq, if_pos rfl]
  · have hcover' : ∀ b < numBlocks c.master.config.dataBlockSize payload,
        ∃ n, bm.Related (UInt32.ofNat b) n ∧ healthy n = true := by
      rcases hcover with hcover | ⟨down, hdown, hup⟩
      · exact hcover
      · intro b hb
        obtain ⟨n, hn, hnd⟩ := h.survives hfits hdown hb
        exact ⟨n, hn, hup n hnd⟩
    have hget := h.get hk hfits hcover' hreach
    rw [(router_store env reach' hk fuel _ []).2.1]
    exact ⟨_, congrArg some (Prod.ext hget rfl)⟩

/-! ## A sample -/

/-- A hash that spreads short byte strings. -/
def sampleHash (bs : Bytes) : UInt32 := bs.foldl (fun h b => (h + b.toUInt32) * 2654435769) 7

def sampleConfig : MasterConfig := ⟨[[49], [50], [51]], 2, 2, 4⟩

/-- Three nodes with two replicas of every block. -/
def sampleCluster : Cluster := Cluster.fresh (Env.ofHash sampleHash) default sampleConfig 8 64

/-- Three blocks. -/
def samplePayload : Bytes := [1, 2, 3, 4, 5, 6, 7, 8, 9, 10]

/-- Three blocks again. -/
def sampleOverwrite : Bytes := [21, 22, 23, 24, 25, 26, 27, 28, 29]

def sampleKeys : Set Bytes := {[97], [98]}

theorem clientKey_sample : ClientKey [97] := ⟨⟨by decide, by decide⟩, by decide⟩

theorem clientKey_sampleKeys : ∀ key ∈ sampleKeys, ClientKey key := by
  rintro key (rfl | rfl)
  · exact clientKey_sample
  · exact ⟨⟨by decide, by decide⟩, by decide⟩

theorem injOn_sampleKeys :
    Set.InjOn (fun key => (Env.ofHash sampleHash).sha256_32 (padded key)) sampleKeys := by
  rintro key (rfl | rfl) key' (rfl | rfl) h
  · rfl
  · exact absurd h (by decide +kernel)
  · exact absurd h (by decide +kernel)
  · rfl

theorem mem_storageNodes_sample (n : Nat) :
    n ∈ (MasterServer.initialise (Env.ofHash sampleHash) sampleConfig).storageNodes
      ↔ n ∈ [2, 0, 1] := by
  have hids : (MasterServer.initialise (Env.ofHash sampleHash) sampleConfig).storageNodes.keys
      = [0, 1, 2] := by decide +kernel
  rw [← ExtTreeMap.mem_keys, hids]
  simp only [List.mem_cons, List.not_mem_nil, or_false]
  omega

theorem sampleCluster_ok : ∀ n ∈ sampleCluster.master.storageNodes,
    (sampleCluster.nodes n).Ok sampleCluster.master.config.dataBlockSize :=
  fun _ _ => StorageServer.ok_new default layout_sample 4

theorem get_after_put_sample :
    ∃ c' c'', sampleCluster.router (Env.ofHash sampleHash) (fun _ => true) 100
        ⟨.PUT, storeUri [97], [1, 2, 3, 4, 5, 6, 7, 8, 9, 10]⟩ = some (some ⟨.OK, []⟩, c') ∧
      (c'.withHealth fun n => n != 1).router (Env.ofHash sampleHash) (fun n => n != 1) 100
        ⟨.GET, storeUri [97], []⟩ = some (some ⟨.OK, [1, 2, 3, 4, 5, 6, 7, 8, 9, 10]⟩, c'') := by
  have hok : (sampleCluster.router (Env.ofHash sampleHash) (fun _ => true) 100
      ⟨.PUT, storeUri [97], [1, 2, 3, 4, 5, 6, 7, 8, 9, 10]⟩).map Prod.fst
        = some (some ⟨.OK, []⟩) := by decide +kernel
  obtain ⟨⟨response, c'⟩, hput, hr⟩ := Option.map_eq_some_iff.mp hok
  obtain rfl : response = some ⟨.OK, []⟩ := hr
  obtain ⟨bm, -, -, hget⟩ := get_after_put clientKey_sample.toPlainKey (by decide) (by decide)
    sampleCluster_ok hput
  obtain ⟨c'', hc⟩ := hget (fun n => n != 1) (fun n => n != 1) (fun _ h => h)
    (Or.inr ⟨{1}, by decide, fun n hn => by simpa using hn⟩)
  exact ⟨c', c'', hput, hc⟩

end Cluster

end RackKey
