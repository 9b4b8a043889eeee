import RackKey.Cluster.Atomic
import RackKey.Cluster.Tasks

set_option autoImplicit false

/-! # One key while other keys change

`Replicated` says that a cluster stores a payload for a key with all its replicas. It depends on
the entry of the key, and on what the recorded nodes hold under its hash; so it is kept by whatever
leaves these as they are (`Keeps`), such as requests for other keys and restarts of nodes.
`Storing` is a PUT of the key under way among such steps: what it has put on its nodes so far is
there. When all its replies are in, the payload is stored (`Storing.replicated`).
-/

namespace RackKey

open Std Words Payloads DiskStorage

namespace Cluster

variable {env : Env} {key payload : Bytes} {c c' c'' : Cluster} {bm : BlockNodeMap}

/-! ## What is stored for a key -/

/-- The cluster stores a payload for a key, each block on as many nodes as there are replicas. -/
structure Replicated (env : Env) (c : Cluster) (key payload : Bytes) (bm : BlockNodeMap) : Prop
    extends Stores env c key payload bm where
  replicas : ∀ b < numBlocks c.master.config.dataBlockSize payload,
    (bm.values (UInt32.ofNat b)).size = c.master.R.toNat
  known : ∀ b n, bm.Related b n → n ∈ c.master.storageNodes

/-- `c'` has the entry of the key that `c` has, and every node holds what it holds under the hash
of the key. -/
structure Keeps (env : Env) (key : Bytes) (c c' : Cluster) : Prop where
  entry : c'.master.keyBlockNodeMap[padded key]? = c.master.keyBlockNodeMap[padded key]?
  config : c'.master.config = c.master.config
  storageNodes : ∀ n : Nat, n ∈ c'.master.storageNodes ↔ n ∈ c.master.storageNodes
  contents : ∀ n raw, (c.nodes n).contents (env.sha256_32 (padded key)) = some raw →
    (c'.nodes n).contents (env.sha256_32 (padded key)) = some raw

theorem Keeps.refl (env : Env) (key : Bytes) (c : Cluster) : Keeps env key c c :=
  ⟨rfl, rfl, fun _ => Iff.rfl, fun _ _ h => h⟩

/-- A master that has learnt about the state of its nodes. -/
theorem keeps_of_nodesOnly {m : MasterServer} (h : c.master.NodesOnly m) :
    Keeps env key c { c with master := m } where
  entry := by rw [h.keyBlockNodeMap]
  config := h.config
  storageNodes := h.mem_storageNodes
  contents := fun _ _ hraw => hraw

/-- A node that has changed, and holds what it held under the hash. -/
theorem keeps_update {n : Nat} {srv : StorageServer}
    (h : ∀ raw, (c.nodes n).contents (env.sha256_32 (padded key)) = some raw →
      srv.contents (env.sha256_32 (padded key)) = some raw) :
    Keeps env key c { c with nodes := Function.update c.nodes n srv } where
  entry := rfl
  config := rfl
  storageNodes := fun _ => Iff.rfl
  contents := by
    intro n' raw hraw
    by_cases hn : n' = n
    · subst hn
      dsimp only
      rw [Function.update_self]
      exact h raw hraw
    · dsimp only
      rw [Function.update_of_ne hn]
      exact hraw

theorem Replicated.keeps (h : Replicated env c key payload bm) (hk : Keeps env key c c') :
    Replicated env c' key payload bm where
  recorded := hk.entry.trans h.recorded
  fits := by rw [hk.config]; exact h.fits
  blocks := by rw [hk.config]; exact h.blocks
  held := fun n b hb => by
    rw [hk.config]
    exact hk.contents n _ (h.held n b hb)
  replicas := by
    have hR : c'.master.R = c.master.R := by rw [MasterServer.R, MasterServer.R, hk.config]
    rw [hk.config, hR]
    exact h.replicas
  known := fun b n hb => (hk.storageNodes n).mpr (h.known b n hb)

/-- **A PUT answered OK** stores its payload with all replicas. -/
theorem PutDone.replicated {fuel : Nat} (h : PutDone env fuel key payload c c' bm)
    (hfits : FitsPayload c.master.config.dataBlockSize payload) (hR : 0 < c.master.R.toNat) :
    Replicated env c' key payload bm where
  toStores := h.stores hfits fun _ hb => h.exists_node hfits hR hb
  replicas := by
    have hconfig : c'.master.config = c.master.config := h.master.config
    intro b hb
    rw [hconfig] at hb
    rw [h.replicas hfits hb, MasterServer.R, MasterServer.R, hconfig]
  known := fun _ n hb => (h.master.mem_storageNodes n).mpr (h.known hb)

/-- Fewer nodes than there are replicas leave every block a node. -/
theorem Replicated.survives (h : Replicated env c key payload bm) {down : Finset Nat}
    (hdown : down.card < c.master.R.toNat) {b : UInt32} (hb : b ∈ bm) :
    ∃ n, bm.Related b n ∧ n ∉ down := by
  by_contra hno
  have hlt := (h.blocks b).mp hb
  have hsize := h.replicas b.toNat hlt
  rw [UInt32.ofNat_toNat] at hsize
  have hsub : (bm.values b).toList.toFinset ⊆ down := by
    intro n hn
    by_contra hnot
    exact hno ⟨n, ExtTreeSet.mem_toList.mp (List.mem_toFinset.mp hn), hnot⟩
  have hcard : (bm.values b).toList.toFinset.card = (bm.values b).size := by
    rw [List.toFinset_card_of_nodup (nodup_toList _), ExtTreeSet.length_toList]
  have := Finset.card_le_card hsub
  omega

end Cluster

namespace Tasks

open Cluster
open Concurrent (Stage update_replied_received update_replied_replied update_received_received
  update_received_replied)

variable {env : Env} {key payload : Bytes} {c c' : Cluster}
variable {nodeBlockMap : ExtTreeMap Nat (List Block)} {success : Bool}
variable {blockNodeMap : BlockNodeMap} {stage : Nat → Stage} {n : Nat}

/-! ## A PUT under way -/

/-- A PUT of the key under way. The nodes that have answered OK hold the blocks sent to them, and
those whose answers are in are recorded for them. -/
structure Storing (env : Env) (c : Cluster) (key payload : Bytes)
    (nodeBlockMap : ExtTreeMap Nat (List Block)) (success : Bool) (blockNodeMap : BlockNodeMap)
    (stage : Nat → Stage) : Prop where
  fits : FitsPayload c.master.config.dataBlockSize payload
  distributed : ∃ fuel c₀, Cluster.distribute env fuel c₀ (padded key) payload = some nodeBlockMap ∧
    c₀.master.config = c.master.config ∧
    ∀ n : Nat, n ∈ c₀.master.storageNodes ↔ n ∈ c.master.storageNodes
  asked : ∀ n, stage n ≠ .sent → n ∈ nodeBlockMap
  replies : ∀ n reply, stage n = .replied reply → ∃ ok, Tells ok reply ∧
    (ok = true → (c.nodes n).contents (env.sha256_32 (padded key))
      = some (copyBlocks (nodeBlockMap.getD n [])))
  held : success = true → ∀ n, stage n = .received →
    (c.nodes n).contents (env.sha256_32 (padded key)) = some (copyBlocks (nodeBlockMap.getD n []))
  related : success = true → ∀ b n, blockNodeMap.Related b n ↔
    stage n = .received ∧ b ∈ (nodeBlockMap.getD n []).map Block.blockNum
  proper : blockNodeMap.Proper

/-- A reply that gets lost is not one that is in. -/
theorem update_lost_received {reply : Option Response} (h : stage n = .replied reply) {n' : Nat} :
    Function.update stage n (.replied none) n' = .received ↔ stage n' = .received := by
  by_cases hn : n' = n
  · subst hn
    rw [Function.update_self, h]
    simp
  · rw [Function.update_of_ne hn]

namespace Storing

theorem start {fuel : Nat} (hfits : FitsPayload c.master.config.dataBlockSize payload)
    (hdistribute : c.distribute env fuel (padded key) payload = some nodeBlockMap) :
    Storing env c key payload nodeBlockMap true ∅ fun _ => .sent where
  fits := hfits
  distributed := ⟨fuel, c, hdistribute, rfl, fun _ => Iff.rfl⟩
  asked := fun n h => absurd rfl h
  replies := fun n reply h => by cases h
  held := fun _ n h => by cases h
  related := by
    intro _ b n
    simp only [reduceCtorEq, false_and, iff_false]
    exact fun h => ExtTreeMap.not_mem_empty (Multimap.mem_of_related h)
  proper := Multimap.proper_empty

/-- What others do leaves it as it is. -/
theorem keeps (h : Storing env c key payload nodeBlockMap success blockNodeMap stage)
    (hk : Keeps env key c c') :
    Storing env c' key payload nodeBlockMap success blockNodeMap stage where
  fits := by rw [hk.config]; exact h.fits
  distributed := by
    obtain ⟨fuel, c₀, hd, hconfig, hnodes⟩ := h.distributed
    exact ⟨fuel, c₀, hd, hconfig.trans hk.config.symm,
      fun n => (hnodes n).trans (hk.storageNodes n).symm⟩
  asked := h.asked
  replies := by
    intro n reply hn
    obtain ⟨ok, htells, hheld⟩ := h.replies n reply hn
    exact ⟨ok, htells, fun hok => hk.contents n _ (hheld hok)⟩
  held := fun hs n hn => hk.contents n _ (h.held hs n hn)
  related := h.related
  proper := h.proper

/-- What was sent is what the payload was cut into. -/
theorem sent (h : Storing env c key payload nodeBlockMap success blockNodeMap stage) :
    ∃ fuel c₀, c₀.master.config = c.master.config ∧
      (∀ n : Nat, n ∈ c₀.master.storageNodes ↔ n ∈ c.master.storageNodes) ∧
      numBlocks c.master.config.dataBlockSize payload ≤ fuel ∧
      (∀ b < numBlocks c.master.config.dataBlockSize payload,
        (c₀.master.placement env fuel (padded key) (UInt32.ofNat b)).length = c₀.master.R.toNat) ∧
      (∀ n, nodeBlockMap.getD n [] = sentTo env fuel key payload c₀ n) ∧
      ∀ n, n ∈ nodeBlockMap ↔ sentTo env fuel key payload c₀ n ≠ [] := by
  obtain ⟨fuel, c₀, hd, hconfig, hnodes⟩ := h.distributed
  obtain ⟨⟨blocks, hbuild, hlen⟩, hsent, hmem⟩ := distribute_spec hd
  have hfits := h.fits
  rw [← hconfig] at hfits ⊢
  rw [buildBlocks_eq hfits rfl] at hbuild
  split at hbuild
  · rename_i hfuel
    obtain rfl := Option.some.inj hbuild
    refine ⟨fuel, c₀, rfl, hnodes, hfuel, fun b hb => ?_, hsent, hmem⟩
    exact hlen (blockOf (padded key) c₀.master.config.dataBlockSize payload b)
      (List.mem_map.mpr ⟨b, List.mem_range.mpr hb, rfl⟩)
  · cases hbuild

theorem framed (h : Storing env c key payload nodeBlockMap success blockNodeMap stage) (n : Nat) :
    ∀ b ∈ nodeBlockMap.getD n [], b.Framed := by
  intro b hb
  obtain ⟨fuel, c₀, hconfig, -, -, -, hsent, -⟩ := h.sent
  have hfits := h.fits
  rw [← hconfig] at hfits
  rw [hsent] at hb
  exact framed_sentTo hfits hb

/-- A node handles its request. -/
theorem handle (h : Storing env c key payload nodeBlockMap success blockNodeMap stage)
    {reply : Option Response} {ok : Bool} (hn : n ∈ nodeBlockMap) (hsent : stage n = .sent)
    (htells : Tells ok reply) {srv : StorageServer}
    (hheld : ok = true → srv.contents (env.sha256_32 (padded key))
      = some (copyBlocks (nodeBlockMap.getD n []))) :
    Storing env { c with nodes := Function.update c.nodes n srv } key payload nodeBlockMap success
      blockNodeMap (Function.update stage n (.replied reply)) := by
  -- the node has not been asked before, so nothing that is held is on it
  have hother : ∀ n', n' ≠ n → Function.update c.nodes n srv n' = c.nodes n' :=
    fun n' hne => Function.update_of_ne hne ..
  have hreceived : ∀ n', stage n' = .received → n' ≠ n := by
    rintro n' hn' rfl
    rw [hsent] at hn'
    cases hn'
  refine ⟨h.fits, h.distributed, fun n' hn' => ?_, fun n' reply' hn' => ?_, fun hs n' hn' => ?_,
    fun hs b n' => ?_, h.proper⟩
  · by_cases hne : n' = n
    · exact hne ▸ hn
    · rw [Function.update_of_ne hne] at hn'
      exact h.asked n' hn'
  · rcases update_replied_replied hn' with ⟨rfl, rfl⟩ | ⟨hne, hn'⟩
    · refine ⟨ok, htells, fun hok => ?_⟩
      dsimp only
      rw [Function.update_self]
      exact hheld hok
    · dsimp only
      rw [hother n' hne]
      exact h.replies n' reply' hn'
  · rw [update_replied_received hsent] at hn'
    dsimp only
    rw [hother n' (hreceived n' hn')]
    exact h.held hs n' hn'
  · rw [h.related hs, update_replied_received hsent]

/-- A reply gets lost. -/
theorem lose (h : Storing env c key payload nodeBlockMap success blockNodeMap stage)
    {reply : Option Response} (hreplied : stage n = .replied reply) :
    Storing env c key payload nodeBlockMap success blockNodeMap
      (Function.update stage n (.replied none)) := by
  refine ⟨h.fits, h.distributed, fun n' hn' => ?_, fun n' reply' hn' => ?_, fun hs n' hn' => ?_,
    fun hs b n' => ?_, h.proper⟩
  · refine h.asked n' fun hsent => hn' ?_
    have hne : n' ≠ n := by
      rintro rfl
      rw [hsent] at hreplied
      cases hreplied
    rwa [Function.update_of_ne hne]
  · rcases update_replied_replied hn' with ⟨rfl, rfl⟩ | ⟨-, hn'⟩
    · exact ⟨false, (fun body h => by cases h), fun h => by cases h⟩
    · exact h.replies n' reply' hn'
  · exact h.held hs n' ((update_lost_received hreplied).mp hn')
  · rw [h.related hs, update_lost_received hreplied]

/-- The master receives a reply. -/
theorem receive (h : Storing env c key payload nodeBlockMap success blockNodeMap stage)
    {reply : Option Response} (hreplied : stage n = .replied reply) (K : Bytes) :
    let p := assign K n (nodeBlockMap.getD n []) (success, blockNodeMap) c.master reply
    c.master.NodesOnly p.2 ∧
      Storing env { c with master := p.2 } key payload nodeBlockMap p.1.1 p.1.2
        (Function.update stage n .received) := by
  obtain ⟨ok, htells, hheld⟩ := h.replies n reply hreplied
  obtain ⟨hsuccess, hmap, hmaster⟩ := assign_eq htells K n (nodeBlockMap.getD n [])
    (success, blockNodeMap) c.master
  dsimp only
  have hk : Keeps env key c _ := keeps_of_nodesOnly hmaster
  have h' := h.keeps hk
  refine ⟨hmaster, h'.fits, h'.distributed, fun n' hn' => ?_,
    fun n' reply' hn' => h'.replies n' reply' (update_received_replied hn'), fun hs n' hn' => ?_,
    fun hs b n' => ?_, ?_⟩
  · by_cases hne : n' = n
    · exact h.asked n' (by rw [hne, hreplied]; simp)
    · rw [Function.update_of_ne hne] at hn'
      exact h.asked n' hn'
  · rw [hsuccess, Bool.and_eq_true] at hs
    rcases update_received_received.mp hn' with rfl | hn'
    · exact hheld hs.2
    · exact h.held hs.1 n' hn'
  · rw [hsuccess, Bool.and_eq_true] at hs
    rw [hmap, if_pos hs.2, Multimap.related_addAll, mem_recordsOf, h.related hs.1,
      update_received_received]
    constructor
    · rintro (⟨rfl, hb⟩ | ⟨hn', hb⟩)
      · exact ⟨Or.inl rfl, hb⟩
      · exact ⟨Or.inr hn', hb⟩
    · rintro ⟨rfl | hn', hb⟩
      · exact Or.inl ⟨rfl, hb⟩
      · exact Or.inr ⟨hn', hb⟩
  · rw [hmap]
    split
    · exact h.proper.addAll _
    · exact h.proper

/-- **When all replies are in and none failed**, the payload is stored once it is recorded. -/
theorem replicated (h : Storing env c key payload nodeBlockMap true blockNodeMap stage)
    (hR : 0 < c.master.R.toNat) (hreceived : ∀ n ∈ nodeBlockMap, stage n = .received) :
    Replicated env (c.record (padded key) blockNodeMap) key payload blockNodeMap := by
  obtain ⟨fuel, c₀, hconfig, hnodes, hfuel, hplaced, hsent, hmem⟩ := h.sent
  have hfits := h.fits
  rw [← hconfig] at hfits hfuel hplaced
  have hRc : c.master.R = c₀.master.R := by rw [MasterServer.R, MasterServer.R, hconfig]
  have hrel : ∀ b n, blockNodeMap.Related b n ↔
      b ∈ (sentTo env fuel key payload c₀ n).map Block.blockNum := by
    intro b n
    rw [h.related rfl, hsent]
    refine ⟨fun hb => hb.2, fun hb => ⟨hreceived n ((hmem n).mpr ?_), hb⟩⟩
    intro hnil
    rw [hnil] at hb
    cases hb
  have hplacement := related_placement hfits hfuel hrel
  have hconfig' : (c.record (padded key) blockNodeMap).master.config = c₀.master.config :=
    hconfig.symm
  refine ⟨⟨?_, by rw [hconfig']; exact hfits, fun b => ?_, fun n b hb => ?_⟩, ?_, ?_⟩
  · show (c.master.keyBlockNodeMap.insert (padded key) blockNodeMap)[padded key]? = _
    rw [getElem?_insert_eq, if_pos rfl]
  · rw [hconfig']
    constructor
    · intro hb
      obtain ⟨n, hn⟩ := h.proper b hb
      exact ((hplacement b n).mp hn).1
    · -- a block with a replica is recorded somewhere
      intro hb
      have hlen := hplaced b.toNat hb
      rw [UInt32.ofNat_toNat] at hlen
      obtain ⟨n, hn⟩ := List.exists_mem_of_length_pos (by rw [hlen, ← hRc]; exact hR)
      exact Multimap.mem_of_related ((hplacement b n).mpr ⟨hb, hn⟩)
  · rw [hconfig', share_eq_sentTo hfits hfuel hrel n, ← hsent]
    exact h.held rfl n ((h.related rfl b n).mp hb).1
  · intro b hb
    rw [hconfig'] at hb
    show _ = c.master.R.toNat
    rw [hRc, ← hplaced b hb]
    refine size_values (MasterServer.selected_placement fuel (padded key) _).nodup fun n => ?_
    rw [hplacement, hfits.toNat_blockNum hb]
    exact and_iff_right hb
  · intro b n hb
    obtain ⟨sn, hsn, -⟩ := (MasterServer.selected_placement fuel (padded key) b).healthy n
      ((hplacement b n).mp hb).2
    exact (hnodes n).mp (mem_of_getElem?_eq_some hsn)

end Storing

end Tasks

end RackKey
