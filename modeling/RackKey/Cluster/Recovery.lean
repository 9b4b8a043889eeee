import RackKey.Cluster.Delete
import RackKey.Cluster.RoundTrip
import RackKey.Cluster.Sync

set_option autoImplicit false

/-! # Restarting the master

A new master rebuilds the map from what the nodes report. `Tracks` is the invariant that makes
this the map of the old master: every key is stored as its map entry says, and no node has an
entry of a key that the map does not record on it. A PUT keeps it when each node recorded for
the key gets a block of the new payload (`Covers`); otherwise a node keeps the blocks of the
old payload (`stale_after_restart`). `keyBlockNodeMap_after_restart` is the result for runs.
-/

namespace RackKey

open Std Words Payloads DiskStorage

namespace Cluster

/-! ## Runs -/

/-- The payload last put under each key. -/
abbrev Values : Type := Bytes → Option Bytes

/-- The runs of PUTs and DELETEs answered OK from a cluster, with health checks in between. Every
PUT meets `cond` in the state it finds. -/
inductive History (env : Env) (Ks : Set Bytes)
    (cond : (c : Cluster) → (fuel : Nat) → (key payload : Bytes) → Prop) (c₀ : Cluster) :
    Cluster → Values → Prop
  | start : History env Ks cond c₀ c₀ fun _ => none
  | put {c c' : Cluster} {vals : Values} {key payload body : Bytes} {reach : Nat → Bool}
      {fuel : Nat} (before : History env Ks cond c₀ c vals) (mem : key ∈ Ks)
      (nonempty : payload ≠ []) (meets : cond c fuel key payload)
      (ok : c.router env reach fuel ⟨.PUT, storeUri key, payload⟩ = some (some ⟨.OK, body⟩, c')) :
      History env Ks cond c₀ c' (Function.update vals key (some payload))
  | delete {c c' : Cluster} {vals : Values} {key body : Bytes} {reach : Nat → Bool} {fuel : Nat}
      (before : History env Ks cond c₀ c vals) (mem : key ∈ Ks)
      (ok : c.router env reach fuel ⟨.DEL, storeUri key, []⟩ = some (some ⟨.OK, body⟩, c')) :
      History env Ks cond c₀ c' (Function.update vals key none)
  | health {c : Cluster} {vals : Values} (before : History env Ks cond c₀ c vals)
      (healthy : Nat → Bool) : History env Ks cond c₀ (c.withHealth healthy) vals

/-- A PUT that sends blocks to every node that the map records for the key, of a payload whose
positions are 32-bit words. -/
structure Covers (env : Env) (c : Cluster) (fuel : Nat) (key payload : Bytes) : Prop where
  fits : FitsPayload c.master.config.dataBlockSize payload
  nodes : ∀ b n, Nested.Holds c.master.keyBlockNodeMap (padded key) b n →
    sentTo env fuel key payload c n ≠ []

/-! ## The invariant -/

structure Tracks (env : Env) (config : MasterConfig) (Ks : Set Bytes) (c : Cluster)
    (vals : Values) : Prop where
  sameConfig : c.master.config = config
  storageNodes : ∀ n, n ∈ c.master.storageNodes ↔
    n ∈ (MasterServer.initialise env config).storageNodes
  ok : ∀ n ∈ c.master.storageNodes, (c.nodes n).Ok config.dataBlockSize
  labelled : ∀ n ∈ c.master.storageNodes, (c.nodes n).diskStorage.Labelled env.sha256_32 Ks
  full : Nested.Full c.master.keyBlockNodeMap
  known : ∀ K b n, Nested.Holds c.master.keyBlockNodeMap K b n → n ∈ c.master.storageNodes
  recorded : ∀ K ∈ c.master.keyBlockNodeMap, ∃ key ∈ Ks, K = padded key ∧ vals key ≠ none
  stored : ∀ key payload, vals key = some payload → key ∈ Ks ∧ ∃ bm, Stores env c key payload bm
  clean : ∀ n ∈ c.master.storageNodes, ∀ key ∈ Ks,
    (∀ b, ¬ Nested.Holds c.master.keyBlockNodeMap (padded key) b n) →
      (c.nodes n).contents (env.sha256_32 (padded key)) = none

variable {env : Env} {config : MasterConfig} {Ks : Set Bytes} {c c' : Cluster} {vals : Values}

/-- A new cluster is in order. -/
theorem tracks_fresh (env : Env) (junk : Junk) (config : MasterConfig) (Ks : Set Bytes)
    {d m : UInt32} (hl : Layout d m) :
    Tracks env config Ks (Cluster.fresh env junk config d m) fun _ => none := by
  have hok := StorageServer.ok_new junk hl config.dataBlockSize
  have hkbn : (Cluster.fresh env junk config d m).master.keyBlockNodeMap = ∅ := rfl
  refine ⟨rfl, fun n => ExtTreeMap.mem_map, fun n _ => hok, fun n _ e he => ?_, ?_, ?_, ?_, ?_, ?_⟩
  · change e ∈ (StorageServer.new junk d m config.dataBlockSize).diskStorage.bat.table at he
    rw [StorageServer.table_new] at he
    cases he
  · rw [hkbn]
    exact Nested.full_empty
  · intro K b n h
    rw [hkbn] at h
    exact absurd h (Nested.not_holds_empty K b n)
  · intro K hK
    rw [hkbn] at hK
    exact absurd hK ExtTreeMap.not_mem_empty
  · intro key payload h
    cases h
  · intro n _ key _ _
    exact StorageServer.contents_new junk d m config.dataBlockSize _

theorem Tracks.withHealth (h : Tracks env config Ks c vals) (healthy : Nat → Bool) :
    Tracks env config Ks (c.withHealth healthy) vals := by
  have hmem : ∀ n, n ∈ (c.withHealth healthy).master.storageNodes ↔ n ∈ c.master.storageNodes :=
    fun n => ExtTreeMap.mem_map
  exact ⟨h.sameConfig, fun n => (hmem n).trans (h.storageNodes n),
    fun n hn => h.ok n ((hmem n).mp hn), fun n hn => h.labelled n ((hmem n).mp hn), h.full,
    fun K b n hb => (hmem n).mpr (h.known K b n hb), h.recorded,
    fun key payload hv => ⟨(h.stored key payload hv).1, (h.stored key payload hv).2.imp
      fun bm hs => hs.congr rfl rfl fun _ => rfl⟩,
    fun n hn => h.clean n ((hmem n).mp hn)⟩

/-! ## Steps -/

/-- A step that changes one key only: its entry of the map, and the contents under its hash. -/
structure OnlyKey (env : Env) (Ks : Set Bytes) (key : Bytes) (c c' : Cluster) : Prop where
  config : c'.master.config = c.master.config
  storageNodes : ∀ n, n ∈ c'.master.storageNodes ↔ n ∈ c.master.storageNodes
  ok : ∀ n ∈ c.master.storageNodes, (c'.nodes n).Ok c.master.config.dataBlockSize
  labelled : ∀ n ∈ c.master.storageNodes, (c'.nodes n).diskStorage.Labelled env.sha256_32 Ks
  others : ∀ K, padded key ≠ K →
    c'.master.keyBlockNodeMap[K]? = c.master.keyBlockNodeMap[K]?
  contents : ∀ n k, k ≠ env.sha256_32 (padded key) →
    (c'.nodes n).contents k = (c.nodes n).contents k

section Steps

variable (hKs : ∀ key ∈ Ks, ClientKey key)
  (hinj : Set.InjOn (fun key => env.sha256_32 (padded key)) Ks)

include hKs hinj

/-- A step that changes one key keeps the invariant when it does so for that key. -/
theorem Tracks.change (h : Tracks env config Ks c vals) {key : Bytes} (hmem : key ∈ Ks)
    (hc : OnlyKey env Ks key c c') (value : Option Bytes)
    (hfull : ∀ bm, c'.master.keyBlockNodeMap[padded key]? = some bm →
      value ≠ none ∧ bm.Proper ∧ ∃ b n, bm.Related b n)
    (hknown : ∀ b n, Nested.Holds c'.master.keyBlockNodeMap (padded key) b n →
      n ∈ c.master.storageNodes)
    (hstored : ∀ payload, value = some payload → ∃ bm, Stores env c' key payload bm)
    (hclean : ∀ n ∈ c.master.storageNodes,
      (∀ b, ¬ Nested.Holds c'.master.keyBlockNodeMap (padded key) b n) →
        (c'.nodes n).contents (env.sha256_32 (padded key)) = none) :
    Tracks env config Ks c' (Function.update vals key value) := by
  have hk := hKs key hmem
  have hother : ∀ K, padded key ≠ K → ∀ b n, Nested.Holds c'.master.keyBlockNodeMap K b n ↔
      Nested.Holds c.master.keyBlockNodeMap K b n := by
    intro K hK b n
    rw [Nested.holds_iff, Nested.holds_iff, hc.others K hK]
  have hpad : ∀ key' ∈ Ks, key' ≠ key → padded key ≠ padded key' :=
    fun key' hmem' hne hp => hne (padded_inj (hKs key' hmem') hk hp.symm)
  have hcontents : ∀ key' ∈ Ks, key' ≠ key → ∀ n,
      (c'.nodes n).contents (env.sha256_32 (padded key'))
        = (c.nodes n).contents (env.sha256_32 (padded key')) :=
    fun key' hmem' hne n => hc.contents n _ fun he => hne (hinj hmem' hmem he)
  refine ⟨hc.config.trans h.sameConfig, fun n => (hc.storageNodes n).trans (h.storageNodes n),
    fun n hn => ?_, fun n hn => hc.labelled n ((hc.storageNodes n).mp hn), ?_, ?_, ?_, ?_, ?_⟩
  · rw [← h.sameConfig]
    exact hc.ok n ((hc.storageNodes n).mp hn)
  · intro K bm hK
    by_cases he : padded key = K
    · subst he
      exact (hfull bm hK).2
    · -- the entries of the other keys are as they were
      rw [hc.others K he] at hK
      exact h.full K bm hK
  · intro K b n hb
    rw [hc.storageNodes]
    by_cases he : padded key = K
    · subst he
      exact hknown b n hb
    · exact h.known K b n ((hother K he b n).mp hb)
  · intro K hK
    by_cases he : padded key = K
    · subst he
      refine ⟨key, hmem, rfl, ?_⟩
      rw [Function.update_self]
      exact (hfull _ (ExtTreeMap.getElem?_eq_some_getElem hK)).1
    · rw [ExtTreeMap.mem_iff_isSome_getElem?, hc.others K he] at hK
      obtain ⟨key', hmem', rfl, hv⟩ := h.recorded K (ExtTreeMap.mem_iff_isSome_getElem?.mpr hK)
      have hne : key' ≠ key := fun hkk => he (by rw [hkk])
      -- another key is recorded as before, and its value is the same
      exact ⟨key', hmem', rfl, by rwa [Function.update_of_ne hne]⟩
  · intro key' payload' hv
    by_cases he : key' = key
    · subst he
      rw [Function.update_self] at hv
      exact ⟨hmem, hstored payload' hv⟩
    · rw [Function.update_of_ne he] at hv
      -- no other key of the set has the hash, so what is stored for it stays
      obtain ⟨hmem', bm, hs⟩ := h.stored key' payload' hv
      exact ⟨hmem', bm, hs.congr (hc.others _ (hpad key' hmem' he)) hc.config
        (hcontents key' hmem' he)⟩
  · intro n hn key' hmem' hno
    have hn := (hc.storageNodes n).mp hn
    by_cases he : key' = key
    · subst he
      exact hclean n hn hno
    · rw [hcontents key' hmem' he]
      exact h.clean n hn key' hmem' fun b hb => hno b ((hother _ (hpad key' hmem' he) b n).mpr hb)

/-- **A PUT that covers the nodes recorded before keeps the invariant.** -/
theorem Tracks.put (h : Tracks env config Ks c vals) {key payload : Bytes} {fuel : Nat}
    {bm : BlockNodeMap} (hmem : key ∈ Ks) (hne : payload ≠ [])
    (hR : 1 ≤ (min config.replicationFactor config.numStorageNodes).toNat)
    (hc : Covers env c fuel key payload) (hd : PutDone env fuel key payload c c' bm) :
    Tracks env config Ks c' (Function.update vals key (some payload)) := by
  have hfits := hc.fits
  have hkbn : ∀ K, c'.master.keyBlockNodeMap[K]?
      = if padded key = K then some bm else c.master.keyBlockNodeMap[K]? := by
    intro K
    rw [hd.master.keyBlockNodeMap]
    exact getElem?_insert_eq _ _ _ _
  have hself : ∀ b n, Nested.Holds c'.master.keyBlockNodeMap (padded key) b n ↔ bm.Related b n :=
    Nested.holds_of_some ((hkbn _).trans (if_pos rfl))
  -- every block has a node, since there is at least one replica
  have hcover : ∀ b < numBlocks c.master.config.dataBlockSize payload,
      ∃ n, bm.Related (UInt32.ofNat b) n := by
    have hR' : 0 < c.master.R.toNat := by
      rw [MasterServer.R, h.sameConfig]
      exact hR
    exact fun b hb => hd.exists_node hfits hR' hb
  have hpos : 0 < numBlocks c.master.config.dataBlockSize payload := by
    rw [numBlocks, Chunks.lt_numChunks_iff hfits.pos, Nat.zero_mul]
    exact List.length_pos_of_ne_nil hne
  refine h.change hKs hinj hmem ⟨hd.master.config, hd.master.mem_storageNodes, hd.ok, ?_, ?_, ?_⟩
    (some payload) ?_ ?_ ?_ ?_
  · intro n hn
    rcases hd.nodes n with heq | ⟨blocks, ds', hw, heq⟩
    · rw [heq]
      exact h.labelled n hn
    · -- the node has written the key, which is one of the set
      obtain ⟨d, m, -, hi⟩ := (h.ok n hn).store
      rw [heq]
      exact (h.labelled n hn).write hi (h.ok n hn).storeKeyLengthMax (hKs key hmem) hmem hw
  · intro K hK
    rw [hkbn, if_neg hK]
  · exact fun n k hk => hd.others n k fun he => absurd he hk
  · intro bm' hbm'
    rw [hkbn, if_pos rfl] at hbm'
    obtain rfl := Option.some.inj hbm'
    obtain ⟨n, hn⟩ := hcover 0 hpos
    exact ⟨Option.some_ne_none payload, hd.proper, _, n, hn⟩
  · exact fun b n hb => hd.known ((hself b n).mp hb)
  · intro payload' he
    obtain rfl := Option.some.inj he
    exact ⟨bm, hd.stores hfits hcover⟩
  · intro n hn hno
    rw [hd.others n _ fun _ b hb => hno b ((hself b n).mpr hb)]
    refine h.clean n hn key hmem fun b hb => ?_
    -- a node recorded before gets a block of the new payload
    obtain ⟨x, hx⟩ := List.exists_mem_of_ne_nil _ (hc.nodes b n hb)
    have hnum := (mem_sentTo hfits).mp (List.mem_map_of_mem hx)
    exact hno x.blockNum ((hself _ _).mpr ((hd.related _ _).mpr hnum.2))

omit hKs hinj in
/-- After a DELETE answered OK each node has deleted the key, or is as before. -/
theorem Tracks.deleted_at (h : Tracks env config Ks c vals) {key : Bytes} {reach : Nat → Bool}
    {bm : BlockNodeMap} (hbm : c.master.keyBlockNodeMap[padded key]? = some bm)
    {r : Response × Cluster} (hd : DeleteRun env reach key c bm r)
    (hall : ∀ b n, bm.Related b n → (deleteAt env reach key n (c.nodes n)).1 = true) (n : Nat) :
    ((∃ b, bm.Related b n) ∧ (r.2.nodes n).Ok c.master.config.dataBlockSize ∧
        (∀ k, (r.2.nodes n).contents k
          = if k = env.sha256_32 (padded key) then none else (c.nodes n).contents k) ∧
        (r.2.nodes n).diskStorage.Labelled env.sha256_32 Ks) ∨
      ((∀ b, ¬ bm.Related b n) ∧ r.2.nodes n = c.nodes n) := by
  -- a node recorded for the key was asked and answered OK; no other node was asked
  by_cases hrel : ∃ b, bm.Related b n
  · obtain ⟨b, hb⟩ := hrel
    have hn := h.known _ b n ((Nested.holds_of_some hbm b n).mpr hb)
    obtain ⟨ds', hdel, hsrv⟩ := deleteAt_ok (hall b n hb)
    obtain ⟨hok', hcontents⟩ := (h.ok n hn).delete hdel
    rw [hd.nodes n ⟨b, hb⟩, hsrv, h.sameConfig]
    exact Or.inl ⟨⟨b, hb⟩, hok', hcontents, (h.labelled n hn).delete hdel⟩
  · exact Or.inr ⟨fun b hb => hrel ⟨b, hb⟩, hd.others n fun b hb => hrel ⟨b, hb⟩⟩

/-- A DELETE answered OK keeps the invariant. -/
theorem Tracks.delete (h : Tracks env config Ks c vals) {key : Bytes} (hmem : key ∈ Ks)
    {reach : Nat → Bool} {bm : BlockNodeMap}
    (hbm : c.master.keyBlockNodeMap[padded key]? = some bm) {r : Response × Cluster}
    (hd : DeleteRun env reach key c bm r) (hok : r.1.status = .OK) :
    Tracks env config Ks r.2 (Function.update vals key none) := by
  rcases hd.answer with ⟨-, hall, hmaster⟩ | ⟨hr, -⟩
  swap
  · rw [hr] at hok
    cases hok
  have hkbn : ∀ K, r.2.master.keyBlockNodeMap[K]?
      = if padded key = K then none else c.master.keyBlockNodeMap[K]? := by
    intro K
    rw [hmaster.keyBlockNodeMap]
    exact getElem?_erase_eq _ _ _
  have hgone : ∀ b n, ¬ Nested.Holds r.2.master.keyBlockNodeMap (padded key) b n :=
    Nested.not_holds_of_none ((hkbn _).trans (if_pos rfl))
  have hcases := h.deleted_at hbm hd hall
  refine h.change hKs hinj hmem ⟨hmaster.config, hmaster.mem_storageNodes, ?_, ?_, ?_, ?_⟩ none
    ?_ ?_ ?_ ?_
  · intro n hn
    rcases hcases n with ⟨-, hok', -, -⟩ | ⟨-, heq⟩
    · exact hok'
    · rw [heq, h.sameConfig]
      exact h.ok n hn
  · intro n hn
    rcases hcases n with ⟨-, -, -, hlabel⟩ | ⟨-, heq⟩
    · exact hlabel
    · rw [heq]
      exact h.labelled n hn
  · intro K hK
    rw [hkbn, if_neg hK]
  · intro n k hk
    rcases hcases n with ⟨-, -, hcontents, -⟩ | ⟨-, heq⟩
    · rw [hcontents, if_neg hk]
    · rw [heq]
  · intro bm' hbm'
    rw [hkbn, if_pos rfl] at hbm'
    cases hbm'
  · exact fun b n hb => absurd hb (hgone b n)
  · intro payload he
    cases he
  · intro n hn _
    rcases hcases n with ⟨-, -, hcontents, -⟩ | ⟨hnot, heq⟩
    · rw [hcontents, if_pos rfl]
    · rw [heq]
      exact h.clean n hn key hmem fun b hb => hnot b ((Nested.holds_of_some hbm b n).mp hb)

/-- **Every state of a run whose PUTs cover the nodes recorded before is in order.** -/
theorem tracks_of_history {junk : Junk} {d m : UInt32} (hl : Layout d m)
    (hR : 1 ≤ (min config.replicationFactor config.numStorageNodes).toNat)
    (h : History env Ks (Covers env) (Cluster.fresh env junk config d m) c vals) :
    Tracks env config Ks c vals := by
  induction h with
  | start => exact tracks_fresh env junk config Ks hl
  | put before mem nonempty meets ok ih =>
      obtain ⟨bm, hd⟩ := put_done (hKs _ mem).toPlainKey meets.fits
        (fun n hn => ih.sameConfig ▸ ih.ok n hn) ok
      exact ih.put hKs hinj mem nonempty hR meets hd
  | @delete c c' vals key body reach fuel before mem ok ih =>
      have hk := (hKs key mem).toPlainKey
      rw [(router_store env reach hk fuel c []).2.2, Option.some.injEq, Prod.mk.injEq,
        Option.some.injEq] at ok
      obtain ⟨hr, rfl⟩ := ok
      cases hbm : c.master.keyBlockNodeMap[padded key]? with
      | none =>
          -- a key that is not in the map is not deleted with an OK
          unfold deleteHandler at hr
          rw [hbm] at hr
          cases hr
      | some bm =>
          have hrun := deleteHandler_run env reach hk hbm fun b n hb =>
            (ih.ok n (ih.known _ b n ((Nested.holds_of_some hbm b n).mpr hb))).keyLengthMax
          exact ih.delete hKs hinj mem hbm hrun (by rw [hr])
  | health before healthy ih => exact ih.withHealth healthy

end Steps

/-! ## The restart -/

/-- What the map holds is a key with its payload. -/
theorem Tracks.entry (h : Tracks env config Ks c vals) {K : Bytes} {b : UInt32} {n : Nat}
    (hb : Nested.Holds c.master.keyBlockNodeMap K b n) :
    ∃ key payload bm, K = padded key ∧ Stores env c key payload bm ∧ bm.Related b n := by
  obtain ⟨bm, hbm, hrel⟩ := (Nested.holds_iff _ _ _ _).mp hb
  have hK : K ∈ c.master.keyBlockNodeMap :=
    mem_of_getElem?_eq_some hbm
  obtain ⟨key, -, rfl, hv⟩ := h.recorded K hK
  obtain ⟨payload, hpayload⟩ := Option.ne_none_iff_exists'.mp hv
  obtain ⟨-, bm', hs⟩ := h.stored key payload hpayload
  obtain rfl : bm = bm' := Option.some.inj (hbm.symm.trans hs.recorded)
  exact ⟨key, payload, bm, rfl, hs, hrel⟩

/-- **The nodes report what the map records.** -/
theorem Tracks.reports (h : Tracks env config Ks c vals)
    (hinj : Set.InjOn (fun key => env.sha256_32 (padded key)) Ks) {n : Nat}
    (hn : n ∈ c.master.storageNodes) :
    (c.nodes n).Reports env.sha256_32 ∧ ∀ K b,
      (K ∈ (c.nodes n).diskStorage.getKeys ∧ b ∈ (c.nodes n).reported env.sha256_32 K) ↔
        Nested.Holds c.master.keyBlockNodeMap K b n := by
  have ho := h.ok n hn
  have hd : (c.nodes n).dataBlockSize = c.master.config.dataBlockSize := by
    rw [ho.dataBlockSize, h.sameConfig]
  -- a key of the table is recorded on the node
  have hkey : ∀ K ∈ (c.nodes n).diskStorage.getKeys, ∃ key payload bm b, K = padded key ∧
      Stores env c key payload bm ∧ bm.Related b n := by
    intro K hK
    obtain ⟨key, hmem, rfl, hsome⟩ := (mem_getKeys (h.labelled n hn) hinj).mp hK
    by_contra hnone
    refine hsome (h.clean n hn key hmem fun b hb => ?_)
    obtain ⟨key', payload, bm, hp, hs, hrel⟩ := h.entry hb
    exact hnone ⟨key', payload, bm, b, hp, hs, hrel⟩
  refine ⟨⟨ho.ready, ho.backed, ho.storeKeyLengthMax, fun K hK => ?_⟩, fun K b => ⟨?_, ?_⟩⟩
  · obtain ⟨key, payload, bm, b, rfl, hs, hrel⟩ := hkey K hK
    obtain ⟨raw, blockNums, hraw, hparse, -, hlt, hnums⟩ := hs.reported hrel hd
    exact ⟨raw, blockNums, hraw, hparse, List.ne_nil_of_mem ((hnums b).mpr hrel), hlt⟩
  · rintro ⟨hK, hb⟩
    obtain ⟨key, payload, bm, b', rfl, hs, hrel⟩ := hkey K hK
    obtain ⟨raw, blockNums, -, -, hrep, -, hnums⟩ := hs.reported hrel hd
    rw [hrep] at hb
    exact (Nested.holds_of_some hs.recorded b n).mpr ((hnums b).mp hb)
  · intro hb
    obtain ⟨key, payload, bm, rfl, hs, hrel⟩ := h.entry hb
    obtain ⟨raw, blockNums, hraw, -, hrep, -, hnums⟩ := hs.reported hrel hd
    refine ⟨?_, by rw [hrep]; exact (hnums b).mpr hrel⟩
    -- the entry that holds the share carries the key
    have hmem : padded key ∈ c.master.keyBlockNodeMap :=
      mem_of_getElem?_eq_some hs.recorded
    obtain ⟨key', hmem', hp, -⟩ := h.recorded _ hmem
    refine (mem_getKeys (h.labelled n hn) hinj).mpr ⟨key', hmem', hp, ?_⟩
    rw [← hp]
    show (c.nodes n).contents _ ≠ none
    rw [hraw]
    exact Option.some_ne_none raw

/-- A GET at a master with the same map over the same nodes answers the last payload. -/
theorem Tracks.get_restarted (h : Tracks env config Ks c vals)
    (hKs : ∀ key ∈ Ks, ClientKey key)
    (hkbn : c'.master.keyBlockNodeMap = c.master.keyBlockNodeMap)
    (hconfig : c'.master.config = config)
    (hstorage : ∀ n : Nat, n ∈ c'.master.storageNodes ↔ n ∈ c.master.storageNodes)
    (hafter : ∀ n, StorageServer.AfterReads (c.nodes n) (c'.nodes n)) {key payload : Bytes}
    (hv : vals key = some payload) :
    ((c'.withHealth fun _ => true).getHandler env (fun _ => true) (padded key)).1
      = some ⟨.OK, payload⟩ := by
  obtain ⟨hmem, bm, hs⟩ := h.stored key payload hv
  have hs' : Stores env (c'.withHealth fun _ => true) key payload bm :=
    hs.congr (by rw [← hkbn]; rfl) (hconfig.trans h.sameConfig.symm) fun n => (hafter n).contents _
  refine hs'.getHandler (hKs key hmem).toPlainKey (fun n hn _ => ?_) (fun _ _ => rfl) fun b hb => ?_
  · have ho := h.ok n ((hstorage n).mp (ExtTreeMap.mem_map.mp hn))
    rw [show (c'.withHealth fun _ => true).master.config = config from hconfig]
    exact (hafter n).readable ho.toReadable
  · obtain ⟨n, hn⟩ := (h.full _ bm hs.recorded).1 b hb
    have hknown := h.known _ b n ((Nested.holds_of_some hs.recorded b n).mpr hn)
    exact ⟨n, hn, (isHealthy_withHealth c' _ n).mpr ⟨(hstorage n).mpr hknown, rfl⟩⟩

/-- **A restarted master has the map of the old one**, whatever the order of the answers, and
answers every key with its last payload; no node has an entry that the map does not record. -/
theorem keyBlockNodeMap_after_restart (hKs : ∀ key ∈ Ks, ClientKey key)
    (hinj : Set.InjOn (fun key => env.sha256_32 (padded key)) Ks) {junk : Junk} {d m : UInt32}
    (hl : Layout d m) (hR : 1 ≤ (min config.replicationFactor config.numStorageNodes).toNat)
    (h : History env Ks (Covers env) (Cluster.fresh env junk config d m) c vals)
    {answers : List Nat} (hanswers : ∀ n, n ∈ answers ↔ n ∈ c.master.storageNodes)
    (reach : Nat → Bool) (hreach : ∀ n ∈ answers, reach n = true) :
    ∃ c', Cluster.start env reach config c.nodes answers = some c' ∧
      c'.master.keyBlockNodeMap = c.master.keyBlockNodeMap ∧
      (∀ key payload, vals key = some payload → ∀ fuel, ∃ c'',
        (c'.withHealth fun _ => true).router env (fun _ => true) fuel ⟨.GET, storeUri key, []⟩
          = some (some ⟨.OK, payload⟩, c'')) ∧
      ∀ n ∈ c.master.storageNodes, ∀ key ∈ Ks,
        (∀ b, ¬ Nested.Holds c.master.keyBlockNodeMap (padded key) b n) →
          (c.nodes n).contents (env.sha256_32 (padded key)) = none := by
  have ht := tracks_of_history hKs hinj hl hR h
  -- the new master starts with an empty map and merges the reports of the nodes
  obtain ⟨c', hstart, hfull, hholds, hconfig, hstorage, hafter⟩ :=
    syncWithStorageNodes_spec env answers
      (c := ⟨MasterServer.initialise env config, c.nodes⟩) Nested.full_empty fun n hn =>
        ⟨hreach n hn, (ht.reports hinj ((hanswers n).mp hn)).1⟩
  have hempty : ∀ K b n,
      ¬ Nested.Holds (MasterServer.initialise env config).keyBlockNodeMap K b n :=
    Nested.not_holds_empty
  have hkbn : c'.master.keyBlockNodeMap = c.master.keyBlockNodeMap := by
    refine Nested.ext_holds hfull ht.full fun K b n => ?_
    rw [hholds, or_iff_right (hempty K b n)]
    constructor
    · rintro ⟨hn, hK⟩
      exact ((ht.reports hinj ((hanswers n).mp hn)).2 K b).mp hK
    · intro hb
      have hn := ht.known K b n hb
      exact ⟨(hanswers n).mpr hn, ((ht.reports hinj hn).2 K b).mpr hb⟩
  refine ⟨c', hstart, hkbn, fun key payload hv fuel => ?_, ht.clean⟩
  have hget := ht.get_restarted hKs hkbn hconfig
    (fun n => (hstorage n).trans (ht.storageNodes n).symm) hafter hv
  rw [(router_store env (fun _ => true) (hKs key (ht.stored key payload hv).1).toPlainKey
    fuel _ []).2.1]
  exact ⟨_, congrArg some (Prod.ext hget rfl)⟩

theorem Tracks.covers (h : Tracks env config Ks c vals) {fuel : Nat} {key payload : Bytes}
    (hfits : FitsPayload c.master.config.dataBlockSize payload)
    (hall : ∀ n ∈ c.master.storageNodes, sentTo env fuel key payload c n ≠ []) :
    Covers env c fuel key payload :=
  ⟨hfits, fun b n hb => hall n (h.known _ b n hb)⟩

/-- A payload is put under `a` and overwritten, another one is put under `b` and deleted. -/
theorem history_sample :
    ∃ c vals, History (Env.ofHash sampleHash) sampleKeys (Covers (Env.ofHash sampleHash))
        sampleCluster c vals ∧ vals [97] = some sampleOverwrite ∧ vals [98] = none := by
  have hall : (do
      let r₁ ← sampleCluster.router (Env.ofHash sampleHash) (fun _ => true) 100
        ⟨.PUT, storeUri [97], samplePayload⟩
      let r₂ ← r₁.2.router (Env.ofHash sampleHash) (fun _ => true) 100
        ⟨.PUT, storeUri [97], sampleOverwrite⟩
      let r₃ ← r₂.2.router (Env.ofHash sampleHash) (fun _ => true) 100
        ⟨.PUT, storeUri [98], samplePayload⟩
      let r₄ ← r₃.2.router (Env.ofHash sampleHash) (fun _ => true) 100
        ⟨.DEL, storeUri [98], []⟩
      some (r₁.1, r₂.1, r₃.1, r₄.1,
        [2, 0, 1].all fun n =>
          sentTo (Env.ofHash sampleHash) 100 [97] sampleOverwrite r₁.2 n ≠ [] ∧
            sentTo (Env.ofHash sampleHash) 100 [98] samplePayload r₂.2 n ≠ []))
      = some (some ⟨.OK, []⟩, some ⟨.OK, []⟩, some ⟨.OK, []⟩, some ⟨.OK, []⟩, true) := by
    decide +kernel
  simp only [Option.bind_eq_bind, Option.bind_eq_some_iff, Option.some.injEq, Prod.mk.injEq,
    List.all_eq_true, decide_eq_true_eq] at hall
  obtain ⟨⟨_, c₁⟩, h₁, ⟨_, c₂⟩, h₂, ⟨_, c₃⟩, h₃, ⟨_, c₄⟩, h₄, rfl, rfl, rfl, rfl, hsent⟩ := hall
  have hput : History (Env.ofHash sampleHash) sampleKeys (Covers (Env.ofHash sampleHash))
      sampleCluster c₁ _ :=
    .put .start (Or.inl rfl) (by decide)
      ⟨⟨by decide, by decide⟩, fun b n hb => absurd hb (Nested.not_holds_empty _ b n)⟩ h₁
  have ht₁ := tracks_of_history clientKey_sampleKeys injOn_sampleKeys layout_sample (by decide) hput
  have hoverwrite := hput.put (Or.inl rfl) (by decide)
    (ht₁.covers (by rw [ht₁.sameConfig]; exact ⟨by decide, by decide⟩) fun n hn =>
      (hsent n ((mem_storageNodes_sample n).mp ((ht₁.storageNodes n).mp hn))).1) h₂
  have ht₂ := tracks_of_history clientKey_sampleKeys injOn_sampleKeys layout_sample (by decide)
    hoverwrite
  have hother := hoverwrite.put (Or.inr rfl) (by decide)
    (ht₂.covers (by rw [ht₂.sameConfig]; exact ⟨by decide, by decide⟩) fun n hn =>
      (hsent n ((mem_storageNodes_sample n).mp ((ht₂.storageNodes n).mp hn))).2) h₃
  exact ⟨c₄, _, hother.delete (Or.inr rfl) h₄, by decide, by decide⟩

theorem keyBlockNodeMap_after_restart_sample :
    ∃ c vals c', History (Env.ofHash sampleHash) sampleKeys (Covers (Env.ofHash sampleHash))
        sampleCluster c vals ∧ vals [97] = some sampleOverwrite ∧ vals [98] = none ∧
      Cluster.start (Env.ofHash sampleHash) (fun _ => true) sampleConfig c.nodes [2, 0, 1]
        = some c' ∧ c'.master.keyBlockNodeMap = c.master.keyBlockNodeMap := by
  obtain ⟨c, vals, hrun, hoverwritten, hdeleted⟩ := history_sample
  have ht := tracks_of_history clientKey_sampleKeys injOn_sampleKeys layout_sample (by decide) hrun
  obtain ⟨c', hstart, hsame, -⟩ := keyBlockNodeMap_after_restart clientKey_sampleKeys
    injOn_sampleKeys layout_sample (by decide) hrun
    (fun n => ((ht.storageNodes n).trans (mem_storageNodes_sample n)).symm) (fun _ => true)
    (fun _ _ => rfl)
  exact ⟨c, vals, c', hrun, hoverwritten, hdeleted, hstart, hsame⟩

/-- Three blocks on all nodes, then one block on two of them: the third node keeps what it had,
the restarted master takes it up, and a GET answers the two payloads mixed. -/
theorem stale_after_restart :
    ∃ c vals c' c'', History (Env.ofHash sampleHash) {[97]} (fun _ _ _ _ => True)
        sampleCluster c vals ∧ vals [97] = some [21, 22, 23] ∧
      Cluster.start (Env.ofHash sampleHash) (fun _ => true) sampleConfig c.nodes [0, 1, 2]
        = some c' ∧ c'.master.keyBlockNodeMap ≠ c.master.keyBlockNodeMap ∧
      (c'.withHealth fun _ => true).router (Env.ofHash sampleHash) (fun _ => true) 100
        ⟨.GET, storeUri [97], []⟩ = some (some ⟨.OK, [21, 22, 23, 5, 6, 7, 8]⟩, c'') := by
  have hall : (do
      let r₁ ← sampleCluster.router (Env.ofHash sampleHash) (fun _ => true) 100
        ⟨.PUT, storeUri [97], [1, 2, 3, 4, 5, 6, 7, 8, 9, 10]⟩
      let r₂ ← r₁.2.router (Env.ofHash sampleHash) (fun _ => true) 100
        ⟨.PUT, storeUri [97], [21, 22, 23]⟩
      let c' ← Cluster.start (Env.ofHash sampleHash) (fun _ => true) sampleConfig r₂.2.nodes
        [0, 1, 2]
      let r₃ ← (c'.withHealth fun _ => true).router (Env.ofHash sampleHash) (fun _ => true) 100
        ⟨.GET, storeUri [97], []⟩
      some (r₁.1, r₂.1, r₃.1,
        decide (Nested.Holds c'.master.keyBlockNodeMap (padded [97]) 1 0),
        decide (Nested.Holds r₂.2.master.keyBlockNodeMap (padded [97]) 1 0)))
      = some (some ⟨.OK, []⟩, some ⟨.OK, []⟩, some ⟨.OK, [21, 22, 23, 5, 6, 7, 8]⟩, true,
          false) := by
    decide +kernel
  simp only [Option.bind_eq_bind, Option.bind_eq_some_iff, Option.some.injEq, Prod.mk.injEq,
    decide_eq_true_eq, decide_eq_false_iff_not] at hall
  obtain ⟨⟨_, c₁⟩, h₁, ⟨_, c⟩, h₂, c', hstart, ⟨_, c''⟩, h₃, rfl, rfl, rfl, hnew, hold⟩ := hall
  refine ⟨c, _, c', c'', .put (.put .start rfl (by decide) trivial h₁) rfl (by decide) trivial h₂,
    by decide, hstart, fun he => hold ?_, h₃⟩
  rw [← he]
  exact hnew

end Cluster

end RackKey
