import RackKey.Cluster.Counts
import RackKey.Cluster.RoundTrip
import RackKey.Lib.Runs

set_option autoImplicit false

/-! # The count of blocks on a node

`blocksStored` of a node is adjusted when the node answers a request, by the blocks that the map
records for the key at that time, and the map is changed when all nodes have answered OK. The two
stay together over the requests that meet `KeepsCount` (`accounted_reached`), and part at any
other.
-/

namespace RackKey

open Std Words Payloads

namespace Cluster

variable {env : Env} {reach : Nat → Bool}

/-! ## When a request keeps the counts -/

/-- A PUT keeps the counts: if all its nodes answer, each node on record for the key is among
them and the counts stay 32-bit words; otherwise each node that answers is sent as many blocks as
are on record. -/
def PutKeepsCount (env : Env) (reach : Nat → Bool) (fuel : Nat) (c : Cluster)
    (key payload : Bytes) : Prop :=
  ∀ nodeBlockMap, c.distribute env fuel key payload = some nodeBlockMap →
    let g := fun n => nodeBlockMap.getD n []
    ((∀ n ∈ nodeBlockMap, Acks env reach c n (putRequest key g n)) →
      ∀ n ∈ c.master.storageNodes,
        c.master.pairsOn n + (g n).length < 2 ^ 32 + c.master.recordedOn key n ∧
          (n ∉ nodeBlockMap → c.master.recordedOn key n = 0)) ∧
      ((∃ n ∈ nodeBlockMap, ¬ Acks env reach c n (putRequest key g n)) →
        ∀ n ∈ nodeBlockMap, Acks env reach c n (putRequest key g n) →
          c.master.recordedOn key n = (g n).length)

/-- A DELETE keeps the counts: all nodes on record for the key answer, or none does. -/
def DeleteKeepsCount (env : Env) (reach : Nat → Bool) (c : Cluster) (key : Bytes) : Prop :=
  ∀ bm, c.master.keyBlockNodeMap[key]? = some bm →
    (∀ n ∈ allNodeIds bm, Acks env reach c n (deleteRequest key n)) ∨
      ∀ n ∈ allNodeIds bm, n ∈ c.master.storageNodes →
        ¬ Acks env reach c n (deleteRequest key n)

theorem exists_stored {c : Cluster} {n : Nat} (hn : n ∈ c.master.storageNodes) :
    ∃ k, c.stored n = some k := by
  unfold stored
  rw [ExtTreeMap.getElem?_eq_some_getElem hn]
  exact ⟨_, rfl⟩

theorem mem_of_stored {c : Cluster} {n : Nat} {k : UInt32} (h : c.stored n = some k) :
    n ∈ c.master.storageNodes := by
  obtain ⟨sn, hsn, -⟩ := Option.map_eq_some_iff.mp h
  exact mem_of_getElem?_eq_some hsn

section Step

variable {key : Bytes} {request : Nat → Request} {added : Nat → Nat} {ns : List Nat}
  {c c₁ c' : Cluster}

/-- Requests that are all answered, after which the map records `added` for the key. -/
theorem Counted.accounted_iff_of_all (h : Counted env reach key request added ns c c₁)
    (hc : c.Accounted) (hall : ∀ n ∈ ns, Acks env reach c n (request n))
    (hnone : ∀ n, n ∉ ns → added n = 0) (hstored : ∀ n, c'.stored n = c₁.stored n)
    (hpairs : ∀ n, c'.master.pairsOn n + c.master.recordedOn key n
      = c.master.pairsOn n + added n) :
    c'.Accounted ↔ ∀ n ∈ c.master.storageNodes,
      c.master.pairsOn n + added n < 2 ^ 32 + c.master.recordedOn key n ∧
        (n ∉ ns → c.master.recordedOn key n = 0) := by
  have hle := fun n => c.master.recordedOn_le_pairsOn key n
  constructor
  · intro hc' n hn
    obtain ⟨k, hk⟩ := exists_stored hn
    have hcount := hc n k hk
    have hp := hpairs n
    have hafter := h.stored n
    rw [hk, ← hstored] at hafter
    by_cases hmem : n ∈ ns
    · -- a node asked stores what it had, less the old blocks, plus the new
      rw [if_pos ⟨hmem, hall n hmem⟩] at hafter
      have hcount' := hc' n _ hafter
      rw [toNat_count hcount (hle n)] at hcount'
      have hlt := Nat.mod_lt (c.master.pairsOn n - c.master.recordedOn key n + added n)
        (show 0 < 2 ^ 32 by decide)
      have hlen := hle n
      exact ⟨by omega, fun hno => absurd hmem hno⟩
    · -- the count of any other node is as it was, so nothing may be on record there
      rw [if_neg fun hm => hmem hm.1] at hafter
      have hcount' := hc' n _ hafter
      have hadded := hnone n hmem
      have hlt := k.toNat_lt
      exact ⟨by omega, fun _ => by omega⟩
  · -- a node that reports a count afterwards reported one before
    intro hcond n k' hk'
    have hn : n ∈ c.master.storageNodes := by
      have hafter := h.stored n
      rw [← hstored, hk'] at hafter
      split at hafter
      · obtain ⟨k, hk, -⟩ := Option.map_eq_some_iff.mp hafter.symm
        exact mem_of_stored hk
      · exact mem_of_stored hafter.symm
    obtain ⟨k, hk⟩ := exists_stored hn
    obtain ⟨hlt, hrecorded⟩ := hcond n hn
    have hcount := hc n k hk
    have hp := hpairs n
    have hafter := h.stored n
    rw [hk, ← hstored, hk'] at hafter
    by_cases hmem : n ∈ ns
    · rw [if_pos ⟨hmem, hall n hmem⟩] at hafter
      obtain rfl := Option.some.inj hafter
      have hlen := hle n
      rw [toNat_count hcount (hle n), Nat.mod_eq_of_lt (by omega)]
      omega
    · rw [if_neg fun hm => hmem hm.1] at hafter
      obtain rfl := Option.some.inj hafter
      have hadded := hnone n hmem
      have hzero := hrecorded hmem
      omega

/-- Requests after which the map is as it was. -/
theorem Counted.accounted_iff (h : Counted env reach key request added ns c c₁)
    (hc : c.Accounted) (hadded : ∀ n, added n < 2 ^ 32) :
    c₁.Accounted ↔ ∀ n ∈ ns, n ∈ c.master.storageNodes → Acks env reach c n (request n) →
      c.master.recordedOn key n = added n := by
  have hle := fun n => c.master.recordedOn_le_pairsOn key n
  have hpairs : ∀ n, c₁.master.pairsOn n = c.master.pairsOn n := fun n => by
    unfold MasterServer.pairsOn
    rw [h.keyBlockNodeMap]
  constructor
  · intro hc' n hmem hn hacks
    obtain ⟨k, hk⟩ := exists_stored hn
    have hcount := hc n k hk
    have hlt := k.toNat_lt
    have hafter := h.stored n
    rw [hk, if_pos ⟨hmem, hacks⟩] at hafter
    have hcount' := hc' n _ hafter
    rw [toNat_count hcount (hle n), hpairs] at hcount'
    have hlen := hle n
    have hlt' := hadded n
    omega
  · intro hcond n k' hk'
    have hafter := h.stored n
    rw [hk'] at hafter
    split at hafter
    · -- the node answered: its count changed and the map did not
      rename_i hm
      obtain ⟨k, hk, rfl⟩ := Option.map_eq_some_iff.mp hafter.symm
      have hcount := hc n k hk
      have hlt := k.toNat_lt
      have hsame := hcond n hm.1 (mem_of_stored hk) hm.2
      have hlen := hle n
      rw [toNat_count hcount (hle n), hpairs, Nat.mod_eq_of_lt (by omega)]
      omega
    · rw [hpairs]
      exact hc n k' hafter.symm

end Step

/-- The blocks sent to a node have distinct numbers, fewer than `2 ^ 32` of them. -/
theorem nodup_sentTo (env : Env) (fuel : Nat) (key payload : Bytes) (c : Cluster) (n : Nat) :
    ((sentTo env fuel key payload c n).map Block.blockNum).Nodup ∧
      (sentTo env fuel key payload c n).length < 2 ^ 32 := by
  unfold sentTo
  cases hbuild : c.master.buildBlocks (padded key) payload (UInt32.ofNat payload.length) fuel
      0 0 with
  | none => exact ⟨List.nodup_nil, Nat.two_pow_pos 32⟩
  | some blocks =>
      have hsub : (c.master.assigned env fuel (padded key) blocks n).Sublist blocks :=
        List.filter_sublist
      have hle := MasterServer.length_buildBlocks_le hbuild
      have hlt := (UInt32.ofNat payload.length).toNat_lt
      refine ⟨(MasterServer.nodup_buildBlocks hbuild).sublist (hsub.map _), ?_⟩
      have := hsub.length_le
      dsimp only
      omega

/-- A key of the map weighs what is put on record for it. -/
theorem pairsOn_record {c d : Cluster} (hd : d.master.keyBlockNodeMap = c.master.keyBlockNodeMap)
    (key : Bytes) (blockNodeMap : Multimap UInt32 Nat) (n : Nat) :
    (d.record key blockNodeMap).master.pairsOn n + c.master.recordedOn key n
      = c.master.pairsOn n + Multimap.countOf blockNodeMap n := by
  have hmap : (d.record key blockNodeMap).master.keyBlockNodeMap
      = c.master.keyBlockNodeMap.insert key blockNodeMap := by
    rw [← hd]
    rfl
  unfold MasterServer.pairsOn MasterServer.recordedOn
  rw [hmap]
  exact Tally.total_insert _ _ _ _

/-- The condition speaks of the blocks sent. -/
theorem putKeepsCount_iff {fuel : Nat} {c : Cluster} {key payload : Bytes}
    {nodeBlockMap : ExtTreeMap Nat (List Block)}
    (h : c.distribute env fuel key payload = some nodeBlockMap) :
    PutKeepsCount env reach fuel c key payload ↔
      ((∀ n ∈ nodeBlockMap,
          Acks env reach c n (putRequest key (fun n => nodeBlockMap.getD n []) n)) →
        ∀ n ∈ c.master.storageNodes,
          c.master.pairsOn n + (nodeBlockMap.getD n []).length
              < 2 ^ 32 + c.master.recordedOn key n ∧
            (n ∉ nodeBlockMap → c.master.recordedOn key n = 0)) ∧
        ((∃ n ∈ nodeBlockMap,
            ¬ Acks env reach c n (putRequest key (fun n => nodeBlockMap.getD n []) n)) →
          ∀ n ∈ nodeBlockMap,
            Acks env reach c n (putRequest key (fun n => nodeBlockMap.getD n []) n) →
              c.master.recordedOn key n = (nodeBlockMap.getD n []).length) := by
  refine ⟨fun hk => hk nodeBlockMap h, fun hk nbm hnbm => ?_⟩
  obtain rfl := Option.some.inj (h.symm.trans hnbm)
  exact hk

/-- A map that records the blocks sent to a node counts them. -/
theorem countOf_sent {m : Multimap UInt32 Nat} {sent : List Block} {n : Nat} {asked : Prop}
    (hnodup : (sent.map Block.blockNum).Nodup) (hasked : sent ≠ [] → asked)
    (hrelated : ∀ b, m.Related b n ↔
      (asked ∧ b ∈ sent.map Block.blockNum) ∨ Multimap.Related ∅ b n) :
    m.countOf n = sent.length := by
  rw [Multimap.countOf_eq_length hnodup, List.length_map]
  intro b
  rw [hrelated]
  constructor
  · rintro (hb | hb)
    · exact hb.2
    · exact absurd (Multimap.mem_of_related hb) ExtTreeMap.not_mem_empty
  · intro hb
    refine Or.inl ⟨hasked fun hnil => ?_, hb⟩
    rw [hnil] at hb
    cases hb

/-- **A PUT keeps the counts exactly when it meets the condition.** -/
theorem putHandler_accounted_iff {c : Cluster} (hc : c.Accounted) {fuel : Nat}
    {key payload : Bytes} {r : Response × Cluster}
    (h : c.putHandler env reach fuel (padded key) payload = some r) :
    r.2.Accounted ↔ PutKeepsCount env reach fuel c (padded key) payload := by
  unfold putHandler at h
  simp only [Option.bind_eq_bind, Option.bind_eq_some_iff] at h
  obtain ⟨nodeBlockMap, hdistribute, hr⟩ := h
  obtain ⟨-, hsentTo, hmem⟩ := distribute_spec hdistribute
  set g := fun n => nodeBlockMap.getD n [] with hg
  have hgs : ∀ n, g n = sentTo env fuel key payload c n := hsentTo
  have hkeys : ∀ n, n ∈ env.order nodeBlockMap.keys ↔ n ∈ nodeBlockMap := fun n => by
    rw [(env.order_perm _).mem_iff, ExtTreeMap.mem_keys]
  have hlen : ∀ n, (g n).length < 2 ^ 32 := fun n => by
    rw [hgs]
    exact (nodup_sentTo env fuel key payload c n).2
  have hnone : ∀ n, n ∉ env.order nodeBlockMap.keys → (g n).length = 0 := fun n hn => by
    rw [hkeys, hmem, not_not] at hn
    rw [hgs, hn]
    rfl
  obtain ⟨hcounted, hsuccess, hrelated⟩ := foldl_sendBlocks_counted env reach
    (padded key) g ((env.order_perm _).nodup_iff.mpr nodeBlockMap.nodup_keys) ⟨true, ∅, c⟩
  set s := (env.order nodeBlockMap.keys).foldl
    (fun s n => sendBlocks env reach (padded key) s n (g n)) ⟨true, ∅, c⟩ with hs
  have hcounted : Counted env reach (padded key) (putRequest (padded key) g)
      (fun n => (g n).length) (env.order nodeBlockMap.keys) c s.cluster := hcounted
  rw [putKeepsCount_iff hdistribute]
  simp only [hkeys] at hsuccess hrelated
  -- all nodes answered, and the map records what was sent; or the map stays as it was
  by_cases hok : s.success = true
  · rw [if_pos hok] at hr
    obtain rfl := Option.some.inj hr
    have hall := (hsuccess.mp hok).2
    have hcount : ∀ n, Multimap.countOf s.blockNodeMap n = (g n).length := by
      intro n
      have hnodup : ((g n).map Block.blockNum).Nodup := by
        rw [hgs]
        exact (nodup_sentTo env fuel key payload c n).1
      refine countOf_sent hnodup (fun hsent => ?_) fun b => hrelated hall b n
      rw [hgs] at hsent
      exact (hmem n).mpr hsent
    have hpairs : ∀ n, (s.cluster.record (padded key) s.blockNodeMap).master.pairsOn n
        + c.master.recordedOn (padded key) n = c.master.pairsOn n + (g n).length := fun n => by
      rw [← hcount]
      exact pairsOn_record hcounted.keyBlockNodeMap _ _ n
    have hstored : ∀ n, (s.cluster.record (padded key) s.blockNodeMap).stored n
        = s.cluster.stored n := fun _ => rfl
    rw [hcounted.accounted_iff_of_all hc (fun n hn => hall n ((hkeys n).mp hn)) hnone hstored
      hpairs]
    simp only [hkeys]
    constructor
    · intro hkeeps
      refine ⟨fun _ => hkeeps, ?_⟩
      rintro ⟨n, hn, hno⟩
      exact absurd (hall n hn) hno
    · exact fun hkeeps => hkeeps.1 hall
  · rw [if_neg hok] at hr
    obtain rfl := Option.some.inj hr
    rw [hcounted.accounted_iff hc hlen]
    simp only [hkeys]
    have hsome : ∃ n ∈ nodeBlockMap, ¬ Acks env reach c n (putRequest (padded key) g n) := by
      by_contra hnot
      refine hok (hsuccess.mpr ⟨trivial, fun n hn => ?_⟩)
      by_contra hno
      exact hnot ⟨n, hn, hno⟩
    constructor
    · intro hkeeps
      refine ⟨fun hall => ?_, fun _ n hn hacks => ?_⟩
      · obtain ⟨n, hn, hno⟩ := hsome
        exact absurd (hall n hn) hno
      · have hsent := (hmem n).mp hn
        exact hkeeps n hn (known_of_sentTo hsent) hacks
    · exact fun hkeeps n hn _ hacks => hkeeps.2 hsome n hn hacks

theorem deleteKeepsCount_iff {c : Cluster} {key : Bytes} {bm : Multimap UInt32 Nat}
    (hbm : c.master.keyBlockNodeMap[key]? = some bm) :
    DeleteKeepsCount env reach c key ↔
      (∀ n ∈ allNodeIds bm, Acks env reach c n (deleteRequest key n)) ∨
        ∀ n ∈ allNodeIds bm, n ∈ c.master.storageNodes →
          ¬ Acks env reach c n (deleteRequest key n) := by
  refine ⟨fun hk => hk bm hbm, fun hk bm' hbm' => ?_⟩
  obtain rfl := Option.some.inj (hbm.symm.trans hbm')
  exact hk

/-- The nodes that are asked are those with blocks on record. -/
theorem not_mem_allNodeIds_iff {c : Cluster} {key : Bytes} {bm : Multimap UInt32 Nat}
    (hbm : c.master.keyBlockNodeMap[key]? = some bm) (n : Nat) :
    n ∉ allNodeIds bm ↔ c.master.recordedOn key n = 0 := by
  have hrecorded : c.master.recordedOn key n = bm.countOf n := by
    unfold MasterServer.recordedOn Tally.weightOf
    rw [hbm]
    rfl
  rw [hrecorded, mem_allNodeIds, Multimap.countOf_eq_zero_iff, not_exists]

/-- **So does a DELETE.** -/
theorem deleteHandler_accounted_iff {c : Cluster} (hc : c.Accounted) (reach : Nat → Bool)
    (key : Bytes) :
    (c.deleteHandler env reach key).2.Accounted ↔ DeleteKeepsCount env reach c key := by
  unfold deleteHandler
  cases hbm : c.master.keyBlockNodeMap[key]? with
  | none =>
      refine iff_of_true hc fun bm h => ?_
      rw [hbm] at h
      cases h
  | some bm =>
      have hkeys : ∀ n, n ∈ env.order (allNodeIds bm).toList ↔ n ∈ allNodeIds bm := fun n => by
        rw [(env.order_perm _).mem_iff, ExtTreeSet.mem_toList]
      have hzero := not_mem_allNodeIds_iff hbm
      obtain ⟨hcounted, hsuccess⟩ := foldl_deleteBlocks_counted env reach key
        ((env.order_perm _).nodup_iff.mpr (nodup_toList _)) (true, c)
      dsimp only
      set s := (env.order (allNodeIds bm).toList).foldl (deleteBlocks env reach key) (true, c)
        with hs
      have hcounted : Counted env reach key (deleteRequest key) (fun _ => 0)
          (env.order (allNodeIds bm).toList) c s.2 := hcounted
      simp only [hkeys] at hsuccess
      rw [deleteKeepsCount_iff hbm]
      -- all nodes answered, and the key is erased; or the map stays as it was
      by_cases hok : s.1 = true
      · rw [if_pos hok]
        have hall := (hsuccess.mp hok).2
        refine iff_of_true ?_ (Or.inl hall)
        have hstored : ∀ n, stored { s.2 with
            master :=
              { s.2.master with keyBlockNodeMap := s.2.master.keyBlockNodeMap.erase key } } n
            = s.2.stored n := fun _ => rfl
        refine (hcounted.accounted_iff_of_all hc (fun n hn => hall n ((hkeys n).mp hn))
          (fun _ _ => rfl) hstored fun n => ?_).mpr fun n hn => ?_
        · unfold MasterServer.pairsOn MasterServer.recordedOn
          dsimp only
          rw [hcounted.keyBlockNodeMap]
          exact Tally.total_erase _ _ _
        · obtain ⟨k, hk⟩ := exists_stored hn
          have hcount := hc n k hk
          have hlt := k.toNat_lt
          refine ⟨by omega, fun hno => (hzero n).mp ?_⟩
          rwa [hkeys] at hno
      · rw [if_neg hok]
        refine (hcounted.accounted_iff hc fun _ => Nat.two_pow_pos 32).trans ?_
        simp only [hkeys]
        constructor
        · intro hkeeps
          refine Or.inr fun n hn hknown hacks => ?_
          -- a node that is asked has blocks on record
          exact (hzero n).mpr (hkeeps n hn hknown hacks) hn
        · rintro (hall | hnone) n hn hknown hacks
          · exact absurd (hsuccess.mpr ⟨trivial, hall⟩) hok
          · exact absurd hacks (hnone n hn hknown)

/-! ## Runs -/

/-- What happens at a cluster: a request of a client is handled, or health checks find the nodes of
`healthy` up. -/
inductive Event where
  | request (reach : Nat → Bool) (fuel : Nat) (request : Request)
  | health (healthy : Nat → Bool)

def Event.run (env : Env) (c : Cluster) : Event → Option Cluster
  | .request reach fuel req => (c.router env reach fuel req).map Prod.snd
  | .health healthy => some (c.withHealth healthy)

/-- The event keeps the counts. -/
def KeepsCount (env : Env) (c : Cluster) : Event → Prop
  | .request reach fuel request =>
      (ApiUtils.parsePath request.uri).1 = storePath →
        (request.method = .PUT → PutKeepsCount env reach fuel c
          (StringUtils.fixedSize (ApiUtils.parsePath request.uri).2 50) request.body) ∧
        (request.method = .DEL → DeleteKeepsCount env reach c
          (StringUtils.fixedSize (ApiUtils.parsePath request.uri).2 50))
  | .health _ => True

/-- `blocksStored` of a node is at least what would be subtracted for a key. -/
def Subtractable (c : Cluster) (key : Bytes) (n : Nat) : Prop :=
  ∀ k ∈ c.stored n, c.master.existingBlocks key n ≤ k

/-- When the request is handled, no subtraction from `blocksStored` goes below zero: the count of a
node suffices when the loop over the nodes comes to it. -/
def NoWrap (env : Env) (reach : Nat → Bool) (fuel : Nat) (c : Cluster) (request : Request) : Prop :=
  let key := StringUtils.fixedSize (ApiUtils.parsePath request.uri).2 50
  (ApiUtils.parsePath request.uri).1 = storePath →
    (request.method = .PUT → ∀ nodeBlockMap,
      c.distribute env fuel key request.body = some nodeBlockMap →
      ∀ ns n ns', env.order nodeBlockMap.keys = ns ++ n :: ns' →
        Subtractable (ns.foldl (fun s n => sendBlocks env reach key s n (nodeBlockMap.getD n []))
          ⟨true, ∅, c⟩).cluster key n) ∧
    (request.method = .DEL → ∀ bm, c.master.keyBlockNodeMap[key]? = some bm →
      ∀ ns n ns', env.order (allNodeIds bm).toList = ns ++ n :: ns' →
        Subtractable (ns.foldl (deleteBlocks env reach key) (true, c)).2 key n)

theorem Accounted.subtractable {c : Cluster} (hc : c.Accounted) (key : Bytes) (n : Nat) :
    Subtractable c key n := by
  intro k hk
  have hcount := hc n k hk
  have hle := c.master.recordedOn_le_pairsOn key n
  have hlt := k.toNat_lt
  rw [MasterServer.existingBlocks_eq, UInt32.le_iff_toNat_le,
    UInt32.toNat_ofNat_of_lt' (show _ < 2 ^ 32 by omega)]
  omega

theorem Subtractable.congr {c c' : Cluster} {key : Bytes} {n : Nat} (h : Subtractable c key n)
    (hsee : see c' n = see c n) : Subtractable c' key n := by
  have hstored : c'.stored n = c.stored n :=
    congrArg (fun v : Seen => v.sn.map fun sn : StorageNode => sn.stats.blocksStored) hsee
  have hmap : c'.master.keyBlockNodeMap = c.master.keyBlockNodeMap :=
    congrArg Seen.keyBlockNodeMap hsee
  have hexisting : c'.master.existingBlocks key n = c.master.existingBlocks key n := by
    unfold MasterServer.existingBlocks
    rw [hmap]
  intro k hk
  rw [hexisting]
  exact h k (hstored ▸ hk)

/-- **Where the counts are right nothing wraps**, whatever the request and however it ends. -/
theorem Accounted.noWrap {c : Cluster} (hc : c.Accounted) (reach : Nat → Bool) (fuel : Nat)
    (request : Request) : NoWrap env reach fuel c request := by
  intro _
  set key := StringUtils.fixedSize (ApiUtils.parsePath request.uri).2 50 with hkey
  -- the loop has not come to the node before
  have hbefore : ∀ {ns ns' : List Nat} {n : Nat}, (ns ++ n :: ns').Nodup → ns.Nodup ∧ n ∉ ns :=
    fun hn => ⟨hn.of_append_left, fun hmem =>
      (List.nodup_append.mp hn).2.2 _ hmem _ List.mem_cons_self rfl⟩
  refine ⟨fun _ nodeBlockMap _ ns n ns' hsplit => ?_, fun _ bm _ ns n ns' hsplit => ?_⟩
  · have hnodup := (env.order_perm _).nodup_iff.mpr nodeBlockMap.nodup_keys
    rw [hsplit] at hnodup
    obtain ⟨hns, hnot⟩ := hbefore hnodup
    -- the view of a node that the loop has not come to is that of the start
    have hupdates : Updates.UpdatesAt (fun _ => True) (fun s : PutState => see s.cluster)
        (Seen.after env reach key (putRequest key fun n => nodeBlockMap.getD n [])
          fun n => (nodeBlockMap.getD n []).length)
        fun s n => sendBlocks env reach key s n (nodeBlockMap.getD n []) :=
      fun s n _ => (sendBlocks_see env reach key (fun n => nodeBlockMap.getD n []) s n).1
    refine (hc.subtractable key n).congr ?_
    exact (hupdates.foldl_view hns (fun _ _ => trivial) n).trans (if_neg hnot)
  · have hnodup : (env.order (allNodeIds bm).toList).Nodup :=
      (env.order_perm _).nodup_iff.mpr (nodup_toList _)
    rw [hsplit] at hnodup
    obtain ⟨hns, hnot⟩ := hbefore hnodup
    have hupdates : Updates.UpdatesAt (fun _ => True) (fun s : Bool × Cluster => see s.2)
        (Seen.after env reach key (deleteRequest key) fun _ => 0)
        (deleteBlocks env reach key) := fun s n _ => (deleteBlocks_see env reach key s n).1
    refine (hc.subtractable key n).congr ?_
    exact (hupdates.foldl_view hns (fun _ _ => trivial) n).trans (if_neg hnot)

/-- A GET leaves the master as it is. -/
theorem getHandler_master (env : Env) (reach : Nat → Bool) (c : Cluster) (key : Bytes) :
    (c.getHandler env reach key).2.master = c.master := by
  have hfold : ∀ (g : Nat → List UInt32) (ns : List Nat) (s : GetState),
      (ns.foldl (fun s n => getBlocks env reach key s n (g n)) s).cluster.master
        = s.cluster.master := by
    intro g ns
    induction ns with
    | nil => exact fun _ => rfl
    | cons n ns ih =>
        intro s
        rw [List.foldl_cons, ih]
        unfold getBlocks
        rw [send_eq]
  unfold getHandler
  cases c.master.keyBlockNodeMap[key]? with
  | none => rfl
  | some bm =>
      dsimp only
      cases c.chooseNodes bm.toList with
      | none => rfl
      | some choices =>
          dsimp only
          split <;> exact hfold _ _ _

theorem accounted_congr {c c' : Cluster} (hstored : ∀ n, c'.stored n = c.stored n)
    (hmap : c'.master.keyBlockNodeMap = c.master.keyBlockNodeMap) (hc : c.Accounted) :
    c'.Accounted := by
  intro n k hk
  rw [hstored] at hk
  unfold MasterServer.pairsOn
  rw [hmap]
  exact hc n k hk

/-- **An event keeps the counts exactly when it meets the condition.** -/
theorem run_accounted_iff {c c' : Cluster} (hc : c.Accounted) {e : Event}
    (h : Event.run env c e = some c') : c'.Accounted ↔ KeepsCount env c e := by
  cases e with
  | health healthy =>
      obtain rfl := Option.some.inj h
      have hstored : ∀ n, (c.withHealth healthy).stored n = c.stored n := fun n => by
        unfold stored withHealth
        dsimp only
        rw [ExtTreeMap.getElem?_map, Option.map_map]
        rfl
      exact iff_of_true (accounted_congr hstored rfl hc) trivial
  | request reach fuel request =>
      obtain ⟨⟨response, c₁⟩, hr, rfl⟩ := Option.map_eq_some_iff.mp h
      unfold router at hr
      dsimp only at hr
      simp only [KeepsCount]
      by_cases hstore : (ApiUtils.parsePath request.uri).1 = storePath
      · rw [if_pos hstore] at hr
        rw [forall_prop_of_true hstore]
        cases hmethod : request.method with
        | GET =>
            rw [hmethod] at hr
            have hget : c.getHandler env reach
                (StringUtils.fixedSize (ApiUtils.parsePath request.uri).2 50) = (response, c₁) :=
              Option.some.inj hr
            have hmaster := getHandler_master env reach c
              (StringUtils.fixedSize (ApiUtils.parsePath request.uri).2 50)
            rw [hget] at hmaster
            exact iff_of_true (accounted_congr (fun n => by rw [stored, hmaster, stored])
              (by rw [hmaster]) hc) (by simp)
        | PUT =>
            rw [hmethod] at hr
            obtain ⟨r, hput, hr⟩ := Option.map_eq_some_iff.mp hr
            obtain ⟨-, rfl⟩ := Prod.mk.inj hr
            refine (putHandler_accounted_iff hc hput).trans
              ⟨fun hk => ⟨fun _ => hk, fun h => ?_⟩, fun hk => hk.1 rfl⟩
            cases h
        | DEL =>
            rw [hmethod] at hr
            obtain ⟨-, rfl⟩ := Prod.mk.inj (Option.some.inj hr)
            have hiff : (c.deleteHandler env reach _).2.Accounted ↔ _ := deleteHandler_accounted_iff
              hc reach (StringUtils.fixedSize (ApiUtils.parsePath request.uri).2 50)
            simpa using hiff
        | other =>
            rw [hmethod] at hr
            obtain ⟨-, rfl⟩ := Prod.mk.inj (Option.some.inj hr)
            exact iff_of_true hc (by simp)
      · -- the other paths leave the cluster as it is
        rw [if_neg hstore] at hr
        refine iff_of_true ?_ fun h => absurd h hstore
        split at hr
        · obtain ⟨-, rfl⟩ := Prod.mk.inj (Option.some.inj hr)
          exact hc
        · split at hr
          · obtain ⟨-, rfl⟩ := Prod.mk.inj (Option.some.inj hr)
            exact hc
          · obtain ⟨-, rfl⟩ := Prod.mk.inj (Option.some.inj hr)
            exact hc

theorem blocksStored_insertAll (sns : List StorageNode) :
    ∀ t : ExtTreeMap Nat StorageNode, (∀ sn ∈ sns, sn.stats.blocksStored = 0) →
      (∀ (n : Nat) (sn : StorageNode), t[n]? = some sn → sn.stats.blocksStored = 0) →
      ∀ (n : Nat) (sn : StorageNode), (sns.foldl (fun m sn => m.insert sn.id sn) t)[n]? = some sn →
        sn.stats.blocksStored = 0 := by
  induction sns with
  | nil => exact fun t _ ht => ht
  | cons sn sns ih =>
      intro t hsns ht
      refine ih _ (fun sn' hsn' => hsns sn' (by simp [hsn'])) fun n sn' hn => ?_
      rw [getElem?_insert_eq] at hn
      split at hn
      · obtain rfl := Option.some.inj hn
        exact hsns sn (by simp)
      · exact ht n sn' hn

/-- A new master counts nothing, and records nothing. -/
theorem accounted_initialise (env : Env) (config : MasterConfig) (nodes : Nat → StorageServer) :
    Accounted ⟨MasterServer.initialise env config, nodes⟩ := by
  intro n k hk
  obtain ⟨sn, hsn, rfl⟩ := Option.map_eq_some_iff.mp hk
  have hzero : sn.stats.blocksStored = 0 := by
    refine blocksStored_insertAll _ ∅ (fun sn' hsn' => ?_) (fun n sn' hn => ?_) n sn hsn
    · obtain ⟨p, -, rfl⟩ := List.mem_map.mp hsn'
      rfl
    · simp at hn
  rw [hzero]
  rfl

/-- **Block accounting**: in every run from a new master in which each event meets the condition,
every count is right in every state between events, and no subtraction wraps, not even in a
request that does not meet the condition. That request would leave the counts wrong. -/
theorem accounted_reached {config : MasterConfig} {nodes : Nat → StorageServer} {c : Cluster}
    (h : Runs.Reached (Event.run env) (KeepsCount env)
      ⟨MasterServer.initialise env config, nodes⟩ c) :
    c.Accounted ∧ (∀ reach fuel request, NoWrap env reach fuel c request) ∧
      ∀ e c', Event.run env c e = some c' → (c'.Accounted ↔ KeepsCount env c e) := by
  have hc : c.Accounted := h.invariant (accounted_initialise env config nodes)
    fun s e s' hs hmeets hrun => (run_accounted_iff hs hrun).mpr hmeets
  exact ⟨hc, fun reach fuel request => hc.noWrap reach fuel request,
    fun e c' hrun => run_accounted_iff hc hrun⟩

/-! ## Samples -/

private def startCluster : Cluster :=
  ⟨MasterServer.initialise (Env.ofHash sampleHash) sampleConfig,
    fun _ => StorageServer.new default 8 64 4⟩

/-- A PUT of the key `a` that gets through to the nodes of `reach`. -/
private def putOf (reach : Nat → Bool) (payload : Bytes) : Event :=
  .request reach 100 ⟨.PUT, storeUri [97], payload⟩

private def firstEvents : List Event :=
  [.health fun _ => true, putOf (fun _ => true) [1, 2, 3, 4, 5, 6, 7, 8, 9, 10]]

/-- `PutKeepsCount`, when all nodes are sent blocks and answer. -/
private def putCheck (c : Cluster) (payload : Bytes) : Bool :=
  (c.distribute (Env.ofHash sampleHash) 100 (padded [97]) payload).all fun nodeBlockMap =>
    let g := fun n => nodeBlockMap.getD n []
    (nodeBlockMap.keys.all fun n =>
      decide (Acks (Env.ofHash sampleHash) (fun _ => true) c n (putRequest (padded [97]) g n))) &&
    c.master.storageNodes.keys.all fun n =>
      decide (n ∈ nodeBlockMap) && decide (c.master.pairsOn n + (g n).length < 2 ^ 32)

private theorem putKeepsCount_of_check {c : Cluster} {payload : Bytes}
    (h : putCheck c payload = true) :
    PutKeepsCount (Env.ofHash sampleHash) (fun _ => true) 100 c (padded [97]) payload := by
  intro nodeBlockMap hdistribute
  rw [putCheck, hdistribute] at h
  simp only [Option.all_some, Bool.and_eq_true, List.all_eq_true, decide_eq_true_eq,
    ExtTreeMap.mem_keys] at h
  obtain ⟨hacks, hnodes⟩ := h
  refine ⟨fun _ n hn => ?_, fun ⟨n, hn, hno⟩ => absurd (hacks n hn) hno⟩
  obtain ⟨hsent, hlt⟩ := hnodes n hn
  exact ⟨Nat.lt_of_lt_of_le hlt (Nat.le_add_right _ _), fun hout => absurd hsent hout⟩

/-- `DeleteKeepsCount`, when all nodes answer. -/
private def deleteCheck (c : Cluster) : Bool :=
  (c.master.keyBlockNodeMap[padded [97]]?).all fun bm => (allNodeIds bm).toList.all fun n =>
    decide (Acks (Env.ofHash sampleHash) (fun _ => true) c n (deleteRequest (padded [97]) n))

private theorem deleteKeepsCount_of_check {c : Cluster} (h : deleteCheck c = true) :
    DeleteKeepsCount (Env.ofHash sampleHash) (fun _ => true) c (padded [97]) := by
  intro bm hbm
  rw [deleteCheck, hbm] at h
  simp only [Option.all_some, List.all_eq_true, decide_eq_true_eq, ExtTreeSet.mem_toList] at h
  exact Or.inl h

/-- A DELETE of the key `a` that gets through to all nodes. -/
private def deleteIt : Event := .request (fun _ => true) 100 ⟨.DEL, storeUri [97], []⟩

/-- A payload is put, overwritten, deleted and put again, and all nodes answer. -/
theorem accounted_reached_sample :
    ∃ c, [.health fun _ => true, putOf (fun _ => true) samplePayload,
        putOf (fun _ => true) sampleOverwrite, deleteIt,
        putOf (fun _ => true) samplePayload].foldlM (Event.run (Env.ofHash sampleHash))
          startCluster = some c ∧
      c.Accounted ∧ (List.range 3).map c.stored = [some 1, some 2, some 3] := by
  have hall : (do
      let c₀ ← Event.run (Env.ofHash sampleHash) startCluster (.health fun _ => true)
      let c₁ ← Event.run (Env.ofHash sampleHash) c₀ (putOf (fun _ => true) samplePayload)
      let c₂ ← Event.run (Env.ofHash sampleHash) c₁ (putOf (fun _ => true) sampleOverwrite)
      let c₃ ← Event.run (Env.ofHash sampleHash) c₂ deleteIt
      let c₄ ← Event.run (Env.ofHash sampleHash) c₃ (putOf (fun _ => true) samplePayload)
      some (putCheck c₀ samplePayload && putCheck c₁ sampleOverwrite && deleteCheck c₂ &&
        putCheck c₃ samplePayload, (List.range 3).map c₄.stored))
      = some (true, [some 1, some 2, some 3]) := by
    decide +kernel
  simp only [Option.bind_eq_bind, Option.bind_eq_some_iff, Option.some.injEq, Prod.mk.injEq,
    Bool.and_eq_true] at hall
  obtain ⟨c₀, hhealth, c₁, h₁, c₂, h₂, c₃, h₃, c₄, h₄, ⟨⟨⟨hc₀, hc₁⟩, hc₂⟩, hc₃⟩, hcounts⟩ := hall
  have hput : ∀ {c payload}, putCheck c payload = true →
      KeepsCount (Env.ofHash sampleHash) c (putOf (fun _ => true) payload) :=
    fun h _ => ⟨fun _ => putKeepsCount_of_check h, fun h => by cases h⟩
  have hdelete : KeepsCount (Env.ofHash sampleHash) c₂ deleteIt :=
    fun _ => ⟨fun h => (by cases h), fun _ => deleteKeepsCount_of_check hc₂⟩
  have hreached := ((((Runs.Reached.start.step
    (trivial : KeepsCount (Env.ofHash sampleHash) _ (.health _)) hhealth).step
      (hput hc₀) h₁).step (hput hc₁) h₂).step hdelete h₃).step (hput hc₃) h₄
  refine ⟨c₄, ?_, (accounted_reached hreached).1, hcounts⟩
  simp only [List.foldlM_cons, List.foldlM_nil, hhealth, h₁, h₂, h₃, h₄, Option.bind_eq_bind,
    Option.bind_some]
  rfl

/-- An overwrite by a payload with fewer blocks leaves the count of a node that is sent none, and
a PUT that fails, repeated, makes the count of a node wrap. -/
theorem counts_part :
    (∃ c, (firstEvents ++ [putOf (fun _ => true) [1]]).foldlM (Event.run (Env.ofHash sampleHash))
        startCluster = some c ∧
      c.stored 0 = some 1 ∧ c.master.pairsOn 0 = 0 ∧ ¬ c.Accounted) ∧
    ∃ c, (firstEvents ++ [putOf (fun n => n != 1) [1], putOf (fun n => n != 1) [1]]).foldlM
        (Event.run (Env.ofHash sampleHash)) startCluster = some c ∧
      c.stored 2 = some 4294967295 ∧ c.master.pairsOn 2 = 3 ∧ ¬ c.Accounted := by
  have hall : (do
      let c ← (firstEvents ++ [putOf (fun _ => true) [1]]).foldlM
        (Event.run (Env.ofHash sampleHash)) startCluster
      let c' ← (firstEvents ++ [putOf (fun n => n != 1) [1], putOf (fun n => n != 1) [1]]).foldlM
        (Event.run (Env.ofHash sampleHash)) startCluster
      some (c.stored 0, c.master.pairsOn 0, c'.stored 2, c'.master.pairsOn 2))
      = some (some 1, 0, some 4294967295, 3) := by decide +kernel
  simp only [Option.bind_eq_bind, Option.bind_eq_some_iff, Option.some.injEq, Prod.mk.injEq]
    at hall
  obtain ⟨c, hrun, c', hrun', hstored, hpairs, hstored', hpairs'⟩ := hall
  refine ⟨⟨c, hrun, hstored, hpairs, fun hc => ?_⟩, c', hrun', hstored', hpairs', fun hc => ?_⟩
  · have hcount := hc 0 1 hstored
    rw [hpairs] at hcount
    exact absurd hcount (by decide)
  · have hcount := hc 2 4294967295 hstored'
    rw [hpairs'] at hcount
    exact absurd hcount (by decide)

end Cluster

end RackKey
