import RackKey.Cluster.RoundTrip
import RackKey.Storage.Rollback

set_option autoImplicit false

/-! # After a PUT that fails

The nodes replace what they hold for a key one by one, and the master changes the map only when
all of them have answered OK. A PUT that is answered with an error leaves the map, the contents
of the nodes that did not take the new blocks, and all contents under other hashes, as they
were (`PutRun.failed`). So a GET that reads from no node that took new blocks answers as before
(`get_after_failed_put`); one that does may answer a mixture (`mixed_after_failed_put`).
-/

namespace RackKey

open Std Words Payloads DiskStorage

namespace Cluster

variable {env : Env} {reach : Nat → Bool} {key : Bytes}

/-- A node that does not answer OK to a request keeps all its contents. -/
theorem putAt_failed {dataBlockSize : UInt32} {n : Nat} {srv : StorageServer}
    (hr : srv.Readable dataBlockSize) {blocks : List Block}
    (h : (putAt env reach key n srv blocks).1 = false) :
    (putAt env reach key n srv blocks).2.Readable dataBlockSize ∧
      ∀ k, (putAt env reach key n srv blocks).2.contents k = srv.contents k := by
  unfold putAt at h ⊢
  cases hn : reach n with
  | false => exact ⟨hr, fun _ => rfl⟩
  | true =>
      simp only [hn, if_true] at h ⊢
      cases hd : Block.deserialize (Block.serializeAll blocks) with
      | none => exact ⟨hr, fun _ => rfl⟩
      | some blocks' =>
          rw [hd] at h
          dsimp only at h ⊢
          rcases hw : srv.diskStorage.writeBlocks env.sha256_32 (padded key) blocks' with ⟨res, ds'⟩
          rw [hw] at h
          cases res with
          | ok u => cases h
          | error err =>
              obtain ⟨fsm, rfl⟩ := writeBlocks_error_ready hr.ready hw
              have hcongr := contents_congr srv.diskStorage
                { srv.diskStorage with freeSpaceMap := fsm } rfl rfl rfl
              exact ⟨⟨hr.ready, hcongr.2 hr.backed, hr.dataBlockSize, hr.keyLengthMax⟩, hcongr.1⟩

variable (env reach key) in
/-- No request of a PUT changes what a node holds under other hashes. -/
theorem putAt_others {dataBlockSize : UInt32} (n : Nat) {srv : StorageServer}
    (ho : srv.Ok dataBlockSize) (blocks : List Block) :
    (putAt env reach key n srv blocks).2.Readable dataBlockSize ∧
      ∀ k, k ≠ env.sha256_32 (padded key) →
        (putAt env reach key n srv blocks).2.contents k = srv.contents k := by
  cases h : (putAt env reach key n srv blocks).1 with
  | false =>
      obtain ⟨hr, hcontents⟩ := putAt_failed ho.toReadable h
      exact ⟨hr, fun k _ => hcontents k⟩
  | true =>
      obtain ⟨blocks', ds', -, hw, hsrv⟩ := putAt_ok h
      obtain ⟨ho', hcontents⟩ := ho.write hw
      rw [hsrv]
      refine ⟨ho'.toReadable, fun k hk => ?_⟩
      exact (hcontents k).trans (if_neg hk)

/-! ## What a failed PUT leaves -/

/-- Node `n` takes the blocks that a PUT sends to it. -/
def Takes (env : Env) (reach : Nat → Bool) (fuel : Nat) (key payload : Bytes) (c : Cluster)
    (n : Nat) : Prop :=
  sentTo env fuel key payload c n ≠ [] ∧
    (putAt env reach key n (c.nodes n) (sentTo env fuel key payload c n)).1 = true

theorem PutRun.failed {fuel : Nat} {payload : Bytes} {c : Cluster} {r : Response × Cluster}
    (h : PutRun env reach fuel key payload c r) (hfailed : r.1.status ≠ .OK)
    (hnodes : ∀ n ∈ c.master.storageNodes, (c.nodes n).Ok c.master.config.dataBlockSize) :
    c.master.NodesOnly r.2.master ∧
      (∀ n ∈ c.master.storageNodes, (r.2.nodes n).Readable c.master.config.dataBlockSize) ∧
      ∀ n k, (k ≠ env.sha256_32 (padded key) ∨ ¬ Takes env reach fuel key payload c n) →
        (r.2.nodes n).contents k = (c.nodes n).contents k := by
  rcases h.answer with ⟨hr, -⟩ | ⟨-, -, hmaster⟩
  · rw [hr] at hfailed
    exact absurd rfl hfailed
  refine ⟨hmaster, fun n hn => ?_, fun n k hk => ?_⟩
  · rw [h.nodes]
    split
    · exact (hnodes n hn).toReadable
    · exact (putAt_others env reach key n (hnodes n hn) _).1
  · rw [h.nodes]
    by_cases hnil : sentTo env fuel key payload c n = []
    · rw [if_pos hnil]
    · rw [if_neg hnil]
      have ho := hnodes n (known_of_sentTo hnil)
      rcases hk with hk | htakes
      · exact (putAt_others env reach key n ho _).2 k hk
      · have hfail := Bool.eq_false_iff.mpr fun hok => htakes ⟨hnil, hok⟩
        exact (putAt_failed ho.toReadable hfail).2 k

/-! ## What a GET depends on -/

/-- The nodes that a GET of a key reads from. -/
def readNodes (c : Cluster) (K : Bytes) : List Nat :=
  match c.master.keyBlockNodeMap[K]? with
  | none => []
  | some bm => ((c.chooseNodes bm.toList).getD []).map Prod.fst

theorem chooseNodes_congr {c c' : Cluster} (h : ∀ n, c'.isHealthy n = c.isHealthy n) :
    ∀ l : List (UInt32 × ExtTreeSet Nat), c'.chooseNodes l = c.chooseNodes l
  | [] => rfl
  | (b, s) :: l => by
      rw [chooseNodes, chooseNodes, chooseNodes_congr h l, funext h]

/-- **A GET depends on the entry of the key, the health flags, and what the nodes it reads from
hold under the hash of the key.** -/
theorem getHandler_congr (hk : PlainKey key) {dataBlockSize : UInt32} {c c' : Cluster}
    (hr : ∀ n ∈ c.master.storageNodes, reach n = true → (c.nodes n).Readable dataBlockSize)
    (hr' : ∀ n ∈ c'.master.storageNodes, reach n = true → (c'.nodes n).Readable dataBlockSize)
    (hentry : c'.master.keyBlockNodeMap[padded key]? = c.master.keyBlockNodeMap[padded key]?)
    (hhealth : ∀ n, c'.isHealthy n = c.isHealthy n)
    (hcontents : ∀ n ∈ c.readNodes (padded key),
      (c'.nodes n).contents (env.sha256_32 (padded key))
        = (c.nodes n).contents (env.sha256_32 (padded key))) :
    (c'.getHandler env reach (padded key)).1 = (c.getHandler env reach (padded key)).1 := by
  cases hbm : c.master.keyBlockNodeMap[padded key]? with
  | none =>
      unfold getHandler
      rw [hentry, hbm]
  | some bm =>
      rw [(getHandler_eq hk hr hbm).1, (getHandler_eq hk hr' (hentry.trans hbm)).1,
        chooseNodes_congr hhealth]
      cases hch : c.chooseNodes bm.toList with
      | none => rfl
      | some choices =>
          -- the nodes asked are those chosen, and they hold the same
          have hread : ∀ n ∈ env.order (Groups.group choices).keys,
              n ∈ c.readNodes (padded key) := by
            intro n hn
            have hg := ExtTreeMap.mem_keys.mp ((env.order_perm _).mem_iff.mp hn)
            obtain ⟨b, hb⟩ := (Groups.mem_group choices n).mp hg
            simp only [readNodes, hbm, hch, Option.getD_some]
            exact List.mem_map.mpr ⟨(n, b), hb, rfl⟩
          have hgather : gather env reach key dataBlockSize c' choices
              = gather env reach key dataBlockSize c choices := by
            unfold gather
            refine List.foldl_ext _ _ _ fun r n hn => ?_
            unfold replyAt
            rw [hcontents n (hread n hn)]
          dsimp only
          rw [hgather]

/-- What a GET is answered after health checks that found the nodes of `healthy` up. -/
def getAnswer (env : Env) (reach healthy : Nat → Bool) (c : Cluster) (key : Bytes) :
    Option (Option Response) :=
  ((c.withHealth healthy).router env reach 0 ⟨.GET, storeUri key, []⟩).map Prod.fst

/-- **A GET answers as before** when the entry of its key is kept, and so are the contents of the
nodes it reads from. -/
theorem getAnswer_congr (hk : PlainKey key) {dataBlockSize : UInt32} {c c' : Cluster}
    (hr : ∀ n ∈ c.master.storageNodes, (c.nodes n).Readable dataBlockSize)
    (hr' : ∀ n ∈ c.master.storageNodes, (c'.nodes n).Readable dataBlockSize)
    (hstorage : ∀ n : Nat, n ∈ c'.master.storageNodes ↔ n ∈ c.master.storageNodes)
    (hentry : c'.master.keyBlockNodeMap[padded key]? = c.master.keyBlockNodeMap[padded key]?)
    (reach healthy : Nat → Bool)
    (hcontents : ∀ n ∈ (c.withHealth healthy).readNodes (padded key),
      (c'.nodes n).contents (env.sha256_32 (padded key))
        = (c.nodes n).contents (env.sha256_32 (padded key))) :
    getAnswer env reach healthy c' key = getAnswer env reach healthy c key := by
  unfold getAnswer
  rw [(router_store env reach hk 0 _ []).2.1, (router_store env reach hk 0 _ []).2.1,
    Option.map_some, Option.map_some]
  have hread : ∀ n ∈ (c.withHealth healthy).master.storageNodes, reach n = true →
      ((c.withHealth healthy).nodes n).Readable dataBlockSize :=
    fun n hn _ => hr n (ExtTreeMap.mem_map.mp hn)
  have hread' : ∀ n ∈ (c'.withHealth healthy).master.storageNodes, reach n = true →
      ((c'.withHealth healthy).nodes n).Readable dataBlockSize :=
    fun n hn _ => hr' n ((hstorage n).mp (ExtTreeMap.mem_map.mp hn))
  have hhealth : ∀ n, (c'.withHealth healthy).isHealthy n = (c.withHealth healthy).isHealthy n := by
    intro n
    rw [Bool.eq_iff_iff, isHealthy_withHealth, isHealthy_withHealth, hstorage]
  exact congrArg some (getHandler_congr hk hread hread' hentry hhealth hcontents)

/-- **After a PUT answered with an error** the map is as it was, and so is the answer of every
GET that reads from no node that took new blocks, and of every GET of a key with another
hash. -/
theorem get_after_failed_put (hk : PlainKey key) {fuel : Nat} {c c' : Cluster} {payload : Bytes}
    {response : Response}
    (hnodes : ∀ n ∈ c.master.storageNodes, (c.nodes n).Ok c.master.config.dataBlockSize)
    (hput : c.router env reach fuel ⟨.PUT, storeUri key, payload⟩ = some (some response, c'))
    (hfailed : response.status ≠ .OK) :
    c'.master.keyBlockNodeMap = c.master.keyBlockNodeMap ∧
      (∀ reach' healthy : Nat → Bool, (∀ n ∈ (c.withHealth healthy).readNodes (padded key),
          ¬ Takes env reach fuel key payload c n) →
        getAnswer env reach' healthy c' key = getAnswer env reach' healthy c key) ∧
      ∀ key', PlainKey key' → env.sha256_32 (padded key') ≠ env.sha256_32 (padded key) →
        ∀ reach' healthy : Nat → Bool,
          getAnswer env reach' healthy c' key' = getAnswer env reach' healthy c key' := by
  rw [(router_store env reach hk fuel c payload).1] at hput
  obtain ⟨⟨response', c₁⟩, hrun, hr⟩ := Option.map_eq_some_iff.mp hput
  rw [Prod.mk.injEq, Option.some.injEq] at hr
  obtain ⟨rfl, rfl⟩ := hr
  obtain ⟨hmaster, hreadable, hcontents⟩ :=
    (putHandler_run hk (fun n hn => (hnodes n hn).keyLengthMax) hrun).failed hfailed hnodes
  -- a GET of any key whose contents are kept at the nodes it reads from
  have hget : ∀ (key' : Bytes) (reach' healthy : Nat → Bool), PlainKey key' →
      (∀ n ∈ (c.withHealth healthy).readNodes (padded key'),
        env.sha256_32 (padded key') ≠ env.sha256_32 (padded key) ∨
          ¬ Takes env reach fuel key payload c n) →
      getAnswer env reach' healthy c₁ key' = getAnswer env reach' healthy c key' := by
    intro key' reach' healthy hk' hkept
    refine getAnswer_congr hk' (fun n hn => (hnodes n hn).toReadable) hreadable
      hmaster.mem_storageNodes ?_ reach' healthy fun n hn => hcontents n _ (hkept n hn)
    rw [hmaster.keyBlockNodeMap]
  refine ⟨hmaster.keyBlockNodeMap, fun reach' healthy hno => ?_,
    fun key' hk' hne reach' healthy => ?_⟩
  · exact hget key reach' healthy hk fun n hn => Or.inr (hno n hn)
  · exact hget key' reach' healthy hk' fun n _ => Or.inl hne

/-! ## Samples -/

/-- Blocks on nodes 1 and 2, 0 and 2, 1 and 2: a PUT that gets through to node 2 only is answered
with an error, and node 2 is not read from. -/
theorem get_after_failed_put_sample :
    ∃ c c', sampleCluster.router (Env.ofHash sampleHash) (fun _ => true) 100
        ⟨.PUT, storeUri [97], [1, 2, 3, 4, 5, 6, 7, 8, 9, 10]⟩ = some (some ⟨.OK, []⟩, c) ∧
      c.router (Env.ofHash sampleHash) (fun n => n == 2) 100
        ⟨.PUT, storeUri [97], [21, 22, 23, 24, 25, 26, 27, 28, 29, 30]⟩
          = some (some ⟨.InternalError, []⟩, c') ∧
      getAnswer (Env.ofHash sampleHash) (fun _ => true) (fun _ => true) c' [97]
        = getAnswer (Env.ofHash sampleHash) (fun _ => true) (fun _ => true) c [97] := by
  have hall : (do
      let r₁ ← sampleCluster.router (Env.ofHash sampleHash) (fun _ => true) 100
        ⟨.PUT, storeUri [97], [1, 2, 3, 4, 5, 6, 7, 8, 9, 10]⟩
      let r₂ ← r₁.2.router (Env.ofHash sampleHash) (fun n => n == 2) 100
        ⟨.PUT, storeUri [97], [21, 22, 23, 24, 25, 26, 27, 28, 29, 30]⟩
      some (r₁.1, r₂.1, (r₁.2.withHealth fun _ => true).readNodes (padded [97])))
      = some (some ⟨.OK, []⟩, some ⟨.InternalError, []⟩, [1, 0, 1]) := by
    decide +kernel
  simp only [Option.bind_eq_bind, Option.bind_eq_some_iff, Option.some.injEq, Prod.mk.injEq] at hall
  obtain ⟨⟨_, c⟩, h₁, ⟨_, c'⟩, h₂, rfl, rfl, hread⟩ := hall
  have hfits : FitsPayload sampleCluster.master.config.dataBlockSize
      [1, 2, 3, 4, 5, 6, 7, 8, 9, 10] := ⟨by decide, by decide⟩
  obtain ⟨bm, hd⟩ := put_done clientKey_sample.toPlainKey hfits sampleCluster_ok h₁
  have hnodes : ∀ n ∈ c.master.storageNodes, (c.nodes n).Ok c.master.config.dataBlockSize := by
    intro n hn
    rw [show c.master.config = sampleCluster.master.config from hd.master.config]
    exact hd.ok n ((hd.master.mem_storageNodes n).mp hn)
  obtain ⟨-, hget, -⟩ := get_after_failed_put clientKey_sample.toPlainKey hnodes h₂ (by decide)
  refine ⟨c, c', h₁, h₂, hget _ _ fun n hn htakes => ?_⟩
  -- nodes 0 and 1 are not reached
  rw [show (c.withHealth fun _ => true).readNodes (padded [97]) = [1, 0, 1] from hread] at hn
  have hreach : (n == 2) = false := by
    simp only [List.mem_cons, List.not_mem_nil, or_false] at hn
    rcases hn with rfl | rfl | rfl <;> rfl
  have hok := htakes.2
  rw [putAt, hreach] at hok
  cases hok

/-- A hash under which the keys `[97]` and `[98]` collide. -/
def collidingHash (bs : Bytes) : UInt32 := sampleHash (bs.map fun b => if b = 98 then 97 else b)

/-- A PUT that gets through to two of its three nodes is answered with an error. A GET then mixes
the two payloads, and a GET of a key with the same hash mixes them as well. -/
theorem mixed_after_failed_put :
    (∃ c c', sampleCluster.router (Env.ofHash sampleHash) (fun _ => true) 100
        ⟨.PUT, storeUri [97], [1, 2, 3, 4, 5, 6, 7, 8, 9, 10]⟩ = some (some ⟨.OK, []⟩, c) ∧
      getAnswer (Env.ofHash sampleHash) (fun _ => true) (fun _ => true) c [97]
        = some (some ⟨.OK, [1, 2, 3, 4, 5, 6, 7, 8, 9, 10]⟩) ∧
      c.router (Env.ofHash sampleHash) (fun n => n != 1) 100
        ⟨.PUT, storeUri [97], [21, 22, 23, 24, 25, 26, 27, 28, 29, 30]⟩
          = some (some ⟨.InternalError, []⟩, c') ∧
      getAnswer (Env.ofHash sampleHash) (fun _ => true) (fun _ => true) c' [97]
        = some (some ⟨.OK, [1, 2, 3, 4, 25, 26, 27, 28, 9, 10]⟩)) ∧
    ∃ c c', (Cluster.fresh (Env.ofHash collidingHash) default sampleConfig 8 64).router
        (Env.ofHash collidingHash) (fun _ => true) 100
        ⟨.PUT, storeUri [98], [1, 2, 3, 4, 5, 6, 7, 8, 9, 10]⟩ = some (some ⟨.OK, []⟩, c) ∧
      getAnswer (Env.ofHash collidingHash) (fun _ => true) (fun _ => true) c [98]
        = some (some ⟨.OK, [1, 2, 3, 4, 5, 6, 7, 8, 9, 10]⟩) ∧
      c.router (Env.ofHash collidingHash) (fun n => n != 1) 100
        ⟨.PUT, storeUri [97], [21, 22, 23, 24, 25, 26, 27, 28, 29, 30]⟩
          = some (some ⟨.InternalError, []⟩, c') ∧
      getAnswer (Env.ofHash collidingHash) (fun _ => true) (fun _ => true) c' [98]
        = some (some ⟨.OK, [1, 2, 3, 4, 25, 26, 27, 28, 9, 10]⟩) := by
  have hall : ∀ (hash : Bytes → UInt32) (key : Bytes), (hash = sampleHash ∧ key = [97] ∨
      hash = collidingHash ∧ key = [98]) → (do
      let r₁ ← (Cluster.fresh (Env.ofHash hash) default sampleConfig 8 64).router
        (Env.ofHash hash) (fun _ => true) 100
        ⟨.PUT, storeUri key, [1, 2, 3, 4, 5, 6, 7, 8, 9, 10]⟩
      let r₂ ← r₁.2.router (Env.ofHash hash) (fun n => n != 1) 100
        ⟨.PUT, storeUri [97], [21, 22, 23, 24, 25, 26, 27, 28, 29, 30]⟩
      some (r₁.1, getAnswer (Env.ofHash hash) (fun _ => true) (fun _ => true) r₁.2 key, r₂.1,
        getAnswer (Env.ofHash hash) (fun _ => true) (fun _ => true) r₂.2 key))
      = some (some ⟨.OK, []⟩, some (some ⟨.OK, [1, 2, 3, 4, 5, 6, 7, 8, 9, 10]⟩),
          some ⟨.InternalError, []⟩, some (some ⟨.OK, [1, 2, 3, 4, 25, 26, 27, 28, 9, 10]⟩)) := by
    rintro _ _ (⟨rfl, rfl⟩ | ⟨rfl, rfl⟩)
    · decide +kernel
    · decide +kernel
  simp only [Option.bind_eq_bind, Option.bind_eq_some_iff, Option.some.injEq, Prod.mk.injEq]
    at hall
  constructor
  · obtain ⟨⟨_, c⟩, h₁, ⟨_, c'⟩, h₂, rfl, hget, rfl, hmixed⟩ := hall _ _ (Or.inl ⟨rfl, rfl⟩)
    exact ⟨c, c', h₁, hget, h₂, hmixed⟩
  · obtain ⟨⟨_, c⟩, h₁, ⟨_, c'⟩, h₂, rfl, hget, rfl, hmixed⟩ := hall _ _ (Or.inr ⟨rfl, rfl⟩)
    exact ⟨c, c', h₁, hget, h₂, hmixed⟩

end Cluster

end RackKey
