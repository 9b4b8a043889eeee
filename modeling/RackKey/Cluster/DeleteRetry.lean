import RackKey.Cluster.Delete
import RackKey.Cluster.Reachable
import RackKey.Cluster.RoundTrip
import RackKey.Cluster.Sync

set_option autoImplicit false

/-! # Repeating a DELETE

A node deletes its entry of a key at once, and answers with an error when it has none. The
master drops the key only after all nodes answered OK, so after a DELETE that fails halfway the
map records nodes that store nothing any more, and no later DELETE succeeds.
`retryable_after_delete_iff` says exactly when a DELETE answered with an error can be repeated.
-/

namespace RackKey

open Std Words Payloads DiskStorage

namespace Cluster

variable {env : Env} {reach : Nat → Bool} {key : Bytes}

/-- A DELETE of the key can be repeated: the nodes that the map records for its blocks store
them, and a DELETE that reaches all nodes drops the key and leaves no node storing it. -/
structure Retryable (env : Env) (key : Bytes) (c : Cluster) : Prop where
  stored : ∀ b n, Nested.Holds c.master.keyBlockNodeMap (padded key) b n →
    b ∈ (c.nodes n).reported env.sha256_32 (padded key)
  repeated : ∃ c', c.router env (fun _ => true) 0 ⟨.DEL, storeUri key, []⟩
      = some (some ⟨.OK, []⟩, c') ∧
    padded key ∉ c'.master.keyBlockNodeMap ∧
    ∀ n ∈ c'.master.storageNodes, (c'.nodes n).contents (env.sha256_32 (padded key)) = none

/-- A node that reports a block of a key has contents for it. -/
theorem contents_ne_none_of_reported {srv : StorageServer} {K : Bytes} {b : UInt32}
    (h : b ∈ srv.reported env.sha256_32 K) : srv.contents (env.sha256_32 K) ≠ none := by
  intro hnone
  rw [StorageServer.reported, hnone] at h
  cases h

/-- A request changes the contents of its hash only when it is answered OK. -/
theorem contents_deleteAt {n : Nat} {srv : StorageServer} (h : srv.Distinct) :
    (deleteAt env reach key n srv).2.contents (env.sha256_32 (padded key))
      = if (deleteAt env reach key n srv).1 = true then none
        else srv.contents (env.sha256_32 (padded key)) := by
  split
  · rename_i hok
    obtain ⟨ds', hdel, hsrv⟩ := deleteAt_ok hok
    rw [hsrv]
    exact ((h.delete hdel).2 _).trans (if_pos rfl)
  · rename_i hno
    rw [deleteAt_failed (Bool.eq_false_iff.mpr hno)]

/-- The nodes asked, all of them reached: those that have the key lose it. -/
theorem DeleteRun.all_reached {c : Cluster} {bm : BlockNodeMap} {r : Response × Cluster}
    (h : DeleteRun env (fun _ => true) key c bm r) (hdistinct : ∀ n, (c.nodes n).Distinct) :
    (r.1 = ⟨.OK, []⟩ ∧ padded key ∉ r.2.master.keyBlockNodeMap ∧
        ∀ n ∈ r.2.master.storageNodes,
          (r.2.nodes n).contents (env.sha256_32 (padded key)) = none) ↔
      (∀ b n, bm.Related b n → (c.nodes n).contents (env.sha256_32 (padded key)) ≠ none) ∧
      ∀ n ∈ c.master.storageNodes, (c.nodes n).contents (env.sha256_32 (padded key)) ≠ none →
        ∃ b, bm.Related b n := by
  have hasked : ∀ b n, bm.Related b n →
      ((deleteAt env (fun _ => true) key n (c.nodes n)).1 = true ↔
        (c.nodes n).contents (env.sha256_32 (padded key)) ≠ none) :=
    fun b n _ => deleteAt_ok_iff.trans (and_iff_right rfl)
  rcases h.answer with ⟨hr, hall, hmaster⟩ | ⟨hr, ⟨b, n, hb, hfail⟩, -⟩
  · rw [hr, and_iff_right rfl]
    have hgone : padded key ∉ r.2.master.keyBlockNodeMap := by
      rw [hmaster.keyBlockNodeMap]
      simp
    rw [and_iff_right hgone, and_iff_right fun b n hb => (hasked b n hb).mp (hall b n hb)]
    refine forall_congr' fun n => ?_
    rw [hmaster.mem_storageNodes]
    refine imp_congr_right fun _ => ?_
    by_cases hrel : ∃ b, bm.Related b n
    · obtain ⟨b, hb⟩ := hrel
      have hnone : (r.2.nodes n).contents (env.sha256_32 (padded key)) = none := by
        rw [h.nodes n ⟨b, hb⟩, contents_deleteAt (hdistinct n), if_pos (hall b n hb)]
      exact ⟨fun _ _ => ⟨b, hb⟩, fun _ => hnone⟩
    · rw [h.others n fun b hb => hrel ⟨b, hb⟩]
      refine ⟨fun hnone hsome => absurd hnone hsome, fun himp => ?_⟩
      by_contra hsome
      exact hrel (himp hsome)
  · rw [hr]
    refine iff_of_false (fun hok => ?_) fun hhas => ?_
    · cases hok.1
    · rw [(hasked b n hb).mpr (hhas.1 b n hb)] at hfail
      cases hfail

/-- **When a DELETE can be repeated**: the recorded nodes store their blocks, and no other node
stores the key. -/
theorem retryable_iff_stored (hk : PlainKey key) {c : Cluster} {bm : BlockNodeMap}
    (hdistinct : ∀ n, (c.nodes n).Distinct)
    (hbm : c.master.keyBlockNodeMap[padded key]? = some bm) :
    Retryable env key c ↔
      (∀ b n, bm.Related b n → b ∈ (c.nodes n).reported env.sha256_32 (padded key)) ∧
      ∀ n ∈ c.master.storageNodes, (c.nodes n).contents (env.sha256_32 (padded key)) ≠ none →
        ∃ b, bm.Related b n := by
  have hdelete := (deleteHandler_run env (fun _ => true) hk hbm fun b n _ =>
    (hdistinct n).keyLengthMax).all_reached hdistinct
  have hholds : ∀ b n, Nested.Holds c.master.keyBlockNodeMap (padded key) b n ↔
      bm.Related b n := Nested.holds_of_some hbm
  constructor
  · rintro ⟨hstored, c', hdel, hgone⟩
    rw [(router_store env (fun _ => true) hk 0 c []).2.2, Option.some.injEq, Prod.mk.injEq,
      Option.some.injEq] at hdel
    obtain ⟨hans, rfl⟩ := hdel
    exact ⟨fun b n hb => hstored b n ((hholds b n).mpr hb), (hdelete.mp ⟨hans, hgone⟩).2⟩
  · rintro ⟨hstored, hknown⟩
    obtain ⟨hans, hgone⟩ := hdelete.mpr
      ⟨fun b n hb => contents_ne_none_of_reported (hstored b n hb), hknown⟩
    refine ⟨fun b n hb => hstored b n ((hholds b n).mp hb), _, ?_, hgone⟩
    rw [(router_store env (fun _ => true) hk 0 c []).2.2, hans]

/-- A node keeps the blocks it reports over a DELETE exactly when it is not reached. -/
theorem reported_deleteAt {n : Nat} {srv : StorageServer} (h : srv.Distinct) (b : UInt32) :
    b ∈ (deleteAt env reach key n srv).2.reported env.sha256_32 (padded key) ↔
      reach n = false ∧ b ∈ srv.reported env.sha256_32 (padded key) := by
  constructor
  · intro hb
    have hsome := contents_ne_none_of_reported hb
    rw [contents_deleteAt h] at hsome
    split at hsome
    · exact absurd rfl hsome
    · -- the node has the key and did not delete it
      rename_i hfail
      rw [deleteAt_failed (Bool.eq_false_iff.mpr hfail)] at hb
      refine ⟨Bool.eq_false_iff.mpr fun hreach => ?_, hb⟩
      exact hfail (deleteAt_ok_iff.mpr ⟨hreach, hsome⟩)
  · rintro ⟨hno, hb⟩
    rw [deleteAt, hno]
    exact hb

/-- **When a failed DELETE can be repeated**, from the state before it: it reached no node that
the map records for the key, each of them stores its blocks, and no other node stores the key. -/
theorem DeleteRun.retryable_iff (hk : PlainKey key) {c : Cluster} {bm : BlockNodeMap}
    (hdistinct : ∀ n, (c.nodes n).Distinct)
    (hbm : c.master.keyBlockNodeMap[padded key]? = some bm) {r : Response × Cluster}
    (h : DeleteRun env reach key c bm r) (hdistinct' : ∀ n, (r.2.nodes n).Distinct)
    (hfailed : r.1.status ≠ .OK) :
    Retryable env key r.2 ↔
      (∀ b n, bm.Related b n → reach n = false ∧
        b ∈ (c.nodes n).reported env.sha256_32 (padded key)) ∧
      ∀ n ∈ c.master.storageNodes, (c.nodes n).contents (env.sha256_32 (padded key)) ≠ none →
        ∃ b, bm.Related b n := by
  rcases h.answer with ⟨hr, -⟩ | ⟨-, -, hmaster⟩
  · rw [hr] at hfailed
    exact absurd rfl hfailed
  have hbm' : r.2.master.keyBlockNodeMap[padded key]? = some bm := by
    rw [hmaster.keyBlockNodeMap]
    exact hbm
  rw [retryable_iff_stored hk hdistinct' hbm']
  refine and_congr (forall₂_congr fun b n => imp_congr_right fun hb => ?_)
    (forall_congr' fun n => ?_)
  · rw [h.nodes n ⟨b, hb⟩, reported_deleteAt (hdistinct n)]
  · rw [hmaster.mem_storageNodes]
    refine imp_congr_right fun _ => ?_
    by_cases hrel : ∃ b, bm.Related b n
    · exact iff_of_true (fun _ => hrel) fun _ => hrel
    · rw [h.others n fun b hb => hrel ⟨b, hb⟩]

/-- **Every failed DELETE of a stored key**, in every reachable cluster. -/
theorem retryable_after_delete_iff (hk : PlainKey key) {junk : Junk} {config : MasterConfig}
    {diskBlockSize maxDataSize : UInt32} {c c' : Cluster}
    (hc : Reachable env (Cluster.fresh env junk config diskBlockSize maxDataSize) c)
    {bm : BlockNodeMap} (hbm : c.master.keyBlockNodeMap[padded key]? = some bm) {fuel : Nat}
    {response : Response}
    (hdel : c.router env reach fuel ⟨.DEL, storeUri key, []⟩ = some (some response, c'))
    (hfailed : response.status ≠ .OK) :
    Retryable env key c' ↔
      (∀ b n, bm.Related b n → reach n = false ∧
        b ∈ (c.nodes n).reported env.sha256_32 (padded key)) ∧
      ∀ n ∈ c.master.storageNodes, (c.nodes n).contents (env.sha256_32 (padded key)) ≠ none →
        ∃ b, bm.Related b n := by
  have hc' := hc.request hdel
  rw [(router_store env reach hk fuel c []).2.2, Option.some.injEq, Prod.mk.injEq,
    Option.some.injEq] at hdel
  obtain ⟨rfl, rfl⟩ := hdel
  have hrun := deleteHandler_run env reach hk hbm fun b n _ => (hc.distinct n).keyLengthMax
  exact hrun.retryable_iff hk hc.distinct hbm hc'.distinct hfailed

/-- A DELETE that reaches no node can be repeated. -/
theorem retryable_after_delete_sample :
    ∃ c c', sampleCluster.router (Env.ofHash sampleHash) (fun _ => true) 100
        ⟨.PUT, storeUri [97], [1, 2, 3, 4, 5, 6, 7, 8, 9, 10]⟩ = some (some ⟨.OK, []⟩, c) ∧
      c.router (Env.ofHash sampleHash) (fun _ => false) 100 ⟨.DEL, storeUri [97], []⟩
        = some (some ⟨.InternalError, []⟩, c') ∧ Retryable (Env.ofHash sampleHash) [97] c' := by
  have hall : (do
      let r₁ ← sampleCluster.router (Env.ofHash sampleHash) (fun _ => true) 100
        ⟨.PUT, storeUri [97], [1, 2, 3, 4, 5, 6, 7, 8, 9, 10]⟩
      let r₂ ← r₁.2.router (Env.ofHash sampleHash) (fun _ => false) 100 ⟨.DEL, storeUri [97], []⟩
      some (r₁.1, r₂.1)) = some (some ⟨.OK, []⟩, some ⟨.InternalError, []⟩) := by
    decide +kernel
  simp only [Option.bind_eq_bind, Option.bind_eq_some_iff, Option.some.injEq, Prod.mk.injEq] at hall
  obtain ⟨⟨_, c⟩, h₁, ⟨_, c'⟩, h₂, rfl, rfl⟩ := hall
  have hfits : FitsPayload sampleCluster.master.config.dataBlockSize
      [1, 2, 3, 4, 5, 6, 7, 8, 9, 10] := ⟨by decide, by decide⟩
  obtain ⟨bm, hd⟩ := put_done clientKey_sample.toPlainKey hfits sampleCluster_ok h₁
  have hs := hd.stores hfits fun b hb => hd.exists_node hfits (by decide) hb
  refine ⟨c, c', h₁, h₂, (retryable_after_delete_iff clientKey_sample.toPlainKey
    (.request .start h₁) hs.recorded h₂ (by decide)).mpr ⟨fun b n hb => ⟨rfl, ?_⟩, ?_⟩⟩
  · obtain ⟨raw, blockNums, -, -, hrep, -, hnums⟩ := hs.reported hb
      ((hd.ok n (hd.known hb)).dataBlockSize.trans (congrArg _ hd.master.config).symm)
    rw [hrep]
    exact (hnums b).mpr hb
  · intro n _ hsome
    by_contra hno
    refine hsome ((hd.others n _ fun _ b hb => hno ⟨b, hb⟩).trans ?_)
    exact StorageServer.contents_new default 8 64 4 _

/-- A DELETE of a key on three nodes reaches two of them. The map goes on recording a block on
node 0, which stores nothing of the key any more, and a DELETE that reaches all nodes is
answered with an error. -/
theorem stuck_after_failed_delete :
    ∃ c c' c'', Reachable (Env.ofHash sampleHash) sampleCluster c ∧
      c.router (Env.ofHash sampleHash) (fun n => n != 1) 100 ⟨.DEL, storeUri [97], []⟩
        = some (some ⟨.InternalError, []⟩, c') ∧
      Nested.Holds c'.master.keyBlockNodeMap (padded [97]) 1 0 ∧
      (c'.nodes 0).reported sampleHash (padded [97]) = [] ∧
      c'.router (Env.ofHash sampleHash) (fun _ => true) 100 ⟨.DEL, storeUri [97], []⟩
        = some (some ⟨.InternalError, []⟩, c'') := by
  have hall : (do
      let r₁ ← sampleCluster.router (Env.ofHash sampleHash) (fun _ => true) 100
        ⟨.PUT, storeUri [97], [1, 2, 3, 4, 5, 6, 7, 8, 9, 10]⟩
      let r₂ ← r₁.2.router (Env.ofHash sampleHash) (fun n => n != 1) 100
        ⟨.DEL, storeUri [97], []⟩
      let r₃ ← r₂.2.router (Env.ofHash sampleHash) (fun _ => true) 100 ⟨.DEL, storeUri [97], []⟩
      some (r₂.1, decide (Nested.Holds r₂.2.master.keyBlockNodeMap (padded [97]) 1 0),
        (r₂.2.nodes 0).reported sampleHash (padded [97]), r₃.1))
      = some (some ⟨.InternalError, []⟩, true, [], some ⟨.InternalError, []⟩) := by
    decide +kernel
  simp only [Option.bind_eq_bind, Option.bind_eq_some_iff, Option.some.injEq, Prod.mk.injEq,
    decide_eq_true_eq] at hall
  obtain ⟨⟨_, c⟩, h₁, ⟨_, c'⟩, h₂, ⟨_, c''⟩, h₃, rfl, hholds, hnone, rfl⟩ := hall
  exact ⟨c, c', c'', .request .start h₁, h₂, hholds, hnone, h₃⟩

end Cluster

end RackKey
