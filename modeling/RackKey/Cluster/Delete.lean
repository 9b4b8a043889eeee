import RackKey.Cluster.Write

set_option autoImplicit false

/-! # What a DELETE does

A DELETE asks every node that the map records for the key. A node that is reached and stores
the key removes it (`deleteAt_ok_iff`), every other node stays as it is; the map is changed only
when all of them answer OK (`deleteHandler_run`).
-/

namespace RackKey

open Std Words Payloads DiskStorage

namespace Cluster

variable {env : Env} {reach : Nat → Bool} {key : Bytes}

/-! ## One request -/

/-- The request of `deleteBlocks` at node `n`: whether it is answered OK, and the node after it. -/
def deleteAt (env : Env) (reach : Nat → Bool) (key : Bytes) (n : Nat) (srv : StorageServer) :
    Bool × StorageServer :=
  if reach n then
    let r := srv.diskStorage.deleteBlocks env.sha256_32 (padded key)
    (match r.1 with
      | .ok () => true
      | .error _ => false, { srv with diskStorage := r.2 })
  else (false, srv)

/-- **A node deletes a key exactly when it is reached and stores it.** -/
theorem deleteAt_ok_iff {n : Nat} {srv : StorageServer} :
    (deleteAt env reach key n srv).1 = true ↔
      reach n = true ∧ srv.contents (env.sha256_32 (padded key)) ≠ none := by
  unfold deleteAt
  cases hn : reach n with
  | false => simp
  | true =>
      cases hf : srv.diskStorage.findEntry env.sha256_32 (padded key) with
      | none =>
          have hnone : srv.contents (env.sha256_32 (padded key)) = none := contents_eq_none hf
          simp [DiskStorage.deleteBlocks, hf, hnone]
      | some ie =>
          obtain ⟨i, e⟩ := ie
          have hsome : srv.contents (env.sha256_32 (padded key)) = some _ := contents_eq_some hf
          simp [DiskStorage.deleteBlocks, hf, hsome]

/-- A node that answers OK has returned from a delete of the key. -/
theorem deleteAt_ok {n : Nat} {srv : StorageServer}
    (h : (deleteAt env reach key n srv).1 = true) :
    ∃ ds', srv.diskStorage.deleteBlocks env.sha256_32 (padded key) = (.ok (), ds') ∧
      (deleteAt env reach key n srv).2 = { srv with diskStorage := ds' } := by
  unfold deleteAt at h ⊢
  cases hn : reach n with
  | false => simp [hn] at h
  | true =>
      simp only [hn, if_true] at h ⊢
      rcases hd : srv.diskStorage.deleteBlocks env.sha256_32 (padded key) with ⟨res, ds'⟩
      rw [hd] at h
      cases res with
      | error err => cases h
      | ok u => exact ⟨ds', rfl, rfl⟩

/-- Any other node stays as it is. -/
theorem deleteAt_failed {n : Nat} {srv : StorageServer}
    (h : (deleteAt env reach key n srv).1 = false) : (deleteAt env reach key n srv).2 = srv := by
  unfold deleteAt at h ⊢
  cases hn : reach n with
  | false => rfl
  | true =>
      simp only [hn, if_true] at h ⊢
      cases hf : srv.diskStorage.findEntry env.sha256_32 (padded key) with
      | none => simp only [DiskStorage.deleteBlocks, hf]
      | some ie => simp [DiskStorage.deleteBlocks, hf] at h

/-- One `deleteBlocks` changes its node as the node's answer says. -/
theorem deleteBlocks_eq (env : Env) (reach : Nat → Bool) (hk : PlainKey key) (s : Bool × Cluster)
    {n : Nat} (hl : reach n = true → (s.2.nodes n).keyLengthMax = 50) :
    let p := deleteAt env reach key n (s.2.nodes n)
    let s' := deleteBlocks env reach (padded key) s n
    s'.1 = (s.1 && p.1) ∧ s'.2.nodes = Function.update s.2.nodes n p.2 ∧
      s.2.master.NodesOnly s'.2.master := by
  dsimp only
  unfold deleteBlocks deleteAt
  rw [send_delete hk s.2 hl]
  cases hn : reach n with
  | false =>
      simp only [Bool.false_eq_true, if_false, Bool.and_false, Function.update_eq_self, true_and]
      exact MasterServer.NodesOnly.refl _
  | true =>
      simp only [if_true, sizeReply]
      cases ((s.2.nodes n).diskStorage.deleteBlocks env.sha256_32 (padded key)).1 with
      | error err =>
          simp only [Bool.and_false, true_and]
          exact MasterServer.NodesOnly.refl _
      | ok u =>
          simp only [SizeInfo.deserialize_serialize, Bool.and_true, true_and]
          exact MasterServer.nodesOnly_updateStats _ _ _ _ _

/-! ## All requests -/

/-- The requests to distinct nodes do at each node what one request does there. -/
theorem foldl_deleteBlocks (env : Env) (reach : Nat → Bool) (hk : PlainKey key) {ns : List Nat}
    (hn : ns.Nodup) (s : Bool × Cluster) (hl : ∀ n ∈ ns, (s.2.nodes n).keyLengthMax = 50) :
    let s' := ns.foldl (deleteBlocks env reach (padded key)) s
    (s'.1 = true ↔ s.1 = true ∧ ∀ n ∈ ns, (deleteAt env reach key n (s.2.nodes n)).1 = true) ∧
      (∀ n, s'.2.nodes n
        = if n ∈ ns then (deleteAt env reach key n (s.2.nodes n)).2 else s.2.nodes n) ∧
      s.2.master.NodesOnly s'.2.master := by
  have hone := fun (s : Bool × Cluster) (n : Nat) (hl : (s.2.nodes n).keyLengthMax = 50) =>
    deleteBlocks_eq env reach hk s (fun _ => hl)
  have hstep : Updates.UpdatesAt (fun srv => srv.keyLengthMax = 50)
      (fun s : Bool × Cluster => s.2.nodes) (fun n srv => (deleteAt env reach key n srv).2)
      (deleteBlocks env reach (padded key)) :=
    fun s n hl => (hone s n hl).2.1
  refine ⟨?_, hstep.foldl_view hn hl, ?_⟩
  · refine hstep.foldl_forall (A := fun s => s.1 = true)
      (P := fun n srv => (deleteAt env reach key n srv).1 = true) (fun s n hl => ?_) hn hl
    rw [(hone s n hl).1, Bool.and_eq_true]
  · exact hstep.foldl_related (Q := fun s s' => s.2.master.NodesOnly s'.2.master)
      (fun _ => MasterServer.NodesOnly.refl _) (fun _ _ _ => MasterServer.NodesOnly.trans)
      (fun s n hl => (hone s n hl).2.2) hn hl

/-- The nodes asked are those recorded for some block. -/
theorem mem_allNodeIds {bm : BlockNodeMap} {n : Nat} :
    n ∈ allNodeIds bm ↔ ∃ b, bm.Related b n := by
  have hinner : ∀ (l : List Nat) (s : ExtTreeSet Nat),
      n ∈ l.foldl (fun s nodeId => s.insert nodeId) s ↔ n ∈ s ∨ n ∈ l := by
    intro l
    induction l with
    | nil => simp
    | cons a l ih =>
        intro s
        rw [List.foldl_cons, ih, ExtTreeSet.mem_insert, Std.LawfulEqOrd.compare_eq_iff_eq,
          List.mem_cons, eq_comm (a := n)]
        tauto
  have houter : ∀ (l : List (UInt32 × ExtTreeSet Nat)) (s : ExtTreeSet Nat),
      n ∈ l.foldl (fun s p => p.2.toList.foldl (fun s nodeId => s.insert nodeId) s) s ↔
        n ∈ s ∨ ∃ p ∈ l, n ∈ p.2 := by
    intro l
    induction l with
    | nil => simp
    | cons p l ih =>
        intro s
        rw [List.foldl_cons, ih, hinner, ExtTreeSet.mem_toList, or_assoc]
        simp
  rw [allNodeIds, houter]
  constructor
  · rintro (h | ⟨⟨b, s⟩, hp, hn⟩)
    · exact absurd h ExtTreeSet.not_mem_empty
    · refine ⟨b, ?_⟩
      show n ∈ bm.values b
      rw [(values_of_mem_toList hp).2]
      exact hn
  · rintro ⟨b, hb⟩
    have hmem := Multimap.mem_of_related hb
    refine Or.inr ⟨(b, bm.values b), ?_, hb⟩
    rw [ExtTreeMap.mem_toList_iff_getElem?_eq_some, Multimap.values]
    exact ExtTreeMap.getElem?_eq_some_getD hmem

/-! ## A DELETE -/

/-- What a DELETE of a recorded key did. -/
structure DeleteRun (env : Env) (reach : Nat → Bool) (key : Bytes) (c : Cluster) (bm : BlockNodeMap)
    (r : Response × Cluster) : Prop where
  nodes : ∀ n, (∃ b, bm.Related b n) → r.2.nodes n = (deleteAt env reach key n (c.nodes n)).2
  others : ∀ n, (∀ b, ¬ bm.Related b n) → r.2.nodes n = c.nodes n
  answer : (r.1 = ⟨.OK, []⟩ ∧
      (∀ b n, bm.Related b n → (deleteAt env reach key n (c.nodes n)).1 = true) ∧
      MasterServer.NodesOnly
        { c.master with keyBlockNodeMap := c.master.keyBlockNodeMap.erase (padded key) }
        r.2.master) ∨
    (r.1 = ⟨.InternalError, []⟩ ∧
      (∃ b n, bm.Related b n ∧ (deleteAt env reach key n (c.nodes n)).1 = false) ∧
      c.master.NodesOnly r.2.master)

/-- **Every DELETE of a recorded key is such a run.** -/
theorem deleteHandler_run (env : Env) (reach : Nat → Bool) (hk : PlainKey key) {c : Cluster}
    {bm : BlockNodeMap} (hbm : c.master.keyBlockNodeMap[padded key]? = some bm)
    (hl : ∀ b n, bm.Related b n → (c.nodes n).keyLengthMax = 50) :
    DeleteRun env reach key c bm (c.deleteHandler env reach (padded key)) := by
  have hkeys : ∀ n, n ∈ env.order (allNodeIds bm).toList ↔ ∃ b, bm.Related b n := by
    intro n
    rw [(env.order_perm _).mem_iff, ExtTreeSet.mem_toList, mem_allNodeIds]
  obtain ⟨hsuc, hnodes, hmaster⟩ := foldl_deleteBlocks env reach hk
    ((env.order_perm _).nodup_iff.mpr (nodup_toList _)) (true, c) (by
      intro n hn
      obtain ⟨b, hb⟩ := (hkeys n).mp hn
      exact hl b n hb)
  unfold deleteHandler
  simp only [hbm]
  set s := (env.order (allNodeIds bm).toList).foldl (deleteBlocks env reach (padded key)) (true, c)
    with hs
  by_cases hok : s.1 = true
  · rw [if_pos hok]
    refine ⟨fun n hn => ?_, fun n hn => ?_, Or.inl ⟨rfl, fun b n hb => ?_, ?_⟩⟩
    · exact (hnodes n).trans (if_pos ((hkeys n).mpr hn))
    · exact (hnodes n).trans (if_neg fun h => (hn _ ((hkeys n).mp h).choose_spec).elim)
    · exact (hsuc.mp hok).2 n ((hkeys n).mpr ⟨b, hb⟩)
    · refine ⟨hmaster.hashRing, ?_, hmaster.config, hmaster.mem_storageNodes⟩
      show s.2.master.keyBlockNodeMap.erase _ = _
      rw [hmaster.keyBlockNodeMap]
  · rw [if_neg hok]
    refine ⟨fun n hn => ?_, fun n hn => ?_, Or.inr ⟨rfl, ?_, hmaster⟩⟩
    · exact (hnodes n).trans (if_pos ((hkeys n).mpr hn))
    · exact (hnodes n).trans (if_neg fun h => (hn _ ((hkeys n).mp h).choose_spec).elim)
    · by_contra hnone
      refine hok (hsuc.mpr ⟨rfl, fun n hn => ?_⟩)
      obtain ⟨b, hb⟩ := (hkeys n).mp hn
      by_contra hfail
      exact hnone ⟨b, n, hb, Bool.eq_false_iff.mpr hfail⟩

end Cluster

end RackKey
