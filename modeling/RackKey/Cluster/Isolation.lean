import RackKey.Cluster.Delete
import RackKey.Cluster.FailedPut

set_option autoImplicit false

/-! # Keys do not alias

A key is cut or padded to 50 bytes and found by the 32-bit hash of these bytes. Two keys whose
padded forms have different hashes do not disturb one another over nodes in order: a PUT or
DELETE of one leaves the entry of the other in the map, and its contents at every node
(`get_other_key`). Keys with the same first 50 bytes, keys with one hash, and keys at a node
whose map of free blocks or stream is out of order do (`aliasing_keys`).
-/

namespace RackKey

open Std Words Payloads DiskStorage

namespace Cluster

variable {env : Env} {reach : Nat → Bool} {key key' : Bytes} {dataBlockSize : UInt32}

variable (env reach key) in
/-- No request of a DELETE changes what a node holds under other hashes. -/
theorem deleteAt_others (n : Nat) {srv : StorageServer}
    (ho : srv.Ok dataBlockSize) :
    (deleteAt env reach key n srv).2.Readable dataBlockSize ∧
      ∀ k, k ≠ env.sha256_32 (padded key) →
        (deleteAt env reach key n srv).2.contents k = srv.contents k := by
  cases h : (deleteAt env reach key n srv).1 with
  | false =>
      rw [deleteAt_failed h]
      exact ⟨ho.toReadable, fun _ _ => rfl⟩
  | true =>
      obtain ⟨ds', hdel, hsrv⟩ := deleteAt_ok h
      obtain ⟨ho', hcontents⟩ := ho.delete hdel
      rw [hsrv]
      refine ⟨ho'.toReadable, fun k hk => ?_⟩
      exact (hcontents k).trans (if_neg hk)

/-- `c'` is `c` for everyone who asks for the key. -/
structure SameFor (env : Env) (key : Bytes) (dataBlockSize : UInt32) (c c' : Cluster) :
    Prop where
  entry : c'.master.keyBlockNodeMap[padded key]? = c.master.keyBlockNodeMap[padded key]?
  mem_storageNodes : ∀ n : Nat, n ∈ c'.master.storageNodes ↔ n ∈ c.master.storageNodes
  readable : ∀ n, (c'.nodes n).Readable dataBlockSize
  contents : ∀ n, (c'.nodes n).contents (env.sha256_32 (padded key))
    = (c.nodes n).contents (env.sha256_32 (padded key))

theorem SameFor.getAnswer {c c' : Cluster} (h : SameFor env key dataBlockSize c c')
    (hk : PlainKey key) (hnodes : ∀ n, (c.nodes n).Ok dataBlockSize) (reach healthy : Nat → Bool) :
    getAnswer env reach healthy c' key = getAnswer env reach healthy c key :=
  getAnswer_congr hk (fun n _ => (hnodes n).toReadable) (fun n _ => h.readable n)
    h.mem_storageNodes h.entry reach healthy fun n _ => h.contents n

/-- A PUT of another key. -/
theorem PutRun.sameFor {fuel : Nat} {payload : Bytes} {c : Cluster} {r : Response × Cluster}
    (h : PutRun env reach fuel key payload c r)
    (hnodes : ∀ n, (c.nodes n).Ok dataBlockSize)
    (hne : env.sha256_32 (padded key') ≠ env.sha256_32 (padded key)) :
    SameFor env key' dataBlockSize c r.2 := by
  have hkey : padded key' ≠ padded key := fun he => hne (congrArg env.sha256_32 he)
  have hnode : ∀ n, (r.2.nodes n).Readable dataBlockSize ∧
      (r.2.nodes n).contents (env.sha256_32 (padded key'))
        = (c.nodes n).contents (env.sha256_32 (padded key')) := by
    intro n
    rw [h.nodes n]
    split
    · -- a node that is sent nothing
      exact ⟨(hnodes n).toReadable, rfl⟩
    · -- a node that is sent blocks of the other hash
      obtain ⟨hr, hcontents⟩ := putAt_others env reach key n (hnodes n)
        (sentTo env fuel key payload c n)
      exact ⟨hr, hcontents _ hne⟩
  have hmaster : r.2.master.keyBlockNodeMap[padded key']?
        = c.master.keyBlockNodeMap[padded key']? ∧
      ∀ n : Nat, n ∈ r.2.master.storageNodes ↔ n ∈ c.master.storageNodes := by
    -- the entry of the other key is replaced, or nothing is when a node failed
    rcases h.answer with ⟨-, -, bm, -, -, hm⟩ | ⟨-, -, hm⟩
    · refine ⟨?_, hm.mem_storageNodes⟩
      rw [hm.keyBlockNodeMap]
      show (c.master.keyBlockNodeMap.insert (padded key) bm)[padded key']? = _
      rw [getElem?_insert_eq, if_neg hkey.symm]
    · exact ⟨by rw [hm.keyBlockNodeMap], hm.mem_storageNodes⟩
  exact ⟨hmaster.1, hmaster.2, fun n => (hnode n).1, fun n => (hnode n).2⟩

/-- A DELETE of another key. -/
theorem DeleteRun.sameFor {c : Cluster} {bm : BlockNodeMap} {r : Response × Cluster}
    (h : DeleteRun env reach key c bm r)
    (hnodes : ∀ n, (c.nodes n).Ok dataBlockSize)
    (hne : env.sha256_32 (padded key') ≠ env.sha256_32 (padded key)) :
    SameFor env key' dataBlockSize c r.2 := by
  have hkey : padded key' ≠ padded key := fun he => hne (congrArg env.sha256_32 he)
  have hnode : ∀ n, (r.2.nodes n).Readable dataBlockSize ∧
      (r.2.nodes n).contents (env.sha256_32 (padded key'))
        = (c.nodes n).contents (env.sha256_32 (padded key')) := by
    intro n
    by_cases hasked : ∃ b, bm.Related b n
    · rw [h.nodes n hasked]
      obtain ⟨hr, hcontents⟩ := deleteAt_others env reach key n (hnodes n)
      exact ⟨hr, hcontents _ hne⟩
    · rw [h.others n fun b hb => hasked ⟨b, hb⟩]
      exact ⟨(hnodes n).toReadable, rfl⟩
  have hmaster : r.2.master.keyBlockNodeMap[padded key']?
        = c.master.keyBlockNodeMap[padded key']? ∧
      ∀ n : Nat, n ∈ r.2.master.storageNodes ↔ n ∈ c.master.storageNodes := by
    -- the entry of the other key is erased, or nothing is when a node failed
    rcases h.answer with ⟨-, -, hm⟩ | ⟨-, -, hm⟩
    · refine ⟨?_, hm.mem_storageNodes⟩
      rw [hm.keyBlockNodeMap]
      show (c.master.keyBlockNodeMap.erase (padded key))[padded key']? = _
      rw [ExtTreeMap.getElem?_erase, if_neg]
      intro he
      exact hkey (LawfulEqOrd.compare_eq_iff_eq.mp he).symm
    · exact ⟨by rw [hm.keyBlockNodeMap], hm.mem_storageNodes⟩
  exact ⟨hmaster.1, hmaster.2, fun n => (hnode n).1, fun n => (hnode n).2⟩

/-- **A PUT or DELETE of one key never changes what a GET of another answers**, over nodes in
order, when the padded keys have different hashes. -/
theorem get_other_key (hk : PlainKey key) (hk' : PlainKey key') {c c' : Cluster}
    (hne : env.sha256_32 (padded key') ≠ env.sha256_32 (padded key))
    (hnodes : ∀ n, (c.nodes n).Ok dataBlockSize) {fuel : Nat} {method : Method}
    (hmethod : method = .PUT ∨ method = .DEL) {body : Bytes} {response : Option Response}
    (h : c.router env reach fuel ⟨method, storeUri key, body⟩ = some (response, c'))
    (reach' healthy : Nat → Bool) :
    getAnswer env reach' healthy c' key' = getAnswer env reach' healthy c key' := by
  obtain ⟨hput, -, hdelete⟩ := router_store env reach hk fuel c body
  rcases hmethod with rfl | rfl
  · rw [hput] at h
    obtain ⟨r, hr, heq⟩ := Option.map_eq_some_iff.mp h
    obtain ⟨-, rfl⟩ := Prod.mk.inj heq
    have hrun := putHandler_run hk (fun n _ => (hnodes n).keyLengthMax) hr
    exact (hrun.sameFor hnodes hne).getAnswer hk' hnodes reach' healthy
  · rw [hdelete] at h
    obtain ⟨-, rfl⟩ := Prod.mk.inj (Option.some.inj h)
    cases hbm : c.master.keyBlockNodeMap[padded key]? with
    | none =>
        -- an unknown key is answered with an error at once
        unfold deleteHandler
        rw [hbm]
    | some bm =>
        have hrun := deleteHandler_run env reach hk hbm fun _ n _ => (hnodes n).keyLengthMax
        exact (hrun.sameFor hnodes hne).getAnswer hk' hnodes reach' healthy

/-! ## Samples -/

/-- A PUT of `b` leaves the payload that a GET of `a` answers. -/
theorem get_other_key_sample :
    ∃ c response c', sampleCluster.router (Env.ofHash sampleHash) (fun _ => true) 100
        ⟨.PUT, storeUri [97], samplePayload⟩ = some (some ⟨.OK, []⟩, c) ∧
      c.router (Env.ofHash sampleHash) (fun _ => true) 100
        ⟨.PUT, storeUri [98], sampleOverwrite⟩ = some (response, c') ∧
      getAnswer (Env.ofHash sampleHash) (fun _ => true) (fun _ => true) c [97]
        = some (some ⟨.OK, samplePayload⟩) ∧
      getAnswer (Env.ofHash sampleHash) (fun _ => true) (fun _ => true) c' [97]
        = getAnswer (Env.ofHash sampleHash) (fun _ => true) (fun _ => true) c [97] := by
  have hall : (do
      let r₁ ← sampleCluster.router (Env.ofHash sampleHash) (fun _ => true) 100
        ⟨.PUT, storeUri [97], samplePayload⟩
      let r₂ ← r₁.2.router (Env.ofHash sampleHash) (fun _ => true) 100
        ⟨.PUT, storeUri [98], sampleOverwrite⟩
      some (r₁.1, getAnswer (Env.ofHash sampleHash) (fun _ => true) (fun _ => true) r₁.2 [97],
        r₂.1)) = some (some ⟨.OK, []⟩, some (some ⟨.OK, samplePayload⟩), some ⟨.OK, []⟩) := by
    decide +kernel
  simp only [Option.bind_eq_bind, Option.bind_eq_some_iff, Option.some.injEq, Prod.mk.injEq] at hall
  obtain ⟨⟨_, c⟩, hput, ⟨response, c'⟩, hput', rfl, hget, -⟩ := hall
  have hne : (Env.ofHash sampleHash).sha256_32 (padded [97])
      ≠ (Env.ofHash sampleHash).sha256_32 (padded [98]) := by decide +kernel
  have hk : PlainKey [98] := ⟨by decide, by decide⟩
  obtain ⟨bm, hd⟩ := put_done clientKey_sample.toPlainKey ⟨by decide, by decide⟩ sampleCluster_ok
    hput
  have hnew : ∀ n, (sampleCluster.nodes n).Ok 4 :=
    fun _ => StorageServer.ok_new default layout_sample 4
  have hok : ∀ n, (c.nodes n).Ok 4 := by
    intro n
    rcases hd.nodes n with hsame | ⟨blocks, ds', hwrite, hwrote⟩
    · rw [hsame]
      exact hnew n
    · rw [hwrote]
      exact ((hnew n).write hwrite).1
  exact ⟨c, response, c', hput, hput', hget, get_other_key hk clientKey_sample.toPlainKey hne hok
    (Or.inl rfl) hput' (fun _ => true) fun _ => true⟩

/-- After the PUTs of `setup`: the answer to a GET of `key'`, the reply to a PUT of `key`, and the
answer to the GET after it. -/
private def answers (hash : Bytes → UInt32) (c : Cluster) (setup : List (Bytes × Bytes))
    (key payload key' : Bytes) : Option (Option Response × Option Response × Option Response) := do
  let c ← setup.foldlM (fun c p => (c.router (Env.ofHash hash) (fun _ => true) 100
    ⟨.PUT, storeUri p.1, p.2⟩).map Prod.snd) c
  let before ← getAnswer (Env.ofHash hash) (fun _ => true) (fun _ => true) c key'
  let r ← c.router (Env.ofHash hash) (fun _ => true) 100 ⟨.PUT, storeUri key, payload⟩
  let after ← getAnswer (Env.ofHash hash) (fun _ => true) (fun _ => true) r.2 key'
  some (before, r.1, after)

private def oneNodeConfig : MasterConfig := ⟨[[49]], 1, 1, 4⟩

/-- One node, whose keys are cut to `keyLengthMax` bytes, with the given outcomes to come. -/
private def oneNode (keyLengthMax : UInt32) (outcomes : List Outcome) : Cluster :=
  let ds := newStore default 8 64 keyLengthMax
  withHealth ⟨MasterServer.initialise (Env.ofHash sampleHash) oneNodeConfig, fun _ =>
    ⟨{ ds with storeFile := { ds.storeFile with outcomes := outcomes } }, 4, keyLengthMax⟩⟩
    fun _ => true

/-- A PUT of one key changes the answer for another: two keys of 51 bytes with the same first 50;
two keys with one hash; a key whose block was freed by an overwrite that did not fit; two keys
that a node cuts to the same byte; and a stored key at a node whose next opening of its file
fails. -/
theorem aliasing_keys :
    answers sampleHash sampleCluster [] (List.replicate 50 97 ++ [98]) [1, 2, 3, 4, 5]
        (List.replicate 50 97 ++ [99])
        = some (some ⟨.InternalError, []⟩, some ⟨.OK, []⟩, some ⟨.OK, [1, 2, 3, 4, 5]⟩) ∧
      answers collidingHash (Cluster.fresh (Env.ofHash collidingHash) default sampleConfig 8 64)
        [([98], [1, 2, 3, 4, 5])] [97] [6, 7, 8] [98]
        = some (some ⟨.OK, [1, 2, 3, 4, 5]⟩, some ⟨.OK, []⟩, some ⟨.OK, [6, 7, 8, 5]⟩) ∧
      answers sampleHash (oneNode 50 [])
        [([97], [1, 2, 3, 4]), ([98], List.replicate 26 5), ([97], List.replicate 8 7)]
        [99] [9, 9, 9, 9] [97]
        = some (some ⟨.OK, [1, 2, 3, 4]⟩, some ⟨.OK, []⟩, some ⟨.OK, [9, 9, 9, 9]⟩) ∧
      answers sampleHash (oneNode 1 []) [([97, 97], [1, 2, 3, 4])] [97, 98] [9, 9, 9, 9] [97, 97]
        = some (some ⟨.OK, [1, 2, 3, 4]⟩, some ⟨.OK, []⟩, some ⟨.OK, [9, 9, 9, 9]⟩) ∧
      answers sampleHash (oneNode 50 (List.replicate 5 .done ++ [.cut 0])) [([97], [1, 2, 3, 4])]
        [98] [9, 9, 9, 9] [97]
        = some (some ⟨.InternalError, []⟩, some ⟨.InternalError, []⟩,
            some ⟨.OK, [1, 2, 3, 4]⟩) := by
  refine ⟨?_, ?_, ?_, ?_, ?_⟩
  · decide +kernel
  · decide +kernel
  · decide +kernel
  · decide +kernel
  · decide +kernel

end Cluster

end RackKey
