import RackKey.Cluster.Read
import RackKey.Lib.Updates
import RackKey.Master.Placement

set_option autoImplicit false

/-! # What a PUT does

The requests of a PUT act on distinct nodes, so the cluster after it is given node by node
(`foldl_sendBlocks`). `PutRun` collects what a PUT did whatever its answer, and
`PutRun.done` is the state that a PUT answered OK leaves.
-/

namespace RackKey

open Std Words Payloads DiskStorage

/-- `m'` is `m` up to what it knows about the state of its nodes. -/
structure MasterServer.NodesOnly (m m' : MasterServer) : Prop where
  hashRing : m'.hashRing = m.hashRing
  keyBlockNodeMap : m'.keyBlockNodeMap = m.keyBlockNodeMap
  config : m'.config = m.config
  mem_storageNodes : ∀ n : Nat, n ∈ m'.storageNodes ↔ n ∈ m.storageNodes

namespace MasterServer

theorem NodesOnly.refl (m : MasterServer) : NodesOnly m m := ⟨rfl, rfl, rfl, fun _ => Iff.rfl⟩

theorem NodesOnly.trans {m m' m'' : MasterServer} (h : NodesOnly m m') (h' : NodesOnly m' m'') :
    NodesOnly m m'' :=
  ⟨h'.hashRing.trans h.hashRing, h'.keyBlockNodeMap.trans h.keyBlockNodeMap,
    h'.config.trans h.config, fun n => (h'.mem_storageNodes n).trans (h.mem_storageNodes n)⟩

theorem nodesOnly_updateStats (m : MasterServer) (n : Nat) (blocksAdded blocksRemoved : UInt32)
    (sizeInfo : SizeInfo) : NodesOnly m (m.updateStats n blocksAdded blocksRemoved sizeInfo) :=
  ⟨rfl, rfl, rfl, fun _ => ExtTreeMap.mem_modify⟩

end MasterServer

namespace Cluster

variable {env : Env} {reach : Nat → Bool} {key : Bytes}

/-! ## One request -/

/-- The request of `sendBlocks` at node `n`: whether it is answered OK, and the node after it. -/
def putAt (env : Env) (reach : Nat → Bool) (key : Bytes) (n : Nat) (srv : StorageServer)
    (blocks : List Block) : Bool × StorageServer :=
  if reach n then
    match Block.deserialize (Block.serializeAll blocks) with
    | none => (false, srv)
    | some blocks =>
        let r := srv.diskStorage.writeBlocks env.sha256_32 (padded key) blocks
        (match r.1 with
          | .ok () => true
          | .error _ => false, { srv with diskStorage := r.2 })
  else (false, srv)

/-- The pairs a node adds to the inner map. -/
def recordsOf (n : Nat) (blocks : List Block) : List (UInt32 × Nat) :=
  blocks.map fun b => (b.blockNum, n)

/-- A reply that tells whether the request was answered OK, with the sizes if it was. -/
def Tells (ok : Bool) (reply : Option Response) : Prop :=
  if ok then ∃ sizeInfo : SizeInfo, reply = some ⟨.OK, sizeInfo.serialize⟩
  else ∀ body, reply ≠ some ⟨.OK, body⟩

/-- **The request at its node**: the reply, and the node after it. -/
theorem send_putAt (env : Env) (reach : Nat → Bool) (hk : PlainKey key) (c : Cluster) {n : Nat}
    (hl : reach n = true → (c.nodes n).keyLengthMax = 50) (blocks : List Block) :
    let p := putAt env reach key n (c.nodes n) blocks
    let r := c.send env reach n ⟨.PUT, storeUri (padded key), Block.serializeAll blocks⟩
    Tells p.1 r.1 ∧ r.2 = { c with nodes := Function.update c.nodes n p.2 } := by
  dsimp only
  unfold putAt
  rw [send_put hk c hl]
  cases hn : reach n with
  | false =>
      -- not reached: there is no reply, and the node has seen nothing
      simp only [Bool.false_eq_true, if_false, Function.update_eq_self, and_true]
      exact fun body h => by cases h
  | true =>
      simp only [if_true]
      cases Block.deserialize (Block.serializeAll blocks) with
      | none =>
          simp only [Function.update_eq_self, and_true]
          exact fun body h => by cases h
      | some blocks' =>
          rcases hw : (c.nodes n).diskStorage.writeBlocks env.sha256_32 (padded key) blocks'
            with ⟨res, ds'⟩
          simp only [hw, sizeReply, and_true]
          cases res with
          | error err => exact fun body h => by cases h
          | ok u => exact ⟨_, rfl⟩

/-- **The reply at the master**: the success flag and the inner map. -/
theorem assign_eq {ok : Bool} {reply : Option Response} (h : Tells ok reply) (K : Bytes) (n : Nat)
    (blocks : List Block) (s : Bool × BlockNodeMap) (m : MasterServer) :
    (assign K n blocks s m reply).1.1 = (s.1 && ok) ∧
      (assign K n blocks s m reply).1.2 = (if ok then s.2.addAll (recordsOf n blocks) else s.2) ∧
      m.NodesOnly (assign K n blocks s m reply).2 := by
  cases ok with
  | true =>
      obtain ⟨sizeInfo, rfl⟩ := h
      simp only [assign, SizeInfo.deserialize_serialize, Bool.and_true, if_true, true_and]
      exact ⟨rfl, MasterServer.nodesOnly_updateStats _ _ _ _ _⟩
  | false =>
      have hother : assign K n blocks s m reply = ((false, s.2), m) := by
        rcases reply with _ | ⟨status, body⟩
        · rfl
        · cases status with
          | OK => exact absurd rfl (h body)
          | InternalError => rfl
          | NotImplemented => rfl
      rw [hother, Bool.and_false]
      exact ⟨rfl, rfl, MasterServer.NodesOnly.refl m⟩

/-- **One `sendBlocks`** changes its node as the node's answer says. -/
theorem sendBlocks_eq (env : Env) (reach : Nat → Bool) (hk : PlainKey key) (s : PutState)
    {n : Nat} (hl : reach n = true → (s.cluster.nodes n).keyLengthMax = 50) (blocks : List Block) :
    let p := putAt env reach key n (s.cluster.nodes n) blocks
    let s' := sendBlocks env reach (padded key) s n blocks
    s'.success = (s.success && p.1) ∧
      s'.blockNodeMap = (if p.1 then s.blockNodeMap.addAll (recordsOf n blocks)
        else s.blockNodeMap) ∧
      s'.cluster.nodes = Function.update s.cluster.nodes n p.2 ∧
      s.cluster.master.NodesOnly s'.cluster.master := by
  obtain ⟨htells, hsend⟩ := send_putAt env reach hk s.cluster hl blocks
  obtain ⟨hsuccess, hmap, hmaster⟩ := assign_eq htells (padded key) n blocks
    (s.success, s.blockNodeMap) s.cluster.master
  unfold sendBlocks
  dsimp only
  rw [hsend]
  exact ⟨hsuccess, hmap, rfl, hmaster⟩

/-! ## All requests -/

/-- What the requests to the nodes of `ns` did, node `n` being sent `g n`. -/
structure Sent (env : Env) (reach : Nat → Bool) (key : Bytes) (g : Nat → List Block) (ns : List Nat)
    (s s' : PutState) : Prop where
  success : s'.success = true ↔ s.success = true ∧
    ∀ n ∈ ns, (putAt env reach key n (s.cluster.nodes n) (g n)).1 = true
  nodes : ∀ n, s'.cluster.nodes n
    = if n ∈ ns then (putAt env reach key n (s.cluster.nodes n) (g n)).2 else s.cluster.nodes n
  related : ∀ b n, s'.blockNodeMap.Related b n ↔
    (n ∈ ns ∧ (putAt env reach key n (s.cluster.nodes n) (g n)).1 = true ∧
      b ∈ (g n).map Block.blockNum) ∨ s.blockNodeMap.Related b n
  proper : s.blockNodeMap.Proper → s'.blockNodeMap.Proper
  master : s.cluster.master.NodesOnly s'.cluster.master

theorem mem_recordsOf {n n' : Nat} {blocks : List Block} {b : UInt32} :
    (b, n') ∈ recordsOf n blocks ↔ n = n' ∧ b ∈ blocks.map Block.blockNum := by
  simp only [recordsOf, List.mem_map, Prod.mk.injEq]
  constructor
  · rintro ⟨x, hx, rfl, rfl⟩
    exact ⟨rfl, x, hx, rfl⟩
  · rintro ⟨rfl, x, hx, rfl⟩
    exact ⟨x, hx, rfl, rfl⟩

/-- **The requests to distinct nodes** do at each node what one request does there. -/
theorem foldl_sendBlocks (env : Env) (reach : Nat → Bool) (hk : PlainKey key)
    (g : Nat → List Block) {ns : List Nat} (hn : ns.Nodup) (s : PutState)
    (hl : ∀ n ∈ ns, (s.cluster.nodes n).keyLengthMax = 50) :
    Sent env reach key g ns s
      (ns.foldl (fun s n => sendBlocks env reach (padded key) s n (g n)) s) := by
  have hone := fun (s : PutState) (n : Nat) (hl : (s.cluster.nodes n).keyLengthMax = 50) =>
    sendBlocks_eq env reach hk s (fun _ => hl) (g n)
  have hstep : Updates.UpdatesAt (fun srv => srv.keyLengthMax = 50)
      (fun s : PutState => s.cluster.nodes)
      (fun n srv => (putAt env reach key n srv (g n)).2)
      fun s n => sendBlocks env reach (padded key) s n (g n) :=
    fun s n hl => (hone s n hl).2.2.1
  refine ⟨?_, hstep.foldl_view hn hl, fun b n => ?_, ?_, ?_⟩
  · refine hstep.foldl_forall (A := fun s => s.success = true)
      (P := fun n srv => (putAt env reach key n srv (g n)).1 = true) (fun s n hl => ?_) hn hl
    rw [(hone s n hl).1, Bool.and_eq_true]
  · refine (hstep.foldl_exists (A := fun s => s.blockNodeMap.Related b n)
      (P := fun n' srv => n' = n ∧ (putAt env reach key n' srv (g n')).1 = true ∧
        b ∈ (g n').map Block.blockNum) (fun s n' hl => ?_) hn hl).trans ?_
    · rw [(hone s n' hl).2.1]
      split
      · -- the numbers sent are recorded for the node, which is the one asked
        rename_i hok
        rw [Multimap.related_addAll, mem_recordsOf, and_iff_right hok]
      · rename_i hfail
        simp [hfail]
    · refine or_congr_left ⟨?_, fun h => ⟨n, h.1, rfl, h.2⟩⟩
      rintro ⟨n', hn', rfl, h⟩
      exact ⟨hn', h⟩
  · exact hstep.foldl_related (Q := fun s s' => s.blockNodeMap.Proper → s'.blockNodeMap.Proper)
      (fun _ h => h) (fun _ _ _ h h' => h' ∘ h) (fun s n hl hproper => by
        rw [(hone s n hl).2.1]
        split
        · exact hproper.addAll _
        · exact hproper) hn hl
  · exact hstep.foldl_related (Q := fun s s' => s.cluster.master.NodesOnly s'.cluster.master)
      (fun _ => MasterServer.NodesOnly.refl _) (fun _ _ _ => MasterServer.NodesOnly.trans)
      (fun s n hl => (hone s n hl).2.2.2) hn hl

/-! ## A PUT -/

/-- The blocks of a new payload that go to node `n`. -/
def sentTo (env : Env) (fuel : Nat) (key payload : Bytes) (c : Cluster) (n : Nat) : List Block :=
  match c.master.buildBlocks (padded key) payload (UInt32.ofNat payload.length) fuel 0 0 with
  | none => []
  | some blocks => c.master.assigned env fuel (padded key) blocks n

/-- What a PUT did. -/
structure PutRun (env : Env) (reach : Nat → Bool) (fuel : Nat) (key payload : Bytes) (c : Cluster)
    (r : Response × Cluster) : Prop where
  placed : ∃ blocks,
    c.master.buildBlocks (padded key) payload (UInt32.ofNat payload.length) fuel 0 0 = some blocks ∧
    ∀ b ∈ blocks, (c.master.placement env fuel (padded key) b.blockNum).length = c.master.R.toNat
  nodes : ∀ n, r.2.nodes n
    = if sentTo env fuel key payload c n = [] then c.nodes n
      else (putAt env reach key n (c.nodes n) (sentTo env fuel key payload c n)).2
  answer : (r.1 = ⟨.OK, []⟩ ∧
      (∀ n, sentTo env fuel key payload c n ≠ [] →
        (putAt env reach key n (c.nodes n) (sentTo env fuel key payload c n)).1 = true) ∧
      ∃ bm : BlockNodeMap, bm.Proper ∧
        (∀ b n, bm.Related b n ↔ b ∈ (sentTo env fuel key payload c n).map Block.blockNum) ∧
        (c.record (padded key) bm).master.NodesOnly r.2.master) ∨
    (r.1 = ⟨.InternalError, []⟩ ∧
      (∃ n, sentTo env fuel key payload c n ≠ [] ∧
        (putAt env reach key n (c.nodes n) (sentTo env fuel key payload c n)).1 = false) ∧
      c.master.NodesOnly r.2.master)

/-- A node that is sent blocks is one the master knows. -/
theorem known_of_sentTo {fuel : Nat} {payload : Bytes} {c : Cluster} {n : Nat}
    (h : sentTo env fuel key payload c n ≠ []) : n ∈ c.master.storageNodes := by
  obtain ⟨b, hb⟩ := List.exists_mem_of_ne_nil _ h
  unfold sentTo at hb
  cases hbuild : c.master.buildBlocks (padded key) payload (UInt32.ofNat payload.length) fuel
      0 0 with
  | none =>
      rw [hbuild] at hb
      cases hb
  | some blocks =>
      rw [hbuild] at hb
      have hmem := of_decide_eq_true (List.mem_filter.mp hb).2
      -- placement selects healthy nodes, and those are known
      obtain ⟨sn, hsn, -⟩ :=
        (MasterServer.selected_placement fuel (padded key) b.blockNum).healthy n hmem
      exact mem_of_getElem?_eq_some hsn

/-- The blocks of each node, once they are all placed. -/
theorem distribute_spec {fuel : Nat} {c : Cluster} {payload : Bytes}
    {nodeBlockMap : ExtTreeMap Nat (List Block)}
    (h : c.distribute env fuel (padded key) payload = some nodeBlockMap) :
    (∃ blocks, c.master.buildBlocks (padded key) payload (UInt32.ofNat payload.length) fuel 0 0
        = some blocks ∧
      ∀ b ∈ blocks,
        (c.master.placement env fuel (padded key) b.blockNum).length = c.master.R.toNat) ∧
      (∀ n, nodeBlockMap.getD n [] = sentTo env fuel key payload c n) ∧
      ∀ n, n ∈ nodeBlockMap ↔ sentTo env fuel key payload c n ≠ [] := by
  unfold distribute at h
  simp only [Option.bind_eq_bind, Option.bind_eq_some_iff] at h
  obtain ⟨blocks, hblocks, placed, hplaced, hmap⟩ := h
  obtain rfl := Option.some.inj hmap
  obtain ⟨hlen, hitems⟩ := MasterServer.placeBlocks_spec hplaced
  have hsentTo : ∀ n, Groups.items placed n = sentTo env fuel key payload c n := by
    intro n
    rw [hitems, sentTo, hblocks]
  refine ⟨⟨blocks, hblocks, hlen⟩, fun n => (Groups.getD_group placed n).trans (hsentTo n),
    fun n => ?_⟩
  rw [Groups.mem_group, ← hsentTo]
  constructor
  · rintro ⟨b, hb⟩
    exact List.ne_nil_of_mem (Groups.mem_items.mpr hb)
  · intro hne
    obtain ⟨b, hb⟩ := List.exists_mem_of_ne_nil _ hne
    exact ⟨b, Groups.mem_items.mp hb⟩

/-- **Every PUT is such a run.** -/
theorem putHandler_run (hk : PlainKey key) {fuel : Nat} {c : Cluster} {payload : Bytes}
    (hl : ∀ n ∈ c.master.storageNodes, (c.nodes n).keyLengthMax = 50) {r : Response × Cluster}
    (h : c.putHandler env reach fuel (padded key) payload = some r) :
    PutRun env reach fuel key payload c r := by
  unfold putHandler at h
  simp only [Option.bind_eq_bind, Option.bind_eq_some_iff] at h
  obtain ⟨nodeBlockMap, hdistribute, hr⟩ := h
  obtain ⟨hplaced, hsentTo, hmem⟩ := distribute_spec hdistribute
  simp only [hsentTo] at hr
  have hkeys : ∀ n, n ∈ env.order nodeBlockMap.keys ↔ sentTo env fuel key payload c n ≠ [] := by
    intro n
    rw [(env.order_perm _).mem_iff, ExtTreeMap.mem_keys, hmem]
  have hsent := foldl_sendBlocks env reach hk (sentTo env fuel key payload c)
    ((env.order_perm _).nodup_iff.mpr nodeBlockMap.nodup_keys) ⟨true, ∅, c⟩
    fun n hn => hl n (known_of_sentTo ((hkeys n).mp hn))
  set s := (env.order nodeBlockMap.keys).foldl
    (fun s n => sendBlocks env reach (padded key) s n (sentTo env fuel key payload c n))
    ⟨true, ∅, c⟩ with hs
  have hnodes : ∀ n, s.cluster.nodes n
      = if sentTo env fuel key payload c n = [] then c.nodes n
        else (putAt env reach key n (c.nodes n) (sentTo env fuel key payload c n)).2 := by
    intro n
    rw [hsent.nodes]
    by_cases hnil : sentTo env fuel key payload c n = []
    · rw [if_neg (fun hmem => (hkeys n).mp hmem hnil), if_pos hnil]
    · rw [if_pos ((hkeys n).mpr hnil), if_neg hnil]
  by_cases hok : s.success = true
  · rw [if_pos hok] at hr
    obtain rfl := Option.some.inj hr
    have hall := (hsent.success.mp hok).2
    refine ⟨hplaced, hnodes, Or.inl ⟨rfl, fun n hne => hall n ((hkeys n).mpr hne),
      s.blockNodeMap, hsent.proper Multimap.proper_empty, fun b n => ?_, ?_⟩⟩
    · rw [hsent.related]
      constructor
      · rintro (⟨-, -, hb⟩ | hb)
        · exact hb
        · exact absurd (Multimap.mem_of_related hb) ExtTreeMap.not_mem_empty
      · intro hb
        -- a node that is sent a block is asked
        have hmem := (hkeys n).mpr fun hnil => by
          rw [hnil] at hb
          cases hb
        exact Or.inl ⟨hmem, hall n hmem, hb⟩
    · refine ⟨hsent.master.hashRing, ?_, hsent.master.config, hsent.master.mem_storageNodes⟩
      show s.cluster.master.keyBlockNodeMap.insert _ _ = _
      rw [hsent.master.keyBlockNodeMap]
      rfl
  · rw [if_neg hok] at hr
    obtain rfl := Option.some.inj hr
    refine ⟨hplaced, hnodes, Or.inr ⟨rfl, ?_, hsent.master⟩⟩
    -- if every node had answered OK, so would the PUT
    by_contra hnone
    refine hok (hsent.success.mpr ⟨rfl, fun n hn => ?_⟩)
    by_contra hfail
    exact hnone ⟨n, (hkeys n).mp hn, Bool.eq_false_iff.mpr hfail⟩

/-! ## The state after a PUT answered OK -/

/-- A node that answers OK has returned from a write of the key. -/
theorem putAt_ok {n : Nat} {srv : StorageServer} {blocks : List Block}
    (h : (putAt env reach key n srv blocks).1 = true) :
    ∃ blocks' ds', Block.deserialize (Block.serializeAll blocks) = some blocks' ∧
      srv.diskStorage.writeBlocks env.sha256_32 (padded key) blocks' = (.ok (), ds') ∧
      (putAt env reach key n srv blocks).2 = { srv with diskStorage := ds' } := by
  unfold putAt at h ⊢
  cases hn : reach n with
  | false => simp [hn] at h
  | true =>
      simp only [hn, if_true] at h ⊢
      cases hd : Block.deserialize (Block.serializeAll blocks) with
      | none => simp [hd] at h
      | some blocks' =>
          rw [hd] at h
          dsimp only at h ⊢
          rcases hw : srv.diskStorage.writeBlocks env.sha256_32 (padded key) blocks' with ⟨res, ds'⟩
          rw [hw] at h
          cases res with
          | error err => cases h
          | ok u => exact ⟨blocks', ds', rfl, hw, rfl⟩

/-- A node that answers OK stores the blocks sent to it, and nothing else changes. -/
theorem putAt_stored {dataBlockSize : UInt32} {n : Nat} {srv : StorageServer}
    (ho : srv.Ok dataBlockSize) {blocks : List Block} (hf : ∀ b ∈ blocks, b.Framed)
    (h : (putAt env reach key n srv blocks).1 = true) :
    (putAt env reach key n srv blocks).2.Ok dataBlockSize ∧
      ∀ k, (putAt env reach key n srv blocks).2.contents k
        = if k = env.sha256_32 (padded key) then some (copyBlocks blocks) else srv.contents k := by
  obtain ⟨blocks', ds', hd, hw, hsrv⟩ := putAt_ok h
  rw [Block.deserialize_serialize hf] at hd
  obtain rfl := Option.some.inj hd
  rw [hsrv]
  exact ho.write hw

section Fits

variable {fuel : Nat} {payload : Bytes} {c : Cluster}
  (hfits : FitsPayload c.master.config.dataBlockSize payload)

include hfits

/-- The blocks sent are those of the payload, once the cutting loop comes to its end. -/
theorem sentTo_eq (n : Nat) : sentTo env fuel key payload c n
    = if numBlocks c.master.config.dataBlockSize payload ≤ fuel then
        c.master.assigned env fuel (padded key)
          (payloadBlocks (padded key) c.master.config.dataBlockSize payload) n
      else [] := by
  rw [sentTo, buildBlocks_eq hfits rfl]
  by_cases hfuel : numBlocks c.master.config.dataBlockSize payload ≤ fuel
  · rw [if_pos hfuel, if_pos hfuel]
  · rw [if_neg hfuel, if_neg hfuel]

theorem framed_sentTo {n : Nat} {b : Block} (hb : b ∈ sentTo env fuel key payload c n) :
    b.Framed := by
  rw [sentTo_eq hfits] at hb
  split at hb
  · have hb := List.mem_of_mem_filter hb
    refine ⟨?_, (chunked_payloadBlocks hfits (padded key)).framed b hb⟩
    obtain ⟨i, -, rfl⟩ := List.mem_map.mp hb
    show (padded key).length < 2 ^ 32
    rw [padded_length]
    omega
  · cases hb

/-- The numbers sent to a node are those of the blocks placed on it. -/
theorem mem_sentTo {b : UInt32} {n : Nat} :
    b ∈ (sentTo env fuel key payload c n).map Block.blockNum ↔
      numBlocks c.master.config.dataBlockSize payload ≤ fuel ∧
        b.toNat < numBlocks c.master.config.dataBlockSize payload ∧
        n ∈ c.master.placement env fuel (padded key) b := by
  rw [sentTo_eq hfits]
  by_cases hfuel : numBlocks c.master.config.dataBlockSize payload ≤ fuel
  -- a cutting loop that stops early sends nothing
  swap
  · rw [if_neg hfuel]
    simp [hfuel]
  rw [if_pos hfuel, and_iff_right hfuel]
  simp only [MasterServer.assigned, List.mem_map, List.mem_filter, decide_eq_true_eq]
  constructor
  · rintro ⟨x, ⟨hx, hplace⟩, rfl⟩
    exact ⟨(mem_payloadBlocks hfits hx).1, hplace⟩
  · rintro ⟨hlt, hplace⟩
    have hnumber : (blockOf (padded key) c.master.config.dataBlockSize payload b.toNat).blockNum
        = b := UInt32.ofNat_toNat
    refine ⟨_, ⟨List.mem_map.mpr ⟨b.toNat, List.mem_range.mpr hlt, rfl⟩, ?_⟩, hnumber⟩
    rw [hnumber]
    exact hplace

/-- A map that records the blocks sent records where they are placed. -/
theorem related_placement (hfuel : numBlocks c.master.config.dataBlockSize payload ≤ fuel)
    {bm : BlockNodeMap} (hrel : ∀ b n, bm.Related b n ↔
      b ∈ (sentTo env fuel key payload c n).map Block.blockNum) (b : UInt32) (n : Nat) :
    bm.Related b n ↔ b.toNat < numBlocks c.master.config.dataBlockSize payload ∧
      n ∈ c.master.placement env fuel (padded key) b := by
  rw [hrel, mem_sentTo hfits, and_iff_right hfuel]

/-- What a node is sent is its share of the payload. -/
theorem share_eq_sentTo (hfuel : numBlocks c.master.config.dataBlockSize payload ≤ fuel)
    {bm : BlockNodeMap} (hrel : ∀ b n, bm.Related b n ↔
      b ∈ (sentTo env fuel key payload c n).map Block.blockNum) (n : Nat) :
    share bm n (payloadBlocks (padded key) c.master.config.dataBlockSize payload)
      = sentTo env fuel key payload c n := by
  rw [sentTo_eq hfits, if_pos hfuel]
  refine List.filter_congr fun b hb => decide_eq_decide.mpr ?_
  rw [related_placement hfits hfuel hrel]
  exact and_iff_right (mem_payloadBlocks hfits hb).1

/-- A PUT that runs to its end has placed every block. -/
theorem PutRun.placed_all {r : Response × Cluster} (h : PutRun env reach fuel key payload c r) :
    numBlocks c.master.config.dataBlockSize payload ≤ fuel ∧
      ∀ b < numBlocks c.master.config.dataBlockSize payload,
        (c.master.placement env fuel (padded key) (UInt32.ofNat b)).length = c.master.R.toNat := by
  obtain ⟨blocks, hbuild, hlen⟩ := h.placed
  rw [buildBlocks_eq hfits rfl] at hbuild
  split at hbuild
  · rename_i hfuel
    obtain rfl := Option.some.inj hbuild
    exact ⟨hfuel, fun b hb => hlen (blockOf (padded key) c.master.config.dataBlockSize payload b)
      (List.mem_map.mpr ⟨b, List.mem_range.mpr hb, rfl⟩)⟩
  · cases hbuild

end Fits

/-- The state after a PUT answered OK: the inner map recorded for the key, the nodes, and the
rest of the master. -/
structure PutDone (env : Env) (fuel : Nat) (key payload : Bytes) (c c' : Cluster)
    (bm : BlockNodeMap) : Prop where
  proper : bm.Proper
  related : ∀ b n, bm.Related b n ↔
    b.toNat < numBlocks c.master.config.dataBlockSize payload ∧
      n ∈ c.master.placement env fuel (padded key) b
  placed : ∀ b < numBlocks c.master.config.dataBlockSize payload,
    (c.master.placement env fuel (padded key) (UInt32.ofNat b)).length = c.master.R.toNat
  master : (c.record (padded key) bm).master.NodesOnly c'.master
  ok : ∀ n ∈ c.master.storageNodes, (c'.nodes n).Ok c.master.config.dataBlockSize
  nodes : ∀ n, c'.nodes n = c.nodes n ∨ ∃ blocks ds',
    (c.nodes n).diskStorage.writeBlocks env.sha256_32 (padded key) blocks = (.ok (), ds') ∧
      c'.nodes n = { c.nodes n with diskStorage := ds' }
  stored : ∀ n b, bm.Related b n → (c'.nodes n).contents (env.sha256_32 (padded key))
    = some (copyBlocks (share bm n
        (payloadBlocks (padded key) c.master.config.dataBlockSize payload)))
  others : ∀ n k, (k = env.sha256_32 (padded key) → ∀ b, ¬ bm.Related b n) →
    (c'.nodes n).contents k = (c.nodes n).contents k

/-- **A PUT answered OK** leaves such a state. -/
theorem PutRun.done {fuel : Nat} {payload : Bytes} {c : Cluster} {r : Response × Cluster}
    (h : PutRun env reach fuel key payload c r) (hok : r.1.status = .OK)
    (hfits : FitsPayload c.master.config.dataBlockSize payload)
    (hnodes : ∀ n ∈ c.master.storageNodes, (c.nodes n).Ok c.master.config.dataBlockSize) :
    ∃ bm, PutDone env fuel key payload c r.2 bm := by
  -- the second answer is an error
  rcases h.answer with ⟨-, hall, bm, hproper, hrel, hmaster⟩ | ⟨hr, -⟩
  swap
  · rw [hr] at hok
    cases hok
  obtain ⟨hfuel, hlen⟩ := h.placed_all hfits
  have hsome : ∀ n, sentTo env fuel key payload c n ≠ [] ↔ ∃ b, bm.Related b n := by
    intro n
    constructor
    · intro hne
      obtain ⟨x, hx⟩ := List.exists_mem_of_ne_nil _ hne
      exact ⟨x.blockNum, (hrel _ _).mpr (List.mem_map_of_mem hx)⟩
    · rintro ⟨b, hb⟩ hnil
      have hmem := (hrel b n).mp hb
      rw [hnil] at hmem
      cases hmem
  have hstored := fun n (hne : sentTo env fuel key payload c n ≠ []) =>
    putAt_stored (hnodes n (known_of_sentTo hne)) (fun b hb => framed_sentTo hfits hb) (hall n hne)
  refine ⟨bm, hproper, related_placement hfits hfuel hrel, hlen, hmaster, fun n hn => ?_,
    fun n => ?_, fun n b hb => ?_, fun n k hk => ?_⟩
  -- each node keeps what it has when it is sent nothing, and stores what it is sent
  · rw [h.nodes]
    by_cases hnil : sentTo env fuel key payload c n = []
    · rw [if_pos hnil]
      exact hnodes n hn
    · rw [if_neg hnil]
      exact (hstored n hnil).1
  · rw [h.nodes]
    by_cases hnil : sentTo env fuel key payload c n = []
    · rw [if_pos hnil]
      exact Or.inl rfl
    · rw [if_neg hnil]
      obtain ⟨blocks', ds', -, hw, hsrv⟩ := putAt_ok (hall n hnil)
      exact Or.inr ⟨_, ds', hw, hsrv⟩
  · have hne := (hsome n).mpr ⟨b, hb⟩
    rw [h.nodes, if_neg hne, (hstored n hne).2, if_pos rfl, share_eq_sentTo hfits hfuel hrel]
  · rw [h.nodes]
    by_cases hnil : sentTo env fuel key payload c n = []
    · rw [if_pos hnil]
    · obtain ⟨b, hb⟩ := (hsome n).mp hnil
      rw [if_neg hnil, (hstored n hnil).2, if_neg (fun he => hk he b hb)]

end Cluster

end RackKey
