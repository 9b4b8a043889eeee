import RackKey.Cluster.Node
import RackKey.Master.Blocks

set_option autoImplicit false

/-! # What a GET answers

`getHandler_eq`: the answer of a GET depends on the KBN entry of the key, the health flags, and
the contents of the nodes it reads from. `Stores` says that a cluster stores a payload for a
key: the KBN records its blocks, and each node holds its share of them. A GET then answers the
payload as long as every block has a healthy node (`Stores.getHandler`).
-/

namespace RackKey

open Std Words Payloads DiskStorage

namespace Cluster

variable {env : Env} {reach : Nat → Bool} {key : Bytes}

/-! ## The choice of nodes -/

theorem mem_of_isHealthy {c : Cluster} {n : Nat} (h : c.isHealthy n = true) :
    n ∈ c.master.storageNodes := by
  unfold isHealthy at h
  by_contra hn
  rw [ExtTreeMap.getElem?_eq_none hn] at h
  cases h

/-- The nodes chosen are healthy and recorded for the block they are chosen for. -/
theorem chooseNodes_spec {c : Cluster} :
    ∀ {l : List (UInt32 × ExtTreeSet Nat)} {choices : List (Nat × UInt32)},
      c.chooseNodes l = some choices → choices.map Prod.snd = l.map Prod.fst ∧
        ∀ p ∈ choices, c.isHealthy p.1 = true ∧ ∃ s, (p.2, s) ∈ l ∧ p.1 ∈ s
  | [], choices, h => by
      obtain rfl : [] = choices := Option.some.inj h
      exact ⟨rfl, by simp⟩
  | (b, s) :: l, choices, h => by
      simp only [chooseNodes, Option.bind_eq_bind, Option.bind_eq_some_iff] at h
      obtain ⟨n, hn, rest, hrest, hc⟩ := h
      obtain rfl := Option.some.inj hc
      obtain ⟨hnums, hmem⟩ := chooseNodes_spec hrest
      refine ⟨by simp only [List.map_cons, hnums], fun p hp => ?_⟩
      rcases List.mem_cons.mp hp with rfl | hp
      · exact ⟨List.find?_some hn, s, by simp,
          ExtTreeSet.mem_toList.mp (List.mem_of_find?_eq_some hn)⟩
      · obtain ⟨hh, s', hs', hps⟩ := hmem p hp
        exact ⟨hh, s', by simp [hs'], hps⟩

/-- There is a choice when every block has a healthy node. -/
theorem exists_chooseNodes {c : Cluster} :
    ∀ {l : List (UInt32 × ExtTreeSet Nat)}, (∀ p ∈ l, ∃ n ∈ p.2, c.isHealthy n = true) →
      ∃ choices, c.chooseNodes l = some choices
  | [], _ => ⟨[], rfl⟩
  | (b, s) :: l, h => by
      obtain ⟨n, hn, hh⟩ := h (b, s) (by simp)
      obtain ⟨rest, hrest⟩ := exists_chooseNodes (l := l) fun p hp => h p (by simp [hp])
      cases hf : s.toList.find? c.isHealthy with
      | none => exact absurd hh (List.find?_eq_none.mp hf n (ExtTreeSet.mem_toList.mpr hn))
      | some n₀ =>
          -- the first healthy node of the block, then the choices for the others
          refine ⟨(n₀, b) :: rest, ?_⟩
          simp only [chooseNodes, hf, hrest, Option.bind_eq_bind, Option.bind_some]

/-- An entry of the inner map lists the nodes recorded for its block. -/
theorem values_of_mem_toList {bm : BlockNodeMap} {b : UInt32} {s : ExtTreeSet Nat compare}
    (h : (b, s) ∈ bm.toList) : b ∈ bm ∧ bm.values b = s := by
  have hget := ExtTreeMap.mem_toList_iff_getElem?_eq_some.mp h
  refine ⟨mem_of_getElem?_eq_some hget, ?_⟩
  rw [Multimap.values, ExtTreeMap.getD_eq_getD_getElem?, hget]
  rfl

/-- The choices for an inner map: one healthy recorded node for each of its blocks. -/
theorem chooseNodes_toList {c : Cluster} {bm : BlockNodeMap} {choices : List (Nat × UInt32)}
    (h : c.chooseNodes bm.toList = some choices) :
    (∀ num, (∃ n, (n, num) ∈ choices) ↔ num ∈ bm) ∧
      ∀ p ∈ choices, c.isHealthy p.1 = true ∧ bm.Related p.2 p.1 := by
  obtain ⟨hnums, hmem⟩ := chooseNodes_spec h
  refine ⟨fun num => ?_, fun p hp => ?_⟩
  · rw [← ExtTreeMap.mem_keys, ← ExtTreeMap.map_fst_toList_eq_keys, ← hnums]
    simp
  · obtain ⟨hh, s, hs, hps⟩ := hmem p hp
    refine ⟨hh, ?_⟩
    show p.1 ∈ bm.values p.2
    rw [(values_of_mem_toList hs).2]
    exact hps

/-! ## Collecting replies -/

/-- The reply to a read at node `n`, `none` if the request does not get through. -/
def replyAt (env : Env) (reach : Nat → Bool) (key : Bytes) (dataBlockSize : UInt32) (c : Cluster)
    (n : Nat) (blockNums : List UInt32) : Option Response :=
  if reach n then
    some (readReply dataBlockSize (padded key) blockNums
      ((c.nodes n).contents (env.sha256_32 (padded key))))
  else none

theorem replyAt_afterReads {c c' : Cluster} (h : AfterReads c c') (dataBlockSize : UInt32) (n : Nat)
    (blockNums : List UInt32) :
    replyAt env reach key dataBlockSize c' n blockNums
      = replyAt env reach key dataBlockSize c n blockNums := by
  unfold replyAt
  rw [(h.nodes n).contents]

/-- One `getBlocks` collects the reply of its node. -/
theorem getBlocks_eq (env : Env) (reach : Nat → Bool) (hk : PlainKey key)
    {dataBlockSize : UInt32} (s : GetState) {n : Nat}
    (hr : reach n = true → (s.cluster.nodes n).Readable dataBlockSize) (blockNums : List UInt32) :
    let s' := getBlocks env reach (padded key) s n blockNums
    (s'.success, s'.blockMap) = collect (s.success, s.blockMap)
        (replyAt env reach key dataBlockSize s.cluster n blockNums) ∧
      AfterReads s.cluster s'.cluster := by
  obtain ⟨hreply, hafter⟩ := send_get hk s.cluster hr blockNums
  refine ⟨?_, hafter⟩
  unfold getBlocks
  dsimp only
  rw [hreply]
  rfl

/-- The requests of a GET collect the replies of the nodes as they are before it. -/
theorem foldl_getBlocks (env : Env) (reach : Nat → Bool) (hk : PlainKey key)
    {dataBlockSize : UInt32}
    (nodeBlockMap : ExtTreeMap Nat (List UInt32)) (ns : List Nat) (s : GetState)
    (hr : ∀ n ∈ ns, reach n = true → (s.cluster.nodes n).Readable dataBlockSize) :
    let s' := ns.foldl
      (fun s n => getBlocks env reach (padded key) s n (nodeBlockMap.getD n [])) s
    (s'.success, s'.blockMap) = ns.foldl
        (fun r n => collect r
          (replyAt env reach key dataBlockSize s.cluster n (nodeBlockMap.getD n [])))
        (s.success, s.blockMap) ∧
      AfterReads s.cluster s'.cluster := by
  induction ns generalizing s with
  | nil => exact ⟨rfl, AfterReads.refl s.cluster⟩
  | cons n ns ih =>
      obtain ⟨hstep, hafter⟩ := getBlocks_eq env reach hk s (hr n (by simp))
        (nodeBlockMap.getD n [])
      set s₁ := getBlocks env reach (padded key) s n (nodeBlockMap.getD n []) with hs₁
      -- a read keeps what later reads see
      obtain ⟨hrest, hafter'⟩ := ih s₁ fun n' hn' hreach =>
        (hafter.nodes n').readable (hr n' (by simp [hn']) hreach)
      refine ⟨?_, hafter.trans hafter'⟩
      rw [List.foldl_cons, List.foldl_cons, ← hstep, ← hs₁, hrest]
      simp only [replyAt_afterReads hafter]

/-- The replies of a GET, collected. -/
def gather (env : Env) (reach : Nat → Bool) (key : Bytes) (dataBlockSize : UInt32) (c : Cluster)
    (choices : List (Nat × UInt32)) : Bool × ExtTreeMap UInt32 Block :=
  (env.order (Groups.group choices).keys).foldl
    (fun r n => collect r (replyAt env reach key dataBlockSize c n (Groups.items choices n)))
    (true, ∅)

/-- **The answer of a GET** as a function of the KBN entry, the health flags and the contents
of the nodes. -/
theorem getHandler_eq (hk : PlainKey key) {dataBlockSize : UInt32} {c : Cluster}
    (hr : ∀ n ∈ c.master.storageNodes, reach n = true → (c.nodes n).Readable dataBlockSize)
    {bm : BlockNodeMap}
    (hbm : c.master.keyBlockNodeMap[padded key]? = some bm) :
    (c.getHandler env reach (padded key)).1
        = (match c.chooseNodes bm.toList with
            | none => none
            | some choices =>
                let r := gather env reach key dataBlockSize c choices
                some (if r.1 then ⟨.OK, recombine r.2⟩ else ⟨.InternalError, []⟩)) ∧
      AfterReads c (c.getHandler env reach (padded key)).2 := by
  unfold getHandler
  simp only [hbm]
  cases hch : c.chooseNodes bm.toList with
  | none => exact ⟨rfl, AfterReads.refl c⟩
  | some choices =>
      have hknown : ∀ n ∈ env.order (Groups.group choices).keys, n ∈ c.master.storageNodes := by
        intro n hn
        have hg := ExtTreeMap.mem_keys.mp ((env.order_perm _).mem_iff.mp hn)
        -- a node asked was chosen because it is healthy
        obtain ⟨num, hnum⟩ := (Groups.mem_group choices n).mp hg
        exact mem_of_isHealthy ((chooseNodes_toList hch).2 _ hnum).1
      obtain ⟨hfold, hafter⟩ := foldl_getBlocks env reach hk (Groups.group choices)
        (env.order (Groups.group choices).keys) ⟨true, ∅, c⟩ fun n hn => hr n (hknown n hn)
      dsimp only at hfold hafter ⊢
      simp only [Groups.getD_group] at hfold hafter ⊢
      set s := (env.order (Groups.group choices).keys).foldl
        (fun s n => getBlocks env reach (padded key) s n (Groups.items choices n)) ⟨true, ∅, c⟩
        with hs
      have hg : gather env reach key dataBlockSize c choices = (s.success, s.blockMap) := hfold.symm
      rw [hg]
      cases hsuc : s.success with
      | true => exact ⟨rfl, hafter⟩
      | false => exact ⟨rfl, hafter⟩

/-! ## Clusters that store a payload -/

/-- The blocks of a list that a map records on node `n`. -/
def share (bm : BlockNodeMap) (n : Nat) (blocks : List Block) : List Block :=
  blocks.filter fun b => decide (bm.Related b.blockNum n)

/-- The cluster stores `payload` for `key`, on the nodes recorded in `bm`. -/
structure Stores (env : Env) (c : Cluster) (key payload : Bytes) (bm : BlockNodeMap) : Prop where
  recorded : c.master.keyBlockNodeMap[padded key]? = some bm
  fits : FitsPayload c.master.config.dataBlockSize payload
  blocks : ∀ b, b ∈ bm ↔ b.toNat < numBlocks c.master.config.dataBlockSize payload
  held : ∀ n b, bm.Related b n → (c.nodes n).contents (env.sha256_32 (padded key))
    = some (copyBlocks (share bm n
        (payloadBlocks (padded key) c.master.config.dataBlockSize payload)))

/-- The blocks of a payload that are kept take their bytes, and four for each. -/
theorem length_copyBlocks_filter (K : Bytes) (d : UInt32) (payload : Bytes) (keep : UInt32 → Prop)
    [DecidablePred keep] :
    (copyBlocks ((payloadBlocks K d payload).filter fun b => decide (keep b.blockNum))).length
      = (((List.range (numBlocks d payload)).filter fun b => decide (keep (UInt32.ofNat b))).map
          fun b => 4 + (Chunks.chunk d.toNat payload b).length).sum := by
  rw [copyBlocks_length, payloadBlocks, List.filter_map, List.map_map]
  rfl

theorem share_sublist (bm : BlockNodeMap) (n : Nat) (blocks : List Block) :
    List.Sublist (share bm n blocks) blocks := List.filter_sublist

/-- The numbers of the recorded blocks are those of the payload, in order. -/
theorem Stores.keys_eq {c : Cluster} {payload : Bytes} {bm : BlockNodeMap}
    (hs : Stores env c key payload bm) :
    bm.keys = (List.range (numBlocks c.master.config.dataBlockSize payload)).map UInt32.ofNat := by
  refine keys_eq_of_mem ?_ fun b => ?_
  · rw [List.pairwise_map]
    refine List.pairwise_lt_range.imp_of_mem fun {a b} ha hb hlt => ?_
    refine compareOfLessAndEq_eq_lt.mpr ?_
    rw [UInt32.lt_iff_toNat_lt, hs.fits.toNat_blockNum (List.mem_range.mp ha),
      hs.fits.toNat_blockNum (List.mem_range.mp hb)]
    exact hlt
  · rw [hs.blocks, List.mem_map]
    constructor
    · exact fun hb => ⟨b.toNat, List.mem_range.mpr hb, UInt32.ofNat_toNat⟩
    · rintro ⟨n, hn, rfl⟩
      rw [hs.fits.toNat_blockNum (List.mem_range.mp hn)]
      exact List.mem_range.mp hn

/-- Storing depends on the entry of the key, the configuration and the contents under its hash. -/
theorem Stores.congr {c c' : Cluster} {payload : Bytes} {bm : BlockNodeMap}
    (hs : Stores env c key payload bm)
    (hentry : c'.master.keyBlockNodeMap[padded key]? = c.master.keyBlockNodeMap[padded key]?)
    (hconfig : c'.master.config = c.master.config)
    (hcontents : ∀ n, (c'.nodes n).contents (env.sha256_32 (padded key))
      = (c.nodes n).contents (env.sha256_32 (padded key))) : Stores env c' key payload bm where
  recorded := hentry.trans hs.recorded
  fits := by rw [hconfig]; exact hs.fits
  blocks := by rw [hconfig]; exact hs.blocks
  held := fun n b hb => by rw [hcontents, hconfig]; exact hs.held n b hb

/-- A reply with some blocks of a held share adds exactly these blocks. -/
theorem collect_readReply {dataBlockSize : UInt32} {blocks : List Block}
    (hc : Chunked dataBlockSize blocks) (hlen : (copyBlocks blocks).length < 2 ^ 32)
    (hn : (blocks.map Block.blockNum).Nodup) (hkey : ∀ b ∈ blocks, b.key = padded key)
    {blockNums : List UInt32} (hsub : ∀ n ∈ blockNums, n ∈ blocks.map Block.blockNum)
    (s : Bool × ExtTreeMap UInt32 Block) :
    collect s (some (readReply dataBlockSize (padded key) blockNums (some (copyBlocks blocks))))
      = (s.1, (blocks.filter fun b => b.blockNum ∈ blockNums.toFinset).foldl
          (fun m b => m.insertIfNew b.blockNum b) s.2) := by
  have hall : blockNums.toFinset ⊆ (blocks.map Block.blockNum).toFinset := by
    intro n hmem
    exact List.mem_toFinset.mpr (hsub n (List.mem_toFinset.mp hmem))
  have hsame : (blocks.filter fun b => b.blockNum ∈ blockNums.toFinset).map
      (fun b => { b with key := padded key })
      = blocks.filter fun b => b.blockNum ∈ blockNums.toFinset := by
    refine (List.map_congr_left fun b hb => ?_).trans (List.map_id _)
    rw [← hkey b (List.mem_of_mem_filter hb)]
    rfl
  have hframed : ∀ b ∈ blocks.filter fun b => b.blockNum ∈ blockNums.toFinset, b.Framed := by
    intro b hb
    have hb := List.mem_of_mem_filter hb
    refine ⟨?_, hc.framed b hb⟩
    rw [hkey b hb, padded_length]
    omega
  unfold readReply
  dsimp only
  rw [selectBlocks_copyBlocks (padded key) hc hlen hn, if_pos hall]
  dsimp only
  rw [hsame]
  simp only [collect, Block.deserialize_serialize hframed]

/-- Inserting blocks that a function of the number gives, into a map of such blocks. -/
theorem foldl_insertIfNew {blk : UInt32 → Block} {l : List Block}
    (hl : ∀ b ∈ l, b = blk b.blockNum) (m : ExtTreeMap UInt32 Block) (D : UInt32 → Prop)
    (hm : ∀ num b, m[num]? = some b ↔ D num ∧ b = blk num) (num : UInt32) (b : Block) :
    (l.foldl (fun m b => m.insertIfNew b.blockNum b) m)[num]? = some b ↔
      (D num ∨ num ∈ l.map Block.blockNum) ∧ b = blk num := by
  induction l generalizing m D with
  | nil => simpa using hm num b
  | cons x l ih =>
      have hx := hl x (by simp)
      rw [List.foldl_cons, ih (fun y hy => hl y (by simp [hy])) _
        (fun num => D num ∨ num = x.blockNum)]
      · simp only [List.map_cons, List.mem_cons, or_assoc]
      · intro num b
        rw [ExtTreeMap.getElem?_insertIfNew]
        by_cases hnum : x.blockNum = num
        · subst hnum
          -- a number that is there already keeps its block, and that is the same one
          by_cases hmem : x.blockNum ∈ m
          · rw [if_neg (fun h => h.2 hmem), hm]
            have hD : D x.blockNum := ((hm _ _).mp (ExtTreeMap.getElem?_eq_some_getElem hmem)).1
            simp [hD]
          · rw [if_pos ⟨by simp, hmem⟩, ← hx]
            simp [eq_comm]
        · rw [if_neg (fun h => hnum (Std.LawfulEqOrd.compare_eq_iff_eq.mp h.1)), hm]
          have hnum' : ¬ num = x.blockNum := fun h => hnum h.symm
          simp [hnum']

section Answer

variable {c : Cluster} {payload : Bytes} {bm : BlockNodeMap}

/-- The share of a node has the blocks that the map records on it. -/
theorem Stores.mem_share (hs : Stores env c key payload bm) (n : Nat) (num : UInt32) :
    num ∈ (share bm n
        (payloadBlocks (padded key) c.master.config.dataBlockSize payload)).map Block.blockNum ↔
      bm.Related num n := by
  constructor
  · intro h
    obtain ⟨b, hb, rfl⟩ := List.mem_map.mp h
    exact of_decide_eq_true (List.mem_filter.mp hb).2
  · intro hrel
    have hlt := (hs.blocks num).mp (Multimap.mem_of_related hrel)
    have hnumber : (blockOf (padded key) c.master.config.dataBlockSize payload num.toNat).blockNum
        = num := UInt32.ofNat_toNat
    refine List.mem_map.mpr ⟨_, List.mem_filter.mpr
      ⟨List.mem_map.mpr ⟨num.toNat, List.mem_range.mpr hlt, rfl⟩, ?_⟩, hnumber⟩
    rw [hnumber]
    exact decide_eq_true hrel

/-- What a node holds for its share can be decoded. -/
theorem Stores.chunked_share (hs : Stores env c key payload bm) (n : Nat) :
    Chunked c.master.config.dataBlockSize
        (share bm n (payloadBlocks (padded key) c.master.config.dataBlockSize payload)) ∧
      ((share bm n (payloadBlocks (padded key) c.master.config.dataBlockSize payload)).map
        Block.blockNum).Nodup :=
  ⟨(chunked_payloadBlocks hs.fits (padded key)).sublist (share_sublist bm n _),
    (nodup_payloadBlocks hs.fits (padded key)).sublist ((share_sublist bm n _).map _)⟩

/-- A node that holds its share answers a request for some of it with exactly these blocks. -/
theorem Stores.reply (hs : Stores env c key payload bm) (reach : Nat → Bool) {n : Nat}
    (hreach : reach n = true) {blockNums : List UInt32} (hne : blockNums ≠ [])
    (hrel : ∀ b ∈ blockNums, bm.Related b n) (s : Bool × ExtTreeMap UInt32 Block) :
    ∃ blocks : List Block,
      collect s (replyAt env reach key c.master.config.dataBlockSize c n blockNums)
        = (s.1, blocks.foldl (fun m b => m.insertIfNew b.blockNum b) s.2) ∧
      (∀ b ∈ blocks,
        b = blockOf (padded key) c.master.config.dataBlockSize payload b.blockNum.toNat) ∧
      ∀ num, num ∈ blocks.map Block.blockNum ↔ num ∈ blockNums := by
  set d := c.master.config.dataBlockSize with hd
  set blocks := share bm n (payloadBlocks (padded key) d payload) with hblocks
  have hsub := share_sublist bm n (payloadBlocks (padded key) d payload)
  -- the map records some block on the node, so it holds its share
  obtain ⟨b₀, hb₀⟩ := List.exists_mem_of_ne_nil blockNums hne
  have hheld := hs.held n b₀ (hrel b₀ hb₀)
  have hmem : ∀ num ∈ blockNums, num ∈ blocks.map Block.blockNum :=
    fun num hnum => (hs.mem_share n num).mpr (hrel num hnum)
  have hkey : ∀ b ∈ blocks, b.key = padded key := by
    intro b hb
    obtain ⟨i, -, rfl⟩ := List.mem_map.mp (hsub.subset hb)
    rfl
  refine ⟨blocks.filter fun b => b.blockNum ∈ blockNums.toFinset, ?_, ?_, ?_⟩
  · rw [replyAt, if_pos hreach, hheld]
    exact collect_readReply (hs.chunked_share n).1 (contents_length_lt hheld)
      (hs.chunked_share n).2 hkey hmem s
  · intro b hb
    exact (mem_payloadBlocks hs.fits (hsub.subset (List.mem_of_mem_filter hb))).2
  · intro num
    constructor
    · intro h
      obtain ⟨b, hb, rfl⟩ := List.mem_map.mp h
      exact List.mem_toFinset.mp (of_decide_eq_true (List.mem_filter.mp hb).2)
    · intro h
      obtain ⟨b, hb, rfl⟩ := List.mem_map.mp (hmem num h)
      exact List.mem_map.mpr ⟨b, List.mem_filter.mpr
        ⟨hb, decide_eq_true (List.mem_toFinset.mpr h)⟩, rfl⟩

/-- The replies of nodes that hold their shares, collected. -/
theorem Stores.foldl_reply (hs : Stores env c key payload bm) (reach : Nat → Bool)
    {choices : List (Nat × UInt32)} (hrel : ∀ p ∈ choices, bm.Related p.2 p.1) :
    ∀ (ns : List Nat), (∀ n ∈ ns, reach n = true ∧ n ∈ Groups.group choices) →
      ∀ (s : Bool × ExtTreeMap UInt32 Block) (D : UInt32 → Prop),
        (∀ num b, s.2[num]? = some b ↔
          D num ∧ b = blockOf (padded key) c.master.config.dataBlockSize payload num.toNat) →
        let s' := ns.foldl (fun r n => collect r (replyAt env reach key
          c.master.config.dataBlockSize c n (Groups.items choices n))) s
        s'.1 = s.1 ∧ ∀ num b, s'.2[num]? = some b ↔
          (D num ∨ ∃ n ∈ ns, (n, num) ∈ choices) ∧
            b = blockOf (padded key) c.master.config.dataBlockSize payload num.toNat
  | [], _, s, D, hD => ⟨rfl, fun num b => by simpa using hD num b⟩
  | n :: ns, hns, s, D, hD => by
      obtain ⟨hreach, hgroup⟩ := hns n (by simp)
      -- a node asked is asked for something
      obtain ⟨num₀, hnum₀⟩ := (Groups.mem_group choices n).mp hgroup
      obtain ⟨blocks, hreply, hblk, hnums⟩ := hs.reply reach hreach
        (List.ne_nil_of_mem (Groups.mem_items.mpr hnum₀))
        (fun b hb => hrel _ (Groups.mem_items.mp hb)) s
      have hmap := foldl_insertIfNew hblk s.2 D hD
      obtain ⟨hflag, hrest⟩ := hs.foldl_reply reach hrel ns (fun n' hn' => hns n' (by simp [hn']))
        (s.1, blocks.foldl (fun m b => m.insertIfNew b.blockNum b) s.2) _ hmap
      dsimp only
      rw [List.foldl_cons, hreply]
      refine ⟨hflag, fun num b => ?_⟩
      rw [hrest num b, hnums, Groups.mem_items]
      simp only [List.mem_cons, exists_eq_or_imp, or_assoc]

/-- The blocks of the payload under their numbers are the payload. -/
theorem Stores.recombine (hs : Stores env c key payload bm) {m : ExtTreeMap UInt32 Block}
    (hm : ∀ num b, m[num]? = some b ↔
      num ∈ bm ∧ b = blockOf (padded key) c.master.config.dataBlockSize payload num.toNat) :
    recombine m = payload := by
  set d := c.master.config.dataBlockSize with hd
  -- the collected map has the numbers of the recorded ones, in the same order
  have hkeys : m.keys = bm.keys := by
    refine keys_eq_of_mem bm.ordered_keys fun num => ?_
    rw [ExtTreeMap.mem_keys, ExtTreeMap.mem_iff_isSome_getElem?, Option.isSome_iff_exists]
    simp only [hm, exists_and_left, exists_eq, and_true]
  have hdata : ∀ p ∈ m.toList, p.2.data = (blockOf (padded key) d payload p.1.toNat).data := by
    intro p hp
    rw [((hm p.1 p.2).mp (ExtTreeMap.mem_toList_iff_getElem?_eq_some.mp hp)).2]
  have hnumber : ∀ b ∈ List.range (numBlocks d payload),
      (blockOf (padded key) d payload (UInt32.ofNat b).toNat).data
        = (blockOf (padded key) d payload b).data := by
    intro b hb
    rw [hs.fits.toNat_blockNum (List.mem_range.mp hb)]
  calc Cluster.recombine m
      = m.toList.flatMap fun p => (blockOf (padded key) d payload p.1.toNat).data :=
        List.flatMap_congr hdata
    _ = m.keys.flatMap fun num => (blockOf (padded key) d payload num.toNat).data := by
        rw [← ExtTreeMap.map_fst_toList_eq_keys, List.flatMap_map]
    _ = (List.range (numBlocks d payload)).flatMap
          fun b => (blockOf (padded key) d payload (UInt32.ofNat b).toNat).data := by
        rw [hkeys, hs.keys_eq, List.flatMap_map]
    _ = (payloadBlocks (padded key) d payload).flatMap Block.data := by
        rw [payloadBlocks, List.flatMap_map]
        exact List.flatMap_congr hnumber
    _ = payload := flatMap_data_payloadBlocks hs.fits (padded key)

/-- When all nodes asked are reached, their replies are the blocks chosen, so the payload. -/
theorem Stores.gather (hs : Stores env c key payload bm) {choices : List (Nat × UInt32)}
    (hch : c.chooseNodes bm.toList = some choices)
    (hreach : ∀ n b, (n, b) ∈ choices → reach n = true) :
    (gather env reach key c.master.config.dataBlockSize c choices).1 = true ∧
      Cluster.recombine (gather env reach key c.master.config.dataBlockSize c choices).2
        = payload := by
  set d := c.master.config.dataBlockSize with hd
  obtain ⟨hkeys, hmem⟩ := chooseNodes_toList hch
  obtain ⟨hflag, hmap⟩ := hs.foldl_reply reach (fun p hp => (hmem p hp).2)
    (env.order (Groups.group choices).keys)
    (by
      intro n hn
      have hg : n ∈ Groups.group choices :=
        ExtTreeMap.mem_keys.mp ((env.order_perm _).mem_iff.mp hn)
      obtain ⟨num, hnum⟩ := (Groups.mem_group choices n).mp hg
      exact ⟨hreach n num hnum, hg⟩)
    (true, ∅) (fun _ => False) (by simp)
  refine ⟨hflag, hs.recombine fun num b => (hmap num b).trans ?_⟩
  rw [← hkeys num, false_or]
  refine and_congr_left fun _ => ⟨fun ⟨n, _, hn⟩ => ⟨n, hn⟩, fun ⟨n, hn⟩ => ⟨n, ?_, hn⟩⟩
  exact (env.order_perm _).mem_iff.mpr
    (ExtTreeMap.mem_keys.mpr ((Groups.mem_group choices n).mpr ⟨num, hn⟩))

/-- **A GET answers the stored payload**, as long as every block has a healthy node. -/
theorem Stores.getHandler (hs : Stores env c key payload bm) (hk : PlainKey key)
    (hr : ∀ n ∈ c.master.storageNodes, reach n = true →
      (c.nodes n).Readable c.master.config.dataBlockSize)
    (hreach : ∀ n, c.isHealthy n = true → reach n = true)
    (hhealthy : ∀ b ∈ bm, ∃ n, bm.Related b n ∧ c.isHealthy n = true) :
    (c.getHandler env reach (padded key)).1 = some ⟨.OK, payload⟩ := by
  obtain ⟨choices, hchoices⟩ := exists_chooseNodes (c := c) (l := bm.toList) (by
    intro p hp
    obtain ⟨n, hn, hh⟩ := hhealthy p.1 (values_of_mem_toList hp).1
    exact ⟨n, (values_of_mem_toList hp).2 ▸ hn, hh⟩)
  obtain ⟨hflag, hall⟩ := hs.gather hchoices fun n b hb =>
    hreach n ((chooseNodes_toList hchoices).2 _ hb).1
  rw [(getHandler_eq hk hr hs.recorded).1, hchoices]
  dsimp only
  rw [hflag, if_pos rfl, hall]

end Answer

end Cluster

end RackKey
