import Mathlib.Algebra.Order.BigOperators.Group.List
import RackKey.Cluster.Replicas
import RackKey.Master.Stability
import RackKey.Storage.Space

set_option autoImplicit false

/-! # When a PUT is answered OK

A node accepts the blocks that a PUT sends it when they fit into a 32-bit size and there are enough
disk blocks in a row that are free or the key's own (`Accepts`). A PUT is answered OK exactly when
every node that it places blocks on is reached and accepts them (`put_ok_iff`). So a PUT that was
answered OK can be repeated, with any payload that is no longer (`put_again`), although the nodes
may be full.
-/

namespace RackKey

open Std Words Payloads DiskStorage Chunks

namespace Cluster

variable {env : Env} {reach reach' : Nat → Bool} {key : Bytes} {fuel : Nat}
variable {c c' c₁ : Cluster} {payload payload' : Bytes} {blocks : List Block} {n : Nat}

/-! ## One node -/

/-- The node has room for the blocks, the key's own disk blocks counted. -/
def Accepts (env : Env) (key : Bytes) (srv : StorageServer) (blocks : List Block) : Prop :=
  (copyBlocks blocks).length < 2 ^ 32 ∧
    srv.diskStorage.Usable env.sha256_32 (padded key)
      (srv.diskStorage.getNumDiskBlocks (UInt32.ofNat (copyBlocks blocks).length)).toNat

/-- The announced size of blocks is what they take, except that it wraps. -/
theorem totalNumBytes_eq (hf : ∀ b ∈ blocks, b.data.length = b.dataSize.toNat) :
    totalNumBytes blocks = UInt32.ofNat (copyBlocks blocks).length := by
  have hfold : ∀ (l : List Block) (x : UInt32), (∀ b ∈ l, b.data.length = b.dataSize.toNat) →
      l.foldl (fun n b => n + 4 + b.dataSize) x = x + UInt32.ofNat (copyBlocks l).length := by
    intro l
    induction l with
    | nil =>
        intro x _
        simp [copyBlocks]
    | cons b l ih =>
        intro x hl
        have hb : b.dataSize = UInt32.ofNat b.data.length := by
          rw [hl b (by simp), UInt32.ofNat_toNat]
        rw [List.foldl_cons, ih _ fun b' hb' => hl b' (by simp [hb']), copyBlocks_cons,
          List.length_append, List.length_append, le32_length, UInt32.ofNat_add, UInt32.ofNat_add,
          ← hb]
        simp only [UInt32.add_assoc]
        rfl
  have := hfold blocks 0 hf
  rwa [UInt32.zero_add] at this

/-- **When a node takes the blocks of a PUT.** -/
theorem putAt_ok_iff {dataBlockSize : UInt32} {srv : StorageServer} (ho : srv.Ok dataBlockSize)
    (hne : blocks ≠ []) (hf : ∀ b ∈ blocks, b.Framed) :
    (putAt env reach key n srv blocks).1 = true ↔ reach n = true ∧ Accepts env key srv blocks := by
  obtain ⟨d, m, hl, hi⟩ := ho.store
  have htotal := totalNumBytes_eq fun b hb => (hf b hb).2
  have hreturns : (srv.diskStorage.writeBlocks env.sha256_32 (padded key) blocks).1 = .ok () ↔ _ :=
    writeBlocks_returns_iff hi.sound hi.ready (padded key) blocks
  rw [htotal] at hreturns
  have hsize : (copyBlocks blocks).length = (UInt32.ofNat (copyBlocks blocks).length).toNat ↔
      (copyBlocks blocks).length < 2 ^ 32 := by
    rw [UInt32.toNat_ofNat']
    constructor
    · intro h
      omega
    · intro h
      omega
  rw [hsize, and_iff_right hne] at hreturns
  unfold putAt
  cases hn : reach n with
  | false => simp
  | true =>
      simp only [if_true, Block.deserialize_serialize hf, true_and]
      rw [Accepts, ← hreturns]
      cases (srv.diskStorage.writeBlocks env.sha256_32 (padded key) blocks).1 with
      | ok u => simp
      | error err => simp

/-! ## A PUT -/

theorem PutRun.ok_iff {r : Response × Cluster} (h : PutRun env reach fuel key payload c r)
    (hfits : FitsPayload c.master.config.dataBlockSize payload)
    (hnodes : ∀ n ∈ c.master.storageNodes, (c.nodes n).Ok c.master.config.dataBlockSize) :
    r.1.status = .OK ↔ ∀ n, sentTo env fuel key payload c n ≠ [] →
      reach n = true ∧ Accepts env key (c.nodes n) (sentTo env fuel key payload c n) := by
  have hone : ∀ n, sentTo env fuel key payload c n ≠ [] →
      ((putAt env reach key n (c.nodes n) (sentTo env fuel key payload c n)).1 = true ↔
        reach n = true ∧ Accepts env key (c.nodes n) (sentTo env fuel key payload c n)) :=
    fun n hne => putAt_ok_iff (hnodes n (known_of_sentTo hne)) hne
      fun b hb => framed_sentTo hfits hb
  rcases h.answer with ⟨hok, hall, -⟩ | ⟨herr, ⟨n, hne, hfail⟩, -⟩
  · refine iff_of_true (by rw [hok]) fun n hne => (hone n hne).mp (hall n hne)
  · refine iff_of_false (by rw [herr]; simp) fun hall => ?_
    rw [(hone n hne).mpr (hall n hne)] at hfail
    cases hfail

/-- **When a PUT is answered OK**: every node that it places blocks on is reached and has room for
them. -/
theorem put_ok_iff (hk : PlainKey key)
    (hfits : FitsPayload c.master.config.dataBlockSize payload)
    (hnodes : ∀ n ∈ c.master.storageNodes, (c.nodes n).Ok c.master.config.dataBlockSize)
    {answer : Response}
    (hput : c.router env reach fuel ⟨.PUT, storeUri key, payload⟩ = some (some answer, c')) :
    answer.status = .OK ↔ ∀ n, sentTo env fuel key payload c n ≠ [] →
      reach n = true ∧ Accepts env key (c.nodes n) (sentTo env fuel key payload c n) := by
  rw [(router_store env reach hk fuel c payload).1] at hput
  obtain ⟨⟨response, c₁⟩, hrun, hr⟩ := Option.map_eq_some_iff.mp hput
  rw [Prod.mk.injEq, Option.some.injEq] at hr
  obtain ⟨rfl, rfl⟩ := hr
  exact (putHandler_run hk (fun n hn => (hnodes n hn).keyLengthMax) hrun).ok_iff hfits hnodes

theorem put_ok_iff_sample :
    ∃ answer c', sampleCluster.router (Env.ofHash sampleHash) (fun n => n != 1) 100
        ⟨.PUT, storeUri [97], [1, 2, 3, 4, 5]⟩ = some (some answer, c') ∧
      (answer.status = .OK ↔
        ∀ n, sentTo (Env.ofHash sampleHash) 100 [97] [1, 2, 3, 4, 5] sampleCluster n ≠ [] →
          (n != 1) = true ∧ Accepts (Env.ofHash sampleHash) [97] (sampleCluster.nodes n)
            (sentTo (Env.ofHash sampleHash) 100 [97] [1, 2, 3, 4, 5] sampleCluster n)) := by
  have herr : (sampleCluster.router (Env.ofHash sampleHash) (fun n => n != 1) 100
      ⟨.PUT, storeUri [97], [1, 2, 3, 4, 5]⟩).map Prod.fst = some (some ⟨.InternalError, []⟩) := by
    decide +kernel
  obtain ⟨⟨response, c'⟩, hput, hr⟩ := Option.map_eq_some_iff.mp herr
  obtain rfl : response = some ⟨.InternalError, []⟩ := hr
  exact ⟨_, c', hput, put_ok_iff clientKey_sample.toPlainKey
    (FitsPayload.of_le (by decide) (by decide)) sampleCluster_ok hput⟩

/-! ## The same PUT again -/

/-- The two masters have the same ring, the same number of replicas, and the same nodes up. -/
structure SamePlaces (m m' : MasterServer) : Prop where
  hashRing : m'.hashRing = m.hashRing
  config : m'.config = m.config
  storageNodes : ∀ n : Nat, n ∈ m'.storageNodes ↔ n ∈ m.storageNodes
  isUp : ∀ n : Nat, m'.isUp n = m.isUp n

variable {m m' : MasterServer}

theorem SamePlaces.selectNodes (h : SamePlaces m m') (env : Env) (fuel : Nat) (hash : UInt32)
    (used : List Nat) : m'.selectNodes env fuel hash used = m.selectNodes env fuel hash used := by
  have hR : m'.R = m.R := by rw [MasterServer.R, MasterServer.R, h.config]
  induction fuel generalizing hash used with
  | zero => rw [MasterServer.selectNodes, MasterServer.selectNodes, hR]
  | succ fuel ih =>
      rw [MasterServer.selectNodes, MasterServer.selectNodes, hR, h.hashRing]
      refine if_congr Iff.rfl ?_ rfl
      refine Option.bind_congr fun vn _ => ?_
      have hmem := h.storageNodes vn.physicalNodeId
      have hup := h.isUp vn.physicalNodeId
      unfold MasterServer.isUp at hup
      rw [← ExtTreeMap.isSome_getElem?_iff_mem, ← ExtTreeMap.isSome_getElem?_iff_mem] at hmem
      cases hsn : m.storageNodes[vn.physicalNodeId]? with
      | none =>
          rw [hsn] at hmem
          have hnone : m'.storageNodes[vn.physicalNodeId]? = none := by simpa using hmem
          rw [hnone]
          rfl
      | some sn =>
          rw [hsn] at hmem hup
          obtain ⟨sn', hsn'⟩ := Option.isSome_iff_exists.mp (hmem.mpr rfl)
          rw [hsn'] at hup
          have hhealthy : sn'.isHealthy = sn.isHealthy := hup
          rw [hsn']
          simp only [Option.bind_eq_bind, Option.bind_some, hhealthy]
          exact ih _ _

theorem SamePlaces.placement (h : SamePlaces m m') (env : Env) (fuel : Nat) (K : Bytes)
    (b : UInt32) : m'.placement env fuel K b = m.placement env fuel K b := by
  unfold MasterServer.placement MasterServer.placeBlock
  rw [h.selectNodes]

/-- Masters with the same ring that find the same nodes up. -/
theorem samePlaces_withHealth (hring : c'.master.hashRing = c.master.hashRing)
    (hconfig : c'.master.config = c.master.config)
    (hnodes : ∀ n : Nat, n ∈ c'.master.storageNodes ↔ n ∈ c.master.storageNodes)
    (healthy : Nat → Bool) :
    SamePlaces (c.withHealth healthy).master (c'.withHealth healthy).master where
  hashRing := hring
  config := hconfig
  storageNodes := fun n => by
    show n ∈ c'.master.storageNodes.map _ ↔ n ∈ c.master.storageNodes.map _
    rw [ExtTreeMap.mem_map, ExtTreeMap.mem_map]
    exact hnodes n
  isUp := fun n => by
    rw [isUp_withHealth, isUp_withHealth, decide_eq_decide.mpr (hnodes n)]

/-- Blocks that each have a place are placed. -/
theorem exists_placeBlocks {K : Bytes} (h : ∀ b ∈ blocks, ∃ ns, m.placeBlock env fuel K b.blockNum
    = some ns) : ∃ placed, m.placeBlocks env fuel K blocks = some placed := by
  induction blocks with
  | nil => exact ⟨[], rfl⟩
  | cons b blocks ih =>
      obtain ⟨ns, hns⟩ := h b (by simp)
      obtain ⟨rest, hrest⟩ := ih fun b' hb' => h b' (by simp [hb'])
      refine ⟨ns.map (fun n => (n, b)) ++ rest, ?_⟩
      rw [MasterServer.placeBlocks, hns, hrest]
      rfl

/-- A block whose list of nodes is complete has been placed. -/
theorem exists_placeBlock {K : Bytes} {b : UInt32}
    (h : (m.placement env fuel K b).length = m.R.toNat) :
    ∃ ns, m.placeBlock env fuel K b = some ns := by
  cases hplace : m.placeBlock env fuel K b with
  | some ns => exact ⟨ns, rfl⟩
  | none =>
      -- no node at all: then no replica is wanted, and the loop ends at once
      have hR : m.R.toNat = 0 := by
        rw [← h, MasterServer.placement, hplace]
        rfl
      unfold MasterServer.placeBlock at hplace
      cases fuel with
      | zero => simp [MasterServer.selectNodes, hR] at hplace
      | succ fuel => simp [MasterServer.selectNodes, hR] at hplace

/-- Every block of a shorter payload has a number that a block of the longer one has. -/
theorem numBlocks_le {d : UInt32} (hle : payload'.length ≤ payload.length) :
    numBlocks d payload' ≤ numBlocks d payload := by
  show (payload'.length + d.toNat - 1) / d.toNat ≤ (payload.length + d.toNat - 1) / d.toNat
  exact Nat.div_le_div_right (by omega)

/-- The blocks of a shorter payload that are kept take no more bytes. -/
theorem length_copyBlocks_le {d : UInt32} (hd : 0 < d.toNat) (K : Bytes)
    (hle : payload'.length ≤ payload.length) (keep : UInt32 → Prop) [DecidablePred keep] :
    (copyBlocks ((payloadBlocks K d payload').filter fun b => decide (keep b.blockNum))).length
      ≤ (copyBlocks
          ((payloadBlocks K d payload).filter fun b => decide (keep b.blockNum))).length := by
  have hblocks : numBlocks d payload' ≤ numBlocks d payload := numBlocks_le hle
  have hchunk : ∀ b, (chunk d.toNat payload' b).length ≤ (chunk d.toNat payload b).length := by
    intro b
    simp only [chunk, List.length_take, List.length_drop]
    omega
  rw [length_copyBlocks_filter, length_copyBlocks_filter]
  calc (((List.range (numBlocks d payload')).filter fun b => decide (keep (UInt32.ofNat b))).map
        fun b => 4 + (chunk d.toNat payload' b).length).sum
      ≤ (((List.range (numBlocks d payload')).filter fun b => decide (keep (UInt32.ofNat b))).map
        fun b => 4 + (chunk d.toNat payload b).length).sum :=
        List.sum_le_sum fun b _ => Nat.add_le_add_left (hchunk b) 4
    _ ≤ (((List.range (numBlocks d payload)).filter fun b => decide (keep (UInt32.ofNat b))).map
        fun b => 4 + (chunk d.toNat payload b).length).sum :=
        (((List.range_sublist.mpr hblocks).filter _).map _).sum_le_sum fun _ _ => Nat.zero_le _

/-- What a node holds under the hash of a key is as long as its entry says. -/
theorem exists_entry {srv : StorageServer} {dataBlockSize : UInt32} (ho : srv.Ok dataBlockSize)
    {K raw : Bytes} (hraw : srv.contents (env.sha256_32 K) = some raw) :
    ∃ i e, srv.diskStorage.findEntry env.sha256_32 K = some (i, e) ∧
      raw.length = e.numBytes.toNat := by
  have hraw : srv.diskStorage.contents (env.sha256_32 K) = some raw := hraw
  cases he : srv.diskStorage.findEntry env.sha256_32 K with
  | none =>
      rw [contents_eq_none he] at hraw
      cases hraw
  | some ie =>
      obtain ⟨i, e⟩ := ie
      rw [contents_eq_some he] at hraw
      obtain rfl := Option.some.inj hraw
      have hbacked := ho.backed e (findEntry_eq_some he).2.2.1
      exact ⟨i, e, rfl, ByteFile.readAt_length hbacked⟩

/-- A node accepts blocks that take no more bytes than it holds for the key. -/
theorem accepts_of_held {srv : StorageServer} {dataBlockSize : UInt32} (ho : srv.Ok dataBlockSize)
    {raw : Bytes} (hraw : srv.contents (env.sha256_32 (padded key)) = some raw) (hne : blocks ≠ [])
    (hle : (copyBlocks blocks).length ≤ raw.length) : Accepts env key srv blocks := by
  obtain ⟨i, e, he, hlength⟩ := exists_entry ho hraw
  obtain ⟨d, m, hl, hi⟩ := ho.store
  have hlt := contents_length_lt hraw
  have hsmall : (copyBlocks blocks).length < UInt32.size := Nat.lt_of_le_of_lt hle hlt
  have hbytes : (UInt32.ofNat (copyBlocks blocks).length).toNat = (copyBlocks blocks).length :=
    UInt32.toNat_ofNat_of_lt' hsmall
  have hfour := four_mul_length_le_copyBlocks blocks
  have hpos := List.length_pos_iff.mpr hne
  have hnum : (UInt32.ofNat (copyBlocks blocks).length).toNat ≤ e.numBytes.toNat := by omega
  obtain ⟨hblocks, hsome⟩ := getNumDiskBlocks_le hnum
    (hi.sound.table.nonempty e (findEntry_eq_some he).2.2.1)
  exact ⟨hsmall, usable_own hi.sound he (hsome (by omega)) hblocks⟩

variable (env reach) in
/-- A PUT comes to its end when its blocks have places. -/
theorem exists_putHandler (hfits : FitsPayload c.master.config.dataBlockSize payload)
    (hfuel : numBlocks c.master.config.dataBlockSize payload ≤ fuel)
    (hplaced : ∀ b < numBlocks c.master.config.dataBlockSize payload,
      (c.master.placement env fuel (padded key) (UInt32.ofNat b)).length = c.master.R.toNat) :
    ∃ r, c.putHandler env reach fuel (padded key) payload = some r := by
  have heach : ∀ b ∈ payloadBlocks (padded key) c.master.config.dataBlockSize payload,
      ∃ ns, c.master.placeBlock env fuel (padded key) b.blockNum = some ns := by
    intro b hb
    refine exists_placeBlock ?_
    have hlen := hplaced b.blockNum.toNat (mem_payloadBlocks hfits hb).1
    rwa [UInt32.ofNat_toNat] at hlen
  obtain ⟨placed, hplaced⟩ := exists_placeBlocks heach
  unfold putHandler distribute
  rw [buildBlocks_eq hfits rfl, if_pos hfuel]
  simp only [Option.bind_eq_bind, Option.bind_some, hplaced]
  split
  · exact ⟨_, rfl⟩
  · exact ⟨_, rfl⟩

/-- **A PUT that was answered OK can be repeated**, with any payload that is no longer, as long as
the same nodes are up: the nodes have the room already. -/
theorem put_again (hk : PlainKey key)
    (hfits : FitsPayload c.master.config.dataBlockSize payload)
    (hnodes : ∀ n ∈ c.master.storageNodes, (c.nodes n).Ok c.master.config.dataBlockSize)
    {body : Bytes}
    (hput : c.router env reach fuel ⟨.PUT, storeUri key, payload⟩ = some (some ⟨.OK, body⟩, c'))
    (hheld : ∀ n raw, (c'.nodes n).contents (env.sha256_32 (padded key)) = some raw →
      (c₁.nodes n).contents (env.sha256_32 (padded key)) = some raw)
    (hplaces : SamePlaces c.master c₁.master)
    (hnodes' : ∀ n ∈ c₁.master.storageNodes, (c₁.nodes n).Ok c₁.master.config.dataBlockSize)
    (hle : payload'.length ≤ payload.length)
    (hreach : ∀ n, c₁.master.isUp n = true → reach' n = true) :
    ∃ c₂, c₁.router env reach' fuel ⟨.PUT, storeUri key, payload'⟩ = some (some ⟨.OK, []⟩, c₂) := by
  rw [(router_store env reach hk fuel c payload).1] at hput
  obtain ⟨⟨response, c''⟩, hrun, hr⟩ := Option.map_eq_some_iff.mp hput
  rw [Prod.mk.injEq, Option.some.injEq] at hr
  obtain ⟨rfl, rfl⟩ := hr
  have hrun := putHandler_run hk (fun n hn => (hnodes n hn).keyLengthMax) hrun
  obtain ⟨hfuel, hlen⟩ := hrun.placed_all hfits
  obtain ⟨bm, hdone⟩ := hrun.done rfl hfits hnodes
  -- the blocks of the new payload go where those of the old one with these numbers went
  have hfits' : FitsPayload c₁.master.config.dataBlockSize payload' := by
    rw [hplaces.config]
    exact ⟨hfits.pos, Nat.lt_of_le_of_lt (Nat.mul_le_mul_right _ (numBlocks_le hle)) hfits.size⟩
  have hfuel' : numBlocks c₁.master.config.dataBlockSize payload' ≤ fuel := by
    rw [hplaces.config]
    exact (numBlocks_le hle).trans hfuel
  have hR : c₁.master.R = c.master.R := by rw [MasterServer.R, MasterServer.R, hplaces.config]
  obtain ⟨⟨answer, c₂⟩, hagain⟩ := exists_putHandler env reach' hfits' hfuel' fun b hb => by
    rw [hplaces.placement, hR]
    rw [hplaces.config] at hb
    exact hlen b (Nat.lt_of_lt_of_le hb (numBlocks_le hle))
  have hanswer : c₁.router env reach' fuel ⟨.PUT, storeUri key, payload'⟩
      = some (some answer, c₂) := by
    rw [(router_store env reach' hk fuel c₁ payload').1, hagain]
    rfl
  have hrun' := putHandler_run hk (fun n hn => (hnodes' n hn).keyLengthMax) hagain
  -- each of these nodes is up, and holds blocks of the key that take as much
  have hok : answer.status = .OK := by
    refine (hrun'.ok_iff hfits' hnodes').mpr fun n hne => ?_
    obtain ⟨b, hb⟩ := List.exists_mem_of_ne_nil _ hne
    obtain ⟨-, hlt, hn⟩ := (mem_sentTo hfits').mp (List.mem_map.mpr ⟨b, hb, rfl⟩)
    have hup := (MasterServer.selected_placement fuel (padded key) b.blockNum).healthy n hn
    refine ⟨hreach n ((MasterServer.healthy_iff_isUp n).mp hup), ?_⟩
    rw [hplaces.placement] at hn
    rw [hplaces.config] at hlt
    have hrel := (hdone.related b.blockNum n).mpr ⟨hlt.trans_le (numBlocks_le hle), hn⟩
    refine accepts_of_held (hnodes' n (known_of_sentTo hne))
      (hheld n _ (hdone.stored n _ hrel)) hne ?_
    have hsent : sentTo env fuel key payload' c₁ n
        = (payloadBlocks (padded key) c.master.config.dataBlockSize payload').filter
            fun b => decide (n ∈ c.master.placement env fuel (padded key) b.blockNum) := by
      rw [sentTo_eq hfits', if_pos hfuel', hplaces.config, MasterServer.assigned]
      simp only [hplaces.placement]
    have hshare : share bm n (payloadBlocks (padded key) c.master.config.dataBlockSize payload)
        = (payloadBlocks (padded key) c.master.config.dataBlockSize payload).filter
            fun b => decide (n ∈ c.master.placement env fuel (padded key) b.blockNum) := by
      refine List.filter_congr fun b hb => decide_eq_decide.mpr ?_
      rw [hdone.related, and_iff_right (mem_payloadBlocks hfits hb).1]
    rw [hsent, hshare]
    exact length_copyBlocks_le hfits.pos (padded key) hle
      fun b => n ∈ c.master.placement env fuel (padded key) b
  rcases hrun'.answer with ⟨hbody, -⟩ | ⟨herr, -⟩
  · obtain rfl : answer = ⟨.OK, []⟩ := hbody
    exact ⟨c₂, hanswer⟩
  · obtain rfl : answer = ⟨.InternalError, []⟩ := herr
    cases hok

theorem put_again_sample :
    ∃ c' c₂, (sampleCluster.withHealth fun _ => true).router (Env.ofHash sampleHash)
        (fun _ => true) 100 ⟨.PUT, storeUri [97], [1, 2, 3, 4, 5]⟩ = some (some ⟨.OK, []⟩, c') ∧
      (c'.withHealth fun _ => true).router (Env.ofHash sampleHash) (fun _ => true) 100
        ⟨.PUT, storeUri [97], [6, 7]⟩ = some (some ⟨.OK, []⟩, c₂) := by
  have hok : ((sampleCluster.withHealth fun _ => true).router (Env.ofHash sampleHash)
      (fun _ => true) 100 ⟨.PUT, storeUri [97], [1, 2, 3, 4, 5]⟩).map Prod.fst
        = some (some ⟨.OK, []⟩) := by decide +kernel
  obtain ⟨⟨response, c'⟩, hput, hr⟩ := Option.map_eq_some_iff.mp hok
  obtain rfl : response = some ⟨.OK, []⟩ := hr
  have hk := clientKey_sample.toPlainKey
  have hfits : FitsPayload (sampleCluster.withHealth fun _ => true).master.config.dataBlockSize
      [1, 2, 3, 4, 5] := FitsPayload.of_le (by decide) (by decide)
  have hnodes : ∀ n ∈ (sampleCluster.withHealth fun _ => true).master.storageNodes,
      ((sampleCluster.withHealth fun _ => true).nodes n).Ok 4 :=
    fun _ _ => StorageServer.ok_new default layout_sample 4
  obtain ⟨bm, hdone⟩ := put_done hk hfits hnodes hput
  have hring : c'.master.hashRing = sampleCluster.master.hashRing := hdone.master.hashRing
  have hmem : ∀ n : Nat, n ∈ c'.master.storageNodes ↔ n ∈ sampleCluster.master.storageNodes :=
    fun n => (hdone.master.mem_storageNodes n).trans ExtTreeMap.mem_map
  have hsame : SamePlaces (sampleCluster.withHealth fun _ => true).master
      (c'.withHealth fun _ => true).master :=
    samePlaces_withHealth hring hdone.master.config hmem fun _ => true
  have hheld : ∀ n raw, (c'.nodes n).contents ((Env.ofHash sampleHash).sha256_32 (padded [97]))
      = some raw → ((c'.withHealth fun _ => true).nodes n).contents
        ((Env.ofHash sampleHash).sha256_32 (padded [97])) = some raw := fun _ _ h => h
  have hok' : ∀ n ∈ (c'.withHealth fun _ => true).master.storageNodes,
      ((c'.withHealth fun _ => true).nodes n).Ok
        (c'.withHealth fun _ => true).master.config.dataBlockSize := by
    intro n hn
    rw [hsame.config]
    exact hdone.ok n ((hdone.master.mem_storageNodes n).mp (ExtTreeMap.mem_map.mp hn))
  have hle : ([6, 7] : Bytes).length ≤ ([1, 2, 3, 4, 5] : Bytes).length := by decide
  obtain ⟨c₂, hagain⟩ := put_again hk hfits hnodes hput hheld hsame hok' hle
    fun _ _ => rfl
  exact ⟨c', c₂, hput, hagain⟩

end Cluster

end RackKey
