import RackKey.Cluster.Delete
import RackKey.Lib.Tally
import RackKey.Lib.Updates

set_option autoImplicit false

/-! # The statistics of a node

What the requests of a PUT or DELETE do to `blocksStored` of the nodes they are sent to: each
changes the count of its own node only, and only when the node answers (`Counted`).
-/

namespace RackKey

open Std Words Payloads

namespace MasterServer

/-- The number of blocks of a key that the map records on a node. -/
def recordedOn (m : MasterServer) (key : Bytes) (nodeId : Nat) : Nat :=
  Tally.weightOf (fun bm : BlockNodeMap => bm.countOf nodeId) m.keyBlockNodeMap key

/-- The number of pairs of a key and a block for which the map records a node. -/
def pairsOn (m : MasterServer) (nodeId : Nat) : Nat :=
  Tally.total (fun bm : BlockNodeMap => bm.countOf nodeId) m.keyBlockNodeMap

theorem existingBlocks_eq (m : MasterServer) (key : Bytes) (nodeId : Nat) :
    m.existingBlocks key nodeId = UInt32.ofNat (m.recordedOn key nodeId) := by
  unfold existingBlocks recordedOn Tally.weightOf
  cases m.keyBlockNodeMap[key]? with
  | none => rfl
  | some bm => rfl

theorem recordedOn_le_pairsOn (m : MasterServer) (key : Bytes) (nodeId : Nat) :
    m.recordedOn key nodeId ≤ m.pairsOn nodeId := Tally.weightOf_le_total _ _ _

end MasterServer

namespace Cluster

/-- `blocksStored` of a node the master knows. -/
def stored (c : Cluster) (nodeId : Nat) : Option UInt32 :=
  c.master.storageNodes[nodeId]?.map fun sn => sn.stats.blocksStored

/-- Every count is the number of pairs that the map records on its node. -/
def Accounted (c : Cluster) : Prop :=
  ∀ n : Nat, ∀ k ∈ c.stored n, k.toNat = c.master.pairsOn n

/-- The sizes in a reply that the master counts: an `OK` with a body that can be read. -/
def accepted : Option Response → Option SizeInfo
  | some ⟨.OK, payload⟩ => SizeInfo.deserialize payload
  | _ => none

/-- A reply after which the blocks sent are recorded. -/
def answeredOk : Option Response → Bool
  | some ⟨.OK, _⟩ => true
  | _ => false

theorem answeredOk_of_accepted {reply : Option Response} (h : (accepted reply).isSome = true) :
    answeredOk reply = true := by
  rcases reply with _ | ⟨status, payload⟩
  · cases h
  · cases status with
    | OK => rfl
    | InternalError => cases h
    | NotImplemented => cases h

/-- A request to a node is answered with a reply that the master counts. -/
def Acks (env : Env) (reach : Nat → Bool) (c : Cluster) (nodeId : Nat) (request : Request) : Prop :=
  (accepted (c.send env reach nodeId request).1).isSome = true

instance (env : Env) (reach : Nat → Bool) (c : Cluster) (nodeId : Nat) (request : Request) :
    Decidable (Acks env reach c nodeId request) :=
  inferInstanceAs (Decidable (_ = true))

variable {env : Env} {reach : Nat → Bool}

/-! ## One request -/

/-- What the requests to a node depend on and change, besides the map. -/
structure Seen where
  srv : StorageServer
  sn : Option StorageNode
  keyBlockNodeMap : KeyBlockNodeMap

def see (c : Cluster) (n : Nat) : Seen :=
  ⟨c.nodes n, c.master.storageNodes[n]?, c.master.keyBlockNodeMap⟩

/-- A request to a node in a given state, and its first reply. -/
def exchange (env : Env) (reach : Nat → Bool) (n : Nat) (srv : StorageServer) (request : Request) :
    Option Response × StorageServer :=
  if reach n then
    let r := srv.router env.sha256_32 { request with uri := env.uri request.uri }
    (r.1.head?, r.2)
  else (none, srv)

theorem send_eq (c : Cluster) (n : Nat) (request : Request) :
    c.send env reach n request
      = ((exchange env reach n (c.nodes n) request).1,
          { c with
            nodes := Function.update c.nodes n
              (exchange env reach n (c.nodes n) request).2 }) := by
  unfold send exchange
  split
  · rfl
  · rw [Function.update_eq_self]

/-- The statistics of a node after a reply is counted. -/
def countReply (key : Bytes) (n : Nat) (added : Nat) (v : Seen) (sizeInfo : SizeInfo)
    (sn : StorageNode) : StorageNode :=
  MasterServer.updateNodeDataSizes
    { sn with
      stats :=
        { sn.stats with
          blocksStored := sn.stats.blocksStored
            - UInt32.ofNat (Tally.weightOf (fun bm : BlockNodeMap => bm.countOf n)
                v.keyBlockNodeMap key) + UInt32.ofNat added } } sizeInfo

/-- What a request to node `n` makes of it, when `added` blocks are counted for it. -/
def Seen.after (env : Env) (reach : Nat → Bool) (key : Bytes) (request : Nat → Request)
    (added : Nat → Nat) (n : Nat) (v : Seen) : Seen :=
  let r := exchange env reach n v.srv (request n)
  { v with
    srv := r.2
    sn := match accepted r.1 with
      | none => v.sn
      | some sizeInfo => v.sn.map (countReply key n (added n) v sizeInfo) }

section After

variable {key : Bytes} {request : Nat → Request} {added : Nat → Nat} {n : Nat} {v : Seen}

theorem Seen.after_rejected (h : accepted (exchange env reach n v.srv (request n)).1 = none) :
    Seen.after env reach key request added n v
      = { v with srv := (exchange env reach n v.srv (request n)).2 } := by
  simp only [Seen.after, h]

theorem Seen.after_accepted {sizeInfo : SizeInfo}
    (h : accepted (exchange env reach n v.srv (request n)).1 = some sizeInfo) :
    Seen.after env reach key request added n v
      = { v with
          srv := (exchange env reach n v.srv (request n)).2
          sn := v.sn.map (countReply key n (added n) v sizeInfo) } := by
  simp only [Seen.after, h]

end After

variable (env reach) in
theorem see_send (c : Cluster) (n : Nat) (request : Request) :
    see (c.send env reach n request).2
      = Function.update (see c) n
          { see c n with srv := (exchange env reach n (c.nodes n) request).2 } := by
  rw [send_eq]
  funext n'
  by_cases hn : n' = n
  · subst hn
    simp [see]
  · simp [see, hn]

theorem see_updateStats (c : Cluster) (key : Bytes) (n added : Nat) (sizeInfo : SizeInfo) :
    see { c with
        master := c.master.updateStats n (UInt32.ofNat added) (c.master.existingBlocks key n)
          sizeInfo }
      = Function.update (see c) n
          { see c n with sn := (see c n).sn.map (countReply key n added (see c n) sizeInfo) } := by
  funext n'
  by_cases hn : n' = n
  · subst hn
    rw [Function.update_self, MasterServer.existingBlocks_eq]
    simp only [see, MasterServer.updateStats, ExtTreeMap.getElem?_modify_self]
    rfl
  · rw [Function.update_of_ne hn]
    simp only [see, MasterServer.updateStats]
    rw [ExtTreeMap.getElem?_modify, if_neg]
    exact fun he => hn (LawfulEqOrd.compare_eq_iff_eq.mp he).symm

/-- The request of `sendBlocks`. -/
def putRequest (key : Bytes) (g : Nat → List Block) (n : Nat) : Request :=
  ⟨.PUT, storeUri key, Block.serializeAll (g n)⟩

/-- The request of `deleteBlocks`. -/
def deleteRequest (key : Bytes) (_ : Nat) : Request := ⟨.DEL, storeUri key, []⟩

/-- A node counts the request, from what is seen of it. -/
def Seen.Acks (env : Env) (reach : Nat → Bool) (request : Nat → Request) (n : Nat) (v : Seen) :
    Prop := (accepted (exchange env reach n v.srv (request n)).1).isSome = true

theorem acks_iff {c : Cluster} {n : Nat} {request : Nat → Request} :
    Acks env reach c n (request n) ↔ Seen.Acks env reach request n (see c n) := by
  unfold Acks Seen.Acks
  rw [send_eq]
  rfl

theorem assign_accepted {reply : Option Response} {sizeInfo : SizeInfo}
    (h : accepted reply = some sizeInfo) (key : Bytes) (n : Nat) (blocks : List Block)
    (s : Bool × BlockNodeMap) (m : MasterServer) :
    assign key n blocks s m reply = ((s.1, s.2.addAll (recordsOf n blocks)),
      m.updateStats n (UInt32.ofNat blocks.length) (m.existingBlocks key n) sizeInfo) := by
  rcases reply with _ | ⟨status, payload⟩
  · cases h
  · cases status with
    | OK =>
        have h : SizeInfo.deserialize payload = some sizeInfo := h
        simp only [assign, h]
        rfl
    | InternalError => cases h
    | NotImplemented => cases h

theorem assign_rejected {reply : Option Response} (h : accepted reply = none) (key : Bytes)
    (n : Nat) (blocks : List Block) (s : Bool × BlockNodeMap) (m : MasterServer) :
    (assign key n blocks s m reply).1.1 = false ∧ (assign key n blocks s m reply).2 = m := by
  rcases reply with _ | ⟨status, payload⟩
  · exact ⟨rfl, rfl⟩
  · cases status with
    | OK =>
        have h : SizeInfo.deserialize payload = none := h
        simp only [assign, h, and_self]
    | InternalError => exact ⟨rfl, rfl⟩
    | NotImplemented => exact ⟨rfl, rfl⟩

theorem assign_blockNodeMap (reply : Option Response) (key : Bytes) (n : Nat) (blocks : List Block)
    (s : Bool × BlockNodeMap) (m : MasterServer) :
    (assign key n blocks s m reply).1.2
      = if answeredOk reply = true then s.2.addAll (recordsOf n blocks) else s.2 := by
  rcases reply with _ | ⟨status, payload⟩
  · rfl
  · cases status with
    | OK =>
        simp only [assign, answeredOk, if_true]
        cases SizeInfo.deserialize payload <;> rfl
    | InternalError => rfl
    | NotImplemented => rfl

variable (env reach) in
/-- **One `sendBlocks`** changes its own node only, and counts it when the reply is accepted. -/
theorem sendBlocks_see (key : Bytes) (g : Nat → List Block) (s : PutState) (n : Nat) :
    let s' := sendBlocks env reach key s n (g n)
    see s'.cluster = Function.update (see s.cluster) n
        (Seen.after env reach key (putRequest key g) (fun n => (g n).length) n (see s.cluster n)) ∧
      (s'.success = true ↔
        s.success = true ∧ Seen.Acks env reach (putRequest key g) n (see s.cluster n)) ∧
      s'.blockNodeMap
        = if answeredOk (exchange env reach n (see s.cluster n).srv (putRequest key g n)).1 = true
          then s.blockNodeMap.addAll (recordsOf n (g n)) else s.blockNodeMap := by
  have hsee := see_send env reach s.cluster n (putRequest key g n)
  have hreply : (s.cluster.send env reach n (putRequest key g n)).1
      = (exchange env reach n (see s.cluster n).srv (putRequest key g n)).1 := by
    rw [send_eq]
    rfl
  dsimp only
  unfold sendBlocks Seen.Acks
  rw [show (⟨.PUT, storeUri key, Block.serializeAll (g n)⟩ : Request) = putRequest key g n from rfl]
  dsimp only
  rw [hreply]
  cases hacc : accepted (exchange env reach n (see s.cluster n).srv (putRequest key g n)).1 with
  | none =>
      -- the reply is an error, or none: the master is as it was
      obtain ⟨hsuccess, hmaster⟩ := assign_rejected hacc key n (g n) (s.success, s.blockNodeMap)
        (s.cluster.send env reach n (putRequest key g n)).2.master
      rw [hsuccess, hmaster, Seen.after_rejected hacc]
      exact ⟨hsee, by simp, assign_blockNodeMap _ _ _ _ _ _⟩
  | some sizeInfo =>
      rw [Seen.after_accepted hacc]
      -- the node took the blocks, and its statistics are updated in the state it left
      refine ⟨?_, by simp [assign_accepted hacc], assign_blockNodeMap _ _ _ _ _ _⟩
      rw [assign_accepted hacc]
      dsimp only
      rw [see_updateStats, hsee, Function.update_idem, Function.update_self]
      rfl

variable (env reach) in
/-- **One `deleteBlocks`** does so, too. -/
theorem deleteBlocks_see (key : Bytes) (s : Bool × Cluster) (n : Nat) :
    let s' := deleteBlocks env reach key s n
    see s'.2 = Function.update (see s.2) n
        (Seen.after env reach key (deleteRequest key) (fun _ => 0) n (see s.2 n)) ∧
      (s'.1 = true ↔
        s.1 = true ∧ Seen.Acks env reach (deleteRequest key) n (see s.2 n)) := by
  have hsee := see_send env reach s.2 n (deleteRequest key n)
  have hreply : (s.2.send env reach n (deleteRequest key n)).1
      = (exchange env reach n (see s.2 n).srv (deleteRequest key n)).1 := by
    rw [send_eq]
    rfl
  dsimp only
  unfold deleteBlocks Seen.Acks
  rw [show (⟨.DEL, storeUri key, []⟩ : Request) = deleteRequest key n from rfl]
  dsimp only
  rw [hreply]
  -- a reply other than OK, or an OK that cannot be read, leaves the statistics
  have hrejected : accepted (exchange env reach n (see s.2 n).srv (deleteRequest key n)).1 = none →
      see (s.2.send env reach n (deleteRequest key n)).2 = Function.update (see s.2) n
        (Seen.after env reach key (deleteRequest key) (fun _ => 0) n (see s.2 n)) := by
    intro hacc
    rw [Seen.after_rejected hacc]
    exact hsee
  rcases hrep : (exchange env reach n (see s.2 n).srv (deleteRequest key n)).1
    with _ | ⟨status, payload⟩
  · exact ⟨hrejected (by rw [hrep]; rfl), by simp [accepted]⟩
  · cases status with
    | OK =>
        dsimp only
        cases hsize : SizeInfo.deserialize payload with
        | none => exact ⟨hrejected (by rw [hrep]; exact hsize), by simp [accepted, hsize]⟩
        | some sizeInfo =>
            have hacc : accepted (exchange env reach n (see s.2 n).srv (deleteRequest key n)).1
                = some sizeInfo := by
              rw [hrep]
              exact hsize
            rw [Seen.after_accepted hacc]
            refine ⟨?_, by simp [accepted, hsize]⟩
            have hstats := see_updateStats (s.2.send env reach n (deleteRequest key n)).2 key n 0
              sizeInfo
            rw [hsee, Function.update_idem, Function.update_self] at hstats
            exact hstats
    | InternalError => exact ⟨hrejected (by rw [hrep]; rfl), by simp [accepted]⟩
    | NotImplemented => exact ⟨hrejected (by rw [hrep]; rfl), by simp [accepted]⟩

/-! ## All requests -/

/-- What requests about a key to the nodes of `ns` do to the counts. -/
structure Counted (env : Env) (reach : Nat → Bool) (key : Bytes) (request : Nat → Request)
    (added : Nat → Nat) (ns : List Nat) (c c' : Cluster) : Prop where
  keyBlockNodeMap : c'.master.keyBlockNodeMap = c.master.keyBlockNodeMap
  stored : ∀ n, c'.stored n
    = if n ∈ ns ∧ Acks env reach c n (request n) then
        (c.stored n).map fun k => k - UInt32.ofNat (c.master.recordedOn key n)
          + UInt32.ofNat (added n)
      else c.stored n

theorem stored_after {key : Bytes} {request : Nat → Request} {added : Nat → Nat} {c c' : Cluster}
    {n : Nat} (h : see c' n = Seen.after env reach key request added n (see c n)) :
    c'.stored n = if Acks env reach c n (request n) then
        (c.stored n).map fun k => k - UInt32.ofNat (c.master.recordedOn key n)
          + UInt32.ofNat (added n)
      else c.stored n := by
  have hsn : c'.stored n
      = (Seen.after env reach key request added n (see c n)).sn.map
          fun sn => sn.stats.blocksStored := by
    rw [← h]
    rfl
  rw [hsn]
  simp only [acks_iff, Seen.Acks]
  cases hacc : accepted (exchange env reach n (see c n).srv (request n)).1 with
  | none =>
      rw [Seen.after_rejected hacc]
      rfl
  | some sizeInfo =>
      rw [Seen.after_accepted hacc, if_pos (by rfl), Option.map_map]
      show _ = ((see c n).sn.map _).map _
      rw [Option.map_map]
      rfl

theorem counted_foldl {σ : Type} (cluster : σ → Cluster) {step : σ → Nat → σ} {key : Bytes}
    {request : Nat → Request} {added : Nat → Nat}
    (hstep : ∀ s n, see (cluster (step s n)) = Function.update (see (cluster s)) n
      (Seen.after env reach key request added n (see (cluster s) n)))
    {ns : List Nat} (hn : ns.Nodup) (s : σ) :
    Counted env reach key request added ns (cluster s) (cluster (ns.foldl step s)) := by
  have hupdates : Updates.UpdatesAt (fun _ => True) (fun s => see (cluster s))
      (Seen.after env reach key request added) step := fun s n _ => hstep s n
  have hview : ∀ n, see (cluster (ns.foldl step s)) n
      = if n ∈ ns then Seen.after env reach key request added n (see (cluster s) n)
        else see (cluster s) n :=
    hupdates.foldl_view hn fun _ _ => trivial
  constructor
  · -- no request changes the map, whichever node one looks at
    have hmap := congrArg Seen.keyBlockNodeMap (hview 0)
    refine hmap.trans ?_
    split <;> rfl
  · intro n
    by_cases hmem : n ∈ ns
    · have hafter := hview n
      rw [if_pos hmem] at hafter
      rw [stored_after hafter]
      simp only [hmem, true_and]
    · have hsame := hview n
      rw [if_neg hmem] at hsame
      rw [if_neg fun h => hmem h.1]
      exact congrArg (fun v : Seen => v.sn.map fun sn => sn.stats.blocksStored) hsame

/-- The count of a node after a request that it answered. -/
theorem toNat_count {k : UInt32} {pairs recorded added : Nat} (hk : k.toNat = pairs)
    (hle : recorded ≤ pairs) :
    (k - UInt32.ofNat recorded + UInt32.ofNat added).toNat
      = (pairs - recorded + added) % 2 ^ 32 := by
  have hlt := k.toNat_lt
  have hrecorded : (UInt32.ofNat recorded).toNat = recorded :=
    UInt32.toNat_ofNat_of_lt' (show recorded < 2 ^ 32 by omega)
  have hsub : (k - UInt32.ofNat recorded).toNat = pairs - recorded := by
    rw [UInt32.toNat_sub_of_le, hrecorded, hk]
    rw [UInt32.le_iff_toNat_le, hrecorded, hk]
    exact hle
  rw [UInt32.toNat_add, hsub, UInt32.toNat_ofNat', Nat.add_mod_mod]

variable (env reach) in
/-- The requests of a PUT. -/
theorem foldl_sendBlocks_counted (key : Bytes) (g : Nat → List Block) {ns : List Nat}
    (hn : ns.Nodup) (s : PutState) :
    let s' := ns.foldl (fun s n => sendBlocks env reach key s n (g n)) s
    Counted env reach key (putRequest key g) (fun n => (g n).length) ns s.cluster s'.cluster ∧
      (s'.success = true ↔
        s.success = true ∧ ∀ n ∈ ns, Acks env reach s.cluster n (putRequest key g n)) ∧
      ((∀ n ∈ ns, Acks env reach s.cluster n (putRequest key g n)) →
        ∀ b n, s'.blockNodeMap.Related b n ↔
          (n ∈ ns ∧ b ∈ (g n).map Block.blockNum) ∨ s.blockNodeMap.Related b n) := by
  have hone := fun s n => sendBlocks_see env reach key g s n
  have hupdates : Updates.UpdatesAt (fun _ => True) (fun s : PutState => see s.cluster)
      (Seen.after env reach key (putRequest key g) fun n => (g n).length)
      fun s n => sendBlocks env reach key s n (g n) := fun s n _ => (hone s n).1
  refine ⟨counted_foldl PutState.cluster (fun s n => (hone s n).1) hn s, ?_, ?_⟩
  · -- success is kept exactly by the nodes that answer
    refine (hupdates.foldl_forall (A := fun s => s.success = true)
      (P := Seen.Acks env reach (putRequest key g)) (fun s n _ => (hone s n).2.1) hn
      fun _ _ => trivial).trans ?_
    exact and_congr_right fun _ => forall₂_congr fun n _ => acks_iff.symm
  · -- the records of the new map are those of the nodes that answered
    intro hall b n
    refine (hupdates.foldl_exists (A := fun s => s.blockNodeMap.Related b n)
      (P := fun n' v => answeredOk (exchange env reach n' v.srv (putRequest key g n')).1 = true ∧
        n' = n ∧ b ∈ (g n').map Block.blockNum) (fun s n' _ => ?_) hn fun _ _ => trivial).trans ?_
    · rw [(hone s n').2.2]
      split
      · rename_i hok
        rw [Multimap.related_addAll, mem_recordsOf]
        simp [hok]
      · rename_i hno
        simp [hno]
    · refine or_congr_left ⟨?_, fun h => ⟨n, h.1, ?_, rfl, h.2⟩⟩
      · rintro ⟨n', hn', -, rfl, hb⟩
        exact ⟨hn', hb⟩
      · exact answeredOk_of_accepted (acks_iff.mp (hall n h.1))

variable (env reach) in
/-- The requests of a DELETE. -/
theorem foldl_deleteBlocks_counted (key : Bytes) {ns : List Nat} (hn : ns.Nodup)
    (s : Bool × Cluster) :
    let s' := ns.foldl (deleteBlocks env reach key) s
    Counted env reach key (deleteRequest key) (fun _ => 0) ns s.2 s'.2 ∧
      (s'.1 = true ↔
        s.1 = true ∧ ∀ n ∈ ns, Acks env reach s.2 n (deleteRequest key n)) := by
  have hone := fun s n => deleteBlocks_see env reach key s n
  have hupdates : Updates.UpdatesAt (fun _ => True) (fun s : Bool × Cluster => see s.2)
      (Seen.after env reach key (deleteRequest key) fun _ => 0)
      (deleteBlocks env reach key) := fun s n _ => (hone s n).1
  refine ⟨counted_foldl Prod.snd (fun s n => (hone s n).1) hn s, ?_⟩
  refine (hupdates.foldl_forall (A := fun s => s.1 = true)
    (P := Seen.Acks env reach (deleteRequest key)) (fun s n _ => (hone s n).2) hn
    fun _ _ => trivial).trans ?_
  exact and_congr_right fun _ => forall₂_congr fun n _ => acks_iff.symm

end Cluster

end RackKey
