import RackKey.Cluster.Concurrent
import RackKey.Cluster.RoundTrip

set_option autoImplicit false

/-! # PUTs of one key that do not overlap other requests

Nothing in the master or in the nodes keeps concurrent requests of one key apart, so a GET may
answer a mixture of two payloads when two PUTs overlap, or when a PUT overlaps the GET
(`mixed_get`). A run in which every PUT is apart from the other requests goes through phases
(`Phase`): no value is stored, or one payload is, or one PUT is under way. GETs are under way in
the second phase only, and collect the blocks of its payload (`Collecting`). So every GET
answered OK answers the payload of one PUT (`get_of_apart`).
-/

namespace RackKey

open Std Words Payloads DiskStorage

namespace Concurrent

open Cluster

variable {env : Env} {key : Bytes}

/-! ## Stages -/

section Stages

variable {stage : Nat → Stage} {n n' : Nat} {reply reply' : Option Response}

theorem update_replied_received (h : stage n = .sent) :
    Function.update stage n (.replied reply) n' = .received ↔ stage n' = .received := by
  by_cases hn : n' = n
  · subst hn
    rw [Function.update_self, h]
    simp
  · rw [Function.update_of_ne hn]

theorem update_replied_replied (h : Function.update stage n (.replied reply) n' = .replied reply') :
    (n' = n ∧ reply' = reply) ∨ (n' ≠ n ∧ stage n' = .replied reply') := by
  by_cases hn : n' = n
  · subst hn
    rw [Function.update_self] at h
    exact Or.inl ⟨rfl, (Stage.replied.inj h).symm⟩
  · rw [Function.update_of_ne hn] at h
    exact Or.inr ⟨hn, h⟩

theorem update_received_received :
    Function.update stage n .received n' = .received ↔ n' = n ∨ stage n' = .received := by
  by_cases hn : n' = n
  · subst hn
    simp
  · rw [Function.update_of_ne hn]
    simp [hn]

theorem update_received_replied (h : Function.update stage n .received n' = .replied reply) :
    stage n' = .replied reply := by
  by_cases hn : n' = n
  · subst hn
    rw [Function.update_self] at h
    cases h
  · rwa [Function.update_of_ne hn] at h

end Stages

/-! ## GETs under way -/

/-- A reply that is a failure, or brings the blocks of the payload with the given numbers. -/
def Brings (K payload : Bytes) (dataBlockSize : UInt32) (blockNums : List UInt32)
    (reply : Option Response) : Prop :=
  ∀ s : Bool × ExtTreeMap UInt32 Block, (collect s reply).1 = true →
    ∃ blocks : List Block,
      collect s reply = (s.1, blocks.foldl (fun m b => m.insertIfNew b.blockNum b) s.2) ∧
      (∀ b ∈ blocks, b = blockOf K dataBlockSize payload b.blockNum.toNat) ∧
      ∀ num, num ∈ blocks.map Block.blockNum ↔ num ∈ blockNums

/-- A node of a cluster that stores the payload brings its blocks, or the request fails. -/
theorem brings_send (hk : PlainKey key) {c : Cluster} {payload : Bytes} {bm : BlockNodeMap}
    (hs : Stores env c key payload bm) {n : Nat}
    (hr : (c.nodes n).Readable c.master.config.dataBlockSize) {blockNums : List UInt32}
    (hne : blockNums ≠ []) (hrel : ∀ b ∈ blockNums, bm.Related b n) (reached : Bool) :
    let r := c.send env (fun _ => reached) n
      ⟨.GET, storeUri (padded key), blockNumBytes blockNums⟩
    Brings (padded key) payload c.master.config.dataBlockSize blockNums r.1 ∧
      Cluster.AfterReads c r.2 := by
  obtain ⟨hreply, hafter⟩ := send_get hk c (fun _ => hr) blockNums
  refine ⟨fun s hsuccess => ?_, hafter⟩
  rw [hreply] at hsuccess ⊢
  cases reached with
  | false => cases hsuccess
  | true => exact hs.reply (fun _ => true) rfl hne hrel s

/-- A GET under way, in a cluster with the nodes and the block size of `start` that stores a
payload on the nodes recorded in `bm`. -/
structure Collecting (start : Cluster) (key payload : Bytes) (bm : BlockNodeMap)
    (nodeBlockMap : ExtTreeMap Nat (List UInt32)) (success : Bool)
    (blockMap : ExtTreeMap UInt32 Block) (stage : Nat → Stage) : Prop where
  known : ∀ n ∈ nodeBlockMap, n ∈ start.master.storageNodes
  nonempty : ∀ n ∈ nodeBlockMap, nodeBlockMap.getD n [] ≠ []
  related : ∀ n, ∀ num ∈ nodeBlockMap.getD n [], bm.Related num n
  covers : ∀ num ∈ bm, ∃ n ∈ nodeBlockMap, num ∈ nodeBlockMap.getD n []
  replies : ∀ n reply, stage n = .replied reply →
    Brings (padded key) payload start.master.config.dataBlockSize (nodeBlockMap.getD n []) reply
  collected : success = true → ∀ num b, blockMap[num]? = some b ↔
    (∃ n, stage n = .received ∧ num ∈ nodeBlockMap.getD n []) ∧
      b = blockOf (padded key) start.master.config.dataBlockSize payload num.toNat

namespace Collecting

variable {start : Cluster} {payload : Bytes} {bm : BlockNodeMap}
variable {nodeBlockMap : ExtTreeMap Nat (List UInt32)} {success : Bool}
variable {blockMap : ExtTreeMap UInt32 Block} {stage : Nat → Stage} {n : Nat}

theorem of_choices {c : Cluster} {choices : List (Nat × UInt32)}
    (hnodes : ∀ n : Nat, n ∈ c.master.storageNodes ↔ n ∈ start.master.storageNodes)
    (hchoices : c.chooseNodes bm.toList = some choices) :
    Collecting start key payload bm (Groups.group choices) true ∅ fun _ => .sent := by
  obtain ⟨hcovers, hmem⟩ := chooseNodes_toList hchoices
  refine ⟨fun n hn => ?_, fun n hn => ?_, fun n num hnum => ?_, fun num hnum => ?_,
    fun n reply h => (by cases h), fun _ num b => ?_⟩
  · obtain ⟨num, hnum⟩ := (Groups.mem_group choices n).mp hn
    exact (hnodes n).mp (mem_of_isHealthy (hmem _ hnum).1)
  · obtain ⟨num, hnum⟩ := (Groups.mem_group choices n).mp hn
    rw [Groups.getD_group]
    exact List.ne_nil_of_mem (Groups.mem_items.mpr hnum)
  · rw [Groups.getD_group] at hnum
    exact (hmem _ (Groups.mem_items.mp hnum)).2
  · obtain ⟨n, hn⟩ := (hcovers num).mpr hnum
    refine ⟨n, (Groups.mem_group choices n).mpr ⟨num, hn⟩, ?_⟩
    rw [Groups.getD_group]
    exact Groups.mem_items.mpr hn
  · simp

theorem handle (h : Collecting start key payload bm nodeBlockMap success blockMap stage)
    {reply : Option Response} (hsent : stage n = .sent)
    (hreply : Brings (padded key) payload start.master.config.dataBlockSize
      (nodeBlockMap.getD n []) reply) :
    Collecting start key payload bm nodeBlockMap success blockMap
      (Function.update stage n (.replied reply)) where
  known := h.known
  nonempty := h.nonempty
  related := h.related
  covers := h.covers
  replies := by
    intro n' reply' hn'
    rcases update_replied_replied hn' with ⟨rfl, rfl⟩ | ⟨-, hn'⟩
    · exact hreply
    · exact h.replies n' reply' hn'
  collected := by
    intro hsuccess num b
    simp only [update_replied_received hsent]
    exact h.collected hsuccess num b

theorem receive (h : Collecting start key payload bm nodeBlockMap success blockMap stage)
    {reply : Option Response} (hreplied : stage n = .replied reply) :
    Collecting start key payload bm nodeBlockMap (collect (success, blockMap) reply).1
      (collect (success, blockMap) reply).2 (Function.update stage n .received) where
  known := h.known
  nonempty := h.nonempty
  related := h.related
  covers := h.covers
  replies := fun n' reply' hn' => h.replies n' reply' (update_received_replied hn')
  collected := by
    intro hsuccess num b
    obtain ⟨blocks, heq, hblocks, hnums⟩ := h.replies n reply hreplied (success, blockMap) hsuccess
    -- the blocks of the reply are those of the payload, so none that is there already differs
    rw [heq] at hsuccess ⊢
    have hmap := foldl_insertIfNew hblocks blockMap _ (h.collected hsuccess) num b
    rw [hmap, hnums]
    refine and_congr_left fun _ => ?_
    constructor
    · -- collected before, or in this reply
      rintro (⟨n', hn', hnum⟩ | hnum)
      · exact ⟨n', update_received_received.mpr (Or.inr hn'), hnum⟩
      · exact ⟨n, update_received_received.mpr (Or.inl rfl), hnum⟩
    · rintro ⟨n', hn', hnum⟩
      rcases update_received_received.mp hn' with rfl | hn'
      · exact Or.inr hnum
      · exact Or.inl ⟨n', hn', hnum⟩

/-- **When all replies are in and none failed**, the blocks collected are the payload. -/
theorem recombine (h : Collecting start key payload bm nodeBlockMap true blockMap stage)
    (hreceived : ∀ n ∈ nodeBlockMap, stage n = .received) {c : Cluster}
    (hs : Stores env c key payload bm) (hconfig : c.master.config = start.master.config) :
    Cluster.recombine blockMap = payload := by
  refine hs.recombine fun num b => ?_
  rw [h.collected rfl num b, hconfig]
  refine and_congr_left fun _ => ?_
  constructor
  · rintro ⟨n, -, hnum⟩
    exact Multimap.mem_of_related (h.related n num hnum)
  · intro hnum
    obtain ⟨n, hn, hmem⟩ := h.covers num hnum
    exact ⟨n, hreceived n hn, hmem⟩

end Collecting

/-! ## A PUT under way -/

/-- `putAt` depends on whether the request gets through to its own node. -/
theorem putAt_congr {reach reach' : Nat → Bool} {n : Nat} (h : reach n = reach' n)
    (srv : StorageServer) (blocks : List Block) :
    putAt env reach key n srv blocks = putAt env reach' key n srv blocks := by
  unfold putAt
  rw [h]

/-- A PUT under way, alone since it found the cluster as `c`; `c'` is the cluster now. The
requests to the nodes of `reach` get through. -/
structure Sending (env : Env) (reach : Nat → Bool) (key : Bytes) (c c' : Cluster)
    (nodeBlockMap : ExtTreeMap Nat (List Block)) (success : Bool) (blockNodeMap : BlockNodeMap)
    (stage : Nat → Stage) : Prop where
  nodes : ∀ n, c'.nodes n = if stage n = .sent then c.nodes n
    else (putAt env reach key n (c.nodes n) (nodeBlockMap.getD n [])).2
  replies : ∀ n reply, stage n = .replied reply →
    Tells (putAt env reach key n (c.nodes n) (nodeBlockMap.getD n [])).1 reply
  asked : ∀ n, stage n ≠ .sent → n ∈ nodeBlockMap
  success : success = true ↔ ∀ n, stage n = .received →
    (putAt env reach key n (c.nodes n) (nodeBlockMap.getD n [])).1 = true
  related : ∀ b n, blockNodeMap.Related b n ↔ stage n = .received ∧
    (putAt env reach key n (c.nodes n) (nodeBlockMap.getD n [])).1 = true ∧
      b ∈ (nodeBlockMap.getD n []).map Block.blockNum
  proper : blockNodeMap.Proper
  master : c.master.NodesOnly c'.master

namespace Sending

variable {reach : Nat → Bool} {c c' : Cluster} {nodeBlockMap : ExtTreeMap Nat (List Block)}
variable {success : Bool} {blockNodeMap : BlockNodeMap} {stage : Nat → Stage} {n : Nat}

theorem start (env : Env) (key : Bytes) (c : Cluster)
    (nodeBlockMap : ExtTreeMap Nat (List Block)) :
    Sending env (fun _ => true) key c c nodeBlockMap true ∅ fun _ => .sent where
  nodes := fun _ => rfl
  replies := fun n reply h => by cases h
  asked := fun n h => absurd rfl h
  success := by simp
  related := by
    intro b n
    simp only [reduceCtorEq, false_and, iff_false]
    exact fun h => ExtTreeMap.not_mem_empty (Multimap.mem_of_related h)
  proper := Multimap.proper_empty
  master := MasterServer.NodesOnly.refl c.master

theorem handle (h : Sending env reach key c c' nodeBlockMap success blockNodeMap stage)
    (hk : PlainKey key) (hn : n ∈ nodeBlockMap) (hsent : stage n = .sent) (reached : Bool)
    (hl : (c.nodes n).keyLengthMax = 50) :
    let r := c'.send env (fun _ => reached) n
      ⟨.PUT, storeUri (padded key), Block.serializeAll (nodeBlockMap.getD n [])⟩
    Sending env (Function.update reach n reached) key c r.2 nodeBlockMap success blockNodeMap
      (Function.update stage n (.replied r.1)) := by
  have hsame : c'.nodes n = c.nodes n := by rw [h.nodes, if_pos hsent]
  obtain ⟨htells, hsend⟩ := send_putAt env (fun _ => reached) hk c'
    (fun _ => by rw [hsame]; exact hl) (nodeBlockMap.getD n [])
  dsimp only
  set r := c'.send env (fun _ => reached) n
    ⟨.PUT, storeUri (padded key), Block.serializeAll (nodeBlockMap.getD n [])⟩ with hr
  rw [hsame] at htells hsend
  have hself : putAt env (Function.update reach n reached) key n (c.nodes n)
      (nodeBlockMap.getD n [])
        = putAt env (fun _ => reached) key n (c.nodes n) (nodeBlockMap.getD n []) :=
    putAt_congr (show Function.update reach n reached n = reached from Function.update_self ..) _ _
  have hother : ∀ n', n' ≠ n → ∀ srv blocks,
      putAt env (Function.update reach n reached) key n' srv blocks
        = putAt env reach key n' srv blocks :=
    fun n' hne srv blocks => putAt_congr (Function.update_of_ne hne ..) srv blocks
  -- the node has not been asked before, so what it does is new to no other field
  have hreceived : ∀ n', stage n' = .received → n' ≠ n := by
    rintro n' hn' rfl
    rw [hsent] at hn'
    cases hn'
  refine ⟨fun n' => ?_, fun n' reply' hn' => ?_, fun n' hn' => ?_, ?_, fun b n' => ?_, h.proper, ?_⟩
  · rw [hsend]
    dsimp only
    by_cases hne : n' = n
    · subst hne
      rw [Function.update_self, Function.update_self, hself, if_neg (by simp)]
    · rw [Function.update_of_ne hne, Function.update_of_ne hne, hother n' hne]
      exact h.nodes n'
  · rcases update_replied_replied hn' with ⟨rfl, rfl⟩ | ⟨hne, hn'⟩
    · rw [hself]
      exact htells
    · rw [hother n' hne]
      exact h.replies n' reply' hn'
  · by_cases hne : n' = n
    · exact hne ▸ hn
    · rw [Function.update_of_ne hne] at hn'
      exact h.asked n' hn'
  · rw [h.success]
    refine forall_congr' fun n' => ?_
    rw [update_replied_received hsent]
    refine imp_congr_right fun hn' => ?_
    rw [hother n' (hreceived n' hn')]
  · rw [h.related, update_replied_received hsent]
    refine and_congr_right fun hn' => ?_
    rw [hother n' (hreceived n' hn')]
  · rw [hsend]
    exact h.master

theorem receive (h : Sending env reach key c c' nodeBlockMap success blockNodeMap stage)
    {reply : Option Response} (hreplied : stage n = .replied reply) (K : Bytes) :
    let p := assign K n (nodeBlockMap.getD n []) (success, blockNodeMap) c'.master reply
    Sending env reach key c { c' with master := p.2 } nodeBlockMap p.1.1 p.1.2
      (Function.update stage n .received) := by
  obtain ⟨hsuccess, hmap, hmaster⟩ := assign_eq (h.replies n reply hreplied) K n
    (nodeBlockMap.getD n []) (success, blockNodeMap) c'.master
  dsimp only
  refine ⟨fun n' => ?_, fun n' reply' hn' => h.replies n' reply' (update_received_replied hn'),
    fun n' hn' => ?_, ?_, fun b n' => ?_, ?_, h.master.trans hmaster⟩
  · rw [h.nodes]
    by_cases hne : n' = n
    · subst hne
      simp [hreplied]
    · rw [Function.update_of_ne hne]
  · by_cases hne : n' = n
    · exact h.asked n' (by rw [hne, hreplied]; simp)
    · rw [Function.update_of_ne hne] at hn'
      exact h.asked n' hn'
  · rw [hsuccess, Bool.and_eq_true, h.success]
    simp only [update_received_received]
    constructor
    · rintro ⟨hold, hnew⟩ n' (rfl | hn')
      · exact hnew
      · exact hold n' hn'
    · intro hall
      exact ⟨fun n' hn' => hall n' (Or.inr hn'), hall n (Or.inl rfl)⟩
  · rw [hmap, update_received_received]
    split
    · -- an OK adds the blocks of the node
      rename_i hok
      rw [Multimap.related_addAll, mem_recordsOf, h.related]
      constructor
      · rintro (⟨rfl, hb⟩ | ⟨hn', hb⟩)
        · exact ⟨Or.inl rfl, hok, hb⟩
        · exact ⟨Or.inr hn', hb⟩
      · rintro ⟨rfl | hn', hb⟩
        · exact Or.inl ⟨rfl, hb.2⟩
        · exact Or.inr ⟨hn', hb⟩
    · -- a failure adds nothing, and the PUT is not a success any more
      rename_i hfail
      rw [h.related]
      refine ⟨fun hb => ⟨Or.inr hb.1, hb.2⟩, ?_⟩
      rintro ⟨rfl | hn', hb⟩
      · exact absurd hb.1 hfail
      · exact ⟨hn', hb⟩
  · rw [hmap]
    split
    · exact h.proper.addAll _
    · exact h.proper

/-- **When all replies are in and none failed**, the tasks have done what a PUT by itself
does. -/
theorem run (h : Sending env reach key c c' nodeBlockMap true blockNodeMap stage)
    {fuel : Nat} {payload : Bytes}
    (hdistribute : c.distribute env fuel (padded key) payload = some nodeBlockMap)
    (hreceived : ∀ n ∈ nodeBlockMap, stage n = .received) :
    PutRun env reach fuel key payload c (⟨.OK, []⟩, c'.record (padded key) blockNodeMap) := by
  obtain ⟨hplaced, hsentTo, hmem⟩ := distribute_spec hdistribute
  have hok := h.success.mp rfl
  have hall : ∀ n, sentTo env fuel key payload c n ≠ [] ↔ stage n = .received := by
    intro n
    rw [← hmem]
    refine ⟨hreceived n, fun hn => h.asked n ?_⟩
    rw [hn]
    simp
  refine ⟨hplaced, fun n => ?_, Or.inl ⟨rfl, fun n hn => ?_, blockNodeMap, h.proper,
    fun b n => ?_, ?_⟩⟩
  · show c'.nodes n = _
    rw [h.nodes, hsentTo]
    -- a node that is still to be asked at the end was sent nothing
    by_cases hn : stage n = .sent
    · rw [if_pos hn, if_pos]
      by_contra hne
      rw [(hall n).mp hne] at hn
      cases hn
    · rw [if_neg hn, if_neg ((hmem n).mp (h.asked n hn))]
  · rw [← hsentTo]
    exact hok n ((hall n).mp hn)
  · rw [h.related, ← hsentTo]
    refine ⟨fun hb => hb.2.2, fun hb => ?_⟩
    have hn : stage n = .received := by
      rw [← hall, ← hsentTo]
      intro hnil
      rw [hnil] at hb
      cases hb
    exact ⟨hn, hok n hn, hb⟩
  · refine ⟨h.master.hashRing, ?_, h.master.config, h.master.mem_storageNodes⟩
    show c'.master.keyBlockNodeMap.insert _ _ = _
    rw [h.master.keyBlockNodeMap]
    rfl

end Sending

/-! ## Phases -/

/-- The payload is that of a PUT answered OK, or is stored from the start. -/
def Written (env : Env) (key : Bytes) (start : Cluster) (s : State) (payload : Bytes) : Prop :=
  (∃ id, s.tasks id = some (.putDone payload ⟨.OK, []⟩)) ∨ ∃ bm, Stores env start key payload bm

/-- No PUT of the run so far was answered with an error. -/
def PutsOk (s : State) : Prop :=
  ∀ id payload answer, s.tasks id = some (.putDone payload answer) → answer.status = .OK

/-- The nodes of `start` are in order. -/
def NodesOk (start c : Cluster) : Prop :=
  ∀ n ∈ start.master.storageNodes, (c.nodes n).Ok start.master.config.dataBlockSize

/-- A PUT starts when no request is under way and has a payload that fits; a GET starts when no
PUT is under way. -/
def Apart (s : State) : Step → Prop
  | .put _ _ payload =>
      payload.length + s.cluster.master.config.dataBlockSize.toNat ≤ 2 ^ 32 ∧ ∀ id, ¬ Running s id
  | .get _ => ∀ id payload nodeBlockMap success blockNodeMap stage,
      s.tasks id ≠ some (.running (.put payload nodeBlockMap success blockNodeMap) stage)
  | _ => True

/-- All requests under way are GETs, of the payload stored. -/
def GetsOnly (start : Cluster) (key payload : Bytes) (bm : BlockNodeMap) (s : State) : Prop :=
  ∀ id job stage, s.tasks id = some (.running job stage) →
    ∃ nodeBlockMap success blockMap, job = .get nodeBlockMap success blockMap ∧
      Collecting start key payload bm nodeBlockMap success blockMap stage

/-- The phases of a run. -/
inductive Phase (env : Env) (key : Bytes) (start : Cluster) (s : State) : Prop
  | unset (entry : s.cluster.master.keyBlockNodeMap[padded key]? = none)
      (nodes : NodesOk start s.cluster) (idle : ∀ id, ¬ Running s id)
  | stored (payload : Bytes) (bm : BlockNodeMap) (stores : Stores env s.cluster key payload bm)
      (nodes : NodesOk start s.cluster) (written : Written env key start s payload)
      (gets : GetsOnly start key payload bm s)
  | sending (id fuel : Nat) (payload : Bytes) (reach : Nat → Bool) (c : Cluster)
      (nodeBlockMap : ExtTreeMap Nat (List Block)) (success : Bool) (blockNodeMap : BlockNodeMap)
      (stage : Nat → Stage)
      (task : s.tasks id = some (.running (.put payload nodeBlockMap success blockNodeMap) stage))
      (alone : ∀ id', Running s id' → id' = id)
      (fits : FitsPayload start.master.config.dataBlockSize payload)
      (nodes : NodesOk start c)
      (distributed : c.distribute env fuel (padded key) payload = some nodeBlockMap)
      (sending : Sending env reach key c s.cluster nodeBlockMap success blockNodeMap stage)

/-- What holds in every state of a run whose PUTs are apart. -/
structure Inv (env : Env) (key : Bytes) (start : Cluster) (s : State) : Prop where
  config : s.cluster.master.config = start.master.config
  mem_storageNodes : ∀ n : Nat,
    n ∈ s.cluster.master.storageNodes ↔ n ∈ start.master.storageNodes
  answers : ∀ id body, s.tasks id = some (.getDone (some ⟨.OK, body⟩)) →
    Written env key start s body
  phase : Phase env key start s

/-! ## Every step keeps the invariant -/

section Steps

variable {start : Cluster} {s s' : State} {op : Step}

theorem not_running_putDone {id : Nat} {payload : Bytes} {answer : Response}
    (h : s.tasks id = some (.putDone payload answer)) : ¬ Running s id := by
  rintro ⟨job, stage, hrun⟩
  rw [h] at hrun
  cases hrun

theorem Written.step {payload : Bytes} (h : Written env key start s payload)
    (hstep : step env key s op = some s') : Written env key start s' payload := by
  rcases h with ⟨id, hid⟩ | hstart
  · exact Or.inl ⟨id, task_done hstep hid (not_running_putDone hid)⟩
  · exact Or.inr hstart

theorem PutsOk.before (h : PutsOk s') (hstep : step env key s op = some s') : PutsOk s :=
  fun id payload answer hid => h id payload answer (task_done hstep hid (not_running_putDone hid))

/-- The parts of the invariant besides the phase, for a step that changes one task. -/
theorem Inv.next (hi : Inv env key start s) (hstep : step env key s op = some s')
    {c : Cluster} {id : Nat} {task : Task} (hs' : s' = { s with cluster := c }.setTask id task)
    (hconfig : c.master.config = start.master.config)
    (hmem : ∀ n : Nat, n ∈ c.master.storageNodes ↔ n ∈ start.master.storageNodes)
    (htask : ∀ body, task = .getDone (some ⟨.OK, body⟩) → Written env key start s' body)
    (hphase : Phase env key start s') : Inv env key start s' := by
  refine ⟨?_, fun n => ?_, fun id' body hid' => ?_, hphase⟩
  · rw [hs']
    exact hconfig
  · rw [hs']
    exact hmem n
  · -- a GET answered now, or one answered before
    have hold := hid'
    rw [hs'] at hold
    rcases tasks_setTask hold with ⟨-, htask'⟩ | ⟨-, hold⟩
    · exact htask body htask'.symm
    · exact (hi.answers id' body hold).step hstep

/-- The one task under way stays the only one. -/
theorem alone_setTask {id : Nat} (h : ∀ id', Running s id' → id' = id) (c : Cluster) (task : Task)
    (id' : Nat) (hrun : Running ({ s with cluster := c }.setTask id task) id') : id' = id := by
  obtain ⟨job, stage, hrun⟩ := hrun
  rcases tasks_setTask hrun with ⟨hid, -⟩ | ⟨-, hrun⟩
  · exact hid
  · exact h id' ⟨job, stage, hrun⟩

theorem inv_put (hpos : 1 ≤ start.master.config.dataBlockSize.toNat)
    (hi : Inv env key start s) {id fuel : Nat} {payload : Bytes}
    (hapart : Apart s (.put id fuel payload))
    (hstep : step env key s (.put id fuel payload) = some s') : Inv env key start s' := by
  obtain ⟨hsize, hidle⟩ := hapart
  obtain ⟨-, nodeBlockMap, hdistribute, hs'⟩ := step_put hstep
  rw [hi.config] at hsize
  have hnodes : NodesOk start s.cluster := by
    cases hi.phase with
    | unset entry nodes idle => exact nodes
    | stored payload bm stores nodes written gets => exact nodes
    | sending id' _ _ _ _ _ _ _ _ task => exact absurd ⟨_, _, task⟩ (hidle id')
  refine hi.next hstep hs' hi.config hi.mem_storageNodes (fun body h => by cases h) ?_
  rw [hs']
  exact .sending id fuel payload _ s.cluster nodeBlockMap true ∅ _ (setTask_tasks_self ..)
    (alone_setTask (fun id' hrun => absurd hrun (hidle id')) s.cluster _)
    (FitsPayload.of_le hpos hsize) hnodes hdistribute
    (Sending.start env key s.cluster nodeBlockMap)

/-- In the second phase: the task that a step changes is answered, or a GET of the payload. -/
theorem GetsOnly.setTask {payload : Bytes} {bm : BlockNodeMap}
    (h : GetsOnly start key payload bm s) {c : Cluster} {id : Nat} {task : Task}
    (htask : ∀ job stage, task = .running job stage →
      ∃ nodeBlockMap success blockMap, job = .get nodeBlockMap success blockMap ∧
        Collecting start key payload bm nodeBlockMap success blockMap stage) :
    GetsOnly start key payload bm ({ s with cluster := c }.setTask id task) := by
  intro id' job stage hrun
  rcases tasks_setTask hrun with ⟨-, htask'⟩ | ⟨-, hrun⟩
  · exact htask job stage htask'.symm
  · exact h id' job stage hrun

theorem inv_get (hi : Inv env key start s) {id : Nat} (hapart : Apart s (.get id))
    (hstep : step env key s (.get id) = some s') : Inv env key start s' := by
  obtain ⟨-, hs'⟩ := step_get hstep
  cases hi.phase with
  | unset entry nodes idle =>
      -- no entry: the GET is answered at once, with an error
      rw [startGet, entry] at hs'
      refine hi.next hstep hs' hi.config hi.mem_storageNodes (fun body h => by cases h) ?_
      rw [hs']
      refine .unset entry nodes ?_
      rintro id' ⟨job, stage, hrun⟩
      rcases tasks_setTask hrun with ⟨-, htask⟩ | ⟨-, hrun⟩
      · cases htask
      · exact idle id' ⟨job, stage, hrun⟩
  | stored payload bm stores nodes written gets =>
      rw [startGet, stores.recorded] at hs'
      have hwritten := written.step hstep
      cases hchoices : s.cluster.chooseNodes bm.toList with
      | none =>
          -- a block none of whose nodes is up: the GET is over, without an answer
          simp only [hchoices] at hs'
          refine hi.next hstep hs' hi.config hi.mem_storageNodes (fun body h => by cases h) ?_
          rw [hs'] at hwritten ⊢
          exact .stored payload bm stores nodes hwritten
            (gets.setTask fun job stage htask => by cases htask)
      | some choices =>
          simp only [hchoices] at hs'
          refine hi.next hstep hs' hi.config hi.mem_storageNodes (fun body h => by cases h) ?_
          rw [hs'] at hwritten ⊢
          refine .stored payload bm stores nodes hwritten (gets.setTask fun job stage htask => ?_)
          obtain ⟨rfl, rfl⟩ := Task.running.inj htask
          exact ⟨_, _, _, rfl, Collecting.of_choices hi.mem_storageNodes hchoices⟩
  | sending id' _ _ _ _ _ _ _ _ task => exact absurd task (hapart id' _ _ _ _ _)

theorem inv_handle (hk : PlainKey key) (hi : Inv env key start s) {id n : Nat} {reached : Bool}
    (hstep : step env key s (.handle id n reached) = some s') : Inv env key start s' := by
  obtain ⟨job, stage, hrun, hn, hsent, hs'⟩ := step_handle hstep
  cases hi.phase with
  | unset entry nodes idle => exact absurd ⟨job, stage, hrun⟩ (idle id)
  | stored payload bm stores nodes written gets =>
      obtain ⟨nodeBlockMap, success, blockMap, rfl, hget⟩ := gets id job stage hrun
      have hmem : n ∈ nodeBlockMap := ExtTreeMap.mem_keys.mp hn
      -- the node stores the payload and goes on doing so
      obtain ⟨hbrings, hafter⟩ := brings_send hk stores
        (by rw [hi.config]; exact (nodes n (hget.known n hmem)).toReadable)
        (hget.nonempty n hmem) (hget.related n) reached
      rw [hi.config] at hbrings
      have hwritten := written.step hstep
      simp only [Job.request] at hs'
      set r := s.cluster.send env (fun _ => reached) n
        ⟨.GET, storeUri (padded key), blockNumBytes (nodeBlockMap.getD n [])⟩ with hr
      have hstores : Stores env r.2 key payload bm :=
        stores.congr (by rw [hafter.master]) (by rw [hafter.master])
          fun n' => (hafter.nodes n').contents _
      refine hi.next hstep hs' (by rw [hafter.master, hi.config])
        (fun n' => by rw [hafter.master, hi.mem_storageNodes]) (fun body h => by cases h) ?_
      rw [hs'] at hwritten ⊢
      refine .stored payload bm hstores (fun n' hn' => (hafter.nodes n').ok (nodes n' hn'))
        hwritten (gets.setTask fun job stage htask => ?_)
      obtain ⟨rfl, rfl⟩ := Task.running.inj htask
      exact ⟨_, _, _, rfl, hget.handle hsent hbrings⟩
  | sending id' fuel payload reach c nodeBlockMap success blockNodeMap stage' task alone fits nodes
      distributed sending =>
      -- the task is the PUT under way
      obtain rfl := alone id ⟨job, stage, hrun⟩
      obtain ⟨rfl, rfl⟩ := Task.running.inj (Option.some.inj (task.symm.trans hrun))
      have hmem : n ∈ nodeBlockMap := ExtTreeMap.mem_keys.mp hn
      have hknown : n ∈ start.master.storageNodes := by
        rw [← hi.mem_storageNodes, sending.master.mem_storageNodes]
        exact known_of_sentTo (((distribute_spec distributed).2.2 n).mp hmem)
      have hnext := sending.handle hk hmem hsent reached (nodes n hknown).keyLengthMax
      simp only [Job.request] at hs'
      set r := s.cluster.send env (fun _ => reached) n
        ⟨.PUT, storeUri (padded key), Block.serializeAll (nodeBlockMap.getD n [])⟩ with hr
      refine hi.next hstep hs' ?_ (fun n' => ?_) (fun body h => by cases h) ?_
      · rw [hnext.master.config, ← sending.master.config, hi.config]
      · rw [hnext.master.mem_storageNodes, ← sending.master.mem_storageNodes, hi.mem_storageNodes]
      · rw [hs']
        exact .sending id fuel payload _ c nodeBlockMap success blockNodeMap _
          (setTask_tasks_self ..) (alone_setTask alone r.2 _) fits nodes distributed hnext

theorem inv_receive (hi : Inv env key start s) {id n : Nat}
    (hstep : step env key s (.receive id n) = some s') : Inv env key start s' := by
  obtain ⟨job, stage, reply, hrun, hreplied, hs'⟩ := step_receive hstep
  cases hi.phase with
  | unset entry nodes idle => exact absurd ⟨job, stage, hrun⟩ (idle id)
  | stored payload bm stores nodes written gets =>
      obtain ⟨nodeBlockMap, success, blockMap, rfl, hget⟩ := gets id job stage hrun
      refine hi.next hstep hs' hi.config hi.mem_storageNodes (fun body h => by cases h) ?_
      have hwritten := written.step hstep
      rw [hs'] at hwritten ⊢
      refine .stored payload bm stores nodes hwritten (gets.setTask fun job stage htask => ?_)
      obtain ⟨rfl, rfl⟩ := Task.running.inj htask
      exact ⟨_, _, _, rfl, hget.receive hreplied⟩
  | sending id' fuel payload reach c nodeBlockMap success blockNodeMap stage' task alone fits nodes
      distributed sending =>
      obtain rfl := alone id ⟨job, stage, hrun⟩
      obtain ⟨rfl, rfl⟩ := Task.running.inj (Option.some.inj (task.symm.trans hrun))
      have hnext := sending.receive hreplied (padded key)
      simp only [Job.receive] at hs'
      refine hi.next hstep hs' ?_ (fun n' => ?_) (fun body h => by cases h) ?_
      · rw [hnext.master.config, ← sending.master.config, hi.config]
      · rw [hnext.master.mem_storageNodes, ← sending.master.mem_storageNodes, hi.mem_storageNodes]
      · rw [hs']
        exact .sending id fuel payload reach c nodeBlockMap _ _ _ (setTask_tasks_self ..)
          (alone_setTask alone _ _) fits nodes distributed hnext

theorem inv_finish (hR : 0 < start.master.R.toNat) (hi : Inv env key start s) {id : Nat}
    (hok : PutsOk s') (hstep : step env key s (.finish id) = some s') :
    Inv env key start s' := by
  obtain ⟨job, stage, hrun, hreceived, hs'⟩ := step_finish hstep
  cases hi.phase with
  | unset entry nodes idle => exact absurd ⟨job, stage, hrun⟩ (idle id)
  | stored payload bm stores nodes written gets =>
      obtain ⟨nodeBlockMap, success, blockMap, rfl, hget⟩ := gets id job stage hrun
      have hwritten := written.step hstep
      refine hi.next hstep hs' hi.config hi.mem_storageNodes (fun body hbody => ?_) ?_
      · cases success with
        | false => cases hbody
        | true =>
            have hbody : Cluster.recombine blockMap = body := by
              simpa [Job.finish] using hbody
            rw [← hbody, hget.recombine (fun n hn => hreceived n (ExtTreeMap.mem_keys.mpr hn))
              stores hi.config]
            exact hwritten
      · rw [hs'] at hwritten ⊢
        exact .stored payload bm stores nodes hwritten
          (gets.setTask fun job stage htask => by cases htask)
  | sending id' fuel payload reach c nodeBlockMap success blockNodeMap stage' task alone fits nodes
      distributed sending =>
      obtain rfl := alone id ⟨job, stage, hrun⟩
      obtain ⟨rfl, rfl⟩ := Task.running.inj (Option.some.inj (task.symm.trans hrun))
      have hconfig : c.master.config = start.master.config := by
        rw [← sending.master.config, hi.config]
      have hmem : ∀ n : Nat, n ∈ c.master.storageNodes ↔ n ∈ start.master.storageNodes := by
        intro n
        rw [← sending.master.mem_storageNodes, hi.mem_storageNodes]
      cases success with
      | false =>
          -- this PUT would be answered with an error
          have hanswer := hok id payload ⟨.InternalError, []⟩ (by
            rw [hs']
            exact setTask_tasks_self ..)
          cases hanswer
      | true =>
          rw [← hconfig] at fits
          -- the cluster is as after the PUT by itself, so it stores the payload
          have hputRun := sending.run distributed
            fun n hn => hreceived n (ExtTreeMap.mem_keys.mpr hn)
          obtain ⟨bm, hdone⟩ := hputRun.done rfl fits fun n hn => by
            rw [hconfig]
            exact nodes n ((hmem n).mp hn)
          have hR' : 0 < c.master.R.toNat := by
            rw [MasterServer.R, hconfig]
            exact hR
          have hstores := hdone.stores fits fun b hb => hdone.exists_node fits hR' hb
          simp only [Job.finish, if_true] at hs'
          refine hi.next hstep hs' hi.config hi.mem_storageNodes (fun body h => by cases h) ?_
          rw [hs']
          refine .stored payload bm hstores (fun n hn => ?_)
            (Or.inl ⟨id, setTask_tasks_self ..⟩) fun id' job stage hrun' => ?_
          · have hnode := hdone.ok n ((hmem n).mpr hn)
            rwa [hconfig] at hnode
          · rcases tasks_setTask hrun' with ⟨-, htask⟩ | ⟨hne, hrun'⟩
            · cases htask
            · exact absurd (alone id' ⟨job, stage, hrun'⟩) hne

theorem inv_health (hi : Inv env key start s) {healthy : Nat → Bool}
    (hstep : step env key s (.health healthy) = some s') : Inv env key start s' := by
  have hnodes : s.cluster.master.NodesOnly (s.cluster.withHealth healthy).master :=
    ⟨rfl, rfl, rfl, fun _ => ExtTreeMap.mem_map⟩
  have hwritten : ∀ {payload}, Written env key start s payload → Written env key start s' payload :=
    fun h => h.step hstep
  obtain rfl := Option.some.inj hstep
  refine ⟨hi.config, fun n => (hnodes.mem_storageNodes n).trans (hi.mem_storageNodes n),
    fun id body hget => hwritten (hi.answers id body hget), ?_⟩
  cases hi.phase with
  | unset entry nodes idle => exact .unset entry nodes idle
  | stored payload bm stores nodes written gets =>
      exact .stored payload bm (stores.congr rfl rfl fun _ => rfl) nodes (hwritten written) gets
  | sending id fuel payload reach c nodeBlockMap success blockNodeMap stage task alone fits nodes
      distributed sending =>
      exact .sending id fuel payload reach c nodeBlockMap success blockNodeMap stage task alone fits
        nodes distributed { sending with master := sending.master.trans hnodes }

/-- **Every step of a run whose PUTs are apart.** -/
theorem inv_step (hk : PlainKey key) (hpos : 1 ≤ start.master.config.dataBlockSize.toNat)
    (hR : 0 < start.master.R.toNat) (hi : Inv env key start s) (hapart : Apart s op)
    (hstep : step env key s op = some s') (hok : PutsOk s') : Inv env key start s' := by
  cases op with
  | put id fuel payload => exact inv_put hpos hi hapart hstep
  | get id => exact inv_get hi hapart hstep
  | handle id n reached => exact inv_handle hk hi hstep
  | receive id n => exact inv_receive hi hstep
  | finish id => exact inv_finish hR hi hok hstep
  | health healthy => exact inv_health hi hstep

end Steps

/-! ## Runs -/

theorem inv_start {start : Cluster} (hnodes : NodesOk start start)
    (hstart : start.master.keyBlockNodeMap[padded key]? = none ∨
      ∃ payload bm, Stores env start key payload bm) :
    Inv env key start ⟨start, fun _ => none⟩ := by
  refine ⟨rfl, fun _ => Iff.rfl, fun id body h => (by cases h), ?_⟩
  rcases hstart with hnone | ⟨payload, bm, hstores⟩
  · refine .unset hnone hnodes ?_
    rintro id ⟨job, stage, h⟩
    cases h
  · exact .stored payload bm hstores hnodes (Or.inr ⟨bm, hstores⟩) fun id job stage h => by cases h

/-- **A GET answers one payload**: in a run in which no PUT of the key overlaps another PUT or a
GET of it, and every PUT answered is answered OK, a GET answered OK answers the payload of one of
these PUTs, or the one stored at the start. -/
theorem get_of_apart (hk : PlainKey key) {start : Cluster} {s : State}
    (hpos : 1 ≤ start.master.config.dataBlockSize.toNat) (hR : 0 < start.master.R.toNat)
    (hnodes : NodesOk start start)
    (hstart : start.master.keyBlockNodeMap[padded key]? = none ∨
      ∃ payload bm, Stores env start key payload bm)
    (h : Runs.Reached (step env key) Apart ⟨start, fun _ => none⟩ s) (hok : PutsOk s)
    {id : Nat} {body : Bytes} (hget : s.tasks id = some (.getDone (some ⟨.OK, body⟩))) :
    Written env key start s body := by
  have hinv : PutsOk s → Inv env key start s := by
    refine h.invariant (I := fun s => PutsOk s → Inv env key start s)
      (fun _ => inv_start hnodes hstart) fun s op s' hi hapart hstep hok' => ?_
    exact inv_step hk hpos hR (hi (hok'.before hstep)) hapart hstep hok'
  exact (hinv hok).answers id body hget

/-! ## Samples -/

/-- A run of tasks for one key in a sample cluster. -/
def sampleRun (steps : List Step) : Option State :=
  steps.foldlM (step (Env.ofHash sampleHash) [97]) ⟨sampleCluster, fun _ => none⟩

def startPut (id : Nat) : Bytes → Step := .put id 100

/-- The requests of a PUT to three nodes and its end. -/
def servePut (id : Nat) : List Step :=
  [.handle id 0 true, .handle id 1 true, .handle id 2 true, .receive id 0, .receive id 1,
    .receive id 2, .finish id]

/-- The requests of a GET to two nodes and its end. -/
def serveGet (id : Nat) : List Step :=
  [.handle id 0 true, .handle id 1 true, .receive id 0, .receive id 1, .finish id]

theorem task_of_serve {id : Nat} {op : Step} (hop : op ∈ servePut id ++ serveGet id) :
    op.task = some id ∧ ∀ s, Apart s op := by
  simp only [servePut, serveGet, List.cons_append, List.nil_append, List.mem_cons,
    List.not_mem_nil, or_false] at hop
  rcases hop with rfl | rfl | rfl | rfl | rfl | rfl | rfl | rfl | rfl | rfl | rfl | rfl <;>
    exact ⟨rfl, fun _ => trivial⟩

theorem task_ne_of_serve {id id' : Nat} {op : Step} (hop : op ∈ servePut id ++ serveGet id)
    (h : id' ≠ id) : op.task ≠ some id' := by
  rw [(task_of_serve hop).1]
  exact fun he => h (Option.some.inj he).symm

/-- A PUT, and a GET that starts after its end. -/
theorem get_of_apart_sample :
    ∃ s, Runs.Reached (step (Env.ofHash sampleHash) [97]) Apart ⟨sampleCluster, fun _ => none⟩ s ∧
      s.tasks 1 = some (.getDone (some ⟨.OK, [1, 2, 3, 4, 5, 6, 7, 8, 9, 10]⟩)) ∧
      Written (Env.ofHash sampleHash) [97] sampleCluster s [1, 2, 3, 4, 5, 6, 7, 8, 9, 10] := by
  have hall : (do
      let s₁ ← step (Env.ofHash sampleHash) [97] ⟨sampleCluster, fun _ => none⟩
        (startPut 0 [1, 2, 3, 4, 5, 6, 7, 8, 9, 10])
      let s₂ ← (servePut 0).foldlM (step (Env.ofHash sampleHash) [97]) s₁
      let s₃ ← step (Env.ofHash sampleHash) [97] s₂ (.get 1)
      let s ← (serveGet 1).foldlM (step (Env.ofHash sampleHash) [97]) s₃
      some (decide (s₂.tasks 0 = some (.putDone [1, 2, 3, 4, 5, 6, 7, 8, 9, 10] ⟨.OK, []⟩) ∧
        s.tasks 1 = some (.getDone (some ⟨.OK, [1, 2, 3, 4, 5, 6, 7, 8, 9, 10]⟩)))))
      = some true := by
    decide +kernel
  simp only [Option.bind_eq_bind, Option.bind_eq_some_iff, Option.some.injEq, decide_eq_true_eq]
    at hall
  obtain ⟨s₁, h₁, s₂, h₂, s₃, h₃, s, h₄, hput, hget⟩ := hall
  -- the first PUT is done when the GET starts, and it is the only one
  have hnone : ∀ id, id ≠ 0 → s₂.tasks id = none := by
    intro id hid
    rw [foldlM_tasks_of_ne h₂ fun op hop => task_ne_of_serve (List.mem_append_left _ hop) hid,
      tasks_of_ne h₁ fun h => hid (Option.some.inj h).symm]
  have hsame : ∀ id, id ≠ 1 → s.tasks id = s₂.tasks id := by
    intro id hid
    rw [foldlM_tasks_of_ne h₄ fun op hop => task_ne_of_serve (List.mem_append_right _ hop) hid,
      tasks_of_ne h₃ fun h => hid (Option.some.inj h).symm]
  have hbefore : Apart s₂ (.get 1) := by
    intro id payload nodeBlockMap success blockNodeMap stage hrun
    by_cases hid : id = 0
    · rw [hid, hput] at hrun
      cases hrun
    · rw [hnone id hid] at hrun
      cases hrun
  have hok : PutsOk s := by
    intro id payload answer hdone
    by_cases h1 : id = 1
    · rw [h1, hget] at hdone
      cases hdone
    rw [hsame id h1] at hdone
    by_cases h0 : id = 0
    · rw [h0, hput] at hdone
      cases hdone
      rfl
    · rw [hnone id h0] at hdone
      cases hdone
  have hfirst : Apart ⟨sampleCluster, fun _ => none⟩
      (startPut 0 [1, 2, 3, 4, 5, 6, 7, 8, 9, 10]) := by
    refine ⟨by decide, ?_⟩
    rintro id ⟨job, stage, h⟩
    cases h
  have hr := Runs.reached_of_foldlM _ h₂
    (fun op hop => (task_of_serve (List.mem_append_left _ hop)).2)
    (Runs.Reached.start.step hfirst h₁)
  have hr' := Runs.reached_of_foldlM _ h₄
    (fun op hop => (task_of_serve (List.mem_append_right _ hop)).2) (hr.step hbefore h₃)
  exact ⟨s, hr', hget, get_of_apart clientKey_sample.toPlainKey (by decide) (by decide)
    sampleCluster_ok (Or.inl (by decide +kernel)) hr' hok hget⟩

/-- The requests of two PUTs: node 1 handles the second first, the other nodes the first. -/
def overlappingPuts : List Step :=
  [startPut 0 [1, 2, 3, 4, 5, 6, 7, 8, 9, 10],
    startPut 1 [21, 22, 23, 24, 25, 26, 27, 28, 29, 30], .handle 1 1 true] ++ servePut 0 ++
  [.handle 1 0 true, .handle 1 2 true, .receive 1 0, .receive 1 1, .receive 1 2, .finish 1]

/-- A GET that reads when one of its two nodes has taken the blocks of a PUT. -/
def overlappingGet : List Step :=
  startPut 0 [1, 2, 3, 4, 5, 6, 7, 8, 9, 10] :: servePut 0 ++
  [startPut 1 [21, 22, 23, 24, 25, 26, 27, 28, 29, 30], .get 2, .handle 1 1 true] ++ serveGet 2 ++
  [.handle 1 0 true, .handle 1 2 true, .receive 1 0, .receive 1 1, .receive 1 2, .finish 1]

/-- **Mixtures**: all requests are answered OK, and a GET after two PUTs that overlap, or one that
overlaps a PUT, answers blocks of both. -/
theorem mixed_get :
    (∃ s, sampleRun (overlappingPuts ++ .get 2 :: serveGet 2) = some s ∧
      s.tasks 0 = some (.putDone [1, 2, 3, 4, 5, 6, 7, 8, 9, 10] ⟨.OK, []⟩) ∧
      s.tasks 1 = some (.putDone [21, 22, 23, 24, 25, 26, 27, 28, 29, 30] ⟨.OK, []⟩) ∧
      s.tasks 2 = some (.getDone (some ⟨.OK, [1, 2, 3, 4, 25, 26, 27, 28, 9, 10]⟩)) ∧
      ∀ id, 3 ≤ id → s.tasks id = none) ∧
    ∃ s, sampleRun overlappingGet = some s ∧
      s.tasks 0 = some (.putDone [1, 2, 3, 4, 5, 6, 7, 8, 9, 10] ⟨.OK, []⟩) ∧
      s.tasks 1 = some (.putDone [21, 22, 23, 24, 25, 26, 27, 28, 29, 30] ⟨.OK, []⟩) ∧
      s.tasks 2 = some (.getDone (some ⟨.OK, [21, 22, 23, 24, 5, 6, 7, 8, 29, 30]⟩)) ∧
      ∀ id, 3 ≤ id → s.tasks id = none := by
  have hrun : ∀ (steps : List Step) (body : Bytes),
      (steps = overlappingPuts ++ .get 2 :: serveGet 2 ∧
          body = [1, 2, 3, 4, 25, 26, 27, 28, 9, 10] ∨
        steps = overlappingGet ∧ body = [21, 22, 23, 24, 5, 6, 7, 8, 29, 30]) →
      ∃ s, sampleRun steps = some s ∧
        s.tasks 0 = some (.putDone [1, 2, 3, 4, 5, 6, 7, 8, 9, 10] ⟨.OK, []⟩) ∧
        s.tasks 1 = some (.putDone [21, 22, 23, 24, 25, 26, 27, 28, 29, 30] ⟨.OK, []⟩) ∧
        s.tasks 2 = some (.getDone (some ⟨.OK, body⟩)) ∧ ∀ id, 3 ≤ id → s.tasks id = none := by
    intro steps body hsteps
    have hall : (sampleRun steps).map (fun s => decide (
        s.tasks 0 = some (.putDone [1, 2, 3, 4, 5, 6, 7, 8, 9, 10] ⟨.OK, []⟩) ∧
        s.tasks 1 = some (.putDone [21, 22, 23, 24, 25, 26, 27, 28, 29, 30] ⟨.OK, []⟩) ∧
        s.tasks 2 = some (.getDone (some ⟨.OK, body⟩)))) = some true ∧
        ∀ op ∈ steps, ∃ id < 3, op.task = some id := by
      rcases hsteps with ⟨rfl, rfl⟩ | ⟨rfl, rfl⟩
      · exact ⟨by decide +kernel, by decide⟩
      · exact ⟨by decide +kernel, by decide⟩
    obtain ⟨s, hs, hdone⟩ := Option.map_eq_some_iff.mp hall.1
    obtain ⟨h₀, h₁, h₂⟩ := of_decide_eq_true hdone
    refine ⟨s, hs, h₀, h₁, h₂, fun id hid => foldlM_tasks_of_ne hs fun op hop htask => ?_⟩
    obtain ⟨id', hlt, hid'⟩ := hall.2 op hop
    obtain rfl := Option.some.inj (htask.symm.trans hid')
    omega
  exact ⟨hrun _ _ (Or.inl ⟨rfl, rfl⟩), hrun _ _ (Or.inr ⟨rfl, rfl⟩)⟩

end Concurrent

end RackKey
