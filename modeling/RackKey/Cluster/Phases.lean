import RackKey.Cluster.Health

set_option autoImplicit false

/-! # The phases of a key

Nothing in the master or in the nodes keeps the requests of clients for one key apart. The clients
have to do so (`Apart`); their requests for different keys may overlap in any way. What a client
then knows about a key says which `Phase` the key is in: not in the map; stored, with GETs that
collect the payload; in the map after a PUT or DELETE that failed; or a PUT or DELETE of it is
under way.

Every step keeps each key in a phase (`Inv`), and what it answers is what a key-value store
answers of which that much is known. There is one lemma for each kind of step, and for a step of a
task one about the phase of its own key; other keys are left alone (`Inv.frame`, `Inv.next`).
-/

namespace RackKey

open Std Words Payloads DiskStorage KeyValue

namespace Tasks

open Cluster
open Concurrent (Stage Collecting brings_send)

/-! ## Requests kept apart -/

/-- A request of a client for the key that is not answered yet. -/
def UnderWay (s : State) (key : Bytes) (id : Nat) (t : Task) : Prop :=
  s.tasks id = some t ∧ t.key = key ∧ t.answered = false

/-- A request of the PUT or DELETE `id` of the key is still on its way to a node. -/
def Outstanding (s : State) (key : Bytes) (id : Nat) : Prop :=
  ∃ t, s.tasks id = some t ∧ t.key = key ∧ t.job.changes = true ∧
    ∃ n ∈ t.job.nodes, t.stage n = .sent

/-- The clients use keys of `Ks`. They start a PUT or a DELETE of a key when no request for it is
under way, and a GET when no PUT or DELETE of it is. A PUT has a payload that fits, and waits until
what an earlier PUT or DELETE has sent is done. A node that is sent blocks has room for them, or
does not store the key. -/
def Apart (env : Env) (Ks : Set Bytes) (s : State) : Step → Prop
  | .put _ _ key payload => key ∈ Ks ∧
      payload.length + s.cluster.master.config.dataBlockSize.toNat ≤ 2 ^ 32 ∧
      (∀ id t, ¬ UnderWay s key id t) ∧ ∀ id, ¬ Outstanding s key id
  | .get _ key => key ∈ Ks ∧ ∀ id t, UnderWay s key id t → t.job.changes = false
  | .delete _ key => key ∈ Ks ∧ ∀ id t, ¬ UnderWay s key id t
  | .handle id n reached => reached = true →
      ∀ t payload nodeBlockMap success blockNodeMap, s.tasks id = some t →
        t.job = .put payload nodeBlockMap success blockNodeMap →
          RoomAt env t.key (s.cluster.nodes n) (nodeBlockMap.getD n [])
  | _ => True

/-- The phases of a key of which the given value is known. -/
inductive Phase (env : Env) (start : Cluster) (s : State) (key : Bytes) : Value Bytes → Prop
  | absent (idle : ∀ id t, ¬ UnderWay s key id t) : Phase env start s key .absent
  | settled (payload : Bytes) (bm : BlockNodeMap)
      (stores : Replicated env s.cluster key payload bm)
      (gets : ∀ id t, UnderWay s key id t → ∃ nodeBlockMap success blockMap,
        t.job = .get nodeBlockMap success blockMap ∧
          Collecting start key payload bm nodeBlockMap success blockMap t.stage)
      (quiet : ∀ id, ¬ Outstanding s key id) : Phase env start s key (.known payload)
  | unknown (gets : ∀ id t, UnderWay s key id t → t.job.changes = false) :
      Phase env start s key .unknown
  | putting (v : Value Bytes) (id : Nat) (payload : Bytes)
      (nodeBlockMap : ExtTreeMap Nat (List Block)) (success : Bool) (blockNodeMap : BlockNodeMap)
      (stage : Nat → Stage)
      (task : s.tasks id
        = some ⟨key, .put payload nodeBlockMap success blockNodeMap, stage, false⟩)
      (alone : ∀ id' t, UnderWay s key id' t → id' = id)
      (storing : Storing env s.cluster key payload nodeBlockMap success blockNodeMap stage)
      (quiet : ∀ id', id' ≠ id → ¬ Outstanding s key id') : Phase env start s key v
  | deleting (v : Value Bytes) (id : Nat) (nodeIds : ExtTreeSet Nat) (success : Bool)
      (stage : Nat → Stage) (present : v ≠ .absent)
      (task : s.tasks id = some ⟨key, .delete nodeIds success, stage, false⟩)
      (alone : ∀ id' t, UnderWay s key id' t → id' = id) : Phase env start s key v

/-- What holds in every state of a run whose requests are apart, `t` being known about the keys. -/
structure Inv (env : Env) (d m : UInt32) (Ks : Set Bytes) (start : Cluster) (s : State)
    (t : Bytes → Value Bytes) : Prop where
  config : s.cluster.master.config = start.master.config
  storageNodes : ∀ n : Nat,
    n ∈ s.cluster.master.storageNodes ↔ n ∈ start.master.storageNodes
  durable : ∀ n, (s.cluster.nodes n).Durable d m start.master.config.dataBlockSize
  keys : ∀ id task, s.tasks id = some task → task.key ∈ Ks
  recorded : ∀ K ∈ s.cluster.master.keyBlockNodeMap, ∃ key ∈ Ks, K = padded key
  outside : ∀ key, key ∉ Ks → t key = .absent
  entry : ∀ key ∈ Ks, padded key ∈ s.cluster.master.keyBlockNodeMap ↔ t key ≠ .absent
  phase : ∀ key ∈ Ks, Phase env start s key (t key)

variable {env : Env} {d m : UInt32} {Ks : Set Bytes} {start c : Cluster} {s s' : State}
variable {t : Bytes → Value Bytes} {e : Option Event} {id : Nat} {key : Bytes} {v : Value Bytes}

/-! ## Steps that change one task -/

theorem tasks_setTask {c : Cluster} {task task' : Task} {id' : Nat}
    (h : ((s.setCluster c).setTask id task).tasks id' = some task') :
    (id' = id ∧ task' = task) ∨ (id' ≠ id ∧ s.tasks id' = some task') := by
  have h : Function.update s.tasks id (some task) id' = some task' := h
  by_cases hid : id' = id
  · subst hid
    rw [Function.update_self] at h
    exact Or.inl ⟨rfl, (Option.some.inj h).symm⟩
  · rw [Function.update_of_ne hid] at h
    exact Or.inr ⟨hid, h⟩

theorem underWay_setTask (c : Cluster) {task t' : Task} {id' : Nat}
    (h : UnderWay ((s.setCluster c).setTask id task) key id' t') :
    (id' = id ∧ t' = task ∧ task.answered = false) ∨ (id' ≠ id ∧ UnderWay s key id' t') := by
  rcases tasks_setTask h.1 with ⟨hid, rfl⟩ | ⟨hid, ht⟩
  · exact Or.inl ⟨hid, rfl, h.2.2⟩
  · exact Or.inr ⟨hid, ht, h.2⟩

theorem outstanding_setTask (c : Cluster) {task : Task} {id' : Nat}
    (h : Outstanding ((s.setCluster c).setTask id task) key id') :
    (id' = id ∧ task.job.changes = true ∧ ∃ n ∈ task.job.nodes, task.stage n = .sent) ∨
      (id' ≠ id ∧ Outstanding s key id') := by
  obtain ⟨t', ht, hkey, hrest⟩ := h
  rcases tasks_setTask ht with ⟨hid, rfl⟩ | ⟨hid, ht⟩
  · exact Or.inl ⟨hid, hrest⟩
  · exact Or.inr ⟨hid, t', ht, hkey, hrest⟩

/-- A key whose tasks and whose storage are left alone stays in its phase. -/
theorem Phase.frame (h : Phase env start s key v) (hk : Keeps env key s.cluster s'.cluster)
    (htasks : ∀ id t, t.key = key → (s'.tasks id = some t ↔ s.tasks id = some t)) :
    Phase env start s' key v := by
  have hway : ∀ {id t}, UnderWay s' key id t → UnderWay s key id t :=
    fun h => ⟨(htasks _ _ h.2.1).mp h.1, h.2⟩
  have hout : ∀ {id}, Outstanding s' key id → Outstanding s key id := by
    rintro id ⟨t, ht, hkey, hrest⟩
    exact ⟨t, (htasks id t hkey).mp ht, hkey, hrest⟩
  cases h with
  | absent idle => exact .absent fun id t h => idle id t (hway h)
  | settled payload bm stores gets quiet =>
      exact .settled payload bm (stores.keeps hk) (fun id t h => gets id t (hway h))
        fun id h => quiet id (hout h)
  | unknown gets => exact .unknown fun id t h => gets id t (hway h)
  | putting v id payload nodeBlockMap success blockNodeMap stage task alone storing quiet =>
      exact .putting v id payload nodeBlockMap success blockNodeMap stage
        ((htasks _ _ rfl).mpr task) (fun id' t h => alone id' t (hway h)) (storing.keeps hk)
        fun id' hne h => quiet id' hne (hout h)
  | deleting v id nodeIds success stage present task alone =>
      exact .deleting v id nodeIds success stage present ((htasks _ _ rfl).mpr task)
        fun id' t h => alone id' t (hway h)

/-- A step that leaves all keys and tasks alone. -/
theorem Inv.frame (hi : Inv env d m Ks start s t) {c : Cluster}
    (hkeeps : ∀ key, Keeps env key s.cluster c)
    (hmap : ∀ K, K ∈ c.master.keyBlockNodeMap ↔ K ∈ s.cluster.master.keyBlockNodeMap)
    (hdurable : ∀ n, (c.nodes n).Durable d m start.master.config.dataBlockSize) :
    Inv env d m Ks start (s.setCluster c) t where
  config := (hkeeps []).config.trans hi.config
  storageNodes := fun n => ((hkeeps []).storageNodes n).trans (hi.storageNodes n)
  durable := hdurable
  keys := hi.keys
  recorded := fun K hK => hi.recorded K ((hmap K).mp hK)
  outside := hi.outside
  entry := fun key hkey => (hmap (padded key)).trans (hi.entry key hkey)
  phase := fun key hkey => (hi.phase key hkey).frame (hkeeps key) fun _ _ _ => Iff.rfl

/-- A step of a task: it leaves all other keys alone, and its own key in a phase. -/
theorem Inv.next (hi : Inv env d m Ks start s t) (hkey : key ∈ Ks) (id : Nat) (c : Cluster)
    (task : Task)
    (hold : ∀ task', s.tasks id = some task' → task'.key = key) (htask : task.key = key)
    (hconfig : c.master.config = s.cluster.master.config)
    (hnodes : ∀ n : Nat, n ∈ c.master.storageNodes ↔ n ∈ s.cluster.master.storageNodes)
    (hdurable : ∀ n, (c.nodes n).Durable d m start.master.config.dataBlockSize)
    (hkeeps : ∀ key' ∈ Ks, key' ≠ key → Keeps env key' s.cluster c)
    (hmap : ∀ K ∈ c.master.keyBlockNodeMap, K ≠ padded key →
      K ∈ s.cluster.master.keyBlockNodeMap)
    (hentry : padded key ∈ c.master.keyBlockNodeMap ↔ v ≠ .absent)
    (hphase : Phase env start ((s.setCluster c).setTask id task) key v) :
    Inv env d m Ks start ((s.setCluster c).setTask id task) (Function.update t key v) where
  config := hconfig.trans hi.config
  storageNodes := fun n => (hnodes n).trans (hi.storageNodes n)
  durable := hdurable
  keys := by
    intro id' task' h
    rcases tasks_setTask h with ⟨-, rfl⟩ | ⟨-, h⟩
    · rw [htask]
      exact hkey
    · exact hi.keys id' task' h
  recorded := by
    intro K hK
    by_cases hK' : K = padded key
    · exact ⟨key, hkey, hK'⟩
    · exact hi.recorded K (hmap K hK hK')
  outside := by
    intro key' hkey'
    have hne : key' ≠ key := by
      rintro rfl
      exact hkey' hkey
    rw [Function.update_of_ne hne]
    exact hi.outside key' hkey'
  entry := by
    intro key' hkey'
    by_cases hne : key' = key
    · subst hne
      rw [Function.update_self]
      exact hentry
    · rw [Function.update_of_ne hne, ← hi.entry key' hkey', ← ExtTreeMap.isSome_getElem?_iff_mem,
        ← ExtTreeMap.isSome_getElem?_iff_mem]
      show (c.master.keyBlockNodeMap[padded key']?).isSome = true ↔ _
      rw [(hkeeps key' hkey' hne).entry]
  phase := by
    intro key' hkey'
    by_cases hne : key' = key
    · subst hne
      rw [Function.update_self]
      exact hphase
    · rw [Function.update_of_ne hne]
      refine (hi.phase key' hkey').frame (hkeeps key' hkey' hne) fun id' t' ht' => ?_
      show Function.update s.tasks id (some task) id' = some t' ↔ _
      by_cases hid : id' = id
      · -- the task is one of another key, before and after the step
        subst hid
        rw [Function.update_self]
        constructor
        · intro h
          obtain rfl := Option.some.inj h
          exact absurd (ht'.symm.trans htask) hne
        · intro h
          exact absurd (ht'.symm.trans (hold t' h)) hne
      · rw [Function.update_of_ne hid]

/-- A step that only begins a task. -/
theorem Inv.begin (hi : Inv env d m Ks start s t) (hkey : key ∈ Ks) (hnew : s.tasks id = none)
    {task : Task} (htask : task.key = key)
    (hphase : Phase env start (s.setTask id task) key (t key)) :
    Inv env d m Ks start (s.setTask id task) t := by
  have hnext := hi.next hkey id s.cluster task (fun task' h => by rw [hnew] at h; cases h) htask rfl
    (fun _ => Iff.rfl) hi.durable (fun key' _ _ => Keeps.refl env key' s.cluster)
    (fun _ h _ => h) (hi.entry key hkey) hphase
  rwa [Function.update_eq_self] at hnext

/-! ## Beginnings -/

/-- A GET that finds the key in the map, in the phase of the key. -/
theorem Phase.get (h : Phase env start s key v)
    (hnodes : ∀ n : Nat, n ∈ s.cluster.master.storageNodes ↔ n ∈ start.master.storageNodes)
    (hget : ∀ id t, UnderWay s key id t → t.job.changes = false) (hv : v ≠ .absent) {job : Job}
    (hstart : startGet s.cluster (padded key) = some job) :
    Phase env start (s.setTask id ⟨key, job, fun _ => .sent, false⟩) key v := by
  obtain ⟨bm, hbm, hstart⟩ := Option.bind_eq_some_iff.mp hstart
  obtain ⟨choices, hchoices, rfl⟩ := Option.map_eq_some_iff.mp hstart
  cases h with
  | absent idle => exact absurd rfl hv
  | settled payload bm' stores gets quiet =>
      obtain rfl := Option.some.inj (hbm.symm.trans stores.recorded)
      refine .settled payload bm stores (fun id' t' h => ?_) fun id' h => ?_
      · rcases underWay_setTask s.cluster h with ⟨-, rfl, -⟩ | ⟨-, h⟩
        · exact ⟨_, _, _, rfl, Collecting.of_choices hnodes hchoices⟩
        · exact gets id' t' h
      · rcases outstanding_setTask s.cluster h with ⟨-, hchanges, -⟩ | ⟨-, h⟩
        · cases hchanges
        · exact quiet id' h
  | unknown gets =>
      refine .unknown fun id' t' h => ?_
      rcases underWay_setTask s.cluster h with ⟨-, rfl, -⟩ | ⟨-, h⟩
      · rfl
      · exact gets id' t' h
  | putting _ id' _ _ _ _ _ task => cases hget id' _ ⟨task, rfl, rfl⟩
  | deleting _ id' _ _ _ _ task => cases hget id' _ ⟨task, rfl, rfl⟩

/-- A request changes its node only. -/
theorem send_update (reach : Nat → Bool) (c : Cluster) (n : Nat) (request : Request) :
    (c.send env reach n request).2 = { c with
      nodes := Function.update c.nodes n ((c.send env reach n request).2.nodes n) } := by
  rw [send_eq]
  simp

/-- A PUT under way when one of its nodes handles its request. -/
theorem Storing.send {payload : Bytes} {nodeBlockMap : ExtTreeMap Nat (List Block)} {success : Bool}
    {blockNodeMap : BlockNodeMap} {stage : Nat → Stage} {n : Nat} {dataBlockSize : UInt32}
    (h : Storing env c key payload nodeBlockMap success blockNodeMap stage) (hk : PlainKey key)
    (ho : (c.nodes n).Ok dataBlockSize) (hn : n ∈ nodeBlockMap) (hsent : stage n = .sent)
    (reached : Bool) :
    let r := c.send env (fun _ => reached) n
      ⟨.PUT, storeUri (padded key), Block.serializeAll (nodeBlockMap.getD n [])⟩
    Storing env r.2 key payload nodeBlockMap success blockNodeMap
      (Function.update stage n (.replied r.1)) := by
  obtain ⟨htells, hsend⟩ := send_putAt env (fun _ => reached) hk c (fun _ => ho.keyLengthMax)
    (nodeBlockMap.getD n [])
  dsimp only
  rw [hsend]
  refine h.handle hn hsent htells fun hok => ?_
  obtain ⟨-, hcontents⟩ := putAt_stored ho (h.framed n) hok
  rw [hcontents, if_pos rfl]

/-- **A node handles a request of a task** of the key. -/
theorem Phase.handle (h : Phase env start s key v) (hk : PlainKey key) {task : Task} {n : Nat}
    {reached : Bool} (ht : s.tasks id = some task) (hkey : task.key = key)
    (hn : n ∈ task.job.nodes) (hsent : task.stage n = .sent)
    (hconfig : s.cluster.master.config = start.master.config)
    (ho : (s.cluster.nodes n).Ok start.master.config.dataBlockSize)
    (hcontents : ∀ k, (task.job.changes = true → k ≠ env.sha256_32 (padded key)) →
      ((s.cluster.send env (fun _ => reached) n (task.job.request (padded key) n)).2.nodes
        n).contents k = (s.cluster.nodes n).contents k) :
    let r := s.cluster.send env (fun _ => reached) n (task.job.request (padded key) n)
    Phase env start ((s.setCluster r.2).setTask id
      { task with stage := Function.update task.stage n (.replied r.1) }) key v := by
  dsimp only
  set r := s.cluster.send env (fun _ => reached) n (task.job.request (padded key) n) with hr
  set task' : Task := { task with stage := Function.update task.stage n (.replied r.1) }
    with htask'
  have hout : task.job.changes = true → Outstanding s key id :=
    fun hchanges => ⟨task, ht, hkey, hchanges, n, hn, hsent⟩
  -- a request of a GET leaves everything as it is
  have hkeeps : task.job.changes = false → Keeps env key s.cluster r.2 := by
    intro hget
    rw [hr, send_update]
    refine keeps_update fun raw hraw => ?_
    rw [hcontents _ fun hchanges => by rw [hget] at hchanges; cases hchanges]
    exact hraw
  have hway : ∀ {id' t'}, UnderWay ((s.setCluster r.2).setTask id task') key id' t' →
      (id' = id ∧ t' = task' ∧ UnderWay s key id task) ∨ (id' ≠ id ∧ UnderWay s key id' t') := by
    intro id' t' h
    rcases underWay_setTask r.2 h with ⟨hid, rfl, hanswered⟩ | h
    · exact Or.inl ⟨hid, rfl, ht, hkey, hanswered⟩
    · exact Or.inr h
  have hquiet : ∀ {id'}, id' ≠ id → Outstanding ((s.setCluster r.2).setTask id task') key id' →
      Outstanding s key id' := by
    intro id' hne h
    rcases outstanding_setTask r.2 h with ⟨hid, -⟩ | ⟨-, h⟩
    · exact absurd hid hne
    · exact h
  have hself : Outstanding ((s.setCluster r.2).setTask id task') key id →
      task.job.changes = true := by
    intro h
    rcases outstanding_setTask r.2 h with ⟨-, hchanges, -⟩ | ⟨hid, -⟩
    · exact hchanges
    · exact absurd rfl hid
  cases h with
  | absent idle =>
      refine .absent fun id' t' h => ?_
      rcases hway h with ⟨-, -, h⟩ | ⟨-, h⟩
      · exact idle id task h
      · exact idle id' t' h
  | settled payload bm stores gets quiet =>
      have hget : task.job.changes = false := by
        by_contra hchanges
        exact quiet id (hout (Bool.not_eq_false _ ▸ hchanges))
      refine .settled payload bm (stores.keeps (hkeeps hget)) (fun id' t' h => ?_) fun id' h => ?_
      · rcases hway h with ⟨-, rfl, hold⟩ | ⟨-, h⟩
        · obtain ⟨nodeBlockMap, success, blockMap, hjob, hcollecting⟩ := gets id task hold
          refine ⟨nodeBlockMap, success, blockMap, hjob, ?_⟩
          rw [hjob] at hn
          have hmem : n ∈ nodeBlockMap := ExtTreeMap.mem_keys.mp hn
          obtain ⟨hbrings, -⟩ := brings_send hk stores.toStores
            (by rw [hconfig]; exact ho.toReadable) (hcollecting.nonempty n hmem)
            (hcollecting.related n) reached
          refine hcollecting.handle hsent ?_
          rw [hr, hjob, ← hconfig]
          exact hbrings
        · exact gets id' t' h
      · by_cases hid : id' = id
        · subst hid
          have := hself h
          rw [hget] at this
          cases this
        · exact quiet id' (hquiet hid h)
  | unknown gets =>
      refine .unknown fun id' t' h => ?_
      rcases hway h with ⟨-, rfl, hold⟩ | ⟨-, h⟩
      · exact gets id task hold
      · exact gets id' t' h
  | putting _ id₀ payload nodeBlockMap success blockNodeMap stage htask alone storing quiet =>
      have halone : ∀ id' t', UnderWay ((s.setCluster r.2).setTask id task') key id' t' →
          id' = id₀ := by
        intro id' t' h
        rcases hway h with ⟨rfl, -, h⟩ | ⟨-, h⟩
        · exact alone id' task h
        · exact alone id' t' h
      by_cases hid : id = id₀
      · -- a request of the PUT itself
        subst hid
        obtain rfl := Option.some.inj (ht.symm.trans htask)
        refine .putting _ id payload nodeBlockMap success blockNodeMap _ (Function.update_self ..)
          halone ?_ fun id' hne h => quiet id' hne (hquiet hne h)
        exact storing.send hk ho (ExtTreeMap.mem_keys.mp hn) hsent reached
      · -- one of an earlier GET
        have hget : task.job.changes = false := by
          by_contra hchanges
          exact quiet id hid (hout (Bool.not_eq_false _ ▸ hchanges))
        refine .putting _ id₀ payload nodeBlockMap success blockNodeMap stage
          ((Function.update_of_ne (Ne.symm hid) ..).trans htask) halone
          (storing.keeps (hkeeps hget)) fun id' hne h => ?_
        by_cases hid' : id' = id
        · subst hid'
          have := hself h
          rw [hget] at this
          cases this
        · exact quiet id' hne (hquiet hid' h)
  | deleting _ id₀ nodeIds success stage present htask alone =>
      have halone : ∀ id' t', UnderWay ((s.setCluster r.2).setTask id task') key id' t' →
          id' = id₀ := by
        intro id' t' h
        rcases hway h with ⟨rfl, -, h⟩ | ⟨-, h⟩
        · exact alone id' task h
        · exact alone id' t' h
      by_cases hid : id = id₀
      · subst hid
        obtain rfl := Option.some.inj (ht.symm.trans htask)
        exact .deleting _ id nodeIds success _ present (Function.update_self ..) halone
      · exact .deleting _ id₀ nodeIds success stage present
          ((Function.update_of_ne (Ne.symm hid) ..).trans htask) halone

/-- A GET under way when a reply gets lost. -/
theorem collecting_lose {payload : Bytes} {bm : BlockNodeMap}
    {nodeBlockMap : ExtTreeMap Nat (List UInt32)} {success : Bool}
    {blockMap : ExtTreeMap UInt32 Block} {stage : Nat → Stage} {n : Nat} {reply : Option Response}
    (h : Collecting start key payload bm nodeBlockMap success blockMap stage)
    (hreplied : stage n = .replied reply) :
    Collecting start key payload bm nodeBlockMap success blockMap
      (Function.update stage n (.replied none)) where
  known := h.known
  nonempty := h.nonempty
  related := h.related
  covers := h.covers
  replies := by
    intro n' reply' hn'
    rcases Concurrent.update_replied_replied hn' with ⟨rfl, rfl⟩ | ⟨-, hn'⟩
    · exact fun s hs => by cases hs
    · exact h.replies n' reply' hn'
  collected := by
    intro hsuccess num b
    simp only [update_lost_received hreplied]
    exact h.collected hsuccess num b

/-- **A reply gets lost.** -/
theorem Phase.lose (h : Phase env start s key v) {task : Task} {n : Nat} {reply : Option Response}
    (ht : s.tasks id = some task) (hkey : task.key = key)
    (hreplied : task.stage n = .replied reply) :
    Phase env start (s.setTask id
      { task with stage := Function.update task.stage n (.replied none) }) key v := by
  set task' : Task := { task with stage := Function.update task.stage n (.replied none) }
    with htask'
  have hway : ∀ {id' t'}, UnderWay (s.setTask id task') key id' t' →
      (id' = id ∧ t' = task' ∧ UnderWay s key id task) ∨ (id' ≠ id ∧ UnderWay s key id' t') := by
    intro id' t' h
    rcases underWay_setTask s.cluster h with ⟨hid, rfl, hanswered⟩ | h
    · exact Or.inl ⟨hid, rfl, ht, hkey, hanswered⟩
    · exact Or.inr h
  have hquiet : ∀ {id'}, Outstanding (s.setTask id task') key id' → Outstanding s key id' := by
    intro id' h
    rcases outstanding_setTask s.cluster h with ⟨rfl, hchanges, n', hn', hsent⟩ | ⟨-, h⟩
    · refine ⟨task, ht, hkey, hchanges, n', hn', ?_⟩
      by_cases hne : n' = n
      · subst hne
        simp only [htask', Function.update_self] at hsent
        cases hsent
      · simpa only [htask', Function.update_of_ne hne] using hsent
    · exact h
  have halone : ∀ {id₀}, (∀ id' t', UnderWay s key id' t' → id' = id₀) →
      ∀ id' t', UnderWay (s.setTask id task') key id' t' → id' = id₀ := by
    intro id₀ alone id' t' h
    rcases hway h with ⟨rfl, -, h⟩ | ⟨-, h⟩
    · exact alone id' task h
    · exact alone id' t' h
  cases h with
  | absent idle =>
      refine .absent fun id' t' h => ?_
      rcases hway h with ⟨-, -, h⟩ | ⟨-, h⟩
      · exact idle id task h
      · exact idle id' t' h
  | settled payload bm stores gets quiet =>
      refine .settled payload bm stores (fun id' t' h => ?_) fun id' h => quiet id' (hquiet h)
      rcases hway h with ⟨-, rfl, hold⟩ | ⟨-, h⟩
      · obtain ⟨nodeBlockMap, success, blockMap, hjob, hcollecting⟩ := gets id task hold
        exact ⟨nodeBlockMap, success, blockMap, hjob, collecting_lose hcollecting hreplied⟩
      · exact gets id' t' h
  | unknown gets =>
      refine .unknown fun id' t' h => ?_
      rcases hway h with ⟨-, rfl, hold⟩ | ⟨-, h⟩
      · exact gets id task hold
      · exact gets id' t' h
  | putting _ id₀ payload nodeBlockMap success blockNodeMap stage htask alone storing quiet =>
      by_cases hid : id = id₀
      · subst hid
        obtain rfl := Option.some.inj (ht.symm.trans htask)
        exact .putting _ id payload nodeBlockMap success blockNodeMap _ (Function.update_self ..)
          (halone alone) (storing.lose hreplied) fun id' hne h => quiet id' hne (hquiet h)
      · exact .putting _ id₀ payload nodeBlockMap success blockNodeMap stage
          ((Function.update_of_ne (Ne.symm hid) ..).trans htask) (halone alone) storing
          fun id' hne h => quiet id' hne (hquiet h)
  | deleting _ id₀ nodeIds success stage present htask alone =>
      by_cases hid : id = id₀
      · subst hid
        obtain rfl := Option.some.inj (ht.symm.trans htask)
        exact .deleting _ id nodeIds success _ present (Function.update_self ..) (halone alone)
      · exact .deleting _ id₀ nodeIds success stage present
          ((Function.update_of_ne (Ne.symm hid) ..).trans htask) (halone alone)

/-- **The master receives a reply** to a request of a task that is under way. -/
theorem Phase.receive (h : Phase env start s key v) {task : Task} (hway : UnderWay s key id task)
    {n : Nat} {reply : Option Response} (hreplied : task.stage n = .replied reply)
    (hentry : v ≠ .absent → padded key ∈ s.cluster.master.keyBlockNodeMap) :
    ∃ p, task.job.receive (padded key) n reply s.cluster.master = some p ∧
      s.cluster.master.NodesOnly p.2 ∧
      Phase env start ((s.setCluster { s.cluster with master := p.2 }).setTask id
        { task with job := p.1, stage := Function.update task.stage n .received }) key v := by
  -- the task stays the only one of its key, if it was
  have halone : ∀ {c : Cluster} {task' : Task}, (∀ id' t, UnderWay s key id' t → id' = id) →
      ∀ id' t, UnderWay ((s.setCluster c).setTask id task') key id' t → id' = id := by
    intro c task' alone id' t' h
    rcases underWay_setTask c h with ⟨hid, -⟩ | ⟨-, h⟩
    · exact hid
    · exact alone id' t' h
  cases h with
  | absent idle => exact absurd hway (idle id task)
  | settled payload bm stores gets quiet =>
      obtain ⟨nodeBlockMap, success, blockMap, hjob, hcollecting⟩ := gets id task hway
      rw [hjob]
      refine ⟨_, rfl, MasterServer.NodesOnly.refl _, .settled payload bm stores (fun id' t' h => ?_)
        fun id' h => ?_⟩
      · rcases underWay_setTask s.cluster h with ⟨-, rfl, -⟩ | ⟨-, h⟩
        · exact ⟨_, _, _, rfl, hcollecting.receive hreplied⟩
        · exact gets id' t' h
      · rcases outstanding_setTask s.cluster h with ⟨-, hchanges, -⟩ | ⟨-, h⟩
        · cases hchanges
        · exact quiet id' h
  | unknown gets =>
      have hget := gets id task hway
      cases hjob : task.job with
      | put payload nodeBlockMap success blockNodeMap =>
          rw [hjob] at hget
          cases hget
      | delete nodeIds success =>
          rw [hjob] at hget
          cases hget
      | get nodeBlockMap success blockMap =>
          refine ⟨_, rfl, MasterServer.NodesOnly.refl _, .unknown fun id' t' h => ?_⟩
          rcases underWay_setTask s.cluster h with ⟨-, rfl, -⟩ | ⟨-, h⟩
          · rfl
          · exact gets id' t' h
  | putting _ id₀ payload nodeBlockMap success blockNodeMap stage htask alone storing quiet =>
      obtain rfl := alone id task hway
      obtain rfl := Option.some.inj (hway.1.symm.trans htask)
      obtain ⟨hmaster, hstoring⟩ := storing.receive hreplied (padded key)
      refine ⟨_, rfl, hmaster, .putting _ id payload nodeBlockMap _ _ _ (Function.update_self ..)
        (halone alone) hstoring fun id' hne h => ?_⟩
      rcases outstanding_setTask _ h with ⟨hid, -⟩ | ⟨-, h⟩
      · exact absurd hid hne
      · exact quiet id' hne h
  | deleting _ id₀ nodeIds success stage present htask alone =>
      obtain rfl := alone id task hway
      obtain rfl := Option.some.inj (hway.1.symm.trans htask)
      simp only [Job.receive]
      cases accepted reply with
      | none =>
          exact ⟨_, rfl, MasterServer.NodesOnly.refl _,
            .deleting _ id nodeIds false _ present (Function.update_self ..) (halone alone)⟩
      | some sizeInfo =>
          -- the key is in the map, so that no null pointer is met
          simp only [if_pos (hentry present)]
          exact ⟨_, rfl, MasterServer.nodesOnly_updateStats _ _ _ _ _,
            .deleting _ id nodeIds success _ present (Function.update_self ..) (halone alone)⟩

/-- What the end of a handler leaves: the phase of its key, and the answer given. -/
structure Finished (env : Env) (start : Cluster) (s : State) (key : Bytes) (id : Nat) (task : Task)
    (v v' : Value Bytes) : Prop where
  phase : Phase env start ((s.setCluster (task.job.finish key s.cluster).2).setTask id
    { task with answered := true }) key v'
  takes : ∀ t : Bytes → Value Bytes, t key = v →
    KeyValue.Takes t (task.job.finish key s.cluster).1 (Function.update t key v')
  entry : (padded key ∈ s.cluster.master.keyBlockNodeMap ↔ v ≠ .absent) →
    (padded key ∈ (task.job.finish key s.cluster).2.master.keyBlockNodeMap ↔ v' ≠ .absent)

/-- A task that was the only one of its key leaves none. -/
theorem idle_of_alone (task : Task) (alone : ∀ id' t, UnderWay s key id' t → id' = id)
    (c : Cluster) (id' : Nat) (t' : Task) :
    ¬ UnderWay ((s.setCluster c).setTask id { task with answered := true }) key id' t' := by
  intro h
  rcases underWay_setTask c h with ⟨-, -, hanswered⟩ | ⟨hid, h⟩
  · cases hanswered
  · exact hid (alone id' t' h)

/-- **A handler comes to its end.** -/
theorem Phase.finish (h : Phase env start s key v) (hR : 0 < s.cluster.master.R.toNat)
    (hconfig : s.cluster.master.config = start.master.config) {task : Task}
    (hway : UnderWay s key id task) (hover : task.Over) :
    ∃ v', Finished env start s key id task v v' := by
  cases h with
  | absent idle => exact absurd hway (idle id task)
  | settled payload bm stores gets quiet =>
      obtain ⟨nodeBlockMap, success, blockMap, hjob, hcollecting⟩ := gets id task hway
      refine ⟨.known payload, .settled payload bm ?_ (fun id' t' h => ?_) fun id' h => ?_, ?_, ?_⟩
      · rw [hjob]
        exact stores
      · rcases underWay_setTask _ h with ⟨-, -, hanswered⟩ | ⟨-, h⟩
        · cases hanswered
        · exact gets id' t' h
      · rcases outstanding_setTask _ h with ⟨-, hchanges, -⟩ | ⟨-, h⟩
        · rw [hjob] at hchanges
          cases hchanges
        · exact quiet id' h
      · intro t ht
        rw [hjob]
        refine ⟨?_, Function.update_eq_self_iff.mpr ht.symm⟩
        rw [ht]
        cases success with
        | false => exact Or.inl rfl
        | true =>
            -- all replies are in, and the blocks are those of the payload
            rw [Task.Over, hjob] at hover
            have hreceived := hover.resolve_right (by simp [Job.success])
            refine Or.inr (congrArg some ?_)
            exact hcollecting.recombine (fun n hn => hreceived n (ExtTreeMap.mem_keys.mpr hn))
              stores.toStores hconfig
      · rw [hjob]
        exact fun h => h
  | unknown gets =>
      have hget := gets id task hway
      cases hjob : task.job with
      | put payload nodeBlockMap success blockNodeMap =>
          rw [hjob] at hget
          cases hget
      | delete nodeIds success =>
          rw [hjob] at hget
          cases hget
      | get nodeBlockMap success blockMap =>
          refine ⟨.unknown, .unknown fun id' t' h => ?_, ?_, ?_⟩
          · rcases underWay_setTask _ h with ⟨-, -, hanswered⟩ | ⟨-, h⟩
            · cases hanswered
            · exact gets id' t' h
          · intro t ht
            rw [hjob]
            refine ⟨?_, Function.update_eq_self_iff.mpr ht.symm⟩
            rw [ht]
            trivial
          · rw [hjob]
            exact fun h => h
  | putting _ id₀ payload nodeBlockMap success blockNodeMap stage htask alone storing quiet =>
      obtain rfl := alone id task hway
      obtain rfl := Option.some.inj (hway.1.symm.trans htask)
      cases success with
      | true =>
          have hreceived : ∀ n ∈ nodeBlockMap, stage n = .received := fun n hn =>
            hover.resolve_right (by simp [Job.success]) n (ExtTreeMap.mem_keys.mpr hn)
          refine ⟨.known payload, .settled payload blockNodeMap (storing.replicated hR hreceived)
            (fun id' t' h => absurd h (idle_of_alone _ alone _ id' t')) fun id' h => ?_, ?_, ?_⟩
          · rcases outstanding_setTask _ h with ⟨-, -, n, hn, hsent⟩ | ⟨hid, h⟩
            · have hn : n ∈ nodeBlockMap := ExtTreeMap.mem_keys.mp hn
              have hsent : stage n = .sent := hsent
              rw [hreceived n hn] at hsent
              cases hsent
            · exact quiet id' hid h
          · exact fun t _ => rfl
          · intro _
            refine iff_of_true ?_ (by simp)
            exact ExtTreeMap.mem_insert_self
      | false =>
          have hidle := idle_of_alone
            ⟨key, .put payload nodeBlockMap false blockNodeMap, stage, false⟩ alone s.cluster
          refine ⟨v.doubt, ?_, fun t ht => by rw [← ht]; rfl, fun h => h.trans (by simp)⟩
          cases v with
          | absent => exact .absent hidle
          | known payload' => exact .unknown fun id' t' h => absurd h (hidle id' t')
          | unknown => exact .unknown fun id' t' h => absurd h (hidle id' t')
  | deleting _ id₀ nodeIds success stage present htask alone =>
      obtain rfl := alone id task hway
      obtain rfl := Option.some.inj (hway.1.symm.trans htask)
      cases success with
      | true =>
          refine ⟨.absent, .absent (idle_of_alone _ alone _), fun t ht => ⟨?_, rfl⟩, fun _ => ?_⟩
          · rw [ht]
            exact present
          · refine iff_of_false ?_ (by simp)
            exact fun h => (ExtTreeMap.mem_erase.mp h).1 compare_self
      | false =>
          have hidle := idle_of_alone ⟨key, .delete nodeIds false, stage, false⟩ alone s.cluster
          refine ⟨v.doubt, ?_, fun t ht => by rw [← ht]; rfl, fun h => h.trans (by simp)⟩
          cases v with
          | absent => exact .absent hidle
          | known payload' => exact .unknown fun id' t' h => absurd h (hidle id' t')
          | unknown => exact .unknown fun id' t' h => absurd h (hidle id' t')

end Tasks

end RackKey
