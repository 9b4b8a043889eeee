import RackKey.Cluster.Concurrent
import RackKey.Cluster.Counts
import RackKey.Cluster.RoundTrip
import RackKey.Lib.Runs

set_option autoImplicit false

/-! # PUTs and DELETEs of one key at the same time

The handlers of the master look a key up again after they have waited for nodes. `operator[]` on
a missing key inserts a null pointer, which the handlers dereference. The steps of the handlers of
one key are interleaved in any order, each taken as atomic; `crashed` is set when a null pointer is
dereferenced, and `nullEntry` says that the map has one for the key.

No null pointer is met as long as no step takes the key away from a lookup to come (`Careful`,
`no_null_dereference`); any step that does leads to a dereference in one step more.
-/

namespace RackKey

open Std Words Payloads

namespace NullMap

open Cluster
open Concurrent (Stage)

/-- Where a handler is: after the key-exists check of `deleteHandler`, waiting for the nodes,
after the assignment of `putHandler`, or at its end. -/
inductive Phase where
  | checked
  | sending
  | assigned
  | done
  deriving DecidableEq, Repr

inductive Job where
  | put (nodeBlockMap : ExtTreeMap Nat (List Block)) (blockNodeMap : BlockNodeMap)
  | delete (nodeIds : ExtTreeSet Nat)

/-- The nodes that requests are sent to. -/
def Job.nodes : Job → List Nat
  | put nodeBlockMap _ => nodeBlockMap.keys
  | delete nodeIds => nodeIds.toList

def Job.request (key : Bytes) (n : Nat) : Job → Request
  | put nodeBlockMap _ => putRequest key (fun n => nodeBlockMap.getD n []) n
  | delete _ => deleteRequest key n

structure Task where
  job : Job
  phase : Phase
  success : Bool
  /-- Where the requests to the nodes are. They outlive the handler when it ends early. -/
  stage : Nat → Stage

/-- `when_all` is over: all requests are done, or one has failed. -/
def Task.Over (t : Task) : Prop :=
  (∀ n ∈ t.job.nodes, t.stage n = .received) ∨ t.success = false

instance (t : Task) : Decidable t.Over :=
  inferInstanceAs (Decidable (_ ∨ _))

/-- The master and its nodes, with the entries of the map that are not null. -/
structure State where
  cluster : Cluster
  nullEntry : Bool
  crashed : Bool
  tasks : Nat → Option Task

inductive Step where
  | put (id fuel : Nat) (payload : Bytes)
  | check (id : Nat)
  | lookUp (id : Nat)
  | handle (id nodeId : Nat) (reached : Bool)
  | receive (id nodeId : Nat)
  | assign (id : Nat)
  | display (id : Nat)
  | erase (id : Nat)
  | health (healthy : Nat → Bool)

namespace State

def setTask (s : State) (id : Nat) (t : Task) : State :=
  { s with tasks := Function.update s.tasks id (some t) }

def setMaster (s : State) (m : MasterServer) : State :=
  { s with cluster := { s.cluster with master := m } }

/-- `keyBlockNodeMap.find(key) != keyBlockNodeMap.end()`. -/
def found (key : Bytes) (s : State) : Bool :=
  decide (padded key ∈ s.cluster.master.keyBlockNodeMap) || s.nullEntry

/-- `*(keyBlockNodeMap[key])`, and what is done with it. -/
def deref (key : Bytes) (s : State) (next : BlockNodeMap → State) : State :=
  match s.cluster.master.keyBlockNodeMap[padded key]? with
  | none => { s with nullEntry := true, crashed := true }
  | some blockNodeMap => next blockNodeMap

/-- The continuations of `sendBlocks` and `deleteBlocks`. -/
def receive (key : Bytes) (s : State) (id n : Nat) (reply : Option Response) (t : Task) : State :=
  let stage := Function.update t.stage n .received
  match t.job with
  | .put nodeBlockMap blockNodeMap =>
      let p := Cluster.assign (padded key) n (nodeBlockMap.getD n []) (t.success, blockNodeMap)
        s.cluster.master reply
      let s' := (s.setMaster p.2).setTask id
        { t with job := .put nodeBlockMap p.1.2, success := p.1.1, stage := stage }
      if (accepted reply).isSome ∧ s.found key = true then s.deref key fun _ => s' else s'
  | .delete _ =>
      match accepted reply with
      | none => s.setTask id { t with success := false, stage := stage }
      | some sizeInfo => s.deref key fun _ =>
          (s.setMaster (s.cluster.master.updateStats n 0
            (s.cluster.master.existingBlocks (padded key) n) sizeInfo)).setTask id
              { t with stage := stage }

end State

section Step

variable (env : Env) (key : Bytes)

/-- A step of the task `t`, whose number is `id`. -/
def taskStep (s : State) (id : Nat) (t : Task) : Step → Option State
  | .lookUp _ =>
      if t.phase = .checked then
        some (s.deref key fun blockNodeMap =>
          s.setTask id ⟨.delete (allNodeIds blockNodeMap), .sending, true, fun _ => .sent⟩)
      else none
  | .handle _ n reached =>
      if n ∈ t.job.nodes ∧ t.stage n = .sent then
        let r := s.cluster.send env (fun _ => reached) n (t.job.request (padded key) n)
        some ({ s with cluster := r.2 }.setTask id
          { t with stage := Function.update t.stage n (.replied r.1) })
      else none
  | .receive _ n =>
      match t.stage n with
      | .replied reply => some (s.receive key id n reply t)
      | _ => none
  | .assign _ =>
      match t.job with
      | .put _ blockNodeMap =>
          if t.phase = .sending ∧ t.Over then
            if t.success then
              some ({ s with
                cluster := s.cluster.record (padded key) blockNodeMap
                nullEntry := false }.setTask id { t with phase := .assigned })
            else some (s.setTask id { t with phase := .done })
          else none
      | .delete _ => none
  | .display _ =>
      -- `calculateAndShowBlockDistribution`
      if t.phase = .assigned then
        some (s.deref key fun _ => s.setTask id { t with phase := .done })
      else none
  | .erase _ =>
      match t.job with
      | .put _ _ => none
      | .delete _ =>
          if t.phase = .sending ∧ t.Over then
            if t.success then
              let m := s.cluster.master
              some ({ s.setMaster
                { m with keyBlockNodeMap := m.keyBlockNodeMap.erase (padded key) } with
                nullEntry := false }.setTask id { t with phase := .done })
            else some (s.setTask id { t with phase := .done })
          else none
  | _ => none

/-- A step of the master. A null pointer that is dereferenced ends the run. -/
def step (s : State) (a : Step) : Option State :=
  if s.crashed then none
  else match a with
  | .put id fuel payload =>
      match s.tasks id with
      | some _ => none
      | none => (s.cluster.distribute env fuel (padded key) payload).map fun nodeBlockMap =>
          s.setTask id ⟨.put nodeBlockMap ∅, .sending, true, fun _ => .sent⟩
  | .check id =>
      match s.tasks id with
      | some _ => none
      | none =>
          let phase := if s.found key then .checked else .done
          some (s.setTask id ⟨.delete ∅, phase, true, fun _ => .sent⟩)
  | .health healthy => some { s with cluster := s.cluster.withHealth healthy }
  | .lookUp id | .handle id _ _ | .receive id _ | .assign id | .display id | .erase id =>
      (s.tasks id).bind fun t => taskStep env key s id t a

end Step

/-- The task is going to look the key up and dereference what it finds: it is between the
key-exists check and its lookup, between the assignment and the display, or a node has answered
a delete and the continuation is to come. -/
def Task.LooksUp (t : Task) : Prop :=
  t.phase = .checked ∨ t.phase = .assigned ∨
    ∃ nodeIds n reply, t.job = .delete nodeIds ∧ t.stage n = .replied reply ∧
      (accepted reply).isSome = true

/-- The cluster `c`, with no request of the key under way. -/
def start (c : Cluster) : State := ⟨c, false, false, fun _ => none⟩

/-- The step does not take the key away from a lookup: no DELETE erases the key while another
task is going to look it up, and a node answers OK to a DELETE while the key is in the map. -/
def Careful (env : Env) (key : Bytes) (s : State) : Step → Prop
  | .erase id => ∀ t, s.tasks id = some t → t.success = true →
      ∀ id' t', id' ≠ id → s.tasks id' = some t' → ¬ t'.LooksUp
  | .handle id n reached => ∀ t nodeIds, s.tasks id = some t → t.job = .delete nodeIds →
      Acks env (fun _ => reached) s.cluster n (deleteRequest (padded key) n) →
      padded key ∈ s.cluster.master.keyBlockNodeMap
  | _ => True

variable {env : Env} {key : Bytes} {s s' : State} {id n : Nat} {t t' : Task}

/-! ## The invariant -/

/-- No null pointer, and the key is in the map whenever a task is going to look it up. -/
structure Inv (key : Bytes) (s : State) : Prop where
  alive : s.crashed = false
  nonNull : s.nullEntry = false
  present : ∀ id t, s.tasks id = some t → t.LooksUp →
    padded key ∈ s.cluster.master.keyBlockNodeMap
  known : ∀ id t n reply, s.tasks id = some t → t.stage n = .replied reply → n ∈ t.job.nodes

/-- A step of one task that keeps the key in the map. -/
theorem Inv.setTask (h : Inv key s) (htasks : s'.tasks = Function.update s.tasks id (some t'))
    (halive : s'.crashed = s.crashed) (hnull : s'.nullEntry = false)
    (hkeep : padded key ∈ s.cluster.master.keyBlockNodeMap →
      padded key ∈ s'.cluster.master.keyBlockNodeMap)
    (hlooks : t'.LooksUp → padded key ∈ s'.cluster.master.keyBlockNodeMap)
    (hknown : ∀ n reply, t'.stage n = .replied reply → n ∈ t'.job.nodes) : Inv key s' := by
  have htask : ∀ id' t'', s'.tasks id' = some t'' →
      t'' = t' ∨ s.tasks id' = some t'' := by
    intro id' t'' ht
    rw [htasks] at ht
    by_cases hid : id' = id
    · subst hid
      rw [Function.update_self] at ht
      exact Or.inl (Option.some.inj ht).symm
    · rw [Function.update_of_ne hid] at ht
      exact Or.inr ht
  refine ⟨halive.trans h.alive, hnull, fun id' t'' ht hl => ?_, fun id' t'' n reply ht hs => ?_⟩
  · rcases htask id' t'' ht with rfl | ht
    · exact hlooks hl
    · exact hkeep (h.present id' t'' ht hl)
  · rcases htask id' t'' ht with rfl | ht
    · exact hknown n reply hs
    · exact h.known id' t'' n reply ht hs

/-- A lookup of a key that is in the map. -/
theorem State.deref_of_mem (h : padded key ∈ s.cluster.master.keyBlockNodeMap)
    (next : BlockNodeMap → State) : ∃ blockNodeMap, s.deref key next = next blockNodeMap := by
  refine ⟨s.cluster.master.keyBlockNodeMap[padded key], ?_⟩
  unfold State.deref
  rw [ExtTreeMap.getElem?_eq_some_getElem h]

/-- A lookup of a key that is not. -/
theorem State.deref_of_not_mem (h : padded key ∉ s.cluster.master.keyBlockNodeMap)
    (next : BlockNodeMap → State) :
    s.deref key next = { s with nullEntry := true, crashed := true } := by
  unfold State.deref
  rw [ExtTreeMap.getElem?_eq_none h]

/-- The key-exists check finds the key when an inner map is there. -/
theorem Inv.mem_of_found (h : Inv key s) (hfound : s.found key = true) :
    padded key ∈ s.cluster.master.keyBlockNodeMap := by
  rw [State.found, h.nonNull, Bool.or_false] at hfound
  exact of_decide_eq_true hfound

theorem inv_lookUp (h : Inv key s) (ht : s.tasks id = some t)
    (hstep : taskStep env key s id t (.lookUp id) = some s') : Inv key s' := by
  simp only [taskStep] at hstep
  split at hstep
  · rename_i hphase
    obtain ⟨bm, hderef⟩ := State.deref_of_mem (h.present id t ht (Or.inl hphase))
      fun blockNodeMap => s.setTask id ⟨.delete (allNodeIds blockNodeMap), .sending, true,
        fun _ => .sent⟩
    rw [hderef] at hstep
    obtain rfl := Option.some.inj hstep
    refine h.setTask rfl rfl h.nonNull (fun hk => hk) ?_ ?_
    · rintro (hp | hp | ⟨_, n, reply, -, hs, -⟩)
      · cases hp
      · cases hp
      · cases hs
    · intro n reply hs
      cases hs
  · cases hstep

theorem inv_display (h : Inv key s) (ht : s.tasks id = some t)
    (hstep : taskStep env key s id t (.display id) = some s') : Inv key s' := by
  simp only [taskStep] at hstep
  split at hstep
  · rename_i hphase
    have hmem := h.present id t ht (Or.inr (Or.inl hphase))
    obtain ⟨bm, hderef⟩ := State.deref_of_mem hmem fun _ => s.setTask id { t with phase := .done }
    rw [hderef] at hstep
    obtain rfl := Option.some.inj hstep
    exact h.setTask rfl rfl h.nonNull (fun hk => hk) (fun _ => hmem)
      fun n reply hs => h.known id t n reply ht hs
  · cases hstep

theorem inv_handle {reached : Bool} (h : Inv key s) (ht : s.tasks id = some t)
    (hcareful : Careful env key s (.handle id n reached))
    (hstep : taskStep env key s id t (.handle id n reached) = some s') : Inv key s' := by
  simp only [taskStep] at hstep
  split at hstep
  · rename_i hsent
    obtain rfl := Option.some.inj hstep
    have hmaster : (s.cluster.send env (fun _ => reached) n
        (t.job.request (padded key) n)).2.master = s.cluster.master := by
      rw [send_eq]
    have hmem : padded key ∈ s.cluster.master.keyBlockNodeMap →
        padded key ∈ (s.cluster.send env (fun _ => reached) n
          (t.job.request (padded key) n)).2.master.keyBlockNodeMap := by
      rw [hmaster]
      exact fun hk => hk
    refine h.setTask rfl rfl h.nonNull hmem ?_ ?_
    · rintro (hp | hp | ⟨nodeIds, m, reply, hjob, hs, hacc⟩)
      · exact hmem (h.present id t ht (Or.inl hp))
      · exact hmem (h.present id t ht (Or.inr (Or.inl hp)))
      · -- the node has just answered, or another one had before
        have hjob : t.job = .delete nodeIds := hjob
        dsimp only at hs
        by_cases hm : m = n
        · subst hm
          rw [Function.update_self, Stage.replied.injEq] at hs
          rw [← hs, hjob] at hacc
          exact hmem (hcareful t nodeIds ht hjob hacc)
        · rw [Function.update_of_ne hm] at hs
          exact hmem (h.present id t ht (Or.inr (Or.inr ⟨nodeIds, m, reply, hjob, hs, hacc⟩)))
    · intro m reply hs
      dsimp only at hs
      by_cases hm : m = n
      · exact hm ▸ hsent.1
      · rw [Function.update_of_ne hm] at hs
        exact h.known id t m reply ht hs
  · cases hstep

/-- A reply that has been received is no longer on its way. -/
theorem looksUp_received (t t' : Task) (n : Nat)
    (hdelete : ∀ nodeIds, t'.job = .delete nodeIds → t.job = .delete nodeIds)
    (hphase : t'.phase = t.phase) (hstage : t'.stage = Function.update t.stage n .received) :
    (t'.LooksUp → t.LooksUp) ∧
      ∀ m reply, t'.stage m = .replied reply → t.stage m = .replied reply := by
  have hother : ∀ m reply, t'.stage m = .replied reply → t.stage m = .replied reply := by
    intro m reply hs
    rw [hstage] at hs
    by_cases hm : m = n
    · subst hm
      rw [Function.update_self] at hs
      cases hs
    · rwa [Function.update_of_ne hm] at hs
  refine ⟨?_, hother⟩
  rintro (hp | hp | ⟨nodeIds, m, reply, hj, hs, hacc⟩)
  · exact Or.inl (hphase ▸ hp)
  · exact Or.inr (Or.inl (hphase ▸ hp))
  · exact Or.inr (Or.inr ⟨nodeIds, m, reply, hdelete nodeIds hj, hother m reply hs, hacc⟩)

theorem assign_keyBlockNodeMap (reply : Option Response) (K : Bytes) (n : Nat)
    (blocks : List Block) (p : Bool × BlockNodeMap) (m : MasterServer) :
    (Cluster.assign K n blocks p m reply).2.keyBlockNodeMap = m.keyBlockNodeMap := by
  cases hacc : accepted reply with
  | none => rw [(assign_rejected hacc K n blocks p m).2]
  | some sizeInfo =>
      rw [assign_accepted hacc]
      rfl

theorem inv_receive (h : Inv key s) (ht : s.tasks id = some t)
    (hstep : taskStep env key s id t (.receive id n) = some s') : Inv key s' := by
  simp only [taskStep] at hstep
  split at hstep
  · rename_i reply hreply
    obtain rfl := Option.some.inj hstep
    have hpresent := h.present id t ht
    unfold State.receive
    split
    · rename_i nodeBlockMap blockNodeMap hjob
      dsimp only
      have hmap := assign_keyBlockNodeMap reply (padded key) n (nodeBlockMap.getD n [])
        (t.success, blockNodeMap) s.cluster.master
      set p := Cluster.assign (padded key) n (nodeBlockMap.getD n []) (t.success, blockNodeMap)
        s.cluster.master reply with hp
      set t' : Task := { t with
        job := .put nodeBlockMap p.1.2
        success := p.1.1
        stage := Function.update t.stage n .received } with ht'
      have hnext : Inv key ((s.setMaster p.2).setTask id t') := by
        obtain ⟨hlooks, hstage⟩ := looksUp_received t t' n
          (fun nodeIds hj => by cases hj) rfl rfl
        have hmem : padded key ∈ s.cluster.master.keyBlockNodeMap →
            padded key ∈ p.2.keyBlockNodeMap := by
          rw [hmap]
          exact fun hk => hk
        refine h.setTask rfl rfl h.nonNull hmem (fun hl => hmem (hpresent (hlooks hl)))
          fun m reply hs => ?_
        have hnode := h.known id t m reply ht (hstage m reply hs)
        rw [hjob] at hnode
        exact hnode
      split
      · -- the key is found, and with it an inner map
        rename_i hfound
        obtain ⟨bm, hderef⟩ := State.deref_of_mem (h.mem_of_found hfound.2)
          fun _ => (s.setMaster p.2).setTask id t'
        rw [hderef]
        exact hnext
      · exact hnext
    · rename_i nodeIds hjob
      obtain ⟨hlooks, hstage⟩ := looksUp_received t
        { t with stage := Function.update t.stage n .received } n (fun _ hj => hj) rfl rfl
      split
      · -- the node has failed: nothing is looked up
        obtain ⟨hlooks, hstage⟩ := looksUp_received t
          { t with success := false, stage := Function.update t.stage n .received } n
          (fun _ hj => hj) rfl rfl
        exact h.setTask rfl rfl h.nonNull (fun hk => hk) (fun hl => hpresent (hlooks hl))
          fun m reply hs => h.known id t m reply ht (hstage m reply hs)
      · -- the node has answered OK, so that the key is still in the map
        rename_i sizeInfo hacc
        have hmem := hpresent (Or.inr (Or.inr ⟨nodeIds, n, reply, hjob, hreply, by rw [hacc]; rfl⟩))
        obtain ⟨bm, hderef⟩ := State.deref_of_mem hmem fun _ =>
          (s.setMaster (s.cluster.master.updateStats n 0
            (s.cluster.master.existingBlocks (padded key) n) sizeInfo)).setTask id
              { t with stage := Function.update t.stage n .received }
        rw [hderef]
        exact h.setTask rfl rfl h.nonNull (fun hk => hk) (fun hl => hpresent (hlooks hl))
          fun m reply hs => h.known id t m reply ht (hstage m reply hs)
  · cases hstep

/-- A handler at its end looks up only for replies still to come. -/
theorem looksUp_of_done (h : Task.LooksUp { t with phase := .done }) : t.LooksUp := by
  rcases h with hp | hp | hreplied
  · cases hp
  · cases hp
  · exact Or.inr (Or.inr hreplied)

theorem inv_assign (h : Inv key s) (ht : s.tasks id = some t)
    (hstep : taskStep env key s id t (.assign id) = some s') : Inv key s' := by
  simp only [taskStep] at hstep
  split at hstep
  · rename_i nodeBlockMap blockNodeMap hjob
    split at hstep
    · split at hstep
      · -- the inner map assigned is not null
        obtain rfl := Option.some.inj hstep
        have hmem : padded key ∈ (s.cluster.master.keyBlockNodeMap.insert (padded key)
            blockNodeMap) := ExtTreeMap.mem_insert_self
        exact h.setTask rfl rfl rfl (fun _ => hmem) (fun _ => hmem)
          fun n reply hs => h.known id t n reply ht hs
      · obtain rfl := Option.some.inj hstep
        exact h.setTask rfl rfl h.nonNull (fun hk => hk)
          (fun hl => h.present id t ht (looksUp_of_done hl))
          fun n reply hs => h.known id t n reply ht hs
    · cases hstep
  · cases hstep

theorem inv_erase (h : Inv key s) (ht : s.tasks id = some t)
    (hcareful : Careful env key s (.erase id))
    (hstep : taskStep env key s id t (.erase id) = some s') : Inv key s' := by
  simp only [taskStep] at hstep
  split at hstep
  · cases hstep
  · split at hstep
    · rename_i hover
      split at hstep
      · rename_i hsuccess
        obtain rfl := Option.some.inj hstep
        -- nobody is going to look the key up any more
        have hnone : ∀ id' t', id' ≠ id → s.tasks id' = some t' → ¬ t'.LooksUp :=
          hcareful t ht hsuccess
        -- and the DELETE itself has received all its replies
        have hown : ¬ Task.LooksUp { t with phase := .done } := by
          rintro (hp | hp | ⟨nodeIds, m, reply, hj, hs, -⟩)
          · cases hp
          · cases hp
          · have hmem := h.known id t m reply ht hs
            rcases hover.2 with hall | hfail
            · have hreceived := (hall m hmem).symm.trans hs
              cases hreceived
            · rw [hsuccess] at hfail
              cases hfail
        have htask : ∀ id' t', (Function.update s.tasks id (some { t with phase := .done })) id'
            = some t' →
          ¬ t'.LooksUp ∧ ∀ n reply, t'.stage n = .replied reply → n ∈ t'.job.nodes := by
          intro id' t' ht'
          by_cases hid : id' = id
          · subst hid
            rw [Function.update_self] at ht'
            obtain rfl := Option.some.inj ht'
            exact ⟨hown, fun n reply hs => h.known id' t n reply ht hs⟩
          · rw [Function.update_of_ne hid] at ht'
            exact ⟨hnone id' t' hid ht', fun n reply hs => h.known id' t' n reply ht' hs⟩
        exact ⟨h.alive, rfl, fun id' t' ht' hl => absurd hl (htask id' t' ht').1,
          fun id' t' n reply ht' hs => (htask id' t' ht').2 n reply hs⟩
      · obtain rfl := Option.some.inj hstep
        exact h.setTask rfl rfl h.nonNull (fun hk => hk)
          (fun hl => h.present id t ht (looksUp_of_done hl))
          fun n reply hs => h.known id t n reply ht hs
    · cases hstep

/-- A task that has just begun to wait for nodes, or is over. -/
theorem inv_begin (h : Inv key s) (ht' : t'.stage = fun _ => .sent)
    (hlooks : t'.phase = .checked ∨ t'.phase = .assigned →
      padded key ∈ s.cluster.master.keyBlockNodeMap) : Inv key (s.setTask id t') := by
  refine h.setTask rfl rfl h.nonNull (fun hk => hk) ?_ fun n reply hs => ?_
  · rintro (hp | hp | ⟨_, n, reply, -, hs, -⟩)
    · exact hlooks (Or.inl hp)
    · exact hlooks (Or.inr hp)
    · rw [ht'] at hs
      cases hs
  · rw [ht'] at hs
    cases hs

/-- A step of a task is a step of the master. -/
theorem task_of_step {a : Step} (hstep : (s.tasks id).bind (fun t => taskStep env key s id t a)
    = some s') : ∃ t, s.tasks id = some t ∧ taskStep env key s id t a = some s' := by
  rwa [Option.bind_eq_some_iff] at hstep

theorem inv_step {a : Step} (h : Inv key s) (hcareful : Careful env key s a)
    (hstep : step env key s a = some s') : Inv key s' := by
  rw [step.eq_def, h.alive, if_neg Bool.false_ne_true] at hstep
  cases a with
  | put id fuel payload =>
      dsimp only at hstep
      split at hstep
      · cases hstep
      · rw [Option.map_eq_some_iff] at hstep
        obtain ⟨nodeBlockMap, -, rfl⟩ := hstep
        refine inv_begin h rfl ?_
        rintro (hp | hp)
        · cases hp
        · cases hp
  | check id =>
      dsimp only at hstep
      split at hstep
      · cases hstep
      · obtain rfl := Option.some.inj hstep
        refine inv_begin h rfl fun hphase => h.mem_of_found ?_
        by_contra hfound
        rw [if_neg hfound] at hphase
        rcases hphase with hp | hp
        · cases hp
        · cases hp
  | lookUp id =>
      obtain ⟨t, ht, hstep⟩ := task_of_step hstep
      exact inv_lookUp h ht hstep
  | handle id n reached =>
      obtain ⟨t, ht, hstep⟩ := task_of_step hstep
      exact inv_handle h ht hcareful hstep
  | receive id n =>
      obtain ⟨t, ht, hstep⟩ := task_of_step hstep
      exact inv_receive h ht hstep
  | assign id =>
      obtain ⟨t, ht, hstep⟩ := task_of_step hstep
      exact inv_assign h ht hstep
  | display id =>
      obtain ⟨t, ht, hstep⟩ := task_of_step hstep
      exact inv_display h ht hstep
  | erase id =>
      obtain ⟨t, ht, hstep⟩ := task_of_step hstep
      exact inv_erase h ht hcareful hstep
  | health healthy =>
      obtain rfl := Option.some.inj hstep
      exact ⟨rfl, h.nonNull, h.present, h.known⟩

/-! ## A step that is not careful -/

/-- A task that is going to look the key up when it is gone dereferences a null pointer next. -/
theorem crash_of_looksUp (halive : s.crashed = false) (ht : s.tasks id = some t)
    (hl : t.LooksUp) (hgone : padded key ∉ s.cluster.master.keyBlockNodeMap) :
    ∃ b s', step env key s b = some s' ∧ s'.crashed = true ∧ s'.nullEntry = true := by
  have hstep : ∀ {b s'}, taskStep env key s id t b = some s' →
      (s.tasks id).bind (fun t => taskStep env key s id t b) = some s' := by
    intro b s' hb
    rw [ht]
    exact hb
  -- the step that looks the key up: that of `deleteHandler`, the display, or the continuation
  rcases hl with hphase | hphase | ⟨nodeIds, n, reply, hjob, hs, hacc⟩
  · refine ⟨.lookUp id, { s with nullEntry := true, crashed := true }, ?_, rfl, rfl⟩
    rw [step, halive, if_neg Bool.false_ne_true]
    refine hstep ?_
    rw [taskStep, if_pos hphase, State.deref_of_not_mem hgone]
  · refine ⟨.display id, { s with nullEntry := true, crashed := true }, ?_, rfl, rfl⟩
    rw [step, halive, if_neg Bool.false_ne_true]
    refine hstep ?_
    rw [taskStep, if_pos hphase, State.deref_of_not_mem hgone]
  · refine ⟨.receive id n, { s with nullEntry := true, crashed := true }, ?_, rfl, rfl⟩
    obtain ⟨sizeInfo, hacc⟩ := Option.isSome_iff_exists.mp hacc
    rw [step, halive, if_neg Bool.false_ne_true]
    refine hstep ?_
    simp only [taskStep, hs, State.receive, hjob, hacc]
    rw [State.deref_of_not_mem hgone]

/-- A step that takes the key away from a lookup to come. -/
theorem crash_of_not_careful {a : Step} (halive : s.crashed = false)
    (hcareful : ¬ Careful env key s a) (hstep : step env key s a = some s') :
    ∃ b s'', step env key s' b = some s'' ∧ s''.crashed = true ∧ s''.nullEntry = true := by
  rw [step.eq_def, halive, if_neg Bool.false_ne_true] at hstep
  cases a with
  | handle id n reached =>
      obtain ⟨t, ht, hstep⟩ := task_of_step hstep
      simp only [Careful, not_forall] at hcareful
      obtain ⟨t₁, nodeIds, ht₁, hjob, hacks, hgone⟩ := hcareful
      obtain rfl : t = t₁ := Option.some.inj (ht.symm.trans ht₁)
      simp only [taskStep] at hstep
      split at hstep
      · obtain rfl := Option.some.inj hstep
        -- the OK is on its way, and its continuation looks the key up
        refine crash_of_looksUp halive (Function.update_self ..)
          (Or.inr (Or.inr ⟨nodeIds, n, _, hjob, Function.update_self .., ?_⟩)) ?_
        · rw [hjob]
          exact hacks
        · show padded key ∉ (s.cluster.send _ _ _ _).2.master.keyBlockNodeMap
          rw [send_eq]
          exact hgone
      · cases hstep
  | erase id =>
      obtain ⟨t, ht, hstep⟩ := task_of_step hstep
      simp only [Careful, not_forall, not_not] at hcareful
      obtain ⟨t₁, ht₁, hsuccess, id', t', hid, ht', hlooks⟩ := hcareful
      obtain rfl : t = t₁ := Option.some.inj (ht.symm.trans ht₁)
      simp only [taskStep] at hstep
      split at hstep
      · cases hstep
      · split at hstep
        · simp only [hsuccess] at hstep
          obtain rfl := Option.some.inj hstep
          refine crash_of_looksUp halive ((Function.update_of_ne hid ..).trans ht') hlooks ?_
          show padded key ∉ s.cluster.master.keyBlockNodeMap.erase (padded key)
          simp
        · cases hstep
  | put | check | lookUp | receive | assign | display | health => exact absurd trivial hcareful

/-! ## The result -/

theorem inv_start (c : Cluster) : Inv key (start c) where
  alive := rfl
  nonNull := rfl
  present := fun id t ht => by cases ht
  known := fun id t n reply ht => by cases ht

/-- **No null pointer is met** in a run that takes the key away from no lookup. Any step that
does take it away is followed by a step that dereferences a null pointer. -/
theorem no_null_dereference (env : Env) (key : Bytes) (c : Cluster) (s : State)
    (h : Runs.Reached (step env key) (Careful env key) (start c) s) :
    (s.crashed = false ∧ s.nullEntry = false) ∧
      ∀ a s', step env key s a = some s' → ¬ Careful env key s a →
        ∃ b s'', step env key s' b = some s'' ∧ s''.crashed = true ∧ s''.nullEntry = true := by
  have hinv : Inv key s := h.invariant (inv_start c) fun s a s' hs => inv_step hs
  exact ⟨⟨hinv.alive, hinv.nonNull⟩, fun a s' hstep hcareful =>
    crash_of_not_careful hinv.alive hcareful hstep⟩

/-- `Careful`, for DELETEs that fail. -/
private def carefulCheck (s : State) : Step → Bool
  | .erase id => (s.tasks id).all fun t => !t.success
  | .handle _ _ _ => decide (padded [97] ∈ s.cluster.master.keyBlockNodeMap)
  | _ => true

private theorem careful_of_check (env : Env) {s : State} {op : Step}
    (h : carefulCheck s op = true) : Careful env [97] s op := by
  cases op with
  | erase id =>
      intro t ht hsuccess
      rw [carefulCheck, ht, Option.all_some, hsuccess] at h
      cases h
  | handle id n reached => exact fun _ _ _ _ _ => of_decide_eq_true h
  | put id fuel payload => trivial
  | check id => trivial
  | lookUp id => trivial
  | receive id n => trivial
  | assign id => trivial
  | display id => trivial
  | health healthy => trivial

/-- A PUT, and a DELETE that does not get through to one of the nodes, at the same time. -/
private def putAndDelete : List Step :=
  [.put 0 100 sampleOverwrite, .check 1, .lookUp 1, .handle 1 0 true, .handle 0 0 true,
    .handle 0 1 true, .handle 1 1 false, .handle 0 2 true, .handle 1 2 true, .receive 0 0,
    .receive 1 0, .receive 0 1, .receive 1 1, .receive 0 2, .assign 0, .receive 1 2, .erase 1,
    .display 0]

theorem no_null_dereference_sample :
    ∃ c s, sampleCluster.router (Env.ofHash sampleHash) (fun _ => true) 100
        ⟨.PUT, storeUri [97], samplePayload⟩ = some (some ⟨.OK, []⟩, c) ∧
      Runs.Reached (step (Env.ofHash sampleHash) [97]) (Careful (Env.ofHash sampleHash) [97])
        (start c) s ∧
      (s.tasks 0).map Task.phase = some .done ∧ (s.tasks 1).map Task.phase = some .done ∧
      s.crashed = false ∧ s.nullEntry = false := by
  have hall : (do
      let r ← sampleCluster.router (Env.ofHash sampleHash) (fun _ => true) 100
        ⟨.PUT, storeUri [97], samplePayload⟩
      let s ← putAndDelete.foldlM
        (Runs.guarded (step (Env.ofHash sampleHash) [97]) carefulCheck) (start r.2)
      some (r.1, (s.tasks 0).map Task.phase, (s.tasks 1).map Task.phase))
      = some (some ⟨.OK, []⟩, some .done, some .done) := by
    decide +kernel
  simp only [Option.bind_eq_bind, Option.bind_eq_some_iff, Option.some.injEq, Prod.mk.injEq]
    at hall
  obtain ⟨⟨_, c⟩, hput, s, hrun, rfl, hdone, hdone'⟩ := hall
  have hr := Runs.reached_of_guarded (fun _ _ => careful_of_check (Env.ofHash sampleHash)) _ hrun
    Runs.Reached.start
  exact ⟨c, s, hput, hr, hdone, hdone', (no_null_dereference _ _ _ _ hr).1⟩

/-- The requests of a client to three nodes. -/
def serve (id : Nat) : List Step :=
  [.handle id 0 true, .handle id 1 true, .handle id 2 true, .receive id 0, .receive id 1,
    .receive id 2]

/-- A DELETE erases the key between the end of a PUT's requests and its display. -/
def erasedUnderPut : List Step :=
  .put 0 100 [1, 2, 3, 4, 5, 6, 7, 8, 9, 10] :: serve 0 ++ [.assign 0, .check 1, .lookUp 1] ++
    serve 1 ++ [.erase 1, .display 0]

/-- A PUT shows the distribution of a key that a DELETE has erased. -/
theorem null_dereference :
    ∃ s, erasedUnderPut.foldlM (step (Env.ofHash sampleHash) [97]) (start sampleCluster) = some s ∧
      s.crashed = true ∧ s.nullEntry = true := by
  have hrun : (erasedUnderPut.foldlM (step (Env.ofHash sampleHash) [97])
      (start sampleCluster)).map (fun s => s.crashed && s.nullEntry) = some true := by
    decide +kernel
  obtain ⟨s, hs, hnull⟩ := Option.map_eq_some_iff.mp hrun
  rw [Bool.and_eq_true] at hnull
  exact ⟨s, hs, hnull⟩

end NullMap

end RackKey
