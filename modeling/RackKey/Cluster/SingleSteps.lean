import RackKey.Cluster.NullMap
import RackKey.Cluster.Tasks
import RackKey.Lib.Simulation

set_option autoImplicit false

/-! # The handlers in single steps

`Tasks` takes the key-exists check of a DELETE with the lookup behind it, and the assignment of a
PUT with the display that looks the key up again. `NullMap` takes them one by one, so that others
come between them. PUTs and DELETEs of one key in `Tasks` are runs of these single steps
(`reached_of_seen`), and dereference a null pointer exactly when the single steps do.
-/

namespace RackKey

open Std Words Payloads

namespace NullMap

/-- The task that takes the step. -/
def Step.task : Step → Option Nat
  | .lookUp id | .handle id _ _ | .receive id _ | .assign id | .display id | .erase id => some id
  | .put _ _ _ | .check _ | .health _ => none

end NullMap

namespace Tasks

open Cluster
open Concurrent (Stage)

/-! ## The tasks -/

/-- The variables of a PUT or a DELETE that its requests and its end are made of. -/
def Job.single : Job → Option NullMap.Job
  | .put _ nodeBlockMap _ blockNodeMap => some (.put nodeBlockMap blockNodeMap)
  | .get _ _ _ => none
  | .delete nodeIds _ => some (.delete nodeIds)

/-- A handler between its beginning and its end, or at its end. -/
def Task.single (t : Task) (job : NullMap.Job) : NullMap.Task :=
  ⟨job, if t.answered then .done else .sending, t.job.success, t.stage⟩

/-- `u` has the tasks of `s`, which are PUTs and DELETEs of the key, and no others. -/
structure Splits (key : Bytes) (s : State) (u : NullMap.State) : Prop where
  cluster : u.cluster = s.cluster
  alive : u.crashed = false
  nonNull : u.nullEntry = false
  free : ∀ id, s.tasks id = none → u.tasks id = none
  tasks : ∀ id t, s.tasks id = some t → t.key = key ∧
    ∃ job, t.job.single = some job ∧ u.tasks id = some (t.single job)

/-- The steps of PUTs and DELETEs of the key, and health checks. -/
def ChangesOnly (key : Bytes) (_ : State) : Step → Prop
  | .put _ _ key' _ | .delete _ key' => key' = key
  | .handle _ _ _ | .receive _ _ | .finish _ | .health _ => True
  | _ => False

variable {env : Env} {key : Bytes} {c : Cluster} {s s' : State} {u u' : NullMap.State}
variable {id n : Nat} {t : Task} {t' : NullMap.Task} {job : NullMap.Job}

theorem splits_start (key : Bytes) (c : Cluster) :
    Splits key ⟨c, fun _ => none⟩ (NullMap.start c) where
  cluster := rfl
  alive := rfl
  nonNull := rfl
  free := fun _ _ => rfl
  tasks := fun _ _ h => by cases h

theorem Splits.setTask (h : Splits key s u) (hkey : t.key = key) (hjob : t.job.single = some job)
    (hcluster : u'.cluster = c) (halive : u'.crashed = false) (hnull : u'.nullEntry = false)
    (htasks : u'.tasks = Function.update u.tasks id (some (t.single job))) :
    Splits key ((s.setCluster c).setTask id t) u' where
  cluster := hcluster
  alive := halive
  nonNull := hnull
  free := by
    intro id' hfree
    rw [htasks]
    by_cases he : id' = id
    · subst he
      have hsome : (Function.update s.tasks id' (some t)) id' = none := hfree
      rw [Function.update_self] at hsome
      cases hsome
    · have hnone : (Function.update s.tasks id (some t)) id' = none := hfree
      rw [Function.update_of_ne he] at hnone ⊢
      exact h.free id' hnone
  tasks := by
    intro id' t₁ ht₁
    have hsome : (Function.update s.tasks id (some t)) id' = some t₁ := ht₁
    rw [htasks]
    by_cases he : id' = id
    · subst he
      rw [Function.update_self] at hsome ⊢
      obtain rfl := Option.some.inj hsome
      exact ⟨hkey, job, hjob, rfl⟩
    · rw [Function.update_of_ne he] at hsome ⊢
      exact h.tasks id' t₁ hsome

variable (key) in
theorem single_nodes (h : t.job.single = some job) :
    job.nodes = t.job.nodes ∧ ∀ n, job.request (padded key) n = t.job.request (padded key) n := by
  cases hjob : t.job with
  | put payload nodeBlockMap success blockNodeMap =>
      rw [hjob] at h
      obtain rfl := Option.some.inj h
      exact ⟨rfl, fun n => rfl⟩
  | get nodeBlockMap success blockMap =>
      rw [hjob] at h
      cases h
  | delete nodeIds success =>
      rw [hjob] at h
      obtain rfl := Option.some.inj h
      exact ⟨rfl, fun n => rfl⟩

/-! ## The steps -/

/-- The states that single steps lead to. -/
abbrev SingleSteps (env : Env) (key : Bytes) : NullMap.State → NullMap.State → Prop :=
  Runs.Reached (NullMap.step env key) fun _ _ => True

theorem singleSteps_one {op : NullMap.Step} (h : NullMap.step env key u op = some u') :
    SingleSteps env key u u' :=
  Runs.Reached.start.step trivial h

/-- A step of a task, when the task is known. -/
theorem singleSteps_task (op : NullMap.Step) (hop : op.task = some id) (halive : u.crashed = false)
    (ht : u.tasks id = some t') (h : NullMap.taskStep env key u id t' op = some u') :
    SingleSteps env key u u' := by
  refine singleSteps_one (show NullMap.step env key u op = _ from Eq.trans ?_ h)
  cases op with
  | put id fuel payload => cases hop
  | check id => cases hop
  | health healthy => cases hop
  | lookUp id' | handle id' n reached | receive id' n | assign id' | display id' | erase id' =>
      obtain rfl := Option.some.inj hop
      simp only [NullMap.step, halive, ht, Option.bind_some, Bool.false_eq_true, if_false]

theorem splits_put {d m : UInt32} {fuel : Nat} {payload : Bytes} {e : Option Event}
    (hs : Splits key s u) (h : step env d m s (.put id fuel key payload) = some (e, s')) :
    e = none ∧ ∃ u', SingleSteps env key u u' ∧ Splits key s' u' := by
  obtain ⟨hnone, he, nodeBlockMap, hd, rfl⟩ := step_put h
  refine ⟨he, u.setTask id ⟨.put nodeBlockMap ∅, .sending, true, fun _ => .sent⟩,
    singleSteps_one (show NullMap.step env key u (.put id fuel payload) = _ from ?_), ?_⟩
  · simp only [NullMap.step, hs.alive, hs.free id hnone, hs.cluster, hd]
    rfl
  · exact hs.setTask rfl rfl hs.cluster hs.alive hs.nonNull rfl

theorem splits_delete {d m : UInt32} {e : Option Event}
    (hs : Splits key s u) (h : step env d m s (.delete id key) = some (e, s')) :
    e ≠ some .crashed ∧ ∃ u', SingleSteps env key u u' ∧ Splits key s' u' := by
  obtain ⟨hnone, ⟨-, rfl, rfl⟩ | ⟨job, hjob, rfl, rfl⟩⟩ := step_delete h
  · -- the key is not there: answered at once
    exact ⟨fun he => by (cases he), u, .start, hs⟩
  · obtain ⟨bm, hbm, rfl⟩ := Option.map_eq_some_iff.mp hjob
    have hbm' : u.cluster.master.keyBlockNodeMap[padded key]? = some bm := by
      rw [hs.cluster, hbm]
    have hfound : u.found key = true := by
      rw [NullMap.State.found, hs.nonNull, Bool.or_false, decide_eq_true_eq]
      exact ExtTreeMap.mem_iff_isSome_getElem?.mpr (by rw [hbm']; rfl)
    -- the check and the lookup
    have hcheck : SingleSteps env key u
        (u.setTask id ⟨.delete ∅, .checked, true, fun _ => .sent⟩) := by
      refine singleSteps_one (show NullMap.step env key u (.check id) = _ from ?_)
      simp only [NullMap.step, hs.alive, hs.free id hnone, hfound, if_true]
      rfl
    have hlookUp : SingleSteps env key (u.setTask id ⟨.delete ∅, .checked, true, fun _ => .sent⟩)
        (u.setTask id ⟨.delete (allNodeIds bm), .sending, true, fun _ => .sent⟩) := by
      refine singleSteps_task (.lookUp id) rfl hs.alive (Function.update_self ..) ?_
      simp only [NullMap.taskStep, NullMap.State.deref, if_true]
      simp only [NullMap.State.setTask, hbm', Function.update_idem]
    refine ⟨fun he => by (cases he), _, hcheck.trans hlookUp, ?_⟩
    exact hs.setTask rfl rfl hs.cluster hs.alive hs.nonNull rfl

theorem splits_handle {d m : UInt32} {reached : Bool} {e : Option Event} (hs : Splits key s u)
    (h : step env d m s (.handle id n reached) = some (e, s')) :
    e ≠ some .crashed ∧ ∃ u', SingleSteps env key u u' ∧ Splits key s' u' := by
  obtain ⟨t, ht, hn, hsent, rfl, rfl⟩ := step_handle h
  obtain ⟨hkey, job, hjob, hu⟩ := hs.tasks id t ht
  obtain ⟨hnodes, hrequest⟩ := single_nodes key hjob
  have hstep : NullMap.taskStep env key u id (t.single job) (.handle id n reached)
      = some ({ u with cluster := (s.cluster.send env (fun _ => reached) n
          (t.job.request (padded key) n)).2 }.setTask id
            { t.single job with
              stage := Function.update t.stage n (.replied (s.cluster.send env (fun _ => reached) n
                (t.job.request (padded key) n)).1) }) := by
    simp only [NullMap.taskStep, Task.single, hnodes, hn, hsent, hrequest, hs.cluster, and_self,
      if_true]
  refine ⟨fun he => by (cases he), _, singleSteps_task _ rfl hs.alive hu hstep, ?_⟩
  rw [hkey]
  exact hs.setTask rfl hjob rfl hs.alive hs.nonNull rfl

/-- A lookup of a key that has just been found. -/
theorem deref_found (hnull : u.nullEntry = false) (P : Prop) [Decidable P] (u₁ : NullMap.State) :
    (if P ∧ u.found key = true then u.deref key fun _ => u₁ else u₁) = u₁ := by
  split
  · rename_i hfound
    have hmem := hfound.2
    rw [NullMap.State.found, hnull, Bool.or_false, decide_eq_true_eq] at hmem
    obtain ⟨bm, hderef⟩ := NullMap.State.deref_of_mem hmem fun _ => u₁
    exact hderef
  · rfl

variable (key id n) in
/-- The continuations do the same. -/
theorem receive_single {whole : Job} (hjob : whole.single = some job) (hnull : u.nullEntry = false)
    (reply : Option Response) (phase : NullMap.Phase) (stage : Nat → Stage) :
    match whole.receive (padded key) n reply u.cluster.master with
    | none => (u.receive key id n reply ⟨job, phase, whole.success, stage⟩).crashed = true
    | some p => ∃ job', p.1.single = some job' ∧
        u.receive key id n reply ⟨job, phase, whole.success, stage⟩ = (u.setMaster p.2).setTask id
          ⟨job', phase, p.1.success, Function.update stage n .received⟩ := by
  cases whole with
  | put payload nodeBlockMap success blockNodeMap =>
      obtain rfl := Option.some.inj hjob
      refine ⟨_, rfl, ?_⟩
      simp only [NullMap.State.receive]
      rw [deref_found hnull]
      rfl
  | get nodeBlockMap success blockMap => cases hjob
  | delete nodeIds success =>
      obtain rfl := Option.some.inj hjob
      simp only [Job.receive, NullMap.State.receive]
      cases hacc : accepted reply with
      | none => exact ⟨_, rfl, rfl⟩
      | some sizeInfo =>
          by_cases hmem : padded key ∈ u.cluster.master.keyBlockNodeMap
          · simp only [if_pos hmem]
            obtain ⟨bm, hderef⟩ := NullMap.State.deref_of_mem hmem fun _ =>
              (u.setMaster (u.cluster.master.updateStats n 0
                (u.cluster.master.existingBlocks (padded key) n) sizeInfo)).setTask id
                  ⟨.delete nodeIds, phase, success, Function.update stage n .received⟩
            exact ⟨_, rfl, hderef⟩
          · -- the key is gone: both dereference a null pointer
            simp only [if_neg hmem]
            rw [NullMap.State.deref_of_not_mem hmem]

theorem splits_receive {d m : UInt32} {e : Option Event} (hs : Splits key s u)
    (h : step env d m s (.receive id n) = some (e, s')) :
    ∃ u', SingleSteps env key u u' ∧
      (e = some .crashed ∧ u'.crashed = true ∨ e ≠ some .crashed ∧ Splits key s' u') := by
  obtain ⟨t, reply, ht, hreply, -, hcases⟩ := step_receive h
  obtain ⟨hkey, job, hjob, hu⟩ := hs.tasks id t ht
  have hstep : NullMap.taskStep env key u id (t.single job) (.receive id n)
      = some (u.receive key id n reply (t.single job)) := by
    simp only [NullMap.taskStep, Task.single, hreply]
  refine ⟨_, singleSteps_task _ rfl hs.alive hu hstep, ?_⟩
  have hreceive := receive_single key id n hjob hs.nonNull reply
    (if t.answered then .done else .sending) t.stage
  rw [hkey, ← hs.cluster] at hcases
  rcases hcases with ⟨hnone, rfl, rfl⟩ | ⟨p, hp, rfl, rfl⟩
  · rw [hnone] at hreceive
    exact Or.inl ⟨rfl, hreceive⟩
  · rw [hp] at hreceive
    obtain ⟨job', hjob', heq⟩ := hreceive
    refine Or.inr ⟨fun he => by (cases he), ?_⟩
    rw [Task.single, heq]
    exact hs.setTask rfl hjob' rfl hs.alive hs.nonNull rfl

/-- The assignment of a PUT that has succeeded, and the display of what has been assigned. -/
theorem singleSteps_recorded {nodeBlockMap : ExtTreeMap Nat (List Block)}
    {blockNodeMap : BlockNodeMap} {stage : Nat → Stage} (halive : u.crashed = false)
    (hu : u.tasks id = some ⟨.put nodeBlockMap blockNodeMap, .sending, true, stage⟩)
    (hover : NullMap.Task.Over ⟨.put nodeBlockMap blockNodeMap, .sending, true, stage⟩) :
    SingleSteps env key u ({ u with
      cluster := u.cluster.record (padded key) blockNodeMap
      nullEntry := false }.setTask id ⟨.put nodeBlockMap blockNodeMap, .done, true, stage⟩) := by
  set u₁ : NullMap.State := { u with
    cluster := u.cluster.record (padded key) blockNodeMap
    nullEntry := false }.setTask id ⟨.put nodeBlockMap blockNodeMap, .assigned, true, stage⟩
    with hu₁
  have hassign : SingleSteps env key u u₁ := by
    refine singleSteps_task (.assign id) rfl halive hu ?_
    simp only [NullMap.taskStep, hover, and_self, if_true, hu₁]
  have hmem : padded key ∈ u₁.cluster.master.keyBlockNodeMap := ExtTreeMap.mem_insert_self
  obtain ⟨bm, hderef⟩ := NullMap.State.deref_of_mem hmem fun _ =>
    u₁.setTask id ⟨.put nodeBlockMap blockNodeMap, .done, true, stage⟩
  have hdisplay : SingleSteps env key u₁
      (u₁.setTask id ⟨.put nodeBlockMap blockNodeMap, .done, true, stage⟩) := by
    refine singleSteps_task (.display id) rfl halive (Function.update_self ..) ?_
    simp only [NullMap.taskStep, if_true, hderef]
  have hidem : u₁.setTask id ⟨.put nodeBlockMap blockNodeMap, .done, true, stage⟩
      = { u with
          cluster := u.cluster.record (padded key) blockNodeMap
          nullEntry := false }.setTask id ⟨.put nodeBlockMap blockNodeMap, .done, true, stage⟩ := by
    simp only [hu₁, NullMap.State.setTask, Function.update_idem]
  rw [← hidem]
  exact hassign.trans hdisplay

theorem splits_finish {d m : UInt32} {e : Option Event} (hs : Splits key s u)
    (h : step env d m s (.finish id) = some (e, s')) :
    e ≠ some .crashed ∧ ∃ u', SingleSteps env key u u' ∧ Splits key s' u' := by
  obtain ⟨t, ht, hanswered, hover, rfl, rfl⟩ := step_finish h
  obtain ⟨hkey, job, hjob, hu⟩ := hs.tasks id t ht
  refine ⟨fun he => by (cases he), ?_⟩
  have hover' : NullMap.Task.Over ⟨job, .sending, t.job.success, t.stage⟩ :=
    hover.imp_left fun hreceived n hn => hreceived n ((single_nodes key hjob).1 ▸ hn)
  rw [Task.single, hanswered] at hu
  rw [hkey, ← hs.cluster]
  cases hj : t.job with
  | put payload nodeBlockMap success blockNodeMap =>
      rw [hj] at hjob hu hover'
      obtain rfl := Option.some.inj hjob
      cases success with
      | false =>
          refine ⟨u.setTask id ⟨.put nodeBlockMap blockNodeMap, .done, false, t.stage⟩,
            singleSteps_task (.assign id) rfl hs.alive hu ?_,
            hs.setTask rfl rfl rfl hs.alive hs.nonNull rfl⟩
          simp only [NullMap.taskStep, hover', Bool.false_eq_true, and_self, if_true, if_false]
          rfl
      | true =>
          exact ⟨_, singleSteps_recorded hs.alive hu hover',
            hs.setTask rfl rfl rfl hs.alive rfl rfl⟩
  | get nodeBlockMap success blockMap =>
      rw [hj] at hjob
      cases hjob
  | delete nodeIds success =>
      rw [hj] at hjob hu hover'
      obtain rfl := Option.some.inj hjob
      cases success with
      | false =>
          refine ⟨u.setTask id ⟨.delete nodeIds, .done, false, t.stage⟩,
            singleSteps_task (.erase id) rfl hs.alive hu ?_,
            hs.setTask rfl rfl rfl hs.alive hs.nonNull rfl⟩
          simp only [NullMap.taskStep, hover', Bool.false_eq_true, and_self, if_true, if_false]
          rfl
      | true =>
          refine ⟨{ u with
              cluster := eraseEntry u.cluster (padded key)
              nullEntry := false }.setTask id ⟨.delete nodeIds, .done, true, t.stage⟩,
            singleSteps_task (.erase id) rfl hs.alive hu ?_,
            hs.setTask rfl rfl rfl hs.alive rfl rfl⟩
          simp only [NullMap.taskStep, hover', Bool.false_eq_true, and_self, if_true, if_false]
          rfl

/-- **A step of PUTs and DELETEs of one key** is a few single steps, which meet a null pointer when
it does. -/
theorem splits_step (d m : UInt32) {op : Step} {e : Option Event} (hs : Splits key s u)
    (hop : ChangesOnly key s op) (h : step env d m s op = some (e, s')) :
    ∃ u', SingleSteps env key u u' ∧
      (e = some .crashed ∧ u'.crashed = true ∨ e ≠ some .crashed ∧ Splits key s' u') := by
  cases op with
  | put id fuel key' payload =>
      obtain rfl := hop
      obtain ⟨rfl, u', hu', hs'⟩ := splits_put hs h
      exact ⟨u', hu', Or.inr ⟨fun he => by (cases he), hs'⟩⟩
  | delete id key' =>
      obtain rfl := hop
      obtain ⟨he, u', hu', hs'⟩ := splits_delete hs h
      exact ⟨u', hu', Or.inr ⟨he, hs'⟩⟩
  | handle id n reached =>
      obtain ⟨he, u', hu', hs'⟩ := splits_handle hs h
      exact ⟨u', hu', Or.inr ⟨he, hs'⟩⟩
  | receive id n => exact splits_receive hs h
  | finish id =>
      obtain ⟨he, u', hu', hs'⟩ := splits_finish hs h
      exact ⟨u', hu', Or.inr ⟨he, hs'⟩⟩
  | health healthy =>
      cases h
      refine ⟨{ u with cluster := u.cluster.withHealth healthy },
        singleSteps_one (show NullMap.step env key u (.health healthy) = _ from ?_),
        Or.inr ⟨fun he => by (cases he), ?_, hs.alive, hs.nonNull, hs.free, hs.tasks⟩⟩
      · simp only [NullMap.step, hs.alive, Bool.false_eq_true, if_false]
      · show u.cluster.withHealth healthy = s.cluster.withHealth healthy
        rw [hs.cluster]
  | get id key' => exact hop.elim
  | keys => exact hop.elim
  | lose id n => exact hop.elim
  | restart n junk => exact hop.elim

/-- **A run of PUTs and DELETEs of one key** is a run of single steps, which meets a null pointer
exactly when it does. -/
theorem reached_of_seen {d m : UInt32} {es : List Event}
    (h : Simulation.Seen (step env d m) (ChangesOnly key) ⟨c, fun _ => none⟩ es s) :
    ∃ u, SingleSteps env key (NullMap.start c) u ∧
      (.crashed ∈ es ∧ u.crashed = true ∨ .crashed ∉ es ∧ Splits key s u) := by
  induction h with
  | start => exact ⟨_, .start, Or.inr ⟨List.not_mem_nil, splits_start key c⟩⟩
  | step before meets ok ih =>
      obtain ⟨u, hu, ⟨hmem, hcrashed⟩ | ⟨hmem, hs⟩⟩ := ih
      · exact ⟨u, hu, Or.inl ⟨List.mem_append_left _ hmem, hcrashed⟩⟩
      · obtain ⟨u', hu', ⟨rfl, hcrashed⟩ | ⟨he, hs'⟩⟩ := splits_step d m hs meets ok
        · exact ⟨u', hu.trans hu', Or.inl ⟨List.mem_append_right _ (List.mem_singleton_self _),
            hcrashed⟩⟩
        · refine ⟨u', hu.trans hu', Or.inr ⟨fun hnew => ?_, hs'⟩⟩
          rcases List.mem_append.mp hnew with hold | hlast
          · exact hmem hold
          · exact he (Option.mem_toList.mp hlast)

private def changesCheck (_ : State) : Step → Bool
  | .put _ _ key _ | .delete _ key => decide (key = [97])
  | .handle _ _ _ | .receive _ _ | .finish _ | .health _ => true
  | _ => false

private theorem changesOnly_of_check {s : State} {op : Step} (h : changesCheck s op = true) :
    ChangesOnly [97] s op := by
  cases op with
  | put id fuel key payload =>
      have hkey : key = [97] := of_decide_eq_true h
      exact hkey
  | delete id key =>
      have hkey : key = [97] := of_decide_eq_true h
      exact hkey
  | handle id n reached => trivial
  | receive id n => trivial
  | finish id => trivial
  | health healthy => trivial
  | get id key => cases h
  | keys => cases h
  | lose id n => cases h
  | restart n junk => cases h

/-- A PUT, and two DELETEs, of which the first ends while a second PUT has reached one node. -/
private def twoDeletes : List Step :=
  [.put 0 100 [97] samplePayload, .handle 0 0 true, .handle 0 1 true, .handle 0 2 true,
    .receive 0 0, .receive 0 1, .receive 0 2, .finish 0, .delete 1 [97], .delete 2 [97],
    .handle 1 0 true, .handle 1 1 true, .handle 1 2 true, .receive 1 0, .receive 1 1, .receive 1 2,
    .put 3 100 [97] samplePayload, .handle 3 0 true, .finish 1, .handle 2 0 true, .receive 2 0]

/-- The second DELETE looks the key up after the first has erased it. -/
theorem reached_of_seen_sample :
    ∃ s u, Simulation.Seen (step (Env.ofHash sampleHash) 8 64) (ChangesOnly [97])
        ⟨sampleCluster, fun _ => none⟩
        [.answered (.put [97] samplePayload true), .answered (.delete [97] true), .crashed] s ∧
      SingleSteps (Env.ofHash sampleHash) [97] (NullMap.start sampleCluster) u ∧
      u.crashed = true := by
  have hall : (Simulation.observe (step (Env.ofHash sampleHash) 8 64) changesCheck twoDeletes
      ⟨sampleCluster, fun _ => none⟩).map Prod.fst = some
        [.answered (.put [97] samplePayload true), .answered (.delete [97] true), .crashed] := by
    decide +kernel
  obtain ⟨⟨es, s⟩, hrun, rfl⟩ := Option.map_eq_some_iff.mp hall
  have hseen := (Simulation.Seen.start.observe (I := fun _ => True)
    (fun _ _ _ => changesOnly_of_check) (fun _ _ _ _ _ _ _ => trivial) _ trivial hrun).1
  obtain ⟨u, hu, ⟨-, hcrashed⟩ | ⟨hmem, -⟩⟩ := reached_of_seen hseen
  · exact ⟨s, u, hseen, hu, hcrashed⟩
  · exact absurd (by simp) hmem

end Tasks

end RackKey
