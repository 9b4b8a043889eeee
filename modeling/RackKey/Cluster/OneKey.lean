import RackKey.Cluster.Atomic
import RackKey.Cluster.Tasks
import RackKey.Lib.Runs
import RackKey.Lib.Simulation

set_option autoImplicit false

/-! # The tasks of one key

The tasks of `Concurrent` are tasks of one key, whose `when_all` waits for all requests and whose
replies do not get lost. Their steps are steps of `Tasks` (`step_of_concurrent`), so that their
runs are runs of `Tasks`, which show the payloads of the GETs that are answered OK
(`seen_of_concurrent`).
-/

namespace RackKey

open Std Words Payloads

namespace Tasks

open Cluster (sampleCluster sampleHash)
open Concurrent (Stage)

/-- The same variables. -/
def Job.ofConcurrent : Concurrent.Job → Job
  | .put payload nodeBlockMap success blockNodeMap =>
      .put payload nodeBlockMap success blockNodeMap
  | .get nodeBlockMap success blockMap => .get nodeBlockMap success blockMap

def Step.ofConcurrent (key : Bytes) : Concurrent.Step → Step
  | .put id fuel payload => .put id fuel key payload
  | .get id => .get id key
  | .handle id n reached => .handle id n reached
  | .receive id n => .receive id n
  | .finish id => .finish id
  | .health healthy => .health healthy

/-- `t` has the tasks of `s` that are under way, and uses no other numbers. -/
structure Lifts (key : Bytes) (s : Concurrent.State) (t : State) : Prop where
  cluster : t.cluster = s.cluster
  free : ∀ id, s.tasks id = none → t.tasks id = none
  running : ∀ id job stage, s.tasks id = some (.running job stage) →
    t.tasks id = some ⟨key, .ofConcurrent job, stage, false⟩

variable {env : Env} {key : Bytes} {c : Cluster} {s s' : Concurrent.State} {t : State} {id : Nat}

theorem lifts_start (key : Bytes) (c : Cluster) :
    Lifts key ⟨c, fun _ => none⟩ ⟨c, fun _ => none⟩ where
  cluster := rfl
  free := fun _ _ => rfl
  running := fun _ _ _ h => by cases h

theorem Lifts.setTask (hl : Lifts key s t) (c : Cluster) {task : Concurrent.Task} {task' : Task}
    (htask : ∀ job stage, task = .running job stage →
      task' = ⟨key, .ofConcurrent job, stage, false⟩) :
    Lifts key ({ s with cluster := c }.setTask id task) ((t.setCluster c).setTask id task') where
  cluster := rfl
  free := by
    intro id' hfree
    by_cases he : id' = id
    · subst he
      rw [Concurrent.setTask_tasks_self] at hfree
      cases hfree
    · rw [Concurrent.setTask_tasks_of_ne he] at hfree
      exact (Function.update_of_ne he _ _).trans (hl.free id' hfree)
  running := by
    intro id' job stage hrun
    rcases Concurrent.tasks_setTask hrun with ⟨rfl, heq⟩ | ⟨he, hrun⟩
    · rw [← htask job stage heq.symm]
      exact Function.update_self ..
    · exact (Function.update_of_ne he _ _).trans (hl.running id' job stage hrun)

/-- A task that is new. -/
theorem Lifts.begin (hl : Lifts key s t) (job : Concurrent.Job) :
    Lifts key (s.setTask id (.running job fun _ => .sent))
      (t.setTask id ⟨key, .ofConcurrent job, fun _ => .sent, false⟩) := by
  have ht : t = t.setCluster s.cluster := by
    rw [← hl.cluster]
    rfl
  rw [ht]
  refine hl.setTask s.cluster fun job' stage he => ?_
  cases he
  rfl

/-- A task that is answered at once takes no number in `t`. -/
theorem Lifts.answered (hl : Lifts key s t) {task : Concurrent.Task}
    (htask : ∀ job stage, task ≠ .running job stage) : Lifts key (s.setTask id task) t where
  cluster := hl.cluster
  free := by
    intro id' hfree
    by_cases he : id' = id
    · subst he
      rw [Concurrent.setTask_tasks_self] at hfree
      cases hfree
    · rw [Concurrent.setTask_tasks_of_ne he] at hfree
      exact hl.free id' hfree
  running := by
    intro id' job stage hrun
    rcases Concurrent.tasks_setTask hrun with ⟨-, heq⟩ | ⟨-, hrun⟩
    · exact absurd heq.symm (htask job stage)
    · exact hl.running id' job stage hrun

/-! ## The variables -/

variable {job : Concurrent.Job} {n : Nat}

theorem nodes_ofConcurrent : (Job.ofConcurrent job).nodes = job.nodes := by
  cases job with
  | put payload nodeBlockMap success blockNodeMap => rfl
  | get nodeBlockMap success blockMap => rfl

theorem request_ofConcurrent :
    (Job.ofConcurrent job).request (padded key) n = job.request (padded key) n := by
  cases job with
  | put payload nodeBlockMap success blockNodeMap => rfl
  | get nodeBlockMap success blockMap => rfl

theorem receive_ofConcurrent {reply : Option Response} {m : MasterServer} :
    (Job.ofConcurrent job).receive (padded key) n reply m
      = some (.ofConcurrent (job.receive (padded key) n reply m).1,
          (job.receive (padded key) n reply m).2) := by
  cases job with
  | put payload nodeBlockMap success blockNodeMap => rfl
  | get nodeBlockMap success blockMap => rfl

variable (key c job) in
/-- The end of a handler leaves the same cluster, and an answer. -/
theorem finish_ofConcurrent :
    ((Job.ofConcurrent job).finish key c).2 = (job.finish (padded key) c).2 ∧
      (∀ job' stage, (job.finish (padded key) c).1 ≠ .running job' stage) ∧
      ∀ body, (job.finish (padded key) c).1 = .getDone (some ⟨.OK, body⟩) →
        ((Job.ofConcurrent job).finish key c).1 = .get key (some body) := by
  cases job with
  | put payload nodeBlockMap success blockNodeMap =>
      cases success <;> simp [Job.ofConcurrent, Job.finish, Concurrent.Job.finish]
  | get nodeBlockMap success blockMap =>
      cases success <;> simp [Job.ofConcurrent, Job.finish, Concurrent.Job.finish]

/-! ## Steps and runs -/

theorem getDone_of_setTask {id' : Nat} {task : Concurrent.Task} {answer : Option Response}
    (h : (s.setTask id task).tasks id' = some (.getDone answer)) :
    s.tasks id' = some (.getDone answer) ∨ task = .getDone answer := by
  rcases Concurrent.tasks_setTask h with ⟨-, heq⟩ | ⟨-, hold⟩
  · exact Or.inr heq.symm
  · exact Or.inl hold

/-- **A step of the tasks of one key is a step of the tasks of all keys**, which shows the payload
of a GET that is answered OK. -/
theorem step_of_concurrent (d m : UInt32) {op : Concurrent.Step} (hl : Lifts key s t)
    (h : Concurrent.step env key s op = some s') :
    ∃ e t', step env d m t (.ofConcurrent key op) = some (e, t') ∧ Lifts key s' t' ∧
      ∀ id body, s'.tasks id = some (.getDone (some ⟨.OK, body⟩)) →
        s.tasks id = some (.getDone (some ⟨.OK, body⟩)) ∨
          e = some (.answered (.get key (some body))) := by
  have hcluster := hl.cluster
  cases op with
  | put id fuel payload =>
      obtain ⟨hnone, nodeBlockMap, hd, rfl⟩ := Concurrent.step_put h
      refine ⟨none, _, ?_, hl.begin (.put payload nodeBlockMap true ∅), fun id' body hdone =>
        (getDone_of_setTask hdone).imp_right fun he => by cases he⟩
      simp only [Step.ofConcurrent, step, if_pos (hl.free id hnone), hcluster, hd,
        Option.bind_some, State.begin, Job.ofConcurrent]
  | get id =>
      obtain ⟨hnone, rfl⟩ := Concurrent.step_get h
      simp only [Step.ofConcurrent, step, if_pos (hl.free id hnone), hcluster, startGet,
        Concurrent.startGet]
      cases hbm : s.cluster.master.keyBlockNodeMap[padded key]? with
      | none =>
          exact ⟨_, t, rfl, hl.answered fun _ _ he => (by cases he), fun id' body hdone =>
            (getDone_of_setTask hdone).imp_right fun he => by cases he⟩
      | some bm =>
          simp only [Option.bind_some]
          cases hchoices : s.cluster.chooseNodes bm.toList with
          | none =>
              exact ⟨_, t, rfl, hl.answered fun _ _ he => (by cases he), fun id' body hdone =>
                (getDone_of_setTask hdone).imp_right fun he => by cases he⟩
          | some choices =>
              exact ⟨none, _, rfl, hl.begin (.get (Groups.group choices) true ∅),
                fun id' body hdone => (getDone_of_setTask hdone).imp_right fun he => by cases he⟩
  | handle id n reached =>
      obtain ⟨job, stage, hrun, hn, hsent, rfl⟩ := Concurrent.step_handle h
      refine ⟨none, _, ?_, hl.setTask _ fun job' stage' he => (by cases he; rfl),
        fun id' body hdone => (getDone_of_setTask hdone).imp_right fun he => by cases he⟩
      simp only [Step.ofConcurrent, step, hl.running id job stage hrun, Option.bind_some, taskStep,
        nodes_ofConcurrent, hn, hsent, request_ofConcurrent, hcluster]
      rfl
  | receive id n =>
      obtain ⟨job, stage, reply, hrun, hreply, rfl⟩ := Concurrent.step_receive h
      refine ⟨none, _, ?_, hl.setTask _ fun job' stage' he => (by cases he; rfl),
        fun id' body hdone => (getDone_of_setTask hdone).imp_right fun he => by cases he⟩
      simp only [Step.ofConcurrent, step, hl.running id job stage hrun, Option.bind_some, taskStep,
        hreply, hcluster, receive_ofConcurrent]
      rfl
  | finish id =>
      obtain ⟨job, stage, hrun, hreceived, rfl⟩ := Concurrent.step_finish h
      obtain ⟨hend, hanswered, hanswer⟩ := finish_ofConcurrent key s.cluster job
      have hover : Task.Over ⟨key, .ofConcurrent job, stage, false⟩ :=
        Or.inl fun n hn => hreceived n (nodes_ofConcurrent ▸ hn)
      refine ⟨some (.answered ((Job.ofConcurrent job).finish key s.cluster).1),
        (t.setCluster (job.finish (padded key) s.cluster).2).setTask id
          ⟨key, .ofConcurrent job, stage, true⟩, ?_,
        hl.setTask _ fun job' stage' he => absurd he (hanswered job' stage'),
        fun id' body hdone => (getDone_of_setTask hdone).imp_right fun he => ?_⟩
      · simp only [Step.ofConcurrent, step, hl.running id job stage hrun, Option.bind_some,
          taskStep, hover, hcluster, and_self, if_true, hend]
      · rw [hanswer body he]
  | health healthy =>
      obtain rfl := Option.some.inj h
      refine ⟨none, _, rfl, ⟨?_, hl.free, hl.running⟩, fun id' body hdone => Or.inl hdone⟩
      show t.cluster.withHealth healthy = s.cluster.withHealth healthy
      rw [hcluster]

/-- **A run of the tasks of one key is a run of the tasks of all keys**, which shows the payloads
of the GETs that are answered OK. -/
theorem seen_of_concurrent (d m : UInt32) {cond : Concurrent.State → Concurrent.Step → Prop}
    (h : Runs.Reached (Concurrent.step env key) cond ⟨c, fun _ => none⟩ s) :
    ∃ es t, Simulation.Seen (step env d m) (fun _ _ => True) ⟨c, fun _ => none⟩ es t ∧
      Lifts key s t ∧ ∀ id body, s.tasks id = some (.getDone (some ⟨.OK, body⟩)) →
        .answered (.get key (some body)) ∈ es := by
  induction h with
  | start => exact ⟨[], _, .start, lifts_start key c, fun id body hdone => by cases hdone⟩
  | step before meets ok ih =>
      obtain ⟨es, t, hseen, hl, hanswers⟩ := ih
      obtain ⟨e, t', hstep, hl', hanswer⟩ := step_of_concurrent d m hl ok
      refine ⟨es ++ e.toList, t', hseen.step trivial hstep, hl', fun id body hdone => ?_⟩
      rcases hanswer id body hdone with hold | rfl
      · exact List.mem_append_left _ (hanswers id body hold)
      · exact List.mem_append_right _ (List.mem_singleton_self _)

/-- Two PUTs that overlap, and a GET after them that answers blocks of both. -/
theorem seen_of_concurrent_sample :
    ∃ s es t, Runs.Reached (Concurrent.step (Env.ofHash sampleHash) [97]) (fun _ _ => True)
        ⟨sampleCluster, fun _ => none⟩ s ∧
      s.tasks 2 = some (.getDone (some ⟨.OK, [1, 2, 3, 4, 25, 26, 27, 28, 9, 10]⟩)) ∧
      Simulation.Seen (step (Env.ofHash sampleHash) 8 64) (fun _ _ => True)
        ⟨sampleCluster, fun _ => none⟩ es t ∧
      .answered (.get [97] (some [1, 2, 3, 4, 25, 26, 27, 28, 9, 10])) ∈ es := by
  have hall : (Concurrent.sampleRun (Concurrent.overlappingPuts ++ .get 2 ::
      Concurrent.serveGet 2)).map (fun s => decide (s.tasks 2
        = some (.getDone (some ⟨.OK, [1, 2, 3, 4, 25, 26, 27, 28, 9, 10]⟩)))) = some true := by
    decide +kernel
  obtain ⟨s, hrun, hdone⟩ := Option.map_eq_some_iff.mp hall
  have hget := of_decide_eq_true hdone
  have hreached := Runs.reached_of_foldlM _ hrun (fun _ _ _ => trivial) .start
  obtain ⟨es, t, hseen, -, hanswers⟩ := seen_of_concurrent 8 64 hreached
  exact ⟨s, es, t, hreached, hget, hseen, hanswers 2 _ hget⟩

end Tasks

end RackKey
