import RackKey.Cluster.RoundTrip
import RackKey.Cluster.Tasks

set_option autoImplicit false

/-! # A request by itself

A handler that serves its requests to the nodes one after another, with nothing else going on, is
one of the interleavings of `Tasks.step` (`router_alone`): it shows the same answer, leaves the
same cluster, and does nothing to other tasks.
-/

namespace RackKey

open Std Words Payloads

namespace Tasks

open Cluster
open Concurrent (Stage)

variable {env : Env} {reach : Nat → Bool} {d m : UInt32} {s s' : State} {id n : Nat}
variable {key K : Bytes} {job : Job} {p : Job × Cluster} {c : Cluster}

/-! ## Exchanges -/

/-- One request of a task and its reply. -/
def Job.exchange (env : Env) (reach : Nat → Bool) (K : Bytes) (p : Job × Cluster) (nodeId : Nat) :
    Option (Job × Cluster) :=
  let r := p.2.send env reach nodeId (p.1.request K nodeId)
  (p.1.receive K nodeId r.1 r.2.master).map fun q => (q.1, { r.2 with master := q.2 })

/-- What is seen when the operations are done one after another. -/
abbrev play (env : Env) (d m : UInt32) : List Step → State → Option (List Event × State) :=
  Simulation.observe (step env d m) fun _ _ => true

/-- The steps of one request of task `id`. -/
def exchangeSteps (reach : Nat → Bool) (id nodeId : Nat) : List Step :=
  [.handle id nodeId (reach nodeId), .receive id nodeId]

theorem setTask_setTask (s : State) (c c' : Cluster) (id : Nat) (task task' : Task) :
    (((s.setCluster c).setTask id task).setCluster c').setTask id task'
      = (s.setCluster c').setTask id task' := by
  simp only [State.setTask, State.setCluster, Function.update_idem]

theorem nodes_receive {reply : Option Response} {q : Job × MasterServer} {master : MasterServer}
    (h : job.receive K n reply master = some q) : q.1.nodes = job.nodes := by
  cases job with
  | put payload nodeBlockMap success blockNodeMap =>
      cases h
      rfl
  | get nodeBlockMap success blockMap =>
      cases h
      rfl
  | delete nodeIds success =>
      simp only [Job.receive] at h
      split at h
      · cases h
        rfl
      · split at h
        · cases h
          rfl
        · cases h

theorem play_exchange {stage : Nat → Stage} (ht : s.tasks id = some ⟨key, job, stage, false⟩)
    (hn : n ∈ job.nodes) (hsent : stage n = .sent)
    (h : Job.exchange env reach (padded key) (job, s.cluster) n = some p) :
    p.1.nodes = job.nodes ∧ play env d m (exchangeSteps reach id n) s
      = some ([], (s.setCluster p.2).setTask id
          ⟨key, p.1, Function.update stage n .received, false⟩) := by
  obtain ⟨q, hq, rfl⟩ := Option.map_eq_some_iff.mp h
  dsimp only at hq ⊢
  set r := s.cluster.send env reach n (job.request (padded key) n) with hr
  have hhandle : step env d m s (.handle id n (reach n))
      = some (none, (s.setCluster r.2).setTask id
          ⟨key, job, Function.update stage n (.replied r.1), false⟩) := by
    simp only [step, ht, Option.bind_some, taskStep, if_pos (And.intro hn hsent)]
    rfl
  have hreceive : step env d m ((s.setCluster r.2).setTask id
      ⟨key, job, Function.update stage n (.replied r.1), false⟩) (.receive id n)
        = some (none, (s.setCluster { r.2 with master := q.2 }).setTask id
          ⟨key, q.1, Function.update stage n .received, false⟩) := by
    have htask : ((s.setCluster r.2).setTask id
        ⟨key, job, Function.update stage n (.replied r.1), false⟩).tasks id
          = some ⟨key, job, Function.update stage n (.replied r.1), false⟩ :=
      Function.update_self ..
    have hmaster : ((s.setCluster r.2).setTask id
        ⟨key, job, Function.update stage n (.replied r.1), false⟩).cluster = r.2 := rfl
    simp only [step, htask, Option.bind_some, taskStep, Function.update_self, hmaster, hq,
      Function.update_idem, setTask_setTask, Bool.false_eq_true, if_false]
  refine ⟨nodes_receive hq, ?_⟩
  exact Simulation.observe_cons rfl hhandle (Simulation.observe_cons rfl hreceive rfl)

/-- The requests to distinct nodes, one after another. -/
theorem play_exchanges :
    ∀ {ns : List Nat} (_ : ns.Nodup) {s : State} {job : Job} {stage : Nat → Stage},
      s.tasks id = some ⟨key, job, stage, false⟩ → (∀ n ∈ ns, n ∈ job.nodes ∧ stage n = .sent) →
      ns.foldlM (Job.exchange env reach (padded key)) (job, s.cluster) = some p →
      ∃ stage', (∀ n, stage' n = if n ∈ ns then .received else stage n) ∧
        p.1.nodes = job.nodes ∧
        play env d m (ns.flatMap (exchangeSteps reach id)) s
          = some ([], (s.setCluster p.2).setTask id ⟨key, p.1, stage', false⟩)
  | [], _, s, job, stage, ht, _, h => by
      cases h
      refine ⟨stage, by simp, rfl, ?_⟩
      show some ([], s) = _
      simp only [State.setTask, State.setCluster, ← ht, Function.update_eq_self]
  | n :: ns, hnodup, s, job, stage, ht, hns, h => by
      obtain ⟨hnot, hnodup⟩ := List.nodup_cons.mp hnodup
      rw [List.foldlM_cons, Option.bind_eq_bind, Option.bind_eq_some_iff] at h
      obtain ⟨q, hq, h⟩ := h
      obtain ⟨hnodes, hfirst⟩ := play_exchange (d := d) (m := m) ht (hns n (by simp)).1
        (hns n (by simp)).2 hq
      have hnext : ((s.setCluster q.2).setTask id
          ⟨key, q.1, Function.update stage n .received, false⟩).tasks id
            = some ⟨key, q.1, Function.update stage n .received, false⟩ := Function.update_self ..
      -- the first exchange leaves the stages of the other nodes, so the rest goes on as before
      obtain ⟨stage', hstage, hsame, hrest⟩ := play_exchanges hnodup hnext
        (fun n' hn' => by
          have hne : n' ≠ n := fun he => hnot (he ▸ hn')
          rw [hnodes, Function.update_of_ne hne]
          exact hns n' (by simp [hn'])) h
      refine ⟨stage', fun n' => ?_, hsame.trans hnodes, ?_⟩
      · rw [hstage]
        by_cases he : n' = n
        · subst he
          rw [if_neg hnot, Function.update_self, if_pos List.mem_cons_self]
        · rw [Function.update_of_ne he]
          simp only [List.mem_cons, he, false_or]
      · rw [List.flatMap_cons, ← setTask_setTask s q.2 p.2 id _ _]
        exact Simulation.observe_append hfirst hrest

/-- **A task whose requests are handled and answered one after another** comes to its end. -/
theorem play_job (ht : s.tasks id = some ⟨key, job, fun _ => .sent, false⟩)
    (h : (env.order job.nodes).foldlM (Job.exchange env reach (padded key)) (job, s.cluster)
      = some p) :
    ∃ ops stage, play env d m ops s = some ([.answered (p.1.finish key p.2).1],
      (s.setCluster (p.1.finish key p.2).2).setTask id ⟨key, p.1, stage, true⟩) := by
  have hperm := env.order_perm job.nodes
  have hnodup : (env.order job.nodes).Nodup := by
    refine hperm.nodup_iff.mpr ?_
    cases job with
    | put payload nodeBlockMap success blockNodeMap => exact nodeBlockMap.nodup_keys
    | get nodeBlockMap success blockMap => exact nodeBlockMap.nodup_keys
    | delete nodeIds success => exact nodup_toList nodeIds
  obtain ⟨stage, hstage, hnodes, hrun⟩ := play_exchanges (d := d) (m := m) hnodup ht
    (fun n hn => ⟨hperm.mem_iff.mp hn, rfl⟩) h
  have hover : Task.Over ⟨key, p.1, stage, false⟩ := by
    refine Or.inl fun n hn => ?_
    have hn : n ∈ job.nodes := hnodes ▸ hn
    show stage n = .received
    rw [hstage, if_pos (hperm.mem_iff.mpr hn)]
  have htask : ((s.setCluster p.2).setTask id ⟨key, p.1, stage, false⟩).tasks id
      = some ⟨key, p.1, stage, false⟩ := Function.update_self ..
  have hfinish : step env d m ((s.setCluster p.2).setTask id ⟨key, p.1, stage, false⟩)
      (.finish id) = some (some (.answered (p.1.finish key p.2).1),
        (s.setCluster (p.1.finish key p.2).2).setTask id ⟨key, p.1, stage, true⟩) := by
    simp only [step, htask, Option.bind_some, taskStep]
    rw [if_pos ⟨trivial, hover⟩, setTask_setTask]
    rfl
  refine ⟨(env.order job.nodes).flatMap (exchangeSteps reach id) ++ [.finish id], stage, ?_⟩
  exact Simulation.observe_append hrun (Simulation.observe_cons rfl hfinish rfl)

/-! ## Loops over the nodes -/

/-- The exchanges of a PUT are its loop over the nodes. -/
theorem exchanges_put (env : Env) (reach : Nat → Bool) (K payload : Bytes)
    (nodeBlockMap : ExtTreeMap Nat (List Block)) (ns : List Nat) (t : PutState) :
    ns.foldlM (Job.exchange env reach K)
        (.put payload nodeBlockMap t.success t.blockNodeMap, t.cluster)
      = (let t' := ns.foldl (fun t n => sendBlocks env reach K t n (nodeBlockMap.getD n [])) t
        some (.put payload nodeBlockMap t'.success t'.blockNodeMap, t'.cluster)) := by
  induction ns generalizing t with
  | nil => rfl
  | cons n ns ih => exact ih (sendBlocks env reach K t n (nodeBlockMap.getD n []))

/-- The exchanges of a GET are its loop over the nodes. -/
theorem exchanges_get (env : Env) (reach : Nat → Bool) (K : Bytes)
    (nodeBlockMap : ExtTreeMap Nat (List UInt32)) (ns : List Nat) (t : GetState) :
    ns.foldlM (Job.exchange env reach K) (.get nodeBlockMap t.success t.blockMap, t.cluster)
      = (let t' := ns.foldl (fun t n => getBlocks env reach K t n (nodeBlockMap.getD n [])) t
        some (.get nodeBlockMap t'.success t'.blockMap, t'.cluster)) := by
  induction ns generalizing t with
  | nil => rfl
  | cons n ns ih => exact ih (getBlocks env reach K t n (nodeBlockMap.getD n []))

/-- One exchange of a DELETE: the key stays in the map, so that no null pointer is met. -/
theorem exchange_delete (env : Env) (reach : Nat → Bool) (nodeIds : ExtTreeSet Nat) (n : Nat)
    {t : Bool × Cluster} (hK : K ∈ t.2.master.keyBlockNodeMap) :
    Job.exchange env reach K (.delete nodeIds t.1, t.2) n
        = some (.delete nodeIds (deleteBlocks env reach K t n).1,
            (deleteBlocks env reach K t n).2) ∧
      K ∈ (deleteBlocks env reach K t n).2.master.keyBlockNodeMap := by
  unfold Job.exchange deleteBlocks
  dsimp only [Job.request, Job.receive]
  set r := t.2.send env reach n ⟨.DEL, storeUri K, []⟩ with hr
  have hmaster : r.2.master = t.2.master := by rw [hr, send_eq]
  have hmem : K ∈ r.2.master.keyBlockNodeMap := by rwa [hmaster]
  rcases r.1 with _ | ⟨status, payload⟩
  · exact ⟨rfl, hmem⟩
  · cases status with
    | InternalError => exact ⟨rfl, hmem⟩
    | NotImplemented => exact ⟨rfl, hmem⟩
    | OK =>
        simp only [accepted]
        cases hsize : SizeInfo.deserialize payload with
        | none => exact ⟨rfl, hmem⟩
        | some sizeInfo =>
            simp only [if_pos hmem]
            exact ⟨rfl, hmem⟩

/-- The exchanges of a DELETE are its loop over the nodes. -/
theorem exchanges_delete (env : Env) (reach : Nat → Bool) (nodeIds : ExtTreeSet Nat)
    (ns : List Nat) (t : Bool × Cluster) (hK : K ∈ t.2.master.keyBlockNodeMap) :
    ns.foldlM (Job.exchange env reach K) (.delete nodeIds t.1, t.2)
      = (let t' := ns.foldl (deleteBlocks env reach K) t
        some (.delete nodeIds t'.1, t'.2)) := by
  induction ns generalizing t with
  | nil => rfl
  | cons n ns ih =>
      obtain ⟨hfirst, hmem⟩ := exchange_delete env reach nodeIds n hK
      rw [List.foldlM_cons, hfirst]
      exact ih _ hmem

/-! ## Handlers -/

/-- What the client of a request is told. -/
def answerOf (key body : Bytes) (response : Option Response) :
    Method → Option (KeyValue.Event Bytes Bytes)
  | .PUT => some (.put key body (response.any fun r => r.status = .OK))
  | .GET => some (.get key (response.bind fun r => if r.status = .OK then some r.body else none))
  | .DEL => some (.delete key (response.any fun r => r.status = .OK))
  | .other => none

/-- From a task that is begun to the end of its handler. -/
theorem play_begun {op : Step}
    (hop : step env d m s op = some (none, s.setTask id ⟨key, job, fun _ => .sent, false⟩))
    (h : (env.order job.nodes).foldlM (Job.exchange env reach (padded key)) (job, s.cluster)
      = some p) :
    ∃ ops s', play env d m ops s = some ([.answered (p.1.finish key p.2).1], s') ∧
      s'.cluster = (p.1.finish key p.2).2 ∧ ∀ id', id' ≠ id → s'.tasks id' = s.tasks id' := by
  obtain ⟨ops, stage, hplay⟩ := play_job (d := d) (m := m)
    (s := s.setTask id ⟨key, job, fun _ => .sent, false⟩) (Function.update_self ..) h
  refine ⟨op :: ops, _, Simulation.observe_cons rfl hop hplay, rfl, fun id' hid => ?_⟩
  exact (Function.update_of_ne hid ..).trans (Function.update_of_ne hid ..)

/-- `putHandler` by itself. -/
theorem play_putHandler (hnone : s.tasks id = none) {fuel : Nat} {payload : Bytes}
    {r : Response × Cluster}
    (h : s.cluster.putHandler env reach fuel (padded key) payload = some r) :
    ∃ ops s', play env d m ops s = some ([.answered (.put key payload (r.1.status = .OK))], s') ∧
      s'.cluster = r.2 ∧ ∀ id', id' ≠ id → s'.tasks id' = s.tasks id' := by
  unfold Cluster.putHandler at h
  simp only [Option.bind_eq_bind, Option.bind_eq_some_iff] at h
  obtain ⟨nodeBlockMap, hdistribute, hr⟩ := h
  have hop : step env d m s (.put id fuel key payload) = some (none,
      s.setTask id ⟨key, .put payload nodeBlockMap true ∅, fun _ => .sent, false⟩) := by
    simp only [step, if_pos hnone, hdistribute, Option.bind_some]
    rfl
  have hplay := play_begun hop (exchanges_put env reach (padded key) payload nodeBlockMap
    (env.order nodeBlockMap.keys) ⟨true, ∅, s.cluster⟩)
  dsimp only [Job.finish] at hplay
  split at hr
  · rename_i hok
    obtain rfl := Option.some.inj hr
    simpa [hok] using hplay
  · rename_i hfail
    obtain rfl := Option.some.inj hr
    simpa [hfail] using hplay

variable (reach) in
/-- `getHandler` by itself. -/
theorem play_getHandler (hnone : s.tasks id = none) :
    let r := s.cluster.getHandler env reach (padded key)
    ∃ ops s', play env d m ops s = some ([.answered (.get key
        (r.1.bind fun r => if r.status = .OK then some r.body else none))], s') ∧
      s'.cluster = r.2 ∧ ∀ id', id' ≠ id → s'.tasks id' = s.tasks id' := by
  dsimp only
  cases hstart : startGet s.cluster (padded key) with
  | none =>
      -- the key is not in the map, or no node of a block is up: the GET ends where it begins
      have hop : step env d m s (.get id key) = some (some (.answered (.get key none)), s) := by
        simp only [step, if_pos hnone, hstart]
        rfl
      have hget : (s.cluster.getHandler env reach (padded key)).2 = s.cluster ∧
          ((s.cluster.getHandler env reach (padded key)).1.bind fun r =>
            if r.status = .OK then some r.body else none) = none := by
        unfold Cluster.getHandler
        unfold startGet at hstart
        cases hbm : s.cluster.master.keyBlockNodeMap[padded key]? with
        | none => exact ⟨rfl, rfl⟩
        | some bm =>
            rw [hbm, Option.bind_some, Option.map_eq_none_iff] at hstart
            simp [hstart]
      rw [hget.2, hget.1]
      exact ⟨[.get id key], s, Simulation.observe_cons rfl hop rfl, rfl, fun _ _ => rfl⟩
  | some job =>
      have hop : step env d m s (.get id key)
          = some (none, s.setTask id ⟨key, job, fun _ => .sent, false⟩) := by
        simp only [step, if_pos hnone, hstart]
        rfl
      obtain ⟨bm, hbm, hstart⟩ := Option.bind_eq_some_iff.mp hstart
      obtain ⟨choices, hchoices, rfl⟩ := Option.map_eq_some_iff.mp hstart
      have hplay := play_begun hop (exchanges_get env reach (padded key) (Groups.group choices)
        (env.order (Groups.group choices).keys) ⟨true, ∅, s.cluster⟩)
      dsimp only [Job.finish] at hplay
      unfold Cluster.getHandler
      simp only [hbm, hchoices]
      split
      · rename_i hok
        simpa [hok] using hplay
      · rename_i hfail
        simpa [hfail] using hplay

variable (reach) in
/-- `deleteHandler` by itself. -/
theorem play_deleteHandler (hnone : s.tasks id = none) :
    let r := s.cluster.deleteHandler env reach (padded key)
    ∃ ops s', play env d m ops s = some ([.answered (.delete key (r.1.status = .OK))], s') ∧
      s'.cluster = r.2 ∧ ∀ id', id' ≠ id → s'.tasks id' = s.tasks id' := by
  dsimp only
  unfold Cluster.deleteHandler
  cases hbm : s.cluster.master.keyBlockNodeMap[padded key]? with
  | none =>
      have hop : step env d m s (.delete id key)
          = some (some (.answered (.delete key false)), s) := by
        simp only [step, if_pos hnone, startDelete, hbm]
        rfl
      exact ⟨[.delete id key], s, Simulation.observe_cons rfl hop rfl, rfl, fun _ _ => rfl⟩
  | some bm =>
      have hop : step env d m s (.delete id key) = some (none,
          s.setTask id ⟨key, .delete (allNodeIds bm) true, fun _ => .sent, false⟩) := by
        simp only [step, if_pos hnone, startDelete, hbm]
        rfl
      have hplay := play_begun hop (exchanges_delete env reach (allNodeIds bm)
        (env.order (allNodeIds bm).toList) (true, s.cluster) (mem_of_getElem?_eq_some hbm))
      dsimp only [Job.finish] at hplay
      dsimp only
      split
      · rename_i hok
        simpa [hok, eraseEntry] using hplay
      · rename_i hfail
        simpa [hfail] using hplay

/-- **A request to the router by itself is a run of the tasks**: one that shows its answer and
leaves the cluster that the handler leaves. -/
theorem router_alone (hk : PlainKey key) {method : Method} {fuel : Nat} {body : Bytes}
    {response : Option Response} (hnone : s.tasks id = none) (hmethod : method ≠ .other)
    (h : s.cluster.router env reach fuel ⟨method, storeUri key, body⟩ = some (response, c)) :
    ∃ e ops s', answerOf key body response method = some e ∧
      play env d m ops s = some ([.answered e], s') ∧ s'.cluster = c ∧
        ∀ id', id' ≠ id → s'.tasks id' = s.tasks id' := by
  obtain ⟨hput, hget, hdelete⟩ := router_store env reach hk fuel s.cluster body
  cases method with
  | other => exact absurd rfl hmethod
  | PUT =>
      rw [hput] at h
      obtain ⟨r, hr, heq⟩ := Option.map_eq_some_iff.mp h
      cases heq
      obtain ⟨ops, s', hplay, hcluster, hothers⟩ := play_putHandler hnone hr
      exact ⟨_, ops, s', rfl, hplay, hcluster, hothers⟩
  | GET =>
      rw [hget, Option.some.injEq, Prod.ext_iff] at h
      obtain ⟨rfl, rfl⟩ := h
      obtain ⟨ops, s', hplay, hcluster, hothers⟩ := play_getHandler reach hnone
      exact ⟨_, ops, s', rfl, hplay, hcluster, hothers⟩
  | DEL =>
      rw [hdelete, Option.some.injEq, Prod.ext_iff] at h
      obtain ⟨rfl, rfl⟩ := h
      obtain ⟨ops, s', hplay, hcluster, hothers⟩ := play_deleteHandler reach hnone
      exact ⟨_, ops, s', rfl, hplay, hcluster, hothers⟩

theorem router_alone_sample :
    ∃ response c s', sampleCluster.router (Env.ofHash sampleHash) (fun n => n != 1) 100
        ⟨.PUT, storeUri [97], [1, 2, 3, 4, 5, 6]⟩ = some (response, c) ∧
      ∃ e ops, answerOf [97] [1, 2, 3, 4, 5, 6] response .PUT = some e ∧
        play (Env.ofHash sampleHash) 8 64 ops ⟨sampleCluster, fun _ => none⟩
          = some ([.answered e], s') ∧ s'.cluster = c := by
  have hsome : (sampleCluster.router (Env.ofHash sampleHash) (fun n => n != 1) 100
      ⟨.PUT, storeUri [97], [1, 2, 3, 4, 5, 6]⟩).isSome = true := by decide +kernel
  obtain ⟨⟨response, c⟩, hput⟩ := Option.isSome_iff_exists.mp hsome
  have hnone : (⟨sampleCluster, fun _ => none⟩ : State).tasks 0 = none := rfl
  obtain ⟨e, ops, s', he, hplay, hcluster, -⟩ := router_alone (d := 8) (m := 64)
    clientKey_sample.toPlainKey hnone (by decide) hput
  exact ⟨response, c, s', hput, e, ops, he, hplay, hcluster⟩

end Tasks

end RackKey
