import Chronoq.Demo.StatusOrder
import Chronoq.Foundations.Drain

/-! # `core/queue.py`: the order of the queue, and what `peek` shows of it

The sorted set is ordered by score, and by id where the scores are equal. Every pop takes the first task,
whoever makes it and whether or not anybody gets the reply, so the tasks that are queued at one moment leave
in this order, whatever is added in the meantime.

* `redis_effect`: what a step does to Redis; `pops`: the ids that a run takes out of the sorted set.
* `tasks_leave_in_order`.
* `peek_shows_order`: `peek` lists the first tasks of this order, although the hashes are read one after
  another while the workers go on. -/

namespace Chronoq.Demo
open Foundations

set_option autoImplicit false

variable {Id Score : Type}

/-- The members are ordered by score, and those of one score by id. -/
def itemKey (item : Id × Score) : Score ×ₗ Id := toLex (item.2, item.1)

namespace Redis

/-- `ZCARD` -/
def length (r : Redis Id Score) : ℕ := r.queue.length

theorem setItem_of_notMem [DecidableEq Id] {id : Id} {score : Score} {queue : List (Id × Score)}
    (h : id ∉ queue.map Prod.fst) : setItem id score queue = queue ++ [(id, score)] := by
  induction queue with
  | nil => rfl
  | cons item queue ih =>
    rw [List.map_cons, List.mem_cons, not_or] at h
    rw [setItem, if_neg (Ne.symm h.1), ih h.2, List.cons_append]

variable [LinearOrder Id] [LinearOrder Score]

/-- The sorted set in its order. -/
def inOrder (r : Redis Id Score) : List (Id × Score) := sortBy itemKey r.queue

/-- `ZRANGE queue start stop WITHSCORES`: both ends are included, and negative ones count from the end. -/
def zrange (r : Redis Id Score) (start stop : ℤ) : List (Id × Score) :=
  let size : ℤ := r.length
  let first := max 0 (if start < 0 then start + size else start)
  let last := min (size - 1) (if stop < 0 then stop + size else stop)
  (r.inOrder.drop first.toNat).take (last - first + 1).toNat

/-- `peek`: the members are read at once, the hash of each one later; `reads` is what Redis is then. -/
def peek (r : Redis Id Score) (reads : List (Redis Id Score)) (n : ℤ) :
    List (TaskHash Id Score × Score) :=
  ((r.zrange 0 (n - 1)).zip reads).filterMap fun x =>
    (x.2.hashes x.1.1).map fun hash => (hash, x.1.2)

theorem zpopmin_of_none {r : Redis Id Score} (h : extractLeast itemKey r.queue = none) :
    r.zpopmin = (r, none) := by
  rw [zpopmin]
  split
  · rfl
  · next hleast => cases h.symm.trans hleast

theorem zpopmin_of_some {r : Redis Id Score} {item : Id × Score} {rest : List (Id × Score)}
    (h : extractLeast itemKey r.queue = some (item, rest)) :
    r.zpopmin = ({ r with queue := rest }, some item.1) := by
  rw [zpopmin]
  split
  · next hleast => cases h.symm.trans hleast
  · next hleast =>
    cases h.symm.trans hleast
    rfl

theorem length_inOrder (r : Redis Id Score) : r.inOrder.length = r.length :=
  (sortBy_perm itemKey r.queue).length_eq

/-- `peek(n)` reads the first `n` members. -/
theorem zrange_take (r : Redis Id Score) {n : ℤ} (hn : 1 ≤ n) :
    r.zrange 0 (n - 1) = r.inOrder.take n.toNat := by
  have hnonneg : ¬ n - 1 < 0 := by omega
  simp only [zrange, lt_irrefl, if_false, max_self, Int.toNat_zero, List.drop_zero, if_neg hnonneg]
  have hlength := length_inOrder r
  rcases le_total n r.length with hle | hle
  · congr 1
    omega
  · rw [List.take_of_length_le (by omega), List.take_of_length_le (by omega)]

omit [LinearOrder Id] [LinearOrder Score] in
theorem queue_enqueue [DecidableEq Id] (r : Redis Id Score) (data : TaskData Id Score)
    (hnew : data.taskId ∉ r.queue.map Prod.fst) :
    (r.enqueue data).queue = r.queue ++ [(data.taskId, data.predictedMs)] :=
  setItem_of_notMem hnew

end Redis

namespace Pool
variable [LinearOrder Id] [LinearOrder Score] {s s' t : Pool Id Score} {w : ℕ}
  {actions : List (Action Id Score)}

/-- What the step takes out of the sorted set. -/
def popsOf (s : Pool Id Score) : Action Id Score → List Id
  | .serve w =>
    match s.workers[w]?.map Worker.phase with
    | some (.popping none) => s.redis.zpopmin.2.toList
    | _ => []
  | .late i =>
    match s.inFlight[i]? with
    | some .zpopmin => s.redis.zpopmin.2.toList
    | _ => []
  | _ => []

/-- What the steps put out, in their order. -/
def emitted {β : Type} (out : Pool Id Score → Action Id Score → List β) (s : Pool Id Score) :
    List (Action Id Score) → List β
  | [] => []
  | a :: actions =>
    match s.step a with
    | none => []
    | some s' => out s a ++ emitted out s' actions

theorem emitted_cons {β : Type} (out : Pool Id Score → Action Id Score → List β)
    {a : Action Id Score} (h : s.step a = some s') (actions : List (Action Id Score)) :
    emitted out s (a :: actions) = out s a ++ emitted out s' actions := by
  rw [emitted, h]

/-- What the steps take out of the sorted set. -/
def pops (s : Pool Id Score) (actions : List (Action Id Score)) : List Id := emitted popsOf s actions

/-- What a step does to Redis. -/
inductive RedisEffect (s s' : Pool Id Score) (a : Action Id Score) : Prop
  | same (hredis : s'.redis = s.redis) (hpops : popsOf s a = [])
  | enqueued (data : TaskData Id Score) (ha : a = .enqueue data) (hnew : s.known data.taskId = 0)
    (hredis : s'.redis = s.redis.enqueue data) (hpops : popsOf s a = [])
  | popped (hredis : s'.redis = s.redis.zpopmin.1) (hpops : popsOf s a = s.redis.zpopmin.2.toList)
  | marked (id : Id) (status : Status) (hhash : ∃ hash, s.redis.hashes id = some hash)
    (hredis : s'.redis = s.redis.hset id status) (hpops : popsOf s a = [])

theorem redis_effect {a : Action Id Score} (hinv : Inv s) (hstep : s.step a = some s') :
    RedisEffect s s' a := by
  cases a with
  | enqueue data =>
    obtain ⟨hunknown, rfl⟩ := enqueue_effect hstep
    exact .enqueued data rfl hunknown rfl rfl
  | start workerCount =>
    obtain rfl := Option.some.inj hstep
    exact .same rfl rfl
  | stop =>
    obtain rfl := Option.some.inj hstep
    exact .same rfl rfl
  | serve w =>
    obtain ⟨⟨before, cancelling⟩, phase, hw, hserve, -⟩ := serve_effect hstep
    obtain ⟨hphase, hredis, -⟩ | ⟨id, hphase, hredis, -⟩ | ⟨data, hphase, hredis, -⟩ |
      ⟨data, hphase, hredis, -⟩ := serveAt_cases hserve
    · obtain rfl := hphase
      exact .popped hredis (by rw [popsOf, hw]; rfl)
    · obtain rfl := hphase
      exact .same hredis (by rw [popsOf, hw]; rfl)
    · obtain rfl := hphase
      exact .marked data.taskId .running (hinv.of_held hw data.taskId rfl).1 hredis
        (by rw [popsOf, hw]; rfl)
    · obtain rfl := hphase
      exact .marked data.taskId .completed (hinv.of_held hw data.taskId rfl).1 hredis
        (by rw [popsOf, hw]; rfl)
  | resume w =>
    obtain ⟨worker, phase, -, -, rfl⟩ := resume_effect hstep
    exact .same rfl rfl
  | fail w =>
    obtain ⟨worker, phase, -, -, rfl⟩ := leave_effect (.inl hstep)
    exact .same rfl rfl
  | cancel w =>
    obtain ⟨worker, phase, -, -, rfl⟩ := leave_effect (.inr hstep)
    exact .same rfl rfl
  | late i =>
    obtain ⟨hcommand, rfl⟩ | ⟨id, status, hcommand, rfl⟩ := late_effect hstep
    · exact .popped rfl (by rw [popsOf, hcommand])
    · exact .marked id status (hinv.of_dropped (hinv.late id status (List.mem_of_getElem? hcommand)))
        rfl (by rw [popsOf, hcommand])

omit [LinearOrder Score] in
theorem notMem_queue_of_unknown (hinv : Inv s) {id : Id} (hunknown : s.known id = 0) :
    id ∉ s.redis.queue.map Prod.fst := by
  have htokens := hinv.tokens id
  exact List.count_eq_zero.mp (by rw [queuedIds] at htokens; omega)

/-! ## The order of the pops -/

/-- The ids that are not added by the step, as `p` picks them, leave in the order of the queue. -/
theorem popsOf_filter {a : Action Id Score} (hinv : Inv s) (hstep : s.step a = some s') {p : Id → Bool}
    (hp : ∀ data, a = .enqueue data → p data.taskId = false) :
    (popsOf s a).filter p ++ (s'.redis.inOrder.map Prod.fst).filter p =
      (s.redis.inOrder.map Prod.fst).filter p := by
  have hqueue : ∀ (added out : List (Id × Score)),
      Drains itemKey s.redis.queue added out s'.redis.queue → (∀ item ∈ added, p item.1 = false) →
      popsOf s a = out.map Prod.fst → (popsOf s a).filter p ++
        (s'.redis.inOrder.map Prod.fst).filter p = (s.redis.inOrder.map Prod.fst).filter p := by
    intro added out hdrains hadded hout
    have hfilter := hdrains.filter (p := p ∘ Prod.fst) hadded
    rw [hout, List.filter_map, List.filter_map, List.filter_map, ← List.map_append]
    exact congrArg (List.map Prod.fst) hfilter
  cases redis_effect hinv hstep with
  | same hredis hpops =>
    apply hqueue [] [] _ (by simp) hpops
    rw [hredis]
    exact .stay _
  | enqueued data ha hnew hredis hpops =>
    apply hqueue [(data.taskId, data.predictedMs)] [] _ _ hpops
    · rw [hredis, Redis.queue_enqueue _ _ (notMem_queue_of_unknown hinv hnew)]
      exact .push _ _
    · intro item hitem
      rw [List.mem_singleton.mp hitem]
      exact hp data ha
  | popped hredis hpops =>
    cases hleast : extractLeast itemKey s.redis.queue with
    | none =>
      rw [Redis.zpopmin_of_none hleast] at hredis hpops
      apply hqueue [] [] _ (by simp) hpops
      rw [hredis]
      exact .stay _
    | some least =>
      obtain ⟨item, rest⟩ := least
      rw [Redis.zpopmin_of_some hleast] at hredis hpops
      apply hqueue [] [item] _ (by simp) hpops
      rw [hredis]
      exact .pop hleast
  | marked id status hhash hredis hpops =>
    apply hqueue [] [] _ (by simp) hpops
    rw [hredis]
    exact .stay _

theorem pops_filter (hinv : Inv s) (h : Runs s actions s') {p : Id → Bool}
    (hp : ∀ data, Action.enqueue data ∈ actions → p data.taskId = false) :
    (pops s actions).filter p ++ (s'.redis.inOrder.map Prod.fst).filter p =
      (s.redis.inOrder.map Prod.fst).filter p := by
  induction h with
  | nil s => rfl
  | @cons s t u a actions hstep _ ih =>
    have hrest := ih (inv_step hstep hinv) fun data hmem => hp data (List.mem_cons_of_mem _ hmem)
    have hfirst := popsOf_filter hinv hstep (p := p) fun data ha =>
      hp data (ha ▸ List.mem_cons_self)
    rw [pops, emitted_cons popsOf hstep, List.filter_append, List.append_assoc]
    change _ ++ ((pops t actions).filter p ++ _) = _
    rw [hrest, hfirst]

/-- A task that is enqueued on the way is not queued at the start. -/
theorem unknown_of_enqueued (hinv : Inv s) (h : Runs s actions s') {data : TaskData Id Score}
    (hmem : Action.enqueue data ∈ actions) : s.known data.taskId = 0 := by
  induction h with
  | nil s => cases hmem
  | @cons s t u a actions hstep _ ih =>
    rcases List.mem_cons.mp hmem with rfl | hmem
    · exact (enqueue_effect hstep).1
    · have hlater := ih (inv_step hstep hinv) hmem
      by_contra hne
      have hknown : s.known data.taskId = 1 := by
        have := known_le_one s data.taskId
        omega
      have hrun : t.known data.taskId = 1 :=
        (known_run hinv (.single hstep) data.taskId).mpr (.inl hknown)
      omega

/-- The tasks that are queued at one moment leave the queue in the order that they have then, whoever pops
them and whatever is enqueued later. -/
theorem tasks_leave_in_order {actions actions' : List (Action Id Score)} {s t : Pool Id Score}
    (h : Runs {} actions s) (h' : Runs s actions' t) :
    (pops s actions').filter (fun id => id ∈ s.queuedIds) ++
        (t.redis.inOrder.map Prod.fst).filter (fun id => id ∈ s.queuedIds) =
      s.redis.inOrder.map Prod.fst ∧
    ((∀ data, Action.enqueue data ∉ actions') →
      pops s actions' ++ t.redis.inOrder.map Prod.fst = s.redis.inOrder.map Prod.fst) := by
  have hinv : Inv s := h.preserves (fun _ _ _ => inv_step) inv_empty
  constructor
  · rw [pops_filter hinv h']
    · apply List.filter_eq_self.mpr
      intro id hid
      obtain ⟨item, hitem, rfl⟩ := List.mem_map.mp hid
      have hmem := (sortBy_perm itemKey s.redis.queue).subset hitem
      exact decide_eq_true (List.mem_map_of_mem hmem)
    · intro data hmem
      apply decide_eq_false
      exact notMem_queue_of_unknown hinv (unknown_of_enqueued hinv h' hmem)
  · intro hnone
    have hall := pops_filter (p := fun _ => true) hinv h' fun data hmem => absurd hmem (hnone data)
    simpa using hall

/-! ## What `peek` shows -/

/-- The hash of the task holds its data. -/
def HasData (s : Pool Id Score) (id : Id) (data : TaskData Id Score) : Prop :=
  ∃ hash, s.redis.hashes id = some hash ∧ hash.data = some data

/-- The data of a task are never changed. -/
theorem hasData_step {a : Action Id Score} (hinv : Inv s) (hstep : s.step a = some s') {id : Id}
    {data : TaskData Id Score} (h : s.HasData id data) : s'.HasData id data := by
  obtain ⟨hash, hhash, hdata⟩ := h
  cases redis_effect hinv hstep with
  | same hredis hpops => exact ⟨hash, by rw [hredis, hhash], hdata⟩
  | popped hredis hpops => exact ⟨hash, by rw [hredis, Redis.hashes_zpopmin, hhash], hdata⟩
  | enqueued new ha hnew hredis hpops =>
    have hne : id ≠ new.taskId := by
      rintro rfl
      rw [known, hhash] at hnew
      cases hnew
    exact ⟨hash, by rw [hredis, Redis.hashes_enqueue, Function.update_of_ne hne, hhash], hdata⟩
  | marked id' status hold hredis hpops =>
    obtain ⟨old, hold⟩ := hold
    rw [HasData, hredis, Redis.hashes_hset hold]
    by_cases heq : id = id'
    · rw [heq] at hhash ⊢
      obtain rfl := Option.some.inj (hold.symm.trans hhash)
      exact ⟨_, Function.update_self .., hdata⟩
    · exact ⟨hash, by rw [Function.update_of_ne heq, hhash], hdata⟩

theorem hasData_run (hinv : Inv s) (h : Runs s actions s') {id : Id} {data : TaskData Id Score}
    (hdata : s.HasData id data) : s'.HasData id data := by
  induction h with
  | nil s => exact hdata
  | cons hstep _ ih => exact ih (inv_step hstep hinv) (hasData_step hinv hstep hdata)

/-- A task that is queued has its prediction as score. -/
def Scored (s : Pool Id Score) : Prop :=
  ∀ item ∈ s.redis.queue, ∃ data, s.HasData item.1 data ∧ data.taskId = item.1 ∧
    data.predictedMs = item.2

theorem scored_step {a : Action Id Score} (hstep : s.step a = some s') (hs : Inv s ∧ Scored s) :
    Inv s' ∧ Scored s' := by
  obtain ⟨hinv, hscored⟩ := hs
  have hold : ∀ item ∈ s.redis.queue, ∃ data, s'.HasData item.1 data ∧ data.taskId = item.1 ∧
      data.predictedMs = item.2 := by
    intro item hitem
    obtain ⟨data, hdata, hid, hscore⟩ := hscored item hitem
    exact ⟨data, hasData_step hinv hstep hdata, hid, hscore⟩
  refine ⟨inv_step hstep hinv, ?_⟩
  cases redis_effect hinv hstep with
  | same hredis hpops =>
    intro item hitem
    rw [hredis] at hitem
    exact hold item hitem
  | popped hredis hpops =>
    intro item hitem
    rw [hredis] at hitem
    apply hold item
    cases hleast : extractLeast itemKey s.redis.queue with
    | none => rwa [Redis.zpopmin_of_none hleast] at hitem
    | some least =>
      rw [Redis.zpopmin_of_some hleast] at hitem
      exact (extractLeast_perm _ hleast).symm.subset (List.mem_cons_of_mem _ hitem)
  | enqueued data ha hnew hredis hpops =>
    intro item hitem
    rw [hredis, Redis.queue_enqueue _ _ (notMem_queue_of_unknown hinv hnew)] at hitem
    rcases List.mem_append.mp hitem with hitem | hitem
    · exact hold item hitem
    · rw [List.mem_singleton.mp hitem]
      refine ⟨data, ⟨⟨some data, .pending⟩, ?_, rfl⟩, rfl, rfl⟩
      rw [hredis, Redis.hashes_enqueue, Function.update_self]
  | marked id status hhash hredis hpops =>
    intro item hitem
    rw [hredis] at hitem
    exact hold item hitem

omit [LinearOrder Id] [LinearOrder Score] in
theorem scored_empty : Scored ({} : Pool Id Score) := fun _ hitem => nomatch hitem

omit [LinearOrder Id] [LinearOrder Score] in
/-- Every member is found, with the data that go with its score. -/
theorem filterMap_reads {items : List (Id × Score)} {reads : List (Redis Id Score)}
    (hlength : items.length ≤ reads.length)
    (hfound : ∀ r ∈ reads, ∀ item ∈ items, ∃ hash data, r.hashes item.1 = some hash ∧
      hash.data = some data ∧ data.taskId = item.1 ∧ data.predictedMs = item.2) :
    List.Forall₂ (fun (item : Id × Score) (x : TaskHash Id Score × Score) =>
        x.2 = item.2 ∧ ∃ data, x.1.data = some data ∧ data.taskId = item.1 ∧
          data.predictedMs = item.2) items
      ((items.zip reads).filterMap fun x => (x.2.hashes x.1.1).map fun hash => (hash, x.1.2)) := by
  induction items generalizing reads with
  | nil => exact List.Forall₂.nil
  | cons item items ih =>
    cases reads with
    | nil => simp at hlength
    | cons r reads =>
      obtain ⟨hash, data, hhash, hdata, hid, hscore⟩ :=
        hfound r List.mem_cons_self item List.mem_cons_self
      rw [List.zip_cons_cons, List.filterMap_cons_some (by rw [hhash]; rfl)]
      apply List.Forall₂.cons
      · exact ⟨rfl, data, hdata, hid, hscore⟩
      · apply ih (by simpa using hlength)
        intro r' hr' item' hitem'
        exact hfound r' (List.mem_cons_of_mem _ hr') item' (List.mem_cons_of_mem _ hitem')

/-- `peek(n)` lists the first `n` tasks in the order of the queue, each with its data and its prediction as
score; the workers may go on between the reads of the hashes. -/
theorem peek_shows_order {actions : List (Action Id Score)} {s : Pool Id Score}
    (h : Runs {} actions s) {n : ℤ} (hn : 1 ≤ n) (reads : List (Pool Id Score))
    (hreads : ∀ t ∈ reads, ∃ actions', Runs s actions' t)
    (hlength : min n.toNat s.redis.length ≤ reads.length) :
    List.Forall₂ (fun (item : Id × Score) (x : TaskHash Id Score × Score) =>
        x.2 = item.2 ∧ ∃ data, x.1.data = some data ∧ data.taskId = item.1 ∧
          data.predictedMs = item.2)
      (s.redis.inOrder.take n.toNat) (s.redis.peek (reads.map Pool.redis) n) := by
  obtain ⟨hinv, hscored⟩ : Inv s ∧ Scored s :=
    h.preserves (P := fun s => Inv s ∧ Scored s) (fun _ _ _ => scored_step)
      ⟨inv_empty, scored_empty⟩
  rw [Redis.peek, Redis.zrange_take _ hn]
  apply filterMap_reads
  · rw [List.length_take, List.length_map, Redis.length_inOrder]
    exact hlength
  · intro r hr item hitem
    obtain ⟨t, ht, rfl⟩ := List.mem_map.mp hr
    obtain ⟨actions', hrun⟩ := hreads t ht
    have hmem := (sortBy_perm itemKey s.redis.queue).subset (List.mem_of_mem_take hitem)
    obtain ⟨data, hdata, hid, hscore⟩ := hscored item hmem
    obtain ⟨hash, hhash, heq⟩ := hasData_run hinv hrun hdata
    exact ⟨hash, data, hhash, heq, hid, hscore⟩

/-! ## Three tasks -/

def report : TaskData ℕ ℕ := ⟨3, "generate_report", 64, 2000⟩

def email : TaskData ℕ ℕ := ⟨9, "send_email", 8, 30⟩

/-- Three tasks are there when the worker pops one, and a shorter one comes before the next pop. -/
def threeQueued : List (Action ℕ ℕ) := [.enqueue report, .enqueue resize, .enqueue email, .start 1]

def thenPopped : List (Action ℕ ℕ) :=
  [.resume 0, .serve 0, .enqueue ⟨1, "send_email", 1, 5⟩, .fail 0, .serve 0, .fail 0, .serve 0]

def poolQueued : Pool ℕ ℕ where
  redis := ⟨[(3, 2000), (7, 30), (9, 30)], Function.update (Function.update (Function.update
    (fun _ => none) 3 (some ⟨some report, .pending⟩)) 7 (some ⟨some resize, .pending⟩)) 9
    (some ⟨some email, .pending⟩)⟩
  workers := [⟨.created, false⟩]
  running := true

def poolPopped : Pool ℕ ℕ where
  redis := ⟨[(3, 2000)], Function.update poolQueued.redis.hashes 1
    (some ⟨some ⟨1, "send_email", 1, 5⟩, .pending⟩)⟩
  workers := [⟨.popping (some (some 9)), false⟩]
  running := true
  dropped := [7, 1]

theorem threeQueued_runs : Runs {} threeQueued poolQueued := run_of_exec rfl

theorem thenPopped_runs : Runs poolQueued thenPopped poolPopped := run_of_exec rfl

theorem tasks_leave_in_order_popped :
    (pops poolQueued thenPopped).filter (fun id => id ∈ poolQueued.queuedIds) ++
        (poolPopped.redis.inOrder.map Prod.fst).filter (fun id => id ∈ poolQueued.queuedIds) =
      [7, 9, 3] :=
  (tasks_leave_in_order threeQueued_runs thenPopped_runs).1

theorem peek_shows_order_popped : List.Forall₂ (fun (item : ℕ × ℕ) (x : TaskHash ℕ ℕ × ℕ) =>
      x.2 = item.2 ∧ ∃ data, x.1.data = some data ∧ data.taskId = item.1 ∧ data.predictedMs = item.2)
    [(7, 30), (9, 30)] (poolQueued.redis.peek ([poolQueued, poolPopped].map Pool.redis) 2) := by
  refine peek_shows_order threeQueued_runs (n := 2) (by decide) [poolQueued, poolPopped] ?_ (by decide)
  intro t ht
  rcases List.mem_cons.mp ht with rfl | ht
  · exact ⟨[], .nil _⟩
  · exact ⟨thenPopped, List.mem_singleton.mp ht ▸ thenPopped_runs⟩

end Pool

end Chronoq.Demo
