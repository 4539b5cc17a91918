import WasmerNapi.HostJs.Finalizers
import WasmerNapi.Lib.LinkedList

/-!
# The queues of ready finalizers

`wasmer_napi_finalizer_queue_create` in `src/src/snapi_js.rs`: the ids that are ready are in a
doubly linked list of nodes, in the order they became ready, and a map finds the node of an id. Two
queues share the ids, the watched objects and the host's registry. What the lists hold is the
`Registry` of lists that the agent's finalizers are drained from.

The host may report any id at any time, and any id may be removed or retried, on either queue.
-/

namespace WasmerNapi.HostJs.Finalizers

open Function (update update_self update_of_ne update_eq_self)
open List (mem_append mem_cons count_cons_of_ne count_cons)
open Run

/-- Nodes are numbered as they are made. -/
structure ReadyQueue where
  ids : ℕ → ℕ := fun _ => 0
  links : LinkedList.Links ℕ := {}
  made : ℕ := 0
  ready : ℕ → Option ℕ := fun _ => none

namespace ReadyQueue

def unqueue (q : ReadyQueue) (id : ℕ) : ReadyQueue :=
  match q.ready id with
  | none => q
  | some node =>
    { q with links := q.links.unlink node, ready := update q.ready id none }

def enqueue (q : ReadyQueue) (id : ℕ) : ReadyQueue :=
  match q.ready id with
  | some _ => q
  | none =>
    { ids := update q.ids q.made id
      links := q.links.append q.made
      made := q.made + 1
      ready := update q.ready id (some q.made) }

/-- `none` is the answer 0. -/
def take (q : ReadyQueue) : Option ℕ × ReadyQueue :=
  match q.links.head with
  | none => (none, q)
  | some node => (some (q.ids node), q.unqueue (q.ids node))

/-- The list holds the ids, and so does the map. -/
structure Holds (q : ReadyQueue) (nodes ids : List ℕ) : Prop where
  ordered : q.links.Ordered nodes
  map_ids : nodes.map q.ids = ids
  nodup : ids.Nodup
  made : ∀ node ∈ nodes, node < q.made
  ready : ∀ id node, q.ready id = some node ↔ node ∈ nodes ∧ q.ids node = id

end ReadyQueue

/-- What the two queues share, and the queues. -/
structure Queues where
  watched : ℕ → Option Queue := fun _ => none
  cells : ℕ → Option ℕ := fun _ => none
  next : ℕ := 1
  queues : Queue → ReadyQueue := fun _ => {}

namespace Queues

def setQueue (a : Queues) (queue : Queue) (q : ReadyQueue) : Queues :=
  { a with queues := update a.queues queue q }

def register (a : Queues) (queue : Queue) (target : ℕ) : Option (ℕ × Queues) :=
  if a.next > 9007199254740991 then none
  else some (a.next, { a with
    next := a.next + 1
    cells := update a.cells a.next (some target)
    watched := update a.watched a.next (some queue) })

def enqueue (a : Queues) (queue : Queue) (id : ℕ) : Queues :=
  a.setQueue queue ((a.queues queue).enqueue id)

def unqueue (a : Queues) (queue : Queue) (id : ℕ) : Queues :=
  a.setQueue queue ((a.queues queue).unqueue id)

def take (a : Queues) (queue : Queue) : Option ℕ × Queues :=
  ((a.queues queue).take.1, a.setQueue queue (a.queues queue).take.2)

def remove (a : Queues) (queue : Queue) (id : ℕ) : Queues :=
  let a := match a.watched id with
    | none => a
    | some _ => { a with
        watched := update a.watched id none
        cells := update a.cells id none }
  a.unqueue queue id

/-- The callback of the host's registry. -/
def report (a : Queues) (id : ℕ) : Queues :=
  let a := { a with cells := update a.cells id none }
  match a.watched id with
  | none => a
  | some queue => { a with watched := update a.watched id none }.enqueue queue id

/-- The registry of lists. -/
structure Refines (a : Queues) (g : Registry) : Prop where
  watched : a.watched = g.watched
  cells : a.cells = g.cells
  next : a.next = g.next
  holds : ∀ queue, ∃ nodes, (a.queues queue).Holds nodes (g.ready queue)

end Queues

/-! ## The list and the map -/

namespace ReadyQueue

variable {q : ReadyQueue} {nodes ids : List ℕ} {id : ℕ}

theorem holds_empty : ({} : ReadyQueue).Holds [] [] where
  ordered := LinkedList.ordered_nil
  map_ids := rfl
  nodup := List.nodup_nil
  made node h := by cases h
  ready id node := by simp

theorem Holds.isSome_ready (h : q.Holds nodes ids) : (q.ready id).isSome = true ↔ id ∈ ids := by
  rw [Option.isSome_iff_exists, ← h.map_ids, List.mem_map]
  exact exists_congr fun node => h.ready id node

theorem Holds.enqueue (h : q.Holds nodes ids) (id : ℕ) :
    ∃ nodes', (q.enqueue id).Holds nodes' (if id ∈ ids then ids else ids ++ [id]) := by
  unfold ReadyQueue.enqueue
  cases hready : q.ready id with
  | some node =>
    have hmem : id ∈ ids := h.isSome_ready.1 (by rw [hready]; rfl)
    rw [if_pos hmem]
    exact ⟨nodes, h⟩
  | none =>
    have hmem : id ∉ ids := by
      rw [← h.isSome_ready, hready]
      exact Bool.false_ne_true
    rw [if_neg hmem]
    dsimp only
    have hfresh : q.made ∉ nodes := fun hin => Nat.lt_irrefl _ (h.made _ hin)
    have hsame : nodes.map (update q.ids q.made id) = ids := by
      rw [← h.map_ids]
      apply List.map_congr_left
      intro node hnode
      have := h.made node hnode
      exact update_of_ne (by omega) ..
    refine ⟨nodes ++ [q.made], LinkedList.ordered_append h.ordered hfresh, ?_, ?_, ?_, ?_⟩
    · rw [List.map_append, hsame]
      exact congrArg (fun x => ids ++ [x]) (update_self ..)
    · rw [List.nodup_append]
      refine ⟨h.nodup, List.nodup_singleton id, ?_⟩
      intro x hx y hy
      obtain rfl := List.mem_singleton.1 hy
      exact fun heq => hmem (heq ▸ hx)
    · intro node hnode
      change node < q.made + 1
      rcases mem_append.1 hnode with hnode | hnode
      · have := h.made node hnode
        omega
      · obtain rfl := List.mem_singleton.1 hnode
        omega
    · intro id' node
      change update q.ready id (some q.made) id' = some node ↔
        node ∈ nodes ++ [q.made] ∧ update q.ids q.made id node = id'
      rw [mem_append, List.mem_singleton]
      by_cases hnode : node = q.made
      · subst hnode
        rw [update_self]
        by_cases hid : id' = id
        · subst hid
          simp
        · rw [update_of_ne hid, h.ready]
          simp [hfresh, Ne.symm hid]
      · rw [update_of_ne hnode]
        by_cases hid : id' = id
        · subst hid
          have hno : ¬ (node ∈ nodes ∧ q.ids node = id') := by
            rw [← h.ready, hready]
            exact nofun
          rw [update_self]
          simp only [hnode, or_false, Option.some.injEq, Ne.symm hnode, false_iff]
          exact hno
        · rw [update_of_ne hid, h.ready]
          simp [hnode]

theorem Holds.unqueue (h : q.Holds nodes ids) :
    ∃ nodes', (q.unqueue id).Holds nodes' (ids.erase id) := by
  unfold ReadyQueue.unqueue
  cases hready : q.ready id with
  | none =>
    have hmem : id ∉ ids := by
      rw [← h.isSome_ready, hready]
      exact Bool.false_ne_true
    rw [List.erase_of_not_mem hmem]
    exact ⟨nodes, h⟩
  | some node =>
    obtain ⟨hnode, rfl⟩ := (h.ready id node).1 hready
    obtain ⟨before, after, rfl⟩ := List.append_of_mem hnode
    have hids := h.map_ids
    rw [List.map_append, List.map_cons] at hids
    have hnodup := h.nodup
    rw [← hids] at hnodup
    have hbefore : q.ids node ∉ before.map q.ids := fun hin =>
      (List.nodup_append.1 hnodup).2.2 _ hin _ (List.mem_cons_self ..) rfl
    have hafter : q.ids node ∉ after.map q.ids :=
      (List.nodup_cons.1 (List.nodup_append.1 hnodup).2.1).1
    have herase : ids.erase (q.ids node) = (before ++ after).map q.ids := by
      rw [← hids, List.erase_append_right _ hbefore, List.erase_cons_head, List.map_append]
    refine ⟨before ++ after, LinkedList.ordered_unlink h.ordered, herase.symm, h.nodup.erase _, ?_, ?_⟩
    · intro n hn
      apply h.made
      rw [mem_append] at hn ⊢
      exact hn.imp_right (List.mem_cons_of_mem _)
    · intro id' n
      change update q.ready (q.ids node) none id' = some n ↔ _
      by_cases hid : id' = q.ids node
      · subst hid
        rw [update_self]
        refine iff_of_false nofun ?_
        rintro ⟨hn, hsame⟩
        rcases mem_append.1 hn with hn | hn
        · exact hbefore (hsame ▸ List.mem_map_of_mem hn)
        · exact hafter (hsame ▸ List.mem_map_of_mem hn)
      · rw [update_of_ne hid, h.ready]
        simp only [mem_append, mem_cons]
        constructor
        · rintro ⟨hn | rfl | hn, rfl⟩
          · exact ⟨Or.inl hn, rfl⟩
          · exact absurd rfl hid
          · exact ⟨Or.inr hn, rfl⟩
        · rintro ⟨hn | hn, rfl⟩
          · exact ⟨Or.inl hn, rfl⟩
          · exact ⟨Or.inr (Or.inr hn), rfl⟩

theorem Holds.take_nil (h : q.Holds nodes []) : q.take = (none, q) := by
  have hnodes : nodes = [] := List.map_eq_nil_iff.1 h.map_ids
  unfold ReadyQueue.take
  rw [h.ordered.head, hnodes]
  rfl

theorem Holds.take_cons (h : q.Holds nodes (id :: ids)) : q.take = (some id, q.unqueue id) := by
  cases nodes with
  | nil => cases h.map_ids
  | cons node nodes =>
    obtain ⟨rfl, -⟩ := List.cons.inj h.map_ids
    unfold ReadyQueue.take
    rw [h.ordered.head]
    rfl

end ReadyQueue

/-! ## The queues refine the lists -/

namespace Queues

variable {a : Queues} {g : Registry} {queue : Queue} {id target : ℕ}

theorem refines_init : ({} : Queues).Refines {} where
  watched := rfl
  cells := rfl
  next := rfl
  holds _ := ⟨[], ReadyQueue.holds_empty⟩

/-- One queue's list changes. -/
theorem Refines.setQueue (h : a.Refines g) (queue : Queue) {q : ReadyQueue} {ids : List ℕ}
    (hq : ∃ nodes, q.Holds nodes ids) :
    (a.setQueue queue q).Refines { g with ready := update g.ready queue ids } := by
  refine ⟨h.watched, h.cells, h.next, ?_⟩
  intro other
  by_cases hother : other = queue
  · subst hother
    simpa [Queues.setQueue] using hq
  · simpa [Queues.setQueue, hother] using h.holds other

theorem Refines.enqueue (h : a.Refines g) : (a.enqueue queue id).Refines (g.enqueue queue id) := by
  obtain ⟨nodes, hholds⟩ := h.holds queue
  have hset := h.setQueue queue (hholds.enqueue id)
  unfold Registry.enqueue
  split_ifs with hmem
  · rw [if_pos hmem, update_eq_self] at hset
    exact hset
  · rw [if_neg hmem] at hset
    exact hset

theorem Refines.unqueue (h : a.Refines g) : (a.unqueue queue id).Refines (g.unqueue queue id) := by
  obtain ⟨nodes, hholds⟩ := h.holds queue
  exact h.setQueue queue hholds.unqueue

theorem Refines.register (h : a.Refines g) :
    (a.register queue target = none ∧ g.register queue target = none) ∨
      ∃ id a' g', a.register queue target = some (id, a') ∧
        g.register queue target = some (id, g') ∧ a'.Refines g' := by
  unfold Queues.register Registry.register
  rw [h.next]
  by_cases hlast : 2 ^ 53 - 1 < g.next
  · rw [if_pos hlast, if_pos (by omega)]
    exact Or.inl ⟨rfl, rfl⟩
  · rw [if_neg hlast, if_neg (by omega)]
    refine Or.inr ⟨_, _, _, rfl, rfl, ?_, ?_, rfl, h.holds⟩
    · rw [h.watched]
    · rw [h.cells]

theorem Refines.remove (h : a.Refines g) : (a.remove queue id).Refines (g.remove queue id) := by
  unfold Queues.remove Registry.remove
  rw [h.watched]
  cases g.watched id with
  | none => exact h.unqueue
  | some other =>
    apply Refines.unqueue
    exact ⟨rfl, by rw [h.cells], h.next, h.holds⟩

theorem Refines.report (h : a.Refines g) : (a.report id).Refines (g.report id) := by
  have hcells : ({ a with cells := update a.cells id none } : Queues).Refines
      { g with cells := update g.cells id none } :=
    ⟨h.watched, by rw [h.cells], h.next, h.holds⟩
  unfold Queues.report Registry.report
  simp only [h.watched]
  cases g.watched id with
  | none => exact ⟨rfl, by rw [h.cells], h.next, h.holds⟩
  | some other =>
    apply Refines.enqueue
    exact ⟨rfl, by rw [h.cells], h.next, h.holds⟩

theorem Refines.take (h : a.Refines g) : (a.take queue).1 = (g.ready queue).head? ∧
    (a.take queue).2.Refines ((g.ready queue).head?.elim g (g.unqueue queue)) := by
  obtain ⟨nodes, hholds⟩ := h.holds queue
  unfold Queues.take
  cases hready : g.ready queue with
  | nil =>
    rw [hready] at hholds
    rw [hholds.take_nil]
    refine ⟨rfl, ?_⟩
    have hset := h.setQueue queue ⟨nodes, hholds⟩
    rwa [← hready, update_eq_self] at hset
  | cons id ids =>
    rw [hready] at hholds
    rw [hholds.take_cons]
    exact ⟨rfl, h.unqueue⟩

/-! ## What is done to the queues

`reported` is the host's report of an object that was watched. -/

inductive Event where
  | registered (queue : Queue) (id : ℕ)
  | reported (queue : Queue) (id : ℕ)
  | retried (queue : Queue) (id : ℕ)
  | took (queue : Queue) (id : ℕ)
  | removed (queue : Queue) (id : ℕ)
  deriving DecidableEq

/-- `log` has the newest event first. -/
structure State where
  agent : Queues := {}
  log : List Event := []

inductive Act where
  | register (queue : Queue) (target : ℕ)
  | report (id : ℕ)
  | take (queue : Queue)
  | remove (queue : Queue) (id : ℕ)
  | retry (queue : Queue) (id : ℕ)

def step (s : State) : Act → Option State
  | .register queue target => match s.agent.register queue target with
    | none => some s
    | some (id, agent) => some { agent, log := .registered queue id :: s.log }
  | .report id => match s.agent.watched id with
    | none => some { s with agent := s.agent.report id }
    | some queue => some { agent := s.agent.report id, log := .reported queue id :: s.log }
  | .take queue => match s.agent.take queue with
    | (none, agent) => some { s with agent }
    | (some id, agent) => some { agent, log := .took queue id :: s.log }
  | .remove queue id => some { agent := s.agent.remove queue id, log := .removed queue id :: s.log }
  | .retry queue id => some { agent := s.agent.enqueue queue id, log := .retried queue id :: s.log }

/-- The ids that became ready on the queue and were neither taken nor removed since, in the order
    they did. -/
def waiting (queue : Queue) : List Event → List ℕ
  | [] => []
  | .registered _ _ :: log => waiting queue log
  | .reported queue' id :: log | .retried queue' id :: log =>
    if queue' = queue ∧ id ∉ waiting queue log then waiting queue log ++ [id] else waiting queue log
  | .took queue' id :: log | .removed queue' id :: log =>
    if queue' = queue then (waiting queue log).erase id else waiting queue log

/-- The id has been issued. -/
def Issued (id : ℕ) (log : List Event) : Prop := ∃ queue, .registered queue id ∈ log

structure Delivers (s : State) : Prop where
  /-- List and map hold the same ids. -/
  lists : ∀ queue, ∃ nodes, (s.agent.queues queue).links.Ordered nodes ∧
    nodes.map (s.agent.queues queue).ids = waiting queue s.log ∧
    ∀ id, ((s.agent.queues queue).ready id).isSome = true ↔ id ∈ waiting queue s.log
  nodup : ∀ queue, (waiting queue s.log).Nodup
  /-- A take answers with the first that is waiting, and with nothing only if none is. -/
  answers : ∀ queue, (s.agent.take queue).1 = (waiting queue s.log).head?
  /-- What is taken was the first to become ready. -/
  first : ∀ newer queue id older, s.log = newer ++ .took queue id :: older →
    (waiting queue older).head? = some id
  /-- It is taken once for a collection or a retry. -/
  due : ∀ queue id, s.log.count (.took queue id) + (waiting queue s.log).count id ≤
    s.log.count (.reported queue id) + s.log.count (.retried queue id)
  own : ∀ queue id, s.log.count (.reported queue id) ≤ s.log.count (.registered queue id)
  once : ∀ id, s.log.count (.registered .finalizers id) + s.log.count (.registered .buffers id) ≤ 1
  /-- An id that is removed before it is taken is not, unless it is retried. -/
  removed : ∀ newer queue queue' id older, s.log = newer ++ .removed queue' id :: older →
    Issued id older → queue' = queue ∨ id ∉ waiting queue older → .took queue id ∈ newer →
    .retried queue id ∈ newer
  /-- An id that is still to be reported is watched for its queue. -/
  watched : ∀ queue id, .registered queue id ∈ s.log → .reported queue id ∉ s.log →
    (∀ queue', .removed queue' id ∉ s.log) → s.agent.watched id = some queue

/-! ## The invariant -/

/-- The registry of lists is what the log says. -/
structure Inv (g : Registry) (log : List Event) : Prop where
  ready : ∀ queue, g.ready queue = waiting queue log
  nodup : ∀ queue, (waiting queue log).Nodup
  next : ∀ id, Issued id log → id < g.next
  watched : ∀ id queue, g.watched id = some queue →
    log.count (.reported queue id) + 1 ≤ log.count (.registered queue id)
  own : ∀ queue id, log.count (.reported queue id) ≤ log.count (.registered queue id)
  once : ∀ id, log.count (.registered .finalizers id) + log.count (.registered .buffers id) ≤ 1
  first : ∀ newer queue id older, log = newer ++ .took queue id :: older →
    (waiting queue older).head? = some id
  due : ∀ queue id, log.count (.took queue id) + (waiting queue log).count id ≤
    log.count (.reported queue id) + log.count (.retried queue id)
  removed : ∀ newer queue queue' id older, log = newer ++ .removed queue' id :: older →
    Issued id older → queue' = queue ∨ id ∉ waiting queue older → .retried queue id ∉ newer →
    .took queue id ∉ newer ∧ id ∉ waiting queue log ∧ g.watched id = none
  stillWatched : ∀ queue id, .registered queue id ∈ log → .reported queue id ∉ log →
    (∀ queue', .removed queue' id ∉ log) → g.watched id = some queue

theorem inv_init : Inv {} [] where
  ready _ := rfl
  nodup _ := List.nodup_nil
  next id h := by
    obtain ⟨queue, h⟩ := h
    cases h
  watched id queue h := by cases h
  own _ _ := le_rfl
  once _ := Nat.zero_le _
  first newer queue id older h := by simp at h
  due _ _ := le_rfl
  removed newer queue queue' id older h := by simp at h
  stillWatched queue id h := by cases h

variable {g g' : Registry} {log : List Event} {queue other : Queue} {id target : ℕ} {e : Event}

theorem ready_enqueue : (g.enqueue queue id).ready other =
    if queue = other ∧ id ∉ g.ready other then g.ready other ++ [id] else g.ready other := by
  unfold Registry.enqueue
  by_cases hq : queue = other
  · subst hq
    by_cases hmem : id ∈ g.ready queue <;> simp [hmem]
  · have hq' : other ≠ queue := Ne.symm hq
    split_ifs <;> simp_all

theorem ready_unqueue : (g.unqueue queue id).ready other =
    if queue = other then (g.ready other).erase id else g.ready other := by
  unfold Registry.unqueue
  by_cases hq : queue = other
  · subst hq
    simp
  · simp [hq, Ne.symm hq]

theorem ready_remove : (g.remove queue id).ready other =
    if queue = other then (g.ready other).erase id else g.ready other := by
  unfold Registry.remove
  cases g.watched id <;> exact ready_unqueue

theorem watched_remove (k : ℕ) :
    (g.remove queue id).watched k = if k = id then none else g.watched k := by
  unfold Registry.remove Registry.unqueue
  cases hwatched : g.watched id with
  | none =>
    by_cases hk : k = id
    · simp [hk, hwatched]
    · simp [hk]
  | some queue' => exact Function.update_apply ..

theorem next_remove : (g.remove queue id).next = g.next := by
  unfold Registry.remove Registry.unqueue
  cases g.watched id <;> rfl

theorem mem_waiting_of_head? (h : (waiting queue log).head? = some id) : id ∈ waiting queue log :=
  List.mem_of_head? h

theorem first_cons (hi : Inv g log)
    (he : ∀ queue id, e = .took queue id → (waiting queue log).head? = some id) :
    ∀ newer queue id older, e :: log = newer ++ .took queue id :: older →
      (waiting queue older).head? = some id := by
  intro newer queue id older heq
  rcases List.cons_eq_append_iff.1 heq with ⟨-, hhead⟩ | ⟨newer, -, hrest⟩
  · obtain ⟨htook, rfl⟩ := List.cons.inj hhead
    exact he queue id htook.symm
  · exact hi.first newer queue id older hrest

/-- What a step keeps of an id that is not to be taken from a queue. -/
structure Keeps (g g' : Registry) (log : List Event) (e : Event) : Prop where
  removed : ∀ queue' id, e = .removed queue' id → g'.watched id = none ∧
    ∀ queue, queue' = queue ∨ id ∉ waiting queue log → id ∉ waiting queue (e :: log)
  out : ∀ queue id, Issued id log → id ∉ waiting queue log → g.watched id = none →
    e ≠ .retried queue id →
      e ≠ .took queue id ∧ id ∉ waiting queue (e :: log) ∧ g'.watched id = none

theorem removed_cons (hi : Inv g log) (hkeeps : Keeps g g' log e) :
    ∀ newer queue queue' id older, e :: log = newer ++ .removed queue' id :: older →
      Issued id older → queue' = queue ∨ id ∉ waiting queue older → .retried queue id ∉ newer →
      .took queue id ∉ newer ∧ id ∉ waiting queue (e :: log) ∧ g'.watched id = none := by
  intro newer queue queue' id older heq hissued hout hretried
  rcases List.cons_eq_append_iff.1 heq with ⟨rfl, hhead⟩ | ⟨newer, rfl, hrest⟩
  · obtain ⟨hremoved, rfl⟩ := List.cons.inj hhead
    obtain ⟨hwatched, hwaiting⟩ := hkeeps.removed queue' id hremoved.symm
    exact ⟨List.not_mem_nil, hwaiting queue hout, hwatched⟩
  · rw [mem_cons, not_or] at hretried
    obtain ⟨htook, hwaiting, hwatched⟩ :=
      hi.removed newer queue queue' id older hrest hissued hout hretried.2
    have hlog : Issued id log := by
      obtain ⟨q, hq⟩ := hissued
      exact ⟨q, by rw [hrest]; exact List.mem_append_right _ (List.mem_cons_of_mem _ hq)⟩
    obtain ⟨hnot, hwaiting', hwatched'⟩ := hkeeps.out queue id hlog hwaiting hwatched (Ne.symm hretried.1)
    refine ⟨?_, hwaiting', hwatched'⟩
    rw [mem_cons, not_or]
    exact ⟨Ne.symm hnot, htook⟩

/-- What is watched and is neither reported nor removed now still is. -/
theorem stillWatched_cons (hi : Inv g log) (he : ∀ queue id, e ≠ .registered queue id)
    (hkept : ∀ queue id, g.watched id = some queue → e ≠ .reported queue id →
      (∀ queue', e ≠ .removed queue' id) → g'.watched id = some queue)
    (queue : Queue) (id : ℕ) (hregistered : .registered queue id ∈ e :: log)
    (hreported : .reported queue id ∉ e :: log) (hremoved : ∀ queue', .removed queue' id ∉ e :: log) :
    g'.watched id = some queue := by
  rw [mem_cons, or_iff_right (Ne.symm (he queue id))] at hregistered
  rw [mem_cons, not_or] at hreported
  have hnot : ∀ queue', e ≠ .removed queue' id ∧ .removed queue' id ∉ log := fun queue' =>
    (not_or.mp fun h => hremoved queue' (mem_cons.mpr h)).imp_left Ne.symm
  exact hkept queue id (hi.stillWatched queue id hregistered hreported.2 fun queue' => (hnot queue').2)
    (Ne.symm hreported.1) fun queue' => (hnot queue').1

theorem Inv.not_issued_next (hi : Inv g log) : ¬ Issued g.next log :=
  fun h => Nat.lt_irrefl _ (hi.next _ h)

theorem count_registered_eq_zero (queue : Queue) (h : ¬ Issued id log) :
    log.count (.registered queue id) = 0 :=
  List.count_eq_zero.2 fun hmem => h ⟨queue, hmem⟩

theorem Inv.registered (hi : Inv g log) (h : g.register queue target = some (id, g')) :
    Inv g' (.registered queue id :: log) := by
  unfold Registry.register at h
  split_ifs at h
  obtain ⟨rfl, rfl⟩ := Prod.mk.inj (Option.some.inj h)
  have hnew := hi.not_issued_next
  refine ⟨hi.ready, hi.nodup, ?_, ?_, ?_, ?_, ?_, ?_, ?_, ?_⟩
  · rintro id ⟨other, hmem⟩
    change id < g.next + 1
    rcases mem_cons.1 hmem with heq | hmem
    · cases heq
      omega
    · have := hi.next id ⟨other, hmem⟩
      omega
  · intro id other hwatched
    change update g.watched g.next (some queue) id = some other at hwatched
    by_cases hid : id = g.next
    · subst hid
      rw [update_self] at hwatched
      cases hwatched
      have hzero := count_registered_eq_zero queue hnew
      have hown := hi.own queue g.next
      rw [List.count_cons_self, count_cons_of_ne (by simp)]
      omega
    · rw [update_of_ne hid] at hwatched
      have := hi.watched id other hwatched
      rw [count_cons_of_ne (by simp), count_cons_of_ne (by simp [Ne.symm hid])]
      exact this
  · intro other id
    rw [count_cons_of_ne (by simp)]
    exact (hi.own other id).trans List.count_le_count_cons
  · intro id
    by_cases hid : id = g.next
    · subst hid
      have hone := count_registered_eq_zero .finalizers hnew
      have htwo := count_registered_eq_zero .buffers hnew
      cases queue <;> simp [hone, htwo]
    · rw [count_cons_of_ne (by simp [Ne.symm hid]), count_cons_of_ne (by simp [Ne.symm hid])]
      exact hi.once id
  · exact first_cons hi nofun
  · intro other id
    rw [count_cons_of_ne (by simp), count_cons_of_ne (by simp),
      count_cons_of_ne (by simp)]
    exact hi.due other id
  · apply removed_cons hi
    refine ⟨nofun, ?_⟩
    intro other id hissued hwaiting hwatched _
    refine ⟨nofun, hwaiting, ?_⟩
    have hid : id ≠ g.next := fun heq => hnew (heq ▸ hissued)
    exact (update_of_ne hid ..).trans hwatched
  · intro other id hregistered hreported hremoved
    rcases mem_cons.1 hregistered with heq | hregistered
    · cases heq
      exact update_self ..
    · have hid : id ≠ g.next := fun heq => hnew (heq ▸ ⟨other, hregistered⟩)
      refine (update_of_ne hid ..).trans ?_
      exact hi.stillWatched other id hregistered (fun h => hreported (List.mem_cons_of_mem _ h))
        fun queue' h => hremoved queue' (List.mem_cons_of_mem _ h)

/-! An id is added to what waits, unless it is there, or is taken out. -/

section

variable {P : Prop} [Decidable P] {ids : List ℕ} {k : ℕ}

theorem nodup_add (h : ids.Nodup) : (if P ∧ id ∉ ids then ids ++ [id] else ids).Nodup := by
  split_ifs with hadd
  · rw [List.nodup_append]
    refine ⟨h, List.nodup_singleton id, ?_⟩
    intro x hx y hy
    obtain rfl := List.mem_singleton.1 hy
    exact fun heq => hadd.2 (heq ▸ hx)
  · exact h

theorem count_add_le : (if P ∧ id ∉ ids then ids ++ [id] else ids).count k ≤
    ids.count k + if P ∧ id = k then 1 else 0 := by
  by_cases hp : P
  · by_cases hid : id = k
    · subst hid
      by_cases hmem : id ∈ ids <;> simp [hp, hmem]
    · by_cases hmem : id ∈ ids <;> simp [hp, hmem, hid]
  · simp [hp]

theorem not_mem_add (h : k ∉ ids) (hk : P → id ≠ k) :
    k ∉ if P ∧ id ∉ ids then ids ++ [id] else ids := by
  split_ifs with hadd
  · rw [mem_append, List.mem_singleton, not_or]
    exact ⟨h, Ne.symm (hk hadd.1)⟩
  · exact h

end

theorem count_other (a : Event) (h : e ≠ a) : (e :: log).count a = log.count a :=
  count_cons_of_ne h

theorem issued_cons (he : ∀ queue, e ≠ .registered queue id) : Issued id (e :: log) ↔ Issued id log := by
  apply exists_congr
  intro queue
  rw [mem_cons, or_iff_right (Ne.symm (he queue))]

/-- What waits after a take or a removal. -/
theorem sublist_erase {P : Prop} [Decidable P] {ids : List ℕ} :
    (if P then ids.erase id else ids).Sublist ids := by
  split_ifs
  · exact List.erase_sublist
  · exact .refl ids

theorem Inv.reported (hi : Inv g log) (h : g.watched id = some queue) :
    Inv (g.report id) (.reported queue id :: log) := by
  have hreport : g.report id = ({ g with
      cells := update g.cells id none
      watched := update g.watched id none } : Registry).enqueue queue id := by
    unfold Registry.report
    simp only [h]
  have hwatched (k : ℕ) : (g.report id).watched k = if k = id then none else g.watched k := by
    rw [hreport]
    unfold Registry.enqueue
    split_ifs <;> simp_all
  have hnext : (g.report id).next = g.next := by
    rw [hreport]
    unfold Registry.enqueue
    split_ifs <;> rfl
  refine ⟨?_, ?_, ?_, ?_, ?_, ?_, ?_, ?_, ?_, ?_⟩
  · intro other
    rw [hreport, ready_enqueue]
    change (if queue = other ∧ id ∉ g.ready other then g.ready other ++ [id] else g.ready other) = _
    rw [hi.ready]
    rfl
  · exact fun other => nodup_add (hi.nodup other)
  · intro k hk
    rw [hnext]
    exact hi.next k ((issued_cons fun _ heq => by cases heq).1 hk)
  · intro k other hk
    rw [hwatched] at hk
    split_ifs at hk with hid
    rw [count_cons_of_ne (by simp [Ne.symm hid]), count_cons_of_ne (by simp)]
    exact hi.watched k other hk
  · intro other k
    rw [count_other (.registered other k) (by simp)]
    by_cases hsame : queue = other ∧ id = k
    · obtain ⟨rfl, rfl⟩ := hsame
      rw [List.count_cons_self]
      exact hi.watched id queue h
    · rw [count_cons_of_ne (by simpa using hsame)]
      exact hi.own other k
  · simpa [count_cons] using hi.once
  · exact first_cons hi nofun
  · intro other k
    have hadd := @count_add_le id (queue = other) _ (waiting other log) k
    have hdue := hi.due other k
    rw [count_cons_of_ne (by simp), count_other (.retried other k) (by simp)]
    have hcount : (Event.reported queue id :: log).count (.reported other k) =
        log.count (.reported other k) + if queue = other ∧ id = k then 1 else 0 := by
      simp [count_cons]
    rw [hcount]
    change log.count _ + (if queue = other ∧ id ∉ waiting other log then _ else _ : List ℕ).count k ≤ _
    omega
  · apply removed_cons hi
    refine ⟨nofun, ?_⟩
    intro other k _ hwaiting hk _
    have hid : id ≠ k := by
      rintro rfl
      rw [h] at hk
      cases hk
    refine ⟨nofun, not_mem_add hwaiting fun _ => hid, ?_⟩
    rw [hwatched]
    split_ifs
    · rfl
    · exact hk
  · refine stillWatched_cons hi nofun ?_
    intro other k hk hother _
    rw [hwatched, if_neg, hk]
    rintro rfl
    rw [h] at hk
    cases hk
    exact hother rfl

theorem Inv.unreported (hi : Inv g log) (h : g.watched id = none) : Inv (g.report id) log := by
  have hreport : g.report id = { g with cells := update g.cells id none } := by
    unfold Registry.report
    simp only [h]
  rw [hreport]
  exact { hi with }

theorem Inv.retried (hi : Inv g log) : Inv (g.enqueue queue id) (.retried queue id :: log) := by
  have hwatched : (g.enqueue queue id).watched = g.watched := by
    unfold Registry.enqueue
    split_ifs <;> rfl
  have hnext : (g.enqueue queue id).next = g.next := by
    unfold Registry.enqueue
    split_ifs <;> rfl
  refine ⟨?_, ?_, ?_, ?_, ?_, ?_, ?_, ?_, ?_, ?_⟩
  · intro other
    rw [ready_enqueue, hi.ready]
    rfl
  · exact fun other => nodup_add (hi.nodup other)
  · intro k hk
    rw [hnext]
    exact hi.next k ((issued_cons fun _ heq => by cases heq).1 hk)
  · simpa [count_cons, hwatched] using hi.watched
  · simpa [count_cons] using hi.own
  · simpa [count_cons] using hi.once
  · exact first_cons hi nofun
  · intro other k
    have hadd := @count_add_le id (queue = other) _ (waiting other log) k
    have hdue := hi.due other k
    rw [count_cons_of_ne (by simp), count_other (.reported other k) (by simp)]
    have hcount : (Event.retried queue id :: log).count (.retried other k) =
        log.count (.retried other k) + if queue = other ∧ id = k then 1 else 0 := by
      simp [count_cons]
    rw [hcount]
    change log.count _ + (if queue = other ∧ id ∉ waiting other log then _ else _ : List ℕ).count k ≤ _
    omega
  · apply removed_cons hi
    refine ⟨nofun, ?_⟩
    intro other k _ hwaiting hk hretried
    refine ⟨nofun, not_mem_add hwaiting ?_, hwatched ▸ hk⟩
    rintro rfl rfl
    exact hretried rfl
  · exact stillWatched_cons hi nofun fun _ _ hk _ _ => hwatched ▸ hk

theorem Inv.took (hi : Inv g log) (h : (g.ready queue).head? = some id) :
    Inv (g.unqueue queue id) (.took queue id :: log) := by
  rw [hi.ready] at h
  refine ⟨?_, ?_, ?_, ?_, ?_, ?_, ?_, ?_, ?_, ?_⟩
  · intro other
    rw [ready_unqueue, hi.ready]
    rfl
  · exact fun other => (hi.nodup other).sublist sublist_erase
  · intro k hk
    exact hi.next k ((issued_cons fun _ heq => by cases heq).1 hk)
  · simpa [count_cons, Registry.unqueue] using hi.watched
  · simpa [count_cons] using hi.own
  · simpa [count_cons] using hi.once
  · apply first_cons hi
    intro other k heq
    cases heq
    exact h
  · intro other k
    have hdue := hi.due other k
    rw [count_other (.reported other k) (by simp),
      count_other (.retried other k) (by simp)]
    change _ + (if queue = other then (waiting other log).erase id else waiting other log).count k ≤ _
    by_cases hsame : queue = other ∧ id = k
    · obtain ⟨rfl, rfl⟩ := hsame
      have hmem : 0 < (waiting queue log).count id := List.count_pos_iff.2 (mem_waiting_of_head? h)
      rw [List.count_cons_self, if_pos rfl, List.count_erase_self]
      omega
    · rw [count_cons_of_ne (by simpa using hsame)]
      exact (Nat.add_le_add_left (sublist_erase.count_le k) _).trans hdue
  · apply removed_cons hi
    refine ⟨nofun, ?_⟩
    intro other k _ hwaiting hk _
    refine ⟨?_, ?_, hk⟩
    · intro heq
      cases heq
      exact hwaiting (mem_waiting_of_head? h)
    · exact fun hin => hwaiting (sublist_erase.subset hin)
  · exact stillWatched_cons hi nofun fun _ _ hk _ _ => hk

theorem Inv.wasRemoved (hi : Inv g log) : Inv (g.remove queue id) (.removed queue id :: log) := by
  refine ⟨?_, ?_, ?_, ?_, ?_, ?_, ?_, ?_, ?_, ?_⟩
  · intro other
    rw [ready_remove, hi.ready]
    rfl
  · exact fun other => (hi.nodup other).sublist sublist_erase
  · intro k hk
    rw [next_remove]
    exact hi.next k ((issued_cons fun _ heq => by cases heq).1 hk)
  · intro k other hk
    rw [watched_remove] at hk
    split_ifs at hk
    rw [count_cons_of_ne (by simp), count_cons_of_ne (by simp)]
    exact hi.watched k other hk
  · simpa [count_cons] using hi.own
  · simpa [count_cons] using hi.once
  · exact first_cons hi nofun
  · intro other k
    have hdue := hi.due other k
    rw [count_cons_of_ne (by simp), count_other (.reported other k) (by simp),
      count_other (.retried other k) (by simp)]
    exact (Nat.add_le_add_left (sublist_erase.count_le k) _).trans hdue
  · apply removed_cons hi
    refine ⟨?_, ?_⟩
    · intro queue' k heq
      cases heq
      refine ⟨by rw [watched_remove, if_pos rfl], ?_⟩
      intro other hout
      change id ∉ (if queue = other then (waiting other log).erase id else waiting other log)
      by_cases hq : queue = other
      · rw [if_pos hq]
        exact (hi.nodup other).not_mem_erase
      · rw [if_neg hq]
        exact hout.resolve_left hq
    · intro other k _ hwaiting hk _
      refine ⟨nofun, ?_, ?_⟩
      · exact fun hin => hwaiting (sublist_erase.subset hin)
      · rw [watched_remove]
        split_ifs
        · rfl
        · exact hk
  · refine stillWatched_cons hi nofun ?_
    intro other k hk _ hother
    rw [watched_remove, if_neg, hk]
    rintro rfl
    exact hother queue rfl

/-! ## Runs -/

/-- The queues are lists that are as the log says. -/
def Ok (s : State) : Prop := ∃ g, s.agent.Refines g ∧ Inv g s.log

theorem ok_step {s t : State} {a : Act} (h : step s a = some t) (hok : Ok s) : Ok t := by
  obtain ⟨g, hrefines, hi⟩ := hok
  cases a with
  | register queue target =>
    simp only [step] at h
    rcases @Refines.register s.agent g queue target hrefines with
      ⟨hnone, -⟩ | ⟨id, a', g', ha, hg, hrefines'⟩
    · rw [hnone] at h
      cases h
      exact ⟨g, hrefines, hi⟩
    · rw [ha] at h
      cases h
      exact ⟨g', hrefines', hi.registered hg⟩
  | report id =>
    simp only [step, hrefines.watched] at h
    cases hwatched : g.watched id with
    | none =>
      rw [hwatched] at h
      cases h
      exact ⟨g.report id, hrefines.report, hi.unreported hwatched⟩
    | some queue =>
      rw [hwatched] at h
      cases h
      exact ⟨g.report id, hrefines.report, hi.reported hwatched⟩
  | take queue =>
    obtain ⟨htaken, hrefines'⟩ := @Refines.take s.agent g queue hrefines
    simp only [step] at h
    generalize s.agent.take queue = result at htaken hrefines' h
    obtain ⟨taken, agent⟩ := result
    cases taken with
    | none =>
      cases h
      rw [← htaken] at hrefines'
      exact ⟨g, hrefines', hi⟩
    | some id =>
      cases h
      rw [← htaken] at hrefines'
      exact ⟨g.unqueue queue id, hrefines', hi.took htaken.symm⟩
  | remove queue id =>
    cases h
    exact ⟨g.remove queue id, hrefines.remove, hi.wasRemoved⟩
  | retry queue id =>
    cases h
    exact ⟨g.enqueue queue id, hrefines.enqueue, hi.retried⟩

theorem Ok.delivers {s : State} (h : Ok s) : Delivers s := by
  obtain ⟨g, hrefines, hi⟩ := h
  refine ⟨?_, hi.nodup, ?_, hi.first, hi.due, hi.own, hi.once, ?_, ?_⟩
  · intro queue
    obtain ⟨nodes, hholds⟩ := hrefines.holds queue
    rw [hi.ready] at hholds
    exact ⟨nodes, hholds.ordered, hholds.map_ids, fun id => hholds.isSome_ready⟩
  · intro queue
    rw [hrefines.take.1, hi.ready]
  · intro newer queue queue' id older hlog hissued hout htook
    by_contra hretried
    exact (hi.removed newer queue queue' id older hlog hissued hout hretried).1 htook
  · rw [hrefines.watched]
    exact hi.stillWatched

/-- The host reports what it will, and the agent takes, removes and retries what it will: a queue's
    list and map hold what is waiting on it, the first of which is taken. It is taken once for each
    collection, of an object the queue registered, and each retry. -/
theorem ready_delivered_once (acts : List Act) (s : State) (h : run step {} acts = some s) :
    Delivers s :=
  (@Run.invariant _ _ {} acts Ok step (fun _ _ _ hs hok => ok_step hs hok) s h
    ⟨{}, refines_init, inv_init⟩).delivers

/-- The second of three ids that are ready is removed, and the first is taken. -/
def middleRemoved : List Act :=
  [.register .finalizers 5, .register .finalizers 6, .register .buffers 6, .register .finalizers 7,
    .report 2, .report 1, .report 4, .report 3, .remove .finalizers 1, .take .finalizers]

theorem ready_delivered_once_middle :
    ∃ s, run step {} middleRemoved = some s ∧ Delivers s ∧
      waiting .finalizers s.log = [4] ∧ waiting .buffers s.log = [3] :=
  ⟨_, rfl, ready_delivered_once middleRemoved _ rfl, by decide, by decide⟩

/-- An id that is retried on the other queue. -/
theorem retried_on_other_queue :
    ¬ ∀ acts s, run step {} acts = some s → ∀ queue id, .took queue id ∈ s.log →
      .registered queue id ∈ s.log := by
  intro h
  have hregistered := h [.register .finalizers 5, .retry .buffers 1, .take .buffers] _ rfl .buffers 1
    (by decide)
  revert hregistered
  decide

end Queues

end WasmerNapi.HostJs.Finalizers
