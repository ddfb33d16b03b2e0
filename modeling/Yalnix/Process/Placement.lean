import Yalnix.Interrupt
import Yalnix.Library.Apart
import Yalnix.Library.Fifo

/-! Where processes are. Every container of processes is a place; the kernel
moves processes between places, and the moves below are all it ever does. -/
namespace Yalnix

open IntrusiveQueue Apart Fifo

/-- The queues that share the link field of the control blocks. -/
inductive QueueId where
  | sched (type : QueueType)
  | lock (id : Nat)
  | cvar (id : Nat)
  | pipe (id : Nat)
  | writer (tty : Nat)
  | reader (tty : Nat)
  deriving DecidableEq, Repr

/-- The queues whose arrivals and services are recorded. -/
def QueueId.isLogged : QueueId → Bool
  | .sched .main | .lock _ => true
  | _ => false

/-- The log of a queue after one more event. `get_next_process` returns the
idle process when it finds nobody; a lock starts a new log when it is
created. -/
def Event.enter (idle : Proc) : QueueId → List (Entry Proc) → Event → List (Entry Proc)
  | .sched .main, log, .ready p => log ++ [.join p]
  | .sched .main, log, .dispatched p => log ++ [if p = idle then .idle else .serve p]
  | .lock id, log, .lockCreated k => if k = id then [] else log
  | .lock id, log, .lockRequested k p => if k = id then log ++ [.join p] else log
  | .lock id, log, .lockGranted k p => if k = id then log ++ [.serve p] else log
  | _, log, _ => log

/-- The events that some log takes notice of. -/
def Event.isLogged : Event → Bool
  | .ready _ | .dispatched _ | .lockCreated _ | .lockRequested _ _ | .lockGranted _ _ => true
  | _ => false

theorem Event.enter_of_unlogged {e : Event} (he : e.isLogged = false) (idle : Proc) (q : QueueId)
    (log : List (Entry Proc)) : e.enter idle q log = log := by
  cases q with
  | sched type => cases type <;> cases e <;> first | rfl | cases he
  | lock id => cases e <;> first | rfl | cases he
  | cvar | pipe | writer | reader => rfl

/-- Everywhere a process can be. `hand` stands for the local variables of the
kernel code between taking a process out of one container and putting it into
the next. -/
inductive Place where
  | queue (q : QueueId)
  | sleeping
  | transmitting (tty : Nat)
  | cpu
  | hand
  deriving DecidableEq, Repr

namespace Kernel

/-- The log of a queue. -/
def log (s : Kernel) (q : QueueId) : List (Entry Proc) :=
  s.trace.foldl (fun log e => e.enter s.idleProc q log) []

theorem log_emit (s : Kernel) (e : Event) (q : QueueId) :
    (s.emit e).log q = e.enter s.idleProc q (s.log q) := by
  simp [log, emit]

/-- The header of a queue. -/
def ends (s : Kernel) : QueueId → Ends Proc
  | .sched type => (s.queues type).ends
  | .lock id => (s.locks.entries id).ends
  | .cvar id => (s.cvars.entries id).ends
  | .pipe id => (s.pipes.entries id).readers
  | .writer tty => (s.ttys tty).writers
  | .reader tty => (s.ttys tty).readers

/-- The process on the processor; the idle process counts as none. -/
def onCpu (s : Kernel) : List Proc :=
  if s.runningProc = s.idleProc then [] else [s.runningProc]

/-- The contents of a place, read off the kernel's data structures by
following the links of a queue from its first pointer. -/
def contents (s : Kernel) : Place → List Proc
  | .queue q => walk s.next s.numPcbs (s.ends q).first
  | .sleeping => s.sleepers.arr.toList
  | .transmitting tty => (s.ttys tty).txOwner.toList
  | .cpu => s.onCpu
  | .hand => []

end Kernel

/-- The part of the kernel state that says where processes are and what they
hold. Syscalls that neither block nor wake anybody leave it as it is. -/
structure Shape where
  next : Proc → Option Proc
  ends : QueueId → Ends Proc
  length : QueueType → Nat
  sleepers : List Proc
  owner : Nat → Option Proc
  live : Proc → Prop
  numPcbs : Nat
  pid : Proc → Nat
  cvarLockId : Proc → Nat
  locks : Table Lock
  cvars : Table Cvar
  log : QueueId → List (Entry Proc)

def Kernel.shape (s : Kernel) : Shape where
  next := s.next
  ends := s.ends
  length type := (s.queues type).length
  sleepers := s.sleepers.arr.toList
  owner tty := (s.ttys tty).txOwner
  live := s.Live
  numPcbs := s.numPcbs
  pid p := (s.pcb p).pid
  cvarLockId p := (s.pcb p).cvarLockId
  locks := s.locks
  cvars := s.cvars
  log := s.log

/-- The lists say, for every place, which processes are there and in what
order; they cover exactly the live processes, each of them once. -/
structure Placement (S : Shape) (lists : Place → List Proc) : Prop where
  placed : Placed lists
  linked : Linked S.next S.ends fun q => lists (.queue q)
  length : ∀ type, S.length type = (lists (.queue (.sched type))).length
  sleeping : lists .sleeping = S.sleepers
  owner : ∀ tty, lists (.transmitting tty) = (S.owner tty).toList
  live : ∀ p, (∃ a, p ∈ lists a) ↔ S.live p
  served : ∀ q, q.isLogged = true → Serves (S.log q) (lists (.queue q))

/-- The logs after an arrival at a queue, or the service of its head. -/
def logged (log : QueueId → List (Entry Proc)) (q : QueueId) (entry : Entry Proc) :
    QueueId → List (Entry Proc) :=
  if q.isLogged then Function.update log q (log q ++ [entry]) else log

namespace Placement

variable {S T : Shape} {lists : Place → List Proc} {a : Place} {q : QueueId} {x : Proc}
  {rest : List Proc}

/-- Places whose contents are not stored in a container. -/
def Free (a : Place) : Prop := a = .cpu ∨ a = .hand

theorem Free.ne_queue (h : Free a) (q : QueueId) : Place.queue q ≠ a := by
  rcases h with rfl | rfl <;> simp

theorem Free.ne_sleeping (h : Free a) : Place.sleeping ≠ a := by
  rcases h with rfl | rfl <;> simp

theorem Free.ne_transmitting (h : Free a) (tty : Nat) : Place.transmitting tty ≠ a := by
  rcases h with rfl | rfl <;> simp

theorem update_queue (lists : Place → List Proc) (q : QueueId) (nodes : List Proc) :
    (fun k => Function.update lists (.queue q) nodes (.queue k)) =
      Function.update (fun k => lists (.queue k)) q nodes := by
  funext k
  by_cases hk : k = q
  · subst hk
    simp
  · rw [Function.update_of_ne hk, Function.update_of_ne (by simpa using hk)]

theorem placed_queues (h : Placement S lists) : Placed fun q => lists (.queue q) where
  nodup q := h.placed.nodup (.queue q)
  unique hi hj := by simpa using h.placed.unique hi hj

theorem not_mem_queue (h : Placement S lists) (ha : Free a) (hx : lists a = [x]) (q : QueueId) :
    x ∉ lists (.queue q) :=
  h.placed.not_mem_of_ne (by rw [hx]; simp) (ha.ne_queue q)

theorem live_of_mem (h : Placement S lists) (hx : x ∈ lists a) : S.live x :=
  (h.live x).mp ⟨a, hx⟩

theorem keep_length (hq : ∀ type, q ≠ .sched type) (hLength : T.length = S.length)
    (type : QueueType) : T.length type = S.length type + if q = .sched type then 1 else 0 := by
  simp [hq type, hLength]

theorem keep_length_sub (hq : ∀ type, q ≠ .sched type) (hLength : T.length = S.length)
    (type : QueueType) : T.length type = S.length type - if q = .sched type then 1 else 0 := by
  simp [hq type, hLength]

theorem keep_log {log other : QueueId → List (Entry Proc)} {entry : Entry Proc} (hq : q.isLogged = false)
    (hLog : other = log) : other = logged log q entry := by
  simp [logged, hq, hLog]

/-- A logged queue takes notice of an arrival or a service, the others do not. -/
theorem serves_logged {log : QueueId → List (Entry Proc)} {entry : Entry Proc}
    {others : Place → List Proc} (h : ∀ q, q.isLogged = true → Serves (log q) (lists (.queue q)))
    (hOther : ∀ k, k ≠ q → others (.queue k) = lists (.queue k))
    (hSelf : q.isLogged = true → Serves (log q ++ [entry]) (others (.queue q))) (k : QueueId)
    (hk : k.isLogged = true) : Serves (logged log q entry k) (others (.queue k)) := by
  by_cases he : k = q
  · subst he
    rw [logged, if_pos hk, Function.update_self]
    exact hSelf hk
  · rw [hOther k he]
    unfold logged
    split_ifs
    · rw [Function.update_of_ne he]
      exact h k hk
    · exact h k hk

/-- What the lists say depends on the links, headers and logs only. -/
theorem congr (h : Placement S lists) (hNext : T.next = S.next) (hEnds : T.ends = S.ends)
    (hLength : T.length = S.length) (hSleepers : T.sleepers = S.sleepers)
    (hOwner : T.owner = S.owner) (hLive : T.live = S.live) (hLog : T.log = S.log) :
    Placement T lists where
  placed := h.placed
  linked := by
    rw [hNext, hEnds]
    exact h.linked
  length := hLength ▸ h.length
  sleeping := hSleepers ▸ h.sleeping
  owner := hOwner ▸ h.owner
  live := hLive ▸ h.live
  served := hLog ▸ h.served

/-- The logs may be replaced by others that end with the same queues. -/
theorem relog (h : Placement S lists) {f : QueueId → List (Entry Proc)}
    (hServed : ∀ q, q.isLogged = true → Serves (f q) (lists (.queue q))) :
    Placement { S with log := f } lists :=
  ⟨h.placed, h.linked, h.length, h.sleeping, h.owner, h.live, hServed⟩

/-- A queue with nobody in it takes notice of an arrival that is served at
once. -/
theorem passes (h : Placement S lists) (hq : q.isLogged = true) (hNil : lists (.queue q) = []) (x : Proc) :
    Placement { S with log := logged (logged S.log q (.join x)) q (.serve x) } lists := by
  refine h.relog fun k hk => ?_
  rw [logged, logged, if_pos hq, if_pos hq, Function.update_self, Function.update_idem]
  by_cases he : k = q
  · subst he
    have hServed := h.served k hk
    rw [Function.update_self, hNil] at *
    exact .serve (hServed.join List.not_mem_nil)
  · rw [Function.update_of_ne he]
    exact h.served k hk

/-- A process out of the kernel's hands, or off the processor, is appended to
a queue. -/
theorem push (h : Placement S lists) (ha : Free a) (hx : lists a = [x]) (q : QueueId)
    (hNext : T.next = (push S.next (S.ends q) x).1)
    (hEnds : T.ends = Function.update S.ends q (IntrusiveQueue.push S.next (S.ends q) x).2)
    (hLength : ∀ type, T.length type = S.length type + if q = .sched type then 1 else 0)
    (hSleepers : T.sleepers = S.sleepers) (hOwner : T.owner = S.owner) (hLive : T.live = S.live)
    (hLog : T.log = logged S.log q (.join x)) :
    Placement T (move lists a (.queue q) [] (lists (.queue q) ++ [x])) := by
  have hNe : a ≠ .queue q := (ha.ne_queue q).symm
  have hSource : (lists a).Perm (x :: []) := by rw [hx]
  have hTarget : (lists (.queue q) ++ [x]).Perm (x :: lists (.queue q)) := List.perm_append_comm
  refine ⟨h.placed.move hNe hSource hTarget, ?_, ?_, ?_, ?_, ?_, ?_⟩
  · have hLists : (fun k => move lists a (.queue q) [] (lists (.queue q) ++ [x]) (.queue k)) =
        Function.update (fun k => lists (.queue k)) q (lists (.queue q) ++ [x]) := by
      rw [move, update_queue]
      congr 1
      funext k
      exact Function.update_of_ne (ha.ne_queue k) _ _
    rw [hLists, hNext, hEnds]
    exact h.linked.push h.placed_queues fun k => h.not_mem_queue ha hx k
  · intro type
    rw [hLength, h.length]
    by_cases hq : q = .sched type
    · subst hq
      simp
    · rw [move_other (ha.ne_queue _) (by simpa [eq_comm] using hq)]
      simp [hq]
  · rw [move_other ha.ne_sleeping (by simp), h.sleeping, hSleepers]
  · intro tty
    rw [move_other (ha.ne_transmitting tty) (by simp), h.owner, hOwner]
  · intro p
    rw [exists_mem_move h.placed hNe hSource hTarget, h.live, hLive]
  · rw [hLog]
    refine serves_logged h.served (fun k hk => move_other (ha.ne_queue k) (by simpa using hk)) fun hq => ?_
    rw [move_target]
    exact (h.served q hq).join (h.not_mem_queue ha hx q)

/-- The first member of a queue is taken into the kernel's hands. -/
theorem pop (h : Placement S lists) (hq : lists (.queue q) = x :: rest) (hHand : lists .hand = [])
    (hNext : T.next = (pop S.next (S.ends q)).2.1)
    (hEnds : T.ends = Function.update S.ends q (IntrusiveQueue.pop S.next (S.ends q)).2.2)
    (hLength : ∀ type, T.length type = S.length type - if q = .sched type then 1 else 0)
    (hSleepers : T.sleepers = S.sleepers) (hOwner : T.owner = S.owner) (hLive : T.live = S.live)
    (hLog : T.log = logged S.log q (.serve x)) :
    Placement T (move lists (.queue q) .hand rest [x]) := by
  have hNe : Place.queue q ≠ .hand := by simp
  have hSource : (lists (.queue q)).Perm (x :: rest) := by rw [hq]
  have hTarget : [x].Perm (x :: lists .hand) := by rw [hHand]
  refine ⟨h.placed.move hNe hSource hTarget, ?_, ?_, ?_, ?_, ?_, ?_⟩
  · have hLists : (fun k => move lists (.queue q) .hand rest [x] (.queue k)) =
        Function.update (fun k => lists (.queue k)) q rest := by
      rw [← update_queue]
      funext k
      exact Function.update_of_ne (by simp) _ _
    rw [hLists, hNext, hEnds]
    exact h.linked.pop h.placed_queues hq
  · intro type
    rw [hLength, h.length]
    by_cases hType : q = .sched type
    · subst hType
      rw [move_source hNe, hq]
      simp
    · rw [move_other (by simpa [eq_comm] using hType) (by simp)]
      simp [hType]
  · rw [move_other (by simp) (by simp), h.sleeping, hSleepers]
  · intro tty
    rw [move_other (by simp) (by simp), h.owner, hOwner]
  · intro p
    rw [exists_mem_move h.placed hNe hSource hTarget, h.live, hLive]
  · rw [hLog]
    refine serves_logged h.served (fun k hk => move_other (by simpa using hk) (by simp)) fun hLogged => ?_
    rw [move_source hNe]
    exact .serve (hq ▸ h.served q hLogged)

/-- A member anywhere in a queue is unlinked into the kernel's hands. -/
theorem unlink {front back : List Proc} (h : Placement S lists)
    (hq : lists (.queue q) = front ++ x :: back) (hHand : lists .hand = [])
    (hNext : T.next = (unlink S.next (S.ends q) front.getLast? x).1)
    (hEnds : T.ends = Function.update S.ends q
      (IntrusiveQueue.unlink S.next (S.ends q) front.getLast? x).2)
    (hLength : ∀ type, T.length type = S.length type - if q = .sched type then 1 else 0)
    (hSleepers : T.sleepers = S.sleepers) (hOwner : T.owner = S.owner) (hLive : T.live = S.live)
    (hUnlogged : q.isLogged = false) (hLog : T.log = S.log) :
    Placement T (move lists (.queue q) .hand (front ++ back) [x]) := by
  have hNe : Place.queue q ≠ .hand := by simp
  have hSource : (lists (.queue q)).Perm (x :: (front ++ back)) := by
    rw [hq]
    exact List.perm_middle
  have hTarget : [x].Perm (x :: lists .hand) := by rw [hHand]
  refine ⟨h.placed.move hNe hSource hTarget, ?_, ?_, ?_, ?_, ?_, fun k hk => ?_⟩
  · have hLists : (fun k => move lists (.queue q) .hand (front ++ back) [x] (.queue k)) =
        Function.update (fun k => lists (.queue k)) q (front ++ back) := by
      rw [← update_queue]
      funext k
      exact Function.update_of_ne (by simp) _ _
    rw [hLists, hNext, hEnds]
    exact h.linked.unlink h.placed_queues hq
  · intro type
    rw [hLength, h.length]
    by_cases hType : q = .sched type
    · subst hType
      rw [move_source hNe, hq]
      simp
    · rw [move_other (by simpa [eq_comm] using hType) (by simp)]
      simp [hType]
  · rw [move_other (by simp) (by simp), h.sleeping, hSleepers]
  · intro tty
    rw [move_other (by simp) (by simp), h.owner, hOwner]
  · intro p
    rw [exists_mem_move h.placed hNe hSource hTarget, h.live, hLive]
  · have hNe : k ≠ q := by
      rintro rfl
      simp [hUnlogged] at hk
    rw [hLog, move_other (by simpa using hNe) (by simp)]
    exact h.served k hk

/-- A move between two places neither of which is a queue. The new contents
of the sleep heap and of the owners are those of the target state. -/
theorem shift {b : Place} {joined : List Proc} (h : Placement S lists) (hNe : a ≠ b)
    (ha : ∀ q, Place.queue q ≠ a) (hb : ∀ q, Place.queue q ≠ b)
    (hSource : (lists a).Perm (x :: rest)) (hTarget : joined.Perm (x :: lists b))
    (hNext : T.next = S.next) (hEnds : T.ends = S.ends) (hLength : T.length = S.length)
    (hSleepers : move lists a b rest joined .sleeping = T.sleepers)
    (hOwner : ∀ tty, move lists a b rest joined (.transmitting tty) = (T.owner tty).toList)
    (hLive : T.live = S.live) (hLog : T.log = S.log) : Placement T (move lists a b rest joined) := by
  have hQueues : (fun q => move lists a b rest joined (.queue q)) = fun q => lists (.queue q) := by
    funext q
    exact move_other (ha q) (hb q)
  refine ⟨h.placed.move hNe hSource hTarget, ?_, ?_, hSleepers, hOwner, ?_, fun q hq => ?_⟩
  · rw [hQueues, hNext, hEnds]
    exact h.linked
  · intro type
    rw [hLength, h.length, move_other (ha _) (hb _)]
  · intro p
    rw [exists_mem_move h.placed hNe hSource hTarget, h.live, hLive]
  · rw [hLog, move_other (ha q) (hb q)]
    exact h.served q hq

/-- The process in the kernel's hands gets the processor. -/
theorem run (h : Placement S lists) (hHand : lists .hand = [x]) (hCpu : lists .cpu = []) :
    Placement S (move lists .hand .cpu [] [x]) := by
  refine h.shift (by simp) (by simp) (by simp) (by rw [hHand]) (by rw [hCpu]) rfl rfl rfl ?_ ?_ rfl rfl
  · rw [move_other (by simp) (by simp), h.sleeping]
  · intro tty
    rw [move_other (by simp) (by simp), h.owner]

/-- A new process appears in the kernel's hands. -/
theorem spawn (h : Placement S lists) (hFresh : ¬ S.live x) (hHand : lists .hand = [])
    (hNext : Linked T.next T.ends fun q => lists (.queue q)) (hLength : T.length = S.length)
    (hSleepers : T.sleepers = S.sleepers) (hOwner : T.owner = S.owner)
    (hLive : ∀ p, T.live p ↔ p = x ∨ S.live p) (hLog : T.log = S.log) :
    Placement T (Function.update lists .hand [x]) := by
  have hNone : ∀ k, x ∉ lists k := fun k hk => hFresh ((h.live x).mp ⟨k, hk⟩)
  refine ⟨h.placed.add hNone (by rw [hHand]), ?_, ?_, ?_, ?_, ?_, fun q hq => ?_⟩
  · simpa using hNext
  · intro type
    rw [hLength, h.length, Function.update_of_ne (by simp)]
  · rw [Function.update_of_ne (by simp), h.sleeping, hSleepers]
  · intro tty
    rw [Function.update_of_ne (by simp), h.owner, hOwner]
  · intro p
    rw [hLive, ← h.live]
    constructor
    · rintro ⟨k, hk⟩
      by_cases he : k = .hand
      · subst he
        rw [Function.update_self, List.mem_singleton] at hk
        exact Or.inl hk
      · rw [Function.update_of_ne he] at hk
        exact Or.inr ⟨k, hk⟩
    · rintro (rfl | ⟨k, hk⟩)
      · exact ⟨.hand, by simp⟩
      · refine ⟨k, ?_⟩
        have he : k ≠ .hand := by
          rintro rfl
          rw [hHand] at hk
          cases hk
        rwa [Function.update_of_ne he]
  · rw [hLog, Function.update_of_ne (by simp)]
    exact h.served q hq

/-- A process on the processor, or in the kernel's hands, ceases to exist. -/
theorem exit (h : Placement S lists) (ha : Free a) (hx : lists a = [x])
    (hNext : T.next = S.next) (hEnds : T.ends = S.ends) (hLength : T.length = S.length)
    (hSleepers : T.sleepers = S.sleepers) (hOwner : T.owner = S.owner)
    (hLive : ∀ p, T.live p ↔ p ≠ x ∧ S.live p) (hLog : T.log = S.log) :
    Placement T (Function.update lists a []) := by
  have hSource : (lists a).Perm (x :: []) := by rw [hx]
  obtain ⟨hPlaced, hMem⟩ := h.placed.remove hSource
  refine ⟨hPlaced, ?_, ?_, ?_, ?_, ?_, fun q hq => ?_⟩
  · have hQueues : (fun q => Function.update lists a [] (.queue q)) = fun q => lists (.queue q) := by
      funext q
      exact Function.update_of_ne (ha.ne_queue q) _ _
    rw [hQueues, hNext, hEnds]
    exact h.linked
  · intro type
    rw [hLength, h.length, Function.update_of_ne (ha.ne_queue _)]
  · rw [Function.update_of_ne ha.ne_sleeping, h.sleeping, hSleepers]
  · intro tty
    rw [Function.update_of_ne (ha.ne_transmitting tty), h.owner, hOwner]
  · intro p
    rw [hMem, hLive, h.live]
  · rw [hLog, Function.update_of_ne (ha.ne_queue q)]
    exact h.served q hq

end Placement
end Yalnix
