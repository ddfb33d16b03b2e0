import Yalnix.Process.Placement
import Yalnix.Process.SleepHeap
import Yalnix.Process.Switch

/-! The queue operations of the source as moves between places. Each module of
the kernel has its own way to append and to tell an empty queue; on well
formed queues they all agree. -/
namespace Yalnix

open IntrusiveQueue Apart Fifo

variable {s t : Kernel} {lists : Place → List Proc} {p : Proc}

theorem Event.Quiet.not_logged {e : Event} (h : e.Quiet) : e.isLogged = false := by
  cases e with
  | tick | forked | exited | reaped | freed => rfl
  | _ => exact h.elim

theorem Quiet.log (h : Quiet s t) : t.log = s.log := by
  obtain ⟨events, hTrace, hQuiet⟩ := h.trace
  funext q
  rw [Kernel.log, Kernel.log, hTrace, h.idleProc, List.foldl_append]
  generalize s.trace.foldl _ [] = log
  clear hTrace
  induction events with
  | nil => rfl
  | cons e events ih =>
      rw [List.foldl_cons, Event.enter_of_unlogged (hQuiet e (by simp)).not_logged]
      exact ih fun e he => hQuiet e (by simp [he])

theorem Quiet.shape (h : Quiet s t) : t.shape = s.shape := by
  have hLive : t.Live = s.Live := funext fun p => propext (h.live_iff p)
  have hEnds : t.ends = s.ends := by
    funext q
    cases q <;> simp [Kernel.ends, h.queues, h.locks, h.cvars, h.pipes, h.ttys]
  simp [Kernel.shape, h.next, hEnds, h.queues, h.sleepers, h.ttys, hLive, h.numPcbs, h.pid,
    h.cvarLockId, h.locks, h.cvars, h.log]

namespace Kernel

theorem log_emit_unlogged (s : Kernel) {e : Event} (he : e.isLogged = false) : (s.emit e).log = s.log := by
  funext q
  rw [log_emit, Event.enter_of_unlogged he]

theorem shape_emit (s : Kernel) {e : Event} (he : e.isLogged = false) : (s.emit e).shape = s.shape := by
  have hShape : (s.emit e).shape = { s.shape with log := (s.emit e).log } := rfl
  rw [hShape, log_emit_unlogged s he]
  rfl

@[simp] theorem shape_setMem (s : Kernel) (mem : Memory) : (s.setMem mem).shape = s.shape := rfl

theorem live_modifyPcb {f : Pcb → Pcb} (hFreed : (f (s.pcb p)).freed = (s.pcb p).freed)
    (hState : (f (s.pcb p)).state = .exited ↔ (s.pcb p).state = .exited) (q : Proc) :
    (s.modifyPcb p f).Live q ↔ s.Live q := by
  by_cases hq : q = p
  · subst hq
    simp [Live, modifyPcb, hFreed, hState]
  · simp [Live, modifyPcb, Function.update_of_ne hq]

theorem live_modifyPcb_of_ne {f : Pcb → Pcb} {q : Proc} (hq : q ≠ p) :
    (s.modifyPcb p f).Live q ↔ s.Live q := by
  simp [Live, modifyPcb, Function.update_of_ne hq]

/-- The end of a process. -/
theorem live_modifyPcb_dead {f : Pcb → Pcb}
    (hDead : (f (s.pcb p)).freed = true ∨ (f (s.pcb p)).state = .exited) (q : Proc) :
    (s.modifyPcb p f).Live q ↔ q ≠ p ∧ s.Live q := by
  by_cases hq : q = p
  · subst hq
    simp only [Live, modifyPcb, Function.update_self, ne_eq, not_true, false_and, iff_false]
    rintro ⟨-, -, hFreed, hState⟩
    rcases hDead with hDead | hDead
    · simp [hDead] at hFreed
    · exact hState hDead
  · simp [live_modifyPcb_of_ne hq, hq]

theorem live_scheduleProcess_of_ne {q : Proc} (hq : q ≠ p) :
    (s.scheduleProcess p).Live q ↔ s.Live q := by
  unfold scheduleProcess
  split_ifs
  · rfl
  · exact live_modifyPcb_of_ne (s := s) (f := fun pcb => { pcb with state := .ready }) hq

theorem live_acquire (s : Kernel) (id : Nat) (p : Proc) (cvarUse : Bool) :
    (s.acquire id p cvarUse).1.Live = s.Live := by
  unfold acquire
  dsimp only
  split
  · rfl
  · split <;> rfl

theorem shape_modifyPcb {f : Pcb → Pcb} (hPid : (f (s.pcb p)).pid = (s.pcb p).pid)
    (hLock : (f (s.pcb p)).cvarLockId = (s.pcb p).cvarLockId)
    (hFreed : (f (s.pcb p)).freed = (s.pcb p).freed)
    (hState : (f (s.pcb p)).state = .exited ↔ (s.pcb p).state = .exited) :
    (s.modifyPcb p f).shape = s.shape := by
  have hLive : (s.modifyPcb p f).Live = s.Live :=
    funext fun q => propext (live_modifyPcb hFreed hState q)
  simp only [shape, hLive, pcb_modifyPcb hPid, pcb_modifyPcb hLock]
  rfl

theorem shape_setState (hLive : s.Live p) {m : ProcessState} (hState : m ≠ .exited) :
    (s.setState p m).shape = s.shape :=
  shape_modifyPcb rfl rfl rfl (by simp [hState, hLive.2.2.2])

@[simp] theorem locks_scheduleProcess (s : Kernel) (p : Proc) :
    (s.scheduleProcess p).locks = s.locks := by
  unfold scheduleProcess
  split_ifs <;> rfl

@[simp] theorem cvars_scheduleProcess (s : Kernel) (p : Proc) :
    (s.scheduleProcess p).cvars = s.cvars := by
  unfold scheduleProcess
  split_ifs <;> rfl

@[simp] theorem pid_scheduleProcess (s : Kernel) (p q : Proc) :
    ((s.scheduleProcess p).pcb q).pid = (s.pcb q).pid := by
  unfold scheduleProcess
  split_ifs
  · rfl
  · exact pcb_modifyPcb (s := s) (p := p) (f := fun pcb => { pcb with state := .ready })
      (v := Pcb.pid) rfl q

theorem cvars_release (s : Kernel) (id : Nat) (p : Proc) (cvarUse : Bool) :
    (s.release id p cvarUse).1.cvars = s.cvars := by
  unfold release
  dsimp only
  split
  · rfl
  · split
    · rfl
    · rw [cvars_scheduleProcess]
      rfl

/-- `proc->cvar_lock_id = lock_id`. -/
theorem shape_bind (s : Kernel) (p : Proc) (id : Nat) :
    (s.modifyPcb p fun pcb => { pcb with cvarLockId := id }).shape =
      { s.shape with cvarLockId := Function.update s.shape.cvarLockId p id } := by
  have hLive : (s.modifyPcb p fun pcb => { pcb with cvarLockId := id }).Live = s.Live :=
    funext fun q => propext (live_modifyPcb rfl Iff.rfl q)
  have hPid : (fun q => ((s.modifyPcb p fun pcb => { pcb with cvarLockId := id }).pcb q).pid) =
      fun q => (s.pcb q).pid := funext fun q => pcb_modifyPcb (v := Pcb.pid) rfl q
  have hLock : (fun q => ((s.modifyPcb p fun pcb => { pcb with cvarLockId := id }).pcb q).cvarLockId) =
      Function.update (fun q => (s.pcb q).cvarLockId) p id := by
    funext q
    by_cases hq : q = p
    · subst hq
      simp [modifyPcb]
    · simp [modifyPcb, Function.update_of_ne hq]
  simp only [shape, hLive, hPid, hLock]
  rfl

theorem shape_fullContextSwitch [Hardware] (s : Kernel) (curr : Option (Proc × KernelContext))
    (next : Proc) : (s.fullContextSwitch curr next).shape = s.shape := by
  cases curr with
  | none => rfl
  | some saved =>
      have hSave : (s.modifyPcb saved.1 fun p => { p with kc := some saved.2 }).shape = s.shape :=
        shape_modifyPcb rfl rfl rfl Iff.rfl
      exact hSave

end Kernel

section Queues

variable {next : Proc → Option Proc} {ends : Ends Proc} {nodes : List Proc} {x : Proc}

/-- `insert` looks at the first pointer. -/
theorem Synchronization.insert_eq_push (h : IsQueue next ends nodes) (hx : x ∉ nodes) :
    Synchronization.insert next ends x = push next ends x := by
  unfold Synchronization.insert push
  cases hLast : ends.last with
  | none =>
      have hNil := h.last_eq_none_iff.mp hLast
      simp [h.first_eq_none_iff.mpr hNil]
  | some tail =>
      have hMem : tail ∈ nodes := List.mem_of_getLast? (h.2 ▸ hLast)
      have hNe : tail ≠ x := fun he => hx (he ▸ hMem)
      have hFirst : ends.first ≠ none := fun he =>
        absurd (h.first_eq_none_iff.mp he) (List.ne_nil_of_mem hMem)
      obtain ⟨first, hFirst⟩ := Option.ne_none_iff_exists'.mp hFirst
      simp [hFirst, Function.update_comm hNe]

/-- `readq_push`, `wq_push` and `rq_push` look at the tail pointer. -/
theorem Pipe.queuePush_eq_push (h : IsQueue next ends nodes) (hx : x ∉ nodes) :
    Pipe.queuePush next ends x = push next ends x := by
  unfold Pipe.queuePush push
  cases hLast : ends.last with
  | none => rfl
  | some tail =>
      have hMem : tail ∈ nodes := List.mem_of_getLast? (h.2 ▸ hLast)
      have hNe : tail ≠ x := fun he => hx (he ▸ hMem)
      simp [Function.update_comm hNe]

end Queues

namespace Kernel

/-- A header that is written separately from all others. -/
theorem ends_eq_update {q : QueueId} {ends : Ends Proc} (hSelf : t.ends q = ends)
    (hOther : ∀ k, k ≠ q → t.ends k = s.ends k) : t.ends = Function.update s.ends q ends := by
  funext k
  by_cases hk : k = q
  · subst hk
    simp [hSelf]
  · rw [Function.update_of_ne hk, hOther k hk]

theorem ends_setLock (s : Kernel) (id : Nat) (lock : Lock) :
    (s.setLock id lock).ends = Function.update s.ends (.lock id) lock.ends := by
  refine ends_eq_update (by simp [Kernel.ends, setLock, Table.set]) fun k hk => ?_
  cases k with
  | lock other =>
      have hOther : other ≠ id := fun he => hk (he ▸ rfl)
      simp [Kernel.ends, setLock, Table.set, Function.update_of_ne hOther]
  | _ => rfl

theorem ends_setCvar (s : Kernel) (id : Nat) (cvar : Cvar) :
    (s.setCvar id cvar).ends = Function.update s.ends (.cvar id) cvar.ends := by
  refine ends_eq_update (by simp [Kernel.ends, setCvar, Table.set]) fun k hk => ?_
  cases k with
  | cvar other =>
      have hOther : other ≠ id := fun he => hk (he ▸ rfl)
      simp [Kernel.ends, setCvar, Table.set, Function.update_of_ne hOther]
  | _ => rfl

theorem ends_setPipe (s : Kernel) (id : Nat) (pipe : Pipe) :
    (s.setPipe id pipe).ends = Function.update s.ends (.pipe id) pipe.readers := by
  refine ends_eq_update (by simp [Kernel.ends, setPipe, Table.set]) fun k hk => ?_
  cases k with
  | pipe other =>
      have hOther : other ≠ id := fun he => hk (he ▸ rfl)
      simp [Kernel.ends, setPipe, Table.set, Function.update_of_ne hOther]
  | _ => rfl

/-- A terminal has two queues; a change that keeps the other one. -/
theorem ends_setTty_writers (s : Kernel) (id : Nat) (tty : Tty)
    (hReaders : tty.readers = (s.ttys id).readers) :
    (s.setTty id tty).ends = Function.update s.ends (.writer id) tty.writers := by
  refine ends_eq_update (by simp [Kernel.ends, setTty]) fun k hk => ?_
  cases k with
  | writer other =>
      have hOther : other ≠ id := fun he => hk (he ▸ rfl)
      simp [Kernel.ends, setTty, Function.update_of_ne hOther]
  | reader other =>
      by_cases hOther : other = id
      · subst hOther
        simp [Kernel.ends, setTty, hReaders]
      · simp [Kernel.ends, setTty, Function.update_of_ne hOther]
  | _ => rfl

theorem ends_setTty_readers (s : Kernel) (id : Nat) (tty : Tty)
    (hWriters : tty.writers = (s.ttys id).writers) :
    (s.setTty id tty).ends = Function.update s.ends (.reader id) tty.readers := by
  refine ends_eq_update (by simp [Kernel.ends, setTty]) fun k hk => ?_
  cases k with
  | reader other =>
      have hOther : other ≠ id := fun he => hk (he ▸ rfl)
      simp [Kernel.ends, setTty, Function.update_of_ne hOther]
  | writer other =>
      by_cases hOther : other = id
      · subst hOther
        simp [Kernel.ends, setTty, hWriters]
      · simp [Kernel.ends, setTty, Function.update_of_ne hOther]
  | _ => rfl

theorem ends_setTty (s : Kernel) (id : Nat) (tty : Tty)
    (hReaders : tty.readers = (s.ttys id).readers) (hWriters : tty.writers = (s.ttys id).writers) :
    (s.setTty id tty).ends = s.ends := by
  rw [ends_setTty_writers s id tty hReaders, hWriters]
  exact Function.update_eq_self (.writer id) s.ends

theorem ends_update_sched (s : Kernel) (type : QueueType) (ends : Ends Proc) (length : Nat)
    (next : Proc → Option Proc) :
    ({ s with next := next, queues := Function.update s.queues type ⟨ends, length⟩ } : Kernel).ends =
      Function.update s.ends (.sched type) ends := by
  refine ends_eq_update (by simp [Kernel.ends]) fun k hk => ?_
  cases k with
  | sched other =>
      have hOther : other ≠ type := fun he => hk (he ▸ rfl)
      simp [Kernel.ends, Function.update_of_ne hOther]
  | _ => rfl

/-- `enque_process` looks at the stored length. -/
theorem enqueProcess_of_queue {type : QueueType} {nodes : List Proc}
    (hQueue : IsQueue s.next (s.queues type).ends nodes) (hLength : (s.queues type).length = nodes.length) (p : Proc) :
    s.enqueProcess type p = { s with
      next := (push s.next (s.queues type).ends p).1
      queues := Function.update s.queues type
        ⟨(push s.next (s.queues type).ends p).2, (s.queues type).length + 1⟩ } := by
  unfold enqueProcess push
  cases hLast : (s.queues type).ends.last with
  | none =>
      have hNil := hQueue.last_eq_none_iff.mp hLast
      simp [hLength, hNil]
  | some tail =>
      have hPos : (s.queues type).length ≠ 0 := by
        rw [hLength]
        exact List.length_pos_of_mem (List.mem_of_getLast? (hQueue.2 ▸ hLast)) |>.ne'
      simp [hPos, hLast]

theorem enqueProcess_eq (h : Placement s.shape lists) (type : QueueType) (p : Proc) :
    s.enqueProcess type p = { s with
      next := (push s.next (s.queues type).ends p).1
      queues := Function.update s.queues type
        ⟨(push s.next (s.queues type).ends p).2, (s.queues type).length + 1⟩ } :=
  enqueProcess_of_queue (h.linked (.sched type)) (h.length type) p

/-- `deque_process` looks at the stored length, before and after. -/
theorem dequeProcess_of_queue {x : Proc} {rest : List Proc}
    (hQueue : IsQueue s.next (s.queues .main).ends (x :: rest)) (hLength : (s.queues .main).length = (x :: rest).length) :
    s.dequeProcess = ({ s with
      next := (pop s.next (s.queues .main).ends).2.1
      queues := Function.update s.queues .main
        ⟨(pop s.next (s.queues .main).ends).2.2, (s.queues .main).length - 1⟩ }, some x) := by
  have hFirst : (s.queues .main).ends.first = some x := hQueue.1.1
  have hLast : (if (s.queues .main).length - 1 = 0 then none else (s.queues .main).ends.last) =
      if s.next x = none then none else (s.queues .main).ends.last := by
    cases rest with
    | nil =>
        have hNull : s.next x = none := hQueue.1.2
        simp [hLength, hNull]
    | cons second rest =>
        have hSome : s.next x = some second := hQueue.1.2.1
        simp [hLength, hSome]
  have hPos : (s.queues .main).length ≠ 0 := by simp [hLength]
  simp only [dequeProcess, pop, hFirst, hLast, hPos, if_false]

theorem dequeProcess_eq {x : Proc} {rest : List Proc} (h : Placement s.shape lists)
    (hList : lists (.queue (.sched .main)) = x :: rest) :
    s.dequeProcess = ({ s with
      next := (pop s.next (s.queues .main).ends).2.1
      queues := Function.update s.queues .main
        ⟨(pop s.next (s.queues .main).ends).2.2, (s.queues .main).length - 1⟩ }, some x) :=
  dequeProcess_of_queue (hList ▸ h.linked (.sched .main)) ((h.length .main).trans (congrArg List.length hList))

/-- The walk of `find_blocked_process` stops at a member that satisfies the
condition, with the member in front of it as its predecessor. -/
theorem findBlockedFrom_some {type : QueueType} {cond : Kernel → Proc → Option Kernel} {fuel : Nat}
    {prev curr : Option Proc} {nodes : List Proc} (hChain : Chain s.next curr nodes)
    (h : s.findBlockedFrom type cond fuel prev curr = (t, some p)) :
    ∃ front back u, nodes = front ++ p :: back ∧ cond s p = some u ∧
      t = { u with
        next := (unlink u.next (u.queues type).ends (front.getLast?.or prev) p).1
        queues := Function.update u.queues type
          ⟨(unlink u.next (u.queues type).ends (front.getLast?.or prev) p).2,
            (u.queues type).length - 1⟩ } := by
  induction fuel generalizing prev curr nodes with
  | zero => cases curr <;> simp [findBlockedFrom] at h
  | succ fuel ih =>
      cases nodes with
      | nil =>
          obtain rfl : curr = none := hChain
          simp [findBlockedFrom] at h
      | cons node nodes =>
          obtain ⟨rfl, hRest⟩ := hChain
          unfold findBlockedFrom at h
          split at h
          · obtain ⟨front, back, u, rfl, hCond, ht⟩ := ih hRest h
            refine ⟨node :: front, back, u, rfl, hCond, ?_⟩
            have hPrev : (node :: front).getLast?.or prev = front.getLast?.or (some node) := by
              cases front with
              | nil => simp
              | cons other front => simp [List.getLast?_cons]
            rw [hPrev]
            exact ht
          · rename_i u hCond
            obtain ⟨rfl, hp⟩ := Prod.mk.inj h
            obtain rfl := Option.some.inj hp
            exact ⟨[], nodes, u, rfl, hCond, rfl⟩

/-- An event that one log takes notice of. -/
theorem log_emit_logged (s : Kernel) {e : Event} {q : QueueId} {entry : Entry Proc} (hq : q.isLogged = true)
    (hSelf : e.enter s.idleProc q (s.log q) = s.log q ++ [entry])
    (hOther : ∀ k, k ≠ q → e.enter s.idleProc k (s.log k) = s.log k) :
    (s.emit e).log = logged s.log q entry := by
  funext k
  rw [log_emit, logged, if_pos hq]
  by_cases hk : k = q
  · subst hk
    rw [Function.update_self, hSelf]
  · rw [Function.update_of_ne hk, hOther k hk]

theorem log_ready (s : Kernel) (p : Proc) :
    (s.emit (.ready p)).log = logged s.log (.sched .main) (.join p) := by
  refine log_emit_logged s rfl rfl fun k hk => ?_
  cases k with
  | sched type =>
      cases type with
      | main => exact absurd rfl hk
      | waitBlocking | ioBlocking => rfl
  | lock | cvar | pipe | writer | reader => rfl

theorem log_dispatched (s : Kernel) (p : Proc) : (s.emit (.dispatched p)).log =
    logged s.log (.sched .main) (if p = s.idleProc then .idle else .serve p) := by
  refine log_emit_logged s rfl rfl fun k hk => ?_
  cases k with
  | sched type =>
      cases type with
      | main => exact absurd rfl hk
      | waitBlocking | ioBlocking => rfl
  | lock | cvar | pipe | writer | reader => rfl

theorem log_requested (s : Kernel) (id : Nat) (p : Proc) :
    (s.emit (.lockRequested id p)).log = logged s.log (.lock id) (.join p) := by
  refine log_emit_logged s rfl (if_pos rfl) fun k hk => ?_
  cases k with
  | lock other => exact if_neg fun he : id = other => hk (he ▸ rfl)
  | sched type => cases type <;> rfl
  | cvar | pipe | writer | reader => rfl

theorem log_granted (s : Kernel) (id : Nat) (p : Proc) :
    (s.emit (.lockGranted id p)).log = logged s.log (.lock id) (.serve p) := by
  refine log_emit_logged s rfl (if_pos rfl) fun k hk => ?_
  cases k with
  | lock other => exact if_neg fun he : id = other => hk (he ▸ rfl)
  | sched type => cases type <;> rfl
  | cvar | pipe | writer | reader => rfl

end Kernel

namespace Placement

/-- `enque_process` of a process that is not in a container. -/
theorem enqueProcess {a : Place} {log : QueueId → List (Entry Proc)} (h : Placement s.shape lists)
    (ha : Free a) (hx : lists a = [p]) (type : QueueType)
    (hLog : log = logged s.log (.sched type) (.join p)) :
    Placement { (s.enqueProcess type p).shape with log := log }
      (move lists a (.queue (.sched type)) [] (lists (.queue (.sched type)) ++ [p])) := by
  rw [Kernel.enqueProcess_eq h]
  refine h.push ha hx (.sched type) rfl (Kernel.ends_update_sched s type _ _ _) ?_ rfl rfl rfl hLog
  intro other
  by_cases ho : other = type
  · subst ho
    simp [Kernel.shape]
  · simp [Kernel.shape, Function.update_of_ne ho, Ne.symm ho]

/-- A process that is not in a container becomes ready. -/
theorem ready {a : Place} (h : Placement s.shape lists) (ha : Free a) (hx : lists a = [p]) :
    Placement ((s.enqueProcess .main p).emit (.ready p)).shape
      (move lists a (.queue (.sched .main)) [] (lists (.queue (.sched .main)) ++ [p])) :=
  h.enqueProcess ha hx .main (Kernel.log_ready (s.enqueProcess .main p) p)

/-- `schedule_process`. -/
theorem scheduleProcess {a : Place} (h : Placement s.shape lists) (ha : Free a) (hx : lists a = [p]) :
    Placement (s.scheduleProcess p).shape
      (move lists a (.queue (.sched .main)) [] (lists (.queue (.sched .main)) ++ [p])) := by
  have hLive : s.Live p := h.live_of_mem (a := a) (by simp [hx])
  unfold Kernel.scheduleProcess
  rw [if_neg hLive.1]
  have hReady : Placement (s.setState p .ready).shape lists := by
    rwa [Kernel.shape_setState hLive (by simp)]
  exact hReady.ready ha hx

/-- `get_next_process` takes the first ready process into the kernel's hands,
or finds none. -/
theorem getNextProcess (h : Placement s.shape lists) (hHand : lists .hand = []) :
    (lists (.queue (.sched .main)) = [] ∧ s.getNextProcess = (s.emit (.dispatched s.idleProc), s.idleProc) ∧
        Placement s.getNextProcess.1.shape lists) ∨
      ∃ x rest, lists (.queue (.sched .main)) = x :: rest ∧ s.getNextProcess.2 = x ∧
        Placement s.getNextProcess.1.shape
          (move lists (.queue (.sched .main)) .hand rest [x]) := by
  cases hList : lists (.queue (.sched .main)) with
  | nil =>
      have hLength : (s.queues .main).length = (lists (.queue (.sched .main))).length :=
        h.length .main
      rw [hList, List.length_nil] at hLength
      have hNext : s.getNextProcess = (s.emit (.dispatched s.idleProc), s.idleProc) := by
        simp [Kernel.getNextProcess, Kernel.dequeProcess, hLength]
      refine Or.inl ⟨rfl, hNext, ?_⟩
      rw [hNext]
      refine h.relog (f := (s.emit (.dispatched s.idleProc)).log) fun q hq => ?_
      rw [Kernel.log_dispatched, if_pos rfl]
      refine serves_logged h.served (fun _ _ => rfl) (fun hMain => ?_) q hq
      rw [hList]
      exact .idle (hList ▸ h.served (.sched .main) hMain)
  | cons x rest =>
      have hLive : s.Live x := h.live_of_mem (a := .queue (.sched .main)) (by simp [hList])
      refine Or.inr ⟨x, rest, rfl, ?_, ?_⟩
      · simp [Kernel.getNextProcess, Kernel.dequeProcess_eq h hList]
      · rw [Kernel.getNextProcess, Kernel.dequeProcess_eq h hList]
        dsimp only
        have hRunning : Placement (s.setState x .running).shape lists := by
          rwa [Kernel.shape_setState hLive (by simp)]
        refine hRunning.pop hList hHand rfl (Kernel.ends_update_sched (s.setState x .running) .main _ _
          (IntrusiveQueue.pop s.next (s.queues .main).ends).2.1) ?_ rfl rfl rfl ?_
        · intro other
          by_cases ho : other = .main
          · subst ho
            simp [Kernel.shape, Kernel.emit, Kernel.setState, Kernel.modifyPcb]
          · simp [Kernel.shape, Kernel.emit, Kernel.setState, Kernel.modifyPcb,
              Function.update_of_ne ho, Ne.symm ho]
        · have hLog := Kernel.log_dispatched (s.setState x .running) x
          have hIdle : x ≠ (s.setState x .running).idleProc := hLive.1
          rw [if_neg hIdle] at hLog
          exact hLog

/-- `find_blocked_process` with a quiet condition unlinks one member of the
queue. -/
theorem findBlockedProcess {type : QueueType} {cond : Kernel → Proc → Option Kernel}
    (h : Placement s.shape lists) (hHand : lists .hand = [])
    (hQuiet : ∀ p u, cond s p = some u → Quiet s u) (hType : (QueueId.sched type).isLogged = false)
    (hFind : s.findBlockedProcess type cond = (t, some p)) :
    ∃ front back, lists (.queue (.sched type)) = front ++ p :: back ∧
      Placement t.shape (move lists (.queue (.sched type)) .hand (front ++ back) [p]) := by
  obtain ⟨front, back, u, hNodes, hCond, ht⟩ :=
    Kernel.findBlockedFrom_some (h.linked (.sched type)).1 hFind
  have hu := hQuiet p u hCond
  have hPlaced : Placement u.shape lists := by rwa [hu.shape]
  refine ⟨front, back, hNodes, ?_⟩
  rw [Option.or_none] at ht
  subst ht
  refine hPlaced.unlink hNodes hHand rfl (Kernel.ends_update_sched u type _ _ _) ?_ rfl rfl rfl hType rfl
  intro other
  by_cases ho : other = type
  · subst ho
    simp [Kernel.shape]
  · simp [Kernel.shape, Function.update_of_ne ho, Ne.symm ho]

/-- `add_to_heap` of a process that is not in a container. -/
theorem addToHeap {a : Place} {growOk : Bool} (h : Placement s.shape lists) (ha : Free a)
    (hx : lists a = [p]) (hAdd : s.addToHeap p growOk = some t) :
    Placement t.shape (move lists a .sleeping [] t.sleepers.arr.toList) := by
  obtain ⟨hPerm, ht⟩ := Kernel.perm_addToHeap hAdd
  have hSleeping : lists .sleeping = s.sleepers.arr.toList := h.sleeping
  refine h.shift ha.ne_sleeping.symm ha.ne_queue (by simp) (by rw [hx]) (hSleeping ▸ hPerm)
    ?_ ?_ ?_ move_target ?_ ?_ ?_
  · rw [ht]
    rfl
  · rw [ht]
    rfl
  · rw [ht]
    rfl
  · intro tty
    rw [move_other (ha.ne_transmitting tty) (by simp), h.owner, ht]
    rfl
  · rw [ht]
    rfl
  · rw [ht]
    rfl

/-- `remove_from_heap` takes the root into the kernel's hands. -/
theorem removeFromHeap {shrinkOk : Bool} (h : Placement s.shape lists) (hHand : lists .hand = [])
    (hRemove : s.removeFromHeap shrinkOk = (t, some p)) :
    Placement t.shape (move lists .sleeping .hand t.sleepers.arr.toList [p]) := by
  obtain ⟨hPerm, ht⟩ := Kernel.perm_removeFromHeap hRemove
  have hSleeping : lists .sleeping = s.sleepers.arr.toList := h.sleeping
  refine h.shift (by simp) (by simp) (by simp) (hSleeping ▸ hPerm) (by rw [hHand])
    ?_ ?_ ?_ (move_source (by simp)) ?_ ?_ ?_
  · rw [ht]
    rfl
  · rw [ht]
    rfl
  · rw [ht]
    rfl
  · intro tty
    rw [move_other (by simp) (by simp), h.owner, ht]
    rfl
  · rw [ht]
    rfl
  · rw [ht]
    rfl

end Placement
end Yalnix
