import Yalnix.Library.Admission
import Yalnix.Process.Dispatch
import Yalnix.Process.LockUsage

/-! What a signal or a broadcast does to the waiters of a condition variable: each asks
for its lock again, in the order of waiting, and is ready if a permit is free and
queued for the lock otherwise. -/
namespace Yalnix

open Hardware Synchronization Identifiers Fifo Admission

/-- What the history notes when some waiters ask for their locks. -/
def wakeNotes (lockOf : Proc → Nat) : (Nat → Nat) → List Proc → List Event
  | _, [] => []
  | free, p :: rest =>
      .lockRequested (lockOf p) p ::
        ((if 0 < free (lockOf p) then [.lockGranted (lockOf p) p, .ready p] else []) ++
          wakeNotes lockOf (spend free (lockOf p)) rest)

section Notes

variable (lockOf : Proc → Nat) (free : Nat → Nat) (woken : List Proc)

theorem readied_wakeNotes : readied (wakeNotes lockOf free woken) = allot lockOf free woken := by
  induction woken generalizing free with
  | nil => rfl
  | cons p rest ih =>
      have hRest := ih (spend free (lockOf p))
      simp only [readied] at hRest ⊢
      by_cases hFree : 0 < free (lockOf p)
      · simp [wakeNotes, allot, hFree, hRest]
      · simp [wakeNotes, allot, hFree, hRest]

theorem dispatches_wakeNotes (idle : Proc) : dispatches idle (wakeNotes lockOf free woken) = [] := by
  induction woken generalizing free with
  | nil => rfl
  | cons p rest ih =>
      have hRest := ih (spend free (lockOf p))
      simp only [dispatches] at hRest ⊢
      by_cases hFree : 0 < free (lockOf p)
      · simp [wakeNotes, hFree, hRest]
      · simp [wakeNotes, hFree, hRest]

theorem requests_wakeNotes (id : Nat) : requests id (wakeNotes lockOf free woken) = woken.filter (lockOf · = id) := by
  induction woken generalizing free with
  | nil => rfl
  | cons p rest ih =>
      have hRest := ih (spend free (lockOf p))
      simp only [requests] at hRest ⊢
      by_cases hk : lockOf p = id
      · subst hk
        by_cases hFree : 0 < free (lockOf p)
        · simp [wakeNotes, hFree, hRest]
        · simp [wakeNotes, hFree, hRest]
      · by_cases hFree : 0 < free (lockOf p)
        · simp [wakeNotes, hFree, hk, hRest]
        · simp [wakeNotes, hFree, hk, hRest]

theorem grants_wakeNotes (id : Nat) :
    grants id (wakeNotes lockOf free woken) = (allot lockOf free woken).filter (lockOf · = id) := by
  induction woken generalizing free with
  | nil => rfl
  | cons p rest ih =>
      have hRest := ih (spend free (lockOf p))
      simp only [grants] at hRest ⊢
      by_cases hFree : 0 < free (lockOf p)
      · by_cases hk : lockOf p = id
        · subst hk
          simp [wakeNotes, allot, hFree, hRest]
        · simp [wakeNotes, allot, hFree, hk, hRest]
      · simp [wakeNotes, allot, hFree, hRest]

theorem not_created_wakeNotes {e : Event} (he : e ∈ wakeNotes lockOf free woken) (id : Nat) : e ≠ .lockCreated id := by
  induction woken generalizing free with
  | nil => cases he
  | cons p rest ih =>
      simp only [wakeNotes, List.mem_cons, List.mem_append] at he
      rcases he with rfl | he | he
      · simp
      · split_ifs at he
        · rcases List.mem_cons.mp he with rfl | he
          · simp
          · obtain rfl := List.mem_singleton.mp he
            simp
        · cases he
      · exact ih _ he

end Notes

namespace Kernel

variable {s t u : Kernel} {cvarId : Nat} {p : Proc} {woken rest : List Proc}

/-- The free permits of a lock or semaphore. -/
def freePermits (s : Kernel) (id : Nat) : Nat := (s.locks.entries id).val.toNat

/-- Some waiters have asked for their locks, one after the other. -/
structure Signalled (s t : Kernel) (woken : List Proc) : Prop where
  trace : t.trace = s.trace ++ wakeNotes (fun p => (s.pcb p).cvarLockId) s.freePermits woken
  free : t.freePermits = woken.foldl (fun free p => spend free (s.pcb p).cvarLockId) s.freePermits
  lockIds : ∀ p, (t.pcb p).cvarLockId = (s.pcb p).cvarLockId
  cpu : t.cpu = s.cpu

theorem Signalled.refl (s : Kernel) : Signalled s s [] := ⟨by simp [wakeNotes], rfl, fun _ => rfl, rfl⟩

theorem Signalled.cons (hFirst : Signalled s u [p]) (hRest : Signalled u t rest) : Signalled s t (p :: rest) := by
  have hLockIds : (fun q => (u.pcb q).cvarLockId) = fun q => (s.pcb q).cvarLockId := funext hFirst.lockIds
  have hFree : u.freePermits = spend s.freePermits (s.pcb p).cvarLockId := hFirst.free
  refine ⟨?_, ?_, fun q => (hRest.lockIds q).trans (hFirst.lockIds q), hRest.cpu.trans hFirst.cpu⟩
  · rw [hRest.trace, hFirst.trace, hLockIds, hFree, List.append_assoc]
    simp [wakeNotes]
  · rw [hRest.free, hFree]
    simp only [hFirst.lockIds, List.foldl_cons]

/-- Whoever asks takes a permit, if there is one. -/
theorem freePermits_acquire {id : Nat} {cvarUse : Bool} {result : Acquired}
    (hAcquire : s.acquire id p cvarUse = (t, result)) (hResult : result ≠ .error) :
    t.freePermits = spend s.freePermits id := by
  obtain ⟨lock, hSet, -, hNotes⟩ := acquire_notes hAcquire hResult
  funext k
  by_cases hk : k = id
  · subst hk
    have hEntry : t.locks.entries k = lock := by simp [hSet, Table.set]
    rw [spend_self, freePermits, freePermits, hEntry]
    rcases hNotes with ⟨hVal, -, hLeft, -⟩ | ⟨hVal, -, hLeft, -⟩ <;> omega
  · rw [spend_of_ne _ hk, freePermits, freePermits, hSet]
    simp [Table.set, Function.update_of_ne hk]

theorem trace_scheduleProcess (hIdle : p ≠ s.idleProc) : (s.scheduleProcess p).trace = s.trace ++ [.ready p] := by
  rw [scheduleProcess, if_neg hIdle]
  rfl

theorem trace_popCvar {waiter : Option Proc} (hPop : s.popCvar cvarId = (t, waiter)) : t.trace = s.trace := by
  have hSame : (s.popCvar cvarId).1.trace = s.trace := by
    unfold popCvar
    dsimp only
    split <;> rfl
  rwa [hPop] at hSame

/-- A waiter off its condition variable asks for its lock. -/
theorem signalled_reacquire (hIdle : p ≠ s.idleProc)
    (hResult : (s.acquire (s.pcb p).cvarLockId p true).2 ≠ .error) : Signalled s (s.reacquire p) [p] := by
  unfold reacquire
  generalize hAcquire : s.acquire (s.pcb p).cvarLockId p true = acquired at hResult ⊢
  obtain ⟨t, result⟩ := acquired
  have hFree := freePermits_acquire hAcquire hResult
  obtain ⟨lock, -, -, hNotes⟩ := acquire_notes hAcquire hResult
  obtain ⟨-, -, hPcb, -⟩ := acquire_spec hAcquire hResult
  have hCpu : t.cpu = s.cpu := cpu_of_outside (outside_fst (outside_acquire s _ _ _) hAcquire)
  have hSame : t.idleProc = s.idleProc := congrArg Cpu.idleProc hCpu
  rcases hNotes with ⟨hVal, rfl, -, hTrace⟩ | ⟨hVal, rfl, -, hTrace⟩
  · have hView := syncView_scheduleProcess t p
    refine ⟨?_, ?_, fun q => ?_, ?_⟩
    · rw [trace_scheduleProcess (hSame ▸ hIdle), hTrace]
      simp [wakeNotes, freePermits, hVal]
    · refine Eq.trans ?_ hFree
      exact congrArg (fun locks : Table Lock => fun id => (locks.entries id).val.toNat)
        (congrArg SyncView.locks hView)
    · refine (congrFun (congrArg SyncView.lockIds hView) q).trans ?_
      exact congrArg (fun pcb : Proc → Pcb => (pcb q).cvarLockId) hPcb
    · exact (cpu_of_outside (outside_scheduleProcess t p)).trans hCpu
  · refine ⟨?_, hFree, fun q => ?_, hCpu⟩
    · rw [hTrace]
      simp [wakeNotes, freePermits, hVal]
    · exact congrArg (fun pcb : Proc → Pcb => (pcb q).cvarLockId) hPcb

variable [Hardware]

/-- The first waiter asks for its lock. -/
theorem signalled_turn (h : KernelStart.Sound s) (hPop : s.popCvar cvarId = (u, some p)) :
    Signalled s (u.reacquire p) [p] ∧
      s.contents (.queue (.cvar cvarId)) = p :: (u.reacquire p).contents (.queue (.cvar cvarId)) := by
  obtain ⟨hLocks, hPcb⟩ := popCvar_frame hPop
  obtain ⟨hHead, queue, -, hCalm⟩ := h.signal hPop
  constructor
  · have hCpu : u.cpu = s.cpu := cpu_of_outside (outside_fst (outside_popCvar s _) hPop)
    have hIdle : u.idleProc = s.idleProc := congrArg Cpu.idleProc hCpu
    have hLive := h.settled.placement.live_of_mem (List.mem_of_mem_head? hHead)
    have hTurn := signalled_reacquire (hIdle ▸ hLive.1) (acquire_popCvar h hPop)
    have hFree : u.freePermits = s.freePermits := by
      unfold freePermits
      rw [hLocks]
    obtain ⟨hTrace, hLeft, hLockIds, hKept⟩ := hTurn
    rw [hFree, hPcb] at hTrace hLeft
    rw [trace_popCvar hPop] at hTrace
    exact ⟨hTrace, hLeft, hPcb ▸ hLockIds, hKept.trans hCpu⟩
  · rw [hCalm _ rfl, Function.update_of_ne (by simp), Function.update_self]
    exact List.eq_cons_of_mem_head? hHead

/-- When nobody waits, nobody is popped. -/
theorem popCvar_none (h : KernelStart.Sound s) (hPop : s.popCvar cvarId = (u, none)) :
    s.contents (.queue (.cvar cvarId)) = [] := by
  have hQueue : IntrusiveQueue.IsQueue s.next (s.cvars.entries cvarId).ends (s.contents (.queue (.cvar cvarId))) :=
    h.settled.placement.linked (.cvar cvarId)
  cases hList : s.contents (.queue (.cvar cvarId)) with
  | nil => rfl
  | cons first rest =>
      rw [hList] at hQueue
      have hFirst := hQueue.pop_fst
      unfold popCvar at hPop
      dsimp only at hPop
      split at hPop
      · rename_i hNone
        rw [hNone] at hFirst
        cases hFirst
      · cases hPop

/-- The loop of `broadcast_cvar` wakes all waiters, when it has a turn for each. -/
theorem signalled_loop (h : KernelStart.Sound s) {fuel : Nat}
    (hFuel : (s.contents (.queue (.cvar cvarId))).length ≤ fuel) :
    Signalled s (s.broadcastLoop cvarId fuel) (s.contents (.queue (.cvar cvarId))) ∧
      (s.broadcastLoop cvarId fuel).contents (.queue (.cvar cvarId)) = [] ∧
      KernelStart.Sound (s.broadcastLoop cvarId fuel) := by
  induction fuel generalizing s with
  | zero =>
      have hNil := List.length_eq_zero_iff.mp (Nat.le_zero.mp hFuel)
      rw [hNil]
      exact ⟨.refl s, hNil, h⟩
  | succ fuel ih =>
      unfold broadcastLoop
      split
      · rename_i u hPop
        have hNil := popCvar_none h hPop
        obtain rfl := eq_of_popCvar_none hPop
        rw [hNil]
        exact ⟨.refl u, rfl, h⟩
      · rename_i u p hPop
        obtain ⟨hFirst, hList⟩ := signalled_turn h hPop
        have hNext := h.effects (Effect.signal hPop : Effect .math _ _).one
        rw [hList, List.length_cons] at hFuel
        obtain ⟨hRest, hDone, hSound⟩ := ih hNext (by omega)
        rw [hList]
        exact ⟨hFirst.cons hRest, hDone, hSound⟩

/-- Each of these waiters is ready, if a permit of its lock was left for it, and is
queued for the lock otherwise. -/
structure Distributed (s t : Kernel) (woken : List Proc) : Prop where
  ready : t.contents (.queue (.sched .main)) = s.contents (.queue (.sched .main)) ++
    allot (fun p => (s.pcb p).cvarLockId) s.freePermits woken
  queued : ∀ id, t.contents (.queue (.lock id)) = s.contents (.queue (.lock id)) ++
    (woken.filter fun p => (s.pcb p).cvarLockId = id).drop (s.freePermits id)
  free : ∀ id, t.freePermits id =
    s.freePermits id - (woken.filter fun p => (s.pcb p).cvarLockId = id).length

/-- Nobody is queued for a lock that has a free permit. -/
theorem contents_lock_of_free (h : KernelStart.Sound s) {id : Nat} (hFree : s.freePermits id ≠ 0) :
    s.contents (.queue (.lock id)) = [] := by
  by_contra hQueue
  cases hUse : (s.locks.entries id).inUse with
  | false => exact hQueue (h.settled.sync.lock_unused id hUse)
  | true =>
      have hLock : LockInv (s.locks.entries id) _ _ _ := h.settled.sync.lock id hUse
      have hZero := hLock.full hQueue
      rw [freePermits, hZero] at hFree
      exact hFree rfl

theorem Signalled.distributed (h : Signalled s t woken) (hBefore : KernelStart.Sound s) (hAfter : KernelStart.Sound t) :
    Distributed s t woken where
  ready := by
    have hIdle : t.idleProc = s.idleProc := congrArg Cpu.idleProc h.cpu
    have hLast := served_main hAfter
    rw [hIdle, h.trace, List.filterMap_append] at hLast
    have hWindow := (served_main hBefore).window hLast
    rw [joins_turns, serves_dispatches, readied_wakeNotes, dispatches_wakeNotes, List.nil_append] at hWindow
    exact hWindow.symm
  queued id := by
    have hFirst := hBefore.settled.placement.served (.lock id) rfl
    have hLast := hAfter.settled.placement.served (.lock id) rfl
    have hLog : t.log (.lock id) = s.log (.lock id) ++
        (wakeNotes (fun p => (s.pcb p).cvarLockId) s.freePermits woken).filterMap (Event.request id) := by
      have hIdle : t.idleProc = s.idleProc := congrArg Cpu.idleProc h.cpu
      rw [log, log, hIdle, h.trace, List.foldl_append]
      exact foldl_enter _ fun e he log => enter_lock (not_created_wakeNotes _ _ _ he id) log
    rw [show t.shape.log = t.log from rfl, hLog] at hLast
    have hWindow := hFirst.window hLast
    rw [joins_requests, serves_requests, requests_wakeNotes, grants_wakeNotes, filter_allot] at hWindow
    by_cases hFree : s.freePermits id = 0
    · rw [hFree, List.take_zero, List.nil_append] at hWindow
      rw [hFree, List.drop_zero]
      exact hWindow.symm
    · rw [contents_lock_of_free hBefore hFree, List.nil_append] at hWindow ⊢
      generalize (woken.filter fun p => (s.pcb p).cvarLockId = id) = asking at hWindow ⊢
      exact (List.append_cancel_left ((List.take_append_drop _ asking).trans hWindow)).symm
  free id := by
    rw [h.free]
    exact foldl_spend (fun p => (s.pcb p).cvarLockId) s.freePermits woken id

/-- Saving and setting registers on either side changes nothing. -/
theorem Distributed.quiet {r : Kernel} (h : Distributed s t woken) (hBefore : Quiet r s) (hAfter : Quiet t u)
    (hFirst : KernelStart.Sound r) (hLast : KernelStart.Sound t) : Distributed r u woken := by
  have hStart : s.contents = r.contents := (hFirst.settled.quiet hBefore).contents_eq
  have hEnd : u.contents = t.contents := (hLast.settled.quiet hAfter).contents_eq
  have hFree : s.freePermits = r.freePermits := by
    unfold freePermits
    rw [hBefore.locks]
  have hLeft : u.freePermits = t.freePermits := by
    unfold freePermits
    rw [hAfter.locks]
  obtain ⟨hReady, hQueued, hPermits⟩ := h
  simp only [hStart, hFree, hBefore.cvarLockId] at hReady hQueued hPermits
  exact ⟨by rw [hEnd, hReady], fun id => by rw [hEnd, hQueued], fun id => by rw [hLeft, hPermits]⟩

/-- Waiters of a condition variable were woken, and these are left. -/
structure Woke (s t : Kernel) (cvarId : Nat) (woken left : List Proc) : Prop extends Distributed s t woken where
  left : t.contents (.queue (.cvar cvarId)) = left
  running : t.runningProc = s.runningProc
  sound : KernelStart.Sound t

theorem Signalled.woke {left : List Proc} (h : Signalled s t woken) (hBefore : KernelStart.Sound s)
    (hAfter : KernelStart.Sound t) (hLeft : t.contents (.queue (.cvar cvarId)) = left) : Woke s t cvarId woken left :=
  ⟨h.distributed hBefore hAfter, hLeft, runningProc_of_cpu h.cpu, hAfter⟩

/-- `signal_cvar` of a condition variable in use. -/
theorem woke_signalCvar (h : KernelStart.Sound s) (hSize : cvarId < s.cvars.size)
    (hUse : (s.cvars.entries cvarId).inUse = true) :
    (s.signalCvar cvarId).2 = true ∧ Woke s (s.signalCvar cvarId).1 cvarId
      ((s.contents (.queue (.cvar cvarId))).take 1) ((s.contents (.queue (.cvar cvarId))).drop 1) := by
  unfold signalCvar
  rw [if_neg (by simp [hUse, hSize])]
  split
  · rename_i u hPop
    have hNil := popCvar_none h hPop
    obtain rfl := eq_of_popCvar_none hPop
    rw [hNil]
    exact ⟨rfl, (Signalled.refl u).woke h h hNil⟩
  · rename_i u p hPop
    obtain ⟨hFirst, hList⟩ := signalled_turn h hPop
    rw [hList]
    exact ⟨rfl, hFirst.woke h (h.effects (Effect.signal hPop : Effect .math _ _).one) rfl⟩

/-- `broadcast_cvar` of a condition variable in use. -/
theorem woke_broadcastCvar (h : KernelStart.Sound s) (hSize : cvarId < s.cvars.size)
    (hUse : (s.cvars.entries cvarId).inUse = true) :
    (s.broadcastCvar cvarId).2 = true ∧
      Woke s (s.broadcastCvar cvarId).1 cvarId (s.contents (.queue (.cvar cvarId))) [] := by
  obtain ⟨hAll, hDone, hSound⟩ := signalled_loop h (h.settled.length_le (.cvar cvarId))
  unfold broadcastCvar
  rw [if_neg (by simp [hUse, hSize])]
  exact ⟨rfl, hAll.woke h hSound hDone⟩

/-- The end of a call that has woken somebody. -/
theorem Woke.returned {uc : UserContext} {left : List Proc} (hSound : KernelStart.Sound s)
    (h : Woke (s.saveUc uc) t cvarId woken left) :
    (((t.retBool true).leave).pcb s.runningProc).uc.regs 0 = successCode ∧
      Distributed s (t.retBool true).leave woken ∧
      (t.retBool true).leave.contents (.queue (.cvar cvarId)) = left := by
  have hEnd : Quiet t (t.retBool true).leave := (Quiet.ret t successCode).trans (Quiet.leave _)
  refine ⟨?_, h.toDistributed.quiet (.saveUc s uc) hEnd hSound h.sound, ?_⟩
  · have hRunning : s.runningProc = t.runningProc := h.running.symm
    rw [leave_pcb, hRunning]
    exact ret_result t successCode
  · rw [(h.sound.settled.quiet hEnd).contents_eq]
    exact h.left

end Kernel

namespace KernelStart

open Kernel

/-- A signal wakes the first waiter of a condition variable and a broadcast all of them.
In the order of waiting each asks for its own lock: for every lock as many get it as it has
free permits and are ready, and the others join its queue. Nobody is left out. -/
theorem cvar_wakes [Hardware] {s : Kernel} (run : system.Reachable s) {uc : UserContext} {o : Outcomes}
    {cvarId : Nat} (hKind : isCvarId (uc.regs 0) = true) (hId : getId (uc.regs 0) = cvarId)
    (hUse : (s.cvars.entries cvarId).inUse = true) :
    (∀ t, s.step (.syscall .cvarSignal uc o) = .ok t → (t.pcb s.runningProc).uc.regs 0 = successCode ∧
      Distributed s t ((s.contents (.queue (.cvar cvarId))).take 1) ∧
      t.contents (.queue (.cvar cvarId)) = (s.contents (.queue (.cvar cvarId))).drop 1) ∧
    ∀ t, s.step (.syscall .cvarBroadcast uc o) = .ok t → (t.pcb s.runningProc).uc.regs 0 = successCode ∧
      Distributed s t (s.contents (.queue (.cvar cvarId))) ∧ t.contents (.queue (.cvar cvarId)) = [] := by
  have h := sound_reachable run
  have hSave := Quiet.saveUc s uc
  have hSaved := h.quiet hSave
  have hContents : (s.saveUc uc).contents = s.contents := (h.settled.quiet hSave).contents_eq
  have hSize : cvarId < s.cvars.size := by
    by_contra hBeyond
    have hBlank : s.cvars.entries cvarId = .blank := h.settled.sync.cvars.beyond cvarId (Nat.not_lt.mp hBeyond)
    rw [hBlank] at hUse
    cases hUse
  constructor
  · intro t hStep
    obtain ⟨hTrue, hWoke⟩ := woke_signalCvar hSaved (hSave.cvars ▸ hSize) (hSave.cvars ▸ hUse)
    rw [hContents] at hWoke
    simp only [step] at hStep
    split_ifs at hStep
    obtain ⟨u, hCall, hLeave⟩ := Transition.bind_eq_ok.mp hStep
    obtain rfl := Except.ok.inj hLeave
    obtain rfl := Except.ok.inj hCall
    simp only [kernelCvarSignal, reg_saveUc, hKind, hId, hTrue, Bool.true_eq_false, if_false]
    exact hWoke.returned h
  · intro t hStep
    obtain ⟨hTrue, hWoke⟩ := woke_broadcastCvar hSaved (hSave.cvars ▸ hSize) (hSave.cvars ▸ hUse)
    rw [hContents] at hWoke
    simp only [step] at hStep
    split_ifs at hStep
    obtain ⟨u, hCall, hLeave⟩ := Transition.bind_eq_ok.mp hStep
    obtain rfl := Except.ok.inj hLeave
    obtain rfl := Except.ok.inj hCall
    simp only [kernelCvarBroadcast, reg_saveUc, hKind, hId, hTrue, Bool.true_eq_false, if_false]
    exact hWoke.returned h

open Sample in
/-- Two processes wait with one lock: the first one gets it, the second one is queued. -/
theorem cvar_wakes_two : ∃ s t : Kernel, system.Reachable s ∧ s.contents (.queue (.cvar 0)) = [1, 2] ∧
    s.step (call .cvarBroadcast [createId cvarFlag 0]) = .ok t ∧ t.contents (.queue (.cvar 0)) = [] ∧
    t.contents (.queue (.sched .main)) = [1] ∧ t.contents (.queue (.lock 0)) = [2] := by
  obtain ⟨s, run, hUser, hUse, hWait, hFree, hLocks, hMain, hQueue⟩ := Transition.System.exists_reachable
    (P := fun s : Kernel => s.inUser ∧ (s.cvars.entries 0).inUse = true ∧ s.contents (.queue (.cvar 0)) = [1, 2] ∧
      s.freePermits 0 = 1 ∧ ((s.pcb 1).cvarLockId = 0 ∧ (s.pcb 2).cvarLockId = 0) ∧
      s.contents (.queue (.sched .main)) = [] ∧ s.contents (.queue (.lock 0)) = [])
    (turn ++ [call .lockInit [208], call .cvarInit [212], call .fork [], call .fork [],
      call .acquire [createId lockFlag 0], call .cvarWait [createId cvarFlag 0, createId lockFlag 0],
      .resume outcomes, call .acquire [createId lockFlag 0],
      call .cvarWait [createId cvarFlag 0, createId lockFlag 0], .resume outcomes])
    initial_booted (by decide +kernel)
  have hStep : s.step (call .cvarBroadcast [createId cvarFlag 0]) =
      .ok (s.saveUc (context [createId cvarFlag 0])).kernelCvarBroadcast.leave := if_pos hUser
  obtain ⟨-, hDistributed, hLeft⟩ := (cvar_wakes run (by decide) (by decide) hUse).2 _ hStep
  have hReady := hDistributed.ready
  have hQueued := hDistributed.queued 0
  rw [hWait, hMain] at hReady
  rw [hWait, hQueue, hFree] at hQueued
  refine ⟨s, _, run, hWait, hStep, hLeft, ?_, ?_⟩
  · simpa [allot, hFree, hLocks, spend] using hReady
  · simpa [hLocks] using hQueued

end KernelStart
end Yalnix
