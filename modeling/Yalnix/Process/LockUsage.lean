import Yalnix.Process.Conservation

/-! The usage count of locks and semaphores. It is what `Reclaim` looks at, so
a lock that somebody still needs is not reclaimed, and a process that was
signalled always finds its lock. -/
namespace Yalnix

open Hardware Synchronization Identifiers

namespace Kernel

variable [Hardware] {s t : Kernel} {id cvarId : Nat} {p waiter : Proc}

omit [Hardware] in
/-- The processes that wait on a condition variable with lock `id`. -/
def cvarWaiters (s : Kernel) (id : Nat) : Set Proc :=
  { p | (∃ c, p ∈ s.contents (.queue (.cvar c))) ∧ (s.pcb p).cvarLockId = id }

/-- The usage count is exact. -/
theorem needed_eq (h : KernelStart.Sound s) (hUse : (s.locks.entries id).inUse = true) :
    (s.locks.entries id).neededBy = ((holders (s.locks.entries id).pids).length +
      (s.contents (.queue (.lock id))).length + (s.cvarWaiters id).ncard : Nat) := by
  have hLock : LockInv (s.locks.entries id) _ _ _ := h.settled.sync.lock id hUse
  exact hLock.needed

theorem finite_cvarWaiters (h : KernelStart.Sound s) (id : Nat) : (s.cvarWaiters id).Finite :=
  h.settled.sync.finite_bound h.settled.placement id

/-- Nobody holds the lock, waits for it or will get it back. -/
def Unneeded (s : Kernel) (id : Nat) : Prop :=
  holders (s.locks.entries id).pids = [] ∧ s.contents (.queue (.lock id)) = [] ∧ s.cvarWaiters id = ∅

theorem unneeded_iff (h : KernelStart.Sound s) (hUse : (s.locks.entries id).inUse = true) :
    s.Unneeded id ↔ (s.locks.entries id).neededBy ≤ 0 := by
  rw [needed_eq h hUse, Unneeded]
  constructor
  · rintro ⟨hHolders, hQueue, hWaiters⟩
    simp [hHolders, hQueue, hWaiters]
  · intro hNone
    have hHolders : (holders (s.locks.entries id).pids).length = 0 := by omega
    have hQueue : (s.contents (.queue (.lock id))).length = 0 := by omega
    have hWaiters : (s.cvarWaiters id).ncard = 0 := by omega
    rw [Set.ncard_eq_zero (finite_cvarWaiters h id)] at hWaiters
    exact ⟨List.length_eq_zero_iff.mp hHolders, List.length_eq_zero_iff.mp hQueue, hWaiters⟩

/-- An entry in use lies inside the table. -/
theorem lt_size_of_inUse (h : KernelStart.Sound s) (hUse : (s.locks.entries id).inUse = true) :
    id < s.locks.size := by
  by_contra hBeyond
  have hBlank : s.locks.entries id = .blank := h.settled.sync.locks.beyond id (Nat.not_lt.mp hBeyond)
  rw [hBlank] at hUse
  cases hUse

/-- `delete_lock` of an entry in use succeeds when the lock is not needed. -/
theorem deleteLock_snd (h : KernelStart.Sound s) (hUse : (s.locks.entries id).inUse = true)
    (shrinkOk : Bool) : (s.deleteLock id shrinkOk).2 = true ↔ s.Unneeded id := by
  have hSize := lt_size_of_inUse h hUse
  rw [unneeded_iff h hUse]
  unfold deleteLock
  dsimp only
  split_ifs with hRefused
  · refine iff_of_false (by simp) ?_
    rcases hRefused with hRefused | hRefused | hRefused
    · omega
    · simp [hUse] at hRefused
    · omega
  · exact iff_of_true rfl (by omega)

/-- `Reclaim` of a lock or semaphore in use. -/
theorem reclaim_lock {uc : UserContext} {o : Outcomes} (h : KernelStart.Sound s)
    (hKind : isLockId (uc.regs 0) = true ∨ isSemId (uc.regs 0) = true) (hId : getId (uc.regs 0) = id)
    (hUse : (s.locks.entries id).inUse = true) (hStep : s.step (.syscall .reclaim uc o) = .ok t) :
    ((t.pcb s.runningProc).uc.regs 0 = successCode ↔ s.Unneeded id) ∧
      ((t.pcb s.runningProc).uc.regs 0 = errorCode ↔ ¬s.Unneeded id) := by
  simp only [step] at hStep
  split_ifs at hStep with hUser
  obtain ⟨u, hCall, hLeave⟩ := Transition.bind_eq_ok.mp hStep
  obtain rfl := Except.ok.inj hLeave
  obtain rfl := Except.ok.inj hCall
  have hSave := Quiet.saveUc s uc
  have hSaved := h.quiet hSave
  have hContents : (s.saveUc uc).contents = s.contents := (h.settled.quiet hSave).contents_eq
  have hSame : (s.saveUc uc).Unneeded id ↔ s.Unneeded id := by
    have hWaiters : (s.saveUc uc).cvarWaiters id = s.cvarWaiters id := by
      simp only [cvarWaiters, hContents, hSave.cvarLockId]
    simp only [Unneeded, hContents, hWaiters, hSave.locks]
  rw [← hSame, ← deleteLock_snd hSaved (hSave.locks ▸ hUse) (o.alloc 0), leave_pcb]
  have hBranch : (isLockId (uc.regs 0) || isSemId (uc.regs 0)) = true := by simpa using hKind
  have hResult : (((s.saveUc uc).kernelReclaim o).pcb s.runningProc).uc.regs 0 =
      if ((s.saveUc uc).deleteLock id (o.alloc 0)).2 then successCode else errorCode := by
    have hRunning : s.runningProc = ((s.saveUc uc).deleteLock id (o.alloc 0)).1.runningProc := by
      unfold deleteLock
      dsimp only
      split_ifs <;> rfl
    simp only [kernelReclaim, reg_saveUc, hBranch, if_true, hId, retBool]
    rw [hRunning]
    exact ret_result _ _
  rw [hResult]
  cases ((s.saveUc uc).deleteLock id (o.alloc 0)).2 with
  | true => simp [successCode, errorCode]
  | false => simp [successCode, errorCode]

omit [Hardware] in
theorem popCvar_frame (hPop : s.popCvar cvarId = (t, some waiter)) : t.locks = s.locks ∧ t.pcb = s.pcb := by
  unfold popCvar at hPop
  dsimp only at hPop
  split at hPop
  · cases hPop
  · obtain ⟨rfl, -⟩ := Prod.mk.inj hPop
    exact ⟨rfl, rfl⟩

omit [Hardware] in
/-- The result of `acquire` depends on the locks and the pid. -/
theorem acquire_snd_congr {cvarUse : Bool} (hLocks : t.locks = s.locks) (hPcb : t.pcb = s.pcb) :
    (t.acquire id p cvarUse).2 = (s.acquire id p cvarUse).2 := by
  unfold acquire
  dsimp only
  rw [hLocks, hPcb]
  split_ifs <;> rfl

/-- A waiter that is popped from a condition variable finds its lock. -/
theorem acquire_popCvar (h : KernelStart.Sound s) (hPop : s.popCvar cvarId = (t, some waiter)) :
    (t.acquire (t.pcb waiter).cvarLockId waiter true).2 ≠ .error := by
  obtain ⟨hLocks, hPcb⟩ := popCvar_frame hPop
  obtain ⟨queue, others, -, -, -, hMem, -, -⟩ := h.settled.signal h.settled.hand hPop
  obtain ⟨hUse, hFree⟩ := h.settled.sync.waiter cvarId waiter (List.mem_of_mem_head? hMem)
  simp only [shape] at hUse hFree
  rw [hPcb, acquire_snd_congr hLocks hPcb]
  exact h.settled.acquire_ne_error hUse hFree

/-- One turn of the loop of `broadcast_cvar`. -/
def BroadcastTurn (cvarId : Nat) (s t : Kernel) : Prop :=
  ∃ popped waiter, s.popCvar cvarId = (popped, some waiter) ∧ t = popped.reacquire waiter

theorem sound_turns (h : KernelStart.Sound s) (hTurns : Relation.ReflTransGen (BroadcastTurn cvarId) s t) :
    KernelStart.Sound t := by
  induction hTurns with
  | refl => exact h
  | tail _ hTurn ih =>
      obtain ⟨popped, waiter, hPop, rfl⟩ := hTurn
      exact ih.effects (Effect.signal hPop : Effect .math _ _).one

end Kernel

namespace KernelStart

open Kernel

/-- The usage count of a lock or semaphore is the number of its holders, of the
processes queued for it and of those that wait on a condition variable with
it. So `Reclaim` succeeds exactly when there are none, and whoever a signal or
any turn of a broadcast pops does not fail to acquire its lock. -/
theorem lock_usage [Hardware] {s : Kernel} (run : system.Reachable s) :
    (∀ id, (s.locks.entries id).inUse = true →
      (s.cvarWaiters id).Finite ∧ (s.locks.entries id).neededBy =
        ((holders (s.locks.entries id).pids).length + (s.contents (.queue (.lock id))).length +
          (s.cvarWaiters id).ncard : Nat) ∧
      ∀ uc o t, isLockId (uc.regs 0) = true ∨ isSemId (uc.regs 0) = true → getId (uc.regs 0) = id →
        s.step (.syscall .reclaim uc o) = .ok t →
        ((t.pcb s.runningProc).uc.regs 0 = successCode ↔ s.Unneeded id) ∧
          ((t.pcb s.runningProc).uc.regs 0 = errorCode ↔ ¬s.Unneeded id)) ∧
    ∀ uc cvarId u, Relation.ReflTransGen (BroadcastTurn cvarId) (s.saveUc uc) u → ∀ t waiter,
      u.popCvar cvarId = (t, some waiter) →
        (t.acquire (t.pcb waiter).cvarLockId waiter true).2 ≠ .error := by
  have h := sound_reachable run
  refine ⟨fun id hUse => ⟨finite_cvarWaiters h id, needed_eq h hUse, fun uc o t hKind hId hStep => ?_⟩,
    fun uc cvarId u hTurns t waiter hPop => ?_⟩
  · exact reclaim_lock h hKind hId hUse hStep
  · have hSaved := h.quiet (.saveUc s uc)
    exact acquire_popCvar (sound_turns hSaved hTurns) hPop

open Sample in
/-- A lock that its holder gave up for a condition variable is still needed. -/
theorem lock_usage_waiting : ∃ s : Kernel, system.Reachable s ∧
    (s.locks.entries 0).inUse = true ∧ (s.locks.entries 0).pids = [0] ∧
    s.contents (.queue (.lock 0)) = [] ∧ (s.locks.entries 0).neededBy = (s.cvarWaiters 0).ncard ∧
    (s.cvarWaiters 0).ncard = 1 := by
  obtain ⟨s, run, hUse, hPids, hQueue, hNeeded⟩ := Transition.System.exists_reachable
    (P := fun s : Kernel => (s.locks.entries 0).inUse = true ∧ (s.locks.entries 0).pids = [0] ∧
      s.contents (.queue (.lock 0)) = [] ∧ (s.locks.entries 0).neededBy = 1)
    (turn ++ [call .lockInit [208], call .cvarInit [212], call .acquire [createId lockFlag 0],
      call .cvarWait [createId cvarFlag 0, createId lockFlag 0]]) initial_booted (by decide +kernel)
  have hCount := ((lock_usage run).1 0 hUse).2.1
  rw [hPids, hQueue] at hCount
  have hWaiters : (s.locks.entries 0).neededBy = ((s.cvarWaiters 0).ncard : Int) := by
    simpa [holders] using hCount
  exact ⟨s, run, hUse, hPids, hQueue, hWaiters, by omega⟩

end KernelStart
end Yalnix
