import Yalnix.Process.Holders
import Yalnix.Process.Record

/-! How the history of a run grows. Events are only appended, and all but the calls on
locks and semaphores append none that concerns a lock and leave the locks alone. -/
namespace Yalnix

open Hardware Synchronization

/-- Events of locks and semaphores. -/
def Event.isLock : Event → Bool
  | .lockCreated _ | .lockReclaimed _ | .lockRequested _ _ | .lockGranted _ _ | .lockReleased _ _ => true
  | _ => false

theorem Event.Quiet.not_lock {e : Event} (h : e.Quiet) : e.isLock = false := by
  cases e <;> first | rfl | exact h.elim

namespace Kernel

variable {r s t : Kernel} {label : Label}

/-- Nothing has happened to locks since `r`, and no event of a lock was added. -/
structure Lockless (r s : Kernel) : Prop where
  locks : s.locks = r.locks
  trace : ∃ events, s.trace = r.trace ++ events ∧ ∀ e ∈ events, e.isLock = false

namespace Lockless

theorem refl (s : Kernel) : Lockless s s := ⟨rfl, [], by simp, by simp⟩

theorem same (h : Lockless r s) (hLocks : t.locks = s.locks) (hTrace : t.trace = s.trace) : Lockless r t :=
  ⟨hLocks.trans h.locks, hTrace ▸ h.trace⟩

theorem append {events : List Event} (h : Lockless r s) (hLocks : t.locks = s.locks)
    (hTrace : t.trace = s.trace ++ events) (hEvents : ∀ e ∈ events, e.isLock = false) : Lockless r t := by
  obtain ⟨before, hBefore, hOld⟩ := h.trace
  refine ⟨hLocks.trans h.locks, before ++ events, by rw [hTrace, hBefore, List.append_assoc], fun e he => ?_⟩
  rcases List.mem_append.mp he with he | he
  · exact hOld e he
  · exact hEvents e he

theorem emit (h : Lockless r s) {e : Event} (he : e.isLock = false) : Lockless r (s.emit e) :=
  h.append rfl rfl (by simpa using he)

theorem quiet (h : Lockless r s) (hQuiet : Quiet s t) : Lockless r t := by
  obtain ⟨events, hTrace, hEvents⟩ := hQuiet.trace
  exact h.append hQuiet.locks hTrace fun e he => (hEvents e he).not_lock

/-- The state a function returns beside its result. -/
theorem fst {β : Type} {result : Kernel × β} {b : β} (h : Lockless r result.1) (hResult : result = (t, b)) :
    Lockless r t := by
  rwa [hResult] at h

theorem modifyPcb (h : Lockless r s) (p : Proc) (f : Pcb → Pcb) : Lockless r (s.modifyPcb p f) := h.same rfl rfl

theorem scheduleProcess (h : Lockless r s) (p : Proc) : Lockless r (s.scheduleProcess p) := by
  unfold Kernel.scheduleProcess
  split_ifs
  · exact h
  · exact h.append rfl rfl (by simp [Event.isLock])

theorem getNextProcess (h : Lockless r s) : Lockless r s.getNextProcess.1 := by
  have hDeque : Lockless r s.dequeProcess.1 := by
    unfold dequeProcess
    dsimp only
    split
    · exact h
    · split
      · exact h
      · exact h.same rfl rfl
  unfold Kernel.getNextProcess
  split <;> rename_i hFound <;> rw [hFound] at hDeque
  · exact Lockless.emit hDeque rfl
  · exact Lockless.emit (hDeque.modifyPcb _ _) rfl

theorem putToSleep (h : Lockless r s) (p : Proc) (ticks : Word) (growOk : Bool) :
    Lockless r (s.putToSleep p ticks growOk).1 := by
  unfold Kernel.putToSleep
  dsimp only
  split
  · rename_i hAdd
    rw [addToHeap_eq hAdd]
    exact h.same rfl rfl
  · exact h.same rfl rfl

theorem removeFromHeap {shrinkOk : Bool} {p : Option Proc} (h : Lockless r s)
    (hRemove : s.removeFromHeap shrinkOk = (t, p)) : Lockless r t := by
  rw [removeFromHeap_eq hRemove]
  exact h.same rfl rfl

theorem findWaiter (h : Lockless r s) (shrinkOk : Bool) :
    Lockless r (s.findBlockedProcess .waitBlocking (waitUnblockCond shrinkOk)).1 := by
  have hFrom (fuel : Nat) (prev curr : Option Proc) :
      Lockless r (s.findBlockedFrom .waitBlocking (waitUnblockCond shrinkOk) fuel prev curr).1 := by
    induction fuel generalizing prev curr with
    | zero => cases curr <;> exact h
    | succ fuel ih =>
        cases curr with
        | none => exact h
        | some curr =>
            unfold findBlockedFrom
            split
            · exact ih _ _
            · rename_i v hFound
              exact (h.quiet (Quiet.waitUnblockCond hFound)).same rfl rfl
  exact hFrom _ _ _

theorem wakeReaders (h : Lockless r s) (id fuel : Nat) : Lockless r (s.wakeReaders id fuel) := by
  induction fuel generalizing s with
  | zero => exact h
  | succ fuel ih =>
      unfold Kernel.wakeReaders
      split
      · exact h
      · refine ih (Lockless.scheduleProcess ?_ _)
        exact h.same rfl rfl

theorem ttyReceiveDone [Hardware] (h : Lockless r s) (ttyId : Int) (line : List Byte) (lineOk : Bool) :
    Lockless r (s.ttyReceiveDone ttyId line lineOk) := by
  have hPop (id : Nat) : Lockless r ((s.appendLine id line).rqPop id).1 := by
    have hLine : Lockless r (s.appendLine id line) := h.append rfl rfl (by simp [Event.isLock])
    unfold rqPop
    split <;> exact hLine.same rfl rfl
  have hDeliver (id : Nat) : Lockless r (s.ttyDeliver id line) := by
    have hPop := hPop id
    unfold ttyDeliver
    split <;> rename_i hReader <;> rw [hReader] at hPop
    · exact hPop
    · exact hPop.scheduleProcess _
  unfold Kernel.ttyReceiveDone
  split_ifs
  · exact h
  · exact h
  · exact hDeliver _

theorem newPipe [Hardware] (h : Lockless r s) (growOk bufOk : Bool) : Lockless r (s.newPipe growOk bufOk).1 := by
  unfold Kernel.newPipe
  dsimp only
  split
  · exact h.same rfl rfl
  · exact h.append rfl rfl (by simp [Event.isLock])

theorem pipeReclaim (h : Lockless r s) (id : Nat) : Lockless r (s.pipeReclaim id).1 := by
  unfold Kernel.pipeReclaim
  split
  · exact h
  · split_ifs
    · exact h
    · exact h.append rfl rfl (by simp [Event.isLock])

theorem newCvar (h : Lockless r s) (growOk : Bool) : Lockless r (s.newCvar growOk).1 := h.same rfl rfl

theorem deleteCvar (h : Lockless r s) (id : Nat) (shrinkOk : Bool) : Lockless r (s.deleteCvar id shrinkOk).1 := by
  unfold Kernel.deleteCvar
  dsimp only
  split_ifs
  · exact h
  · exact h.same rfl rfl

theorem popCvar (h : Lockless r s) (id : Nat) : Lockless r (s.popCvar id).1 := by
  unfold Kernel.popCvar
  dsimp only
  split
  · exact h
  · exact h.same rfl rfl

theorem ttyWriteReturn (h : Lockless r s) (id : Nat) : Lockless r (s.ttyWriteReturn id) := by
  unfold Kernel.ttyWriteReturn
  exact Lockless.emit ((h.modifyPcb _ _).quiet (.ret _ _)) rfl

theorem read (h : Lockless r s) (id len : Nat) : Lockless r (s.read id len) := by
  have hConsume : Lockless r (s.consume id len).1 := by
    unfold consume
    split
    · exact h
    · dsimp only
      split_ifs <;> exact h.same rfl rfl
  exact Lockless.emit hConsume rfl

variable [Hardware]

theorem fullContextSwitch (h : Lockless r s) (curr : Option (Proc × KernelContext)) (next : Proc) :
    Lockless r (s.fullContextSwitch curr next) := by
  cases curr <;> exact h.same rfl rfl

theorem switchAway (h : Lockless r s) (kc : KernelContext) : Lockless r (s.switchAway kc) :=
  h.getNextProcess.fullContextSwitch (some (s.runningProc, kc)) s.getNextProcess.2

theorem preempt (h : Lockless r s) : Lockless r s.preempt := by
  have hChosen := (h.scheduleProcess s.runningProc).getNextProcess
  unfold Kernel.preempt
  dsimp only
  split_ifs
  · exact hChosen.fullContextSwitch _ _
  · exact hChosen

theorem startChunk (h : Lockless r s) (id : Nat) : Lockless r (s.startChunk id) := by
  unfold Kernel.startChunk
  split
  · exact h
  · exact h.append rfl rfl (by simp [Event.isLock])

theorem ttyWriteBlock (h : Lockless r s) (id : Nat) (bytes : List Byte) : Lockless r (s.ttyWriteBlock id bytes) := by
  have hRecord : Lockless r (s.ttyRecord id bytes) := h.append rfl rfl (by simp [Event.isLock])
  unfold Kernel.ttyWriteBlock
  dsimp only
  split
  · refine Lockless.modifyPcb (Lockless.startChunk ?_ id) _ _
    exact hRecord.same rfl rfl
  · exact hRecord.same rfl rfl

theorem ttyTransmitDone (h : Lockless r s) (ttyId : Int) : Lockless r (s.ttyTransmitDone ttyId) := by
  have hHandOver {v : Kernel} (hv : Lockless r v) (id : Nat) : Lockless r (v.ttyHandOver id) := by
    have hPop : Lockless r (v.wqPop id).1 := by
      unfold wqPop
      split <;> exact hv.same rfl rfl
    unfold ttyHandOver
    split <;> rename_i hWriter <;> rw [hWriter] at hPop
    · exact hPop
    · refine Lockless.startChunk ?_ id
      exact hPop.same rfl rfl
  unfold Kernel.ttyTransmitDone
  dsimp only
  split_ifs
  · exact h
  split
  · exact h.emit rfl
  rename_i owner hOwner
  have hDone : Lockless r ((s.emit (.ttyTransmitTrap ttyId.toNat)).ttyChunkDone ttyId.toNat owner) :=
    h.append rfl rfl (by simp [Event.isLock])
  split_ifs
  · exact hDone.startChunk _
  · refine hHandOver (Lockless.scheduleProcess ?_ _) _
    exact hDone.append rfl rfl (by simp [Event.isLock])

theorem kernelExit {code : Word} (h : Lockless r s) (hExit : s.kernelExit code = .ok t) : Lockless r t := by
  obtain ⟨-, marked, detached, rfl, hQuiet, rfl⟩ := kernelExit_cases hExit
  exact ((h.getNextProcess.modifyPcb _ _).quiet hQuiet).fullContextSwitch _ _

theorem kernelFork {o : Outcomes} (h : Lockless r s) (hFork : s.kernelFork o = .ok t) : Lockless r t := by
  obtain ⟨created, copied, hCreate, hCopied, hResult⟩ := kernelFork_cases hFork
  obtain ⟨-, mem, pcb, rfl, -⟩ := createNewPcb_eq hCreate
  have hCopy : Lockless r copied := by
    refine Lockless.quiet ?_ hCopied
    exact h.same rfl rfl
  rcases hResult with rfl | ⟨cloned, hCloned, rfl | rfl⟩
  · exact Lockless.emit (hCopy.modifyPcb _ _) rfl
  · exact (hCopy.scheduleProcess _).quiet hCloned
  · exact ((hCopy.scheduleProcess _).quiet hCloned).modifyPcb _ _

end Lockless

/-- What an effect does to locks: nothing, or one call on them. -/
inductive LockEffect (s : Kernel) : Kernel → Prop where
  | none {t : Kernel} (h : Lockless s t) : LockEffect s t
  | newLock {capacity : Nat} {growOk pidsOk : Bool} : LockEffect s (s.newLock capacity growOk pidsOk).1
  | deleteLock {id : Nat} {shrinkOk : Bool} : LockEffect s (s.deleteLock id shrinkOk).1
  | acquire {u v t : Kernel} {id : Nat} {p : Proc} {cvarUse : Bool} {result : Acquired} (hBefore : Lockless s u)
      (h : u.acquire id p cvarUse = (v, result)) (hResult : result ≠ .error) (hAfter : Lockless v t) : LockEffect s t
  | release {v t : Kernel} {id : Nat} {cvarUse : Bool} (hUser : s.inUser)
      (h : s.release id s.runningProc cvarUse = (v, true)) (hAfter : Lockless v t) : LockEffect s t

/-- A waiter that is signalled asks for its lock. -/
theorem lockEffect_reacquire (h : Lockless r s) (p : Proc) : LockEffect r (s.reacquire p) := by
  unfold reacquire
  generalize hAcquire : s.acquire (s.pcb p).cvarLockId p true = acquired
  obtain ⟨t, result⟩ := acquired
  cases result with
  | acquired => exact .acquire h hAcquire (by simp) ((Lockless.refl t).scheduleProcess p)
  | need => exact .acquire h hAcquire (by simp) (.refl t)
  | error =>
      have hSame : t = s := by
        unfold acquire at hAcquire
        dsimp only at hAcquire
        split_ifs at hAcquire <;> cases hAcquire
        rfl
      exact .none (hSame ▸ h)

variable [Hardware]

theorem lock_effect (h : Effect label s t) : LockEffect s t := by
  have hStart := Lockless.refl s
  cases h with
  | quiet hQuiet => exact .none (hStart.quiet hQuiet.toQuiet)
  | ticked => exact .none (hStart.quiet (.ticked s))
  | reap _ _ hFound => exact .none (hStart.quiet (.findExitedChild hFound))
  | @block parked u kc hUser hParks hQuiet =>
      have hLeave {v : Kernel} (hv : Lockless v parked) : Lockless v (u.switchAway kc) :=
        (hv.quiet hQuiet.toQuiet).switchAway kc
      cases hParks with
      | sleep h => exact .none (hLeave ((hStart.putToSleep _ _ _).fst h))
      | wait => exact .none (hLeave (hStart.same rfl rfl))
      | lock _ h => exact .acquire hStart h (by simp) (hLeave (.refl _))
      | @cvar _ cvarId lockId hCall h =>
          unfold waitCvar at h
          split_ifs at h
          · cases h
          split at h
          · cases h
          · rename_i released hRelease
            obtain ⟨rfl, -⟩ := Prod.mk.inj h
            refine .release hUser hRelease (hLeave ?_)
            exact (Lockless.refl released).same rfl rfl
      | pipe => exact .none (hLeave (hStart.same rfl rfl))
      | ttyRead => exact .none (hLeave (hStart.same rfl rfl))
      | ttyWrite => exact .none (hLeave (hStart.ttyWriteBlock _ _))
  | sleepless _ h => exact .none ((hStart.putToSleep _ _ _).fst h)
  | preempt => exact .none hStart.preempt
  | exit _ h => exact .none (hStart.kernelExit h)
  | fork _ h => exact .none (hStart.kernelFork h)
  | newLock => exact .newLock
  | newCvar => exact .none (hStart.newCvar _)
  | newPipe => exact .none (hStart.newPipe _ _)
  | deleteLock => exact .deleteLock
  | deleteCvar => exact .none (hStart.deleteCvar _ _)
  | pipeReclaim => exact .none (hStart.pipeReclaim _)
  | acquire _ h => exact .acquire hStart h (by simp) (.refl _)
  | release hUser _ h => exact .release hUser h (.refl _)
  | @signal u id waiter h => exact lockEffect_reacquire ((hStart.popCvar id).fst h) waiter
  | @pipeRead id len => exact .none (hStart.append rfl rfl (by simp [Event.isLock]))
  | @pipeWrite id pipe grown bytes =>
      refine .none (Lockless.wakeReaders ?_ _ _)
      exact hStart.append rfl rfl (by simp [Event.isLock])
  | wakeWaiter h => exact .none (((hStart.findWaiter _).fst h).scheduleProcess _)
  | wakeSleeper _ _ h =>
      have hRemoved := hStart.removeFromHeap h
      exact .none (hRemoved.append rfl rfl (by simp [Event.isLock]))
  | transmitted => exact .none (hStart.ttyTransmitDone _)
  | received => exact .none (hStart.ttyReceiveDone _ _ _)
  | resumed => exact .none (hStart.same rfl rfl)
  | written =>
      refine .none (Lockless.ttyWriteReturn ?_ _)
      exact hStart.same rfl rfl

section Growth

omit [Hardware]

theorem Lockless.grows (h : Lockless s t) : s.trace <+: t.trace := by
  obtain ⟨events, hTrace, -⟩ := h.trace
  exact ⟨events, hTrace.symm⟩

/-- What `acquire` takes and notes when it does not fail. -/
theorem acquire_notes {id : Nat} {p : Proc} {cvarUse : Bool} {result : Acquired}
    (h : s.acquire id p cvarUse = (t, result)) (hResult : result ≠ .error) : ∃ lock,
    t.locks = s.locks.set id lock ∧ lock.capacity = (s.locks.entries id).capacity ∧
      (0 < (s.locks.entries id).val ∧ result = .acquired ∧ lock.val = (s.locks.entries id).val - 1 ∧
          t.trace = s.trace ++ [.lockRequested id p, .lockGranted id p] ∨
        ¬0 < (s.locks.entries id).val ∧ result = .need ∧ lock.val = (s.locks.entries id).val ∧
          t.trace = s.trace ++ [.lockRequested id p]) := by
  unfold acquire at h
  dsimp only at h
  generalize (if cvarUse = true then (s.locks.entries id).neededBy
    else (s.locks.entries id).neededBy + 1) = neededBy at h
  split_ifs at h with hFail hVal
  · obtain ⟨-, rfl⟩ := Prod.mk.inj h
    exact absurd rfl hResult
  · obtain ⟨rfl, rfl⟩ := Prod.mk.inj h
    exact ⟨_, rfl, rfl, Or.inl ⟨hVal, rfl, rfl, by simp [emit, setLock]⟩⟩
  · obtain ⟨rfl, rfl⟩ := Prod.mk.inj h
    exact ⟨_, rfl, rfl, Or.inr ⟨hVal, rfl, rfl, rfl⟩⟩

/-- What `release` gives back and notes when it succeeds. -/
theorem release_notes {id : Nat} {p : Proc} {cvarUse : Bool} (h : s.release id p cvarUse = (t, true)) : ∃ lock,
    t.locks = s.locks.set id lock ∧ lock.capacity = (s.locks.entries id).capacity ∧
      (lock.val = (s.locks.entries id).val + 1 ∧ t.trace = s.trace ++ [.lockReleased id p] ∨
        ∃ waiter more, lock.val = (s.locks.entries id).val ∧ (∀ e ∈ more, e.isLock = false) ∧
          t.trace = s.trace ++ ([.lockReleased id p, .lockGranted id waiter] ++ more)) := by
  unfold release at h
  dsimp only at h
  generalize (if cvarUse = true then (s.locks.entries id).neededBy
    else (s.locks.entries id).neededBy - 1) = neededBy at h
  split_ifs at h with hFail
  · cases h
  split at h
  · obtain ⟨rfl, -⟩ := Prod.mk.inj h
    exact ⟨_, rfl, rfl, Or.inl ⟨rfl, rfl⟩⟩
  · rename_i waiter next ends hPop
    obtain ⟨rfl, -⟩ := Prod.mk.inj h
    have hReady := (Lockless.refl ((((s.emit (.lockReleased id p)).setNext next).setLock id
      { s.locks.entries id with
        ends := ends
        pids := (find (s.locks.entries id).pids (s.pcb p).pid (s.locks.entries id).capacity
          (some (s.pcb waiter).pid)).2
        neededBy := neededBy }).emit (.lockGranted id waiter))).scheduleProcess waiter
    obtain ⟨more, hTrace, hMore⟩ := hReady.trace
    refine ⟨_, hReady.locks, rfl, Or.inr ⟨waiter, more, rfl, hMore, hTrace.trans ?_⟩⟩
    simp [emit, setLock, setNext]

/-- What has happened stays in the history. -/
theorem LockEffect.grows (h : LockEffect s t) : s.trace <+: t.trace := by
  cases h with
  | none h => exact h.grows
  | @newLock capacity growOk pidsOk =>
      unfold Kernel.newLock
      dsimp only
      split
      · exact List.prefix_rfl
      · exact ⟨[.lockCreated _], rfl⟩
  | @deleteLock id shrinkOk =>
      unfold Kernel.deleteLock
      dsimp only
      split_ifs
      · exact List.prefix_rfl
      · exact ⟨[.lockReclaimed id], rfl⟩
  | acquire hBefore h hResult hAfter =>
      obtain ⟨lock, -, -, hNotes⟩ := acquire_notes h hResult
      refine hBefore.grows.trans (List.IsPrefix.trans ?_ hAfter.grows)
      rcases hNotes with ⟨-, -, -, hTrace⟩ | ⟨-, -, -, hTrace⟩
      · exact ⟨_, hTrace.symm⟩
      · exact ⟨_, hTrace.symm⟩
  | release _ h hAfter =>
      obtain ⟨lock, -, -, hNotes⟩ := release_notes h
      refine List.IsPrefix.trans ?_ hAfter.grows
      rcases hNotes with ⟨-, hTrace⟩ | ⟨waiter, more, -, -, hTrace⟩
      · exact ⟨_, hTrace.symm⟩
      · exact ⟨_, hTrace.symm⟩

end Growth

/-- A step adds to the history. -/
theorem trace_step (hSound : KernelStart.Sound s) (hStep : s.step label = .ok t) : s.trace <+: t.trace := by
  refine hSound.preserve (I := fun u => s.trace <+: u.trace)
    (fun _ _ _ hBefore hEffect => hBefore.trans (lock_effect hEffect).grows) List.prefix_rfl hStep ?_ ?_
  · exact fun uc _ id len _ _ _ hSaved => hSaved.trans ((Lockless.refl _).read id len).grows
  · intro o id _ _ _
    exact ((Lockless.refl { s with mode := .user }).read id _).grows

end Kernel
end Yalnix
