import Yalnix.Process.Effect

/-! The view of the memory and of the process it serves. Scheduling, the
synchronization objects, the pipes and the terminals leave it alone. -/
namespace Yalnix

open Hardware

/-- The memory with the process it should serve and the number of the next one. -/
structure Space where
  mem : Memory
  runningProc : Proc
  numPcbs : Nat

namespace Kernel

def space (s : Kernel) : Space := ⟨s.mem, s.runningProc, s.numPcbs⟩

variable {s t : Kernel}

theorem space_fst {β : Type} {r : Kernel × β} {b : β} (hSpace : r.1.space = s.space) (h : r = (t, b)) :
    t.space = s.space := by
  rw [h] at hSpace
  exact hSpace

@[simp] theorem space_emit (s : Kernel) (e : Event) : (s.emit e).space = s.space := rfl
@[simp] theorem space_modifyPcb (s : Kernel) (p : Proc) (f : Pcb → Pcb) :
    (s.modifyPcb p f).space = s.space := rfl
@[simp] theorem space_setState (s : Kernel) (p : Proc) (state : ProcessState) :
    (s.setState p state).space = s.space := rfl
@[simp] theorem space_setResult (s : Kernel) (p : Proc) (value : Word) :
    (s.setResult p value).space = s.space := rfl
@[simp] theorem space_ret (s : Kernel) (value : Word) : (s.ret value).space = s.space := rfl
@[simp] theorem space_retBool [Hardware] (s : Kernel) (ok : Bool) : (s.retBool ok).space = s.space := rfl
@[simp] theorem space_saveUc (s : Kernel) (uc : UserContext) : (s.saveUc uc).space = s.space := rfl
@[simp] theorem space_setRelations (s : Kernel) (p : Proc) (relations : Relations) :
    (s.setRelations p relations).space = s.space := rfl
@[simp] theorem space_freePcb (s : Kernel) (p : Proc) : (s.freePcb p).space = s.space := rfl
@[simp] theorem space_setNext (s : Kernel) (next : Proc → Option Proc) :
    (s.setNext next).space = s.space := rfl
@[simp] theorem space_setLock (s : Kernel) (id : Nat) (lock : Lock) : (s.setLock id lock).space = s.space := rfl
@[simp] theorem space_setCvar (s : Kernel) (id : Nat) (cvar : Cvar) : (s.setCvar id cvar).space = s.space := rfl
@[simp] theorem space_setPipe (s : Kernel) (id : Nat) (pipe : Pipe) : (s.setPipe id pipe).space = s.space := rfl
@[simp] theorem space_setTty (s : Kernel) (id : Nat) (tty : Tty) : (s.setTty id tty).space = s.space := rfl
@[simp] theorem space_enqueProcess (s : Kernel) (type : QueueType) (p : Proc) :
    (s.enqueProcess type p).space = s.space := rfl
@[simp] theorem space_waitBlockProcess (s : Kernel) (p : Proc) :
    (s.waitBlockProcess p).space = s.space := rfl

theorem space_setMem (s : Kernel) (mem : Memory) : (s.setMem mem).space = { s.space with mem := mem } := rfl

@[simp] theorem space_leave (s : Kernel) : s.leave.space = s.space := by
  unfold leave
  split <;> rfl

@[simp] theorem space_scheduleProcess (s : Kernel) (p : Proc) : (s.scheduleProcess p).space = s.space := by
  unfold scheduleProcess
  split_ifs <;> rfl

@[simp] theorem space_dequeProcess (s : Kernel) : s.dequeProcess.1.space = s.space := by
  unfold dequeProcess
  dsimp only
  split
  · rfl
  · split <;> rfl

@[simp] theorem space_getNextProcess (s : Kernel) : s.getNextProcess.1.space = s.space := by
  unfold getNextProcess
  split
  · rename_i next hDeque
    exact (space_fst (space_dequeProcess s) hDeque :)
  · rename_i next proc hDeque
    exact (space_fst (space_dequeProcess s) hDeque :)

@[simp] theorem space_removeFromHeap (s : Kernel) (shrinkOk : Bool) :
    (s.removeFromHeap shrinkOk).1.space = s.space := by
  unfold removeFromHeap
  split <;> rfl

theorem space_addToHeap {p : Proc} {growOk : Bool} (h : s.addToHeap p growOk = some t) :
    t.space = s.space := by
  unfold addToHeap at h
  dsimp only at h
  split at h
  · cases h
  · obtain rfl := Option.some.inj h
    rfl

@[simp] theorem space_putToSleep (s : Kernel) (p : Proc) (ticks : Word) (growOk : Bool) :
    (s.putToSleep p ticks growOk).1.space = s.space := by
  unfold putToSleep
  dsimp only
  split
  · rename_i asleep hAdd
    rw [space_addToHeap hAdd]
    rfl
  · rfl

@[simp] theorem space_wakeSleepers (s : Kernel) (shrinkOk : Nat → Bool) (fuel : Nat) :
    (s.wakeSleepers shrinkOk fuel).space = s.space := by
  induction fuel generalizing s with
  | zero => rfl
  | succ fuel ih =>
      have hRemove := space_removeFromHeap s (shrinkOk fuel)
      unfold wakeSleepers
      split
      · rfl
      · split_ifs
        · split
          · rename_i next hPop
            rwa [hPop] at hRemove
          · rename_i next proc hPop
            rw [hPop] at hRemove
            rw [ih]
            exact hRemove
        · rfl

theorem space_findExitedChild {parent : Proc} {shrinkOk : Bool} {code : Word}
    (h : s.findExitedChild parent shrinkOk = some (t, code)) : t.space = s.space := by
  simp only [findExitedChild, Option.bind_eq_bind, Option.bind_eq_some_iff, Option.some.injEq,
    Prod.mk.injEq] at h
  obtain ⟨i, -, child, -, rfl, -⟩ := h
  rfl

theorem space_waitUnblockCond {p : Proc} {shrinkOk : Bool} (h : s.waitUnblockCond shrinkOk p = some t) :
    t.space = s.space := by
  simp only [waitUnblockCond, Option.map_eq_some_iff] at h
  obtain ⟨⟨found, code⟩, hFound, rfl⟩ := h
  rw [space_modifyPcb, space_findExitedChild hFound]

theorem space_findBlockedFrom {type : QueueType} {cond : Kernel → Proc → Option Kernel}
    (hCond : ∀ s t p, cond s p = some t → t.space = s.space) (s : Kernel) (fuel : Nat)
    (prev curr : Option Proc) : (s.findBlockedFrom type cond fuel prev curr).1.space = s.space := by
  induction fuel generalizing prev curr with
  | zero => rfl
  | succ fuel ih =>
      cases curr with
      | none => rfl
      | some p =>
          unfold findBlockedFrom
          split
          · exact ih _ _
          · rename_i found hFound
            exact hCond s found p hFound

@[simp] theorem space_wakeWaiters (s : Kernel) (shrinkOk : Nat → Bool) (fuel : Nat) :
    (s.wakeWaiters shrinkOk fuel).space = s.space := by
  induction fuel generalizing s with
  | zero => rfl
  | succ fuel ih =>
      have hFind : (s.findBlockedProcess .waitBlocking (waitUnblockCond (shrinkOk fuel))).1.space =
          s.space := space_findBlockedFrom (fun _ _ _ h => space_waitUnblockCond h) s _ _ _
      unfold wakeWaiters
      split
      · rename_i next hFound
        rwa [hFound] at hFind
      · rename_i next proc hFound
        rw [hFound] at hFind
        rw [ih, space_scheduleProcess]
        exact hFind

@[simp] theorem space_tick (s : Kernel) (o : Outcomes) : (s.tick o).space = s.space := by
  simp only [tick, space_wakeSleepers, space_wakeWaiters]
  rfl

@[simp] theorem space_addChildProc (s : Kernel) (parent child : Proc) (growOk : Bool) :
    (s.addChildProc parent child growOk).1.space = s.space := by
  unfold addChildProc
  split <;> rfl

theorem space_orphans (s : Kernel) (children : Nat → Option Proc) (slots : List Nat) :
    (slots.foldl (fun s i => s.orphan (children i)) s).space = s.space := by
  induction slots generalizing s with
  | nil => rfl
  | cons i slots ih =>
      rw [List.foldl_cons, ih]
      unfold orphan
      split
      · rfl
      · split_ifs <;> rfl

@[simp] theorem space_retirePcb (s : Kernel) (p : Proc) : (s.retirePcb p).space = s.space := by
  unfold retirePcb
  dsimp only
  split_ifs
  · exact space_orphans s _ _
  · exact space_orphans s _ _

@[simp] theorem space_newLock (s : Kernel) (capacity : Nat) (growOk pidsOk : Bool) :
    (s.newLock capacity growOk pidsOk).1.space = s.space := by
  unfold newLock
  dsimp only
  split <;> rfl

@[simp] theorem space_newCvar (s : Kernel) (growOk : Bool) : (s.newCvar growOk).1.space = s.space := rfl

@[simp] theorem space_deleteLock (s : Kernel) (id : Nat) (shrinkOk : Bool) :
    (s.deleteLock id shrinkOk).1.space = s.space := by
  unfold deleteLock
  dsimp only
  split_ifs <;> rfl

@[simp] theorem space_deleteCvar (s : Kernel) (id : Nat) (shrinkOk : Bool) :
    (s.deleteCvar id shrinkOk).1.space = s.space := by
  unfold deleteCvar
  dsimp only
  split_ifs <;> rfl

@[simp] theorem space_acquire (s : Kernel) (id : Nat) (p : Proc) (cvarUse : Bool) :
    (s.acquire id p cvarUse).1.space = s.space := by
  unfold acquire
  dsimp only
  split_ifs <;> rfl

@[simp] theorem space_release (s : Kernel) (id : Nat) (p : Proc) (cvarUse : Bool) :
    (s.release id p cvarUse).1.space = s.space := by
  unfold release
  dsimp only
  split
  · rfl
  · split
    · rfl
    · exact space_scheduleProcess _ _

@[simp] theorem space_waitCvar (s : Kernel) (cvarId lockId : Nat) (p : Proc) :
    (s.waitCvar cvarId lockId p).1.space = s.space := by
  unfold waitCvar
  split_ifs
  · rfl
  · split
    · rename_i next hRelease
      exact (space_fst (space_release s lockId p true) hRelease :)
    · rename_i next hRelease
      exact (space_fst (space_release s lockId p true) hRelease :)

@[simp] theorem space_reacquire (s : Kernel) (p : Proc) : (s.reacquire p).space = s.space := by
  unfold reacquire
  split
  · rename_i next hAcquire
    exact (space_scheduleProcess next p).trans (space_fst (space_acquire s _ _ _) hAcquire)
  · rename_i next result _ hAcquire
    exact (space_fst (space_acquire s _ _ _) hAcquire :)

@[simp] theorem space_popCvar (s : Kernel) (id : Nat) : (s.popCvar id).1.space = s.space := by
  unfold popCvar
  dsimp only
  split <;> rfl

@[simp] theorem space_signalCvar (s : Kernel) (id : Nat) : (s.signalCvar id).1.space = s.space := by
  unfold signalCvar
  split_ifs
  · rfl
  · split
    · rename_i next hPop
      exact (space_fst (space_popCvar s id) hPop :)
    · rename_i next waiter hPop
      exact (space_reacquire next waiter).trans (space_fst (space_popCvar s id) hPop)

@[simp] theorem space_broadcastLoop (s : Kernel) (id fuel : Nat) :
    (s.broadcastLoop id fuel).space = s.space := by
  induction fuel generalizing s with
  | zero => rfl
  | succ fuel ih =>
      unfold broadcastLoop
      split
      · rename_i next hPop
        exact (space_fst (space_popCvar s id) hPop :)
      · rename_i next waiter hPop
        rw [ih, space_reacquire]
        exact (space_fst (space_popCvar s id) hPop :)

@[simp] theorem space_broadcastCvar (s : Kernel) (id : Nat) : (s.broadcastCvar id).1.space = s.space := by
  unfold broadcastCvar
  split_ifs
  · rfl
  · exact space_broadcastLoop s _ _

theorem space_releaseImpl (s : Kernel) (isId : Word → Bool) : (s.releaseImpl isId).space = s.space := by
  unfold releaseImpl
  split_ifs
  · rfl
  · exact space_release s _ _ _

theorem space_kernelCvarSignal (s : Kernel) : s.kernelCvarSignal.space = s.space := by
  unfold kernelCvarSignal
  split_ifs
  · rfl
  · exact space_signalCvar s _

theorem space_kernelCvarBroadcast (s : Kernel) : s.kernelCvarBroadcast.space = s.space := by
  unfold kernelCvarBroadcast
  split_ifs
  · rfl
  · exact space_broadcastCvar s _

@[simp] theorem space_wakeReaders (s : Kernel) (id fuel : Nat) :
    (s.wakeReaders id fuel).space = s.space := by
  induction fuel generalizing s with
  | zero => rfl
  | succ fuel ih =>
      unfold wakeReaders
      split
      · rfl
      · rw [ih, space_scheduleProcess]
        rfl

@[simp] theorem space_pipeReclaim (s : Kernel) (id : Nat) : (s.pipeReclaim id).1.space = s.space := by
  unfold pipeReclaim
  split
  · rfl
  · split_ifs <;> rfl

@[simp] theorem space_pipeBlock (s : Kernel) (id : Nat) : (s.pipeBlock id).space = s.space := rfl

@[simp] theorem space_wqPush (s : Kernel) (id : Nat) (p : Proc) : (s.wqPush id p).space = s.space := rfl

@[simp] theorem space_wqPop (s : Kernel) (id : Nat) : (s.wqPop id).1.space = s.space := by
  unfold wqPop
  split <;> rfl

@[simp] theorem space_rqPop (s : Kernel) (id : Nat) : (s.rqPop id).1.space = s.space := by
  unfold rqPop
  split <;> rfl

@[simp] theorem space_consume (s : Kernel) (id len : Nat) : (s.consume id len).1.space = s.space := by
  unfold consume
  split
  · rfl
  · dsimp only
    split_ifs <;> rfl

@[simp] theorem space_ttyReadBlock (s : Kernel) (id len : Nat) (buf : Word) :
    (s.ttyReadBlock id buf len).space = s.space := rfl

@[simp] theorem space_ttyWriteReturn (s : Kernel) (id : Nat) : (s.ttyWriteReturn id).space = s.space := rfl

@[simp] theorem space_ttyDeliver (s : Kernel) (id : Nat) (line : List Byte) :
    (s.ttyDeliver id line).space = s.space := by
  unfold ttyDeliver
  split
  · rename_i next hPop
    exact space_fst (space_rqPop (s.appendLine id line) id) hPop
  · rename_i next reader hPop
    exact (space_scheduleProcess next reader).trans (space_fst (space_rqPop (s.appendLine id line) id) hPop)

variable [Hardware]

@[simp] theorem space_newPipe (s : Kernel) (growOk bufOk : Bool) :
    (s.newPipe growOk bufOk).1.space = s.space := by
  unfold newPipe
  dsimp only
  split <;> rfl

@[simp] theorem space_startChunk (s : Kernel) (id : Nat) : (s.startChunk id).space = s.space := by
  unfold startChunk
  split <;> rfl

@[simp] theorem space_ttyWriteBlock (s : Kernel) (id : Nat) (bytes : List Byte) :
    (s.ttyWriteBlock id bytes).space = s.space := by
  unfold ttyWriteBlock
  dsimp only
  split
  · exact space_startChunk _ _
  · rfl

@[simp] theorem space_ttyHandOver (s : Kernel) (id : Nat) : (s.ttyHandOver id).space = s.space := by
  unfold ttyHandOver
  split
  · rename_i next hPop
    exact (space_fst (space_wqPop s id) hPop :)
  · rename_i next proc hPop
    rw [space_startChunk, space_setTty]
    exact space_fst (space_wqPop s id) hPop

@[simp] theorem space_ttyTransmitDone (s : Kernel) (ttyId : Int) :
    (s.ttyTransmitDone ttyId).space = s.space := by
  unfold ttyTransmitDone
  split_ifs
  · rfl
  · dsimp only
    split
    · rfl
    · split_ifs
      · exact space_startChunk _ _
      · unfold ttyFinish
        rw [space_ttyHandOver, space_scheduleProcess]
        rfl

@[simp] theorem space_ttyReceiveDone (s : Kernel) (ttyId : Int) (line : List Byte) (lineOk : Bool) :
    (s.ttyReceiveDone ttyId line lineOk).space = s.space := by
  unfold ttyReceiveDone
  split_ifs
  · rfl
  · rfl
  · exact space_ttyDeliver s _ line

end Kernel

end Yalnix
