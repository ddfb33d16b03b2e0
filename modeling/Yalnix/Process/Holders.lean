import Yalnix.Process.SyncView
import Yalnix.Process.LockUsage
import Yalnix.Process.Waiting

/-! Who holds a lock or semaphore. A holder stays one until it gives the lock
up itself, and whoever returns from a call that acquires has become one. -/
namespace Yalnix

open Hardware Synchronization

/-- The slot `pid` is in the holder array of an entry in use. -/
def Table.Holds (locks : Table Lock) (pid id : Nat) : Prop :=
  (locks.entries id).inUse = true ∧ pid ∈ (locks.entries id).pids

theorem Table.holds_set {locks : Table Lock} {lock : Lock} {id k pid : Nat} :
    (locks.set id lock).Holds pid k ↔
      if k = id then lock.inUse = true ∧ pid ∈ lock.pids else locks.Holds pid k := by
  by_cases hk : k = id
  · subst hk
    simp [Holds, Table.set]
  · simp [Holds, Table.set, hk]

namespace Kernel

variable {s t : Kernel} {id k pid : Nat} {p : Proc}

section Specs

/-- What `acquire` does to the tables when it does not fail. -/
theorem acquire_spec {cvarUse : Bool} {result : Acquired} (h : s.acquire id p cvarUse = (t, result))
    (hResult : result ≠ .error) : (s.locks.entries id).inUse = true ∧ t.cvars = s.cvars ∧
      t.pcb = s.pcb ∧ ∃ lock, t.locks = s.locks.set id lock ∧ lock.inUse = true ∧
      (result = .acquired ∧ 0 < (s.locks.entries id).val ∧
          lock.pids = (find (s.locks.entries id).pids 0 (s.locks.entries id).capacity
            (some (s.pcb p).pid)).2 ∨
        result = .need ∧ lock.pids = (s.locks.entries id).pids) := by
  unfold acquire at h
  dsimp only at h
  generalize (if cvarUse = true then (s.locks.entries id).neededBy
    else (s.locks.entries id).neededBy + 1) = neededBy at h
  split_ifs at h with hFail hVal
  · obtain ⟨-, rfl⟩ := Prod.mk.inj h
    exact absurd rfl hResult
  all_goals
    simp only [not_or, Bool.not_eq_false] at hFail
    obtain ⟨rfl, rfl⟩ := Prod.mk.inj h
  · exact ⟨hFail.2.1, rfl, rfl, _, rfl, hFail.2.1, Or.inl ⟨rfl, hVal, rfl⟩⟩
  · exact ⟨hFail.2.1, rfl, rfl, _, rfl, hFail.2.1, Or.inr ⟨rfl, rfl⟩⟩

/-- What `release` does to the tables when it succeeds. -/
theorem release_spec {cvarUse : Bool} (h : s.release id p cvarUse = (t, true)) :
    (s.locks.entries id).inUse = true ∧ (find (s.locks.entries id).pids (s.pcb p).pid
      (s.locks.entries id).capacity none).1 = true ∧ t.cvars = s.cvars ∧
    (∀ q, (t.pcb q).cvarLockId = (s.pcb q).cvarLockId) ∧ ∃ lock next, t.locks = s.locks.set id lock ∧
      lock.inUse = true ∧
      lock.pids = (find (s.locks.entries id).pids (s.pcb p).pid (s.locks.entries id).capacity (some next)).2 ∧
      ∀ w ∈ (IntrusiveQueue.pop s.next (s.locks.entries id).ends).1, next = (s.pcb w).pid := by
  unfold release at h
  dsimp only at h
  split at h
  · simp at h
  rename_i hFail
  simp only [not_or, Bool.not_eq_false] at hFail
  obtain ⟨-, hUse, hFound⟩ := hFail
  split at h
  · rename_i hPop
    obtain ⟨rfl, -⟩ := Prod.mk.inj h
    refine ⟨hUse, hFound, rfl, fun _ => rfl, _, _, rfl, hUse, rfl, fun w hw => ?_⟩
    have hNone : (IntrusiveQueue.pop s.next (s.locks.entries id).ends).1 = none := congrArg Prod.fst hPop
    rw [hNone] at hw
    cases hw
  · rename_i waiter next ends hPop
    obtain ⟨rfl, -⟩ := Prod.mk.inj h
    have hView := syncView_scheduleProcess ((((s.emit (.lockReleased id p)).setNext next).setLock id
      { s.locks.entries id with
        ends := ends
        pids := (find (s.locks.entries id).pids (s.pcb p).pid (s.locks.entries id).capacity
          (some (s.pcb waiter).pid)).2
        neededBy := if cvarUse = true then (s.locks.entries id).neededBy
          else (s.locks.entries id).neededBy - 1 }).emit (.lockGranted id waiter)) waiter
    refine ⟨hUse, hFound, congrArg SyncView.cvars hView,
      fun q => congrFun (congrArg SyncView.lockIds hView) q, _, _, congrArg SyncView.locks hView,
      hUse, rfl, fun w hw => ?_⟩
    have hSome : (IntrusiveQueue.pop s.next (s.locks.entries id).ends).1 = some waiter :=
      congrArg Prod.fst hPop
    rw [hSome, Option.mem_some_iff] at hw
    rw [hw]

/-- `wait_cvar` is a release followed by queueing on the condition variable. -/
theorem waitCvar_spec {cvarId : Nat} (h : s.waitCvar cvarId id p = (t, true)) :
    ∃ released, s.release id p true = (released, true) ∧ t.locks = released.locks ∧
      (t.pcb p).cvarLockId = id ∧ ∀ q, q ≠ p → (t.pcb q).cvarLockId = (s.pcb q).cvarLockId := by
  unfold waitCvar at h
  split_ifs at h
  · simp at h
  split at h
  · cases h
  · rename_i released hRelease
    obtain ⟨-, -, -, hLockIds, -⟩ := release_spec hRelease
    obtain ⟨rfl, -⟩ := Prod.mk.inj h
    refine ⟨released, hRelease, rfl, ?_, fun q hq => ?_⟩
    · simp [setCvar, setNext, modifyPcb]
    · rw [← hLockIds q]
      simp [setCvar, setNext, modifyPcb, Function.update_of_ne hq]

/-- The lock of a waiter, when it is signalled. -/
theorem syncView_reacquire (s : Kernel) (p : Proc) :
    (s.reacquire p).syncView = (s.acquire (s.pcb p).cvarLockId p true).1.syncView := by
  unfold reacquire
  split <;> rename_i hAcquire <;> simp [hAcquire]

end Specs

variable [Hardware]

/-- In an entry in use, replacing the slot of `old` keeps all other holders. -/
theorem mem_find {old : Nat} (next pid : Nat) (h : KernelStart.Sound s) (hUse : (s.locks.entries id).inUse = true)
    (hMem : old ∈ (s.locks.entries id).pids) :
    next ∈ (find (s.locks.entries id).pids old (s.locks.entries id).capacity (some next)).2 ∧
      (pid ≠ old → pid ∈ (s.locks.entries id).pids →
        pid ∈ (find (s.locks.entries id).pids old (s.locks.entries id).capacity (some next)).2) := by
  have hLock : LockInv (s.locks.entries id) _ _ _ := h.settled.sync.lock id hUse
  have hPerm := find_perm hMem next
  rw [← hLock.find_eq] at hPerm
  refine ⟨hPerm.mem_iff.mpr (by simp), fun hNe hOld => hPerm.mem_iff.mpr ?_⟩
  exact List.mem_cons_of_mem _ ((List.mem_erase_of_ne hNe).mpr hOld)

theorem mem_of_find (h : KernelStart.Sound s) (hUse : (s.locks.entries id).inUse = true)
    (hFound : (find (s.locks.entries id).pids pid (s.locks.entries id).capacity none).1 = true) :
    pid ∈ (s.locks.entries id).pids := by
  have hLock : LockInv (s.locks.entries id) _ _ _ := h.settled.sync.lock id hUse
  rw [hLock.find_eq, find_fst] at hFound
  simpa using hFound

/-- An acquisition keeps all holders, and adds one when it succeeds at once. -/
theorem holds_acquire {cvarUse : Bool} {result : Acquired} (pid k : Nat) (h : KernelStart.Sound s) {u : Kernel}
    (hLocks : u.locks = s.locks) (hPcb : u.pcb = s.pcb) (hAcquire : u.acquire id p cvarUse = (t, result))
    (hResult : result ≠ .error) :
    (pid ≠ 0 → s.locks.Holds pid k → t.locks.Holds pid k) ∧
      (result = .acquired → t.locks.Holds (s.pcb p).pid id) := by
  obtain ⟨hUse, -, -, lock, hSet, hNew, hPids⟩ := acquire_spec hAcquire hResult
  rw [hLocks] at hUse hSet hPids
  rw [hPcb] at hPids
  rw [hSet, Table.holds_set, Table.holds_set, if_pos rfl]
  rcases hPids with ⟨-, hVal, hPids⟩ | ⟨rfl, hPids⟩
  · have hLock : LockInv (s.locks.entries id) _ _ _ := h.settled.sync.lock id hUse
    have hFind := mem_find (s.pcb p).pid pid h hUse (hLock.permits.mem_zero hVal)
    rw [← hPids] at hFind
    refine ⟨fun hPid hHolds => ?_, fun _ => ⟨hNew, hFind.1⟩⟩
    split_ifs with hk
    · subst hk
      exact ⟨hNew, hFind.2 hPid hHolds.2⟩
    · exact hHolds
  · refine ⟨fun hPid hHolds => ?_, (nomatch ·)⟩
    split_ifs with hk
    · subst hk
      exact ⟨hNew, hPids ▸ hHolds.2⟩
    · exact hHolds

/-- A release takes the lock from the caller only. -/
theorem holds_release {cvarUse : Bool} (h : KernelStart.Sound s)
    (hRelease : s.release id p cvarUse = (t, true)) (hOther : pid ≠ (s.pcb p).pid ∨ k ≠ id)
    (hHolds : s.locks.Holds pid k) : t.locks.Holds pid k := by
  obtain ⟨hUse, hFound, -, -, lock, next, hSet, hNew, hPids, -⟩ := release_spec hRelease
  rw [hSet, Table.holds_set]
  split_ifs with hk
  · subst hk
    rw [hPids]
    have hNe := hOther.resolve_right (by simp)
    exact ⟨hNew, (mem_find next pid h hUse (mem_of_find h hUse hFound)).2 hNe hHolds.2⟩
  · exact hHolds

/-- The first waiter gets the lock that is given up. -/
theorem holds_released {cvarUse : Bool} (h : KernelStart.Sound s)
    (hRelease : s.release id p cvarUse = (t, true)) {w : Proc}
    (hw : w ∈ (s.contents (.queue (.lock id))).head?) : t.locks.Holds (s.pcb w).pid id := by
  obtain ⟨hUse, hFound, -, -, lock, next, hSet, hNew, hPids, hNext⟩ := release_spec hRelease
  have hQueue : IntrusiveQueue.IsQueue s.next (s.locks.entries id).ends (s.contents (.queue (.lock id))) :=
    h.settled.placement.linked (.lock id)
  have hFirst : w ∈ (IntrusiveQueue.pop s.next (s.locks.entries id).ends).1 := by
    cases hList : s.contents (.queue (.lock id)) with
    | nil =>
        rw [hList] at hw
        cases hw
    | cons first rest =>
        rw [hList] at hQueue hw
        rw [hQueue.pop_fst]
        exact hw
  rw [hSet, Table.holds_set, if_pos rfl, hPids, ← hNext w hFirst]
  exact ⟨hNew, (mem_find next next h hUse (mem_of_find h hUse hFound)).1⟩

/-- A holder stays a holder, unless it gives the lock up itself. -/
theorem holds_syncStep {label : Label} {v : SyncView} (h : KernelStart.Sound s)
    (hStep : SyncStep label s v) (hPid : pid ≠ 0) (hHolds : s.locks.Holds pid k) :
    v.locks.Holds pid k ∨ pid = (s.pcb s.runningProc).pid ∧ s.inUser ∧
      (label.releases = some k ∨ label.waitsWith = some k) := by
  have hGiven {t : Kernel} {id : Nat} {cvarUse : Bool} (hUser : s.inUser)
      (hCall : label.releases = some id ∨ label.waitsWith = some id)
      (hRelease : s.release id s.runningProc cvarUse = (t, true)) : t.locks.Holds pid k ∨
        pid = (s.pcb s.runningProc).pid ∧ s.inUser ∧
          (label.releases = some k ∨ label.waitsWith = some k) := by
    by_cases hOwn : pid = (s.pcb s.runningProc).pid ∧ k = id
    · exact Or.inr ⟨hOwn.1, hUser, hOwn.2 ▸ hCall⟩
    · rw [not_and_or] at hOwn
      exact Or.inl (holds_release h hRelease hOwn hHolds)
  have hWf : s.locks.Wf Lock.inUse .blank := h.settled.sync.locks
  have hKept {locks : Table Lock} (hSame : locks.entries k = s.locks.entries k) : locks.Holds pid k := by
    rw [Table.Holds, hSame]
    exact hHolds
  cases hStep with
  | @newLock capacity growOk pidsOk hCall =>
      have hTable : (s.newLock capacity growOk pidsOk).1.locks =
          (s.locks.create Lock.inUse .blank (.fresh capacity) s.locks.openIdx growOk pidsOk).1 := by
        unfold newLock
        dsimp only
        split <;> rfl
      refine Or.inl (hKept ?_)
      rw [syncView, hTable]
      exact hWf.create_kept (.fresh capacity) rfl (Or.inl rfl) growOk pidsOk hHolds.1
  | newCvar => exact Or.inl hHolds
  | @deleteLock id shrinkOk =>
      refine Or.inl ?_
      unfold deleteLock
      dsimp only
      split_ifs with hRefused
      · exact hHolds
      · simp only [not_or, Nat.not_le, Bool.not_eq_false, not_lt] at hRefused
        have hNe : k ≠ id := by
          rintro rfl
          have hNone := ((unneeded_iff h hRefused.2.1).mpr hRefused.2.2).1
          have hMem : pid ∈ holders (s.locks.entries k).pids :=
            List.mem_filter.mpr ⟨hHolds.2, by simpa using hPid⟩
          rw [hNone] at hMem
          cases hMem
        exact hKept (hWf.retire_kept { s.locks.entries id with inUse := false } rfl rfl hRefused.1
          shrinkOk hNe hHolds.1)
  | deleteCvar =>
      refine Or.inl ?_
      unfold deleteCvar
      dsimp only
      split_ifs <;> exact hHolds
  | acquire hUser hAcquire hResult =>
      exact Or.inl ((holds_acquire pid k h rfl rfl hAcquire hResult).1 hPid hHolds)
  | release hUser hCall hRelease => exact hGiven hUser (Or.inl hCall) hRelease
  | wait hUser hCall hWait =>
      obtain ⟨released, hRelease, hLocks, -⟩ := waitCvar_spec hWait
      rw [syncView, hLocks]
      exact hGiven hUser (Or.inr hCall) hRelease
  | @signal popped id waiter hPop =>
      obtain ⟨hLocks, hPcb⟩ := popCvar_frame hPop
      have hNext := acquire_popCvar h hPop
      refine Or.inl ?_
      rw [syncView_reacquire]
      exact (holds_acquire pid k h hLocks hPcb rfl hNext).1 hPid hHolds

theorem holds_effect {label : Label} (h : KernelStart.Sound s) (hEffect : Effect label s t)
    (hPid : pid ≠ 0) (hHolds : s.locks.Holds pid k) :
    t.locks.Holds pid k ∨ pid = (s.pcb s.runningProc).pid ∧ s.inUser ∧
      (label.releases = some k ∨ label.waitsWith = some k) := by
  rcases sync_effect hEffect with hStep | hSame
  · exact holds_syncStep h hStep hPid hHolds
  · rw [hSame.locks]
    exact Or.inl hHolds

end Kernel

namespace KernelStart.Sound

variable [Hardware] {s t u : Kernel} {id cvarId : Nat} {waiter : Proc}

/-- Who waits after the running process has queued for a lock. -/
theorem enqueue (kc : KernelContext) (h : Sound s) (hUser : s.inUser)
    (hAcquire : s.acquire id s.runningProc false = (u, .need)) (hQuiet : Quiet u t) :
    Calm (Function.update s.contents (.queue (.lock id))
      (s.contents (.queue (.lock id)) ++ [s.runningProc])) (t.switchAway kc).contents := by
  have hSettled := h.settled
  rcases hSettled.acquire id false (Or.inl rfl) (hSettled.cpu_eq hUser) rfl with
    hRes | ⟨hRes, -⟩ | ⟨-, hInv⟩
  · simp [hAcquire] at hRes
  · simp [hAcquire] at hRes
  · rw [hAcquire] at hInv
    obtain ⟨others, hNext, hSwitch⟩ := (hInv.quiet hQuiet).switchAway kc (Apart.move_source (by simp))
      ((Apart.move_other (by simp) (by simp)).trans hSettled.hand)
    rw [hNext.contents_eq]
    exact (Calm.move_to rfl _ _).trans hSwitch.calm

/-- Who waits after the running process has gone to wait on a condition
variable. -/
theorem wait {lockId : Nat} (kc : KernelContext) (h : Sound s) (hUser : s.inUser)
    (hWait : s.waitCvar cvarId lockId s.runningProc = (u, true)) (hQuiet : Quiet u t) :
    Calm (Function.update (Function.update s.contents (.queue (.lock lockId))
      (s.contents (.queue (.lock lockId))).tail) (.queue (.cvar cvarId))
        (s.contents (.queue (.cvar cvarId)) ++ [s.runningProc])) (t.switchAway kc).contents := by
  have hSettled := h.settled
  obtain ⟨others, hInv, hFrame, hCpu, hHand⟩ :=
    hSettled.waitCvar (hSettled.cpu_eq hUser) hSettled.hand hWait
  obtain ⟨last, hNext, hSwitch⟩ := (hInv.quiet hQuiet).switchAway kc hCpu hHand
  rw [hNext.contents_eq]
  exact hFrame.calm.trans hSwitch.calm

/-- Who waits after a release. -/
theorem release (h : Sound s) (hUser : s.inUser)
    (hRelease : s.release id s.runningProc false = (t, true)) :
    Calm (Function.update s.contents (.queue (.lock id)) (s.contents (.queue (.lock id))).tail)
      t.contents := by
  have hSettled := h.settled
  have hCpu := Kernel.cpu_of_outside (Kernel.outside_fst (Kernel.outside_release s _ _ _) hRelease)
  obtain ⟨others, hInv, hFrame, hx, hHand, -⟩ :=
    hSettled.release (hSettled.cpu_eq hUser) hSettled.hand hRelease
  rw [(hSettled.of_inv hInv hCpu (hx.trans (hSettled.cpu_eq hUser).symm) hHand).contents_eq]
  exact hFrame.calm

/-- Who waits after a signal. -/
theorem signal (h : Sound s) (hPop : s.popCvar cvarId = (t, some waiter)) :
    waiter ∈ (s.contents (.queue (.cvar cvarId))).head? ∧ ∃ queue, (queue = s.contents (.queue (.lock (s.pcb waiter).cvarLockId)) ∧
          (t.acquire (t.pcb waiter).cvarLockId waiter true).2 = .acquired ∨
        queue = s.contents (.queue (.lock (s.pcb waiter).cvarLockId)) ++ [waiter]) ∧
      Calm (Function.update (Function.update s.contents (.queue (.cvar cvarId))
        (s.contents (.queue (.cvar cvarId))).tail) (.queue (.lock (s.pcb waiter).cvarLockId)) queue)
        (t.reacquire waiter).contents := by
  have hSettled := h.settled
  obtain ⟨queue, others, hQueue, hInv, hFrame, hWaiter, hx, hHand⟩ := hSettled.signal hSettled.hand hPop
  have hCpu := (Kernel.cpu_of_outside (Kernel.outside_reacquire t waiter)).trans
    (Kernel.cpu_of_outside (Kernel.outside_fst (Kernel.outside_popCvar s _) hPop))
  rw [(hSettled.of_inv hInv hCpu hx hHand).contents_eq]
  exact ⟨hWaiter, queue, hQueue, hFrame.calm⟩

end KernelStart.Sound

/-- The lock or semaphore a call asks for; `CvarWait` asks for its lock again. -/
def Label.acquires : Label → Option Nat
  | .syscall .acquire uc _ | .syscall .semDown uc _ => some (Identifiers.getId (uc.regs 0))
  | .syscall .cvarWait uc _ => some (Identifiers.getId (uc.regs 1))
  | _ => none

/-- The lock a blocked call will own when it returns. -/
def KernelContext.lock : KernelContext → Option Nat
  | .acquire id | .semDown id | .cvarWait id => some id
  | _ => none

namespace Kernel

variable {s t : Kernel} {id : Nat} {p : Proc}

/-- The process is queued for the lock, or waits on a condition variable with
it. -/
def QueuedFor (s : Kernel) (p : Proc) (id : Nat) : Prop :=
  p ∈ s.contents (.queue (.lock id)) ∨
    (∃ c, p ∈ s.contents (.queue (.cvar c))) ∧ (s.pcb p).cvarLockId = id

/-- Whoever is inside a call that acquires a lock is queued for it or already
owns it. -/
def Owed (s : Kernel) : Prop :=
  ∀ p kc id, s.Inside p kc → kc.lock = some id → s.QueuedFor p id ∨ s.locks.Holds (s.pcb p).pid id

variable [Hardware] {label : Label}

/-- Only the process that goes to wait on a condition variable, and a new one,
get another lock to return to. -/
theorem cvarLockId_effect (h : Effect label s t) (hp : p ≠ s.runningProc) (hLt : p < s.numPcbs) :
    (t.pcb p).cvarLockId = (s.pcb p).cvarLockId := by
  have hKept {u : Kernel} (hView : t.syncView = u.syncView)
      (hSame : (u.pcb p).cvarLockId = (s.pcb p).cvarLockId) :
      (t.pcb p).cvarLockId = (s.pcb p).cvarLockId :=
    (congrFun (congrArg SyncView.lockIds hView) p).trans hSame
  rcases sync_effect h with hStep | hSame
  · generalize hView : t.syncView = v at hStep
    cases hStep with
    | newLock =>
        refine hKept hView ?_
        unfold newLock
        dsimp only
        split <;> rfl
    | newCvar => exact hKept hView rfl
    | deleteLock =>
        refine hKept hView ?_
        unfold deleteLock
        dsimp only
        split_ifs <;> rfl
    | deleteCvar =>
        refine hKept hView ?_
        unfold deleteCvar
        dsimp only
        split_ifs <;> rfl
    | acquire hUser hAcquire hResult =>
        obtain ⟨-, -, hPcb, -⟩ := acquire_spec hAcquire hResult
        exact hKept hView (by rw [hPcb])
    | release hUser hCall hRelease =>
        obtain ⟨-, -, -, hLockIds, -⟩ := release_spec hRelease
        exact hKept hView (hLockIds p)
    | wait hUser hCall hWait =>
        obtain ⟨-, -, -, -, hLockIds⟩ := waitCvar_spec hWait
        exact hKept hView (hLockIds p hp)
    | @signal popped id waiter hPop =>
        obtain ⟨-, hPcb⟩ := popCvar_frame hPop
        rw [syncView_reacquire] at hView
        refine hKept hView ?_
        have hSame : (popped.acquire (popped.pcb waiter).cvarLockId waiter true).1.pcb = popped.pcb := by
          unfold acquire
          dsimp only
          split_ifs <;> rfl
        rw [hSame, hPcb]
  · exact hSame.lockId p hLt

omit [Hardware] in
theorem mem_head_or_tail {list : List Proc} (hp : p ∈ list) : p ∈ list.head? ∨ p ∈ list.tail := by
  cases list with
  | nil => cases hp
  | cons first rest =>
      rcases List.mem_cons.mp hp with rfl | hp
      · exact Or.inl rfl
      · exact Or.inr hp

omit [Hardware] in
theorem mem_update {lists : Place → List Proc} {a b : Place} {list : List Proc} (hp : p ∈ lists b)
    (hSame : b = a → p ∈ list) : p ∈ Function.update lists a list b := by
  by_cases hb : b = a
  · subst hb
    rw [Function.update_self]
    exact hSame rfl
  · rw [Function.update_of_ne hb]
    exact hp

/-- A process that is queued for a lock stays so until it owns the lock. -/
theorem queuedFor_effect (h : KernelStart.Sound s) (hEffect : Effect label s t) (hQueued : s.QueuedFor p id) :
    t.QueuedFor p id ∨ t.locks.Holds (s.pcb p).pid id := by
  obtain ⟨a, ha, hp⟩ : ∃ a : Place, a.isBlocked = true ∧ p ∈ s.contents a := by
    rcases hQueued with hp | ⟨⟨c, hp⟩, -⟩
    · exact ⟨_, rfl, hp⟩
    · exact ⟨_, rfl, hp⟩
  have hLockId := cvarLockId_effect hEffect (ne_running h ha hp)
    (h.settled.placement.live_of_mem hp).2.1
  have hStays (hLock : p ∈ s.contents (.queue (.lock id)) → p ∈ t.contents (.queue (.lock id)))
      (hCvar : ∀ c, p ∈ s.contents (.queue (.cvar c)) → p ∈ t.contents (.queue (.cvar c))) :
      t.QueuedFor p id :=
    hQueued.imp hLock fun ⟨⟨c, hc⟩, hSame⟩ => ⟨⟨c, hCvar c hc⟩, hLockId.trans hSame⟩
  -- the first waiter of a lock that is given up owns it afterwards
  have hGiven {k : Nat} (hFirst : ∀ w ∈ (s.contents (.queue (.lock k))).head?,
        t.locks.Holds (s.pcb w).pid k)
      (hLock : (.queue (.lock id) = (.queue (.lock k) : Place) → p ∈ (s.contents (.queue (.lock k))).tail) →
        p ∈ s.contents (.queue (.lock id)) → p ∈ t.contents (.queue (.lock id)))
      (hCvar : ∀ c, p ∈ s.contents (.queue (.cvar c)) → p ∈ t.contents (.queue (.cvar c))) :
      t.QueuedFor p id ∨ t.locks.Holds (s.pcb p).pid id := by
    by_cases hOut : id = k ∧ p ∈ (s.contents (.queue (.lock k))).head?
    · obtain ⟨rfl, hHead⟩ := hOut
      exact Or.inr (hFirst p hHead)
    · refine Or.inl (hStays (fun hIn => hLock (fun hk => ?_) hIn) hCvar)
      have hSame : id = k := by simpa using hk
      subst hSame
      exact (mem_head_or_tail hIn).resolve_left fun hHead => hOut ⟨rfl, hHead⟩
  obtain ⟨others, hOutcome⟩ := h.settled.effect h.contexts hEffect
  rcases hOutcome.sync with hSync | hFrame
  · cases hSync with
    | @enqueue _ _ _ kc hUser hKc hAcquire hQuiet =>
        have hCalm := KernelStart.Sound.enqueue kc h hUser hAcquire hQuiet
        refine Or.inl (hStays (fun hIn => ?_) fun c hIn => ?_)
        · rw [hCalm _ rfl]
          exact mem_update hIn fun he => he ▸ List.mem_append_left _ hIn
        · rw [hCalm _ rfl]
          exact mem_update hIn (by simp)
    | @wait v u cvarId lockId hUser hWait hQuiet =>
        obtain ⟨released, hRelease, hLocks, -⟩ := waitCvar_spec hWait
        have hSwitch : (v.switchAway (.cvarWait lockId)).syncView = u.syncView :=
          (syncView_switchAway v _).trans (syncView_quiet hQuiet)
        have hView : (v.switchAway (.cvarWait lockId)).locks = released.locks :=
          (congrArg SyncView.locks hSwitch).trans hLocks
        have hCalm := KernelStart.Sound.wait (.cvarWait lockId) h hUser hWait hQuiet
        refine hGiven (k := lockId) (fun w hw => ?_) (fun hTail hIn => ?_) fun c hIn => ?_
        · rw [hView]
          exact holds_released h hRelease hw
        · rw [hCalm _ rfl]
          exact mem_update (mem_update hIn hTail) (by simp)
        · rw [hCalm _ rfl]
          exact mem_update (mem_update hIn (by simp)) fun he => he ▸ List.mem_append_left _ hIn
    | @release _ k hUser hRelease =>
        have hCalm := h.release hUser hRelease
        refine hGiven (k := k) (fun w hw => ?_) (fun hTail hIn => ?_) fun c hIn => ?_
        · exact holds_released h hRelease hw
        · rw [hCalm _ rfl]
          exact mem_update hIn hTail
        · rw [hCalm _ rfl]
          exact mem_update hIn (by simp)
    | @signal popped k waiter hPop =>
        obtain ⟨hHead, queue, hQueue, hCalm⟩ := h.signal hPop
        obtain ⟨hLocks, hPcb⟩ := popCvar_frame hPop
        have hQueueMem (hIn : p ∈ s.contents (.queue (.lock (s.pcb waiter).cvarLockId))) : p ∈ queue := by
          rcases hQueue with ⟨rfl, -⟩ | rfl
          · exact hIn
          · exact List.mem_append_left _ hIn
        rcases hQueued with hIn | ⟨⟨c, hc⟩, hId⟩
        · refine Or.inl (Or.inl ?_)
          rw [hCalm _ rfl]
          refine mem_update (mem_update hIn (by simp)) fun he => hQueueMem (he ▸ hIn)
        by_cases hWaiter : p = waiter
        · subst hWaiter
          rcases hQueue with ⟨-, hAcquired⟩ | rfl
          · generalize hResult : popped.acquire (popped.pcb p).cvarLockId p true = result at hAcquired
            have hLocked : (popped.reacquire p).locks = result.1.locks := by
              rw [← hResult]
              exact congrArg SyncView.locks (syncView_reacquire popped p)
            rw [hPcb, hId] at hResult
            rw [hLocked]
            exact Or.inr ((holds_acquire 0 0 h hLocks hPcb hResult (by simp [hAcquired])).2 hAcquired)
          · refine Or.inl (Or.inl ?_)
            rw [hCalm _ rfl, ← hId, Function.update_self]
            exact List.mem_append_right _ (List.mem_singleton_self p)
        · refine Or.inl (Or.inr ⟨⟨c, ?_⟩, hLockId.trans hId⟩)
          rw [hCalm _ rfl, Function.update_of_ne (by simp)]
          refine mem_update hc fun he => ?_
          have hSame : c = k := by simpa using he
          subst hSame
          refine (mem_head_or_tail hc).resolve_left fun hFirst => hWaiter ?_
          exact Option.mem_unique hFirst hHead
  · refine Or.inl (hStays (fun hIn => ?_) fun c hIn => ?_)
    · rw [hOutcome.settled.contents_eq, hFrame _ rfl]
      exact hIn
    · rw [hOutcome.settled.contents_eq, hFrame _ rfl]
      exact hIn

theorem pid_eq (h : KernelStart.Sound s) (hLive : s.Live p) : (s.pcb p).pid = newPid p :=
  (h.settled.sync.pid p hLive).2.2

/-- A process that blocks for a lock is queued for it. -/
theorem queuedFor_parks {parked u : Kernel} {kc : KernelContext} (h : KernelStart.Sound s) (hUser : s.inUser)
    (hParks : Parks label s kc parked) (hQuiet : Quiet parked u) (hLock : kc.lock = some id) :
    (u.switchAway kc).QueuedFor s.runningProc id := by
  have hLast (list : List Proc) : s.runningProc ∈ list ++ [s.runningProc] :=
    List.mem_append_right _ (List.mem_singleton_self _)
  cases hParks with
  | @lock _ k _ hKc hAcquire =>
      have hSame : k = id := by rcases hKc with rfl | rfl <;> simpa [KernelContext.lock] using hLock
      subst hSame
      refine Or.inl ?_
      rw [KernelStart.Sound.enqueue kc h hUser hAcquire hQuiet _ rfl, Function.update_self]
      exact hLast _
  | @cvar _ cvarId lockId hCall hWait =>
      obtain rfl : lockId = id := by simpa [KernelContext.lock] using hLock
      refine Or.inr ⟨⟨cvarId, ?_⟩, ?_⟩
      · rw [KernelStart.Sound.wait (.cvarWait lockId) h hUser hWait hQuiet _ rfl, Function.update_self]
        exact hLast _
      · obtain ⟨-, -, -, hLockId, -⟩ := waitCvar_spec hWait
        have hView := (syncView_switchAway u (.cvarWait lockId)).trans (syncView_quiet hQuiet)
        exact (congrFun (congrArg SyncView.lockIds hView) s.runningProc).trans hLockId
  | sleep | wait | pipe | ttyRead | ttyWrite => cases hLock

theorem Owed.effect (hOwed : s.Owed) (h : KernelStart.Sound s) (hEffect : Effect label s t) : t.Owed := by
  intro p kc id hInside hLock
  obtain ⟨others, hOutcome⟩ := h.settled.effect h.contexts hEffect
  rcases hOutcome.entries.enter p kc hInside with hOld | hEnters
  · have hPid : (t.pcb p).pid = (s.pcb p).pid := by
      rw [pid_eq h hOld.1, pid_eq (h.effects hEffect.one) hInside.1]
    rw [hPid]
    rcases hOwed p kc id hOld hLock with hQueued | hHolds
    · exact queuedFor_effect h hEffect hQueued
    · have hNe : (s.pcb p).pid ≠ 0 := h.settled.sync.pid_ne_zero hOld.1
      rcases holds_effect h hEffect hNe hHolds with hKept | ⟨hSame, hUser, -⟩
      · exact Or.inr hKept
      · -- a process inside its call does not run user code, so it gives nothing up
        have hRunning := h.settled.sync.pid_inj hOld.1 (h.settled.live_running hUser) hSame
        exact absurd (hRunning ▸ hOld) (not_inside_running hUser.1)
  · cases hEnters with
    | clock | fork => cases hLock
    | block hp hUser hParks hQuiet hSwitch =>
        rw [hp, hSwitch]
        exact Or.inl (queuedFor_parks h hUser hParks hQuiet hLock)

theorem Owed.read (hOwed : s.Owed) (h : KernelStart.Sound s) (k len : Nat) : (s.read k len).Owed := by
  have hContents := contents_read h k len
  obtain ⟨ttys, lines, trace, hRead⟩ := read_eq s k len
  intro p kc id hInside hLock
  rw [QueuedFor, hContents]
  rw [hRead] at hInside ⊢
  exact hOwed p kc id hInside hLock

omit [Hardware] in
theorem Owed.user (hOwed : s.Owed) : Owed { s with mode := .user } :=
  fun p kc id hInside hLock => hOwed p kc id (inside_user.mp hInside).2 hLock

omit [Hardware] in
/-- The running process gives the lock up itself. -/
def GivesUp (s : Kernel) (label : Label) (pid id : Nat) : Prop :=
  s.inUser ∧ (s.pcb s.runningProc).pid = pid ∧ (label.releases = some id ∨ label.waitsWith = some id)

omit [Hardware] in
theorem syscall_of_gives (h : label.releases = some id ∨ label.waitsWith = some id) :
    ∃ call uc o, label = .syscall call uc o ∧ call ≠ .ttyRead := by
  cases label with
  | syscall call uc o =>
      refine ⟨call, uc, o, rfl, ?_⟩
      rintro rfl
      simp [Label.releases, Label.waitsWith] at h
  | _ => simp [Label.releases, Label.waitsWith] at h

/-- A holder stays one in every step in which it does not give the lock up. -/
theorem holds_step {pid : Nat} (h : KernelStart.Sound s) (hPid : pid ≠ 0) (hHolds : s.locks.Holds pid id)
    (hKeeps : ¬s.GivesUp label pid id) (hStep : s.step label = .ok t) : t.locks.Holds pid id := by
  by_cases hGives : label.releases = some id ∨ label.waitsWith = some id
  · obtain ⟨call, uc, o, rfl, hCall⟩ := syscall_of_gives hGives
    have hUser : s.inUser := by
      unfold step at hStep
      dsimp only at hStep
      split_ifs at hStep with hUser
      exact hUser
    have hOther : pid ≠ newPid s.runningProc := by
      intro hSame
      refine hKeeps ⟨hUser, ?_, hGives⟩
      rw [pid_eq h (h.settled.live_running hUser), hSame]
    refine (h.preserve (I := fun u => u.locks.Holds pid id ∧ (u.mode = .user → u.runningProc = s.runningProc))
      (fun u v hu hInv hEffect => ?_) ⟨hHolds, fun _ => rfl⟩ hStep (fun uc' o' id' len hLabel => ?_)
      fun o' id' hLabel => ?_).1
    · constructor
      · rcases holds_effect hu hEffect hPid hInv.1 with hKept | ⟨hSame, hUser', -⟩
        · exact hKept
        · rw [pid_eq hu (hu.settled.live_running hUser'), hInv.2 hUser'.1] at hSame
          exact absurd hSame hOther
      · intro hMode
        obtain ⟨hBefore, hRunning⟩ := user_effect hEffect rfl hMode
        exact hRunning.trans (hInv.2 hBefore)
    · simp only [Label.syscall.injEq] at hLabel
      exact absurd hLabel.1 hCall
    · cases hLabel
  · refine h.preserve (I := fun u => u.locks.Holds pid id) (fun u v hu hInv hEffect => ?_) hHolds hStep
      (fun uc o id' len _ _ _ hInv => ?_) fun o id' _ _ _ => ?_
    · exact (holds_effect hu hEffect hPid hInv).resolve_right fun hGiven => hGives hGiven.2.2
    · obtain ⟨ttys, lines, trace, hRead⟩ := read_eq (s.saveUc uc) id' len
      rw [hRead]
      exact hInv
    · obtain ⟨ttys, lines, trace, hRead⟩ := read_eq { s with mode := .user } id' (s.pcb s.runningProc).ioLen
      rw [hRead]
      exact hHolds

omit [Hardware] in
/-- How a call that asks for a lock ends: it fails, or the caller is a holder,
or the caller is inside the call. -/
def Asked (s t : Kernel) (id : Nat) : Prop :=
  t.mode = .user ∧ ((t.pcb s.runningProc).uc.regs 0 = errorCode ∨
      t.Live s.runningProc ∧ t.locks.Holds (t.pcb s.runningProc).pid id) ∨
    t.mode = .resuming ∧ ∃ kc, kc.lock = some id ∧ t.Inside s.runningProc kc

theorem asked_acquireImpl (h : KernelStart.Sound s) (hUser : s.inUser) (isId : Word → Bool)
    {kc : Nat → KernelContext} (hKc : ∀ id, kc id = .acquire id ∨ kc id = .semDown id) :
    Asked s (s.acquireImpl isId kc) (Identifiers.getId (s.reg 0)) := by
  unfold acquireImpl
  dsimp only
  split_ifs
  · exact Or.inl ⟨hUser.1, Or.inl (ret_result _ _)⟩
  · split
    · rename_i u hAcquire
      obtain rfl := eq_of_acquire_error hAcquire
      exact Or.inl ⟨hUser.1, Or.inl (ret_result _ _)⟩
    · rename_i u hAcquire
      obtain ⟨-, -, hPcb, -⟩ := acquire_spec hAcquire (by simp)
      have hMode := mode_of_cpu (cpu_of_outside (outside_fst (outside_acquire s _ _ _) hAcquire))
      have hLive := live_acquire s (Identifiers.getId (s.reg 0)) s.runningProc false
      rw [hAcquire] at hLive
      refine Or.inl ⟨hMode.trans hUser.1, Or.inr ⟨?_, ?_⟩⟩
      · rw [(Quiet.ret u _).live_iff, hLive]
        exact h.settled.live_running hUser
      · rw [(Quiet.ret u _).pid, hPcb]
        exact (holds_acquire 0 0 h rfl rfl hAcquire (by simp)).2 rfl
    · rename_i u hAcquire
      have hParks : Parks .math s (kc (Identifiers.getId (s.reg 0))) u := .lock (hKc _) hAcquire
      refine Or.inr ⟨rfl, kc _, ?_, h.inside_parked hUser hParks (Quiet.ret _ _)⟩
      rcases hKc (Identifiers.getId (s.reg 0)) with hSaved | hSaved <;> rw [hSaved] <;> rfl

theorem asked_kernelCvarWait (label : Label) (h : KernelStart.Sound s) (hUser : s.inUser)
    (hCall : Identifiers.isCvarId (s.reg 0) = true → Identifiers.isLockId (s.reg 1) = true →
      label.waitsWith = some (Identifiers.getId (s.reg 1))) :
    Asked s s.kernelCvarWait (Identifiers.getId (s.reg 1)) := by
  unfold kernelCvarWait
  dsimp only
  split_ifs with hArgs
  · exact Or.inl ⟨hUser.1, Or.inl (ret_result _ _)⟩
  · simp only [not_or, Bool.not_eq_false] at hArgs
    split
    · rename_i u hWait
      exact Or.inr ⟨rfl, .cvarWait _, rfl,
        h.inside_parked hUser (.cvar (hCall hArgs.1 hArgs.2) hWait) (Quiet.ret _ _)⟩
    · rename_i u hWait
      obtain rfl := eq_of_waitCvar_false hWait
      exact Or.inl ⟨hUser.1, Or.inl (ret_result _ _)⟩

omit [Hardware] in
theorem Asked.leave (h : Asked s t id) : Asked s t.leave id := by
  unfold Kernel.leave
  split
  · exact h
  · exact h

/-- A call that asks for a lock. -/
theorem asked_step (h : KernelStart.Sound s) (hCall : label.acquires = some id)
    (hStep : s.step label = .ok t) : Asked s t id := by
  cases label with
  | syscall call uc o =>
      unfold step at hStep
      dsimp only at hStep
      split_ifs at hStep with hUser
      obtain ⟨u, hDispatch, hStep⟩ := Transition.bind_eq_ok.mp hStep
      obtain rfl := Except.ok.inj hStep
      have hSave := Quiet.saveUc s uc
      have hSaved := h.quiet hSave
      have hReg := reg_saveUc s uc
      apply Asked.leave
      cases call with
      | acquire =>
          obtain rfl := Option.some.inj hCall
          obtain rfl := Except.ok.inj hDispatch
          exact hReg 0 ▸ asked_acquireImpl hSaved (hSave.inUser hUser) _ fun _ => Or.inl rfl
      | semDown =>
          obtain rfl := Option.some.inj hCall
          obtain rfl := Except.ok.inj hDispatch
          exact hReg 0 ▸ asked_acquireImpl hSaved (hSave.inUser hUser) _ fun _ => Or.inr rfl
      | cvarWait =>
          obtain rfl := Option.some.inj hCall
          obtain rfl := Except.ok.inj hDispatch
          refine hReg 1 ▸ asked_kernelCvarWait (.syscall .cvarWait uc o) hSaved (hSave.inUser hUser)
            fun hCvar hLock => ?_
          rw [hReg] at hCvar hLock
          rw [hReg]
          exact if_pos (by simp [hCvar, hLock])
      | _ => cases hCall
  | _ => cases hCall

end Kernel
namespace KernelStart

open Kernel

section Runs

variable [Hardware] {s t : Kernel}

theorem owed_reachable (run : system.Reachable s) : s.Owed := by
  refine invariant (I := Kernel.Owed) (fun uctxt early late p kc id hInside hLock => ?_)
    (fun _ _ _ h hOwed hEffect => hOwed.effect h hEffect) (fun _ id len h hOwed => hOwed.read h id len)
    (fun _ _ _ hOwed _ _ => hOwed.user) run
  rw [inside_kernelStart uctxt early late hInside] at hLock
  cases hLock

/-- The process is a holder of the lock, and stays one until it gives the lock
up itself. -/
def Owns (s : Kernel) (p : Proc) (id : Nat) : Prop :=
  ∀ t, system.Path (fun u label => ¬u.GivesUp label (s.pcb p).pid id) s t →
    t.locks.Holds (s.pcb p).pid id

theorem owns_of_holds {p : Proc} {id : Nat} (run : system.Reachable s) (hLive : s.Live p)
    (hHolds : s.locks.Holds (s.pcb p).pid id) : Owns s p id := by
  have hPid : (s.pcb p).pid ≠ 0 := (sound_reachable run).settled.sync.pid_ne_zero hLive
  intro t path
  refine path.invariant (I := fun u => u.locks.Holds (s.pcb p).pid id) run hHolds ?_
  exact fun u label v hRun hOld hKeeps hStep => holds_step (sound_reachable hRun) hPid hOld hKeeps hStep

/-- A process that continues a call for a lock is a holder. -/
theorem owns_of_resume {p : Proc} {kc : KernelContext} {id : Nat} {o : Outcomes} (run : system.Reachable s)
    (hInside : s.Inside p kc) (hLock : kc.lock = some id) (hRunning : s.runningProc = p)
    (hStep : s.step (.resume o) = .ok t) : Owns t p id := by
  have h := sound_reachable run
  have hHolds : s.locks.Holds (s.pcb p).pid id := by
    refine (owed_reachable run p kc id hInside hLock).resolve_left ?_
    rintro (hQueued | ⟨⟨c, hQueued⟩, -⟩) <;> exact ne_running h rfl hQueued hRunning.symm
  have hSame : t = Kernel.leave { s with mode := .user } := by
    unfold step at hStep
    dsimp only at hStep
    split_ifs at hStep
    unfold resume at hStep
    rw [show (s.pcb s.runningProc).kc = some kc from hRunning ▸ hInside.2.1] at hStep
    cases kc with
    | acquire | semDown | cvarWait => exact (Except.ok.inj hStep).symm
    | boot | fork | clock | delay | wait | pipeRead | ttyRead | ttyWrite => cases hLock
  have hReached : system.Reachable t := reachable_step run hStep
  rw [hSame] at hReached ⊢
  exact owns_of_holds hReached hInside.1 hHolds

end Runs

/-- Whoever returns with success from a call for a lock or semaphore, at once or
after it has blocked and was dispatched again, is one of its holders, and stays
one until it gives the lock up itself. -/
theorem success_owned [Hardware] {s t : Kernel} {label : Label} {id : Nat} (run : system.Reachable s)
    (hCall : label.acquires = some id) (hStep : s.step label = .ok t) :
    (t.mode = .user → (t.pcb s.runningProc).uc.regs 0 = successCode → Owns t s.runningProc id) ∧
    (t.mode = .resuming → ∀ u,
      system.Path (fun v next => ¬(s.runningProc = v.runningProc ∧ next.isResume = true)) t u →
      u.runningProc = s.runningProc → ∀ o w, u.step (.resume o) = .ok w → Owns w s.runningProc id) := by
  have h := sound_reachable run
  have hReached : system.Reachable t := reachable_step run hStep
  rcases asked_step h hCall hStep with ⟨hMode, hResult⟩ | ⟨hMode, kc, hLock, hInside⟩
  · refine ⟨fun _ hSuccess => ?_, fun hResuming => by simp [hMode] at hResuming⟩
    rcases hResult with hError | ⟨hLive, hHolds⟩
    · rw [hSuccess] at hError
      cases hError
    · exact owns_of_holds hReached hLive hHolds
  · refine ⟨fun hUser => by simp [hMode] at hUser, fun _ u path hRunning o w hResume => ?_⟩
    have hStill : u.Inside s.runningProc kc :=
      path.invariant (I := fun v => v.Inside s.runningProc kc) hReached hInside
        fun v next x hRun hOld hOther hNext => hOld.step (sound_reachable hRun) hOther hNext
    exact owns_of_resume (path.reachable hReached) hStill hLock hRunning hResume

open Sample Identifiers in
/-- The second process waits for the lock until the first one gives it up. -/
theorem success_owned_waiter : ∃ s t u w : Kernel, system.Reachable s ∧
    s.step (call .acquire [createId lockFlag 0]) = .ok t ∧ t.mode = .resuming ∧
    u.step (.resume outcomes) = .ok w ∧ s.runningProc = 2 ∧ Owns w 2 0 := by
  obtain ⟨s, run, hTwo, t, hStep, hMode, u, hPath, hRunning, w, hResume, -⟩ :=
    Transition.System.exists_reachable
      (P := fun s : Kernel => s.runningProc = 2 ∧
        ∃ t ∈ (s.step (call .acquire [createId lockFlag 0])).toOption, t.mode = .resuming ∧
        ∃ u ∈ system.run (fun v next => ¬(s.runningProc = v.runningProc ∧ next.isResume = true)) t
          [.resume outcomes, call .release [createId lockFlag 0], .clock (context []) outcomes],
        u.runningProc = s.runningProc ∧ ∃ w ∈ (u.step (.resume outcomes)).toOption, w.mode = .user)
      (turn ++ [call .lockInit [208], call .acquire [createId lockFlag 0], call .fork []] ++ turn)
      initial_booted (by decide +kernel)
  rw [Transition.mem_toOption] at hStep hResume
  have hOwned := (success_owned run rfl hStep).2 hMode u (.run hPath) hRunning outcomes w hResume
  have hSlot : getId ((context [createId lockFlag 0]).regs 0) = 0 := by decide
  rw [hTwo, hSlot] at hOwned
  exact ⟨s, t, u, w, run, hStep, hMode, hResume, hTwo, hOwned⟩

end KernelStart
end Yalnix
