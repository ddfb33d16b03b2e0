import Yalnix.Process.SyncSteps

/-! Creating and deleting locks, condition variables and pipes. A slot that is
overwritten has no waiters, so no process is lost with it. -/
namespace Yalnix

open IntrusiveQueue Apart Synchronization Hardware

variable {lists : Place → List Proc}

/-- Headers may be overwritten where they are those of empty queues. -/
theorem Placement.relink {S T : Shape} (h : Placement S lists) (hNext : T.next = S.next)
    (hEnds : ∀ q, T.ends q = S.ends q ∨ (lists (.queue q) = [] ∧ T.ends q = .empty))
    (hLength : T.length = S.length) (hSleepers : T.sleepers = S.sleepers)
    (hOwner : T.owner = S.owner) (hLive : T.live = S.live) (hLog : T.log = S.log) : Placement T lists := by
  refine h.congr hNext ?_ hLength hSleepers hOwner hLive hLog
  funext q
  rcases hEnds q with hSame | ⟨hNil, hEmpty⟩
  · exact hSame
  · have hQueue := h.linked q
    simp only [hNil, isQueue_nil_iff] at hQueue
    rw [hEmpty, hQueue]

namespace Kernel

/-! The tables of objects say nothing about which processes are live. -/

theorem live_newLock (s : Kernel) (capacity : Nat) (growOk pidsOk : Bool) :
    (s.newLock capacity growOk pidsOk).1.Live = s.Live := by
  unfold newLock
  dsimp only
  split <;> rfl

theorem live_deleteLock (s : Kernel) (id : Nat) (shrinkOk : Bool) :
    (s.deleteLock id shrinkOk).1.Live = s.Live := by
  unfold deleteLock
  dsimp only
  split_ifs <;> rfl

theorem live_deleteCvar (s : Kernel) (id : Nat) (shrinkOk : Bool) :
    (s.deleteCvar id shrinkOk).1.Live = s.Live := by
  unfold deleteCvar
  dsimp only
  split_ifs <;> rfl

theorem live_newPipe [Hardware] (s : Kernel) (growOk bufOk : Bool) :
    (s.newPipe growOk bufOk).1.Live = s.Live := by
  unfold newPipe
  dsimp only
  split <;> rfl

theorem live_pipeReclaim (s : Kernel) (id : Nat) : (s.pipeReclaim id).1.Live = s.Live := by
  unfold pipeReclaim
  split
  · rfl
  · split_ifs <;> rfl

end Kernel

namespace Inv

variable [Hardware] {s : Kernel}

theorem ends_empty {q : QueueId} (h : Inv s lists none) (hNil : lists (.queue q) = []) :
    s.ends q = .empty := by
  have hQueue := h.placement.linked q
  simp only [hNil, isQueue_nil_iff] at hQueue
  exact hQueue

/-- Nobody waits on a condition variable with a lock that is not in use. -/
theorem bound_unused {id : Nat} (h : Inv s lists none) (hUnused : (s.locks.entries id).inUse = false) :
    bound s.shape.cvarLockId lists id = ∅ := by
  refine Set.eq_empty_iff_forall_notMem.mpr ?_
  rintro p ⟨⟨c, hp⟩, rfl⟩
  have hUse := (h.sync.waiter c p hp).1
  simp [Kernel.shape] at hUse hUnused
  simp [hUse] at hUnused

/-- Slots of the lock table that nobody needs are overwritten. -/
theorem replaceLocks {locks : Table Lock} (h : Inv s lists none) (hWf : locks.Wf Lock.inUse .blank)
    (hEntry : ∀ id, locks.entries id = s.locks.entries id ∨
      (lists (.queue (.lock id)) = [] ∧ bound s.shape.cvarLockId lists id = ∅ ∧
        (locks.entries id).ends = .empty ∧
        ((locks.entries id).inUse = true → LockInv (locks.entries id) [] s.shape.pid 0))) :
    Inv { s with locks := locks } lists none := by
  refine ⟨h.placement.relink rfl (fun q => ?_) rfl rfl rfl rfl rfl, ?_, h.pipes, h.pipe_unused⟩
  · cases q with
    | lock id =>
        rcases hEntry id with hSame | ⟨hNil, -, hEmpty, -⟩
        · exact Or.inl (congrArg Lock.ends hSame)
        · exact Or.inr ⟨hNil, hEmpty⟩
    | _ => exact Or.inl rfl
  · refine ⟨hWf, h.sync.cvars, fun id hId => ?_, fun id hId => ?_, h.sync.cvar_unused,
      fun c p hp => ?_, h.sync.pid⟩
    · rcases hEntry id with hSame | ⟨hNil, hBound, -, hLock⟩
      · have hOld := h.sync.lock id (hSame ▸ hId)
        simpa only [Kernel.shape, hSame] using hOld
      · have hNone : bindings s.shape.cvarLockId lists none id = 0 := by simp [bindings, hBound]
        have hNew := hLock hId
        rw [← hNil, ← hNone] at hNew
        exact hNew
    · rcases hEntry id with hSame | ⟨hNil, -⟩
      · exact h.sync.lock_unused id (hSame ▸ hId)
      · exact hNil
    · rcases hEntry (s.shape.cvarLockId p) with hSame | ⟨-, hBound, -⟩
      · have hOld := h.sync.waiter c p hp
        rw [show s.shape.locks = s.locks from rfl, ← hSame] at hOld
        exact hOld
      · have hMem : p ∈ bound s.shape.cvarLockId lists (s.shape.cvarLockId p) := ⟨⟨c, hp⟩, rfl⟩
        simp [hBound] at hMem

/-- The log of a lock starts anew. -/
theorem lockCreated {id : Nat} (h : Inv s lists none) (hNil : lists (.queue (.lock id)) = []) :
    Inv (s.emit (.lockCreated id)) lists none := by
  refine ⟨h.placement.relog (f := (s.emit (.lockCreated id)).log) fun q hq => ?_,
    h.sync.congr rfl fun _ _ => rfl, h.pipes, h.pipe_unused⟩
  rw [Kernel.log_emit]
  cases q with
  | lock other =>
      by_cases he : id = other
      · subst he
        simp only [Event.enter, if_true, hNil]
        exact .nil
      · simp only [Event.enter, if_neg he]
        exact h.placement.served _ hq
  | sched type => cases type <;> exact h.placement.served _ hq
  | cvar | pipe | writer | reader => cases hq

theorem newLock {capacity : Nat} (h : Inv s lists none) (growOk pidsOk : Bool) :
    Inv (s.newLock capacity growOk pidsOk).1 lists none := by
  have hFree := h.sync.locks.open_free rfl
  have hPermits := Permits.replicate capacity
  have hLock : LockInv (.fresh capacity) [] s.shape.pid 0 := by
    refine ⟨hPermits, by simp, by simp, ?_⟩
    simp [Lock.fresh, holders]
  have hInv : Inv { s with locks := (s.locks.create Lock.inUse .blank (.fresh capacity)
      s.locks.openIdx growOk pidsOk).1 } lists none := by
    refine h.replaceLocks (h.sync.locks.create _ rfl (Or.inl rfl) growOk pidsOk).1 fun k => ?_
    rcases h.sync.locks.create_entry (.fresh capacity) rfl (Or.inl rfl) growOk pidsOk k with
      hSame | ⟨rfl, hBlank | hFresh⟩
    · exact Or.inl hSame
    · refine Or.inr ⟨h.sync.lock_unused _ hFree, h.bound_unused hFree, ?_⟩
      rw [show s.locks = s.shape.locks from rfl, hBlank]
      exact ⟨rfl, by simp [Lock.blank]⟩
    · refine Or.inr ⟨h.sync.lock_unused _ hFree, h.bound_unused hFree, ?_⟩
      rw [show s.locks = s.shape.locks from rfl, hFresh]
      exact ⟨rfl, fun _ => hLock⟩
  unfold Kernel.newLock
  dsimp only
  split
  · exact hInv
  · rename_i id hCreated
    obtain ⟨-, hSome, -⟩ := h.sync.locks.create (.fresh capacity) rfl (Or.inl rfl) growOk pidsOk
    rw [(hSome id hCreated).1]
    exact hInv.lockCreated (h.sync.lock_unused _ hFree)

/-- A lock that nobody needs is deleted. -/
theorem deleteLock {id : Nat} (h : Inv s lists none) (shrinkOk : Bool) :
    Inv (s.deleteLock id shrinkOk).1 lists none := by
  unfold Kernel.deleteLock
  dsimp only
  split_ifs with hFail
  · exact h
  simp only [not_or, Bool.not_eq_false, not_lt, not_le] at hFail
  obtain ⟨hLt, hUse, hNeeded⟩ := hFail
  have hLock : LockInv (s.locks.entries id) _ _ _ := h.sync.lock id hUse
  rw [hLock.needed] at hNeeded
  have hNil : lists (.queue (.lock id)) = [] := List.length_eq_zero_iff.mp (by omega)
  have hBound : bound s.shape.cvarLockId lists id = ∅ := by
    refine (Set.ncard_eq_zero (h.sync.finite_bound h.placement id)).mp ?_
    simp only [bindings] at hNeeded
    omega
  obtain ⟨hWf, hEntry⟩ := h.sync.locks.retire { s.locks.entries id with inUse := false }
    rfl rfl hLt shrinkOk
  have hInv := h.replaceLocks hWf fun k => ?_
  · exact hInv.of_shape (Kernel.shape_emit _ rfl) rfl
  by_cases hk : k = id
  · subst hk
    refine Or.inr ⟨hNil, hBound, ?_⟩
    rcases hEntry k with hEntry | ⟨hEntry, -⟩
    · rw [hEntry, Function.update_self]
      exact ⟨h.ends_empty hNil, by simp⟩
    · rw [hEntry]
      exact ⟨rfl, by simp [Lock.blank]⟩
  · rcases hEntry k with hEntry | ⟨hEntry, hUnused⟩
    · rw [Function.update_of_ne hk] at hEntry
      exact Or.inl hEntry
    · rw [Function.update_of_ne hk] at hUnused
      refine Or.inr ⟨h.sync.lock_unused k hUnused, h.bound_unused hUnused, ?_⟩
      rw [hEntry]
      exact ⟨rfl, by simp [Lock.blank]⟩

/-- Slots of the table of condition variables without waiters are overwritten. -/
theorem replaceCvars {cvars : Table Cvar} (h : Inv s lists none) (hWf : cvars.Wf Cvar.inUse .blank)
    (hEntry : ∀ id, cvars.entries id = s.cvars.entries id ∨
      (lists (.queue (.cvar id)) = [] ∧ (cvars.entries id).ends = .empty)) :
    Inv { s with cvars := cvars } lists none := by
  refine ⟨h.placement.relink rfl (fun q => ?_) rfl rfl rfl rfl rfl, ?_, h.pipes, h.pipe_unused⟩
  · cases q with
    | cvar id =>
        rcases hEntry id with hSame | ⟨hNil, hEmpty⟩
        · exact Or.inl (congrArg Cvar.ends hSame)
        · exact Or.inr ⟨hNil, hEmpty⟩
    | _ => exact Or.inl rfl
  · refine ⟨h.sync.locks, hWf, h.sync.lock, h.sync.lock_unused, fun id hId => ?_, h.sync.waiter,
      h.sync.pid⟩
    rcases hEntry id with hSame | ⟨hNil, -⟩
    · exact h.sync.cvar_unused id (hSame ▸ hId)
    · exact hNil

theorem newCvar (h : Inv s lists none) (growOk : Bool) : Inv (s.newCvar growOk).1 lists none := by
  have hFree := h.sync.cvars.open_free rfl
  refine h.replaceCvars (h.sync.cvars.create _ rfl (Or.inl rfl) growOk true).1 fun k => ?_
  rcases h.sync.cvars.create_entry ⟨.empty, true⟩ rfl (Or.inl rfl) growOk true k with
    hSame | ⟨rfl, hEntry⟩
  · exact Or.inl hSame
  · refine Or.inr ⟨h.sync.cvar_unused _ hFree, ?_⟩
    rcases hEntry with hEntry | hEntry <;> exact congrArg Cvar.ends hEntry

theorem deleteCvar {id : Nat} (h : Inv s lists none) (shrinkOk : Bool) :
    Inv (s.deleteCvar id shrinkOk).1 lists none := by
  unfold Kernel.deleteCvar
  dsimp only
  split_ifs with hFail
  · exact h
  simp only [not_or, Bool.not_eq_false, not_le, not_not] at hFail
  obtain ⟨hLt, hUse, hFirst⟩ := hFail
  have hNil := (h.placement.linked (.cvar id)).first_eq_none_iff.mp hFirst
  obtain ⟨hWf, hEntry⟩ := h.sync.cvars.retire { s.cvars.entries id with inUse := false }
    rfl rfl hLt shrinkOk
  have hInv := h.replaceCvars hWf fun k => ?_
  · exact hInv
  by_cases hk : k = id
  · subst hk
    refine Or.inr ⟨hNil, ?_⟩
    rcases hEntry k with hEntry | ⟨hEntry, -⟩
    · rw [hEntry, Function.update_self]
      exact h.ends_empty hNil
    · rw [hEntry]
      rfl
  · rcases hEntry k with hEntry | ⟨hEntry, hUnused⟩
    · rw [Function.update_of_ne hk] at hEntry
      exact Or.inl hEntry
    · rw [Function.update_of_ne hk] at hUnused
      refine Or.inr ⟨h.sync.cvar_unused k hUnused, ?_⟩
      rw [hEntry]
      rfl

/-- Slots of the pipe table without readers are overwritten. -/
theorem replacePipes {pipes : Table Pipe} (h : Inv s lists none) (hWf : pipes.Wf Pipe.inUse .blank)
    (hEntry : ∀ id, pipes.entries id = s.pipes.entries id ∨
      (lists (.queue (.pipe id)) = [] ∧ (pipes.entries id).readers = .empty)) :
    Inv { s with pipes := pipes } lists none := by
  refine ⟨h.placement.relink rfl (fun q => ?_) rfl rfl rfl rfl rfl, h.sync.congr rfl fun _ _ => rfl, hWf,
    fun id hId => ?_⟩
  · cases q with
    | pipe id =>
        rcases hEntry id with hSame | ⟨hNil, hEmpty⟩
        · exact Or.inl (congrArg Pipe.readers hSame)
        · exact Or.inr ⟨hNil, hEmpty⟩
    | _ => exact Or.inl rfl
  · rcases hEntry id with hSame | ⟨hNil, -⟩
    · exact h.pipe_unused id (hSame ▸ hId)
    · exact hNil

theorem newPipe (h : Inv s lists none) (growOk bufOk : Bool) :
    Inv (s.newPipe growOk bufOk).1 lists none := by
  have hFree := h.pipes.open_free rfl
  have hInv := h.replacePipes (h.pipes.create .fresh rfl (Or.inr rfl) growOk bufOk).1 fun k => ?_
  · unfold Kernel.newPipe
    dsimp only
    split
    · exact hInv
    · exact hInv.of_shape (Kernel.shape_emit _ rfl) rfl
  · rcases h.pipes.create_entry .fresh rfl (Or.inr rfl) growOk bufOk k with
      hSame | ⟨rfl, hEntry⟩
    · exact Or.inl hSame
    · refine Or.inr ⟨h.pipe_unused _ hFree, ?_⟩
      rcases hEntry with hEntry | hEntry <;> exact congrArg Pipe.readers hEntry

theorem pipeReclaim {id : Nat} (h : Inv s lists none) : Inv (s.pipeReclaim id).1 lists none := by
  unfold Kernel.pipeReclaim Kernel.getPipe
  split
  · exact h
  rename_i pipe hPipe
  split_ifs at hPipe with hFail
  obtain rfl := Option.some.inj hPipe
  split_ifs with hFirst
  · exact h
  · simp only [not_or, not_le] at hFail
    have hNil := (h.placement.linked (.pipe id)).first_eq_none_iff.mp (not_not.mp hFirst)
    have hInv := h.replacePipes (h.pipes.lower .blank rfl hFail.1) fun k => ?_
    · exact hInv.of_shape (Kernel.shape_emit _ rfl) rfl
    · by_cases hk : k = id
      · subst hk
        exact Or.inr ⟨hNil, by simp [Table.lower, Pipe.blank]⟩
      · exact Or.inl (by simp [Table.lower, Function.update_of_ne hk])

end Inv
end Yalnix
