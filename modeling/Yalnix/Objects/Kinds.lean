import Yalnix.Objects.Tables
import Yalnix.Process.Holders
import Yalnix.Device.PipeHistory

/-! Identifiers and the kinds of objects. The kind lives in the flag bits of the
identifier only, and locks and semaphores share a table, so an identifier with
the flag of the other of the two is taken for the object in the slot. -/
namespace Yalnix

open Hardware Identifiers

instance (tables : Tables) (kind : ObjectKind) (i : Nat) : Decidable (tables.InUse kind i) :=
  match kind with
  | .lock | .sem => inferInstanceAs (Decidable ((tables.locks.entries i).inUse = true))
  | .cvar => inferInstanceAs (Decidable ((tables.cvars.entries i).inUse = true))
  | .pipe => inferInstanceAs (Decidable ((tables.pipes.entries i).inUse = true))

/-- The identifiers that the init calls stored for the objects in the slots. -/
abbrev Stored := ObjectKind → Nat → Word

/-- A slot that comes into use holds the object of the init call. -/
def Stored.next (s : Kernel) (label : Label) (t : Kernel) (stored : Stored) : Stored := fun kind i =>
  match label.creates with
  | none => stored kind i
  | some created =>
      if t.tables.InUse kind i ∧ ¬s.tables.InUse kind i then createId created.flag i else stored kind i

namespace Kernel

variable [Hardware] {s t : Kernel} {label : Label} {i : Nat}

omit [Hardware] in
/-- The queue of a condition variable changes. -/
theorem cvar_inUse_set {id k : Nat} {ends : IntrusiveQueue.Ends Proc} :
    ((s.cvars.set id { s.cvars.entries id with ends := ends }).entries k).inUse = (s.cvars.entries k).inUse := by
  by_cases hk : k = id
  · subst hk
    simp [Table.set]
  · simp [Table.set, Function.update_of_ne hk]

/-- Which condition variables are in use after a call. -/
theorem cvar_inUse_syncStep {v : SyncView} (h : KernelStart.Sound s) (hStep : SyncStep label s v)
    (hUse : (v.cvars.entries i).inUse = true) :
    (s.cvars.entries i).inUse = true ∨ label.creates = some .cvar := by
  have hWf : s.cvars.Wf Cvar.inUse .blank := h.settled.sync.cvars
  have hSame {cvars : Table Cvar} (hCvars : cvars = s.cvars) (hUsed : (cvars.entries i).inUse = true) :
      (s.cvars.entries i).inUse = true ∨ label.creates = some .cvar := Or.inl (hCvars ▸ hUsed)
  have hAcquire (u : Kernel) (id : Nat) (p : Proc) (cvarUse : Bool) : (u.acquire id p cvarUse).1.cvars = u.cvars := by
    unfold acquire
    dsimp only
    split_ifs <;> rfl
  cases hStep with
  | newLock => exact hSame (congrArg Tables.cvars (tables_newLock s _ _ _)) hUse
  | newCvar hCall => exact Or.inr hCall
  | @deleteLock id shrinkOk =>
      rcases deleteLock_cases s id shrinkOk with hRefused | ⟨-, -, hTables⟩
      · rw [hRefused] at hUse
        exact Or.inl hUse
      · exact hSame (congrArg Tables.cvars hTables) hUse
  | @deleteCvar id shrinkOk =>
      rcases deleteCvar_cases s id shrinkOk with hRefused | ⟨-, hSize, hTables⟩
      · rw [hRefused] at hUse
        exact Or.inl hUse
      · rw [syncView, show (s.deleteCvar id shrinkOk).1.cvars = _ from congrArg Tables.cvars hTables] at hUse
        have hEntry := (hWf.retire { s.cvars.entries id with inUse := false } rfl rfl hSize shrinkOk).2 i
        rcases hEntry with hEntry | ⟨hEntry, -⟩
        · rw [hEntry] at hUse
          by_cases hi : i = id
          · rw [hi, Function.update_self] at hUse
            cases hUse
          · rw [Function.update_of_ne hi] at hUse
            exact Or.inl hUse
        · rw [hEntry] at hUse
          cases hUse
  | acquire hUser hTaken hResult =>
      obtain ⟨-, hCvars, -⟩ := acquire_spec hTaken hResult
      exact hSame hCvars hUse
  | release hUser hCall hRelease =>
      obtain ⟨-, -, hCvars, -⟩ := release_spec hRelease
      exact hSame hCvars hUse
  | @wait u cvarId lockId hUser hCall hWait =>
      unfold waitCvar at hWait
      split_ifs at hWait
      · simp at hWait
      split at hWait
      · simp at hWait
      · rename_i released hRelease
        obtain ⟨-, -, hCvars, -⟩ := release_spec hRelease
        obtain ⟨rfl, -⟩ := Prod.mk.inj hWait
        refine hSame hCvars ?_
        rw [← cvar_inUse_set]
        exact hUse
  | @signal popped id waiter hPop =>
      rw [syncView_reacquire, syncView, hAcquire] at hUse
      unfold popCvar at hPop
      dsimp only at hPop
      split at hPop
      · simp at hPop
      · obtain ⟨rfl, -⟩ := Prod.mk.inj hPop
        rw [← cvar_inUse_set]
        exact Or.inl hUse

theorem cvar_inUse_effect (h : KernelStart.Sound s) (hEffect : Effect label s t)
    (hUse : (t.cvars.entries i).inUse = true) :
    (s.cvars.entries i).inUse = true ∨ label.creates = some .cvar := by
  rcases sync_effect hEffect with hStep | hSame
  · exact cvar_inUse_syncStep h hStep hUse
  · rw [hSame.cvars] at hUse
    exact Or.inl hUse

theorem pipe_inUse_effect (hEffect : Effect label s t) (hUse : (t.pipes.entries i).inUse = true) :
    (s.pipes.entries i).inUse = true ∨ label.creates = some .pipe := by
  have hSet {id : Nat} {pipe new : Pipe} (hPipe : s.getPipe id = some pipe)
      (hUsed : (Function.update s.pipeView.data id new.data i).inUse = true) :
      (s.pipes.entries i).inUse = true := by
    by_cases hi : i = id
    · exact hi ▸ (getPipe_eq_some.mp hPipe).2.1
    · rwa [Function.update_of_ne hi] at hUsed
  have hView : (t.pipeView.data i).inUse = true := hUse
  rcases pipe_effect hEffect with hStep | hSame
  · cases hStep with
    | new hCall => exact Or.inr hCall
    | @reclaim id =>
        rcases pipeReclaim_cases s id with hRefused | ⟨-, -, hTables⟩
        · rw [hRefused] at hView
          exact Or.inl hView
        · have hEntry := congrFun (congrArg (fun tables => tables.pipes.entries) hTables) i
          have hEntry' : (s.pipeReclaim id).1.pipes.entries i = Function.update s.pipes.entries id .blank i := hEntry
          rw [pipeView] at hView
          dsimp only at hView
          rw [hEntry'] at hView
          by_cases hi : i = id
          · rw [hi, Function.update_self] at hView
            cases hView
          · rw [Function.update_of_ne hi] at hView
            exact Or.inl hView
    | @read id len pipe hPipe =>
        rw [pipeView_emit_pipe _ rfl, pipeView_setPipe] at hView
        exact Or.inl (hSet hPipe hView)
    | @write id pipe grown bytes growOk hPipe =>
        rw [pipeView_wakeReaders, pipeView_emit_pipe _ rfl, pipeView_setPipe] at hView
        exact Or.inl (hSet hPipe hView)
  · rw [hSame] at hView
    exact Or.inl hView

/-- A condition variable or pipe that is in use after a step was so before, or
the step is the init call for it. -/
theorem inUse_step {kind : ObjectKind} (h : KernelStart.Sound s) (hKind : kind = .cvar ∨ kind = .pipe)
    (hStep : s.step label = .ok t) (hUse : t.tables.InUse kind i) :
    s.tables.InUse kind i ∨ label.creates = some kind := by
  refine h.preserve (I := fun u => u.tables.InUse kind i → s.tables.InUse kind i ∨ label.creates = some kind)
    (fun u v hu hOld hEffect hNew => ?_) Or.inl hStep (fun uc o id len _ _ _ hOld hNew => ?_)
    (fun o id _ _ _ hNew => ?_) hUse
  · rcases hKind with rfl | rfl
    · exact (cvar_inUse_effect hu hEffect hNew).elim hOld Or.inr
    · exact (pipe_inUse_effect hEffect hNew).elim hOld Or.inr
  · obtain ⟨ttys, lines, trace, hRead⟩ := read_eq (s.saveUc uc) id len
    rw [hRead] at hNew
    exact hOld hNew
  · obtain ⟨ttys, lines, trace, hRead⟩ := read_eq { s with mode := .user } id (s.pcb s.runningProc).ioLen
    rw [hRead] at hNew
    exact Or.inl hNew

end Kernel

namespace KernelStart

open Kernel

section Runs

variable [Hardware] {s t : Kernel} {stored : Stored}

/-- The kernel, and the identifiers its init calls have stored. -/
def observed : Transition.System (Kernel × Stored) Label Stop :=
  system.observe (fun _ _ => 0) Stored.next

/-- At boot there are no objects. -/
theorem not_inUse_kernelStart (uctxt : UserContext) (early late : List Word) (kind : ObjectKind) (i : Nat) :
    ¬(kernelStart uctxt early late).tables.InUse kind i := by
  have hTables : (kernelStart uctxt early late).tables = (image uctxt).tables := by
    unfold kernelStart
    dsimp only
    split_ifs <;> rfl
  rw [hTables]
  cases kind <;> exact Bool.false_ne_true

/-- The identifier of a condition variable or pipe has their flag. -/
theorem stored_eq (run : observed.Reachable (s, stored)) {kind : ObjectKind}
    (hKind : kind = .cvar ∨ kind = .pipe) {i : Nat} (hUse : s.tables.InUse kind i) :
    stored kind i = createId kind.flag i := by
  refine run.invariant (I := fun x => ∀ i, x.1.tables.InUse kind i → x.2 kind i = createId kind.flag i)
    ?_ ?_ i hUse
  · rintro ⟨u, first⟩ ⟨⟨uctxt, early, late, hStart⟩, -⟩ j hNew
    dsimp only at hStart hNew
    rw [hStart] at hNew
    exact absurd hNew (not_inUse_kernelStart uctxt early late kind j)
  · rintro ⟨u, old⟩ label ⟨v, new⟩ hRun hOld - hStep j hNew
    obtain ⟨hStep, hNext⟩ := Transition.System.observe_step.mp hStep
    have h := sound_reachable (Transition.System.observe_reachable hRun)
    dsimp only at hStep hNext hOld hNew ⊢
    rw [hNext, Stored.next]
    by_cases hBefore : u.tables.InUse kind j
    · split
      · exact hOld j hBefore
      · rw [if_neg fun hCame => hCame.2 hBefore]
        exact hOld j hBefore
    · have hCreates := (inUse_step h hKind hStep hNew).resolve_left hBefore
      rw [hCreates]
      exact if_pos ⟨hNew, hBefore⟩

end Runs

end KernelStart

namespace Kernel

/-- The identifier is the one stored by the init call of that kind for the
object that is now in the slot. -/
def LiveId (s : Kernel) (stored : Stored) (kind : ObjectKind) (n : Word) : Prop :=
  n >>> 30 = kind.flag ∧ s.tables.InUse kind (getId n) ∧ stored kind (getId n) = n

instance (s : Kernel) (stored : Stored) (kind : ObjectKind) (n : Word) : Decidable (s.LiveId stored kind n) :=
  inferInstanceAs (Decidable (_ ∧ _))

/-- The flag is that of the kind, but the object in the slot is of another
kind. -/
def Misfit (s : Kernel) (stored : Stored) (kind : ObjectKind) (n : Word) : Prop :=
  n >>> 30 = kind.flag ∧ s.tables.InUse kind (getId n) ∧ stored kind (getId n) ≠ n

/-- The running process is among the holders. -/
def CallerHolds (s : Kernel) (n : Word) : Prop := s.locks.Holds (s.pcb s.runningProc).pid (getId n)

/-- The objects that a call names are live objects of the kinds it works on. -/
def NamesLive (s : Kernel) (stored : Stored) (uc : UserContext) : Syscall → Prop
  | .acquire | .release => s.LiveId stored .lock (uc.regs 0)
  | .semDown | .semUp => s.LiveId stored .sem (uc.regs 0)
  | .cvarWait => s.LiveId stored .cvar (uc.regs 0) ∧ s.LiveId stored .lock (uc.regs 1)
  | .cvarSignal | .cvarBroadcast => s.LiveId stored .cvar (uc.regs 0)
  | .pipeRead | .pipeWrite => s.LiveId stored .pipe (uc.regs 0)
  | .reclaim => ∃ kind, s.LiveId stored kind (uc.regs 0)
  | _ => True

/-- The calls that are carried out although what they name is not a live object
of the right kind: those that find an object of the other kind in the slot, and
transfers of no bytes, which do not look at the pipe. -/
def Strays (s : Kernel) (stored : Stored) (uc : UserContext) : Syscall → Prop
  | .acquire => s.Misfit stored .lock (uc.regs 0) ∧ ¬s.CallerHolds (uc.regs 0)
  | .semDown => s.Misfit stored .sem (uc.regs 0) ∧ ¬s.CallerHolds (uc.regs 0)
  | .release => s.Misfit stored .lock (uc.regs 0) ∧ s.CallerHolds (uc.regs 0)
  | .semUp => s.Misfit stored .sem (uc.regs 0) ∧ s.CallerHolds (uc.regs 0)
  | .cvarWait => s.LiveId stored .cvar (uc.regs 0) ∧ s.Misfit stored .lock (uc.regs 1) ∧
      s.CallerHolds (uc.regs 1)
  | .reclaim => (s.Misfit stored .lock (uc.regs 0) ∨ s.Misfit stored .sem (uc.regs 0)) ∧
      (s.locks.entries (getId (uc.regs 0))).neededBy ≤ 0
  | .pipeRead | .pipeWrite => uc.regs 0 >>> 30 = pipeFlag ∧
      ¬s.tables.InUse .pipe (getId (uc.regs 0)) ∧ uc.regs 1 ≠ 0 ∧ uc.regs 2 = 0
  | _ => False

/-- The call returned `ERROR` and changed nothing. -/
def refused (s : Kernel) (uc : UserContext) : Kernel := ((s.saveUc uc).ret errorCode).leave

section Calls

variable [Hardware] {s t : Kernel} {id : Nat} {p : Proc} {cvarUse : Bool}

theorem find_iff_holds (h : KernelStart.Sound s) (hUse : (s.locks.entries id).inUse = true) (pid : Nat) :
    (Synchronization.find (s.locks.entries id).pids pid (s.locks.entries id).capacity none).1 = true ↔
      s.locks.Holds pid id := by
  have hLock : LockInv (s.locks.entries id) _ _ _ := h.settled.sync.lock id hUse
  rw [hLock.find_eq, Synchronization.find_fst, decide_eq_true_iff, Table.Holds]
  exact (and_iff_right hUse).symm

theorem acquire_error (h : KernelStart.Sound s)
    (hBad : (s.locks.entries id).inUse = false ∨ s.locks.Holds (s.pcb p).pid id) :
    s.acquire id p cvarUse = (s, .error) := by
  unfold acquire
  dsimp only
  rw [if_pos]
  rcases hBad with hFree | hHolds
  · exact Or.inr (Or.inl hFree)
  · exact Or.inr (Or.inr ((find_iff_holds h hHolds.1 _).mpr hHolds))

theorem acquire_taken (h : KernelStart.Sound s) (hUse : (s.locks.entries id).inUse = true)
    (hNot : ¬s.locks.Holds (s.pcb p).pid id) : (s.acquire id p cvarUse).2 ≠ .error :=
  h.settled.acquire_ne_error hUse fun hMem => hNot ⟨hUse, hMem⟩

theorem release_error (h : KernelStart.Sound s) (hBad : ¬s.locks.Holds (s.pcb p).pid id) :
    s.release id p cvarUse = (s, false) := by
  unfold release
  dsimp only
  rw [if_pos]
  by_cases hUse : (s.locks.entries id).inUse = true
  · exact Or.inr (Or.inr (Bool.eq_false_iff.mpr fun hFound => hBad ((find_iff_holds h hUse _).mp hFound)))
  · exact Or.inr (Or.inl (Bool.eq_false_iff.mpr hUse))

theorem release_taken (h : KernelStart.Sound s) (hHolds : s.locks.Holds (s.pcb p).pid id) :
    (s.release id p cvarUse).2 = true := by
  have hSize := lt_size_of_inUse h hHolds.1
  have hFound := (find_iff_holds h hHolds.1 _).mpr hHolds
  unfold release
  dsimp only
  rw [if_neg (by simp [hHolds.1, hFound, Nat.not_le.mpr hSize])]
  split <;> rfl

/-- What a call that is refused leaves behind. -/
def Declined (s t : Kernel) : Prop := t.mode = .user ∧ (t.pcb s.runningProc).uc.regs 0 = errorCode

omit [Hardware] in
theorem not_declined_success (hRunning : t.runningProc = s.runningProc) : ¬s.Declined (t.ret successCode) := by
  rintro ⟨-, hResult⟩
  rw [← hRunning, ret_result] at hResult
  cases hResult

theorem acquireImpl_error (h : KernelStart.Sound s) {isId : Word → Bool} {kc : Nat → KernelContext}
    (hBad : isId (s.reg 0) = false ∨ (s.locks.entries (getId (s.reg 0))).inUse = false ∨
      s.CallerHolds (s.reg 0)) : s.acquireImpl isId kc = s.ret errorCode := by
  unfold acquireImpl
  split_ifs with hId
  · rfl
  · dsimp only
    rw [acquire_error h (hBad.resolve_left hId)]

theorem acquireImpl_taken (h : KernelStart.Sound s) {isId : Word → Bool} {kc : Nat → KernelContext}
    (hId : isId (s.reg 0) = true) (hUse : (s.locks.entries (getId (s.reg 0))).inUse = true)
    (hNot : ¬s.CallerHolds (s.reg 0)) : ¬s.Declined (s.acquireImpl isId kc) := by
  unfold acquireImpl
  rw [if_neg (by simp [hId])]
  dsimp only
  split
  · rename_i u hAcquire
    have hOk : (s.acquire (getId (s.reg 0)) s.runningProc false).2 ≠ .error := acquire_taken h hUse hNot
    rw [hAcquire] at hOk
    exact absurd rfl hOk
  · rename_i u hAcquire
    exact not_declined_success (runningProc_of_cpu (cpu_of_outside
      (outside_fst (outside_acquire s _ _ _) hAcquire)))
  · rintro ⟨hMode, -⟩
    cases hMode

theorem releaseImpl_error (h : KernelStart.Sound s) {isId : Word → Bool}
    (hBad : isId (s.reg 0) = false ∨ ¬s.CallerHolds (s.reg 0)) : s.releaseImpl isId = s.ret errorCode := by
  unfold releaseImpl
  split_ifs with hId
  · rfl
  · dsimp only
    rw [release_error h (hBad.resolve_left hId)]
    rfl

theorem releaseImpl_taken (h : KernelStart.Sound s) {isId : Word → Bool} (hId : isId (s.reg 0) = true)
    (hHolds : s.CallerHolds (s.reg 0)) : ¬s.Declined (s.releaseImpl isId) := by
  unfold releaseImpl
  rw [if_neg (by simp [hId])]
  dsimp only
  rw [release_taken h hHolds]
  exact not_declined_success (runningProc_of_cpu (cpu_of_outside (outside_release s _ _ _)))

theorem waitCvar_error {cvarId : Nat} (h : KernelStart.Sound s)
    (hBad : (s.cvars.entries cvarId).inUse = false ∨ ¬s.locks.Holds (s.pcb p).pid id) :
    s.waitCvar cvarId id p = (s, false) := by
  unfold waitCvar
  split_ifs with hCvar
  · rfl
  · rw [release_error h (hBad.resolve_left fun hFree => hCvar (Or.inr hFree))]

theorem waitCvar_taken {cvarId : Nat} (h : KernelStart.Sound s)
    (hUse : (s.cvars.entries cvarId).inUse = true) (hHolds : s.locks.Holds (s.pcb p).pid id) :
    (s.waitCvar cvarId id p).2 = true := by
  have hWf : s.cvars.Wf Cvar.inUse .blank := h.settled.sync.cvars
  have hSize : cvarId < s.cvars.size := by
    by_contra hBeyond
    rw [hWf.beyond cvarId (Nat.not_lt.mp hBeyond)] at hUse
    cases hUse
  have hRelease : (s.release id p true).2 = true := release_taken h hHolds
  unfold waitCvar
  rw [if_neg (by simp [hUse, Nat.not_le.mpr hSize])]
  split
  · rename_i hFalse
    rw [hFalse] at hRelease
    cases hRelease
  · rfl

theorem kernelCvarWait_error (h : KernelStart.Sound s)
    (hBad : isCvarId (s.reg 0) = true → isLockId (s.reg 1) = true →
      (s.cvars.entries (getId (s.reg 0))).inUse = false ∨ ¬s.CallerHolds (s.reg 1)) :
    s.kernelCvarWait = s.ret errorCode := by
  unfold kernelCvarWait
  split_ifs with hArgs
  · rfl
  · simp only [not_or, Bool.not_eq_false] at hArgs
    dsimp only
    rw [waitCvar_error h (hBad hArgs.1 hArgs.2)]

theorem kernelCvarWait_taken (h : KernelStart.Sound s) (hCvar : isCvarId (s.reg 0) = true)
    (hLock : isLockId (s.reg 1) = true) (hUse : (s.cvars.entries (getId (s.reg 0))).inUse = true)
    (hHolds : s.CallerHolds (s.reg 1)) : ¬s.Declined s.kernelCvarWait := by
  have hWait := waitCvar_taken h hUse hHolds
  unfold kernelCvarWait
  rw [if_neg (by simp [hCvar, hLock])]
  dsimp only
  split
  · rintro ⟨hMode, -⟩
    cases hMode
  · rename_i hFalse
    rw [hFalse] at hWait
    cases hWait

omit [Hardware] in
theorem kernelCvarSignal_error (hBad : isCvarId (s.reg 0) = true →
    (s.cvars.entries (getId (s.reg 0))).inUse = false) : s.kernelCvarSignal = s.ret errorCode := by
  unfold kernelCvarSignal
  split_ifs with hId
  · rfl
  · dsimp only
    rw [signalCvar, if_pos (Or.inr (hBad (by simpa using hId)))]
    rfl

omit [Hardware] in
theorem kernelCvarBroadcast_error (hBad : isCvarId (s.reg 0) = true →
    (s.cvars.entries (getId (s.reg 0))).inUse = false) : s.kernelCvarBroadcast = s.ret errorCode := by
  unfold kernelCvarBroadcast
  split_ifs with hId
  · rfl
  · dsimp only
    rw [broadcastCvar, if_pos (Or.inr (hBad (by simpa using hId)))]
    rfl

omit [Hardware] in
/-- `Reclaim` of what is not in use, or of a lock that is needed. -/
theorem kernelReclaim_error {o : Outcomes}
    (hLock : isLockId (s.reg 0) = true ∨ isSemId (s.reg 0) = true →
      (s.locks.entries (getId (s.reg 0))).inUse = false ∨ 0 < (s.locks.entries (getId (s.reg 0))).neededBy)
    (hPipe : isPipeId (s.reg 0) = true → (s.pipes.entries (getId (s.reg 0))).inUse = false)
    (hCvar : isCvarId (s.reg 0) = true → (s.cvars.entries (getId (s.reg 0))).inUse = false) :
    s.kernelReclaim o = s.ret errorCode := by
  have hFalse {deleted : Kernel × Bool} (hSame : deleted = (s, false)) :
      deleted.1.retBool deleted.2 = s.ret errorCode := by
    rw [hSame]
    rfl
  unfold kernelReclaim
  dsimp only
  split_ifs with hIsLock hIsPipe hIsCvar
  · refine hFalse ?_
    rw [deleteLock, if_pos (Or.inr (hLock (by simpa using hIsLock)))]
  · refine hFalse ?_
    rw [pipeReclaim, getPipe, if_pos (Or.inr (hPipe hIsPipe))]
  · refine hFalse ?_
    rw [deleteCvar, if_pos (Or.inr (Or.inl (hCvar hIsCvar)))]
  · rfl

theorem kernelReclaim_taken {o : Outcomes} (h : KernelStart.Sound s)
    (hLock : isLockId (s.reg 0) = true ∨ isSemId (s.reg 0) = true)
    (hUse : (s.locks.entries (getId (s.reg 0))).inUse = true)
    (hFree : (s.locks.entries (getId (s.reg 0))).neededBy ≤ 0) : ¬s.Declined (s.kernelReclaim o) := by
  have hDeleted : (s.deleteLock (getId (s.reg 0)) (o.alloc 0)).2 = true :=
    (deleteLock_snd h hUse _).mpr ((unneeded_iff h hUse).mpr hFree)
  unfold kernelReclaim
  dsimp only
  rw [if_pos (by simpa using hLock), hDeleted]
  exact not_declined_success (runningProc_of_cpu (cpu_of_outside (outside_deleteLock s _ _)))

/-- A transfer of at least one byte that does not name a pipe. -/
theorem kernelPipeRead_error (hBad : isPipeId (s.reg 0) = true → (s.pipes.entries (getId (s.reg 0))).inUse = false)
    (hSome : isPipeId (s.reg 0) = true → s.reg 1 ≠ 0 → s.reg 2 ≠ 0) : s.kernelPipeRead = .ok (s.ret errorCode) := by
  unfold kernelPipeRead guardBuf pipeReadImpl
  dsimp only
  split_ifs with hBuf hArgs hZero
  · rfl
  · simp only [not_or, Bool.not_eq_false] at hArgs
    exact absurd (BitVec.eq_of_toInt_eq (by simpa using hZero)) (hSome hArgs.1 hArgs.2.1)
  · simp only [not_or, Bool.not_eq_false] at hArgs
    rw [pipeReadLoop, getPipe, if_pos (Or.inr (hBad hArgs.1))]
  · rfl

theorem kernelPipeWrite_error {o : Outcomes}
    (hBad : isPipeId (s.reg 0) = true → (s.pipes.entries (getId (s.reg 0))).inUse = false)
    (hSome : isPipeId (s.reg 0) = true → s.reg 1 ≠ 0 → s.reg 2 ≠ 0) :
    s.kernelPipeWrite o = .ok (s.ret errorCode) := by
  unfold kernelPipeWrite guardBuf pipeWriteImpl
  dsimp only
  split_ifs with hBuf hArgs hZero
  · rfl
  · simp only [not_or, Bool.not_eq_false] at hArgs
    exact absurd (BitVec.eq_of_toInt_eq (by simpa using hZero)) (hSome hArgs.1 hArgs.2.1)
  · simp only [not_or, Bool.not_eq_false] at hArgs
    rw [getPipe, if_pos (Or.inr (hBad hArgs.1))]
    rfl
  · rfl

/-- A transfer of no bytes returns 0. -/
theorem kernelPipe_zero {o : Outcomes} (hId : isPipeId (s.reg 0) = true) (hBuf : s.reg 1 ≠ 0)
    (hZero : s.reg 2 = 0) : s.kernelPipeRead = .ok (s.ret 0) ∧ s.kernelPipeWrite o = .ok (s.ret 0) := by
  have hInt : (s.reg 2).toInt = 0 := by simp [hZero]
  have hNull : ¬s.reg 1 = 0#32 := hBuf
  have hCheck (needsWrite : Bool) : checkCBuf s.mem (s.reg 1) (s.reg 2).toInt needsWrite = true := by
    simp [checkCBuf, hInt, hNull]
  constructor
  · rw [kernelPipeRead, guardBuf, if_pos (hCheck true)]
    simp [pipeReadImpl, hId, hNull, hInt]
  · rw [kernelPipeWrite, guardBuf, if_pos (hCheck false)]
    simp [pipeWriteImpl, hId, hNull, hInt]

end Calls

section Flags

variable {s : Kernel} {stored : Stored} {kind : ObjectKind} {n : Word}

theorem isLockId_iff : isLockId n = true ↔ n >>> 30 = ObjectKind.lock.flag := beq_iff_eq
theorem isSemId_iff : isSemId n = true ↔ n >>> 30 = ObjectKind.sem.flag := beq_iff_eq
theorem isCvarId_iff : isCvarId n = true ↔ n >>> 30 = ObjectKind.cvar.flag := beq_iff_eq
theorem isPipeId_iff : isPipeId n = true ↔ n >>> 30 = ObjectKind.pipe.flag := beq_iff_eq

/-- The slot of an identifier that is not live is free, unless its flag is
wrong. -/
theorem not_inUse_or_misfit (hDead : ¬s.LiveId stored kind n) (hFlag : n >>> 30 = kind.flag) :
    ¬s.tables.InUse kind (getId n) ∨ s.Misfit stored kind n := by
  by_cases hUse : s.tables.InUse kind (getId n)
  · exact Or.inr ⟨hFlag, hUse, fun hSame => hDead ⟨hFlag, hUse, hSame⟩⟩
  · exact Or.inl hUse

theorem Misfit.not_live {other : ObjectKind} (h : s.Misfit stored kind n) : ¬s.LiveId stored other n := by
  intro hLive
  obtain rfl := ObjectKind.flag_inj.mp (h.1.symm.trans hLive.1)
  exact h.2.2 hLive.2.2

end Flags

end Kernel

namespace KernelStart

open Kernel

section Kinds

variable [Hardware] {s : Kernel} {stored : Stored} {uc : UserContext}

/-- A condition variable or pipe is never taken for something else. -/
theorem not_misfit (run : observed.Reachable (s, stored)) {kind : ObjectKind}
    (hKind : kind = .cvar ∨ kind = .pipe) (n : Word) : ¬s.Misfit stored kind n := by
  rintro ⟨hFlag, hUse, hOther⟩
  refine hOther ?_
  rw [stored_eq run hKind hUse, createId_iff kind.flag_lt (getId_lt n)]
  exact ⟨hFlag, rfl⟩

omit [Hardware] in
theorem callerHolds_saveUc (n : Word) : (s.saveUc uc).CallerHolds n ↔ s.CallerHolds n := by
  rw [CallerHolds, CallerHolds, ← (Quiet.saveUc s uc).pid s.runningProc]
  rfl

omit [Hardware] in
theorem lock_free_or_misfit {kind : ObjectKind} (hKind : kind = .lock ∨ kind = .sem) {n : Word}
    (hDead : ¬s.LiveId stored kind n) (hFlag : n >>> 30 = kind.flag) :
    (s.locks.entries (getId n)).inUse = false ∨ s.Misfit stored kind n := by
  refine (not_inUse_or_misfit hDead hFlag).imp_left fun hFree => Bool.eq_false_iff.mpr ?_
  rcases hKind with rfl | rfl <;> exact hFree

/-- `Acquire` and `SemDown`. -/
theorem acquireImpl_refused (h : Sound s) {kind : ObjectKind} (hKind : kind = .lock ∨ kind = .sem)
    {isId : Word → Bool} {kc : Nat → KernelContext}
    (hIs : isId (uc.regs 0) = true ↔ uc.regs 0 >>> 30 = kind.flag)
    (hDead : ¬s.LiveId stored kind (uc.regs 0))
    (hNot : ¬(s.Misfit stored kind (uc.regs 0) ∧ ¬s.CallerHolds (uc.regs 0))) :
    (s.saveUc uc).acquireImpl isId kc = (s.saveUc uc).ret errorCode := by
  have hSaved := h.quiet (.saveUc s uc)
  apply acquireImpl_error hSaved
  rw [reg_saveUc, callerHolds_saveUc]
  by_cases hFlag : isId (uc.regs 0) = true
  · refine Or.inr ((lock_free_or_misfit hKind hDead (hIs.mp hFlag)).imp_right fun hMisfit => ?_)
    by_contra hFree
    exact hNot ⟨hMisfit, hFree⟩
  · exact Or.inl (Bool.eq_false_iff.mpr hFlag)

/-- `Release` and `SemUp`. -/
theorem releaseImpl_refused (h : Sound s) {kind : ObjectKind} (hKind : kind = .lock ∨ kind = .sem)
    {isId : Word → Bool} (hIs : isId (uc.regs 0) = true ↔ uc.regs 0 >>> 30 = kind.flag)
    (hDead : ¬s.LiveId stored kind (uc.regs 0))
    (hNot : ¬(s.Misfit stored kind (uc.regs 0) ∧ s.CallerHolds (uc.regs 0))) :
    (s.saveUc uc).releaseImpl isId = (s.saveUc uc).ret errorCode := by
  have hSaved := h.quiet (.saveUc s uc)
  apply releaseImpl_error hSaved
  rw [reg_saveUc, callerHolds_saveUc]
  by_cases hFlag : isId (uc.regs 0) = true
  · refine Or.inr fun hHolds => ?_
    rcases lock_free_or_misfit hKind hDead (hIs.mp hFlag) with hFree | hMisfit
    · exact absurd hHolds.1 (by simp [hFree])
    · exact hNot ⟨hMisfit, hHolds⟩
  · exact Or.inl (Bool.eq_false_iff.mpr hFlag)

/-- An identifier with the flag of condition variables that is not live. -/
theorem cvar_free (run : observed.Reachable (s, stored)) (hDead : ¬s.LiveId stored .cvar (uc.regs 0))
    (hFlag : isCvarId ((s.saveUc uc).reg 0) = true) :
    ((s.saveUc uc).cvars.entries (getId ((s.saveUc uc).reg 0))).inUse = false := by
  rw [reg_saveUc] at hFlag ⊢
  have hFree := (not_inUse_or_misfit hDead (isCvarId_iff.mp hFlag)).resolve_right
    (not_misfit run (Or.inl rfl) _)
  exact Bool.eq_false_iff.mpr hFree

theorem pipe_free (run : observed.Reachable (s, stored)) (hDead : ¬s.LiveId stored .pipe (uc.regs 0))
    (hFlag : isPipeId ((s.saveUc uc).reg 0) = true) :
    ((s.saveUc uc).pipes.entries (getId ((s.saveUc uc).reg 0))).inUse = false := by
  rw [reg_saveUc] at hFlag ⊢
  have hFree := (not_inUse_or_misfit hDead (isPipeId_iff.mp hFlag)).resolve_right
    (not_misfit run (Or.inr rfl) _)
  exact Bool.eq_false_iff.mpr hFree

/-- A call that does not stray is refused unless it names live objects. -/
theorem dispatch_refused (run : observed.Reachable (s, stored)) {call : Syscall} {o : Outcomes} {t : Kernel}
    (hDead : ¬s.NamesLive stored uc call) (hNot : ¬s.Strays stored uc call)
    (hDispatch : (s.saveUc uc).dispatch call o = .ok t) : t = (s.saveUc uc).ret errorCode := by
  have h := sound_reachable (Transition.System.observe_reachable run)
  have hSaved := h.quiet (.saveUc s uc)
  have hReg := reg_saveUc s uc
  have hOk {v : Kernel} (hResult : Except.ok v = (Except.ok t : Except Stop Kernel))
      (hRefused : v = (s.saveUc uc).ret errorCode) : t = (s.saveUc uc).ret errorCode :=
    (Except.ok.inj hResult).symm.trans hRefused
  -- a transfer of at least one byte
  have hBytes (hDead : ¬s.LiveId stored .pipe (uc.regs 0))
      (hNot : ¬(uc.regs 0 >>> 30 = pipeFlag ∧ ¬s.tables.InUse .pipe (getId (uc.regs 0)) ∧
        uc.regs 1 ≠ 0 ∧ uc.regs 2 = 0)) (hFlag : isPipeId ((s.saveUc uc).reg 0) = true)
      (hBuf : (s.saveUc uc).reg 1 ≠ 0) : (s.saveUc uc).reg 2 ≠ 0 := by
    have hFree := pipe_free run hDead hFlag
    rw [hReg] at hFlag hBuf hFree ⊢
    exact fun hZero => hNot ⟨isPipeId_iff.mp hFlag, Bool.eq_false_iff.mp hFree, hBuf, hZero⟩
  unfold dispatch at hDispatch
  cases call with
  | acquire => exact hOk hDispatch (acquireImpl_refused h (Or.inl rfl) isLockId_iff hDead hNot)
  | semDown => exact hOk hDispatch (acquireImpl_refused h (Or.inr rfl) isSemId_iff hDead hNot)
  | release => exact hOk hDispatch (releaseImpl_refused h (Or.inl rfl) isLockId_iff hDead hNot)
  | semUp => exact hOk hDispatch (releaseImpl_refused h (Or.inr rfl) isSemId_iff hDead hNot)
  | cvarWait =>
      refine hOk hDispatch (kernelCvarWait_error hSaved fun hCvar hLock => ?_)
      by_cases hLive : s.LiveId stored .cvar (uc.regs 0)
      · rw [hReg] at hLock ⊢
        rw [hReg, callerHolds_saveUc]
        refine Or.inr fun hHolds => ?_
        rcases lock_free_or_misfit (Or.inl rfl) (fun hLock => hDead ⟨hLive, hLock⟩)
          (isLockId_iff.mp hLock) with hFree | hMisfit
        · exact absurd hHolds.1 (by simp [hFree])
        · exact hNot ⟨hLive, hMisfit, hHolds⟩
      · exact Or.inl (cvar_free run hLive hCvar)
  | cvarSignal => exact hOk hDispatch (kernelCvarSignal_error (cvar_free run hDead))
  | cvarBroadcast => exact hOk hDispatch (kernelCvarBroadcast_error (cvar_free run hDead))
  | pipeRead =>
      exact hOk ((kernelPipeRead_error (pipe_free run hDead) (hBytes hDead hNot)).symm.trans hDispatch) rfl
  | pipeWrite =>
      exact hOk ((kernelPipeWrite_error (pipe_free run hDead) (hBytes hDead hNot)).symm.trans hDispatch) rfl
  | reclaim =>
      have hNone (kind : ObjectKind) : ¬s.LiveId stored kind (uc.regs 0) := fun hLive => hDead ⟨kind, hLive⟩
      refine hOk hDispatch (kernelReclaim_error (fun hFlag => ?_) (pipe_free run (hNone .pipe))
        (cvar_free run (hNone .cvar)))
      rw [hReg] at hFlag ⊢
      have hNeeded (hMisfit : s.Misfit stored .lock (uc.regs 0) ∨ s.Misfit stored .sem (uc.regs 0)) :
          0 < (s.locks.entries (getId (uc.regs 0))).neededBy := by
        by_contra hFree
        exact hNot ⟨hMisfit, not_lt.mp hFree⟩
      rcases hFlag with hFlag | hFlag
      · exact (lock_free_or_misfit (Or.inl rfl) (hNone .lock) (isLockId_iff.mp hFlag)).imp_right
          fun hMisfit => hNeeded (Or.inl hMisfit)
      · exact (lock_free_or_misfit (Or.inr rfl) (hNone .sem) (isSemId_iff.mp hFlag)).imp_right
          fun hMisfit => hNeeded (Or.inr hMisfit)
  | _ => exact absurd trivial hDead

omit [Hardware] in
theorem declined_of_refused {t : Kernel} (hUser : s.inUser) (hRefused : t.leave = s.refused uc) :
    (s.saveUc uc).Declined t := by
  constructor
  · have hMode := congrArg Kernel.mode hRefused
    rw [refused, (Quiet.leave t).mode, (Quiet.leave _).mode] at hMode
    exact hMode.trans hUser.1
  · have hPcb := congrArg Kernel.pcb hRefused
    rw [refused, leave_pcb, leave_pcb] at hPcb
    rw [hPcb]
    exact ret_result _ _

/-- A call that strays is carried out. -/
theorem not_refused_of_strays (h : Sound s) {call : Syscall}
    (hStrays : s.Strays stored uc call) : ¬s.NamesLive stored uc call ∧
      ∃ t, (s.saveUc uc).dispatch call bootOutcomes = .ok t ∧ ¬(s.saveUc uc).Declined t := by
  have hSaved := h.quiet (.saveUc s uc)
  have hReg := reg_saveUc s uc
  unfold Strays at hStrays
  cases call with
  | acquire =>
      obtain ⟨hMisfit, hNot⟩ := hStrays
      refine ⟨hMisfit.not_live, _, rfl, acquireImpl_taken hSaved ?_ ?_ ?_⟩
      · rw [hReg]
        exact isLockId_iff.mpr hMisfit.1
      · rw [hReg]
        exact hMisfit.2.1
      · rwa [hReg, callerHolds_saveUc]
  | semDown =>
      obtain ⟨hMisfit, hNot⟩ := hStrays
      refine ⟨hMisfit.not_live, _, rfl, acquireImpl_taken hSaved ?_ ?_ ?_⟩
      · rw [hReg]
        exact isSemId_iff.mpr hMisfit.1
      · rw [hReg]
        exact hMisfit.2.1
      · rwa [hReg, callerHolds_saveUc]
  | release =>
      obtain ⟨hMisfit, hHolds⟩ := hStrays
      refine ⟨hMisfit.not_live, _, rfl, releaseImpl_taken hSaved ?_ ?_⟩
      · rw [hReg]
        exact isLockId_iff.mpr hMisfit.1
      · rwa [hReg, callerHolds_saveUc]
  | semUp =>
      obtain ⟨hMisfit, hHolds⟩ := hStrays
      refine ⟨hMisfit.not_live, _, rfl, releaseImpl_taken hSaved ?_ ?_⟩
      · rw [hReg]
        exact isSemId_iff.mpr hMisfit.1
      · rwa [hReg, callerHolds_saveUc]
  | cvarWait =>
      obtain ⟨hCvar, hMisfit, hHolds⟩ := hStrays
      refine ⟨fun hLive => hMisfit.not_live hLive.2, _, rfl, kernelCvarWait_taken hSaved ?_ ?_ ?_ ?_⟩
      · rw [hReg]
        exact isCvarId_iff.mpr hCvar.1
      · rw [hReg]
        exact isLockId_iff.mpr hMisfit.1
      · rw [hReg]
        exact hCvar.2.1
      · rwa [hReg, callerHolds_saveUc]
  | reclaim =>
      obtain ⟨hMisfit, hFree⟩ := hStrays
      refine ⟨?_, _, rfl, kernelReclaim_taken hSaved ?_ ?_ ?_⟩
      · rintro ⟨kind, hLive⟩
        rcases hMisfit with hMisfit | hMisfit <;> exact hMisfit.not_live hLive
      · rw [hReg]
        exact hMisfit.imp (fun h => isLockId_iff.mpr h.1) fun h => isSemId_iff.mpr h.1
      · rw [hReg]
        rcases hMisfit with hMisfit | hMisfit <;> exact hMisfit.2.1
      · rw [hReg]
        exact hFree
  | pipeRead | pipeWrite =>
      obtain ⟨hFlag, hFree, hBuf, hZero⟩ := hStrays
      rw [← hReg 1] at hBuf
      rw [← hReg 2] at hZero
      have hPipe : isPipeId ((s.saveUc uc).reg 0) = true := by
        rw [hReg]
        exact isPipeId_iff.mpr hFlag
      have hResult : _ ∧ (s.saveUc uc).kernelPipeWrite bootOutcomes = _ := kernelPipe_zero hPipe hBuf hZero
      refine ⟨fun hLive => hFree hLive.2.1, (s.saveUc uc).ret 0, ?_, not_declined_success rfl⟩
      first | exact hResult.1 | exact hResult.2
  | _ => exact absurd hStrays id

end Kinds

/-- A call on an object takes effect only on a live object of its kind that it
names by the stored identifier, and otherwise returns `ERROR` and changes
nothing, exactly when it is not one of the calls that stray. -/
theorem kind_safety [Hardware] {s : Kernel} {stored : Stored} (run : observed.Reachable (s, stored))
    (hUser : s.inUser) (call : Syscall) (uc : UserContext) :
    (∀ o t, s.step (.syscall call uc o) = .ok t → s.NamesLive stored uc call ∨ t = s.refused uc) ↔
      ¬s.Strays stored uc call := by
  have h := sound_reachable (Transition.System.observe_reachable run)
  constructor
  · intro hSafe hStrays
    obtain ⟨hDead, t, hDispatch, hTaken⟩ := not_refused_of_strays h hStrays
    have hStep : s.step (.syscall call uc bootOutcomes) = .ok t.leave := by
      simp only [step, if_pos hUser, trapKernelHandler, hDispatch]
      rfl
    exact hTaken (declined_of_refused hUser ((hSafe _ _ hStep).resolve_left hDead))
  · intro hNot o t hStep
    by_cases hLive : s.NamesLive stored uc call
    · exact Or.inl hLive
    · simp only [step, if_pos hUser] at hStep
      obtain ⟨u, hDispatch, hLeave⟩ := Transition.bind_eq_ok.mp hStep
      obtain rfl := Except.ok.inj hLeave
      rw [dispatch_refused run hLive hNot hDispatch]
      exact Or.inr rfl

open Sample in
theorem observed_booted : observed.initial (booted, fun _ _ => 0) := ⟨initial_booted, rfl⟩

open Sample in
/-- A semaphore identifier of a free slot, while there is a lock. -/
theorem kind_safety_free : ∃ (s : Kernel) (stored : Stored), observed.Reachable (s, stored) ∧
    s.LiveId stored .lock (createId lockFlag 0) ∧
    ∀ o t, s.step (.syscall .semDown (context [createId semFlag 1]) o) = .ok t →
      s.NamesLive stored (context [createId semFlag 1]) .semDown ∨
        t = s.refused (context [createId semFlag 1]) := by
  obtain ⟨⟨s, stored⟩, run, hUser, hLive, hFree⟩ := Transition.System.exists_reachable
    (P := fun x : Kernel × Stored => x.1.inUser ∧ x.1.LiveId x.2 .lock (createId lockFlag 0) ∧
      ¬x.1.tables.InUse .sem 1)
    (turn ++ [call .lockInit [208]]) observed_booted (by decide +kernel)
  refine ⟨s, stored, run, hLive, (kind_safety run hUser .semDown _).mpr ?_⟩
  exact fun hStrays => hFree hStrays.1.2.1

open Sample in
/-- `SemDown` with a forged identifier takes a lock. -/
theorem lock_taken_as_semaphore : ∃ (s t : Kernel) (stored : Stored), observed.Reachable (s, stored) ∧
    s.step (call .semDown [createId semFlag 0]) = .ok t ∧
    ¬s.NamesLive stored (context [createId semFlag 0]) .semDown ∧
    t ≠ s.refused (context [createId semFlag 0]) ∧ (t.locks.entries 0).pids = [1] := by
  obtain ⟨⟨s, stored⟩, run, hUser, hDead, t, hStep, hResult, hPids⟩ := Transition.System.exists_reachable
    (P := fun x : Kernel × Stored => x.1.inUser ∧ ¬x.1.LiveId x.2 .sem (createId semFlag 0) ∧
      ∃ t ∈ (x.1.step (call .semDown [createId semFlag 0])).toOption,
        (t.pcb x.1.runningProc).uc.regs 0 = successCode ∧ (t.locks.entries 0).pids = [1])
    (turn ++ [call .lockInit [208]]) observed_booted (by decide +kernel)
  refine ⟨s, t, stored, run, Transition.mem_toOption.mp hStep, hDead, fun hRefused => ?_, hPids⟩
  have hError : (t.pcb s.runningProc).uc.regs 0 = errorCode := by
    rw [hRefused, refused, leave_pcb]
    exact ret_result _ _
  rw [hResult] at hError
  cases hError

end KernelStart
end Yalnix
