import Yalnix.Process.LockUsage
import Mathlib.Order.Bounds.Basic

/-! The tables of locks and semaphores, condition variables and pipes over whole
runs: they hand out the lowest free slot and never lose an object. -/
namespace Yalnix

open Hardware Identifiers

/-- The slot a creation returns is the lowest free one. -/
theorem Table.Wf.isLeast_create {α : Type} {table : Table α} {inUse : α → Bool} {blank fresh : α} {copied id : Nat}
    {growOk entryOk : Bool} (h : table.Wf inUse blank) (hBlank : inUse blank = false)
    (hCopied : copied = table.openIdx ∨ copied = table.size)
    (hId : (table.create inUse blank fresh copied growOk entryOk).2 = some id) :
    IsLeast { i | inUse (table.entries i) = false } id := by
  obtain ⟨-, hSome, -⟩ := h.create fresh hBlank hCopied growOk entryOk
  obtain ⟨rfl, -⟩ := hSome id hId
  refine ⟨h.open_free hBlank, fun i hi => ?_⟩
  by_contra hLt
  have hUse := h.below i (Nat.not_le.mp hLt)
  rw [hi] at hUse
  cases hUse

/-- The calls that create an object. -/
def Syscall.isInit : Syscall → Bool
  | .lockInit | .semInit | .cvarInit | .pipeInit => true
  | _ => false

/-- The three object tables. -/
structure Tables where
  locks : Table Lock
  cvars : Table Cvar
  pipes : Table Pipe

namespace Tables

/-- The slot holds an object; locks and semaphores share a table. -/
def InUse (tables : Tables) : ObjectKind → Nat → Prop
  | .lock, i | .sem, i => (tables.locks.entries i).inUse = true
  | .cvar, i => (tables.cvars.entries i).inUse = true
  | .pipe, i => (tables.pipes.entries i).inUse = true

/-- The slot holds the same in both. -/
def Same (a b : Tables) : ObjectKind → Nat → Prop
  | .lock, i | .sem, i => b.locks.entries i = a.locks.entries i
  | .cvar, i => b.cvars.entries i = a.cvars.entries i
  | .pipe, i => b.pipes.entries i = a.pipes.entries i

/-- The slots of which kinds an identifier can denote. -/
def Denotes (n : Word) : ObjectKind → Nat → Prop
  | .lock, i | .sem, i => (isLockId n = true ∨ isSemId n = true) ∧ getId n = i
  | .cvar, i => isCvarId n = true ∧ getId n = i
  | .pipe, i => isPipeId n = true ∧ getId n = i

theorem Same.refl (a : Tables) (kind : ObjectKind) (i : Nat) : a.Same a kind i := by
  cases kind <;> rfl

end Tables

namespace Kernel

def tables (s : Kernel) : Tables := ⟨s.locks, s.cvars, s.pipes⟩

section Frames

variable {s t : Kernel}

@[simp] theorem tables_ret (s : Kernel) (value : Word) : (s.ret value).tables = s.tables := rfl
@[simp] theorem tables_saveUc (s : Kernel) (uc : UserContext) : (s.saveUc uc).tables = s.tables := rfl

@[simp] theorem tables_leave (s : Kernel) : s.leave.tables = s.tables := by
  unfold leave
  split <;> rfl

/-- The tables after an init call are those after the creation. -/
theorem tables_init [Hardware] {created : Kernel × Option Nat} {addr flag : Word}
    (h : (match created with
      | (u, none) => .ok (u.ret errorCode)
      | (u, some id) => u.storeId addr (createId flag id)) = Except.ok t) :
    t.tables = created.1.tables := by
  obtain ⟨u, result⟩ := created
  cases result with
  | none =>
      obtain rfl := Except.ok.inj h
      rfl
  | some id =>
      obtain ⟨mem, -, h⟩ := Transition.bind_eq_ok.mp h
      obtain rfl := Except.ok.inj h
      rfl

theorem tables_newLock (s : Kernel) (capacity : Nat) (growOk pidsOk : Bool) :
    (s.newLock capacity growOk pidsOk).1.tables = { s.tables with
      locks := (s.locks.create Lock.inUse .blank (.fresh capacity) s.locks.openIdx growOk pidsOk).1 } := by
  unfold newLock
  dsimp only
  split <;> rfl

theorem newLock_snd (s : Kernel) (capacity : Nat) (growOk pidsOk : Bool) :
    (s.newLock capacity growOk pidsOk).2 =
      (s.locks.create Lock.inUse .blank (.fresh capacity) s.locks.openIdx growOk pidsOk).2 := by
  unfold newLock
  dsimp only
  split <;> rename_i hResult <;> exact hResult.symm

theorem newPipe_snd [Hardware] (s : Kernel) (growOk bufOk : Bool) : (s.newPipe growOk bufOk).2 =
    (s.pipes.create Pipe.inUse .blank .fresh s.pipes.size growOk bufOk).2 := by
  unfold newPipe
  dsimp only
  split <;> rename_i hResult <;> exact hResult.symm

theorem tables_newPipe [Hardware] (s : Kernel) (growOk bufOk : Bool) :
    (s.newPipe growOk bufOk).1.tables = { s.tables with
      pipes := (s.pipes.create Pipe.inUse .blank .fresh s.pipes.size growOk bufOk).1 } := by
  unfold newPipe
  dsimp only
  split <;> rfl

end Frames

variable [Hardware] {s t : Kernel} {o : Outcomes} {kind : ObjectKind} {i : Nat}

/-- A creation changes no slot in use, whether it succeeds or not. -/
theorem same_newLock (h : KernelStart.Sound s) (hUse : s.tables.InUse kind i) (capacity : Nat)
    (growOk pidsOk : Bool) : s.tables.Same (s.newLock capacity growOk pidsOk).1.tables kind i := by
  have hWf : s.locks.Wf Lock.inUse .blank := h.settled.sync.locks
  rw [tables_newLock]
  cases kind with
  | lock | sem => exact hWf.create_kept (.fresh capacity) rfl (Or.inl rfl) growOk pidsOk hUse
  | cvar | pipe => rfl

theorem same_newCvar (h : KernelStart.Sound s) (hUse : s.tables.InUse kind i) (growOk : Bool) :
    s.tables.Same (s.newCvar growOk).1.tables kind i := by
  have hWf : s.cvars.Wf Cvar.inUse .blank := h.settled.sync.cvars
  cases kind with
  | cvar => exact hWf.create_kept ⟨.empty, true⟩ rfl (Or.inl rfl) growOk true hUse
  | lock | sem | pipe => rfl

theorem same_newPipe (h : KernelStart.Sound s) (hUse : s.tables.InUse kind i) (growOk bufOk : Bool) :
    s.tables.Same (s.newPipe growOk bufOk).1.tables kind i := by
  rw [tables_newPipe]
  cases kind with
  | pipe => exact h.settled.pipes.create_kept .fresh rfl (Or.inr rfl) growOk bufOk hUse
  | lock | sem | cvar => rfl

omit [Hardware] in
/-- A deletion either changes nothing or gives one slot back. -/
theorem deleteLock_cases (s : Kernel) (id : Nat) (shrinkOk : Bool) :
    s.deleteLock id shrinkOk = (s, false) ∨ (s.deleteLock id shrinkOk).2 = true ∧ id < s.locks.size ∧
      (s.deleteLock id shrinkOk).1.tables = { s.tables with
        locks := s.locks.retire Lock.inUse .blank { s.locks.entries id with inUse := false } id shrinkOk } := by
  unfold deleteLock
  dsimp only
  split_ifs with hRefused
  · exact Or.inl rfl
  · exact Or.inr ⟨rfl, by omega, rfl⟩

omit [Hardware] in
theorem deleteCvar_cases (s : Kernel) (id : Nat) (shrinkOk : Bool) :
    s.deleteCvar id shrinkOk = (s, false) ∨ (s.deleteCvar id shrinkOk).2 = true ∧ id < s.cvars.size ∧
      (s.deleteCvar id shrinkOk).1.tables = { s.tables with
        cvars := s.cvars.retire Cvar.inUse .blank { s.cvars.entries id with inUse := false } id shrinkOk } := by
  unfold deleteCvar
  dsimp only
  split_ifs with hRefused
  · exact Or.inl rfl
  · exact Or.inr ⟨rfl, by omega, rfl⟩

omit [Hardware] in
theorem pipeReclaim_cases (s : Kernel) (id : Nat) :
    s.pipeReclaim id = (s, false) ∨ (s.pipeReclaim id).2 = true ∧ id < s.pipes.size ∧
      (s.pipeReclaim id).1.tables = { s.tables with pipes := s.pipes.lower .blank id } := by
  unfold pipeReclaim
  split
  · exact Or.inl rfl
  · rename_i pipe hPipe
    split_ifs
    · exact Or.inl rfl
    · exact Or.inr ⟨rfl, (getPipe_eq_some.mp hPipe).1, rfl⟩

omit [Hardware] in
theorem runningProc_kernelReclaim (s : Kernel) (o : Outcomes) :
    (s.kernelReclaim o).runningProc = s.runningProc := by
  have hRet (u : Kernel) (ok : Bool) : (u.retBool ok).runningProc = u.runningProc := rfl
  unfold kernelReclaim
  dsimp only
  rw [hRet]
  split_ifs
  · exact runningProc_of_cpu (cpu_of_outside (outside_deleteLock s _ _))
  · exact runningProc_of_cpu (cpu_pipeReclaim s _)
  · exact runningProc_of_cpu (cpu_of_outside (outside_deleteCvar s _ _))
  · rfl

/-- `Reclaim` changes no slot in use but the one it gives back. -/
theorem same_kernelReclaim (h : KernelStart.Sound s) (hUse : s.tables.InUse kind i)
    (hOther : ¬Tables.Denotes (s.reg 0) kind i ∨ (s.kernelReclaim o).reg 0 = errorCode) :
    s.tables.Same (s.kernelReclaim o).tables kind i := by
  have hFalse {deleted : Kernel × Bool} (hSame : deleted = (s, false)) :
      s.tables.Same (deleted.1.retBool deleted.2).tables kind i := by
    rw [hSame]
    exact .refl _ _ _
  -- a deletion that succeeds is not the one that returns `ERROR`
  have hTrue {deleted : Kernel × Bool} (hOk : deleted.2 = true)
      (hOther : ¬Tables.Denotes (s.reg 0) kind i ∨ (deleted.1.retBool deleted.2).reg 0 = errorCode) :
      ¬Tables.Denotes (s.reg 0) kind i := by
    refine hOther.resolve_right fun hError => ?_
    rw [hOk] at hError
    have hSuccess : ((deleted.1.ret successCode).pcb deleted.1.runningProc).uc.regs 0 = errorCode := hError
    rw [ret_result] at hSuccess
    cases hSuccess
  unfold kernelReclaim at hOther ⊢
  dsimp only at hOther ⊢
  split_ifs at hOther ⊢ with hLock hPipe hCvar
  · rcases deleteLock_cases s (getId (s.reg 0)) (o.alloc 0) with hSame | ⟨hOk, hSize, hTables⟩
    · exact hFalse hSame
    · have hNot := hTrue hOk hOther
      rw [retBool, tables_ret, hTables]
      have hWf : s.locks.Wf Lock.inUse .blank := h.settled.sync.locks
      cases kind with
      | lock | sem =>
          refine hWf.retire_kept _ rfl rfl hSize (o.alloc 0) (fun hi => hNot ⟨by simpa using hLock, hi.symm⟩) hUse
      | cvar | pipe => rfl
  · rcases pipeReclaim_cases s (getId (s.reg 0)) with hSame | ⟨hOk, hSize, hTables⟩
    · exact hFalse hSame
    · have hNot := hTrue hOk hOther
      rw [retBool, tables_ret, hTables]
      cases kind with
      | pipe => exact Function.update_of_ne (fun hi => hNot ⟨hPipe, hi.symm⟩) _ _
      | lock | sem | cvar => rfl
  · rcases deleteCvar_cases s (getId (s.reg 0)) (o.alloc 0) with hSame | ⟨hOk, hSize, hTables⟩
    · exact hFalse hSame
    · have hNot := hTrue hOk hOther
      rw [retBool, tables_ret, hTables]
      have hWf : s.cvars.Wf Cvar.inUse .blank := h.settled.sync.cvars
      cases kind with
      | cvar => exact hWf.retire_kept _ rfl rfl hSize (o.alloc 0) (fun hi => hNot ⟨hCvar, hi.symm⟩) hUse
      | lock | sem | pipe => rfl
  · exact hFalse rfl

theorem same_init {call : Syscall} (h : KernelStart.Sound s) (hUse : s.tables.InUse kind i)
    (hCall : call.isInit = true) (hDispatch : s.dispatch call o = .ok t) : s.tables.Same t.tables kind i := by
  have hRet {u : Kernel} {value : Word} (hSame : Except.ok (s.ret value) = (Except.ok u : Except Stop Kernel)) :
      s.tables.Same u.tables kind i := by
    obtain rfl := Except.ok.inj hSame
    exact .refl _ _ _
  unfold dispatch at hDispatch
  cases call with
  | lockInit =>
      dsimp only [kernelLockInit] at hDispatch
      split_ifs at hDispatch
      · exact hRet hDispatch
      · rw [tables_init hDispatch]
        exact same_newLock h hUse _ _ _
  | semInit =>
      dsimp only [kernelSemInit] at hDispatch
      split_ifs at hDispatch
      · exact hRet hDispatch
      · rw [tables_init hDispatch]
        exact same_newLock h hUse _ _ _
  | cvarInit =>
      dsimp only [kernelCvarInit] at hDispatch
      split_ifs at hDispatch
      · exact hRet hDispatch
      · rw [tables_init hDispatch]
        exact same_newCvar h hUse _
  | pipeInit =>
      dsimp only [kernelPipeInit] at hDispatch
      split_ifs at hDispatch
      · exact hRet hDispatch
      · rw [tables_init hDispatch]
        exact same_newPipe h hUse _ _
  | _ => cases hCall

end Kernel

namespace KernelStart

open Kernel

section Steps

variable [Hardware] {s t : Kernel}

/-- A slot in use lies inside its table. -/
theorem lt_of_inUse (h : Sound s) {kind : ObjectKind} {i bound : Nat} (hUse : s.tables.InUse kind i)
    (hSize : s.locks.size ≤ bound ∧ s.cvars.size ≤ bound ∧ s.pipes.size ≤ bound) : i < bound := by
  have hInside {α : Type} {table : Table α} {inUse : α → Bool} {blank : α} (hWf : table.Wf inUse blank)
      (hBlank : inUse blank = false) (hUsed : inUse (table.entries i) = true) : i < table.size := by
    by_contra hBeyond
    rw [hWf.beyond i (Nat.not_lt.mp hBeyond), hBlank] at hUsed
    cases hUsed
  cases kind with
  | lock | sem => exact Nat.lt_of_lt_of_le (hInside h.settled.sync.locks rfl hUse) hSize.1
  | cvar => exact Nat.lt_of_lt_of_le (hInside h.settled.sync.cvars rfl hUse) hSize.2.1
  | pipe => exact Nat.lt_of_lt_of_le (hInside h.settled.pipes rfl hUse) hSize.2.2

theorem same_of_init {call : Syscall} {uc : UserContext} {o : Outcomes} {kind : ObjectKind} {i : Nat}
    (h : Sound s) (hUse : s.tables.InUse kind i) (hCall : call.isInit = true)
    (hStep : s.step (.syscall call uc o) = .ok t) : s.tables.Same t.tables kind i := by
  simp only [step] at hStep
  split_ifs at hStep
  obtain ⟨u, hDispatch, hLeave⟩ := Transition.bind_eq_ok.mp hStep
  obtain rfl := Except.ok.inj hLeave
  rw [tables_leave]
  have hSaved := h.quiet (.saveUc s uc)
  have hSame : (s.saveUc uc).tables.Same u.tables kind i := same_init hSaved hUse hCall hDispatch
  exact hSame

theorem same_of_reclaim {uc : UserContext} {o : Outcomes} {kind : ObjectKind} {i : Nat} (h : Sound s)
    (hUse : s.tables.InUse kind i) (hStep : s.step (.syscall .reclaim uc o) = .ok t)
    (hOther : ¬Tables.Denotes (uc.regs 0) kind i ∨ (t.pcb s.runningProc).uc.regs 0 = errorCode) :
    s.tables.Same t.tables kind i := by
  simp only [step] at hStep
  split_ifs at hStep
  obtain ⟨u, hDispatch, hLeave⟩ := Transition.bind_eq_ok.mp hStep
  obtain rfl := Except.ok.inj hLeave
  obtain rfl := Except.ok.inj hDispatch
  have hSaved := h.quiet (.saveUc s uc)
  have hRunning : s.runningProc = ((s.saveUc uc).kernelReclaim o).runningProc :=
    (runningProc_kernelReclaim (s.saveUc uc) o).symm
  rw [leave_pcb, hRunning, ← reg_saveUc s uc 0] at hOther
  rw [tables_leave]
  have hSame : (s.saveUc uc).tables.Same ((s.saveUc uc).kernelReclaim o).tables kind i :=
    same_kernelReclaim hSaved hUse hOther
  exact hSame

end Steps

/-- The object tables over whole runs: the open index is the lowest free slot
and is what a creation returns; init calls and reclaims, with the growth and
the shrinking inside them, change no other slot in use; and the identifiers of
all objects differ. -/
theorem object_tables [Hardware] {s : Kernel} (run : system.Reachable s) :
    (s.locks.Wf Lock.inUse .blank ∧ s.cvars.Wf Cvar.inUse .blank ∧ s.pipes.Wf Pipe.inUse .blank) ∧
    ((∀ capacity growOk pidsOk id, (s.newLock capacity growOk pidsOk).2 = some id →
        IsLeast { i | (s.locks.entries i).inUse = false } id) ∧
      (∀ growOk id, (s.newCvar growOk).2 = some id → IsLeast { i | (s.cvars.entries i).inUse = false } id) ∧
      ∀ growOk bufOk id, (s.newPipe growOk bufOk).2 = some id →
        IsLeast { i | (s.pipes.entries i).inUse = false } id) ∧
    (∀ kind i, s.tables.InUse kind i →
      (∀ call uc o t, call.isInit = true → s.step (.syscall call uc o) = .ok t →
        s.tables.Same t.tables kind i) ∧
      ∀ uc o t, s.step (.syscall .reclaim uc o) = .ok t →
        ¬Tables.Denotes (uc.regs 0) kind i ∨ (t.pcb s.runningProc).uc.regs 0 = errorCode →
        s.tables.Same t.tables kind i) ∧
    (s.locks.size ≤ 2 ^ 30 ∧ s.cvars.size ≤ 2 ^ 30 ∧ s.pipes.size ≤ 2 ^ 30 →
      ∀ a b i j, s.tables.InUse a i → s.tables.InUse b j →
        (createId a.flag i = createId b.flag j ↔ a = b ∧ i = j) ∧ getId (createId a.flag i) = i) := by
  have h := sound_reachable run
  have hLocks : s.locks.Wf Lock.inUse .blank := h.settled.sync.locks
  have hCvars : s.cvars.Wf Cvar.inUse .blank := h.settled.sync.cvars
  refine ⟨⟨hLocks, hCvars, h.settled.pipes⟩, ⟨fun capacity growOk pidsOk id hId => ?_,
    fun growOk id hId => ?_, fun growOk bufOk id hId => ?_⟩, fun kind i hUse => ⟨?_, ?_⟩,
    fun hSizes a b i j hi hj => ?_⟩
  · rw [newLock_snd] at hId
    exact hLocks.isLeast_create rfl (Or.inl rfl) hId
  · exact hCvars.isLeast_create rfl (Or.inl rfl) hId
  · rw [newPipe_snd] at hId
    exact h.settled.pipes.isLeast_create rfl (Or.inr rfl) hId
  · exact fun call uc o t hCall hStep => same_of_init h hUse hCall hStep
  · exact fun uc o t hStep hOther => same_of_reclaim h hUse hStep hOther
  · have hiLt := lt_of_inUse h hi hSizes
    exact ⟨ObjectKind.createId_inj hiLt (lt_of_inUse h hj hSizes), ObjectKind.getId_createId a hiLt⟩

open Sample in
/-- The slot of a reclaimed semaphore is handed out again. -/
theorem object_tables_reused : ∃ s : Kernel, system.Reachable s ∧ s.tables.InUse .lock 1 ∧
    s.tables.InUse .pipe 0 ∧ createId lockFlag 1 ≠ createId pipeFlag 0 ∧
    (s.newLock 1 true true).2 = some 0 ∧ IsLeast { i | (s.locks.entries i).inUse = false } 0 := by
  obtain ⟨s, run, hLock, hPipe, hNew, hSizes⟩ := Transition.System.exists_reachable
    (P := fun s : Kernel => (s.locks.entries 1).inUse = true ∧ (s.pipes.entries 0).inUse = true ∧
      (s.newLock 1 true true).2 = some 0 ∧
      s.locks.size ≤ 2 ^ 30 ∧ s.cvars.size ≤ 2 ^ 30 ∧ s.pipes.size ≤ 2 ^ 30)
    (turn ++ [call .semInit [208, 2], call .lockInit [208], call .pipeInit [208],
      call .reclaim [createId semFlag 0]]) initial_booted (by decide +kernel)
  obtain ⟨-, ⟨hLeast, -⟩, -, hIds⟩ := object_tables run
  have hNe : createId lockFlag 1 ≠ createId pipeFlag 0 := by
    intro hSame
    cases ((hIds hSizes .lock .pipe 1 0 hLock hPipe).1.mp hSame).1
  exact ⟨s, run, hLock, hPipe, hNe, hNew, hLeast 1 true true 0 hNew⟩

end KernelStart
end Yalnix
