import Yalnix.Memory.CopyOutcome
import Yalnix.Process.Registers
import Yalnix.Process.Registry
import Yalnix.Process.UserHeap

/-! The whole of `Fork`, from the trap to the return: either nothing is left of the
child, or the child is complete. Which of the failures on the way are unwound is
told from the state before the call and the outcomes of its allocations. -/
namespace Yalnix

open Hardware UserMemory Transition

namespace Kernel

/-- The children array of a process. -/
def childArray (s : Kernel) (p : Proc) : List (Option Proc) :=
  (List.range (s.pcb p).relations.numChildren).map (s.pcb p).relations.children

variable [Hardware] {s t : Kernel} {uc : UserContext} {o : Outcomes}

/-- The fork failed, and nothing is left of it. -/
structure ForkRefused (s t : Kernel) : Prop where
  result : t.uc.regs 0 = errorCode
  queues : ∀ place, ∀ p ∈ t.contents place, p < s.numPcbs
  children : ∀ p, some p ∈ t.childArray s.runningProc → p < s.numPcbs
  inUse : t.mem.frames.inUse = s.mem.frames.inUse
  mappings : mappings (t.mem.ctx s.runningProc).region1Pt = mappings (s.mem.ctx s.runningProc).region1Pt
  kernelMappings : Yalnix.mappings t.mem.region0Pt = Yalnix.mappings s.mem.region0Pt

/-- The child, which is the control block the call created, is complete. -/
structure Forked (s t : Kernel) : Prop where
  result : t.uc.regs 0 = BitVec.ofNat 32 (t.pcb s.numPcbs).pid
  child : (t.pcb s.numPcbs).uc.regs 0 = 0
  listed : (t.childArray s.runningProc).count (some s.numPcbs) = 1
  queued : (t.contents (.queue (.sched .main))).count s.numPcbs = 1
  stack : ∀ i : Int, 0 ≤ i → i < kStackVpns → (t.mem.ksPt s.numPcbs i).valid = true

/-- The memory in which `KCCopy` runs, as far as the kernel heap is concerned: one
frame was taken for each page, and the heap moved its break for the array. -/
def cloneMemory (s : Kernel) (sp : Word) (o : Outcomes) : Memory :=
  heapMoves (s.mem.setFrames (s.mem.frames.take (copiedPages (s.mem.ctx s.runningProc) sp).length)) o.brk

/-- Every failure is unwound: the control block is allocated, and either the copy
of the address space is refused without a trace, or it fits and nothing fails
after it. -/
def ForkSafe (s : Kernel) (sp : Word) (o : Outcomes) : Prop :=
  (o.alloc 0 && o.alloc 1 && o.alloc 2 && o.alloc 3) = true ∧
    (CopyRefused (s.mem.ctx s.runningProc) s.mem.frames.freeCount sp ∨
      CopyFits (s.mem.ctx s.runningProc) s.mem.frames.freeCount sp ∧
      ((s.pcb s.runningProc).relations.numChildren = (s.pcb s.runningProc).relations.arrSize → o.alloc 4 = true) ∧
      (0 < kStackVpns → KernelMemory.RoomForStack (s.cloneMemory sp o)))

section Trap

variable {mem : Memory}

/-- The state in which the address space is copied. -/
def newChild (s : Kernel) (uc : UserContext) : Kernel :=
  ((s.saveUc uc).createNewPcb uc ⟨fun _ => true, [], .missing⟩).1

/-- The end of a fork whose copy was refused. -/
def forkUndone (s : Kernel) (uc : UserContext) (mem : Memory) : Kernel :=
  ((((s.newChild uc).setMem mem).ret errorCode).retirePcb s.numPcbs).freePcb s.numPcbs

/-- The copied child, before it is linked to its parent. -/
def copiedChild (s : Kernel) (uc : UserContext) (mem : Memory) : Kernel :=
  ((s.newChild uc).setMem mem).modifyPcb s.numPcbs fun p => { p with uc := uc }

theorem createNewPcb_ok (s : Kernel) (uc : UserContext)
    (hAlloc : (o.alloc 0 && o.alloc 1 && o.alloc 2 && o.alloc 3) = true) :
    (s.saveUc uc).createNewPcb uc o = (s.newChild uc, some s.numPcbs) := by
  unfold newChild createNewPcb
  rw [if_pos hAlloc, if_pos (by simp)]
  rfl

/-- A fork once the control block is there. -/
theorem kernelFork_saveUc (s : Kernel) (uc : UserContext)
    (hAlloc : (o.alloc 0 && o.alloc 1 && o.alloc 2 && o.alloc 3) = true) :
    (s.saveUc uc).kernelFork o = (ucCopy (s.newChild uc).mem uc.sp s.numPcbs).bind fun copied =>
      if copied.2 then .ok ((s.copiedChild uc copied.1).forkCommit s.numPcbs o)
      else .ok (s.forkUndone uc copied.1) := by
  have hUc : ((s.saveUc uc).pcb (s.saveUc uc).runningProc).uc = uc := by
    simp [saveUc, modifyPcb]
  unfold kernelFork
  dsimp only
  rw [hUc, createNewPcb_ok s uc hAlloc]
  dsimp only
  cases ucCopy (s.newChild uc).mem uc.sp s.numPcbs with
  | error stop => rfl
  | ok copied =>
      obtain ⟨mem, ok⟩ := copied
      cases ok <;> rfl

/-- Without the control block the kernel goes on with a null pointer. -/
theorem kernelFork_null (hAlloc : (o.alloc 0 && o.alloc 1 && o.alloc 2 && o.alloc 3) ≠ true) :
    (s.saveUc uc).kernelFork o = .error .nullPointer := by
  unfold kernelFork createNewPcb
  dsimp only
  rw [if_neg hAlloc]

theorem step_fork (hUser : s.inUser) :
    s.step (.syscall .fork uc o) = ((s.saveUc uc).kernelFork o).bind fun v => .ok v.leave := by
  unfold step
  dsimp only
  rw [if_pos hUser]
  rfl

theorem newChild_mem (s : Kernel) (uc : UserContext) : (s.newChild uc).mem = { s.mem with
    ksPt := Function.update s.mem.ksPt s.numPcbs fun _ => .blank
    ctx := Function.update s.mem.ctx s.numPcbs .blank } := by
  unfold newChild createNewPcb
  rw [if_pos (by simp)]
  rfl

theorem newChild_procs (s : Kernel) (uc : UserContext) :
    (s.newChild uc).runningProc = s.runningProc ∧ (s.newChild uc).idleProc = s.idleProc := by
  unfold newChild createNewPcb
  rw [if_pos (by simp)]
  exact ⟨rfl, rfl⟩

theorem newChild_ctx (uc : UserContext) {p : Proc} (hp : p ≠ s.numPcbs) :
    (s.newChild uc).mem.ctx p = s.mem.ctx p := by
  rw [newChild_mem]
  exact Function.update_of_ne hp _ _

theorem newChild_fresh (s : Kernel) (uc : UserContext) (i : Int) :
    (((s.newChild uc).mem.ctx s.numPcbs).region1Pt i).valid = false := by
  rw [newChild_mem]
  simp [MemCtx.blank, Pte.blank]

end Trap

section Places

variable {v : Kernel}

omit [Hardware] in
theorem contents_leave (s : Kernel) : s.leave.contents = s.contents := by
  unfold leave
  split <;> rfl

/-- The new process is on the ready queue, once, if it is there at all. -/
theorem places_fork (run : KernelStart.system.Reachable s) (hUser : s.inUser)
    (hFork : (s.saveUc uc).kernelFork o = .ok v) :
    (v.Live s.numPcbs → (v.leave.contents (.queue (.sched .main))).count s.numPcbs = 1) ∧
      (¬v.Live s.numPcbs → ∀ place, ∀ p ∈ v.leave.contents place, p < s.numPcbs) := by
  have hSound := KernelStart.sound_reachable run
  obtain ⟨kc, -, hCpu⟩ := cpu_kernelFork hFork
  have hSize : v.numPcbs = s.numPcbs + 1 := congrArg Cpu.numPcbs hCpu
  have hRunning : v.runningProc = s.runningProc := congrArg Cpu.runningProc hCpu
  have hSaved := hSound.settled.quiet (Quiet.saveUc s uc)
  have hContexts : Contexts (s.saveUc uc).cpu := by
    rw [cpu_of_outside (Quiet.saveUc s uc).outside]
    exact hSound.contexts
  obtain ⟨lists, hSettled, hCalm⟩ := hSaved.kernelFork hContexts hFork
  rw [contents_leave, hSettled.contents_eq]
  have hPlacement := hSettled.placement
  constructor
  · intro hLive
    obtain ⟨a, ha⟩ := (hPlacement.live s.numPcbs).mpr hLive
    have hNew : ∀ b, s.numPcbs ∉ s.contents b := fun b hb =>
      Nat.lt_irrefl _ (hSound.settled.placement.live_of_mem hb).2.1
    have hMain : a = .queue (.sched .main) := by
      by_contra hOther
      cases hBlocked : a.isBlocked with
      | true => exact hNew a (hCalm a hBlocked ▸ ha)
      | false =>
          cases a with
          | cpu =>
              rw [hSettled.cpu] at ha
              unfold onCpu at ha
              split_ifs at ha
              · cases ha
              · rw [List.mem_singleton, hRunning] at ha
                exact Nat.lt_irrefl _ (ha ▸ (hSound.settled.live_running hUser).2.1)
          | hand =>
              rw [hSettled.hand] at ha
              cases ha
          | sleeping | transmitting tty => cases hBlocked
          | queue q =>
              cases q with
              | sched type =>
                  cases type with
                  | main => exact hOther rfl
                  | _ => cases hBlocked
              | _ => cases hBlocked
    exact List.count_eq_one_of_mem (hPlacement.placed.nodup _) (hMain ▸ ha)
  · intro hDead place p hp
    have hLive := hPlacement.live_of_mem hp
    have hLt : p < s.numPcbs + 1 := hSize ▸ hLive.2.1
    exact Nat.lt_of_le_of_ne (Nat.le_of_lt_succ hLt) fun hSame => hDead (hSame ▸ hLive)

end Places

section Family

variable {mem : Memory} {kids : Proc → List Proc}

theorem kin_newChild (s : Kernel) (uc : UserContext) : ∃ code, (s.newChild uc).kin = { s.kin with
    relations := Function.update s.kin.relations s.numPcbs ⟨true, fun _ => none, 0, childArrSize⟩
    exitCode := Function.update s.kin.exitCode s.numPcbs code
    freed := Function.update s.kin.freed s.numPcbs false } := by
  obtain ⟨code, hKin⟩ := kin_createNewPcb (createNewPcb_ok s uc (o := ⟨fun _ => true, [], .missing⟩) rfl)
  exact ⟨code, hKin.trans (by rw [(Silent.saveUc s uc).kin]; rfl)⟩

theorem forkUndone_eq (s : Kernel) (uc : UserContext) (mem : Memory) :
    s.forkUndone uc mem = (((s.newChild uc).setMem mem).ret errorCode).freePcb s.numPcbs := by
  obtain ⟨code, hKin⟩ := kin_newChild s uc
  have hRet := (Silent.setMem (s.newChild uc) mem).trans (Silent.ret _ errorCode)
  have hNew : ((((s.newChild uc).setMem mem).ret errorCode).pcb s.numPcbs).relations =
      ⟨true, fun _ => none, 0, childArrSize⟩ :=
    (congrFun (congrArg Kin.relations (hRet.kin.trans hKin)) s.numPcbs).trans (Function.update_self _ _ _)
  unfold forkUndone
  rw [retirePcb_eq (by rw [hNew]) (by rw [hNew])]

/-- A fork that is undone leaves the array of the parent as it was. -/
theorem childArray_forkUndone (hLive : s.Live s.runningProc) (uc : UserContext) (mem : Memory) :
    (s.forkUndone uc mem).childArray s.runningProc = s.childArray s.runningProc := by
  obtain ⟨code, hKin⟩ := kin_newChild s uc
  have hRet := (Silent.setMem (s.newChild uc) mem).trans (Silent.ret _ errorCode)
  have hOwn : (s.forkUndone uc mem).kin.relations s.runningProc = s.kin.relations s.runningProc := by
    rw [forkUndone_eq, kin_freePcb, hRet.kin, hKin]
    exact Function.update_of_ne hLive.2.1.ne _ _
  exact congrArg (fun r : Relations => (List.range r.numChildren).map r.children) hOwn

/-- What a fork that is carried out does to the family tree. -/
theorem kin_forkCommit_copied (hLive : s.Live s.runningProc) (uc : UserContext) (mem : Memory) (o : Outcomes) : ∃ relations,
    ((s.pcb s.runningProc).relations.addChild s.numPcbs (o.alloc 4) = some relations ∨
      (s.pcb s.runningProc).relations.addChild s.numPcbs (o.alloc 4) = none ∧
        relations = (s.pcb s.runningProc).relations) ∧
    ((s.copiedChild uc mem).forkCommit s.numPcbs o).kin.relations s.runningProc = relations ∧
    ((s.copiedChild uc mem).forkCommit s.numPcbs o).kin.freed s.numPcbs = false := by
  obtain ⟨code, hKin⟩ := kin_newChild s uc
  have hCopied : (s.copiedChild uc mem).kin = (s.newChild uc).kin := kin_modifyPcb rfl rfl rfl
  have hRunning : (s.copiedChild uc mem).runningProc = s.runningProc := (newChild_procs s uc).1
  have hOwn : ((s.copiedChild uc mem).pcb s.runningProc).relations = (s.pcb s.runningProc).relations :=
    (congrFun (congrArg Kin.relations (hCopied.trans hKin)) s.runningProc).trans
      (Function.update_of_ne hLive.2.1.ne _ _)
  obtain ⟨relations, hAdd, hLink⟩ := kin_forkLink (s.copiedChild uc mem) s.numPcbs o
  rw [hRunning, hOwn] at hAdd
  refine ⟨relations, hAdd, ?_, ?_⟩
  · rw [kin_forkCommit, hLink, hRunning]
    exact Function.update_self _ _ _
  · rw [kin_forkCommit, hLink, hCopied, hKin]
    exact Function.update_self _ _ _

/-- A fork that is carried out appends the child, unless the array is full and
cannot grow. -/
theorem childArray_forkCommit (hFamily : Family s kids) (hLive : s.Live s.runningProc) (uc : UserContext) (mem : Memory)
    (o : Outcomes) :
    (((s.copiedChild uc mem).forkCommit s.numPcbs o).childArray s.runningProc).count (some s.numPcbs) = 1 ↔
      ((s.pcb s.runningProc).relations.numChildren = (s.pcb s.runningProc).relations.arrSize → o.alloc 4 = true) := by
  obtain ⟨relations, hAdd, hOwn, -⟩ := kin_forkCommit_copied hLive uc mem o
  have hHolds : (s.pcb s.runningProc).relations.Holds (kids s.runningProc) := hFamily.holds _ hLive
  have hNew : s.numPcbs ∉ kids s.runningProc := fun hMem => Nat.lt_irrefl _ (hFamily.child _ _ hMem).1.lt
  have hArray : ((s.copiedChild uc mem).forkCommit s.numPcbs o).childArray s.runningProc =
      (List.range relations.numChildren).map relations.children :=
    congrArg (fun r : Relations => (List.range r.numChildren).map r.children) hOwn
  have hCount (l : List Proc) : (l.map some).count (some s.numPcbs) = l.count s.numPcbs :=
    List.count_map_of_injective l some (Option.some_injective _) _
  rw [hArray]
  rcases hAdd with hAdd | ⟨hAdd, rfl⟩
  · rw [(hHolds.addChild hAdd).1.slots, hCount, List.count_append, List.count_eq_zero_of_not_mem hNew]
    refine iff_of_true (by simp) fun hFull => ?_
    by_contra hNone
    unfold Relations.addChild at hAdd
    rw [if_pos hFull, if_neg hNone] at hAdd
    cases hAdd
  · rw [hHolds.slots, hCount, List.count_eq_zero_of_not_mem hNew]
    refine iff_of_false (by simp) fun hGrow => ?_
    unfold Relations.addChild at hAdd
    split_ifs at hAdd with hFull hOk
    exact hOk (hGrow hFull)

omit [Hardware] in
/-- The children of a process were there before. -/
theorem childArray_lt (hFamily : Family s kids) (hLive : s.Live s.runningProc) {p : Proc}
    (hp : some p ∈ s.childArray s.runningProc) : p < s.numPcbs := by
  have hSlots : s.childArray s.runningProc = (kids s.runningProc).map some := (hFamily.holds _ hLive).slots
  rw [hSlots, List.mem_map] at hp
  obtain ⟨child, hChild, hSame⟩ := hp
  obtain rfl := Option.some.inj hSame
  exact (hFamily.child _ _ hChild).1.lt

end Family

section Outcome

variable {mem : Memory}

omit [Hardware] in
theorem leave_uc (hMode : s.mode = .user) : s.leave.uc = (s.pcb s.runningProc).uc := by
  unfold leave
  rw [hMode]

/-- A fork that is undone. -/
theorem forkUndone_facts (hUser : s.inUser) (hLive : s.Live s.runningProc) (uc : UserContext) (mem : Memory) :
    (s.forkUndone uc mem).leave.mem = mem ∧ (s.forkUndone uc mem).leave.uc.regs 0 = errorCode ∧
      ((s.forkUndone uc mem).pcb s.numPcbs).freed = true := by
  have hRunning := (newChild_procs s uc).1
  have hOther : s.numPcbs ≠ s.runningProc := hLive.2.1.ne'
  have hMode : (s.newChild uc).mode = .user := by
    unfold newChild createNewPcb
    rw [if_pos (by simp)]
    exact hUser.1
  rw [forkUndone_eq, leave_mem, leave_uc (by exact hMode)]
  refine ⟨rfl, ?_, by simp [freePcb, modifyPcb, emit]⟩
  simp [freePcb, modifyPcb, emit, ret, setResult, setMem, hRunning, Function.update_of_ne hOther.symm]

/-- An undone fork keeps the promise exactly when the copy gave everything back. -/
theorem forkUndone_refused_iff (run : KernelStart.system.Reachable s) (hUser : s.inUser)
    (hFork : (s.saveUc uc).kernelFork o = .ok (s.forkUndone uc mem))
    (hCopy : ucCopy (s.newChild uc).mem uc.sp s.numPcbs = .ok (mem, false)) :
    (ForkRefused s (s.forkUndone uc mem).leave ↔ GivenBack (s.newChild uc).mem mem) ∧
      ¬Forked s (s.forkUndone uc mem).leave := by
  have hLive := (KernelStart.sound_reachable run).settled.live_running hUser
  obtain ⟨hMem, hResult, hFreed⟩ := forkUndone_facts hUser hLive uc mem
  obtain ⟨kids, hFamily, -⟩ := KernelStart.lineage_reachable run
  have hGone : ¬(s.forkUndone uc mem).Live s.numPcbs := fun hOne => by
    rw [hOne.2.2.1] at hFreed
    cases hFreed
  have hPlaces := (places_fork run hUser hFork).2 hGone
  have hActive : s.mem.active = s.runningProc := (KernelStart.served_reachable run).current.active
  have hOther : s.runningProc ≠ s.numPcbs := hLive.2.1.ne
  have hNewMem := newChild_mem s uc
  have hFrames : (s.newChild uc).mem.frames = s.mem.frames := by rw [hNewMem]
  have hNewActive : (s.newChild uc).mem.active = s.runningProc := by rw [hNewMem]; exact hActive
  have hParent : (s.newChild uc).mem.region1Pt = (s.mem.ctx s.runningProc).region1Pt := by
    unfold Memory.region1Pt
    rw [hNewActive, newChild_ctx uc hOther]
  constructor
  · constructor
    · intro h
      refine ⟨?_, ?_⟩
      · rw [hFrames, ← h.inUse, hMem]
      · rw [hNewActive, hParent, ← h.mappings, hMem]
    · intro h
      refine ⟨hResult, hPlaces, fun p hp => ?_, ?_, ?_, ?_⟩
      · have hArray : (s.forkUndone uc mem).leave.childArray s.runningProc = s.childArray s.runningProc := by
          rw [← childArray_forkUndone hLive uc mem]
          unfold childArray
          rw [leave_pcb]
        rw [hArray] at hp
        exact childArray_lt hFamily hLive hp
      · rw [hMem, h.inUse, hFrames]
      · rw [hMem, ← hParent, ← h.mappings, hNewActive]
      · have hSide := congrArg KernelSide.region0Pt (kernelSide_ucCopy hCopy)
        have hTable : mem.region0Pt = s.mem.region0Pt := hSide.trans (by rw [hNewMem]; rfl)
        rw [hMem, hTable]
  · intro h
    have hIn : s.numPcbs ∈ (s.forkUndone uc mem).leave.contents (.queue (.sched .main)) := by
      rw [← List.count_pos_iff, h.queued]
      exact Nat.one_pos
    exact Nat.lt_irrefl _ (hPlaces _ _ hIn)

theorem pid_newChild (s : Kernel) (uc : UserContext) : ((s.newChild uc).pcb s.numPcbs).pid = newPid s.numPcbs := by
  obtain ⟨-, mem, pcb, hCreated, hPid, -⟩ :=
    createNewPcb_eq (createNewPcb_ok s uc (o := ⟨fun _ => true, [], .missing⟩) rfl)
  rw [hCreated]
  exact (congrArg Pcb.pid (Function.update_self _ _ _)).trans hPid

/-- A fork that is carried out. -/
theorem forkCommit_facts (hUser : s.inUser) (hLive : s.Live s.runningProc) (uc : UserContext) (mem : Memory)
    (hFork : (s.saveUc uc).kernelFork o = .ok ((s.copiedChild uc mem).forkCommit s.numPcbs o)) :
    ((s.copiedChild uc mem).forkCommit s.numPcbs o).leave.mem = (KernelMemory.kcCopy (heapMoves mem o.brk) s.numPcbs).1 ∧
      ((s.copiedChild uc mem).forkCommit s.numPcbs o).leave.uc.regs 0 = BitVec.ofNat 32 (newPid s.numPcbs) ∧
      (((s.copiedChild uc mem).forkCommit s.numPcbs o).leave.pcb s.numPcbs).uc.regs 0 = 0 := by
  have hOther : s.numPcbs ≠ s.runningProc := hLive.2.1.ne'
  have hRunning : (s.copiedChild uc mem).runningProc = s.runningProc := (newChild_procs s uc).1
  have hPid : ((s.copiedChild uc mem).pcb s.numPcbs).pid = newPid s.numPcbs :=
    (pcb_modifyPcb (v := Pcb.pid) rfl s.numPcbs).trans (pid_newChild s uc)
  obtain ⟨kc, -, hCpu⟩ := cpu_kernelFork hFork
  have hMode : ((s.copiedChild uc mem).forkCommit s.numPcbs o).mode = .user := (congrArg Cpu.mode hCpu).trans hUser.1
  have hLast : ((s.copiedChild uc mem).forkCommit s.numPcbs o).runningProc = s.runningProc :=
    congrArg Cpu.runningProc hCpu
  refine ⟨?_, ?_, ?_⟩
  · rw [leave_mem]
    exact congrArg Space.mem (space_forkCommit _ _ _)
  · rw [leave_uc hMode, hLast, uc_forkCommit_eq, hPid]
    simp [setResult, ret, modifyPcb, hRunning, Function.update_of_ne hOther.symm]
  · rw [leave_pcb, (uc_forkCommit (by rwa [hRunning])).1]
    simp

/-- The moves of the kernel heap in a fork read and write nothing but the kernel's
own table. -/
theorem heapMoves_spec {m n : Memory} (hSame : KernelMemory.heapView n = KernelMemory.heapView m)
    (h : KernelMemory.Movable n) (brk : List Word) :
    KernelMemory.heapView (heapMoves n brk) = KernelMemory.heapView (heapMoves m brk) ∧
      KernelMemory.Movable (heapMoves n brk) ∧ (heapMoves n brk).ksPt = n.ksPt := by
  induction brk generalizing m n with
  | nil => exact ⟨hSame, h, rfl⟩
  | cons addr brk ih =>
      obtain ⟨hView, hMovable, hStacks⟩ := ih (KernelMemory.heapView_setKernelBrk hSame addr).1 (h.setKernelBrk addr)
      refine ⟨hView, hMovable, hStacks.trans ?_⟩
      obtain ⟨frames, table, page, hEq⟩ := KernelMemory.setKernelBrk_eq n addr
      rw [hEq]

/-- The memory in which the kernel stack is cloned. -/
theorem heapMoves_copied (run : KernelStart.system.Reachable s) {sp : Word}
    (hCopy : ucCopy (s.newChild uc).mem sp s.numPcbs = .ok (mem, true))
    (hTaken : mem.frames = s.mem.frames.take (copiedPages (s.mem.ctx s.runningProc) sp).length) :
    KernelMemory.Movable (heapMoves mem o.brk) ∧ (heapMoves mem o.brk).ksPt s.numPcbs = (fun _ => .blank) ∧
      (KernelMemory.RoomForStack (heapMoves mem o.brk) ↔ KernelMemory.RoomForStack (s.cloneMemory sp o)) := by
  have hGuarded := KernelStart.guarded_reachable run
  have hServed := KernelStart.served_reachable run
  have hSide := kernelSide_ucCopy hCopy
  rw [newChild_mem] at hSide
  have hTable : mem.region0Pt = s.mem.region0Pt := congrArg KernelSide.region0Pt hSide
  have hBrk : mem.currentBrkPage = s.mem.currentBrkPage := congrArg KernelSide.currentBrkPage hSide
  have hEnabled : mem.vmEnabled = s.mem.vmEnabled := congrArg KernelSide.vmEnabled hSide
  have hStacks : mem.ksPt s.numPcbs = fun _ => .blank :=
    (congrFun (congrArg KernelSide.ksPt hSide) s.numPcbs).trans (Function.update_self _ _ _)
  have hView : KernelMemory.heapView mem = KernelMemory.heapView
      (s.mem.setFrames (s.mem.frames.take (copiedPages (s.mem.ctx s.runningProc) sp).length)) := by
    unfold KernelMemory.heapView Memory.kernelMapping
    rw [hTable, hBrk, hEnabled, hTaken]
    rfl
  have hMovable : KernelMemory.Movable mem := by
    refine ⟨hEnabled.trans hGuarded.enabled, ?_, hServed.bounds.of_brk hBrk⟩
    rw [hTaken]
    exact (KernelStart.wf_reachable run).take _
  obtain ⟨hLast, hMoved, hSame⟩ := heapMoves_spec hView hMovable o.brk
  exact ⟨hMoved, (congrFun hSame s.numPcbs).trans hStacks, KernelMemory.roomForStack_congr hLast⟩

/-- The child of a fork that is carried out lives. -/
theorem live_forkCommit (hLive : s.Live s.runningProc) (hIdle : s.numPcbs ≠ s.idleProc)
    (hFork : (s.saveUc uc).kernelFork o = .ok ((s.copiedChild uc mem).forkCommit s.numPcbs o)) :
    ((s.copiedChild uc mem).forkCommit s.numPcbs o).Live s.numPcbs := by
  obtain ⟨-, -, -, hFreed⟩ := kin_forkCommit_copied hLive uc mem o
  obtain ⟨kc, -, hCpu⟩ := cpu_kernelFork hFork
  have hSame : ((s.copiedChild uc mem).forkCommit s.numPcbs o).idleProc = s.idleProc := congrArg Cpu.idleProc hCpu
  have hSize : ((s.copiedChild uc mem).forkCommit s.numPcbs o).numPcbs = s.numPcbs + 1 :=
    congrArg Cpu.numPcbs hCpu
  have hOther : s.numPcbs ≠ (s.copiedChild uc mem).idleProc := by
    rw [show (s.copiedChild uc mem).idleProc = s.idleProc from (newChild_procs s uc).2]
    exact hIdle
  refine ⟨hSame ▸ hIdle, hSize ▸ Nat.lt_succ_self _, hFreed, ?_⟩
  rw [state_forkCommit o hOther]
  decide

/-- A fork that is carried out keeps the promise exactly when the array had room or
could grow and the kernel stack was cloned. -/
theorem forkCommit_forked_iff (run : KernelStart.system.Reachable s) (hUser : s.inUser)
    (hFork : (s.saveUc uc).kernelFork o = .ok ((s.copiedChild uc mem).forkCommit s.numPcbs o))
    (hCopy : ucCopy (s.newChild uc).mem uc.sp s.numPcbs = .ok (mem, true))
    (hTaken : mem.frames = s.mem.frames.take (copiedPages (s.mem.ctx s.runningProc) uc.sp).length) :
    (Forked s ((s.copiedChild uc mem).forkCommit s.numPcbs o).leave ↔
      ((s.pcb s.runningProc).relations.numChildren = (s.pcb s.runningProc).relations.arrSize → o.alloc 4 = true) ∧
      (0 < kStackVpns → KernelMemory.RoomForStack (s.cloneMemory uc.sp o))) ∧
      ¬ForkRefused s ((s.copiedChild uc mem).forkCommit s.numPcbs o).leave := by
  have hSound := KernelStart.sound_reachable run
  have hLive := hSound.settled.live_running hUser
  obtain ⟨kids, hFamily, -⟩ := KernelStart.lineage_reachable run
  obtain ⟨hMem, hResult, hZero⟩ := forkCommit_facts hUser hLive uc mem hFork
  obtain ⟨-, -, -, hFreed⟩ := kin_forkCommit_copied hLive uc mem o
  obtain ⟨hMovable, hBlank, hRoom⟩ := heapMoves_copied (o := o) run hCopy hTaken
  have hArray := childArray_forkCommit hFamily hLive uc mem o
  have hIdle : s.numPcbs ≠ s.idleProc := hSound.contexts.idle_lt.ne'
  obtain ⟨kc, -, hCpu⟩ := cpu_kernelFork hFork
  have hChild := live_forkCommit hLive hIdle hFork
  have hQueued := (places_fork run hUser hFork).1 hChild
  have hStep : s.step (.syscall .fork uc o) = .ok ((s.copiedChild uc mem).forkCommit s.numPcbs o).leave := by
    rw [step_fork hUser, hFork]
    rfl
  have hEnd := KernelStart.sound_reachable (KernelStart.reachable_step run hStep)
  have hPid : (((s.copiedChild uc mem).forkCommit s.numPcbs o).leave.pcb s.numPcbs).pid = newPid s.numPcbs := by
    refine (hEnd.settled.sync.pid s.numPcbs ?_).2.2
    exact ((Quiet.leave _).live_iff _).mpr hChild
  obtain ⟨hValid, hNone⟩ := KernelMemory.kcCopy_entries hMovable s.numPcbs
  have hStack : (∀ i : Int, 0 ≤ i → i < kStackVpns →
      ((KernelMemory.kcCopy (heapMoves mem o.brk) s.numPcbs).1.ksPt s.numPcbs i).valid = true) ↔
      (0 < kStackVpns → KernelMemory.RoomForStack (s.cloneMemory uc.sp o)) := by
    by_cases hSome : 0 < kStackVpns
    · rw [← hRoom, ← KernelMemory.kcCopy_ok_iff hMovable hSome s.numPcbs]
      constructor
      · intro hAll _
        by_contra hFail
        have hFirst := hAll 0 le_rfl (by omega)
        rw [hNone (by simpa using hFail), hBlank] at hFirst
        cases hFirst
      · exact fun hOk => hValid (hOk hSome)
    · exact iff_of_true (fun i hLow hHigh => absurd hSome (by omega)) fun hPos => absurd hPos hSome
  have hListed : ((s.copiedChild uc mem).forkCommit s.numPcbs o).leave.childArray s.runningProc =
      ((s.copiedChild uc mem).forkCommit s.numPcbs o).childArray s.runningProc := by
    unfold childArray
    rw [leave_pcb]
  rw [← hArray, ← hStack, ← hMem, ← hListed]
  constructor
  · constructor
    · exact fun h => ⟨h.listed, h.stack⟩
    · rintro ⟨hOnce, hAll⟩
      exact ⟨by rw [hResult, hPid], hZero, hOnce, hQueued, hAll⟩
  · intro h
    have hIn : s.numPcbs ∈ ((s.copiedChild uc mem).forkCommit s.numPcbs o).leave.contents (.queue (.sched .main)) := by
      rw [← List.count_pos_iff, hQueued]
      exact Nat.one_pos
    exact Nat.lt_irrefl _ (h.queues _ _ hIn)

end Outcome

end Kernel

namespace KernelStart

open Kernel

section AllOrNothing

variable [Hardware] {s : Kernel} {uc : UserContext} {o : Outcomes}

/-- What `UCCopy` is told in a fork: the context of the caller, and an empty child. -/
structure CopyReady (s : Kernel) (m : Memory) : Prop where
  frames : m.frames = s.mem.frames
  ctx : m.ctx m.active = s.mem.ctx s.runningProc
  wf : m.frames.Wf
  child : s.numPcbs ≠ m.active
  data : (m.ctx m.active).dataStartPage ≤ (m.ctx m.active).currBrkPage
  fresh : ∀ i, ((m.ctx s.numPcbs).region1Pt i).valid = false

theorem copyReady_newChild (run : system.Reachable s) (hUser : s.inUser) (uc : UserContext) :
    CopyReady s (s.newChild uc).mem := by
  have hLive := (sound_reachable run).settled.live_running hUser
  have hOther : s.runningProc ≠ s.numPcbs := hLive.2.1.ne
  have hFrames : (s.newChild uc).mem.frames = s.mem.frames := by rw [newChild_mem]
  have hActive : (s.newChild uc).mem.active = s.runningProc := by
    rw [newChild_mem]
    exact (served_reachable run).current.active
  have hCtx : (s.newChild uc).mem.ctx (s.newChild uc).mem.active = s.mem.ctx s.runningProc := by
    rw [hActive, newChild_ctx uc hOther]
  have hReady : (s.mem.ctx s.runningProc).Ready := (ready_reachable run).running hLive hUser.1
  have hWf : (s.newChild uc).mem.frames.Wf := by
    rw [hFrames]
    exact wf_reachable run
  refine ⟨hFrames, hCtx, hWf, hActive ▸ hOther.symm, ?_, newChild_fresh s uc⟩
  rw [hCtx]
  exact hReady.data.trans hReady.order

/-- What the copy in a fork can do, told from the state before the fork. -/
theorem copy_newChild (run : system.Reachable s) (hUser : s.inUser) (uc : UserContext) :
    ((∃ mem, ucCopy (s.newChild uc).mem uc.sp s.numPcbs = .ok (mem, false) ∧ GivenBack (s.newChild uc).mem mem) ↔
      CopyRefused (s.mem.ctx s.runningProc) s.mem.frames.freeCount uc.sp) ∧
    (CopyFits (s.mem.ctx s.runningProc) s.mem.frames.freeCount uc.sp →
      ∃ mem, ucCopy (s.newChild uc).mem uc.sp s.numPcbs = .ok (mem, true)) ∧
    ∀ mem, ucCopy (s.newChild uc).mem uc.sp s.numPcbs = .ok (mem, true) →
      CopyFits (s.mem.ctx s.runningProc) s.mem.frames.freeCount uc.sp ∧
        mem.frames = s.mem.frames.take (copiedPages (s.mem.ctx s.runningProc) uc.sp).length := by
  have hReady := copyReady_newChild run hUser uc
  rw [← hReady.ctx, ← hReady.frames]
  exact ⟨ucCopy_refused_iff hReady.wf hReady.child hReady.fresh hReady.data,
    fun h => h.copied hReady.wf hReady.child hReady.data,
    fun mem hCopy => ucCopy_copied hReady.wf hReady.child hReady.fresh hReady.data hCopy⟩

/-- A trap that returns returns one state. -/
theorem fork_returns_iff {v : Kernel} {P : Kernel → Prop} (hUser : s.inUser)
    (hFork : (s.saveUc uc).kernelFork o = .ok v) :
    (∃ t, s.step (.syscall .fork uc o) = .ok t ∧ P t) ↔ P v.leave := by
  rw [step_fork hUser, hFork]
  constructor
  · rintro ⟨t, hStep, hP⟩
    rwa [Except.ok.inj hStep]
  · exact fun hP => ⟨v.leave, rfl, hP⟩

end AllOrNothing

section

open Sample

/-- The first program with three children and a kernel heap of one page. -/
def lastFrames : List Label := turn ++ .heap 48 :: List.replicate 3 (call .fork [])

end

end KernelStart
end Yalnix
