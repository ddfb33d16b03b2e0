import Yalnix.Library.TwoRuns
import Yalnix.Memory.Contents
import Yalnix.Process.UserPointers
import Yalnix.Sample

/-! What a process finds in the frames it is given. Two runs of one process, from
states that differ in the contents of free frames only, show it the same bytes
wherever the process or the loader has written since the page was mapped. -/
namespace Yalnix

open Hardware Transition

namespace Memory

variable [Hardware]

/-- What a process finds at an address of its own region 1. -/
def readBy (m : Memory) (proc : Proc) (addr : Int) : Except Stop Byte := { m with active := proc }.loadByte addr

/-- The frames of the valid region 1 pages and of the kernel stack of a process. -/
def ownedBy (m : Memory) (proc : Proc) : Set Nat :=
  heldFrames (m.ctx proc).region1Pt 0 region1Vpns ∪ heldFrames (m.ksPt proc) 0 kStackVpns

theorem readBy_active {m : Memory} {proc : Proc} (h : m.active = proc) (addr : Int) :
    m.readBy proc addr = m.loadByte addr := by
  subst h
  rfl

end Memory

/-- What a process asks for: a break, a larger stack or a program with these arguments.
In between it writes to its own memory. -/
inductive Request where
  | brk (uc : UserContext) (o : Outcomes)
  | grow (uc : UserContext)
  | exec (uc : UserContext) (o : Outcomes) (args : List (List Byte))
  | store (addr : Int) (byte : Byte)

/-- The event that makes the request. -/
def Request.label : Request → Label
  | .brk uc o => .syscall .brk uc o
  | .grow uc => .memory uc
  | .exec uc o _ => .syscall .exec uc o
  | .store addr byte => .userStore addr byte

namespace Kernel

/-- The same state with other contents of frames. -/
def setPmem (s : Kernel) (pmem : Nat → Nat → Byte) : Kernel := s.setMem (s.mem.setPmem pmem)

/-- The process runs, and its page table is the one in use. -/
def InControl (s : Kernel) (proc : Proc) : Prop := s.runningProc = proc ∧ s.mem.active = proc

variable [Hardware]

/-- The states agree in everything but the contents of free frames, and in the
contents of all frames the process owns. -/
structure SameFor (proc : Proc) (s s' : Kernel) : Prop where
  eq : s' = s.setPmem s'.mem.pmem
  rest : ∀ pfn, pfn ∉ s.mem.frames.range \ s.mem.frames.inUse → s'.mem.pmem pfn = s.mem.pmem pfn
  owned : ∀ pfn ∈ s.mem.ownedBy proc, s'.mem.pmem pfn = s.mem.pmem pfn

/-- The request succeeds. The arguments are what the pointers of an `Exec` denote. -/
def Grants (s : Kernel) : Request → Prop
  | .brk uc _ => (UserMemory.kernelBrkImpl s.mem (uc.regs 0) uc.sp).2 = successCode
  | .grow uc => (UserMemory.expandStack s.mem uc.addr).2 = true
  | .exec uc o args => (s.saveUc uc).execArgs = .ok (some args) ∧
      ∃ loaded, LoadProgram.loadProgram s.mem uc o.file args (o.alloc 0) = .ok loaded ∧ loaded.result = .success
  | .store _ _ => True

/-- The addresses at which nobody has written since their page was mapped, after a
request. Pages that a `Brk` maps lie from the old break on. -/
def unwritten (s : Kernel) (request : Request) (before : Set Int) : Set Int :=
  match request with
  | .brk uc _ => before ∪ {x | (s.mem.ctx s.mem.active).currBrkPage ≤ x / pageSize ∧
      x / pageSize < pageNumber (upToPage (uc.regs 0))}
  | .grow _ => before ∪ {x | ¬s.mem.Mapped x}
  | .exec _ o args =>
      match o.file with
      | .image li _ _ => (LoadProgram.Written li (LoadProgram.layout li args))ᶜ
      | _ => before
  | .store addr _ => before \ {addr}

/-- The states agree in everything but contents, and in what lies at the readable
addresses outside of `fresh`. -/
structure Alike (fresh : Set Int) (s s' : Kernel) : Prop where
  eq : s' = s.setMem s'.mem
  mem : Memory.Alike {x | s.mem.hasPerms x false = true ∧ x ∉ fresh} s.mem s'.mem

section Step

variable {proc : Proc} {s s' t t' : Kernel} {fresh : Set Int} {uc : UserContext} {o : Outcomes}

omit [Hardware] in
theorem leave_setPmem (s : Kernel) (pmem : Nat → Nat → Byte) : (s.setPmem pmem).leave = s.leave.setPmem pmem := by
  have hMode : (s.setPmem pmem).mode = s.mode := rfl
  unfold leave
  rw [hMode]
  split <;> rfl

theorem kernelBrk_setPmem (s : Kernel) (pmem : Nat → Nat → Byte) :
    (s.setPmem pmem).kernelBrk = s.kernelBrk.setPmem pmem := by
  have hImpl := UserMemory.kernelBrkImpl_setPmem s.mem pmem (s.reg 0) (s.pcb s.runningProc).uc.sp
  show ((s.setPmem pmem).setMem (UserMemory.kernelBrkImpl (s.mem.setPmem pmem) (s.reg 0)
    (s.pcb s.runningProc).uc.sp).1).ret (UserMemory.kernelBrkImpl (s.mem.setPmem pmem) (s.reg 0)
      (s.pcb s.runningProc).uc.sp).2 = _
  rw [hImpl]
  rfl

theorem Alike.setPmem (h : Alike fresh s s') : s' = s.setPmem s'.mem.pmem := by
  rw [Kernel.setPmem, ← h.mem.eq, ← h.eq]

/-- The two states differ in the contents only, so memory is all there is to compare. -/
theorem Alike.of_mem (pmem : Nat → Nat → Byte) (hEq : t' = t.setPmem pmem)
    (hMem : Memory.Alike {x | t.mem.hasPerms x false = true ∧ x ∉ fresh} t.mem (t.mem.setPmem pmem)) :
    Alike fresh t t' := by
  subst hEq
  exact ⟨rfl, hMem⟩

theorem inUser_of_syscall {call : Syscall} (hStep : s.step (.syscall call uc o) = .ok t) : s.inUser := by
  by_contra hNot
  rw [step, if_neg hNot] at hStep
  cases hStep

theorem alike_brk (hControl : s.InControl proc) (h : Alike fresh s s') (hGrants : s.Grants (.brk uc o))
    (hStep : s.step (.syscall .brk uc o) = .ok t) (hStep' : s'.step (.syscall .brk uc o) = .ok t') :
    t.InControl proc ∧ Alike (s.unwritten (.brk uc o) fresh) t t' := by
  rw [step_syscall (inUser_of_syscall hStep)] at hStep
  rw [step_syscall (inUser_of_syscall hStep')] at hStep'
  obtain rfl := Except.ok.inj hStep
  obtain rfl := Except.ok.inj hStep'
  have hSave : s'.saveUc uc = (s.saveUc uc).setPmem s'.mem.pmem := by
    conv_lhs => rw [h.setPmem]
    rfl
  have hReg : (s.saveUc uc).reg 0 = uc.regs 0 ∧ ((s.saveUc uc).pcb (s.saveUc uc).runningProc).uc.sp = uc.sp := by
    simp [reg, saveUc, modifyPcb]
  have hMem : ((s.saveUc uc).kernelBrk).leave.mem = (UserMemory.kernelBrkImpl s.mem (uc.regs 0) uc.sp).1 := by
    rw [← hReg.1, ← hReg.2]
    exact congrArg Space.mem (space_leave _)
  have hPmem : (UserMemory.kernelBrkImpl s.mem (uc.regs 0) uc.sp).1.pmem = s.mem.pmem :=
    congrArg (fun x => x.1.pmem) (UserMemory.kernelBrkImpl_setPmem s.mem s.mem.pmem (uc.regs 0) uc.sp)
  refine ⟨⟨?_, ?_⟩, Alike.of_mem s'.mem.pmem ?_ ?_⟩
  · exact (congrArg Space.runningProc (space_leave _)).trans hControl.1
  · rw [hMem]
    exact (congrArg KernelSide.active (UserMemory.steps_kernelBrkImpl s.mem _ _).kernelSide).trans hControl.2
  · rw [hSave, kernelBrk_setPmem, leave_setPmem]
  · rw [hMem]
    apply h.mem.restrict hPmem
    rintro x ⟨hPerms, hWritten⟩
    obtain ⟨hBefore, hFrame⟩ := UserMemory.kernelBrkImpl_kept hGrants (fun hNew => hWritten (Or.inr hNew)) hPerms
    exact ⟨⟨hBefore, fun hFresh => hWritten (Or.inl hFresh)⟩, hFrame⟩

theorem alike_grow (hControl : s.InControl proc) (h : Alike fresh s s') (hGrants : s.Grants (.grow uc))
    (hGrants' : s'.Grants (.grow uc)) (hStep : s.step (.memory uc) = .ok t) (hStep' : s'.step (.memory uc) = .ok t') :
    t.InControl proc ∧ Alike (s.unwritten (.grow uc) fresh) t t' := by
  have hGrows {s t : Kernel} (hGrown : (UserMemory.expandStack s.mem uc.addr).2 = true)
      (hStep : s.step (.memory uc) = .ok t) :
      t = { s.setMem (UserMemory.expandStack s.mem uc.addr).1 with uc := uc } := by
    simp only [step] at hStep
    split_ifs at hStep
    unfold trapMemoryHandler at hStep
    dsimp only at hStep
    rw [if_pos hGrown] at hStep
    exact (Except.ok.inj hStep).symm
  have hExpanded : (UserMemory.expandStack s'.mem uc.addr).1 =
      (UserMemory.expandStack s.mem uc.addr).1.setPmem s'.mem.pmem := by
    conv_lhs => rw [h.mem.eq]
    rw [UserMemory.expandStack_setPmem]
  have hPmem : (UserMemory.expandStack s.mem uc.addr).1.pmem = s.mem.pmem :=
    congrArg (fun x => x.1.pmem) (UserMemory.expandStack_setPmem s.mem s.mem.pmem uc.addr)
  have hKept := (UserMemory.stacked_expandStack (m := s.mem) uc.addr).kept
  obtain rfl := hGrows hGrants hStep
  obtain rfl := hGrows hGrants' hStep'
  refine ⟨⟨hControl.1, ?_⟩, Alike.of_mem s'.mem.pmem ?_ ?_⟩
  · exact (congrArg KernelSide.active (UserMemory.steps_expandStack s.mem _).kernelSide).trans hControl.2
  · rw [hExpanded]
    conv_lhs => rw [h.eq]
    rfl
  · apply h.mem.restrict hPmem
    rintro x ⟨hPerms, hWritten⟩
    have hMapped : s.mem.Mapped x := by
      by_contra hNew
      exact hWritten (Or.inr hNew)
    have hEntry := hKept _ hMapped.valid
    have hBefore : s.mem.hasPerms x false = true := by
      rw [← hPerms, Memory.hasPerms, Memory.hasPerms, ← hEntry]
      rfl
    refine ⟨⟨hBefore, fun hFresh => hWritten (Or.inl hFresh)⟩, ?_⟩
    rw [Memory.frameOf, Memory.frameOf, ← hEntry]

/-- The state in which a successful `Exec` returns. -/
def execDone (s : Kernel) (uc : UserContext) (loaded : LoadProgram.Outcome) : Kernel :=
  (((s.saveUc uc).setMem loaded.mem).modifyPcb s.runningProc fun p => { p with uc := loaded.uc }).leave

omit [Hardware] in
theorem execDone_space (s : Kernel) (uc : UserContext) (loaded : LoadProgram.Outcome) :
    (s.execDone uc loaded).space = { s.space with mem := loaded.mem } := space_leave _

theorem step_exec {args : List (List Byte)} {loaded : LoadProgram.Outcome} (hUser : s.inUser)
    (hArgs : (s.saveUc uc).execArgs = .ok (some args))
    (hLoad : LoadProgram.loadProgram s.mem uc o.file args (o.alloc 0) = .ok loaded)
    (hSuccess : loaded.result = .success) : s.step (.syscall .exec uc o) = .ok (s.execDone uc loaded) := by
  have hUc : ((s.saveUc uc).pcb (s.saveUc uc).runningProc).uc = uc := by
    simp [saveUc, modifyPcb]
  have hLoadSaved : LoadProgram.loadProgram (s.saveUc uc).mem ((s.saveUc uc).pcb (s.saveUc uc).runningProc).uc o.file
      args (o.alloc 0) = .ok loaded := by
    rw [hUc]
    exact hLoad
  rw [step_syscall hUser]
  simp only [dispatch, kernelExec, hArgs, bind, Except.bind, hLoadSaved, hSuccess]
  rfl

theorem alike_exec {args : List (List Byte)} (hControl : s.InControl proc) (h : Alike fresh s s')
    (hGrants : s.Grants (.exec uc o args)) (hGrants' : s'.Grants (.exec uc o args))
    (hStep : s.step (.syscall .exec uc o) = .ok t) (hStep' : s'.step (.syscall .exec uc o) = .ok t') :
    t.InControl proc ∧ Alike (s.unwritten (.exec uc o args) fresh) t t' := by
  obtain ⟨hArgs, loaded, hLoad, hSuccess⟩ := hGrants
  obtain ⟨hArgs', loaded', hLoad', hSuccess'⟩ := hGrants'
  obtain ⟨li, text, data, hLoaded⟩ := LoadProgram.loadProgram_success hLoad hSuccess
  obtain ⟨li', text', data', hLoaded'⟩ := LoadProgram.loadProgram_success hLoad' hSuccess'
  obtain ⟨rfl, rfl, rfl⟩ := LoadProgram.File.image.inj (hLoaded'.file_eq.symm.trans hLoaded.file_eq)
  obtain ⟨hMem, hUc⟩ := hLoaded.alike hLoaded' h.mem.eq
  rw [step_exec (inUser_of_syscall hStep) hArgs hLoad hSuccess] at hStep
  rw [step_exec (inUser_of_syscall hStep') hArgs' hLoad' hSuccess'] at hStep'
  obtain rfl := Except.ok.inj hStep
  obtain rfl := Except.ok.inj hStep'
  have hLoadedMem : (s.execDone uc loaded).mem = loaded.mem := congrArg Space.mem (execDone_space s uc loaded)
  refine ⟨⟨?_, ?_⟩, Alike.of_mem loaded'.mem.pmem ?_ ?_⟩
  · exact (congrArg Space.runningProc (execDone_space s uc loaded)).trans hControl.1
  · rw [hLoadedMem]
    exact (congrArg KernelSide.active (LoadProgram.steps_loadProgram hLoad).kernelSide).trans hControl.2
  · unfold execDone
    rw [← leave_setPmem, hUc]
    conv_lhs => rw [h.setPmem, hMem.eq]
    rfl
  · rw [hLoadedMem, ← hMem.eq]
    apply hMem.mono
    rintro x ⟨-, hWritten⟩
    unfold unwritten at hWritten
    dsimp only at hWritten
    rw [hLoaded.file_eq] at hWritten
    exact Set.notMem_compl_iff.mp hWritten

theorem alike_store {addr : Int} {byte : Byte} (hControl : s.InControl proc) (h : Alike fresh s s')
    (hStep : s.step (.userStore addr byte) = .ok t) (hStep' : s'.step (.userStore addr byte) = .ok t') :
    t.InControl proc ∧ Alike (s.unwritten (.store addr byte) fresh) t t' := by
  simp only [step] at hStep hStep'
  split_ifs at hStep hStep'
  obtain rfl := Except.ok.inj hStep
  obtain rfl := Except.ok.inj hStep'
  refine ⟨hControl, ?_, (h.mem.pokeByte addr byte).mono ?_⟩
  · conv_lhs => rw [h.eq]
    rfl
  · rintro x ⟨hPerms, hWritten⟩
    by_cases hHere : x = addr
    · exact Or.inl hHere
    · exact Or.inr ⟨hPerms, fun hFresh => hWritten ⟨hFresh, hHere⟩⟩

/-- What a process can read lies in frames that it owns. -/
theorem SameFor.alike (h : SameFor proc s s') (hControl : s.InControl proc) : Alike ∅ s s' := by
  have hMem : s'.mem = s.mem.setPmem s'.mem.pmem := congrArg Kernel.mem h.eq
  have hSame : s' = s.setMem s'.mem := by
    rw [hMem]
    exact h.eq
  refine ⟨hSame, hMem, fun x hx => ?_⟩
  have hMapped := (Memory.hasPerms_iff.mp hx.1).1
  obtain ⟨hLow, hHigh⟩ := Memory.page_bounds hMapped.low hMapped.high
  have hFrame : s'.mem.frameOf x = s.mem.frameOf x := by
    rw [hMem]
    rfl
  have hOwned : s.mem.frameOf x ∈ s.mem.ownedBy proc := by
    rw [← hControl.2]
    exact Or.inl ⟨_, hLow, hHigh, hMapped.valid, rfl⟩
  rw [Memory.byteAt, Memory.byteAt, hFrame, h.owned _ hOwned]

end Step
end Kernel

namespace KernelStart

open Kernel

section

variable [Hardware]

/-- A process and its requests. -/
def requests : System Kernel Request Stop where
  initial s := system.Reachable s
  step s request := s.step request.label

/-- The requests, with the addresses at which nobody has written yet. -/
def tracked : System (Kernel × Set Int) Request Stop :=
  requests.observe ∅ fun s request _ before => s.unwritten request before

/-- Each pair of steps keeps the states alike where somebody has written. -/
theorem alike_step {proc : Proc} {x y : Kernel × Set Int} {s' t' : Kernel} {request : Request}
    (hControl : x.1.InControl proc) (h : Alike x.2 x.1 s') (hGrants : x.1.Grants request)
    (hGrants' : s'.Grants request) (hStep : tracked.step x request = .ok y)
    (hStep' : requests.step s' request = .ok t') : y.1.InControl proc ∧ Alike y.2 y.1 t' := by
  obtain ⟨hStep, hFresh⟩ := System.observe_step.mp hStep
  rw [hFresh]
  cases request with
  | brk uc o => exact alike_brk hControl h hGrants hStep hStep'
  | grow uc => exact alike_grow hControl h hGrants hGrants' hStep hStep'
  | exec uc o args => exact alike_exec hControl h hGrants hGrants' hStep hStep'
  | store addr byte => exact alike_store hControl h hStep hStep'

/-- A process that runs in user mode is in control of the memory. -/
theorem inControl_of_reachable {s : Kernel} (run : system.Reachable s) : s.InControl s.runningProc :=
  ⟨rfl, (served_reachable run).current.active⟩

end

/-- A process finds what other processes have left in the free frames only where neither
it nor the loader has written since the page was mapped. -/
theorem recycled_frames_unseen [Hardware] {proc : Proc} {s s' t t' : Kernel} {list : List Request} {fresh : Set Int}
    (hControl : s.InControl proc) (hSame : SameFor proc s s')
    (run : tracked.Follows (fun x request => x.1.Grants request) (s, ∅) list (t, fresh))
    (run' : requests.Follows Grants s' list t') (addr : Int) (hWritten : addr ∉ fresh) :
    t'.mem.readBy proc addr = t.mem.readBy proc addr := by
  have hEnd : t.InControl proc ∧ Alike fresh t t' :=
    run.related (R := fun x s' => x.1.InControl proc ∧ Alike x.2 x.1 s') run' ⟨hControl, hSame.alike hControl⟩
      fun hAlike hGrants hGrants' hStep hStep' => alike_step hAlike.1 hAlike.2 hGrants hGrants' hStep hStep'
  obtain ⟨⟨-, hActive⟩, hAlike⟩ := hEnd
  have hActive' : t'.mem.active = proc := by
    rw [hAlike.mem.eq]
    exact hActive
  rw [Memory.readBy_active hActive, Memory.readBy_active hActive', Memory.loadByte, Memory.loadByte,
    hAlike.mem.hasPerms]
  split_ifs with hPerms
  · exact congrArg Except.ok (hAlike.mem.bytes addr ⟨hPerms, hWritten⟩)
  · rfl

/-- The state with ones in all free frames. -/
def stained [Hardware] (s : Kernel) : Kernel :=
  s.setPmem fun pfn offset =>
    if pmemBaseFrame ≤ pfn ∧ pfn - pmemBaseFrame < s.mem.frames.numFrames ∧ ¬s.mem.frames.used pfn then 1
    else s.mem.pmem pfn offset

theorem sameFor_stained [Hardware] {s : Kernel} (run : system.Reachable s) :
    SameFor s.runningProc s (stained s) := by
  have hRest (pfn : Nat) (hTaken : pfn ∉ s.mem.frames.range \ s.mem.frames.inUse) :
      (stained s).mem.pmem pfn = s.mem.pmem pfn := by
    funext offset
    exact if_neg fun hFree => hTaken ⟨⟨hFree.1, hFree.2.1⟩, hFree.2.2⟩
  refine ⟨rfl, hRest, fun pfn hOwned => hRest pfn fun hFree => hFree.2 ?_⟩
  have hSound := (guarded_reachable run).custody.sound
  have hCounts : s.space.Owning s.Gone s.runningProc := Or.inl rfl
  rcases hOwned with ⟨i, -, -, hValid, hPfn⟩ | ⟨i, -, -, hValid, hPfn⟩
  · exact hSound.marked (.user s.runningProc i) pfn ⟨hCounts, hValid, hPfn⟩
  · exact hSound.marked (.stack s.runningProc i) pfn ⟨hCounts, hValid, hPfn⟩

section Sample

open Sample

/-- The first process loads its program once more, out of frames with other contents. -/
theorem recycled_frames_unseen_exec : ∃ s s' t t' : Kernel, s'.mem.pmem 29 0 ≠ s.mem.pmem 29 0 ∧
    requests.Follows Grants s [.exec (context [192, 192]) outcomes []] t ∧
    requests.Follows Grants s' [.exec (context [192, 192]) outcomes []] t' ∧
    t'.mem.readBy 1 200 = t.mem.readBy 1 200 := by
  obtain ⟨s, run, hRunning, hUser, hStain, hArgs, hArgs', hAny, hAny'⟩ : ∃ s : Kernel, system.Reachable s ∧
      s.runningProc = 1 ∧ s.inUser ∧ (stained s).mem.pmem 29 0 ≠ s.mem.pmem 29 0 ∧
      (s.saveUc (context [192, 192])).execArgs = .ok (some []) ∧
      ((stained s).saveUc (context [192, 192])).execArgs = .ok (some []) ∧
      ((LoadProgram.loadProgram s.mem (context [192, 192]) program [] true).toOption.any
        fun loaded => decide (loaded.result = .success)) = true ∧
      ((LoadProgram.loadProgram (stained s).mem (context [192, 192]) program [] true).toOption.any
        fun loaded => decide (loaded.result = .success)) = true :=
    ⟨after turn, reachable_after (by decide +kernel), by decide +kernel, by decide +kernel, by decide +kernel,
      by decide +kernel, by decide +kernel, by decide +kernel, by decide +kernel⟩
  obtain ⟨loaded, hLoad, hSuccess⟩ := (Option.any_eq_true _ _).mp hAny
  obtain ⟨loaded', hLoad', hSuccess'⟩ := (Option.any_eq_true _ _).mp hAny'
  have hLoad := mem_toOption.mp hLoad
  have hLoad' := mem_toOption.mp hLoad'
  have hSuccess := of_decide_eq_true hSuccess
  have hSuccess' := of_decide_eq_true hSuccess'
  have hSame := sameFor_stained run
  have hControl := inControl_of_reachable run
  rw [hRunning] at hSame hControl
  have hFirst := step_exec (o := outcomes) hUser hArgs hLoad hSuccess
  have hSecond := step_exec (o := outcomes) (s := stained s) hUser hArgs' hLoad' hSuccess'
  have hGrants : s.Grants (.exec (context [192, 192]) outcomes []) := ⟨hArgs, loaded, hLoad, hSuccess⟩
  have hGrants' : (stained s).Grants (.exec (context [192, 192]) outcomes []) := ⟨hArgs', loaded', hLoad', hSuccess'⟩
  have hTracked : tracked.step (s, ∅) (.exec (context [192, 192]) outcomes []) =
      .ok (s.execDone (context [192, 192]) loaded, s.unwritten (.exec (context [192, 192]) outcomes []) ∅) :=
    System.observe_step.mpr ⟨hFirst, rfl⟩
  refine ⟨s, stained s, _, _, hStain, .cons hGrants hFirst .nil, .cons hGrants' hSecond .nil, ?_⟩
  apply recycled_frames_unseen hControl hSame (.cons hGrants hTracked .nil) (.cons hGrants' hSecond .nil)
  intro hFresh
  apply hFresh
  unfold LoadProgram.Written
  simp only [Set.mem_union, Set.mem_Ico]
  decide +kernel

/-- The first process raises its break by a page, and finds in it what was left there. -/
theorem recycled_frames_unseen_fails : ∃ s s' t t' : Kernel, system.Reachable s ∧ s.InControl 1 ∧ SameFor 1 s s' ∧
    requests.Follows Grants s [.brk (context [240]) outcomes] t ∧
    requests.Follows Grants s' [.brk (context [240]) outcomes] t' ∧
    t'.mem.readBy 1 224 ≠ t.mem.readBy 1 224 := by
  obtain ⟨s, run, hRunning, hGrants, hGrants', hStep, hStep'⟩ : ∃ s : Kernel, system.Reachable s ∧
      s.runningProc = 1 ∧ (UserMemory.kernelBrkImpl s.mem 240 280).2 = successCode ∧
      (UserMemory.kernelBrkImpl (stained s).mem 240 280).2 = successCode ∧
      (s.step (call .brk [240])).toOption.any (fun t => decide (t.mem.readBy 1 224 = .ok 0)) = true ∧
      ((stained s).step (call .brk [240])).toOption.any (fun t => decide (t.mem.readBy 1 224 = .ok 1)) = true :=
    ⟨after turn, reachable_after (by decide +kernel), by decide +kernel, by decide +kernel, by decide +kernel,
      by decide +kernel, by decide +kernel⟩
  have hSame := sameFor_stained run
  have hControl := inControl_of_reachable run
  rw [hRunning] at hSame hControl
  obtain ⟨t, hReturns, hByte⟩ := (Option.any_eq_true _ _).mp hStep
  obtain ⟨t', hReturns', hByte'⟩ := (Option.any_eq_true _ _).mp hStep'
  refine ⟨s, stained s, t, t', run, hControl, hSame, .cons hGrants (mem_toOption.mp hReturns) .nil,
    .cons hGrants' (mem_toOption.mp hReturns') .nil, ?_⟩
  rw [of_decide_eq_true hByte, of_decide_eq_true hByte']
  decide

end Sample
end KernelStart
end Yalnix
