import Yalnix.Memory.Loaded
import Yalnix.Memory.LoadOutcome
import Yalnix.Process.ForkOutcome
import Yalnix.Process.Reaping
import Yalnix.Process.UserPointers

/-! What an `Exec` comes to once its arguments are checked: the caller goes on with
`ERROR`, or it is killed, or the kernel faults, or the new program runs. The executable
and the number of free frames decide. -/
namespace Yalnix

open Hardware Transition UserMemory

namespace LoadProgram

variable [Hardware] {li : LoadInfo} {args : List (List Byte)} {text data : List Byte} {free : Nat}

/-- The pages of a well-formed program. -/
structure Sections (li : LoadInfo) (lay : Layout) : Prop extends Apart li lay where
  text : vmem1Base + lay.textPg1 * pageSize = li.tVaddr.toInt
  data : vmem1Base + lay.dataPg1 * pageSize = li.idVaddr.toInt
  low : 0 ≤ lay.textPg1
  pages : lay.dataNpg = li.idNpg + li.udNpg
  top : lay.sp / pageSize = region1LimitVpn - lay.stackNpg

theorem WellFormed.sections (h : WellFormed li) (hRoom : (layout li args).stackNpg + (layout li args).dataPg1 +
    (layout li args).dataNpg < region1Vpns) : Sections li (layout li args) where
  toApart := h.apart hRoom
  text := segment_page h.textAligned
  data := segment_page h.dataAligned
  low := Int.ediv_nonneg (sub_nonneg.mpr h.textLow) (Int.natCast_nonneg _)
  pages := rfl
  top := (layout_stack li args).1

/-- The page of an address that is some pages into region 1. -/
theorem page_le (addr page : Int) (h : vmem1Base + page * pageSize ≤ addr) :
    page ≤ addr / pageSize - region1BaseVpn := by
  have hSize : (0 : Int) < pageSize := Int.natCast_pos.mpr pageSize_pos
  have hPage : region1BaseVpn + page ≤ addr / pageSize := by
    refine (Int.le_ediv_iff_mul_le hSize).mpr ?_
    rw [add_mul]
    exact h
  omega

theorem page_lt (addr page : Int) (h : addr < vmem1Base + page * pageSize) :
    addr / pageSize - region1BaseVpn < page := by
  have hSize : (0 : Int) < pageSize := Int.natCast_pos.mpr pageSize_pos
  have hPage : addr / pageSize < region1BaseVpn + page := by
    refine (Int.ediv_lt_iff_lt_mul hSize).mpr ?_
    rw [add_mul]
    exact h
  omega

/-- A well-formed program is stored where it may be. -/
theorem WellFormed.stores (h : WellFormed li) (hRoom : (layout li args).stackNpg + (layout li args).dataPg1 +
    (layout li args).dataNpg < region1Vpns) : Stores li (layout li args) := by
  have hSections := h.sections hRoom
  have hLow := hSections.low
  have hBelow := hSections.textData
  have hAbove := hSections.dataStack
  have hPages := hSections.pages
  have hStack := (layout_stack li args).2
  obtain ⟨hSp, hPointers, -, -⟩ := layout_order li args
  constructor
  · intro addr hFirst hLast
    have hInit := h.initLow
    have hUninit := h.uninitHigh
    have hFrom := page_le addr (layout li args).dataPg1 (by rw [hSections.data]; omega)
    have hTo := page_lt addr ((layout li args).dataPg1 + (layout li args).dataNpg) (by
      rw [add_mul, ← add_assoc, hSections.data, hPages]
      omega)
    exact ⟨⟨by omega, by omega, Or.inr (Or.inl ⟨by omega, by omega⟩)⟩, by omega⟩
  · intro addr hFirst hLast
    have hSize : (0 : Int) < pageSize := Int.natCast_pos.mpr pageSize_pos
    have hFrom : (layout li args).sp / pageSize ≤ addr / pageSize := Int.ediv_le_ediv hSize (by omega)
    have hTo := page_lt addr region1Vpns (by
      have hEnd : vmem1Limit = vmem1Base + region1Vpns * pageSize := by
        unfold vmem1Limit vmem1Base region1LimitVpn
        rw [add_mul]
      omega)
    have hTop := hSections.top
    have hLimit : region1LimitVpn = region1BaseVpn + region1Vpns := rfl
    exact ⟨⟨by omega, by omega, Or.inr (Or.inr (by omega))⟩, by omega⟩

/-- A segment of a well-formed program can be read if the file is long enough. -/
theorem readable_of_pages {lay : Layout} {vaddr : Word} {npg : Nat} {bytes : List Byte} {page : Int}
    (hStart : vmem1Base + page * pageSize = vaddr.toInt) (hLow : 0 ≤ page) (hHigh : page + npg ≤ region1Vpns)
    (hSection : ∀ i, page ≤ i → i < page + npg → lay.textPg1 ≤ i ∧ i < lay.textPg1 + li.tNpg ∨
      lay.dataPg1 ≤ i ∧ i < lay.dataPg1 + lay.dataNpg) :
    Readable li lay vaddr npg bytes ↔ npg * pageSize ≤ bytes.length := by
  refine ⟨fun h => h.1, fun hLong => ⟨hLong, fun k hk => ?_⟩⟩
  have hFrom := page_le (vaddr.toInt + k) page (by omega)
  have hTo := page_lt (vaddr.toInt + k) (page + npg) (by
    have hBytes : (k : Int) < npg * pageSize := by exact_mod_cast hk
    rw [add_mul, ← add_assoc, hStart]
    omega)
  refine ⟨by omega, by omega, ?_⟩
  rcases hSection _ hFrom hTo with hText | hData
  · exact Or.inl hText
  · exact Or.inr (Or.inl hData)

/-- A well-formed program is placed if there are frames for it and the file is complete. -/
theorem WellFormed.placed_iff (h : WellFormed li) (hRoom : (layout li args).stackNpg + (layout li args).dataPg1 +
    (layout li args).dataNpg < region1Vpns) : Placed free li (layout li args) text data ↔
      li.tNpg + (layout li args).dataNpg + (layout li args).stackNpg ≤ free ∧
        li.tNpg * pageSize ≤ text.length ∧ li.idNpg * pageSize ≤ data.length := by
  have hSections := h.sections hRoom
  have hLow := hSections.low
  have hBelow := hSections.textData
  have hAbove := hSections.dataStack
  have hPages := hSections.pages
  have hStack := (layout_stack li args).2
  have hText : Readable li (layout li args) li.tVaddr li.tNpg text ↔ li.tNpg * pageSize ≤ text.length :=
    readable_of_pages hSections.text hLow (by omega) fun i hFrom hTo => Or.inl ⟨hFrom, hTo⟩
  have hData : Readable li (layout li args) li.idVaddr li.idNpg data ↔ li.idNpg * pageSize ≤ data.length :=
    readable_of_pages hSections.data (by omega) (by omega) fun i hFrom hTo => Or.inr ⟨hFrom, by omega⟩
  rw [← hText, ← hData]
  refine ⟨fun hPlaced => ⟨hPlaced.stack, hPlaced.text, hPlaced.data⟩, ?_⟩
  rintro ⟨hFrames, hReadText, hReadData⟩
  exact ⟨⟨hLow, by omega, by omega, by omega, by omega⟩, hFrames, hReadText, hReadData⟩

end LoadProgram

/-- The frames that a new program can have: the free ones and those of the old program. -/
noncomputable def Memory.room [Hardware] (m : Memory) : Nat :=
  m.frames.freeCount + (m.userMapping.pages region1Vpns).ncard

theorem Memory.freeCount_deallocateRegion1 [Hardware] {m : Memory} (hWf : m.frames.Wf)
    (hOwned : Mapping.Owned region1Vpns m.userMapping) : (deallocateRegion1 m).frames.freeCount = m.room := by
  obtain ⟨x, hDealloc, hCleared⟩ := deallocateRegion1_eq hWf
  have hFrames : (deallocateRegion1 m).frames = x.frames := by
    rw [hDealloc]
    rfl
  have hReleased := Set.ncard_sdiff_add_ncard_of_subset hOwned.heldFrames_subset m.userMapping.frames.finite_inUse
  rw [← hCleared.inUse, hOwned.ncard_heldFrames] at hReleased
  have hOld := m.frames.freeCount_add_inUse
  have hNew := x.frames.freeCount_add_inUse
  rw [Frames.range_of_numFrames hCleared.numFrames] at hNew
  have hSame : m.userMapping.frames = m.frames := rfl
  rw [hSame] at hReleased hNew
  rw [hFrames, Memory.room]
  omega

namespace Kernel

variable [Hardware] {s t : Kernel} {uc : UserContext} {o : Outcomes} {args : List (List Byte)}

/-- `KernelExec` when the loader has returned. -/
def execLoaded (s : Kernel) (loaded : LoadProgram.Outcome) : Except Stop Kernel :=
  let t := (s.setMem loaded.mem).modifyPcb s.runningProc fun p => { p with uc := loaded.uc }
  match loaded.result with
  | .kill => t.kernelExit (-1)
  | .error => .ok (t.ret errorCode)
  | .success => .ok t

/-- The caller returns with `ERROR`. -/
theorem execLoaded_error {loaded : LoadProgram.Outcome} (hMode : s.mode = .user) (hResult : loaded.result = .error) :
    ∃ t, s.execLoaded loaded = .ok t ∧ t.mode = .user ∧ t.runningProc = s.runningProc ∧ t.mem = loaded.mem ∧
      (t.pcb t.runningProc).uc = loaded.uc.result errorCode := by
  unfold execLoaded
  rw [hResult]
  refine ⟨_, rfl, hMode, rfl, rfl, ?_⟩
  simp [ret, setResult, modifyPcb, setMem]

/-- The caller goes on in the new program. -/
theorem execLoaded_success {loaded : LoadProgram.Outcome} (hMode : s.mode = .user)
    (hResult : loaded.result = .success) :
    ∃ t, s.execLoaded loaded = .ok t ∧ t.mode = .user ∧ t.runningProc = s.runningProc ∧
      (t.pcb t.runningProc).uc = loaded.uc := by
  unfold execLoaded
  rw [hResult]
  refine ⟨_, rfl, hMode, rfl, ?_⟩
  simp [modifyPcb, setMem]

theorem kernelExec_checked (hArgs : (s.saveUc uc).execArgs = .ok (some args)) : (s.saveUc uc).kernelExec o =
    LoadProgram.loadProgram s.mem uc o.file args (o.alloc 0) >>= (s.saveUc uc).execLoaded := by
  have hUc : ((s.saveUc uc).pcb (s.saveUc uc).runningProc).uc = uc := by simp [saveUc, modifyPcb]
  have hMem : (s.saveUc uc).mem = s.mem := rfl
  unfold kernelExec
  rw [hArgs]
  simp only [bind, Except.bind]
  rw [hUc, hMem]
  rfl

omit [Hardware] in
theorem leave_back (hMode : s.mode = .user) : s.leave.mode = .user ∧ s.leave.runningProc = s.runningProc :=
  ⟨(congrArg Cpu.mode (leave_cpu s)).trans hMode, congrArg Cpu.runningProc (leave_cpu s)⟩

/-- The exit of a process other than the first is on record. -/
theorem exited_kernelExit {code : Word} (hExit : s.kernelExit code = .ok t) :
    .exited s.runningProc code ∈ t.trace := by
  obtain ⟨marked, hKin, hCpu, hState, rfl⟩ := kernelExit_eq hExit
  have hMarked : .exited s.runningProc code ∈ marked.trace := by
    refine mem_trace_of_log ?_
    rw [hKin]
    simp
  obtain ⟨events, hTrace, -⟩ := (Quiet.retirePcb hState).trace
  show _ ∈ (marked.retirePcb s.runningProc).trace
  rw [hTrace]
  exact List.mem_append_left _ hMarked

theorem exists_kernelExit (code : Word) (hInit : (s.pcb s.runningProc).pid ≠ 1) : ∃ t, s.kernelExit code = .ok t := by
  unfold kernelExit
  dsimp only
  rw [if_neg hInit]
  exact ⟨_, rfl⟩

/-- The caller is killed, unless it is the first process. -/
theorem execLoaded_kill {loaded : LoadProgram.Outcome} (hSound : KernelStart.Sound s) (hUser : s.inUser)
    (hResult : loaded.result = .kill) :
    (s.pcb s.runningProc).pid = 1 ∧ s.execLoaded loaded = .error .halt ∨
      (s.pcb s.runningProc).pid ≠ 1 ∧ ∃ t, s.execLoaded loaded = .ok t ∧ t.mode = .resuming ∧
        ¬t.Live s.runningProc ∧ .exited s.runningProc (-1) ∈ t.trace := by
  have hSilent : Silent s ((s.setMem loaded.mem).modifyPcb s.runningProc fun p => { p with uc := loaded.uc }) :=
    (Silent.setMem s _).trans (Silent.saveUc _ _)
  unfold execLoaded
  rw [hResult]
  dsimp only
  have hPid : (((s.setMem loaded.mem).modifyPcb s.runningProc fun p => { p with uc := loaded.uc }).pcb
      s.runningProc).pid = (s.pcb s.runningProc).pid := by simp [modifyPcb, setMem]
  have hRunning : ((s.setMem loaded.mem).modifyPcb s.runningProc fun p =>
      { p with uc := loaded.uc }).runningProc = s.runningProc := rfl
  generalize (s.setMem loaded.mem).modifyPcb s.runningProc (fun p => { p with uc := loaded.uc }) = left
    at hSilent hPid hRunning ⊢
  by_cases hInit : (s.pcb s.runningProc).pid = 1
  · refine Or.inl ⟨hInit, ?_⟩
    unfold kernelExit
    dsimp only
    rw [hRunning, if_pos (hPid.trans hInit)]
  · obtain ⟨t, hExit⟩ := exists_kernelExit (s := left) (-1) (by rwa [hRunning, hPid])
    have hUserLeft : left.inUser := hSilent.toQuiet.inUser hUser
    obtain ⟨-, -, -, hGone⟩ := (hSound.quiet hSilent.toQuiet).settled.kernelExit hUserLeft hExit
    rw [hRunning] at hGone
    refine Or.inr ⟨hInit, t, hExit, congrArg Cpu.mode (cpu_kernelExit hExit), fun hLive => ?_, ?_⟩
    · exact ((hGone s.runningProc).mp hLive).1 rfl
    · rw [← hRunning]
      exact exited_kernelExit hExit

/-- What an `Exec` comes to when its arguments are in order. -/
inductive ExecVerdict (s : Kernel) (uc : UserContext) (o : Outcomes) (args : List (List Byte)) :
    Except Stop Kernel → Prop where
  | refused {t : Kernel} (hNot : ∀ li text data, ¬LoadProgram.Commits o.file args (o.alloc 0) li text data)
      (hBack : t.mode = .user ∧ t.runningProc = s.runningProc) (hMem : t.mem = s.mem)
      (hResult : t.uc.regs 0 = errorCode) : ExecVerdict s uc o args (.ok t)
  | killed {li : LoadProgram.LoadInfo} {text data : List Byte} {t : Kernel}
      (hCommits : LoadProgram.Commits o.file args (o.alloc 0) li text data)
      (hNot : ¬LoadProgram.Placed s.mem.room li (LoadProgram.layout li args) text data)
      (hInit : (s.pcb s.runningProc).pid ≠ 1) (hGone : ¬t.Live s.runningProc)
      (hLog : .exited s.runningProc (-1) ∈ t.trace) : ExecVerdict s uc o args (.ok t)
  | halted {li : LoadProgram.LoadInfo} {text data : List Byte}
      (hCommits : LoadProgram.Commits o.file args (o.alloc 0) li text data)
      (hNot : ¬LoadProgram.Placed s.mem.room li (LoadProgram.layout li args) text data)
      (hInit : (s.pcb s.runningProc).pid = 1) : ExecVerdict s uc o args (.error .halt)
  | faulted {li : LoadProgram.LoadInfo} {text data : List Byte} {addr : Int}
      (hCommits : LoadProgram.Commits o.file args (o.alloc 0) li text data)
      (hPlaced : LoadProgram.Placed s.mem.room li (LoadProgram.layout li args) text data)
      (hNot : ¬LoadProgram.Stores li (LoadProgram.layout li args)) : ExecVerdict s uc o args (.error (.fault addr))
  | loaded {li : LoadProgram.LoadInfo} {text data : List Byte} {t : Kernel}
      (hCommits : LoadProgram.Commits o.file args (o.alloc 0) li text data)
      (hPlaced : LoadProgram.Placed s.mem.room li (LoadProgram.layout li args) text data)
      (hStores : LoadProgram.Stores li (LoadProgram.layout li args))
      (hBack : t.mode = .user ∧ t.runningProc = s.runningProc)
      (hUc : t.uc = { uc with pc := li.entry, sp := BitVec.ofInt 32 (LoadProgram.layout li args).sp }) :
      ExecVerdict s uc o args (.ok t)

end Kernel

namespace KernelStart

open Kernel

theorem execVerdict_step [Hardware] {s : Kernel} (run : system.Reachable s) {uc : UserContext} {o : Outcomes}
    {args : List (List Byte)} (hUser : s.inUser) (hArgs : (s.saveUc uc).execArgs = .ok (some args)) :
    ExecVerdict s uc o args (s.step (.syscall .exec uc o)) := by
  have hSound := sound_reachable run
  have hPid : ((s.saveUc uc).pcb (s.saveUc uc).runningProc).pid = (s.pcb s.runningProc).pid := by
    simp [saveUc, modifyPcb]
  have hWf := wf_reachable run
  have hRoom := Memory.freeCount_deallocateRegion1 hWf (owned_reachable run)
  have hVerdict := LoadProgram.loadProgram_verdict hWf uc o.file args (o.alloc 0)
  rw [step_syscall hUser]
  have hDispatch : (s.saveUc uc).dispatch .exec o = (s.saveUc uc).kernelExec o := rfl
  rw [hDispatch, kernelExec_checked hArgs]
  cases hLoad : LoadProgram.loadProgram s.mem uc o.file args (o.alloc 0) with
  | error stop =>
      rw [hLoad] at hVerdict
      cases hVerdict with
      | faulted hCommits hPlaced hNot =>
          rw [hRoom] at hPlaced
          exact .faulted hCommits hPlaced hNot
  | ok outcome =>
      rw [hLoad] at hVerdict
      show ExecVerdict s uc o args (do let t ← (s.saveUc uc).execLoaded outcome; return t.leave)
      cases hVerdict with
      | refused hNot hResult =>
          obtain ⟨t, hReturn, hMode, hRunning, hMem, hUc⟩ := execLoaded_error (s := s.saveUc uc) hUser.1 hResult
          rw [hReturn]
          obtain ⟨hBack, hSame⟩ := leave_back hMode
          refine .refused hNot ⟨hBack, hSame.trans hRunning⟩ ?_ ?_
          · rw [leave_mem, hMem]
            exact LoadProgram.mem_loadProgram_error hLoad hResult
          · rw [leave_uc hMode, hUc]
            simp [UserContext.result]
      | killed hCommits hNot hResult =>
          rw [hRoom] at hNot
          rcases execLoaded_kill (hSound.quiet (Silent.saveUc s uc).toQuiet) (s := s.saveUc uc) hUser hResult with
            ⟨hInit, hHalt⟩ | ⟨hOther, t, hExit, hMode, hGone, hLog⟩
          · rw [hHalt]
            exact .halted hCommits hNot (by rwa [hPid] at hInit)
          · have hLeave : t.leave = t := by
              unfold leave
              rw [hMode]
            rw [hExit]
            show ExecVerdict s uc o args (.ok t.leave)
            rw [hLeave]
            exact .killed hCommits hNot (by rwa [hPid] at hOther) hGone hLog
      | @loaded li text data _ hCommits hPlaced hStores hResult hUc =>
          rw [hRoom] at hPlaced
          obtain ⟨t, hReturn, hMode, hRunning, hContext⟩ := execLoaded_success (s := s.saveUc uc) hUser.1 hResult
          rw [hReturn]
          obtain ⟨hBack, hSame⟩ := leave_back hMode
          refine .loaded hCommits hPlaced hStores ⟨hBack, hSame.trans hRunning⟩ ?_
          rw [leave_uc hMode, hContext, hUc]

open Sample in
/-- The program of the sample machine without the last byte of its text. -/
def truncated : Outcomes :=
  ⟨fun _ => true, [], .image ⟨192, 192, 1, 208, 1, 224, 0, 224⟩ (List.replicate 15 0) (List.replicate 16 0)⟩

end KernelStart
end Yalnix
