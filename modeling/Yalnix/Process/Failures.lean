import Yalnix.Process.Exec
import Yalnix.Process.ExecOutcome
import Yalnix.Process.KernelStacks

/-! What stops the machine. A trap that the kernel does not survive is one of a few: the
death of the first process, a fork or an exec that goes on with what it did not check, a
store through an unchecked pointer, and a switch to a process without a kernel stack. -/
namespace Yalnix

open Hardware KernelMemory UserMemory Transition

namespace UserMemory

variable [Hardware] {m : Memory} {child : Proc}

/-- One of the pages that `UCCopy` gets to cannot be read by the process itself. -/
structure CopyUnread (ctx : MemCtx) (free : Nat) (sp : Word) : Prop where
  below : ctx.currBrkPage < pageNumber (downToPage sp)
  scratch : inRegion1 ctx.currBrkPage
  unread : ∃ page ∈ (copiedPages ctx sp).take free, ¬Copyable ctx.region1Pt page.1

/-- The copy of an address space faults on a page that the process has no right to. -/
theorem ucCopy_fails_iff (hWf : m.frames.Wf) (hChild : child ≠ m.active)
    (hFresh : ∀ i, ((m.ctx child).region1Pt i).valid = false)
    (hData : (m.ctx m.active).dataStartPage ≤ (m.ctx m.active).currBrkPage) (sp : Word) :
    Fails (ucCopy m sp child) ↔ CopyUnread (m.ctx m.active) m.frames.freeCount sp := by
  by_cases hBelow : pageNumber (downToPage sp) ≤ (m.ctx m.active).currBrkPage
  · have hRefused : ucCopy m sp child = .ok (m, false) := by
      unfold ucCopy
      exact if_pos hBelow
    rw [hRefused]
    exact iff_of_false (not_fails_ok _) fun h => absurd h.below (not_lt.mpr hBelow)
  have hAbove := not_le.mp hBelow
  have hLoop : Fails (ucCopy m sp child) ↔
      Fails (copyPages m child (m.ctx m.active).currBrkPage (copiedPages (m.ctx m.active) sp)) := by
    rw [ucCopy_above hAbove]
    refine fails_bind.trans (or_iff_left ?_)
    rintro ⟨copied, -, hFails⟩
    split_ifs at hFails <;> exact not_fails_ok _ hFails
  rw [hLoop]
  by_cases hBrk : inRegion1 (m.ctx m.active).currBrkPage
  · have hResult := copyPages_result hWf hBrk hChild (scratch_not_copied hData hAbove)
    generalize copyPages m child (m.ctx m.active).currBrkPage (copiedPages (m.ctx m.active) sp) = r at hResult ⊢
    cases hResult with
    | copied hRoom hRead hFrames =>
        refine iff_of_false (not_fails_ok _) fun h => ?_
        obtain ⟨page, hPage, hUnread⟩ := h.unread
        exact hUnread (hRead page (List.mem_of_mem_take hPage))
    | full hRoom hRead hScratch =>
        refine iff_of_false (not_fails_ok _) fun h => ?_
        obtain ⟨page, hPage, hUnread⟩ := h.unread
        exact hUnread (hRead page hPage)
    | unread hRead => exact iff_of_true (fails_error _) ⟨hAbove, hBrk, hRead⟩
  · refine iff_of_false (fun hFails => ?_) fun h => hBrk h.scratch
    by_cases hPages : copiedPages (m.ctx m.active) sp = []
    · rw [hPages] at hFails
      exact not_fails_ok _ hFails
    · obtain ⟨n, hCopy, -⟩ := copyPages_stuck hWf hFresh hBrk hPages
      rw [hCopy] at hFails
      exact not_fails_ok _ hFails

end UserMemory

namespace Kernel

variable [Hardware] {s t : Kernel} {m : Memory} {uc : UserContext} {o : Outcomes} {label : Label} {addr : Int}
  {r : Except Stop Kernel}

/-- The loop over the argument vector faults on a pointer that is only half readable. -/
theorem argvFrom_fails_iff (count : Nat) : Fails (argvFrom m count addr) ↔ ¬PointersWhole m count addr := by
  constructor
  · intro hFails hWhole
    obtain ⟨argv, hOk⟩ := argvFrom_ok hWhole
    rw [hOk] at hFails
    exact not_fails_ok _ hFails
  · intro hNot
    by_contra hReturns
    refine hNot ?_
    clear hNot
    induction count generalizing addr with
    | zero => exact fun i hi => absurd hi (Nat.not_lt_zero i)
    | succ count ih =>
        rw [pointersWhole_succ]
        unfold argvFrom at hReturns
        split_ifs at hReturns with hPerms
        · constructor
          · intro hFirst
            rw [hPerms] at hFirst
            cases hFirst
          · rintro ⟨pointer, hLoad, -⟩
            have hFirst := loadWord_isOk.mp ⟨pointer, hLoad⟩ addr (by simp [pointerReads])
            rw [hPerms] at hFirst
            cases hFirst
        · rw [fails_bind, not_or] at hReturns
          obtain ⟨hLoad, hRest⟩ := hReturns
          obtain ⟨pointer, hPointer⟩ : ∃ pointer, m.loadWord addr = .ok pointer := by
            simpa [fails_iff_forall] using hLoad
          refine ⟨fun _ => loadWord_isOk.mp ⟨pointer, hPointer⟩, ?_⟩
          rintro ⟨word, hWord, hNonNull⟩
          refine ih fun hFails => ?_
          obtain rfl := Except.ok.inj (hPointer.symm.trans hWord)
          refine hRest ⟨pointer, hPointer, ?_⟩
          rw [if_neg hNonNull, fails_bind]
          exact Or.inl hFails

/-- A pointer of the argument vector is cut off by the end of a readable page. -/
def ArgvCut (m : Memory) (uc : UserContext) : Prop :=
  (checkCString m (uc.regs 0)).isSome = true ∧ uc.regs 1 ≠ 0 ∧ ¬PointersWhole m maxArgvLen (uc.regs 1).toInt

theorem execArgs_fails_iff (s : Kernel) (uc : UserContext) : Fails (s.saveUc uc).execArgs ↔ ArgvCut s.mem uc := by
  have hMem : (s.saveUc uc).mem = s.mem := rfl
  unfold execArgs ArgvCut
  rw [reg_saveUc, reg_saveUc, hMem]
  cases hName : checkCString s.mem (uc.regs 0) with
  | none => simp
  | some name =>
      simp only [Option.isSome_some, true_and]
      rw [fails_bind]
      refine (or_iff_left ?_).trans ?_
      · rintro ⟨pointers, -, hFails⟩
        exact not_fails_ok _ hFails
      · unfold checkArgv
        split_ifs with hNull
        · simp [hNull]
        · rw [argvFrom_fails_iff, and_iff_right hNull]

theorem kernelExit_fails_iff {code : Word} : Fails (s.kernelExit code) ↔ (s.pcb s.runningProc).pid = 1 := by
  unfold kernelExit
  dsimp only
  split_ifs with hInit
  · exact iff_of_true (fails_error _) hInit
  · exact iff_of_false (not_fails_ok _) hInit

/-- The loader commits itself to a program whose sections it cannot place. -/
def Unplaced (s : Kernel) (o : Outcomes) (args : List (List Byte)) : Prop :=
  ∃ li text data, LoadProgram.Commits o.file args (o.alloc 0) li text data ∧
    ¬LoadProgram.Placed s.mem.room li (LoadProgram.layout li args) text data

/-- The loader places a program that makes it store where it may not. -/
def Overstores (s : Kernel) (o : Outcomes) (args : List (List Byte)) : Prop :=
  ∃ li text data, LoadProgram.Commits o.file args (o.alloc 0) li text data ∧
    LoadProgram.Placed s.mem.room li (LoadProgram.layout li args) text data ∧
    ¬LoadProgram.Stores li (LoadProgram.layout li args)

/-- The loader places a program and stores all of it. -/
def Loads (s : Kernel) (o : Outcomes) (args : List (List Byte)) : Prop :=
  ∃ li text data, LoadProgram.Commits o.file args (o.alloc 0) li text data ∧
    LoadProgram.Placed s.mem.room li (LoadProgram.layout li args) text data ∧
    LoadProgram.Stores li (LoadProgram.layout li args)

/-- An `Exec` that the kernel does not survive: the argument vector is cut off, the loader
stores where it may not, or the first process is killed. -/
def ExecFatal (s : Kernel) (uc : UserContext) (o : Outcomes) : Prop :=
  ArgvCut s.mem uc ∨ ∃ args, (s.saveUc uc).execArgs = .ok (some args) ∧
    (s.Overstores o args ∨ s.Unplaced o args ∧ (s.pcb s.runningProc).pid = 1)

theorem ExecVerdict.fails_iff {args : List (List Byte)} (h : ExecVerdict s uc o args r) :
    Fails r ↔ s.Overstores o args ∨ s.Unplaced o args ∧ (s.pcb s.runningProc).pid = 1 := by
  cases h with
  | refused hNot =>
      refine iff_of_false (not_fails_ok _) ?_
      rintro (⟨_, _, _, hCommits, -⟩ | ⟨⟨_, _, _, hCommits, -⟩, -⟩)
      · exact hNot _ _ _ hCommits
      · exact hNot _ _ _ hCommits
  | killed hCommits hNot hInit =>
      refine iff_of_false (not_fails_ok _) ?_
      rintro (⟨_, _, _, hAlso, hPlaced, -⟩ | ⟨-, hFirst⟩)
      · obtain ⟨rfl, rfl, rfl⟩ := hCommits.unique hAlso
        exact hNot hPlaced
      · exact hInit hFirst
  | halted hCommits hNot hInit => exact iff_of_true (fails_error _) (Or.inr ⟨⟨_, _, _, hCommits, hNot⟩, hInit⟩)
  | faulted hCommits hPlaced hNot => exact iff_of_true (fails_error _) (Or.inl ⟨_, _, _, hCommits, hPlaced, hNot⟩)
  | loaded hCommits hPlaced hStores =>
      refine iff_of_false (not_fails_ok _) ?_
      rintro (⟨_, _, _, hAlso, -, hNot⟩ | ⟨⟨_, _, _, hAlso, hNot⟩, -⟩)
      · obtain ⟨rfl, rfl, rfl⟩ := hCommits.unique hAlso
        exact hNot hStores
      · obtain ⟨rfl, rfl, rfl⟩ := hCommits.unique hAlso
        exact hNot hPlaced

/-- A trap stops the machine when the call does. -/
theorem step_fails_iff (hUser : s.inUser) (call : Syscall) :
    Fails (s.step (.syscall call uc o)) ↔ Fails ((s.saveUc uc).dispatch call o) := by
  rw [step_syscall hUser]
  refine fails_bind.trans (or_iff_left ?_)
  rintro ⟨_, -, hFails⟩
  exact not_fails_ok _ hFails

theorem kernelExec_fails_iff (run : KernelStart.system.Reachable s) (hUser : s.inUser) :
    Fails ((s.saveUc uc).kernelExec o) ↔ s.ExecFatal uc o := by
  have hCut := execArgs_fails_iff s uc
  unfold ExecFatal
  rw [← hCut]
  cases hArgs : (s.saveUc uc).execArgs with
  | error stop =>
      refine iff_of_true ?_ (Or.inl (fails_error _))
      unfold kernelExec
      rw [hArgs]
      exact fails_error _
  | ok result =>
      rw [or_iff_right (not_fails_ok _)]
      cases result with
      | none =>
          refine iff_of_false ?_ ?_
          · unfold kernelExec
            rw [hArgs]
            exact not_fails_ok _
          · rintro ⟨args, hOther, -⟩
            cases hOther
      | some args =>
          have hVerdict := (KernelStart.execVerdict_step (o := o) run hUser hArgs).fails_iff
          rw [step_fails_iff hUser] at hVerdict
          refine hVerdict.trans ⟨fun h => ⟨args, rfl, h⟩, ?_⟩
          rintro ⟨other, hOther, hFatal⟩
          obtain rfl := Option.some.inj (Except.ok.inj hOther)
          exact hFatal

/-- A `Fork` that the kernel does not survive: it uses a control block it did not get, or
copies a page the caller has not mapped. -/
def ForkFatal (s : Kernel) (uc : UserContext) (o : Outcomes) : Prop :=
  (o.alloc 0 && o.alloc 1 && o.alloc 2 && o.alloc 3) = false ∨
    CopyUnread (s.mem.ctx s.runningProc) s.mem.frames.freeCount uc.sp

theorem kernelFork_fails_iff (run : KernelStart.system.Reachable s) (hUser : s.inUser) :
    Fails ((s.saveUc uc).kernelFork o) ↔ s.ForkFatal uc o := by
  unfold ForkFatal
  by_cases hAlloc : (o.alloc 0 && o.alloc 1 && o.alloc 2 && o.alloc 3) = true
  · have hReady := KernelStart.copyReady_newChild run hUser uc
    have hCopy := ucCopy_fails_iff hReady.wf hReady.child hReady.fresh hReady.data uc.sp
    rw [hReady.ctx, hReady.frames] at hCopy
    rw [kernelFork_saveUc s uc hAlloc, ← hCopy, hAlloc, or_iff_right (by simp)]
    refine fails_bind.trans (or_iff_left ?_)
    rintro ⟨copied, -, hFails⟩
    split_ifs at hFails <;> exact not_fails_ok _ hFails
  · rw [kernelFork_null hAlloc]
    exact iff_of_true (fails_error _) (Or.inl (by simpa using hAlloc))

section Transfers

variable {buf ptr : Word} {len : Nat} {wrote : Bool} {put : Prop}

theorem Fills.wild (h : Fills s buf len wrote r) (hFails : Fails r) : ∃ x, r = .error (.wildStore x) := by
  cases h with
  | @stored bytes f hLen hMem =>
      by_cases hBuf : s.mem.Writable buf.toInt bytes.length
      · obtain ⟨m, hStore⟩ := hBuf.exists_store le_rfl
        rw [hStore] at hFails
        exact absurd hFails (not_fails_ok _)
      · obtain ⟨x, hStore⟩ := Memory.exists_wildStore hBuf
        rw [hStore]
        exact ⟨x, rfl⟩
  | declined | away => exact absurd hFails (not_fails_ok _)

/-- A call that fills its buffer returns if the buffer was checked. -/
theorem Fills.returns (h : Fills s buf len wrote r) (hBuf : wrote = true → s.mem.Writable buf.toInt len) :
    ¬Fails r := by
  intro hFails
  obtain ⟨x, hWild⟩ := h.wild hFails
  exact (h.isolates hBuf).tame x hWild

theorem Puts.fails_iff (h : Puts s ptr put r) : Fails r ↔ ¬s.mem.Writable ptr.toInt 4 ∧ put := by
  cases h with
  | @stored value f hPut hMem =>
      rw [and_iff_left hPut]
      by_cases hBuf : s.mem.Writable ptr.toInt (Memory.wordBytes value).length
      · obtain ⟨m, hStore⟩ := hBuf.exists_store le_rfl
        have hWord : s.mem.storeWord ptr.toInt value = .ok m := hStore
        rw [hWord]
        exact iff_of_false (not_fails_ok _) (not_not.mpr hBuf)
      · obtain ⟨x, hStore⟩ := Memory.exists_wildStore hBuf
        have hWord : s.mem.storeWord ptr.toInt value = .error (.wildStore x) := hStore
        rw [hWord]
        exact iff_of_true (fails_error _) hBuf
  | spared hNot hFills => exact iff_of_false (hFills.returns nofun) fun h => hNot h.2

/-- The bytes of a buffer that was checked can be read. -/
theorem loadBytes_returns (hRead : ∀ x, addr ≤ x → x < addr + len → m.hasPerms x false = true) :
    ¬Fails (m.loadBytes addr len) := by
  induction len generalizing addr with
  | zero => exact not_fails_ok _
  | succ len ih =>
      have hRest : ¬Fails (m.loadBytes (addr + 1) len) :=
        ih fun x hLow hHigh => hRead x (by omega) (by push_cast; omega)
      have hByte : m.loadByte addr = .ok (m.pmem (m.frameOf addr) (Memory.offsetOf addr)) :=
        if_pos (hRead addr le_rfl (by push_cast; omega))
      unfold Memory.loadBytes
      rw [hByte, fails_bind, not_or]
      refine ⟨not_fails_ok _, ?_⟩
      rintro ⟨byte, -, hFails⟩
      rw [fails_bind] at hFails
      rcases hFails with hFails | ⟨rest, -, hFails⟩
      · exact hRest hFails
      · exact not_fails_ok _ hFails

theorem guardBuf_returns {needsWrite : Bool} {body : Except Stop Kernel}
    (hBody : checkCBuf s.mem (s.reg 1) (s.reg 2).toInt needsWrite = true → ¬Fails body) :
    ¬Fails (s.guardBuf needsWrite body) := by
  unfold guardBuf
  split_ifs with hCheck
  · exact hBody hCheck
  · exact not_fails_ok _

/-- The bytes that a write call takes from its caller can be read. -/
theorem loadBytes_guarded {len : Int} (hCheck : checkCBuf m buf len false = true) :
    ¬Fails (m.loadBytes buf.toInt len.toNat) := by
  refine loadBytes_returns fun x hLow hHigh => ?_
  unfold checkCBuf at hCheck
  rw [Bool.and_eq_true, List.all_eq_true] at hCheck
  have hByte := hCheck.2 (x - buf.toInt).toNat (List.mem_range.mpr (by omega))
  have hAddr : buf.toInt + ((x - buf.toInt).toNat : Int) = x := by omega
  rwa [hAddr] at hByte

theorem kernelTtyWrite_returns (s : Kernel) (o : Outcomes) : ¬Fails (s.kernelTtyWrite o) := by
  refine guardBuf_returns fun hCheck => ?_
  unfold kernelTtyWriteImpl
  dsimp only
  split_ifs
  · exact not_fails_ok _
  · exact not_fails_ok _
  · exact not_fails_ok _
  · rw [fails_bind, not_or]
    exact ⟨loadBytes_guarded hCheck, fun ⟨_, _, hFails⟩ => not_fails_ok _ hFails⟩

theorem kernelPipeWrite_returns (s : Kernel) (o : Outcomes) : ¬Fails (s.kernelPipeWrite o) := by
  refine guardBuf_returns fun hCheck => ?_
  unfold pipeWriteImpl
  dsimp only
  split_ifs
  · exact not_fails_ok _
  · exact not_fails_ok _
  · split
    · exact not_fails_ok _
    · rw [fails_bind, not_or]
      exact ⟨loadBytes_guarded hCheck, fun ⟨_, _, hFails⟩ => not_fails_ok _ hFails⟩

theorem kernelTtyRead_returns (s : Kernel) : ¬Fails s.kernelTtyRead := by
  obtain ⟨wrote, hFills, hBuf⟩ := fills_guardBuf (fills_kernelTtyReadImpl s)
  exact hFills.returns hBuf

theorem kernelPipeRead_returns (s : Kernel) : ¬Fails s.kernelPipeRead := by
  obtain ⟨wrote, hFills, hBuf⟩ := fills_guardBuf (fills_pipeReadImpl s)
  exact hFills.returns hBuf

end Transfers

/-- The event can happen: a user process runs, a trap is not inside another one, and a
switch is completed before anything else. -/
def Enabled (s : Kernel) : Label → Prop
  | .syscall _ _ _ | .math | .illegal | .memory _ => s.inUser
  | .clock _ _ | .ttyTransmit _ _ => s.mode = .user
  | .ttyReceive _ _ line _ => s.mode = .user ∧ line.length ≤ terminalMaxLine
  | .resume _ => s.mode = .resuming
  | .heap _ => True
  | .userStore addr _ => s.inUser ∧ s.mem.hasPerms addr true = true

/-- The process that was switched to cannot be continued, cannot be loaded, or stores the
result of its `Wait` where it may not write. -/
def ResumeFatal (s : Kernel) (o : Outcomes) : Prop :=
  s.Live s.runningProc ∧ ¬s.HasStack s.runningProc ∨
    (s.pcb s.runningProc).kc = some .boot ∧ ¬s.Loads o cmdArgs ∨
    s.Overreaches (.resume o)

/-- The kernel does not survive the event. -/
def Fatal (s : Kernel) : Label → Prop
  | .syscall .exit _ _ | .math | .illegal => (s.pcb s.runningProc).pid = 1
  | .memory uc => (s.pcb s.runningProc).pid = 1 ∧ (expandStack s.mem uc.addr).2 = false
  | .syscall .fork uc o => s.ForkFatal uc o
  | .syscall .exec uc o => s.ExecFatal uc o
  | .resume o => s.ResumeFatal o
  | label => s.Overreaches label

theorem dispatch_fails_iff (run : KernelStart.system.Reachable s) (hUser : s.inUser) (call : Syscall) :
    Fails ((s.saveUc uc).dispatch call o) ↔ s.Fatal (.syscall call uc o) := by
  have hReg := reg_saveUc s uc
  cases call with
  | exit =>
      refine kernelExit_fails_iff.trans ?_
      show _ ↔ (s.pcb s.runningProc).pid = 1
      simp [saveUc, modifyPcb]
  | fork => exact kernelFork_fails_iff run hUser
  | exec => exact kernelExec_fails_iff run hUser
  | wait =>
      by_cases hNull : uc.regs 0 = 0
      · refine iff_of_false (fun hFails => ?_) fun h => h.2.2.1 hNull
        have hReturns : ¬Fails ((s.saveUc uc).kernelWait o) := by
          unfold kernelWait
          dsimp only
          rw [hReg]
          split
          · exact not_fails_ok _
          · rw [if_pos hNull]
            exact not_fails_ok _
        exact hReturns hFails
      · have hPuts := puts_kernelWait (s := s.saveUc uc) (o := o) (by rwa [hReg])
        rw [hReg, exitedChildIdx_saveUc] at hPuts
        refine hPuts.fails_iff.trans (Iff.trans ?_ (and_iff_right hUser).symm)
        exact and_congr_right fun _ => (and_iff_right hNull).symm
  | lockInit =>
      have hPuts := puts_kernelLockInit (s := s.saveUc uc) (o := o)
      simp only [hReg] at hPuts
      exact hPuts.fails_iff.trans (and_iff_right hUser).symm
  | semInit =>
      have hPuts := puts_kernelSemInit (s := s.saveUc uc) (o := o)
      simp only [hReg] at hPuts
      exact hPuts.fails_iff.trans (and_iff_right hUser).symm
  | cvarInit =>
      have hPuts := puts_kernelCvarInit (s := s.saveUc uc) (o := o)
      simp only [hReg] at hPuts
      exact hPuts.fails_iff.trans (and_iff_right hUser).symm
  | pipeInit =>
      have hPuts := puts_kernelPipeInit (s := s.saveUc uc) (o := o)
      simp only [hReg] at hPuts
      exact hPuts.fails_iff.trans (and_iff_right hUser).symm
  | ttyRead => exact iff_of_false (kernelTtyRead_returns _) id
  | pipeRead => exact iff_of_false (kernelPipeRead_returns _) id
  | ttyWrite => exact iff_of_false (kernelTtyWrite_returns _ o) id
  | pipeWrite => exact iff_of_false (kernelPipeWrite_returns _ o) id
  | _ => exact iff_of_false (not_fails_ok _) id

/-- A process that continues a read finds its buffer as it was when it was checked. -/
theorem reader_returns {kc : KernelContext} {buf : Word} {len : Nat} {wrote : Bool}
    (run : KernelStart.system.Reachable s)
    (hMode : s.mode = .resuming) (hKc : (s.pcb s.runningProc).kc = some kc)
    (hReads : kc.reads (s.pcb s.runningProc).request = some (buf, len))
    (hFills : Fills { s with mode := .user } buf len wrote (({ s with mode := .user } : Kernel).continueAt kc o)) :
    ¬Fails (({ s with mode := .user } : Kernel).continueAt kc o) := by
  intro hFails
  obtain ⟨x, hWild⟩ := hFills.wild hFails
  have hNotWait : kc ≠ .wait := by
    rintro rfl
    cases hReads
  have hContained : s.Contained (.resume o) := by
    refine (contained_resume (KernelStart.granted_reachable run) (KernelStart.sound_reachable run)
      (KernelStart.served_reachable run)).mpr fun hOver => hNotWait ?_
    exact Option.some.inj (hKc.symm.trans hOver.2.1)
  have hBuffer : s.buffer (.resume o) = some (buf, len) := by
    simp only [Kernel.buffer, Pcb.buffer, hKc]
    cases kc with
    | wait => exact absurd rfl hNotWait
    | _ => exact hReads
  have hStep : s.step (.resume o) = .error (.wildStore x) := by
    simp only [Kernel.step, if_pos hMode, resume, hKc, hWild]
    rfl
  exact (hContained buf len hBuffer).tame x hStep

/-- The first process runs if its program is loaded. -/
theorem bootReturn_fails_iff (hWf : s.mem.frames.Wf) (hOwned : Mapping.Owned region1Vpns s.mem.userMapping) :
    Fails (s.bootReturn o) ↔ ¬s.Loads o cmdArgs := by
  have hSuccess := (LoadProgram.loadProgram_verdict hWf (s.pcb s.runningProc).uc o.file cmdArgs (o.alloc 0)).success_iff
  rw [Memory.freeCount_deallocateRegion1 hWf hOwned] at hSuccess
  unfold Loads bootReturn
  dsimp only
  rw [← hSuccess]
  cases LoadProgram.loadProgram s.mem (s.pcb s.runningProc).uc o.file cmdArgs (o.alloc 0) with
  | error stop => exact iff_of_true (fails_error stop) (by simp)
  | ok loaded =>
      cases hResult : loaded.result with
      | success =>
          refine iff_of_false ?_ (not_not.mpr ⟨loaded, rfl, hResult⟩)
          simp only [bind, Except.bind, hResult]
          exact not_fails_ok _
      | error | kill =>
          refine iff_of_true ?_ ?_
          · simp only [bind, Except.bind, hResult]
            exact fails_error _
          · rintro ⟨other, hOther, hSuccess⟩
            obtain rfl := Except.ok.inj hOther
            rw [hResult] at hSuccess
            cases hSuccess

theorem resume_fails_iff (run : KernelStart.system.Reachable s) (hPos : 0 < kStackVpns) (hMode : s.mode = .resuming) :
    Fails (s.resume o) ↔ s.ResumeFatal o := by
  have hStacked := KernelStart.stacked_reachable hPos run
  unfold ResumeFatal resume
  cases hKc : (s.pcb s.runningProc).kc with
  | none =>
      have hLive := (KernelStart.live_resuming run hPos hMode).resolve_right (not_not.mpr hKc)
      exact iff_of_true (fails_error _)
        (Or.inl ⟨hLive, fun hStack => (hStacked.saved _ hLive).mpr hStack hKc⟩)
  | some kc =>
      have hStack : ¬(s.Live s.runningProc ∧ ¬s.HasStack s.runningProc) := fun h =>
        h.2 ((hStacked.saved _ h.1).mp (by simp [hKc]))
      have hContinue : Fails (do
          let t ← ({ s with mode := .user } : Kernel).continueAt kc o
          return t.leave) ↔ Fails (({ s with mode := .user } : Kernel).continueAt kc o) :=
        fails_bind.trans (or_iff_left fun ⟨_, _, hFails⟩ => not_fails_ok _ hFails)
      rw [or_iff_right hStack]
      refine hContinue.trans ?_
      have hOver : s.Overreaches (.resume o) ↔ kc = .wait ∧
          ¬s.mem.Writable ((s.pcb s.runningProc).uc.regs 0).toInt 4 ∧ (s.pcb s.runningProc).uc.regs 0 ≠ 0 := by
        simp only [Overreaches, hMode, hKc, true_and, Option.some.injEq]
      rw [hOver]
      cases kc with
      | boot =>
          simp only [reduceCtorEq, false_and, or_false, true_and]
          have hWf := KernelStart.wf_reachable run
          have hOwned := KernelStart.owned_reachable run
          exact bootReturn_fails_iff (s := { s with mode := .user }) hWf hOwned
      | wait =>
          simp only [reduceCtorEq, Option.some.injEq, false_and, false_or, true_and]
          by_cases hNull : (s.pcb s.runningProc).uc.regs 0 = 0
          · have hReturns : ({ s with mode := .user } : Kernel).waitReturn =
                .ok (({ s with mode := .user } : Kernel).ret 0) := if_pos hNull
            simp only [continueAt, hReturns]
            exact iff_of_false (not_fails_ok _) fun h => h.2 hNull
          · have hPuts := puts_waitReturn (s := { s with mode := .user }) hNull
            exact hPuts.fails_iff.trans (and_congr_right fun _ => iff_of_true trivial hNull)
      | pipeRead id buf len =>
          obtain ⟨wrote, hFills⟩ := fills_pipeReadLoop { s with mode := .user } id buf len
          exact iff_of_false (reader_returns run hMode hKc rfl hFills) (by simp)
      | ttyRead id =>
          have hFills := fills_consumeIntoUser { s with mode := .user } id (s.pcb s.runningProc).ioUserBuf
            (s.pcb s.runningProc).ioLen
          exact iff_of_false (reader_returns run hMode hKc rfl hFills) (by simp)
      | _ => exact iff_of_false (not_fails_ok _) (by simp)

theorem trapMemoryHandler_fails_iff : Fails (s.trapMemoryHandler uc) ↔ s.Fatal (.memory uc) := by
  unfold trapMemoryHandler
  dsimp only
  split_ifs with hGrown
  · exact iff_of_false (not_fails_ok _) fun h => Bool.false_ne_true (h.2.symm.trans hGrown)
  · rw [kernelExit_fails_iff]
    exact (and_iff_left (by simpa using hGrown)).symm

theorem enabled_of_step (hStep : s.step label = .ok t) : s.Enabled label := by
  cases label with
  | heap addr => trivial
  | _ =>
      simp only [step] at hStep
      split_ifs at hStep with hGuard
      exact hGuard

end Kernel

namespace KernelStart

open Kernel

end KernelStart
end Yalnix
