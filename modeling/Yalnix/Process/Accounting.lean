import Yalnix.Memory.Accounting
import Yalnix.Process.ForkOutcome
import Yalnix.Process.HeapRuns
import Yalnix.Process.Isolation

/-! Frames over whole runs. As long as the calls map pages only where nothing is mapped,
every frame in use is mapped somewhere, and what a process holds is free again when it
has exited. -/
namespace Yalnix

open Hardware KernelMemory UserMemory Transition

section Space

variable [Hardware] {who gone : Proc → Prop} {label : Label} {passes : List (List Byte) → Prop} {x y : Space}

theorem Memory.Fits.heapMoves {m : Memory} (h : m.Fits) (brk : List Word) : (Kernel.heapMoves m brk).Fits := by
  obtain ⟨frames, table, page, hEq⟩ := heapMoves_eq m brk
  rw [hEq]
  exact h.same (fun _ => rfl) rfl

theorem Memory.Fits.create (h : x.mem.Fits) : x.create.mem.Fits where
  user proc i hValid := by
    by_cases hProc : proc = x.numPcbs
    · subst hProc
      simp [Space.create, MemCtx.blank, Pte.blank] at hValid
    · simp only [Space.create, Function.update_of_ne hProc] at hValid
      exact h.user proc i hValid
  stack proc i hValid := by
    by_cases hProc : proc = x.numPcbs
    · subst hProc
      simp [Space.create, Pte.blank] at hValid
    · simp only [Space.create, Function.update_of_ne hProc] at hValid
      exact h.stack proc i hValid

theorem Memory.Fits.exitTo (h : x.mem.Fits) (next : Proc) : (x.exitTo next).mem.Fits := by
  have hRegion := (steps_deallocateRegion1 x.mem).fits h
  have hStack : (deallocateKernelStack (deallocateRegion1 x.mem)).Fits := by
    rw [deallocateKernelStack_eq]
    exact fits_destroyPt hRegion _ _ _
  exact hStack.same (fun _ => rfl) rfl

/-- No trap makes an entry beyond the end of a table valid. -/
theorem Space.Deed.fits (h : Space.Deed gone label passes x y) (hServed : x.Served) (hEnabled : x.mem.vmEnabled = true)
    (hWf : x.mem.frames.Wf) (hFits : x.mem.Fits) : y.mem.Fits := by
  cases h with
  | move h =>
      cases h with
      | none => exact hFits
      | store hStore => exact (steps_storeBytes hStore).fits hFits
      | switch next => exact hFits.same (fun _ => rfl) rfl
  | brk hCall => exact (steps_kernelBrkImpl x.mem _ _).fits hFits
  | grow hCall hGrown => exact (steps_expandStack x.mem _).fits hFits
  | overflow hCall hFailed hGone next => exact Memory.Fits.exitTo ((steps_expandStack x.mem _).fits hFits) next
  | load hCall hArgs hLoad hLives => exact (LoadProgram.steps_loadProgram hLoad).fits hFits
  | kill hCall hArgs hLoad hKill hGone next =>
      exact Memory.Fits.exitTo ((LoadProgram.steps_loadProgram hLoad).fits hFits) next
  | refuse hCall hCopy hGone => exact fits_ucCopy hFits.create hCopy
  | @fork uc o mem hCall hCopy =>
      have hStart : Spared (fun _ => True) ∅ x.create.mem x.create.mem := .none hWf
      have hSide := kernelSide_ucCopy hCopy
      obtain ⟨hMoved, hOn, hBounds⟩ := spared_heapMoves (spared_ucCopy hCopy hStart trivial trivial)
        ((congrArg KernelSide.vmEnabled hSide).trans hEnabled)
        (hServed.bounds.of_brk (congrArg KernelSide.currentBrkPage hSide)) o.brk
      exact fits_kcCopy ((fits_ucCopy hFits.create hCopy).heapMoves o.brk) hOn hMoved.wf hBounds _
  | exit hGone next => exact hFits.exitTo next
  | heap addr => exact fits_setKernelBrk hFits addr

theorem accounted_heapMoves {m : Memory} (h : Accounted who m) (hClear : m.HeapClear) (hEnabled : m.vmEnabled = true)
    (hBounds : m.HeapBounds) (brk : List Word) :
    Accounted who (Kernel.heapMoves m brk) ∧ (Kernel.heapMoves m brk).HeapClear := by
  induction brk generalizing m with
  | nil => exact ⟨h, hClear⟩
  | cons addr brk ih =>
      obtain ⟨frames, table, page, hEq⟩ := setKernelBrk_eq m addr
      obtain ⟨hMoved, hMovedClear⟩ := accounted_setKernelBrk h hClear hEnabled hBounds addr
      exact ih hMoved hMovedClear ((congrArg Memory.vmEnabled hEq).trans hEnabled)
        (heapBounds_setKernelBrk hBounds addr)

/-- The process that exits gives back everything it holds. -/
theorem Space.accounted_exitTo (h : Accounted who x.mem) (hFits : x.mem.Fits) (hServed : x.Served)
    (hWho : who x.runningProc) (next : Proc) : Accounted (fun p => who p ∧ p ≠ x.runningProc) (x.exitTo next).mem := by
  have hActive : x.mem.active = x.runningProc := hServed.current.active
  obtain ⟨y, hEq, hCleared⟩ := deallocateRegion1_eq h.wf
  have hRegion : Accounted who (deallocateRegion1 x.mem) := hEq ▸ h.user (hActive ▸ hWho) hCleared.tidy
  have hSteps := steps_deallocateRegion1 x.mem
  have hCurrent : (deallocateRegion1 x.mem).Current x.runningProc :=
    hServed.current.of_installed x.mem.currentBrkPage (Memory.installed_of_kernelSide hSteps.kernelSide _)
  refine accounted_switch (accounted_deallocateKernelStack hRegion (hSteps.fits hFits) hCurrent fun i => ?_) next
  by_contra hValid
  rw [Bool.not_eq_false] at hValid
  obtain ⟨hLow, hHigh⟩ := (hSteps.fits hFits).user _ i hValid
  have hTable : ((deallocateRegion1 x.mem).ctx x.runningProc).region1Pt = y.table := by
    rw [hEq, ← hActive]
    exact congrArg Mapping.table (Memory.userMapping_withUser x.mem y)
  rw [hTable, hCleared.entry i hLow hHigh] at hValid
  cases hValid

theorem Space.heapClear_exitTo (h : x.mem.HeapClear) (next : Proc) : (x.exitTo next).mem.HeapClear := by
  have hSide := (kernelSide_deallocateKernelStack (deallocateRegion1 x.mem)).trans
    (steps_deallocateRegion1 x.mem).kernelSide
  have hFreed : (deallocateKernelStack (deallocateRegion1 x.mem)).HeapClear := h.of_kernelSide hSide
  exact hFreed.switch next

/-- The trap maps pages only where nothing is mapped: a growing heap does not run into
the stack or out of region 1, the page at the break is free to copy pages in a fork, and
the segments of a program are apart. -/
structure Space.MapsClear (label : Label) (passes : List (List Byte) → Prop) (m : Memory) : Prop where
  brk : ∀ uc o, label = .syscall .brk uc o →
    BrkRejected m (uc.regs 0) uc.sp ∨ RoomAtBreak m (pageNumber (upToPage (uc.regs 0)))
  fork : ∀ uc o, label = .syscall .fork uc o → ScratchFree (m.ctx m.active) uc.sp
  load : ∀ li text data args, label.loads = some (.image li text data) → passes args →
    LoadProgram.SegmentsApart li (LoadProgram.layout li args)

/-- What is known of the memory before a trap. -/
structure Space.Tidy (who : Proc → Prop) (x : Space) : Prop where
  served : x.Served
  enabled : x.mem.vmEnabled = true
  clear : x.mem.HeapClear
  accounted : Accounted who x.mem
  running : who x.runningProc
  new : x.runningProc < x.numPcbs ∧ ¬who x.numPcbs

/-- A control block that nobody counts is cleared. -/
theorem Space.accounted_create (h : Accounted who x.mem) (hNew : ¬who x.numPcbs) : Accounted who x.create.mem := by
  refine h.keep (fun owner pfn hOwner => ⟨hOwner.1, ?_⟩) subset_rfl h.wf
  suffices hSame : x.create.mem.entry owner = x.mem.entry owner from hSame ▸ hOwner.2
  cases owner with
  | heap vpn => rfl
  | stack proc i =>
      have hOther : proc ≠ x.numPcbs := fun hIs => hNew (hIs ▸ hOwner.1)
      exact congrFun (Function.update_of_ne hOther _ _) i
  | user proc i =>
      have hOther : proc ≠ x.numPcbs := fun hIs => hNew (hIs ▸ hOwner.1)
      simp [Memory.entry, Space.create, hOther]

/-- A trap that the process which runs survives leaves no frame behind. The child of a
fork that is carried out counts as well. -/
theorem Space.Deed.accounted {after : Proc → Prop} (h : Space.Deed gone label passes x y) (hTidy : x.Tidy who)
    (hMaps : Space.MapsClear label passes x.mem)
    (hReady : ∀ call uc o, label = .syscall call uc o → (x.mem.ctx x.mem.active).Ready)
    (hStays : ¬gone x.runningProc) (hAfter : ∀ p, who p → after p)
    (hFork : ∀ uc o mem, label = .syscall .fork uc o →
      ucCopy x.create.mem uc.sp x.numPcbs = .ok (mem, true) → after x.numPcbs) :
    Accounted after y.mem ∧ y.mem.HeapClear := by
  obtain ⟨hServed, hEnabled, hClear, hAccounted, hRunning, hNew⟩ := hTidy
  have hActive : x.mem.active = x.runningProc := hServed.current.active
  have hWho : who x.mem.active := hActive ▸ hRunning
  have hUser {m : Memory} (hSteps : UserMemory.Steps x.mem m) (hm : Accounted who m) : Accounted after m ∧ m.HeapClear :=
    ⟨hm.mono hAfter, hClear.of_kernelSide hSteps.kernelSide⟩
  have hCopied {uc : UserContext} {o : Outcomes} {mem : Memory} {ok : Bool} (hCall : label = .syscall .fork uc o)
      (hCopy : ucCopy x.create.mem uc.sp x.numPcbs = .ok (mem, ok)) (hChild : ok = true → after x.numPcbs) :
      Accounted after mem ∧ mem.HeapClear ∧ ∀ i, (mem.ksPt x.numPcbs i).valid = false := by
    have hOther : x.numPcbs ≠ x.mem.active := fun hSame => hNew.1.ne (hActive ▸ hSame.symm)
    have hSame : x.create.mem.ctx x.mem.active = x.mem.ctx x.mem.active := Function.update_of_ne hOther.symm _ _
    have hBlank : x.create.mem.ctx x.numPcbs = .blank := Function.update_self _ _ _
    have hSide := kernelSide_ucCopy hCopy
    have hHeap := hReady _ _ _ hCall
    have hDone := accounted_ucCopy (accounted_create hAccounted hNew.2) hOther (fun i => by rw [hBlank]; rfl)
      (show (x.create.mem.ctx x.mem.active).dataStartPage ≤ (x.create.mem.ctx x.mem.active).currBrkPage by
        rw [hSame]
        exact hHeap.data.trans hHeap.order)
      (show ScratchFree (x.create.mem.ctx x.mem.active) uc.sp by
        rw [hSame]
        exact hMaps.fork uc o hCall) hCopy
    refine ⟨hDone.mono ?_, hClear.congr (congrArg KernelSide.currentBrkPage hSide)
      (fun vpn _ => congrFun (congrArg KernelSide.region0Pt hSide) vpn), fun i => ?_⟩
    · rintro p (hp | ⟨rfl, hOk⟩)
      · exact hAfter p hp
      · exact hChild hOk
    · rw [show mem.ksPt = x.create.mem.ksPt from congrArg KernelSide.ksPt hSide]
      simp [Space.create, Pte.blank]
  cases h with
  | move h =>
      cases h with
      | none => exact ⟨hAccounted.mono hAfter, hClear⟩
      | store hStore => exact hUser (steps_storeBytes hStore) (hAccounted.storeBytes hStore)
      | switch next => exact ⟨(accounted_switch hAccounted next).mono hAfter, hClear.switch next⟩
  | brk hCall =>
      exact hUser (steps_kernelBrkImpl x.mem _ _)
        (accounted_kernelBrkImpl hAccounted hWho (hReady _ _ _ hCall) (hMaps.brk _ _ hCall))
  | grow hCall hGrown => exact hUser (steps_expandStack x.mem _) (accounted_expandStack hAccounted hWho _)
  | load hCall hArgs hLoad hLives =>
      refine hUser (LoadProgram.steps_loadProgram hLoad) (LoadProgram.accounted_loadProgram hAccounted hWho ?_ hLoad)
      rintro li text data rfl
      exact hMaps.load li text data _ hCall hArgs
  | refuse hCall hCopy hGone =>
      obtain ⟨hLeft, hLeftClear, -⟩ := hCopied hCall hCopy (fun hOk => by cases hOk)
      exact ⟨hLeft, hLeftClear⟩
  | @fork uc o mem hCall hCopy =>
      obtain ⟨hLeft, hLeftClear, hFresh⟩ := hCopied hCall hCopy fun _ => hFork uc o mem hCall hCopy
      have hSide := kernelSide_ucCopy hCopy
      have hOn : mem.vmEnabled = true := (congrArg KernelSide.vmEnabled hSide).trans hEnabled
      have hBounds : mem.HeapBounds := hServed.bounds.of_brk (congrArg KernelSide.currentBrkPage hSide)
      obtain ⟨hMoved, hMovedClear⟩ := accounted_heapMoves hLeft hLeftClear hOn hBounds o.brk
      obtain ⟨-, hMovedOn, hMovedBounds⟩ := spared_heapMoves (.none hLeft.wf : Spared (fun _ => True) ∅ mem mem) hOn
        hBounds o.brk
      obtain ⟨frames, table, page, hEq⟩ := heapMoves_eq mem o.brk
      refine accounted_kcCopy hMoved hMovedClear hMovedOn hMovedBounds (hFork uc o mem hCall hCopy) fun i => ?_
      rw [hEq]
      exact hFresh i
  | heap addr =>
      obtain ⟨hMoved, hMovedClear⟩ := accounted_setKernelBrk hAccounted hClear hEnabled hServed.bounds addr
      exact ⟨hMoved.mono hAfter, hMovedClear⟩
  | exit hGone next => exact absurd hGone hStays
  | overflow hCall hFailed hGone next => exact absurd hGone hStays
  | kill hCall hArgs hLoad hKill hGone next => exact absurd hGone hStays

end Space

namespace Kernel

variable [Hardware] {s t : Kernel} {label : Label} {p : Proc}

/-- What a trap does to the memory that ends with the exit of its process. -/
inductive Departure (label : Label) (passes : List (List Byte) → Prop) (x : Space) : Space → Prop where
  | exit (next : Proc) : Departure label passes x (x.exitTo next)
  | kill {uc : UserContext} {file : LoadProgram.File} {args : List (List Byte)} {argsOk : Bool}
      {loaded : LoadProgram.Outcome} (hCall : label.loads = some file) (hArgs : passes args)
      (h : LoadProgram.loadProgram x.mem uc file args argsOk = .ok loaded) (next : Proc) :
      Departure label passes x (Space.exitTo { x with mem := loaded.mem } next)

omit [Hardware] in
theorem gone_of_quiet [Hardware] (h : Quiet s t) : t.Gone p ↔ s.Gone p := by
  unfold Gone
  rw [h.numPcbs, h.idleProc, h.live_iff]

omit [Hardware] in
theorem gone_leave [Hardware] : s.leave.Gone p ↔ s.Gone p := by
  unfold Kernel.leave
  split <;> rfl

theorem departure_exec {uc : UserContext} {o : Outcomes} (hCall : label = .syscall .exec uc o)
    {passes : List (List Byte) → Prop} (hArgs : ∀ args, s.execArgs = .ok (some args) → passes args)
    (hHere : ¬s.Gone s.runningProc) (hGone : t.Gone s.runningProc) (h : s.kernelExec o = .ok t) :
    Departure label passes s.space t.space := by
  obtain ⟨args, hChecked, h⟩ := bind_eq_ok.mp h
  cases args with
  | none =>
      obtain rfl := Except.ok.inj h
      exact absurd ((gone_of_quiet (Silent.ret s _).toQuiet).mp hGone) hHere
  | some args =>
      obtain ⟨loaded, hLoad, h⟩ := bind_eq_ok.mp h
      have hQuiet : Silent s ((s.setMem loaded.mem).modifyPcb s.runningProc fun p => { p with uc := loaded.uc }) :=
        (Silent.setMem s _).trans (Silent.saveUc _ _)
      cases hResult : loaded.result with
      | success =>
          simp only [hResult] at h
          obtain rfl := Except.ok.inj h
          exact absurd ((gone_of_quiet hQuiet.toQuiet).mp hGone) hHere
      | error =>
          simp only [hResult] at h
          obtain rfl := Except.ok.inj h
          exact absurd ((gone_of_quiet (hQuiet.trans (Silent.ret _ _)).toQuiet).mp hGone) hHere
      | kill =>
          simp only [hResult] at h
          rw [space_kernelExit h]
          exact .kill (by rw [hCall]; rfl) (hArgs args hChecked) hLoad _

/-- A process that is gone after its own trap has given back what it held. -/
theorem departure_step (hSound : KernelStart.Sound s) (hGone : t.Gone s.runningProc) (h : s.step label = .ok t) :
    Departure label (s.Passes label) s.space t.space := by
  have hHere : ¬s.Gone s.runningProc := (KernelStart.fates_gone hSound).running
  have hLives (hCall : label.exits = false) : False := by
    have hIdle : s.runningProc ≠ s.idleProc := (outlived_step hSound h).idle ▸ hGone.2.1
    have hLive : s.Live s.runningProc := not_not.mp fun hDead => hHere ⟨hSound.running_lt, hIdle, hDead⟩
    exact hGone.2.2 (live_step hSound hLive (fun hExits => by simp [hCall] at hExits) h)
  cases label with
  | syscall call uc o =>
      cases call with
      | exit =>
          simp only [step] at h
          split_ifs at h
          obtain ⟨done, hDone, h⟩ := bind_eq_ok.mp h
          obtain rfl := Except.ok.inj h
          rw [space_leave, space_kernelExit hDone]
          exact .exit _
      | exec =>
          simp only [step] at h
          split_ifs at h
          obtain ⟨done, hDone, h⟩ := bind_eq_ok.mp h
          obtain rfl := Except.ok.inj h
          rw [space_leave]
          refine departure_exec (s := s.saveUc uc) rfl (fun args hArgs => hArgs) ?_ (gone_leave.mp hGone) hDone
          exact fun hBefore => hHere ((gone_of_quiet (Silent.saveUc s uc).toQuiet).mp hBefore)
      | _ => exact (hLives rfl).elim
  | math | illegal =>
      simp only [step] at h
      split_ifs at h
      rw [space_kernelExit h]
      exact .exit _
  | memory uc =>
      simp only [step] at h
      split_ifs at h
      unfold trapMemoryHandler at h
      dsimp only at h
      split_ifs at h with hGrown
      · obtain rfl := Except.ok.inj h
        have hQuiet := (Silent.setMem s (expandStack s.mem uc.addr).1).trans (Silent.setUc _ uc)
        exact absurd ((gone_of_quiet hQuiet.toQuiet).mp hGone) hHere
      · have hSame : (expandStack s.mem uc.addr).1 = s.mem := by
          unfold expandStack at hGrown ⊢
          dsimp only at hGrown ⊢
          split_ifs at hGrown ⊢
          all_goals first | rfl | exact absurd rfl hGrown
        rw [space_kernelExit h, hSame]
        exact .exit (x := s.space) _
  | _ => exact (hLives rfl).elim

/-- A fork whose copy succeeds has a child. -/
theorem live_fork {uc : UserContext} {o : Outcomes} {mem : Memory} (hSound : KernelStart.Sound s)
    (h : s.step (.syscall .fork uc o) = .ok t) (hCopy : ucCopy s.space.create.mem uc.sp s.numPcbs = .ok (mem, true)) :
    t.Live s.numPcbs := by
  have hUser : s.inUser := by
    by_contra hNot
    simp [step, hNot] at h
  have hLive := hSound.settled.live_running hUser
  rw [step_fork hUser] at h
  by_cases hAlloc : (o.alloc 0 && o.alloc 1 && o.alloc 2 && o.alloc 3) = true
  · have hCopied : ucCopy (s.newChild uc).mem uc.sp s.numPcbs = .ok (mem, true) := by
      rw [newChild_mem]
      exact hCopy
    have hFork : (s.saveUc uc).kernelFork o = .ok ((s.copiedChild uc mem).forkCommit s.numPcbs o) := by
      rw [kernelFork_saveUc s uc hAlloc, hCopied]
      rfl
    rw [hFork] at h
    obtain rfl := Except.ok.inj h
    have hChild := live_forkCommit hLive hSound.contexts.idle_lt.ne' hFork
    unfold Kernel.leave
    split <;> exact hChild
  · rw [kernelFork_null hAlloc] at h
    cases h

/-- Every frame in use is mapped. -/
structure AllHeld (s : Kernel) : Prop where
  accounted : Accounted s.Present s.mem
  clear : s.mem.HeapClear

/-- The trap maps pages only where nothing is mapped. -/
def MapsClear (s : Kernel) (label : Label) : Prop := Space.MapsClear label (s.Passes label) s.mem

theorem present_step (hSound : KernelStart.Sound s) (h : s.step label = .ok t) (hp : s.Present p)
    (hStays : p = s.runningProc → ¬t.Gone p) : t.Present p := by
  have hOutlived := outlived_step hSound h
  refine ⟨hp.1.trans_le hOutlived.size, fun hGone => ?_⟩
  by_cases hSame : p = s.runningProc
  · exact hStays hSame hGone
  · have hIdle : p ≠ s.idleProc := hOutlived.idle ▸ hGone.2.1
    have hLive : s.Live p := not_not.mp fun hDead => hp.2 ⟨hp.1, hIdle, hDead⟩
    exact hGone.2.2 (live_step hSound hLive (fun _ => hSame) h)

theorem AllHeld.tidy (h : s.AllHeld) (run : KernelStart.system.Reachable s) : s.space.Tidy s.Present := by
  have hSound := KernelStart.sound_reachable run
  have hGuarded := KernelStart.guarded_reachable run
  exact {
    served := hGuarded.served
    enabled := hGuarded.enabled
    clear := h.clear
    accounted := h.accounted
    running := ⟨hSound.running_lt, (KernelStart.fates_gone hSound).running⟩
    new := ⟨hSound.running_lt, fun hNew => Nat.lt_irrefl _ hNew.1⟩ }

theorem AllHeld.step (h : s.AllHeld) (run : KernelStart.system.Reachable s) (hFits : s.mem.Fits)
    (hMaps : s.MapsClear label) (hStep : s.step label = .ok t) : t.AllHeld := by
  have hSound := KernelStart.sound_reachable run
  have hTidy := h.tidy run
  have hDeed := deed_step hSound.running_lt hSound.contexts.idle_lt hStep
  by_cases hGone : t.Gone s.runningProc
  · have hLeft {x : Space} (hx : Accounted s.Present x.mem) (hClear : x.mem.HeapClear) (hxFits : x.mem.Fits)
        (hServed : x.Served) (hSame : x.runningProc = s.runningProc) (next : Proc) (hEnd : t.mem = (x.exitTo next).mem) :
        t.AllHeld := by
      have hExit := Space.accounted_exitTo hx hxFits hServed (hSame ▸ hTidy.running) next
      refine ⟨?_, hEnd ▸ Space.heapClear_exitTo hClear next⟩
      rw [hEnd]
      exact hExit.mono fun p hp => present_step hSound hStep hp.1 fun hIs => absurd (hIs.trans hSame.symm) hp.2
    have hDeparture := departure_step hSound hGone hStep
    generalize hEnd : t.space = y at hDeparture
    cases hDeparture with
    | exit next => exact hLeft (x := s.space) h.accounted h.clear hFits hTidy.served rfl next (congrArg Space.mem hEnd)
    | kill hCall hArgs hLoad next =>
        have hSteps := LoadProgram.steps_loadProgram hLoad
        have hActive : s.Present s.mem.active := hTidy.served.current.active ▸ hTidy.running
        refine hLeft (LoadProgram.accounted_loadProgram h.accounted hActive ?_ hLoad)
          (h.clear.of_kernelSide hSteps.kernelSide) (hSteps.fits hFits)
          (hTidy.served.of_kernelSide hSteps.kernelSide) rfl next (congrArg Space.mem hEnd)
        rintro li text data rfl
        exact hMaps.load li text data _ hCall hArgs
  · obtain ⟨hAccounted, hClear⟩ : Accounted t.Present t.mem ∧ t.mem.HeapClear := hDeed.accounted hTidy hMaps
      (fun call uc o hCall => by
        subst hCall
        refine KernelStart.ready_running run ?_
        by_contra hNot
        cases call <;> simp [Kernel.step, hNot] at hStep)
      hGone (fun p hp => present_step hSound hStep hp fun hIs => hIs ▸ hGone)
      (fun uc o mem hCall hCopy => by
        subst hCall
        have hLive := live_fork hSound hStep hCopy
        exact ⟨hLive.2.1, fun hGone => hGone.2.2 hLive⟩)
    exact ⟨hAccounted, hClear⟩

end Kernel
namespace KernelStart

open Kernel

section Boot

variable [Hardware] {who : Proc → Prop} {m : Memory} {page : Int}

/-- Every frame in use at boot is mapped in region 0 or is a page of the first stack. -/
theorem accounted_identity (hTable : m.region0Pt = bootTable page)
    (hStack : ∀ i : Int, 0 ≤ i → i < kStackVpns → m.ksPt 0 i = bootTable page (stackBase + i)) (hWho : who 0)
    (hWf : m.frames.Wf) (hUsed : ∀ pfn : Nat, m.frames.used pfn ↔ (bootTable page pfn).valid = true) :
    Accounted who m where
  holder pfn hIn := by
    have hValid := (hUsed pfn).mp hIn
    have hPfn : (bootTable page pfn).pfn = pfn := bootTable_pfn hValid
    by_cases hStackPage : stackBase ≤ (pfn : Int) ∧ (pfn : Int) < stackLimit
    · have hLimit : stackLimit = stackBase + kStackVpns := rfl
      have hEntry : m.entry (.stack 0 (pfn - stackBase)) = bootTable page pfn := by
        have hSlot := hStack (pfn - stackBase) (by omega) (by omega)
        rwa [add_sub_cancel] at hSlot
      exact ⟨.stack 0 (pfn - stackBase), hWho, hEntry ▸ hValid, hEntry ▸ hPfn⟩
    · have hEntry : m.entry (.heap pfn) = bootTable page pfn := congrFun hTable _
      exact ⟨.heap pfn, hStackPage, hEntry ▸ hValid, hEntry ▸ hPfn⟩
  wf := hWf

/-- When virtual memory is switched on, the frames in use are those of the kernel and
the stack page of the idle process. -/
theorem accounted_enabledMemory (uctxt : UserContext) (early late : List Word) (hWho : who 0) :
    (0 < region1Vpns → Accounted who (enabledMemory uctxt early late)) ∧ (enabledMemory uctxt early late).Fits ∧
      ∀ p, p ≠ 0 → ∀ i, ((enabledMemory uctxt early late).ksPt p i).valid = false := by
  have hImage : (bootPcbs uctxt).mem.HeapBounds := ⟨le_rfl, Int.ofNat_le.mpr brk_le_stack⟩
  obtain ⟨page, hEarly, hBounds⟩ := heapMoves_disabled rfl hImage early
  rw [hEarly] at hBounds
  obtain ⟨frames, hBuilt, hNext, hUsed⟩ := initRegion0Pt_boot uctxt hBounds
  have hBlank : (bootPcbs uctxt).mem.ksPt = fun _ _ => .blank := by
    funext p i
    simp [bootPcbs, createNewPcb, bootOutcomes, image]
  have hCtx : (bootPcbs uctxt).mem.ctx = fun _ => .blank := by
    funext p
    simp [bootPcbs, createNewPcb, bootOutcomes, image]
  unfold enabledMemory bootMemory
  dsimp only
  rw [hEarly, hBuilt]
  dsimp only
  generalize hRegion0 : ({ (bootPcbs uctxt).mem with
    frames := frames
    currentBrkPage := page
    region0Pt := bootTable page
    ksPt := _ } : Memory) = built
  have hFrames : built.frames = frames := by rw [← hRegion0]
  have hTable : built.region0Pt = bootTable page := by rw [← hRegion0]
  have hFirst (i : Int) (hLow : 0 ≤ i) (hHigh : i < kStackVpns) : built.ksPt 0 i = bootTable page (stackBase + i) := by
    simp [← hRegion0, hLow, hHigh]
  have hNone (p : Proc) (hp : p ≠ 0) (i : Int) : (built.ksPt p i).valid = false := by
    simp [← hRegion0, hp, hBlank, Pte.blank]
  have hEmpty (p : Proc) (i : Int) : ((built.ctx p).region1Pt i).valid = false := by
    simp [← hRegion0, hCtx, MemCtx.blank, Pte.blank]
  have hFits : built.Fits := by
    refine ⟨fun p i hValid => ?_, fun p i hValid => ?_⟩
    · rw [hEmpty] at hValid
      cases hValid
    · by_cases hp : p = 0
      · subst hp
        by_contra hOut
        simp [← hRegion0, hOut, hBlank, Pte.blank] at hValid
      · rw [hNone p hp] at hValid
        cases hValid
  have hTables : Accounted who built := by
    have hWf : frames.Wf := ⟨hNext ▸ Nat.zero_le _, fun n hn => absurd (hNext ▸ hn) (Nat.not_lt_zero n)⟩
    exact accounted_identity hTable hFirst hWho (hFrames.symm ▸ hWf) (hFrames.symm ▸ hUsed)
  -- the idle process gets the last page of region 1
  let started : Memory := { built with
    active := 0
    ptbr1 := 0
    ctx := Function.update built.ctx 0 { built.ctx 0 with
      txtStartPage := region1BaseVpn
      dataStartPage := region1BaseVpn
      origBrkPage := region1BaseVpn
      currBrkPage := region1BaseVpn } }
  have hContext (p : Proc) : (started.ctx p).region1Pt = (built.ctx p).region1Pt := by
    by_cases hp : p = 0
    · subst hp
      simp [started]
    · simp [started, hp]
  have hStarted : Accounted who started := by
    refine hTables.same ?_ subset_rfl hTables.wf
    funext owner
    cases owner with
    | heap vpn => rfl
    | stack proc i => rfl
    | user proc i => exact congrFun (hContext proc) i
  have hPage (hSome : 0 < region1Vpns) : Accounted who (initRegion1Pt built 0).1 := by
    have hLast : inRegion1 (region1LimitVpn - 1) := by
      unfold inRegion1 region1LimitVpn
      omega
    refine accounted_allocPage hStarted hWho hLast ?_ .readWrite
    show ((started.ctx 0).region1Pt _).valid = false
    rw [hContext, hEmpty]
  have hSide : (initRegion1Pt built 0).1.kernelSide = started.kernelSide := kernelSide_allocPage _ _ _
  have hStackSame : (initRegion1Pt built 0).1.ksPt = built.ksPt := congrArg KernelSide.ksPt hSide
  have hPageFits : (initRegion1Pt built 0).1.Fits :=
    (Step.alloc (region1LimitVpn - 1) .readWrite).fits (hFits.same hContext rfl)
  have hVm : (initRegion1Pt built 0).1.vmEnabled = false :=
    (congrArg KernelSide.vmEnabled hSide).trans (by simp only [Memory.kernelSide, started, ← hRegion0]; rfl)
  rw [heapMoves_bootBreak hVm late]
  refine ⟨fun hSome => (hPage hSome).same rfl subset_rfl (hPage hSome).wf, hPageFits.same (fun _ => rfl) rfl,
    fun p hp i => ?_⟩
  show ((initRegion1Pt built 0).1.ksPt p i).valid = false
  rw [hStackSame, hNone p hp]

/-- The first user process lives. -/
theorem live_kernelStart (uctxt : UserContext) (early late : List Word) : (kernelStart uctxt early late).Live 1 := by
  have hBoot := (inv_bootPcbs uctxt).quiet (Quiet.setMem _ (bootMemory (bootPcbs uctxt).mem early late))
  have hHand : 1 ∈ Function.update (fun _ => []) Place.hand [1] .hand := by simp
  have hReady : (((bootPcbs uctxt).setMem (bootMemory (bootPcbs uctxt).mem early late)).scheduleProcess 1).Live 1 :=
    (congrFun (hBoot.live_scheduleProcess hHand) 1).mpr (hBoot.placement.live_of_mem hHand)
  unfold kernelStart
  dsimp only
  split_ifs
  · exact ⟨hReady.1, hReady.2.1, (pcb_modifyPcb (v := Pcb.freed) rfl 1).trans hReady.2.2.1,
      (pcb_modifyPcb (v := Pcb.state) rfl 1).trans_ne hReady.2.2.2⟩
  · exact hReady

theorem fits_kernelStart (uctxt : UserContext) (early late : List Word) : (kernelStart uctxt early late).mem.Fits := by
  obtain ⟨-, hFits, -⟩ := @accounted_enabledMemory _ (fun _ => True) uctxt early late trivial
  rw [show (kernelStart uctxt early late).mem = (kcCopy (enabledMemory uctxt early late) 1).1 from
    congrArg Space.mem (space_kernelStart uctxt early late)]
  exact fits_kcCopy hFits rfl (custody_bootMemory uctxt early late).wf
    ((served_bootMemory uctxt early late).bounds.of_brk rfl) 1

/-- Entries are valid only within the tables. -/
theorem fits_reachable {s : Kernel} (run : system.Reachable s) : s.mem.Fits := by
  refine run.invariant (I := fun s => s.mem.Fits) ?_ fun s label t hRun hFits _ hStep => ?_
  · rintro s ⟨uctxt, early, late, rfl⟩
    exact fits_kernelStart uctxt early late
  · have hSound := sound_reachable hRun
    have hGuarded := guarded_reachable hRun
    exact (deed_step hSound.running_lt hSound.contexts.idle_lt hStep).fits hGuarded.served hGuarded.enabled
      hGuarded.custody.wf hFits

theorem allHeld_kernelStart (hSome : 0 < region1Vpns) {early late : List Word} (uctxt : UserContext)
    (hBreak : bootBreak origKernelBrkPage early ≤ bootBreak (bootBreak origKernelBrkPage early) late) :
    (kernelStart uctxt early late).AllHeld := by
  have hMem : (kernelStart uctxt early late).mem = (kcCopy (enabledMemory uctxt early late) 1).1 :=
    congrArg Space.mem (space_kernelStart uctxt early late)
  have hSize : (kernelStart uctxt early late).numPcbs = 2 :=
    congrArg Space.numPcbs (space_kernelStart uctxt early late)
  have hIdle : (kernelStart uctxt early late).Present 0 := by
    obtain ⟨kc, -, hCpu⟩ := cpu_kernelStart uctxt early late
    exact ⟨hSize ▸ Nat.zero_lt_two, fun hGone => hGone.2.1 (congrArg Cpu.idleProc hCpu).symm⟩
  have hFirst : (kernelStart uctxt early late).Present 1 :=
    ⟨hSize ▸ Nat.one_lt_two, fun hGone => hGone.2.2 (live_kernelStart uctxt early late)⟩
  obtain ⟨hAccounted, -, hBlank⟩ := accounted_enabledMemory uctxt early late hIdle
  obtain ⟨hPage, hTable⟩ := enabledMemory_eq uctxt early late
  have hBounds : (enabledMemory uctxt early late).HeapBounds :=
    (served_bootMemory uctxt early late).bounds.of_brk rfl
  have hClear : (enabledMemory uctxt early late).HeapClear := by
    refine ⟨fun vpn hLow hHigh => ?_⟩
    rw [hPage] at hLow
    rw [hTable]
    have hImage : (bootPcbs uctxt).mem.HeapBounds := ⟨le_rfl, Int.ofNat_le.mpr brk_le_stack⟩
    obtain ⟨-, -, hEarly⟩ := heapMoves_disabled rfl hImage early
    rw [heapMoves_bootBreak rfl early] at hEarly
    have hLower : (origKernelBrkPage : Int) ≤ bootBreak origKernelBrkPage early := hEarly.lower
    have hData : (firstKernelDataPage : Int) ≤ origKernelBrkPage := Int.ofNat_le.mpr data_le_brk
    by_contra hValid
    rw [Bool.not_eq_false, bootTable_valid (hData.trans hLower)] at hValid
    omega
  obtain ⟨hDone, hDoneClear⟩ := accounted_kcCopy (hAccounted hSome) hClear rfl hBounds hFirst (hBlank 1 Nat.one_ne_zero)
  constructor
  · rw [hMem]
    exact hDone
  · rw [hMem]
    exact hDoneClear

end Boot

/-- As long as the traps map pages only where nothing is mapped, a frame is in use
exactly if a page of the kernel heap, of a kernel stack or of region 1 of some process
that is there is mapped to it. -/
theorem frames_accounted [Hardware] (hSome : 0 < region1Vpns) {uctxt : UserContext} {early late : List Word}
    (hBreak : bootBreak origKernelBrkPage early ≤ bootBreak (bootBreak origKernelBrkPage early) late) {s : Kernel}
    (path : system.Path MapsClear (kernelStart uctxt early late) s) (pfn : Nat) :
    pfn ∈ s.mem.frames.inUse ↔ ∃ owner, s.mem.Holds s.Present owner pfn := by
  have hStart : system.Reachable (kernelStart uctxt early late) := .initial ⟨uctxt, early, late, rfl⟩
  have hHeld : s.AllHeld := path.invariant hStart (allHeld_kernelStart hSome uctxt hBreak)
    fun t label u hRun hHeld hMaps hStep => hHeld.step hRun (fits_reachable hRun) hMaps hStep
  have hCustody : Custody s.Present s.mem :=
    (guarded_reachable (path.reachable hStart)).custody.mono fun p hp => Or.inr hp.2
  exact ⟨hHeld.accounted.holder pfn, fun ⟨owner, hHolds⟩ => hCustody.sound.marked owner pfn hHolds⟩

section

open Sample

/-- The segments of the program are apart, when it starts without further arguments. -/
def StartsApart : LoadProgram.File → Prop
  | .image li _ _ => LoadProgram.SegmentsApart li (LoadProgram.layout li cmdArgs)
  | _ => True

instance (file : LoadProgram.File) : Decidable (StartsApart file) :=
  match file with
  | .image li _ _ => inferInstanceAs (Decidable (LoadProgram.SegmentsApart li (LoadProgram.layout li cmdArgs)))
  | .missing | .malformed => inferInstanceAs (Decidable True)

/-- Clock traps, the start of programs, forks with a free page at the break, and exits. -/
def ForksAndExits (s : Kernel) (label : Label) : Prop :=
  match label with
  | .clock _ _ => True
  | .resume o => StartsApart o.file
  | .syscall call uc _ => call = .exit ∨ call = .fork ∧ ScratchFree (s.mem.ctx s.mem.active) uc.sp
  | _ => False

instance (s : Kernel) : (label : Label) → Decidable (ForksAndExits s label)
  | .clock _ _ => inferInstanceAs (Decidable True)
  | .resume o => inferInstanceAs (Decidable (StartsApart o.file))
  | .syscall call uc _ =>
      inferInstanceAs (Decidable (call = .exit ∨ call = .fork ∧ ScratchFree (s.mem.ctx s.mem.active) uc.sp))
  | .math | .illegal | .memory _ | .ttyReceive _ _ _ _ | .ttyTransmit _ _ | .heap _ | .userStore _ _ =>
      inferInstanceAs (Decidable False)

theorem ForksAndExits.mapsClear {s : Kernel} {label : Label} (h : ForksAndExits s label) : s.MapsClear label where
  brk uc o hCall := by
    subst hCall
    rcases h with hExit | ⟨hFork, -⟩
    · cases hExit
    · cases hFork
  fork uc o hCall := by
    subst hCall
    rcases h with hExit | ⟨-, hFree⟩
    · cases hExit
    · exact hFree
  load li text data args hFile hArgs := by
    unfold Label.loads at hFile
    split at hFile
    · rcases h with hExit | ⟨hFork, -⟩
      · cases hExit
      · cases hFork
    · rename_i o
      have hApart : StartsApart o.file := h
      rw [Option.some.inj hFile] at hApart
      rw [hArgs.2]
      exact hApart
    · cases hFile

/-- A child is forked, runs and exits. Every frame in use is still mapped. -/
theorem frames_accounted_exit : ∃ s : Kernel, system.Reachable s ∧ s.numPcbs = 3 ∧ ¬s.Live 2 ∧
    ∀ pfn, pfn ∈ s.mem.frames.inUse ↔ ∃ owner, s.mem.Holds s.Present owner pfn := by
  obtain ⟨s, hRun, hEnd⟩ : ∃ s : Kernel,
      system.run ForksAndExits booted (turn ++ call .fork [] :: turn ++ [call .exit [0]]) = some s ∧
        (s.numPcbs = 3 ∧ ¬s.Live 2) := by
    obtain ⟨s, hRun, hEnd⟩ := (Option.any_eq_true _ _).mp (show (system.run ForksAndExits booted
      (turn ++ call .fork [] :: turn ++ [call .exit [0]])).any (fun s => decide (s.numPcbs = 3 ∧ ¬s.Live 2)) = true by
        decide +kernel)
    exact ⟨s, hRun, of_decide_eq_true hEnd⟩
  have hPath := (System.Path.run hRun).mono fun _ _ => ForksAndExits.mapsClear
  exact ⟨s, (System.Path.run hRun).reachable (.initial initial_booted), hEnd.1, hEnd.2,
    frames_accounted (by decide) (by decide) hPath⟩

end

end KernelStart
end Yalnix
