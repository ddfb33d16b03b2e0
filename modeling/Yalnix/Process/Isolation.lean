import Yalnix.Memory.Spared
import Yalnix.Process.Contexts
import Yalnix.Process.Recycling

/-! Processes cannot touch each other. As long as a process does not run, its page
tables, its break and everything that lies in its frames stay as they are, whatever the
processes that run ask the kernel for. -/
namespace Yalnix

open Hardware KernelMemory UserMemory Ownership Transition

section Space

variable [Hardware] {who gone : Proc → Prop} {kept : Set Nat} {start : Memory} {label : Label}
  {passes : List (List Byte) → Prop} {x y : Space} {p : Proc}

/-- The processes to look at, among those that were created. -/
def Space.Within (who : Proc → Prop) (x : Space) (p : Proc) : Prop := who p ∧ p < x.numPcbs

/-- The table of a new control block is blank. -/
theorem Space.spared_create (h : Spared (x.Within who) kept start x.mem) :
    Spared (x.create.Within who) kept start x.create.mem where
  aside := by
    apply h.aside.change
    · exact fun _ hIn _ => hIn
    · intro owner pfn hOwner
      obtain ⟨⟨hCounts, hEntry⟩, hOther⟩ := holds_create hOwner
      refine Or.inl ⟨owner, ?_, hEntry⟩
      cases owner with
      | heap vpn => exact hCounts
      | stack proc i =>
          have hProc : proc ≠ x.numPcbs := fun hNew => (hOther i).1 (hNew ▸ rfl)
          exact ⟨hCounts.1, Nat.lt_of_le_of_ne (Nat.le_of_lt_succ hCounts.2) hProc⟩
      | user proc i =>
          have hProc : proc ≠ x.numPcbs := fun hNew => (hOther i).2 (hNew ▸ rfl)
          exact ⟨hCounts.1, Nat.lt_of_le_of_ne (Nat.le_of_lt_succ hCounts.2) hProc⟩
  contents := h.contents
  wf := h.wf

theorem spared_heapMoves {m : Memory} (h : Spared who kept start m) (hEnabled : m.vmEnabled = true)
    (hBounds : m.HeapBounds) (brk : List Word) : Spared who kept start (Kernel.heapMoves m brk) ∧
      (Kernel.heapMoves m brk).vmEnabled = true ∧ (Kernel.heapMoves m brk).HeapBounds := by
  induction brk generalizing m with
  | nil => exact ⟨h, hEnabled, hBounds⟩
  | cons addr brk ih =>
      obtain ⟨frames, table, page, hEq⟩ := setKernelBrk_eq m addr
      exact ih (spared_setKernelBrk h hEnabled hBounds addr) ((congrArg Memory.vmEnabled hEq).trans hEnabled)
        (heapBounds_setKernelBrk hBounds addr)

theorem heapMoves_eq (m : Memory) (brk : List Word) : ∃ frames table page, Kernel.heapMoves m brk =
    { m with frames := frames, region0Pt := table, currentBrkPage := page } := by
  induction brk generalizing m with
  | nil => exact ⟨m.frames, m.region0Pt, m.currentBrkPage, rfl⟩
  | cons addr brk ih =>
      obtain ⟨frames, table, page, hFirst⟩ := setKernelBrk_eq m addr
      obtain ⟨frames', table', page', hRest⟩ := ih (setKernelBrk m addr).1
      refine ⟨frames', table', page', ?_⟩
      show Kernel.heapMoves (setKernelBrk m addr).1 brk = _
      rw [hRest, hFirst]

/-- The process that exits gives back what it holds itself. -/
theorem Space.spared_exitTo (h : Spared who kept start x.mem) (hServed : x.Served) (hWho : who x.runningProc)
    (next : Proc) : Spared who kept start (x.exitTo next).mem := by
  have hActive : who x.mem.active := hServed.current.active ▸ hWho
  have hRegion := (steps_deallocateRegion1 x.mem).spared h hActive
  have hCurrent : (deallocateRegion1 x.mem).Current x.runningProc :=
    hServed.current.of_installed x.mem.currentBrkPage
      (Memory.installed_of_kernelSide (steps_deallocateRegion1 x.mem).kernelSide _)
  exact spared_switch (spared_deallocateKernelStack hRegion hCurrent hWho) next

/-- A trap only reaches frames that were free or that the process which runs, its new
child or the kernel heap refers to. -/
theorem Space.Deed.spared (h : Space.Deed gone label passes x y) (hServed : x.Served)
    (hEnabled : x.mem.vmEnabled = true) (hWho : x.Within who x.runningProc) (hChild : who x.numPcbs)
    (hSpared : Spared (x.Within who) kept start x.mem) : Spared (y.Within who) kept start y.mem := by
  have hActive : x.Within who x.mem.active := hServed.current.active ▸ hWho
  have hParent : x.create.Within who x.mem.active := ⟨hActive.1, hActive.2.trans (Nat.lt_succ_self _)⟩
  have hNew : x.create.Within who x.numPcbs := ⟨hChild, Nat.lt_succ_self _⟩
  cases h with
  | move h =>
      cases h with
      | none => exact hSpared
      | store hStore => exact (steps_storeBytes hStore).spared hSpared hActive
      | switch next => exact spared_switch hSpared next
  | brk hCall => exact (steps_kernelBrkImpl x.mem _ _).spared hSpared hActive
  | grow hCall hGrown => exact (steps_expandStack x.mem _).spared hSpared hActive
  | @overflow uc hCall hFailed hGone next =>
      have hSteps := steps_expandStack x.mem uc.addr
      exact spared_exitTo (hSteps.spared hSpared hActive) (hServed.of_kernelSide hSteps.kernelSide) hWho next
  | load hCall hArgs hLoad hLives => exact (LoadProgram.steps_loadProgram hLoad).spared hSpared hActive
  | kill hCall hArgs hLoad hKill hGone next =>
      have hSteps := LoadProgram.steps_loadProgram hLoad
      exact spared_exitTo (hSteps.spared hSpared hActive) (hServed.of_kernelSide hSteps.kernelSide) hWho next
  | refuse hCall hCopy hGone => exact spared_ucCopy hCopy (spared_create hSpared) hParent hNew
  | @fork uc o mem hCall hCopy =>
      have hCopied := spared_ucCopy hCopy (spared_create hSpared) hParent hNew
      have hSide := kernelSide_ucCopy hCopy
      obtain ⟨hMoved, hOn, hBounds⟩ := spared_heapMoves hCopied ((congrArg KernelSide.vmEnabled hSide).trans hEnabled)
        (hServed.bounds.of_brk (congrArg KernelSide.currentBrkPage hSide)) o.brk
      exact spared_kcCopy hMoved hOn hBounds x.numPcbs
  | exit hGone next => exact spared_exitTo hSpared hServed hWho next
  | heap addr => exact spared_setKernelBrk hSpared hEnabled hServed.bounds addr

/-- A process that exits changes its own region 1 table, and its entries in region 0. -/
theorem Space.others_exitTo (h : x.Served) (next : Proc) (hp : p ≠ x.runningProc) :
    (x.exitTo next).mem.ctx p = x.mem.ctx p := by
  obtain ⟨frames, hEq, -, -⟩ := destroyPt_spec (deallocateRegion1 x.mem) (deallocateRegion1 x.mem).region0Pt
    stackBase stackLimit
  show (deallocateKernelStack (deallocateRegion1 x.mem)).ctx p = x.mem.ctx p
  rw [deallocateKernelStack_eq, hEq]
  exact (steps_deallocateRegion1 x.mem).others (h.current.active ▸ hp)

theorem Space.stacks_exitTo (x : Space) (next : Proc) : (x.exitTo next).mem.ksPt = x.mem.ksPt := by
  obtain ⟨frames, hEq, -, -⟩ := destroyPt_spec (deallocateRegion1 x.mem) (deallocateRegion1 x.mem).region0Pt
    stackBase stackLimit
  show (deallocateKernelStack (deallocateRegion1 x.mem)).ksPt = x.mem.ksPt
  rw [deallocateKernelStack_eq, hEq]
  exact congrArg KernelSide.ksPt (steps_deallocateRegion1 x.mem).kernelSide

/-- A trap changes the table of the process that runs and of its new child only. -/
theorem Space.Deed.others (h : Space.Deed gone label passes x y) (hServed : x.Served) (hNew : x.runningProc < x.numPcbs)
    (hp : p ≠ x.runningProc) (hOld : p < x.numPcbs) : y.mem.ctx p = x.mem.ctx p := by
  have hOther : p ≠ x.mem.active := hServed.current.active ▸ hp
  -- the process that exits has changed its own tables before
  have hExit {m : Memory} (hSteps : UserMemory.Steps x.mem m) (next : Proc) :
      (Space.exitTo { x with mem := m } next).mem.ctx p = x.mem.ctx p :=
    (others_exitTo (hServed.of_kernelSide hSteps.kernelSide) next hp).trans (hSteps.others hOther)
  have hCopied {uc : UserContext} {mem : Memory} {ok : Bool} (hCopy : ucCopy x.create.mem uc.sp x.numPcbs = .ok (mem, ok)) :
      mem.ctx p = x.mem.ctx p := by
    have hChild : x.numPcbs ≠ x.create.mem.active := fun hSame => hNew.ne (hServed.current.active ▸ hSame.symm)
    obtain ⟨n, hHanded, hSame, -⟩ := handed_ucCopy hChild hCopy
    rw [hSame p hOld.ne, hHanded.others p hOld.ne hOther]
    exact Function.update_of_ne hOld.ne _ _
  cases h with
  | move h =>
      cases h with
      | none => rfl
      | store hStore => exact (steps_storeBytes hStore).others hOther
      | switch next => rfl
  | brk hCall => exact (steps_kernelBrkImpl x.mem _ _).others hOther
  | grow hCall hGrown => exact (steps_expandStack x.mem _).others hOther
  | overflow hCall hFailed hGone next => exact hExit (steps_expandStack x.mem _) next
  | load hCall hArgs hLoad hLives => exact (LoadProgram.steps_loadProgram hLoad).others hOther
  | kill hCall hArgs hLoad hKill hGone next => exact hExit (LoadProgram.steps_loadProgram hLoad) next
  | refuse hCall hCopy hGone => exact hCopied hCopy
  | @fork uc o mem hCall hCopy =>
      obtain ⟨frames, table, page, hMoves⟩ := heapMoves_eq mem o.brk
      obtain ⟨frames', table', page', stack, pmem, hClone⟩ := kcCopy_eq (Kernel.heapMoves mem o.brk) x.numPcbs
      have hSame := hCopied hCopy
      show (kcCopy (Kernel.heapMoves mem o.brk) x.numPcbs).1.ctx p = _
      rw [hClone, hMoves]
      exact hSame
  | exit hGone next => exact hExit .refl next
  | heap addr =>
      obtain ⟨frames, table, page, hEq⟩ := setKernelBrk_eq x.mem addr
      show (setKernelBrk x.mem addr).1.ctx p = _
      rw [hEq]

/-- Nobody's table of the kernel stack is ever written again. -/
theorem Space.Deed.stacks (h : Space.Deed gone label passes x y) (hOld : p < x.numPcbs) :
    y.mem.ksPt p = x.mem.ksPt p := by
  have hUser {m : Memory} (hSteps : UserMemory.Steps x.mem m) : m.ksPt p = x.mem.ksPt p :=
    congrFun (congrArg KernelSide.ksPt hSteps.kernelSide) p
  have hExit {m : Memory} (hSteps : UserMemory.Steps x.mem m) (next : Proc) :
      (Space.exitTo { x with mem := m } next).mem.ksPt p = x.mem.ksPt p :=
    (congrFun (stacks_exitTo { x with mem := m } next) p).trans (hUser hSteps)
  have hCopied {uc : UserContext} {mem : Memory} {ok : Bool} (hCopy : ucCopy x.create.mem uc.sp x.numPcbs = .ok (mem, ok)) :
      mem.ksPt p = x.mem.ksPt p :=
    (congrFun (congrArg KernelSide.ksPt (kernelSide_ucCopy hCopy)) p).trans (Function.update_of_ne hOld.ne _ _)
  cases h with
  | move h =>
      cases h with
      | none => rfl
      | store hStore => exact hUser (steps_storeBytes hStore)
      | switch next => rfl
  | brk hCall => exact hUser (steps_kernelBrkImpl x.mem _ _)
  | grow hCall hGrown => exact hUser (steps_expandStack x.mem _)
  | overflow hCall hFailed hGone next => exact hExit (steps_expandStack x.mem _) next
  | load hCall hArgs hLoad hLives => exact hUser (LoadProgram.steps_loadProgram hLoad)
  | kill hCall hArgs hLoad hKill hGone next => exact hExit (LoadProgram.steps_loadProgram hLoad) next
  | refuse hCall hCopy hGone => exact hCopied hCopy
  | @fork uc o mem hCall hCopy =>
      obtain ⟨frames, table, page, hMoves⟩ := heapMoves_eq mem o.brk
      obtain ⟨frames', table', page', stack, pmem, hClone⟩ := kcCopy_eq (Kernel.heapMoves mem o.brk) x.numPcbs
      have hSame := hCopied hCopy
      show (kcCopy (Kernel.heapMoves mem o.brk) x.numPcbs).1.ksPt p = _
      rw [hClone, hMoves]
      exact (Function.update_of_ne hOld.ne _ _).trans hSame
  | exit hGone next => exact hExit .refl next
  | heap addr =>
      obtain ⟨frames, table, page, hEq⟩ := setKernelBrk_eq x.mem addr
      show (setKernelBrk x.mem addr).1.ksPt p = _
      rw [hEq]

end Space

namespace Kernel

variable [Hardware] {s t u : Kernel} {label : Label} {p : Proc}

/-- In the middle of a step, the process lives and does not run, unless the step can
no longer make a process exit. -/
structure Untouched (label : Label) (p : Proc) (s : Kernel) : Prop where
  live : s.Live p
  caller : label.exits = true → s.mode = .user → p ≠ s.runningProc

omit [Hardware] in
theorem Untouched.same (h : Untouched label p s) (hLive : t.Live = s.Live) (hMode : t.mode = .user → s.mode = .user)
    (hSame : t.runningProc = s.runningProc) : Untouched label p t :=
  ⟨hLive ▸ h.live, fun hCall hUser => hSame ▸ h.caller hCall (hMode hUser)⟩

theorem Untouched.effect (h : Untouched label p s) (hSound : KernelStart.Sound s) (hEffect : Effect label s t) :
    Untouched label p t := by
  obtain ⟨others, hOutcome⟩ := hSound.settled.effect hSound.contexts hEffect
  constructor
  · cases hOutcome.live with
    | same hSame => exact hSame ▸ h.live
    | exit hUser _ hLives hCall => exact (hLives p).mpr ⟨h.caller hCall hUser.1, h.live⟩
    | fork hUser hFork _ => exact (Settled.live_kernelFork hFork h.live.2.1.ne).mpr h.live
  · intro hCall hUser
    have hResume : label.isResume = false := by
      cases label with
      | resume o => cases hCall
      | _ => rfl
    obtain ⟨hBefore, hSame⟩ := user_effect hEffect hResume hUser
    exact hSame ▸ h.caller hCall hBefore

/-- A process lives on if it does not run, or if the step cannot make it exit. -/
theorem live_step (hSound : KernelStart.Sound s) (hLive : s.Live p) (hp : label.exits = true → p ≠ s.runningProc)
    (hStep : s.step label = .ok t) : t.Live p := by
  have hStart : Untouched label p s := ⟨hLive, fun hCall _ => hp hCall⟩
  have hRead (u : Kernel) (id len : Nat) (h : Untouched label p u) : Untouched label p (u.read id len) := by
    obtain ⟨ttys, lines, trace, hEq⟩ := read_eq u id len
    rw [hEq]
    exact h.same rfl (fun hUser => hUser) rfl
  refine (hSound.preserve (fun _ _ hSound h hEffect => h.effect hSound hEffect) hStart hStep ?_ ?_).live
  · exact fun _ _ id len _ _ _ hSaved => hRead _ id len hSaved
  · rintro o id rfl hMode hKc
    exact hRead _ id _ ⟨hLive, fun hCall => by cases hCall⟩

/-- The frames that the tables of a process map. -/
def frames (s : Kernel) (p : Proc) : Set Nat :=
  {pfn | (∃ i, (s.mem.ksPt p i).valid = true ∧ (s.mem.ksPt p i).pfn = pfn) ∨
    ∃ i, ((s.mem.ctx p).region1Pt i).valid = true ∧ ((s.mem.ctx p).region1Pt i).pfn = pfn}

/-- A process finds the same tables and the same contents of its frames. -/
structure SameMemory (p : Proc) (s t : Kernel) : Prop where
  ctx : t.mem.ctx p = s.mem.ctx p
  ksPt : t.mem.ksPt p = s.mem.ksPt p
  contents : ∀ pfn ∈ s.frames p, t.mem.pmem pfn = s.mem.pmem pfn

theorem SameMemory.readBy (h : SameMemory p s t) (addr : Int) : t.mem.readBy p addr = s.mem.readBy p addr := by
  have hPerms : ({ t.mem with active := p } : Memory).hasPerms addr false =
      ({ s.mem with active := p } : Memory).hasPerms addr false := by
    simp only [Memory.hasPerms, Memory.region1Pt, h.ctx]
  unfold Memory.readBy Memory.loadByte
  rw [hPerms]
  split_ifs with hRead
  · have hValid := (Memory.hasPerms_iff.mp hRead).1.valid
    have hFrame : ({ t.mem with active := p } : Memory).frameOf addr = ({ s.mem with active := p } : Memory).frameOf addr := by
      simp only [Memory.frameOf, Memory.region1Pt, h.ctx]
    rw [hFrame]
    exact congrArg Except.ok (congrFun (h.contents _ (Or.inr ⟨_, hValid, rfl⟩)) _)
  · rfl

/-- A process that was created and is not gone. -/
def Present (s : Kernel) (p : Proc) : Prop := p < s.numPcbs ∧ ¬s.Gone p

/-- What a run shows of a process that does not run in it. -/
structure Isolated (p : Proc) (s t : Kernel) : Prop where
  live : t.Live p
  same : SameMemory p s t
  /-- No other process has a page in a frame of this one. -/
  apart : Spared (fun q => q ≠ p ∧ t.Present q) (s.frames p) s.mem t.mem

theorem Isolated.refl (run : KernelStart.system.Reachable s) (hLive : s.Live p) : Isolated p s s where
  live := hLive
  same := ⟨rfl, rfl, fun _ _ => rfl⟩
  apart := by
    have hCustody : Custody (fun q => ¬s.Gone q) s.mem :=
      (KernelStart.guarded_reachable run).custody.mono fun q hq => Or.inr hq
    have hHere : ¬s.Gone p := fun hGone => hGone.2.2 hLive
    -- a frame of the process has an owner, and it has no other
    have hOwner {pfn : Nat} (hFrame : pfn ∈ s.frames p) : ∃ owner, s.mem.Holds (fun q => ¬s.Gone q) owner pfn ∧
        ¬owner.Counts (fun q => q ≠ p ∧ s.Present q) := by
      rcases hFrame with ⟨i, hValid, hPfn⟩ | ⟨i, hValid, hPfn⟩
      · exact ⟨.stack p i, ⟨hHere, hValid, hPfn⟩, fun hCounts => hCounts.1 rfl⟩
      · exact ⟨.user p i, ⟨hHere, hValid, hPfn⟩, fun hCounts => hCounts.1 rfl⟩
    refine ⟨⟨fun pfn hFrame => ?_, fun other pfn hOther hFrame => ?_⟩, fun _ _ => rfl, hCustody.wf⟩
    · obtain ⟨owner, hHeld, -⟩ := hOwner hFrame
      exact hCustody.sound.marked owner pfn hHeld
    · obtain ⟨owner, hHeld, hNot⟩ := hOwner hFrame
      have hSame := hCustody.sound.apart owner other pfn hHeld ⟨hOther.1.mono fun _ hq => hq.2.2, hOther.2⟩
      exact hNot (hSame ▸ hOther.1)

/-- A step of a process that is looked at spares what is set aside. -/
theorem spared_step {some : Proc → Prop} {kept : Set Nat} {start : Memory} (run : KernelStart.system.Reachable s)
    (hStep : s.step label = .ok t) (hSome : some s.runningProc) (hChild : some s.numPcbs)
    (h : Spared (fun q => some q ∧ s.Present q) kept start s.mem) :
    Spared (fun q => some q ∧ t.Present q) kept start t.mem := by
  have hSound := KernelStart.sound_reachable run
  have hGuarded := KernelStart.guarded_reachable run
  have hDeed := deed_step hSound.running_lt hSound.contexts.idle_lt hStep
  have hBefore : Spared (s.space.Within fun q => some q ∧ ¬s.Gone q) kept start s.mem :=
    h.mono fun q hq => ⟨hq.1.1, hq.2, hq.1.2⟩
  have hAfter := hDeed.spared hGuarded.served hGuarded.enabled
    ⟨⟨hSome, (KernelStart.fates_gone hSound).running⟩, hSound.running_lt⟩
    ⟨hChild, fun hGone => Nat.lt_irrefl _ hGone.1⟩ hBefore
  exact hAfter.mono fun q hq => ⟨⟨hq.1, fun hGone => hq.2.2 ((outlived_step hSound hStep).gone hGone)⟩, hq.2.1⟩

theorem Isolated.step (h : Isolated p s t) (run : KernelStart.system.Reachable t) (hp : t.runningProc ≠ p)
    (hStep : t.step label = .ok u) : Isolated p s u := by
  have hSound := KernelStart.sound_reachable run
  have hDeed := deed_step hSound.running_lt hSound.contexts.idle_lt hStep
  have hApart := spared_step run hStep hp h.live.2.1.ne' h.apart
  have hCtx := hDeed.others (KernelStart.guarded_reachable run).served hSound.running_lt hp.symm h.live.2.1
  have hKs := hDeed.stacks h.live.2.1
  exact {
    live := live_step hSound h.live (fun _ => hp.symm) hStep
    same := ⟨hCtx.trans h.same.ctx, hKs.trans h.same.ksPt, hApart.contents⟩
    apart := hApart }

end Kernel

namespace KernelStart

open Kernel

end KernelStart
end Yalnix
