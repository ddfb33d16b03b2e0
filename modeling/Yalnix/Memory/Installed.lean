import Yalnix.Memory.KernelSide

/-! The kernel stack in region 0. The kernel heap grows below it and the
stacks of other processes are built below it as well, so only a switch of
processes changes what is mapped there. -/
namespace Yalnix

open Hardware KernelMemory

variable [Hardware]

/-- What the processor works with, beside the stack table of one process. -/
structure Installed where
  active : Proc
  ptbr1 : Proc
  ksPt : PageTable
  stack : PageTable
  brk : Int

/-- The stack is the part of the region 0 table from `K_STACK_BASE_VPN` on. -/
def Memory.installed (m : Memory) (proc : Proc) : Installed where
  active := m.active
  ptbr1 := m.ptbr1
  ksPt := m.ksPt proc
  stack i := if 0 ≤ i ∧ i < kStackVpns then m.region0Pt (stackBase + i) else .blank
  brk := m.currentBrkPage

/-- The kernel heap ends between the kernel image and the kernel stack. -/
structure Memory.HeapBounds (m : Memory) : Prop where
  lower : origKernelBrkPage ≤ m.currentBrkPage
  upper : m.currentBrkPage ≤ stackBase

variable {m m' : Memory} {proc : Proc}

theorem Memory.installed_of_kernelSide (h : m'.kernelSide = m.kernelSide) (proc : Proc) :
    m'.installed proc = m.installed proc := by
  simp only [kernelSide, KernelSide.mk.injEq] at h
  obtain ⟨hRegion0, hBrk, -, hKs, hActive, hPtbr⟩ := h
  simp only [installed, hRegion0, hBrk, hKs, hActive, hPtbr]

theorem Memory.HeapBounds.of_brk (h : m.HeapBounds) (hBrk : m'.currentBrkPage = m.currentBrkPage) :
    m'.HeapBounds := ⟨hBrk ▸ h.lower, hBrk ▸ h.upper⟩

/-- The memory is set up for a process: its context is active, its table is in
`REG_PTBR1`, and its kernel stack is mapped. -/
structure Memory.Current (m : Memory) (proc : Proc) : Prop where
  active : m.active = proc
  ptbr1 : m.ptbr1 = proc
  stack : ∀ i : Int, 0 ≤ i → i < kStackVpns → m.region0Pt (stackBase + i) = m.ksPt proc i

theorem Memory.Current.of_installed (h : m.Current proc) (brk : Int)
    (hSame : m'.installed proc = { m.installed proc with brk := brk }) : m'.Current proc where
  active := (congrArg Installed.active hSame).trans h.active
  ptbr1 := (congrArg Installed.ptbr1 hSame).trans h.ptbr1
  stack i hNonneg hi := by
    have hStack := congrFun (congrArg Installed.stack hSame) i
    have hKs := congrFun (congrArg Installed.ksPt hSame) i
    simp only [installed, hNonneg, hi, and_self, if_true] at hStack hKs
    rw [hStack, hKs, h.stack i hNonneg hi]

/-- The three writes of a context switch. -/
theorem Memory.Current.switch (m : Memory) (next : Proc) :
    (kcSwitch (UserMemory.ucSwitch m next) next).Current next where
  active := rfl
  ptbr1 := rfl
  stack i hNonneg hi := by
    have hIn : stackBase ≤ stackBase + i ∧ stackBase + i < stackLimit := by
      unfold stackLimit
      have : stackBase = kStackBaseVpn := rfl
      omega
    simp only [kcSwitch, if_pos hIn, add_sub_cancel_left]

namespace KernelMemory

/-- A change of a page below the stack. -/
theorem installed_update {vpn : Int} (hVpn : vpn < stackBase) (entry : Pte) (frames : Frames) :
    { m with frames := frames, region0Pt := Function.update m.region0Pt vpn entry }.installed proc =
      m.installed proc := by
  simp only [Memory.installed, Installed.mk.injEq, true_and, and_true]
  funext i
  split_ifs with hi
  · exact Function.update_of_ne (by omega) _ _
  · rfl

theorem installed_allocPage {vpn : Int} (hVpn : vpn < stackBase) (prot : Prot) :
    (allocPage m vpn prot).1.installed proc = m.installed proc := by
  unfold allocPage
  split
  · rfl
  · split_ifs
    · exact installed_update hVpn _ _
    · rfl

theorem installed_deallocPage {vpn : Int} (hVpn : vpn < stackBase) :
    (deallocPage m vpn).1.installed proc = m.installed proc := by
  unfold deallocPage
  split_ifs
  · rfl
  · exact installed_update hVpn _ _
  · rfl

theorem installed_unmapNoFree {vpn : Int} (hVpn : vpn < stackBase) :
    (unmapNoFree m vpn).1.installed proc = m.installed proc := by
  unfold unmapNoFree
  split_ifs
  · exact installed_update hVpn _ m.frames
  · rfl

theorem below_stack {first last : Int} (hLast : last ≤ stackBase) :
    ∀ vpn ∈ pageRange first last, vpn < stackBase := by
  intro vpn hIn
  have hRange := mem_pageRange.mp hIn
  omega

/-- A loop over pages keeps what its body keeps. -/
theorem installed_foldl {body : Memory → Int → Memory} {pages : List Int}
    (hBody : ∀ m, ∀ vpn ∈ pages, (body m vpn).installed proc = m.installed proc) (m : Memory) :
    (pages.foldl body m).installed proc = m.installed proc := by
  induction pages generalizing m with
  | nil => rfl
  | cons vpn pages ih =>
      rw [List.foldl_cons, ih fun m page hIn => hBody m page (List.mem_cons_of_mem _ hIn)]
      exact hBody m vpn List.mem_cons_self

theorem installed_undoAllocation {firstVpn lastVpn : Int} (hLast : lastVpn ≤ stackBase) :
    (undoAllocation m firstVpn lastVpn).installed proc = m.installed proc :=
  installed_foldl (fun _ vpn hIn => installed_deallocPage (below_stack hLast vpn hIn)) m

theorem installed_allocPages {firstVpn : Int} {pages : List Int} (hPages : ∀ vpn ∈ pages, vpn < stackBase) :
    (allocPages m firstVpn pages).1.installed proc = m.installed proc := by
  induction pages generalizing m with
  | nil => rfl
  | cons vpn pages ih =>
      have hVpn := hPages vpn List.mem_cons_self
      have hPage : (allocPage m vpn .readWrite).1.installed proc = m.installed proc :=
        installed_allocPage hVpn _
      unfold allocPages
      split
      · rename_i next hAlloc
        rw [hAlloc] at hPage
        rw [ih fun page hIn => hPages page (List.mem_cons_of_mem _ hIn), hPage]
      · rename_i next hAlloc
        rw [hAlloc] at hPage
        rw [installed_undoAllocation hVpn.le, hPage]

/-- A new break, or the old one when the call fails, is always in bounds. -/
theorem heapBounds_setKernelBrk (h : m.HeapBounds) (addr : Word) : (setKernelBrk m addr).1.HeapBounds := by
  have hOld : m.currentBrkPage ≤ stackBase := h.upper
  unfold KernelMemory.setKernelBrk
  dsimp only
  split_ifs with hRange hVm hGrow
  · exact h
  · exact ⟨by simpa using by omega, by simpa using by omega⟩
  · have hPages : (allocPages m m.currentBrkPage
        (pageRange m.currentBrkPage (pageNumber (upToPage addr)))).1.installed 0 = m.installed 0 :=
      installed_allocPages (below_stack (by omega))
    split
    · rename_i next hAlloc
      rw [hAlloc] at hPages
      exact h.of_brk (congrArg Installed.brk hPages)
    · exact ⟨by simpa using by omega, by simpa using by omega⟩
  · exact ⟨by simpa using by omega, by simpa using by omega⟩

/-- The kernel heap moves below the stack. -/
theorem installed_setKernelBrk (h : m.HeapBounds) (addr : Word) :
    (setKernelBrk m addr).1.installed proc =
      { m.installed proc with brk := (setKernelBrk m addr).1.currentBrkPage } := by
  have hOld : m.currentBrkPage ≤ stackBase := h.upper
  unfold KernelMemory.setKernelBrk
  dsimp only
  split_ifs with hRange hVm hGrow
  · rfl
  · rfl
  · have hPages : (allocPages m m.currentBrkPage
        (pageRange m.currentBrkPage (pageNumber (upToPage addr)))).1.installed proc = m.installed proc :=
      installed_allocPages (below_stack (by omega))
    split
    · rename_i next hAlloc
      rw [hAlloc] at hPages
      rw [← hPages]
      rfl
    · rename_i next hAlloc
      rw [hAlloc] at hPages
      rw [← hPages]
      rfl
  · rw [← installed_undoAllocation (m := m) hOld]
    rfl

theorem installed_copyStack (m : Memory) (target : Int) :
    (copyStack m target).installed proc = m.installed proc := by
  apply installed_foldl
  intro m vpn hIn
  rfl

/-- The new stack of a child is taken out of the pages of the heap. -/
theorem installed_handStack {child : Proc} (hChild : proc ≠ child) (trueBrkPage : Int) {pages : List Int}
    (hPages : ∀ vpn ∈ pages, vpn < stackBase) :
    (handStack m child trueBrkPage pages).installed proc = m.installed proc := by
  induction pages generalizing m with
  | nil => rfl
  | cons vpn pages ih =>
      rw [handStack, ih fun page hIn => hPages page (List.mem_cons_of_mem _ hIn)]
      rw [← installed_unmapNoFree (m := m) (hPages vpn List.mem_cons_self)]
      simp only [Memory.installed, Function.update_of_ne hChild]

/-- The pages that `KCCopy` borrows from the heap lie below the stack. -/
theorem borrowed_le (h : m.HeapBounds)
    (hOk : (setKernelBrk m (BitVec.ofInt 32 ((m.currentBrkPage + kStackVpns) * pageSize))).2 = true) :
    m.currentBrkPage + kStackVpns ≤ stackBase := by
  have hLower := h.lower
  have hUpper := h.upper
  have hStack : stackBase + kStackVpns ≤ region0Vpns := by
    have := stack_le_region0
    unfold stackBase
    omega
  by_cases hPages : 0 < region0Vpns + region1Vpns
  · have hPage := pageNumber_boundary hPages (show 0 ≤ m.currentBrkPage + kStackVpns by omega) (by omega)
    unfold KernelMemory.setKernelBrk at hOk
    dsimp only at hOk
    rw [hPage] at hOk
    split_ifs at hOk with hRange
    all_goals omega
  · omega

theorem heapBounds_kcCopy (h : m.HeapBounds) (child : Proc) :
    (kcCopy m child).1.HeapBounds := by
  have hBrk := heapBounds_setKernelBrk h (BitVec.ofInt 32 ((m.currentBrkPage + kStackVpns) * pageSize))
  unfold kcCopy
  dsimp only
  split
  · rename_i next hFail
    rwa [hFail] at hBrk
  · exact ⟨h.lower, h.upper⟩

theorem installed_kcCopy (h : m.HeapBounds) {child : Proc} (hChild : proc ≠ child) :
    (kcCopy m child).1.installed proc =
      { m.installed proc with brk := (kcCopy m child).1.currentBrkPage } := by
  have hLe := borrowed_le h
  generalize hAddr : BitVec.ofInt 32 ((m.currentBrkPage + kStackVpns) * pageSize) = addr at hLe
  have hBrk : (setKernelBrk m addr).1.installed proc =
      { m.installed proc with brk := (setKernelBrk m addr).1.currentBrkPage } :=
    installed_setKernelBrk h addr
  unfold kcCopy
  dsimp only
  rw [hAddr]
  split
  · rename_i next hFail
    rw [hFail] at hBrk
    exact hBrk
  · rename_i next hGrown
    rw [hGrown] at hBrk hLe
    have hHand : (handStack (copyStack next m.currentBrkPage) child m.currentBrkPage
        (pageRange m.currentBrkPage (m.currentBrkPage + kStackVpns))).installed proc =
        next.installed proc :=
      (installed_handStack hChild _ (below_stack (hLe rfl))).trans (installed_copyStack next _)
    have hSame : { next.installed proc with brk := m.currentBrkPage } = m.installed proc := by
      rw [hBrk]
      rfl
    rw [← hSame, ← hHand]
    rfl

/-- A process that exits gives its stack back but goes on using it. -/
theorem kernelSide_deallocateKernelStack (m : Memory) :
    (deallocateKernelStack m).kernelSide = m.kernelSide := by
  apply UserMemory.kernelSide_foldl
  intro m vpn
  unfold freeNoUnmap
  split_ifs <;> rfl

/-- A loop of `init_region0_pt` over free frames takes all of them. -/
theorem acquirePages_free (prot : Prot) {pages : List Int} (hNodup : pages.Nodup)
    (hBase : ∀ vpn ∈ pages, (pmemBaseFrame : Int) ≤ vpn)
    (hFree : ∀ vpn ∈ pages, m.frames.checkIfFree (vpn.toNat - pmemBaseFrame) = true) :
    ∃ frames : Frames, acquirePages m prot pages =
      ({ m with
        frames := frames
        region0Pt := fun vpn => if vpn ∈ pages then ⟨true, prot, vpn.toNat⟩ else m.region0Pt vpn }, true) ∧
      frames.nextFree = m.frames.nextFree ∧ frames.numFrames = m.frames.numFrames ∧
      ∀ n, frames.checkIfFree n = true ↔
        m.frames.checkIfFree n = true ∧ ∀ vpn ∈ pages, n ≠ vpn.toNat - pmemBaseFrame := by
  induction pages generalizing m with
  | nil => exact ⟨m.frames, by simp [acquirePages], rfl, rfl, by simp⟩
  | cons vpn pages ih =>
      obtain ⟨hOut, hNodup⟩ := List.nodup_cons.mp hNodup
      have hVpn := hBase vpn List.mem_cons_self
      have hTake : m.frames.acquireFrame vpn.toNat =
          (m.frames.setFrame (vpn.toNat - pmemBaseFrame), true) := by
        simp [Frames.acquireFrame, hFree vpn List.mem_cons_self]
      let next : Memory := { m with
        frames := m.frames.setFrame (vpn.toNat - pmemBaseFrame)
        region0Pt := createPte m.region0Pt vpn vpn.toNat prot }
      have hStep : acquirePages m prot (vpn :: pages) = acquirePages next prot pages := by
        rw [acquirePages, hTake]
      have hRest (page : Int) (hPage : page ∈ pages) :
          next.frames.checkIfFree (page.toNat - pmemBaseFrame) = true := by
        have hNe : page ≠ vpn := fun he => hOut (he ▸ hPage)
        have hLow := hBase page (List.mem_cons_of_mem _ hPage)
        show (m.frames.setFrame _).checkIfFree _ = true
        rw [Frames.checkIfFree_setFrame, if_neg (by omega)]
        exact hFree page (List.mem_cons_of_mem _ hPage)
      obtain ⟨frames, hEq, hNext, hSize, hUsed⟩ := ih (m := next) hNodup
        (fun page hIn => hBase page (List.mem_cons_of_mem _ hIn)) hRest
      refine ⟨frames, ?_, hNext, hSize, fun n => ?_⟩
      · rw [hStep, hEq]
        congr 2
        funext page
        by_cases hPage : page = vpn
        · subst hPage
          simp [hOut, next, createPte]
        · simp [hPage, next, createPte]
      · rw [hUsed, List.forall_mem_cons]
        show (m.frames.setFrame _).checkIfFree n = true ∧ _ ↔ _
        rw [Frames.checkIfFree_setFrame]
        by_cases hn : n = vpn.toNat - pmemBaseFrame
        · simp [hn]
        · simp [hn]

/-- The region 0 table that `init_region0_pt` builds: text, data and heap up to the
break, and the kernel stack, each page in the frame of its number. -/
def bootTable (brk : Int) (vpn : Int) : Pte :=
  if firstKernelTextPage ≤ vpn ∧ vpn < firstKernelDataPage then ⟨true, .readExec, vpn.toNat⟩
  else if firstKernelDataPage ≤ vpn ∧ vpn < brk ∨ stackBase ≤ vpn ∧ vpn < stackLimit then
    ⟨true, .readWrite, vpn.toNat⟩
  else .blank

theorem bootTable_valid {brk vpn : Int} (hData : firstKernelDataPage ≤ brk) : (bootTable brk vpn).valid = true ↔
    firstKernelTextPage ≤ vpn ∧ vpn < brk ∨ stackBase ≤ vpn ∧ vpn < stackLimit := by
  have hText := text_le_data
  unfold bootTable
  split_ifs with hIn hIn'
  · simp only [true_iff]
    omega
  · simp only [true_iff]
    omega
  · simp only [Pte.blank, Bool.false_eq_true, false_iff]
    omega

theorem bootTable_pfn {brk vpn : Int} (hValid : (bootTable brk vpn).valid = true) :
    (bootTable brk vpn).pfn = vpn.toNat := by
  unfold bootTable at hValid ⊢
  split_ifs at hValid ⊢
  · rfl
  · rfl
  · cases hValid

/-- At boot all frames are free, so the region 0 table is built, and its stack
entries are copied to the first process. -/
theorem initRegion0Pt_eq (hFree : ∀ n, m.frames.checkIfFree n = true) (h : m.HeapBounds)
    (hSize : stackLimit ≤ pmemBaseFrame + m.frames.numFrames) (idle : Proc) :
    ∃ frames : Frames, initRegion0Pt m idle =
      ({ m with
        frames := frames
        region0Pt := bootTable m.currentBrkPage
        ksPt := Function.update m.ksPt idle fun i =>
          if 0 ≤ i ∧ i < kStackVpns then bootTable m.currentBrkPage (stackBase + i) else m.ksPt idle i }, true) ∧
      frames.nextFree = m.frames.nextFree ∧ frames.numFrames = m.frames.numFrames ∧
      ∀ pfn : Nat, frames.used pfn ↔ (bootTable m.currentBrkPage pfn).valid = true := by
  have hTextData := text_le_data
  have hDataBrk := data_le_brk
  have hBaseText := base_le_text
  have hLower := h.lower
  have hUpper := h.upper
  have hBase {first last : Int} (hFirst : (firstKernelTextPage : Int) ≤ first) :
      ∀ vpn ∈ pageRange first last, (pmemBaseFrame : Int) ≤ vpn := by
    intro vpn hIn
    have hRange := mem_pageRange.mp hIn
    omega
  have hWindow : stackBase ≤ stackLimit := by
    unfold stackLimit stackBase
    omega
  obtain ⟨text, hText, hNext₁, hSize₁, hUsed₁⟩ := acquirePages_free
    (m := { m with region0Pt := fun _ => Pte.blank }) .readExec
    (nodup_pageRange firstKernelTextPage firstKernelDataPage) (hBase le_rfl) fun _ _ => hFree _
  have hFree₁ (vpn : Int) (hVpn : (firstKernelDataPage : Int) ≤ vpn) :
      text.checkIfFree (vpn.toNat - pmemBaseFrame) = true := by
    rw [hUsed₁]
    refine ⟨hFree _, fun page hIn => ?_⟩
    have hRange := mem_pageRange.mp hIn
    omega
  obtain ⟨data, hData, hNext₂, hSize₂, hUsed₂⟩ := acquirePages_free
    (m := { m with
      frames := text
      region0Pt := fun vpn => if vpn ∈ pageRange firstKernelTextPage firstKernelDataPage then
        ⟨true, .readExec, vpn.toNat⟩ else .blank }) .readWrite
    (nodup_pageRange firstKernelDataPage m.currentBrkPage) (hBase (by omega))
    fun vpn hIn => hFree₁ vpn (mem_pageRange.mp hIn).1
  have hFree₂ (vpn : Int) (hVpn : stackBase ≤ vpn) : data.checkIfFree (vpn.toNat - pmemBaseFrame) = true := by
    rw [hUsed₂]
    refine ⟨hFree₁ vpn (by omega), fun page hIn => ?_⟩
    have hRange := mem_pageRange.mp hIn
    omega
  obtain ⟨stack, hStack, hNext₃, hSize₃, hUsed₃⟩ := acquirePages_free
    (m := { m with
      frames := data
      region0Pt := fun vpn => if vpn ∈ pageRange firstKernelDataPage m.currentBrkPage then
        ⟨true, .readWrite, vpn.toNat⟩ else
        if vpn ∈ pageRange firstKernelTextPage firstKernelDataPage then ⟨true, .readExec, vpn.toNat⟩
        else .blank }) .readWrite
    (nodup_pageRange stackBase stackLimit) (hBase (by omega)) fun vpn hIn => hFree₂ vpn (mem_pageRange.mp hIn).1
  have hTable : (fun vpn => if vpn ∈ pageRange stackBase stackLimit then ⟨true, .readWrite, vpn.toNat⟩ else
      if vpn ∈ pageRange firstKernelDataPage m.currentBrkPage then ⟨true, .readWrite, vpn.toNat⟩ else
      if vpn ∈ pageRange firstKernelTextPage firstKernelDataPage then ⟨true, .readExec, vpn.toNat⟩
      else Pte.blank) = bootTable m.currentBrkPage := by
    funext vpn
    simp only [mem_pageRange, bootTable]
    split_ifs <;> first | rfl | omega
  refine ⟨stack, ?_, hNext₃.trans (hNext₂.trans hNext₁), hSize₃.trans (hSize₂.trans hSize₁), fun pfn => ?_⟩
  · unfold initRegion0Pt
    dsimp only
    rw [hText]
    dsimp only
    rw [hData]
    dsimp only
    rw [hStack]
    dsimp only
    rw [← hTable]
  · have hStackSize : stack.numFrames = m.frames.numFrames := hSize₃.trans (hSize₂.trans hSize₁)
    rw [bootTable_valid (by omega)]
    constructor
    · rintro ⟨hLow, -, hBit⟩
      by_contra hNone
      have hStill : stack.checkIfFree (pfn - pmemBaseFrame) = true := by
        rw [hUsed₃, hUsed₂, hUsed₁]
        refine ⟨⟨⟨hFree _, fun page hIn hSame => hNone ?_⟩, fun page hIn hSame => hNone ?_⟩,
          fun page hIn hSame => hNone ?_⟩
        all_goals
          have hRange := mem_pageRange.mp hIn
          omega
      rw [hBit] at hStill
      cases hStill
    · intro hIn
      refine ⟨by omega, by omega, Bool.eq_false_iff.mpr fun hStill => ?_⟩
      rw [hUsed₃, hUsed₂, hUsed₁] at hStill
      obtain ⟨⟨⟨-, hNotText⟩, hNotData⟩, hNotStack⟩ := hStill
      have hSelf : pfn - pmemBaseFrame = (pfn : Int).toNat - pmemBaseFrame := by omega
      by_cases hText : (pfn : Int) < firstKernelDataPage
      · exact hNotText pfn (mem_pageRange.mpr ⟨by omega, hText⟩) hSelf
      · by_cases hHeap : (pfn : Int) < m.currentBrkPage
        · exact hNotData pfn (mem_pageRange.mpr ⟨by omega, hHeap⟩) hSelf
        · exact hNotStack pfn (mem_pageRange.mpr ⟨by omega, by omega⟩) hSelf

end KernelMemory
end Yalnix
