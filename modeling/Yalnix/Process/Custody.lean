import Yalnix.Memory.Owners
import Yalnix.Process.AddressSpace
import Yalnix.Process.Waiting

/-! The owners of frames over whole runs. Within a step they are the process that
runs and those that survive the step, so that a process which exits or a child
which is given up may leave entries behind. -/
namespace Yalnix

open Hardware KernelMemory UserMemory

section Step

variable [Hardware] {dies : Proc → Prop} {x y : Space}

/-- The process that runs, and those that survive the step. -/
def Space.Owning (dies : Proc → Prop) (x : Space) (p : Proc) : Prop := p = x.runningProc ∨ ¬dies p

/-- The memory serves the running process, and frames have one owner each. -/
structure Space.Guarded (dies : Proc → Prop) (x : Space) : Prop where
  served : x.Served
  enabled : x.mem.vmEnabled = true
  custody : Custody (x.Owning dies) x.mem

/-- The entries of a new control block are not valid. -/
theorem Space.holds_create {who : Proc → Prop} {owner : Owner} {pfn : Nat} (h : x.create.mem.Holds who owner pfn) :
    x.mem.Holds who owner pfn ∧ ∀ i, owner ≠ .stack x.numPcbs i ∧ owner ≠ .user x.numPcbs i := by
  obtain ⟨hCounts, hValid, hPfn⟩ := h
  cases owner with
  | heap vpn => exact ⟨⟨hCounts, hValid, hPfn⟩, fun _ => ⟨nofun, nofun⟩⟩
  | stack proc i =>
      have hProc : proc ≠ x.numPcbs := by
        rintro rfl
        simp [Memory.entry, Space.create, Pte.blank] at hValid
      simp only [Memory.entry, Space.create, Function.update_of_ne hProc] at hValid hPfn
      exact ⟨⟨hCounts, hValid, hPfn⟩, fun _ => by simp [hProc]⟩
  | user proc i =>
      have hProc : proc ≠ x.numPcbs := by
        rintro rfl
        simp [Memory.entry, Space.create, MemCtx.blank, Pte.blank] at hValid
      simp only [Memory.entry, Space.create, Function.update_of_ne hProc] at hValid hPfn
      exact ⟨⟨hCounts, hValid, hPfn⟩, fun _ => by simp [hProc]⟩

namespace Space.Guarded

theorem active (h : x.Guarded dies) : x.Owning dies x.mem.active := Or.inl h.served.current.active

theorem of_user {mem : Memory} (h : x.Guarded dies) (hServed : Space.Served { x with mem := mem })
    (hSteps : UserMemory.Steps x.mem mem) : Space.Guarded dies { x with mem := mem } where
  served := hServed
  enabled := (congrArg KernelSide.vmEnabled hSteps.kernelSide).trans h.enabled
  custody := hSteps.custody h.custody h.active

/-- Entries of a new control block are not valid, so it may count as an owner. -/
theorem create (h : x.Guarded dies) : Custody (fun p => x.Owning dies p ∨ p = x.numPcbs) x.create.mem where
  sound := by
    refine h.custody.sound.weaken (fun owner pfn hHeld => ?_) subset_rfl
    obtain ⟨hOld, hOther⟩ := holds_create hHeld
    refine ⟨?_, hOld.2⟩
    cases owner with
    | heap vpn => exact hOld.1
    | stack proc i => exact hOld.1.resolve_right fun hNew => (hOther i).1 (hNew ▸ rfl)
    | user proc i => exact hOld.1.resolve_right fun hNew => (hOther i).2 (hNew ▸ rfl)
  wf := h.custody.wf

theorem call {label : Label} (h : x.Guarded dies) (hCall : Space.Call dies label x y) : y.Guarded dies := by
  have hServed := h.served.call hCall
  cases hCall with
  | none => exact h
  | brk _ => exact h.of_user hServed (steps_kernelBrkImpl x.mem _ _)
  | grow _ _ => exact h.of_user hServed (steps_expandStack x.mem _)
  | load _ hLoad _ => exact h.of_user hServed (LoadProgram.steps_loadProgram hLoad)
  | @fork uc o mem ok _ hNew hCopy hFail =>
      refine ⟨hServed, (congrArg KernelSide.vmEnabled (kernelSide_ucCopy hCopy)).trans h.enabled, ?_⟩
      have hActive : x.mem.active = x.runningProc := h.served.current.active
      have hOther : x.numPcbs ≠ x.mem.active := hActive ▸ hNew.ne'
      have hCopied := custody_ucCopy hCopy h.create (Or.inl h.active) (Or.inr rfl) hOther
      refine hCopied.mono fun p hp => ⟨Or.inl hp, ?_⟩
      rintro rfl
      rcases hp with hIs | hLives
      · exact absurd hIs hNew.ne'
      · cases ok with
        | false => exact absurd (hFail rfl) hLives
        | true => rfl

theorem step (h : x.Guarded dies) (hStep : Space.Step dies x y) : y.Guarded dies := by
  have hServed := h.served.step hStep
  cases hStep with
  | write hStore => exact h.of_user hServed (steps_storeBytes hStore)
  | heap addr =>
      obtain ⟨frames, table, page, hEq⟩ := setKernelBrk_eq x.mem addr
      exact ⟨hServed, (congrArg Memory.vmEnabled hEq).trans h.enabled,
        custody_setKernelBrk h.custody h.served.bounds addr⟩
  | clone hChild hOther =>
      obtain ⟨frames, table, page, stack, pmem, hEq⟩ := kcCopy_eq x.mem _
      exact ⟨hServed, (congrArg Memory.vmEnabled hEq).trans h.enabled,
        custody_kcCopy h.custody h.enabled h.served.bounds _⟩
  | exit next hDies hNext =>
      have hSide := (steps_deallocateRegion1 x.mem).kernelSide
      have hCurrent : (deallocateRegion1 x.mem).Current x.runningProc :=
        h.served.current.of_installed x.mem.currentBrkPage (Memory.installed_of_kernelSide hSide _)
      have hRegion := (steps_deallocateRegion1 x.mem).custody h.custody h.active
      have hStack := custody_deallocateKernelStack hRegion hCurrent (Or.inl rfl)
      have hVm := (kernelSide_deallocateKernelStack (deallocateRegion1 x.mem)).trans hSide
      refine ⟨hServed, (congrArg KernelSide.vmEnabled hVm).trans h.enabled, ?_⟩
      refine (custody_switch hStack next).mono fun p hp => ?_
      have hLives : ¬dies p := by
        rcases hp with rfl | hLives
        · exact hNext
        · exact hLives
      refine ⟨Or.inr hLives, ?_⟩
      rintro rfl
      exact hLives hDies
  | switch next hNext =>
      refine ⟨hServed, h.enabled, (custody_switch h.custody next).mono fun p hp => Or.inr ?_⟩
      rcases hp with rfl | hLives
      · exact hNext
      · exact hLives

theorem steps (h : x.Guarded dies) (hSteps : Space.Steps dies x y) : y.Guarded dies := by
  induction hSteps with
  | refl => exact h
  | tail hBefore hLast ih => exact ih.step hLast

theorem trap {label : Label} (h : x.Guarded dies) (hTrap : Space.Trap dies label x y) : y.Guarded dies := by
  obtain ⟨z, hCall, hSteps⟩ := hTrap
  exact (h.call hCall).steps hSteps

end Space.Guarded

namespace Kernel

variable {s t u : Kernel}

/-- A later state: no process that was gone is back. -/
structure Outlived (s t : Kernel) : Prop where
  idle : t.idleProc = s.idleProc
  size : s.numPcbs ≤ t.numPcbs
  live : ∀ p, p < s.numPcbs → t.Live p → s.Live p

omit [Hardware] in
theorem Outlived.gone (h : Outlived s t) {p : Proc} (hGone : s.Gone p) : t.Gone p :=
  ⟨hGone.1.trans_le h.size, h.idle ▸ hGone.2.1, fun hLive => hGone.2.2 (h.live p hGone.1 hLive)⟩

theorem Outlived.effect {label : Label} (h : Outlived s t) (hSound : KernelStart.Sound t)
    (hEffect : Effect label t u) : Outlived s u := by
  obtain ⟨hIdle, hSize⟩ := size_effect hEffect
  have hMore : t.numPcbs ≤ u.numPcbs := by
    rcases hSize with hSame | ⟨_, _, _, _, hNew⟩
    · exact hSame.ge
    · omega
  refine ⟨hIdle.trans h.idle, h.size.trans hMore, fun p hp hLive => h.live p hp ?_⟩
  obtain ⟨others, hOutcome⟩ := hSound.settled.effect hSound.contexts hEffect
  cases hOutcome.live with
  | exit _ hExit hLives => exact ((hLives p).mp hLive).2
  | fork hUser hFork _ => exact (Settled.live_kernelFork hFork (hp.trans_le h.size).ne).mp hLive
  | same hSame => exact hSame ▸ hLive

omit [Hardware] in
theorem Outlived.same (h : Outlived s t) (hIdle : u.idleProc = t.idleProc) (hSize : u.numPcbs = t.numPcbs)
    (hLive : u.Live = t.Live) : Outlived s u :=
  ⟨hIdle.trans h.idle, hSize ▸ h.size, fun p hp hAlive => h.live p hp (hLive ▸ hAlive)⟩

omit [Hardware] in
theorem Outlived.read (h : Outlived s t) (id len : Nat) : Outlived s (t.read id len) := by
  obtain ⟨ttys, lines, trace, hRead⟩ := read_eq t id len
  rw [hRead]
  exact h.same rfl rfl rfl

/-- A step brings no process back. -/
theorem outlived_step {label : Label} (hSound : KernelStart.Sound s) (h : s.step label = .ok t) : Outlived s t := by
  have hStart : Outlived s s := ⟨rfl, le_rfl, fun _ _ hLive => hLive⟩
  refine hSound.preserve (fun _ _ hSound hKept hEffect => hKept.effect hSound hEffect) hStart h ?_ ?_
  · exact fun _ _ id len _ _ _ hSaved => hSaved.read id len
  · exact fun _ id _ _ _ => (hStart.same (u := { s with mode := .user }) rfl rfl rfl).read id _

/-- In a state between traps, all processes that are not gone own frames. -/
def Guarded (s : Kernel) : Prop := s.space.Guarded s.Gone

theorem Guarded.step {label : Label} (h : s.Guarded) (hSound : KernelStart.Sound s) (hEnd : KernelStart.Sound t)
    (hStep : s.step label = .ok t) : t.Guarded := by
  have hOutlived := outlived_step hSound hStep
  have hStart : s.space.Guarded t.Gone :=
    ⟨h.served, h.enabled, h.custody.mono fun p hp => hp.imp_right fun hLives hGone => hLives (hOutlived.gone hGone)⟩
  exact hStart.trap
    (trap_step hSound.running_lt hSound.contexts.idle_lt (KernelStart.fates_gone hEnd) hStep)

end Kernel

namespace KernelStart

open Kernel

/-- Region 0 and the stack of the idle process map each page to the frame of its
number, and nothing else is mapped. -/
theorem custody_identity {m : Memory} {page : Int} (hTable : m.region0Pt = bootTable page)
    (hStack : ∀ p i, (m.ksPt p i).valid = true →
      p = 0 ∧ 0 ≤ i ∧ i < kStackVpns ∧ m.ksPt p i = bootTable page (stackBase + i))
    (hUser : ∀ p i, ((m.ctx p).region1Pt i).valid = false) (hNext : m.frames.nextFree = 0)
    (hPage : firstKernelDataPage ≤ page)
    (hUsed : ∀ pfn : Nat, m.frames.used pfn ↔ (bootTable page pfn).valid = true) : Custody (fun _ => True) m := by
  -- an owner is a page outside the stack, or one of the stack
  have hPlace {owner : Owner} {pfn : Nat} (hHeld : m.Holds (fun _ => True) owner pfn) :
      ∃ vpn, (bootTable page vpn).valid = true ∧ vpn.toNat = pfn ∧
        (owner = .heap vpn ∧ ¬(stackBase ≤ vpn ∧ vpn < stackLimit) ∨
          owner = .stack 0 (vpn - stackBase) ∧ stackBase ≤ vpn ∧ vpn < stackLimit) := by
    obtain ⟨hCounts, hValid, hPfn⟩ := hHeld
    cases owner with
    | heap vpn =>
        simp only [Memory.entry, hTable] at hValid hPfn
        exact ⟨vpn, hValid, (bootTable_pfn hValid).symm.trans hPfn, Or.inl ⟨rfl, hCounts⟩⟩
    | stack proc i =>
        obtain ⟨rfl, hLow, hHigh, hEntry⟩ := hStack proc i hValid
        simp only [Memory.entry, hEntry] at hValid hPfn
        refine ⟨stackBase + i, hValid, (bootTable_pfn hValid).symm.trans hPfn, Or.inr ⟨?_, ?_, ?_⟩⟩
        · rw [add_sub_cancel_left]
        · omega
        · unfold stackLimit stackBase
          omega
    | user proc i =>
        simp only [Memory.entry, hUser] at hValid
        cases hValid
  have hNonneg {vpn : Int} (hValid : (bootTable page vpn).valid = true) : 0 ≤ vpn := by
    have hIn := (bootTable_valid hPage).mp hValid
    have hBase : 0 ≤ stackBase := Int.natCast_nonneg _
    omega
  constructor
  · constructor
    · intro owner pfn hHeld
      obtain ⟨vpn, hValid, rfl, -⟩ := hPlace hHeld
      refine (hUsed _).mpr ?_
      rwa [Int.toNat_of_nonneg (hNonneg hValid)]
    · intro a b pfn ha hb
      obtain ⟨vpn, hValid, hPfn, hA⟩ := hPlace ha
      obtain ⟨vpn', hValid', hPfn', hB⟩ := hPlace hb
      have hLow := hNonneg hValid
      have hLow' := hNonneg hValid'
      obtain rfl : vpn = vpn' := by omega
      rcases hA with ⟨rfl, hOut⟩ | ⟨rfl, hIn⟩ <;> rcases hB with ⟨rfl, hOut'⟩ | ⟨rfl, hIn'⟩
      · rfl
      · exact absurd hIn' hOut
      · exact absurd hIn hOut'
      · rfl
  · exact ⟨hNext ▸ Nat.zero_le _, fun n hn => absurd (hNext ▸ hn) (Nat.not_lt_zero n)⟩

theorem custody_bootMemory (uctxt : UserContext) (early late : List Word) :
    Custody (fun _ => True) (bootMemory (bootPcbs uctxt).mem early late) := by
  have hImage : (bootPcbs uctxt).mem.HeapBounds := ⟨le_rfl, Int.ofNat_le.mpr brk_le_stack⟩
  obtain ⟨page, hEarly, hBounds⟩ := heapMoves_disabled rfl hImage early
  rw [hEarly] at hBounds
  obtain ⟨frames, hBuilt, hNext, hUsed⟩ := initRegion0Pt_boot uctxt hBounds
  have hPage : firstKernelDataPage ≤ page := (Int.ofNat_le.mpr data_le_brk).trans hBounds.lower
  unfold bootMemory
  dsimp only
  rw [hEarly, hBuilt]
  dsimp only
  generalize hRegion0 : ({ (bootPcbs uctxt).mem with
    frames := frames
    currentBrkPage := page
    region0Pt := bootTable page
    ksPt := _ } : Memory) = built
  have hBlank : (bootPcbs uctxt).mem.ksPt = fun _ _ => .blank := by
    funext p i
    simp [bootPcbs, createNewPcb, bootOutcomes, image]
  have hCtx : (bootPcbs uctxt).mem.ctx = fun _ => .blank := by
    funext p
    simp [bootPcbs, createNewPcb, bootOutcomes, image]
  have hTables : Custody (fun _ => True) built := by
    rw [← hRegion0]
    refine custody_identity rfl (fun p i hValid => ?_) (fun p i => ?_) hNext hPage hUsed
    · simp only [hBlank] at hValid ⊢
      by_cases hp : p = 0
      · subst hp
        rw [Function.update_self] at hValid ⊢
        split_ifs at hValid ⊢ with hIn
        · exact ⟨rfl, hIn.1, hIn.2, rfl⟩
        · cases hValid
      · rw [Function.update_of_ne hp] at hValid
        cases hValid
    · simp only [hCtx]
      rfl
  have hSide := kernelSide_allocPage { built with
    active := 0
    ptbr1 := 0
    ctx := Function.update built.ctx 0 { built.ctx 0 with
      txtStartPage := region1BaseVpn
      dataStartPage := region1BaseVpn
      origBrkPage := region1BaseVpn
      currBrkPage := region1BaseVpn } } (region1LimitVpn - 1) .readWrite
  have hReady : Custody (fun _ => True) (initRegion1Pt built 0).1 := by
    refine (Step.alloc _ _).custody (hTables.keep (fun owner _ _ => ?_) subset_rfl hTables.wf) trivial
    cases owner with
    | heap vpn => rfl
    | stack proc i => rfl
    | user proc i =>
        by_cases hProc : proc = 0
        · subst hProc
          simp [Memory.entry]
        · simp [Memory.entry, hProc]
  have hVm : (initRegion1Pt built 0).1.vmEnabled = false :=
    (congrArg KernelSide.vmEnabled hSide).trans (by rw [← hRegion0]; rfl)
  have hHeap : (initRegion1Pt built 0).1.HeapBounds :=
    hBounds.of_brk ((congrArg KernelSide.currentBrkPage hSide).trans (by rw [← hRegion0]; rfl))
  obtain ⟨last, hLate, -⟩ := heapMoves_disabled hVm hHeap late
  rw [hLate]
  exact ⟨hReady.sound, hReady.wf⟩

theorem guarded_kernelStart (uctxt : UserContext) (early late : List Word) :
    (kernelStart uctxt early late).Guarded := by
  have hBoot := custody_bootMemory uctxt early late
  have hEnabled : Custody (fun _ => True) { bootMemory (bootPcbs uctxt).mem early late with vmEnabled := true } :=
    ⟨hBoot.sound, hBoot.wf⟩
  have hBounds := (served_bootMemory uctxt early late).bounds
  have hClone := custody_kcCopy hEnabled rfl (hBounds.of_brk rfl) 1
  refine ⟨served_kernelStart uctxt early late, ?_, ?_⟩
  · obtain ⟨frames, table, page, stack, pmem, hEq⟩ :=
      kcCopy_eq { bootMemory (bootPcbs uctxt).mem early late with vmEnabled := true } 1
    rw [space_kernelStart]
    exact congrArg Memory.vmEnabled hEq
  · rw [space_kernelStart]
    exact hClone.mono fun _ _ => trivial

theorem guarded_reachable {s : Kernel} (run : system.Reachable s) : s.Guarded := by
  refine run.invariant (I := Guarded) ?_ fun s label t hRun hGuarded _ hStep => ?_
  · rintro s ⟨uctxt, early, late, rfl⟩
    exact guarded_kernelStart uctxt early late
  · exact hGuarded.step (sound_reachable hRun) (sound_reachable (reachable_step hRun hStep)) hStep

end KernelStart

end Step

/-- A process that was created and has neither exited nor been given up by a fork. -/
def Kernel.Exists (s : Kernel) (p : Proc) : Prop :=
  p < s.numPcbs ∧ (s.pcb p).freed = false ∧ (s.pcb p).state ≠ .exited

instance (s : Kernel) (p : Proc) : Decidable (s.Exists p) := inferInstanceAs (Decidable (_ ∧ _))

/-- The entry is valid in region 0 outside the kernel stack, or in a table of a process
that exists, and refers to this frame. -/
def Kernel.References [Hardware] (s : Kernel) (owner : Owner) (pfn : Nat) : Prop :=
  s.mem.Holds s.Exists owner pfn

namespace KernelStart

/-- No frame is referenced by two owners, and every frame that is referenced is
marked in use. -/
theorem frames_exclusive [Hardware] {s : Kernel} (run : system.Reachable s) :
    (∀ a b pfn, s.References a pfn → s.References b pfn → a = b) ∧
      ∀ a pfn, s.References a pfn → pfn ∈ s.mem.frames.inUse := by
  have hCustody : Custody s.Exists s.mem := by
    refine (guarded_reachable run).custody.mono fun p hp => Or.inr fun hGone => hGone.2.2 ?_
    exact ⟨hGone.2.1, hp⟩
  exact ⟨hCustody.sound.apart, hCustody.sound.marked⟩

open Sample in
/-- The first page of a forked child. -/
theorem frames_exclusive_child : ∃ s : Kernel, system.Reachable s ∧ ∃ pfn, s.References (.user 2 0) pfn ∧
    pfn ∈ s.mem.frames.inUse ∧ ∀ owner, s.References owner pfn → owner = .user 2 0 := by
  obtain ⟨s, run, hExists, hValid⟩ := Transition.System.exists_reachable
    (P := fun s : Kernel => s.Exists 2 ∧ ((s.mem.ctx 2).region1Pt 0).valid = true)
    (turn ++ [call .fork []]) initial_booted (by decide +kernel)
  obtain ⟨hApart, hMarked⟩ := frames_exclusive run
  have hPage : s.References (.user 2 0) ((s.mem.ctx 2).region1Pt 0).pfn := ⟨hExists, hValid, rfl⟩
  exact ⟨s, run, _, hPage, hMarked _ _ hPage, fun owner hOwner => hApart _ _ _ hOwner hPage⟩

end KernelStart
end Yalnix
