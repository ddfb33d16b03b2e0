import Yalnix.Process.Registry
import Yalnix.Device.PipeInstances

/-! Waiting for children. A process in `Wait` leaves the queue of the waiting
processes when one of its children has exited and is reported to it, and it
then stores the exit code of that child. -/
namespace Yalnix

open Apart Hardware

/-- The child whose exit an event reports to the process. -/
def Event.reportsTo (p : Proc) : Event → Option Proc
  | .reaped parent child => if parent = p then some child else none
  | _ => none

theorem Event.reportsTo_reaped (p child : Proc) : (Event.reaped p child).reportsTo p = some child := if_pos rfl

/-- The children that were reported to the process so far. -/
def Kernel.reports (s : Kernel) (p : Proc) : List Proc := s.trace.filterMap (Event.reportsTo p)

/-- The processes that wait for a child. -/
abbrev Place.waiters : Place := .queue (.sched .waitBlocking)

namespace Kernel

variable [Hardware] {label : Label} {s t : Kernel} {p : Proc}

theorem dormant_waiters (h : KernelStart.Sound s) : s.dormant.waiters = (s.contents .waiters).length :=
  h.settled.placement.length .waitBlocking

/-- A process that starts to wait is counted. -/
theorem waiters_of_enters (h : Enters label s t p .wait) :
    p = s.runningProc ∧ s.inUser ∧ t.dormant.waiters = s.dormant.waiters + 1 := by
  cases h with
  | block hp hUser hParks hQuiet hSwitch =>
      cases hParks with
      | lock hKc => rcases hKc with hKc | hKc <;> cases hKc
      | wait =>
          refine ⟨hp, hUser, ?_⟩
          rw [hSwitch, dormant_of_records (records_switchAway _ _), dormant_of_quiet hQuiet]
          rfl

theorem waiter_cases (h : KernelStart.Sound s) (hEffect : Effect label s t) (hp : p ∈ t.contents .waiters) :
    p ∈ s.contents .waiters ∨
      p = s.runningProc ∧ s.inUser ∧ t.dormant.waiters = s.dormant.waiters + 1 := by
  obtain ⟨others, hOutcome⟩ := h.settled.effect h.contexts hEffect
  rw [hOutcome.settled.contents_eq] at hp
  refine (hOutcome.arrivals .waiters rfl p hp).imp_right fun hJoins => ?_
  cases hJoins with
  | block hEnters _ hAt =>
      obtain rfl : _ = KernelContext.wait := hAt
      exact waiters_of_enters hEnters

/-- Nobody leaves the queue when it does not get shorter. -/
theorem waiter_stays (h : KernelStart.Sound s) (hEffect : Effect label s t)
    (hCount : s.dormant.waiters ≤ t.dormant.waiters) (hp : p ∈ s.contents .waiters) :
    p ∈ t.contents .waiters := by
  have hNext := h.effects hEffect.one
  have hNodup := hNext.settled.placement.placed.nodup .waiters
  rw [dormant_waiters h, dormant_waiters hNext] at hCount
  by_cases hJoined : ∃ q ∈ t.contents .waiters, q ∉ s.contents .waiters
  · -- the running process has joined: the new queue is the old one and that process
    obtain ⟨q, hq, hNew⟩ := hJoined
    obtain ⟨rfl, -, hMore⟩ := (waiter_cases h hEffect hq).resolve_left hNew
    rw [dormant_waiters h, dormant_waiters hNext] at hMore
    have hSub : t.contents .waiters ⊆ s.runningProc :: s.contents .waiters := by
      intro q hq
      rcases waiter_cases h hEffect hq with hOld | ⟨rfl, -⟩
      · exact List.mem_cons_of_mem _ hOld
      · exact List.mem_cons_self
    have hPerm := (hNodup.subperm hSub).perm_of_length_le (by simp [hMore])
    exact hPerm.mem_iff.mpr (List.mem_cons_of_mem _ hp)
  · have hSub : t.contents .waiters ⊆ s.contents .waiters := by
      intro q hq
      by_contra hNew
      exact hJoined ⟨q, hq, hNew⟩
    exact ((hNodup.subperm hSub).perm_of_length_le hCount).mem_iff.mpr hp

/-- A process inside its call does not join the queue again. -/
theorem not_waiter_effect (h : KernelStart.Sound s) (hEffect : Effect label s t) (hInside : s.Inside p .wait)
    (hp : p ∉ s.contents .waiters) : p ∉ t.contents .waiters := by
  intro hNew
  obtain ⟨rfl, hUser, -⟩ := (waiter_cases h hEffect hNew).resolve_left hp
  exact not_inside_running hUser.1 hInside

/-- The process that is woken leaves the queue, and nobody else does. -/
theorem waiters_woken (h : KernelStart.Sound s) (hWoken : s.Woken t p) :
    (s.contents .waiters).Perm (p :: t.contents .waiters) := by
  obtain ⟨shrinkOk, u, hFind, rfl⟩ := hWoken
  obtain ⟨rest, others, hRest, hInv, hFrame, hx, hHand⟩ := h.settled.wakeWaiter h.settled.hand hFind
  have hSettled := h.settled.of_inv hInv ((cpu_scheduleProcess _ _).trans
    (cpu_of_outside (outside_fst (outside_findWaiter s _) hFind))) hx hHand
  rw [hSettled.contents_eq, hFrame.calm _ rfl, Function.update_self]
  exact hRest

omit [Hardware] in
theorem waiters_putToSleep {ticks : Word} {growOk ok : Bool}
    (h : s.putToSleep p ticks growOk = (t, ok)) : t.dormant.waiters = s.dormant.waiters := by
  unfold putToSleep at h
  dsimp only at h
  split at h
  · rename_i u hAdd
    obtain ⟨rfl, -⟩ := Prod.mk.inj h
    rw [addToHeap_eq hAdd]
    rfl
  · obtain ⟨rfl, -⟩ := Prod.mk.inj h
    rfl

/-- A process stops waiting only when a child is reported to it. -/
theorem waiter_effect (h : KernelStart.Sound s) (hEffect : Effect label s t) (hp : p ∈ s.contents .waiters) :
    p ∈ t.contents .waiters ∨ s.Woken t p := by
  rcases dormant_effect hEffect with hSame | hStep
  · exact Or.inl (waiter_stays h hEffect (by rw [hSame]) hp)
  · cases hStep with
    | wait hUser hQuiet =>
        refine Or.inl (waiter_stays h hEffect ?_ hp)
        rw [dormant_of_records (records_switchAway _ _), dormant_of_quiet hQuiet.toQuiet]
        exact Nat.le_succ _
    | @sleep parked u ticks growOk hUser hSleep hQuiet =>
        refine Or.inl (waiter_stays h hEffect ?_ hp)
        rw [dormant_of_records (records_switchAway _ _), dormant_of_quiet hQuiet.toQuiet,
          waiters_putToSleep hSleep]
    | @wakeWaiter u proc shrinkOk hFind hCall =>
        by_cases hSelf : proc = p
        · exact Or.inr ⟨shrinkOk, u, hSelf ▸ hFind, by rw [hSelf]⟩
        · have hMem := (waiters_woken h ⟨shrinkOk, u, hFind, rfl⟩).mem_iff.mp hp
          exact Or.inl ((List.mem_cons.mp hMem).resolve_left (Ne.symm hSelf))
    | wakeSleeper _ _ hRemove =>
        refine Or.inl (waiter_stays h hEffect ?_ hp)
        rw [removeFromHeap_eq hRemove]
        exact Nat.le_refl _

omit [Hardware] in
theorem reports_eq (s : Kernel) (p : Proc) : s.reports p = s.kin.log.filterMap (Event.reportsTo p) := by
  unfold reports kin
  dsimp only
  rw [List.filterMap_filter]
  congr 1
  funext e
  cases e <;> rfl

omit [Hardware] in
theorem reports_of_log {l : List Event} (h : t.kin.log = s.kin.log ++ l)
    (hNone : ∀ e ∈ l, e.reportsTo p = none) : t.reports p = s.reports p := by
  rw [reports_eq, reports_eq, h, List.filterMap_append, List.filterMap_eq_nil_iff.mpr hNone, List.append_nil]

omit [Hardware] in
/-- Nothing is reported to a process that neither calls `Wait` nor is woken. -/
theorem reports_effect {kids others : Proc → List Proc} (hOther : ¬(p = s.runningProc ∧ s.inUser))
    (hAsleep : ¬s.Woken t p) (hStep : TreeStep label s t kids others) : t.reports p = s.reports p := by
  cases hStep with
  | same hKin => rw [reports_eq, reports_eq, hKin]
  | @reap parent child i r _ hWho _ _ _ hKin =>
      have hNe : parent ≠ p := by
        rintro rfl
        rcases hWho with hCaller | hWoken
        · exact hOther hCaller
        · exact hAsleep hWoken
      refine reports_of_log (l := [.freed child, .reaped parent child]) (by rw [hKin]) fun e he => ?_
      simp only [List.mem_cons, List.not_mem_nil, or_false] at he
      rcases he with rfl | rfl
      · rfl
      · exact if_neg hNe
  | @exit x code _ hKin =>
      refine reports_of_log (l := [.exited x code] ++ ((kids x).filter fun q => ¬s.Live q).map .freed ++
        if (s.kin.relations x).hasParent then [] else [.freed x]) (by rw [hKin]; simp) fun e he => ?_
      rcases List.mem_append.mp he with he | he
      · rcases List.mem_append.mp he with he | he
        · rw [List.mem_singleton.mp he]
          rfl
        · obtain ⟨q, -, rfl⟩ := List.mem_map.mp he
          rfl
      · split_ifs at he
        · cases he
        · rw [List.mem_singleton.mp he]
          rfl
  | failed hKin =>
      refine reports_of_log (l := [.freed s.numPcbs]) (by rw [hKin]) fun e he => ?_
      rw [List.mem_singleton.mp he]
      rfl
  | @fork parent _ _ _ _ _ _ hKin =>
      refine reports_of_log (l := [.forked parent s.numPcbs]) (by rw [hKin]) fun e he => ?_
      rw [List.mem_singleton.mp he]
      rfl

omit [Hardware] in
theorem log_mono {kids others : Proc → List Proc} (hStep : TreeStep label s t kids others) {e : Event}
    (he : e ∈ s.kin.log) : e ∈ t.kin.log := by
  cases hStep with
  | same hKin => rwa [hKin]
  | reap _ _ _ _ _ hKin | failed hKin | fork _ _ _ hKin =>
      rw [hKin]
      exact List.mem_append_left _ he
  | exit _ hKin =>
      rw [hKin]
      simp [he]

omit [Hardware] in
/-- A child that has exited is found and reported. -/
theorem report_found {kids : Proc → List Proc} {shrinkOk : Bool} {code : Word} (hFamily : Family s kids)
    (hRegistry : Registry s kids) (hLive : s.Live p) (hFound : s.findExitedChild p shrinkOk = some (t, code)) :
    ∃ child, t.reports p = s.reports p ++ [child] ∧ .exited child code ∈ t.kin.log := by
  obtain ⟨i, child, r, hChild, hExited, rfl, -, -, rfl⟩ := findExitedChild_some (hFamily.holds p hLive) hFound
  have hKept := (hFamily.child p child (List.mem_of_getElem? hChild)).1
  have hLast : (((s.freePcb child).setRelations p r).emit (.reaped p child)).kin.log =
      s.kin.log ++ [.freed child, .reaped p child] := by
    rw [kin_emit_kin _ rfl, kin_setRelations, kin_freePcb]
    simp
  refine ⟨child, ?_, ?_⟩
  · rw [reports_eq, reports_eq, hLast, List.filterMap_append, List.filterMap_cons_none rfl,
      List.filterMap_cons_some (Event.reportsTo_reaped p child), List.filterMap_nil]
  · rw [hLast]
    exact List.mem_append_left _ (hRegistry.exited child hKept (hKept.exited_iff.mp hExited))

/-- A process that waits is told about a child. -/
theorem report_woken {kids : Proc → List Proc} (h : KernelStart.Sound s) (hFamily : Family s kids)
    (hRegistry : Registry s kids) (hWoken : s.Woken t p) :
    p ∈ s.contents .waiters ∧ p ∉ t.contents .waiters ∧ ∃ child, t.reports p = s.reports p ++ [child] ∧
      .exited child ((t.pcb p).uc.regs 1) ∈ t.kin.log ∧ (t.pcb p).uc.regs 0 = (s.pcb p).uc.regs 0 := by
  have hPerm := waiters_woken h hWoken
  have hMem : p ∈ s.contents .waiters := hPerm.mem_iff.mpr List.mem_cons_self
  refine ⟨hMem, (List.nodup_cons.mp (hPerm.nodup (h.settled.placement.placed.nodup _))).1, ?_⟩
  obtain ⟨shrinkOk, u, hFind, rfl⟩ := hWoken
  obtain ⟨-, v, code, hFound, hKin, hSaved, -⟩ :=
    kin_findWaiter (h.settled.placement.linked (.sched .waitBlocking)).1 hFind
  have hRegs : (u.pcb p).uc.regs = Function.update (s.pcb p).uc.regs 1 code := congrArg UserContext.regs hSaved
  obtain ⟨child, hReports, hExited⟩ :=
    report_found hFamily hRegistry (h.settled.placement.live_of_mem hMem) hFound
  have hLast : (u.scheduleProcess p).kin = v.kin := (kin_of_records (records_scheduleProcess u p)).trans hKin
  have hUc : ((u.scheduleProcess p).pcb p).uc = (u.pcb p).uc := uc_of_records (records_scheduleProcess u p) p
  refine ⟨child, ?_, ?_, ?_⟩
  · rw [reports_eq, hLast, ← reports_eq, hReports]
  · rw [hUc, hRegs, hLast, Function.update_self]
    exact hExited
  · rw [hUc, hRegs, Function.update_of_ne (by decide)]

omit [Hardware] in
/-- The state of a `Wait` that has blocked: the caller waits and nothing was
reported to it, or one child was, and its exit code is in the register. -/
structure Awaits (s : Kernel) (p : Proc) (before : List Proc) (statusP : Word) : Prop where
  pointer : (s.pcb p).uc.regs 0 = statusP
  report : p ∈ s.contents .waiters ∧ s.reports p = before ∨
    p ∉ s.contents .waiters ∧ ∃ child, s.reports p = before ++ [child] ∧
      .exited child ((s.pcb p).uc.regs 1) ∈ s.kin.log

theorem Awaits.effect {before : List Proc} {statusP : Word} (hAwaits : s.Awaits p before statusP)
    (h : KernelStart.Sound s) (hLineage : s.Lineage) (hInside : s.Inside p .wait) (hAside : s.Aside label p)
    (hEffect : Effect label s t) : t.Awaits p before statusP := by
  obtain ⟨kids, hFamily, hRegistry⟩ := hLineage
  by_cases hWoken : s.Woken t p
  · obtain ⟨hMem, hLeft, child, hReports, hExited, hPointer⟩ := report_woken h hFamily hRegistry hWoken
    have hBefore : s.reports p = before :=
      hAwaits.report.elim (fun hWaits => hWaits.2) fun hTold => absurd hMem hTold.1
    exact ⟨hPointer.trans hAwaits.pointer, Or.inr ⟨hLeft, child, hBefore ▸ hReports, hExited⟩⟩
  · obtain ⟨others, -, hStep⟩ := hFamily.effect h hEffect
    have hCaller : ¬(p = s.runningProc ∧ s.inUser) := by
      rintro ⟨rfl, hUser⟩
      exact not_inside_running hUser.1 hInside
    have hReports := reports_effect hCaller hWoken hStep
    have hUc : (t.pcb p).uc = (s.pcb p).uc := by
      rcases saved_effect hEffect hAside hInside.1.2.1 with hSame | ⟨q, hOther⟩
      · exact congrArg Prod.fst hSame
      · have hNe : p ≠ q := fun hp => hWoken (hp ▸ hOther)
        obtain ⟨shrinkOk, u, hFind, rfl⟩ := hOther
        obtain ⟨-, -, -, -, -, -, hSame⟩ :=
          kin_findWaiter (h.settled.placement.linked (.sched .waitBlocking)).1 hFind
        exact (uc_of_records (records_scheduleProcess u q) p).trans (hSame p hNe)
    refine ⟨by rw [hUc, hAwaits.pointer], ?_⟩
    rw [hReports, hUc]
    refine hAwaits.report.imp (fun hWaits => ?_) fun ⟨hLeft, child, hTold, hExited⟩ => ?_
    · exact ⟨(waiter_effect h hEffect hWaits.1).resolve_right hWoken, hWaits.2⟩
    · exact ⟨not_waiter_effect h hEffect hInside hLeft, child, hTold, log_mono hStep hExited⟩

theorem Awaits.step {before : List Proc} {statusP : Word} (hAwaits : s.Awaits p before statusP)
    (h : KernelStart.Sound s) (hLineage : s.Lineage) (hInside : s.Inside p .wait)
    (hOther : ¬(p = s.runningProc ∧ label.isResume = true)) (hStep : s.step label = .ok t) :
    t.Awaits p before statusP := by
  have hResult := Inside.preserve (I := fun u => u.Lineage ∧ u.Awaits p before statusP)
    (fun label u v hu hIn hAside hEffect hOld =>
      ⟨hOld.1.effect hu hEffect, hOld.2.effect hu hOld.1 hIn hAside hEffect⟩)
    (fun u id len hu hOld => ⟨hOld.1.read id len, ?_⟩) (fun u hu hOld => ⟨hOld.1.same rfl rfl rfl rfl, ?_⟩)
    h hInside hOther ⟨hLineage, hAwaits⟩ hStep
  · exact hResult.2.2
  · have hRecords := records_read u id len
    obtain ⟨hPointer, hReport⟩ := hOld.2
    refine ⟨(congrArg (fun uc => uc.regs 0) (uc_of_records hRecords p)).trans hPointer, ?_⟩
    rw [contents_read hu, reports_eq, kin_of_records hRecords, ← reports_eq, uc_of_records hRecords]
    exact hReport
  · exact ⟨hOld.2.pointer, hOld.2.report⟩

omit [Hardware] in
/-- The step from `u` to `t` returns from a `Wait`: one more child was reported to
the caller, and its exit code is stored. -/
def Reported (u t : Kernel) (p : Proc) (before : List Proc) (statusP : Word) : Prop :=
  ∃ child code, t.reports p = before ++ [child] ∧ .forked p child ∈ t.trace ∧ .exited child code ∈ t.trace ∧
    (t.pcb p).uc.regs 0 = 0 ∧
    if statusP = 0 then t.mem = u.mem else u.mem.storeWord statusP.toInt code = .ok t.mem

omit [Hardware] in
theorem mem_trace_of_log {e : Event} (he : e ∈ s.kin.log) : e ∈ s.trace := (List.mem_filter.mp he).1

omit [Hardware] in
theorem forked_of_reports {child : Proc} (hLineage : s.Lineage) (hChild : child ∈ s.reports p) :
    .forked p child ∈ s.trace := by
  obtain ⟨kids, -, hRegistry⟩ := hLineage
  rw [reports_eq] at hChild
  obtain ⟨e, he, hReports⟩ := List.mem_filterMap.mp hChild
  cases e with
  | reaped parent c =>
      obtain ⟨rfl, rfl⟩ : parent = p ∧ c = child := by simpa [Event.reportsTo] using hReports
      exact mem_trace_of_log (hRegistry.reaped _ _ he).2.2.1
  | _ => cases hReports

/-- The end of `KernelWait`, which both ways through it share. -/
theorem Reported.of_return {u v t : Kernel} {before : List Proc} {statusP code : Word} {child : Proc}
    (hReports : v.reports p = before ++ [child]) (hForked : .forked p child ∈ v.trace)
    (hExited : .exited child code ∈ v.kin.log) (hMem : v.mem = u.mem) (hp : v.runningProc = p)
    (hReturn : (if statusP = 0 then Except.ok (v.ret 0) else do
      let mem ← v.mem.storeWord statusP.toInt code
      return (v.setMem mem).ret 0) = Except.ok t) : u.Reported t.leave p before statusP := by
  obtain ⟨mem, rfl, hStore⟩ : ∃ mem, t = (v.setMem mem).ret 0 ∧
      if statusP = 0 then mem = u.mem else u.mem.storeWord statusP.toInt code = .ok mem := by
    split_ifs at hReturn ⊢
    · exact ⟨v.mem, (Except.ok.inj hReturn).symm, hMem⟩
    · obtain ⟨mem, hStore, hLast⟩ := Transition.bind_eq_ok.mp hReturn
      exact ⟨mem, (Except.ok.inj hLast).symm, hMem ▸ hStore⟩
  refine ⟨child, code, ?_, ?_, ?_, ?_, ?_⟩
  · rw [reports, leave_trace]
    exact hReports
  · rw [leave_trace]
    exact hForked
  · rw [leave_trace]
    exact mem_trace_of_log hExited
  · rw [leave_pcb, ← hp]
    simp [ret, setResult, modifyPcb, UserContext.result, setMem]
  · rw [leave_mem]
    exact hStore

omit [Hardware] in
theorem mem_findExitedChild {parent : Proc} {shrinkOk : Bool} {code : Word}
    (h : s.findExitedChild parent shrinkOk = some (t, code)) : t.mem = s.mem := by
  simp only [findExitedChild, Option.bind_eq_bind, Option.bind_eq_some_iff, Option.some.injEq,
    Prod.mk.injEq] at h
  obtain ⟨i, -, child, -, rfl, -⟩ := h
  rfl

/-- A process that starts to wait is in the queue. -/
theorem waiter_joins (h : KernelStart.Sound s) (hEffect : Effect label s t)
    (hCount : t.dormant.waiters = s.dormant.waiters + 1) : s.runningProc ∈ t.contents .waiters := by
  have hNext := h.effects hEffect.one
  by_contra hNot
  have hSub : t.contents .waiters ⊆ s.contents .waiters := by
    intro q hq
    rcases waiter_cases h hEffect hq with hOld | ⟨rfl, -⟩
    · exact hOld
    · exact absurd hq hNot
  have hLe := ((hNext.settled.placement.placed.nodup .waiters).subperm hSub).length_le
  rw [← dormant_waiters h, ← dormant_waiters hNext, hCount] at hLe
  exact Nat.not_succ_le_self _ hLe

/-- A `Wait` that blocks. -/
theorem awaits_block {first : Kernel} {statusP : Word} (h : KernelStart.Sound s) (hUser : s.inUser)
    (hSaved : Silent first s) (hPointer : s.reg 0 = statusP) :
    let t := ((s.waitBlockProcess s.runningProc).switchAway .wait).leave
    t.mode = .resuming ∧ t.Inside s.runningProc .wait ∧
      t.Awaits s.runningProc (first.reports s.runningProc) statusP := by
  have hMode : ((s.waitBlockProcess s.runningProc).switchAway .wait).mode = .resuming :=
    congrArg Cpu.mode (cpu_switchAway (s.waitBlockProcess s.runningProc) .wait)
  have hLeave : ((s.waitBlockProcess s.runningProc).switchAway .wait).leave =
      (s.waitBlockProcess s.runningProc).switchAway .wait := by
    unfold leave
    rw [hMode]
  have hParks : Parks .math s .wait (s.waitBlockProcess s.runningProc) := .wait
  have hEffect : Effect .math s _ := .block hUser hParks (.refl _)
  have hRecords := records_switchAway (s.waitBlockProcess s.runningProc) .wait
  intro t
  rw [show t = _ from hLeave]
  refine ⟨hMode, h.inside_parked hUser hParks (.refl _), ?_, Or.inl ⟨waiter_joins h hEffect ?_, ?_⟩⟩
  · rw [uc_of_records hRecords, ← hPointer]
    exact congrArg (fun uc => uc.regs 0) (pcb_modifyPcb (v := Pcb.uc) (f := fun p => { p with state := .waiting })
      rfl s.runningProc)
  · rw [dormant_of_records hRecords]
    rfl
  · rw [reports_eq, kin_of_records hRecords, (Steady.parks hParks).kin, hSaved.kin, ← reports_eq]

/-- A `Wait` reports a child and returns, or it blocks. -/
theorem wait_cases {uc : UserContext} {o : Outcomes} (h : KernelStart.Sound s) (hLineage : s.Lineage)
    (hStep : s.step (.syscall .wait uc o) = .ok t) :
    t.mode = .user ∧ s.Reported t s.runningProc (s.reports s.runningProc) (uc.regs 0) ∨
      t.mode = .resuming ∧ t.Inside s.runningProc .wait ∧
        t.Awaits s.runningProc (s.reports s.runningProc) (uc.regs 0) := by
  simp only [step] at hStep
  split_ifs at hStep with hUser
  obtain ⟨v, hDispatch, hLeave⟩ := Transition.bind_eq_ok.mp hStep
  obtain rfl := Except.ok.inj hLeave
  have hSaved := h.quiet (Silent.saveUc s uc).toQuiet
  have hSavedLineage : (s.saveUc uc).Lineage :=
    hLineage.effect h (.quiet (Silent.saveUc s uc) (Or.inl hUser.1) : Effect .math s (s.saveUc uc))
  have hSavedUser : (s.saveUc uc).inUser := hUser
  obtain ⟨kids, hFamily, hRegistry⟩ := hSavedLineage
  unfold dispatch kernelWait at hDispatch
  dsimp only at hDispatch
  rw [reg_saveUc] at hDispatch
  split at hDispatch
  · -- nothing to report: the caller blocks
    obtain rfl := Except.ok.inj hDispatch
    exact Or.inr (awaits_block hSaved hSavedUser (Silent.saveUc s uc) (reg_saveUc s uc 0))
  · rename_i found code hFound
    have hLive := hSaved.settled.live_running hSavedUser
    obtain ⟨child, hReports, hExited⟩ := report_found hFamily hRegistry hLive hFound
    have hReap : Effect (.syscall .wait uc o) (s.saveUc uc) found := .reap hSavedUser (by simp [Label.waits]) hFound
    have hForked : .forked s.runningProc child ∈ found.trace :=
      forked_of_reports (Lineage.effect ⟨kids, hFamily, hRegistry⟩ hSaved hReap)
        (hReports ▸ List.mem_append_right _ (List.mem_singleton_self child))
    have hQuiet := Quiet.findExitedChild hFound
    have hMem : found.mem = s.mem := (mem_findExitedChild hFound :)
    refine Or.inl ⟨?_, .of_return hReports hForked hExited hMem hQuiet.runningProc hDispatch⟩
    rw [(Quiet.leave v).mode]
    refine Eq.trans ?_ (hQuiet.mode.trans hUser.1)
    split_ifs at hDispatch
    · obtain rfl := Except.ok.inj hDispatch
      rfl
    · obtain ⟨mem, -, hLast⟩ := Transition.bind_eq_ok.mp hDispatch
      obtain rfl := Except.ok.inj hLast
      rfl

/-- A `Wait` that has blocked returns. -/
theorem wait_resumes {o : Outcomes} {before : List Proc} {statusP : Word} (h : KernelStart.Sound s)
    (hLineage : s.Lineage) (hInside : s.Inside s.runningProc .wait) (hAwaits : s.Awaits s.runningProc before statusP)
    (hStep : s.step (.resume o) = .ok t) : s.Reported t s.runningProc before statusP := by
  simp only [step] at hStep
  split_ifs at hStep with hMode
  simp only [resume, hInside.2.1] at hStep
  obtain ⟨v, hContinue, hLeave⟩ := Transition.bind_eq_ok.mp hStep
  obtain rfl := Except.ok.inj hLeave
  have hGone : s.runningProc ∉ s.contents .waiters := fun hp => ne_running h rfl hp rfl
  obtain ⟨-, child, hReports, hExited⟩ := hAwaits.report.resolve_left fun hWaits => hGone hWaits.1
  have hForked := forked_of_reports hLineage (hReports ▸ List.mem_append_right _ (List.mem_singleton_self child))
  have hReturn : { s with mode := .user }.waitReturn = .ok v := hContinue
  unfold waitReturn at hReturn
  have hReg : reg { s with mode := .user } 0 = statusP := hAwaits.pointer
  rw [hReg] at hReturn
  exact Reported.of_return (v := { s with mode := .user }) hReports hForked hExited rfl rfl hReturn

section WakeWaiters

omit [Hardware] in
/-- The search looks at everybody in the queue. -/
theorem cond_of_findBlockedFrom_none {type : QueueType} {cond : Kernel → Proc → Option Kernel} {fuel : Nat}
    {prev curr : Option Proc} {nodes : List Proc} (hChain : IntrusiveQueue.Chain s.next curr nodes)
    (hFuel : nodes.length ≤ fuel) (h : s.findBlockedFrom type cond fuel prev curr = (t, none)) :
    ∀ q ∈ nodes, cond s q = none := by
  induction nodes generalizing fuel prev curr with
  | nil => simp
  | cons node nodes ih =>
      obtain ⟨rfl, hRest⟩ := hChain
      cases fuel with
      | zero => simp at hFuel
      | succ fuel =>
          unfold findBlockedFrom at h
          split at h
          · rename_i hNone
            intro q hq
            rcases List.mem_cons.mp hq with rfl | hq
            · exact hNone
            · exact ih hRest (Nat.le_of_succ_le_succ hFuel) h q hq
          · simp at h

/-- Nobody who waits has a child that has exited. -/
def Unreported (s : Kernel) : Prop :=
  ∀ p ∈ s.contents .waiters, ∀ i child, s.childAt p i = some child → (s.pcb child).state ≠ .exited

/-- `wake_waiters` makes as many rounds as there are processes to wake. -/
theorem unreported_wakeWaiters (hCall : label.isClock = true) {fuel : Nat} (h : KernelStart.Sound s)
    (hLineage : s.Lineage) (shrinkOk : Nat → Bool) (hFuel : (s.contents .waiters).length ≤ fuel) :
    (s.wakeWaiters shrinkOk fuel).Unreported := by
  induction fuel generalizing s with
  | zero =>
      intro p hp
      have hNil : s.contents .waiters = [] := List.eq_nil_of_length_eq_zero (Nat.le_zero.mp hFuel)
      rw [wakeWaiters, hNil] at hp
      cases hp
  | succ fuel ih =>
      unfold wakeWaiters
      split
      · rename_i u hFind
        obtain rfl := eq_of_findBlockedFrom_none hFind
        obtain ⟨kids, hFamily, -⟩ := hLineage
        intro p hp i child hChild
        have hLive := h.settled.placement.live_of_mem hp
        have hCond := cond_of_findBlockedFrom_none (h.settled.placement.linked (.sched .waitBlocking)).1
          (h.settled.placement.length .waitBlocking).ge hFind p hp
        rw [waitUnblockCond, Option.map_eq_none_iff] at hCond
        rw [hFamily.childAt_eq hLive] at hChild
        exact findExitedChild_none (hFamily.holds p hLive) hCond child (List.mem_of_getElem? hChild)
      · rename_i u proc hFind
        have hEffect : Effect label s (u.scheduleProcess proc) := .wakeWaiter hFind hCall
        refine ih (h.effects hEffect.one) (hLineage.effect h hEffect) ?_
        have hLength := (waiters_woken h ⟨_, _, hFind, rfl⟩).length_eq
        rw [hLength] at hFuel
        exact Nat.le_of_succ_le_succ hFuel

omit [Hardware] in
/-- The state of a clock trap when `wake_waiters` returns. -/
def waitersWoken (s : Kernel) (o : Outcomes) : Kernel :=
  let s := s.ticked
  s.wakeWaiters (fun i => o.alloc (2 * i)) (s.queues .waitBlocking).length

theorem unreported_waitersWoken (h : KernelStart.Sound s) (hLineage : s.Lineage) (o : Outcomes) :
    (s.waitersWoken o).Unreported := by
  have hTick : Effect (.clock s.uc o) s s.ticked := .ticked rfl
  have hTicked := h.effects hTick.one
  have hCall : (Label.clock s.uc o).isClock = true := rfl
  exact unreported_wakeWaiters hCall hTicked (hLineage.effect h hTick) _ (dormant_waiters hTicked).ge

end WakeWaiters

end Kernel

namespace KernelStart

open Kernel

theorem reaped_eq (s : Kernel) : s.trace.filterMap Event.reapedChild = s.kin.log.filterMap Event.reapedChild := by
  unfold kin
  dsimp only
  rw [List.filterMap_filter]
  congr 1
  funext e
  cases e <;> rfl

/-- `Wait` reports every child once. No child is reported twice, and only to the
process that forked it; every completed call reports one child and stores its
exit code; and after `wake_waiters` nobody waits who has a child to report. -/
theorem wait_reports_once [Hardware] {s : Kernel} (run : system.Reachable s) :
    ((s.trace.filterMap Event.reapedChild).Nodup ∧
      ∀ p c, .reaped p c ∈ s.trace → .forked p c ∈ s.trace ∧ (∀ q, .forked q c ∈ s.trace → q = p) ∧
        ∃ code, .exited c code ∈ s.trace ∧ ∀ other, .exited c other ∈ s.trace → other = code) ∧
    (∀ uc o t, s.step (.syscall .wait uc o) = .ok t →
      let p := s.runningProc
      (t.mode = .user → s.Reported t p (s.reports p) (uc.regs 0)) ∧
      (t.mode = .resuming → t.Inside p .wait ∧
        ∀ u, system.Path (fun v label => ¬(p = v.runningProc ∧ label.isResume = true)) t u →
          u.runningProc = p → ∀ o w, u.step (.resume o) = .ok w →
            u.Reported w p (s.reports p) (uc.regs 0))) ∧
    ∀ o, (s.waitersWoken o).Unreported := by
  have hSound := sound_reachable run
  have hLineage := lineage_reachable run
  refine ⟨?_, ?_, unreported_waitersWoken hSound hLineage⟩
  · obtain ⟨kids, -, hRegistry⟩ := hLineage
    have hLog {e : Event} (hKin : e.isKin = true) (he : e ∈ s.trace) : e ∈ s.kin.log := List.mem_filter.mpr ⟨he, hKin⟩
    refine ⟨reaped_eq s ▸ hRegistry.distinct, fun p c hReaped => ?_⟩
    obtain ⟨-, -, hForked, code, hExited⟩ := hRegistry.reaped p c (hLog rfl hReaped)
    refine ⟨mem_trace_of_log hForked, fun q hq => hRegistry.parent q p c (hLog rfl hq) hForked, code,
      mem_trace_of_log hExited, fun other hOther => hRegistry.code c other code (hLog rfl hOther) hExited⟩
  · intro uc o t hStep p
    rcases wait_cases hSound hLineage hStep with ⟨hUser, hReported⟩ | ⟨hResuming, hInside, hAwaits⟩
    · refine ⟨fun _ => hReported, fun hMode => ?_⟩
      rw [hUser] at hMode
      cases hMode
    · refine ⟨fun hMode => ?_, fun _ => ⟨hInside, fun u path hRunning o' w hResume => ?_⟩⟩
      · rw [hResuming] at hMode
        cases hMode
      · have hReached := reachable_step run hStep
        have hKept : u.Inside p .wait ∧ u.Awaits p (s.reports p) (uc.regs 0) := by
          refine path.invariant (I := fun v => v.Inside p .wait ∧ v.Awaits p (s.reports p) (uc.regs 0)) hReached
            ⟨hInside, hAwaits⟩ fun v label x hRun hOld hOther hNext => ?_
          have hv := sound_reachable hRun
          exact ⟨hOld.1.step hv hOther hNext, hOld.2.step hv (lineage_reachable hRun) hOld.1 hOther hNext⟩
        have hFinal := path.reachable hReached
        obtain ⟨hInsideU, hAwaitsU⟩ := hKept
        rw [← hRunning] at hInsideU hAwaitsU ⊢
        exact wait_resumes (sound_reachable hFinal) (lineage_reachable hFinal) hInsideU hAwaitsU hResume

open Sample in
/-- A parent waits until its child has exited with code 7, and stores the code. -/
theorem wait_reports_once_blocked : ∃ s t u w : Kernel, system.Reachable s ∧
    s.step (call .wait [208]) = .ok t ∧ t.mode = .resuming ∧ u.step (.resume outcomes) = .ok w ∧
    u.Reported w 1 [] 208 ∧ w.reports 1 = [2] ∧ .exited 2 7 ∈ w.trace := by
  obtain ⟨s, run, hOne, hNone, t, hStep, hMode, u, hPath, hRunning, w, hResume, hTold, hExited⟩ :=
    Transition.System.exists_reachable
      (P := fun s : Kernel => s.runningProc = 1 ∧ s.reports 1 = [] ∧
        ∃ t ∈ (s.step (call .wait [208])).toOption, t.mode = .resuming ∧
          ∃ u ∈ system.run (fun v label => ¬(s.runningProc = v.runningProc ∧ label.isResume = true)) t
            [.resume outcomes, call .exit [7], .resume outcomes, .clock (context []) outcomes],
            u.runningProc = s.runningProc ∧ ∃ w ∈ (u.step (.resume outcomes)).toOption,
              w.reports 1 = [2] ∧ .exited 2 7 ∈ w.trace)
      (turn ++ [call .fork []]) initial_booted (by decide +kernel)
  rw [Transition.mem_toOption] at hStep hResume
  have hReported := (((wait_reports_once run).2.1 _ _ t hStep).2 hMode).2 u (.run hPath) hRunning outcomes w hResume
  rw [hOne, hNone] at hReported
  exact ⟨s, t, u, w, run, hStep, hMode, hResume, hReported, hTold, hExited⟩

end KernelStart
end Yalnix
