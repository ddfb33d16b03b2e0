import Yalnix.Process.Family

/-! What the trace says about the family tree: every entry of a children array
was forked by its owner, and every child that was reaped had exited and was
reaped once. -/
namespace Yalnix

open Apart Hardware

/-- The child that an event reports to its parent. -/
def Event.reapedChild : Event → Option Proc
  | .reaped _ child => some child
  | _ => none

/-- What the events say about the tree: who forked whom, who exited with which
code, and who was reaped by whom. -/
structure Registry (s : Kernel) (kids : Proc → List Proc) : Prop where
  forked : ∀ p, ∀ c ∈ kids p, .forked p c ∈ s.kin.log
  forked_lt : ∀ p c, .forked p c ∈ s.kin.log → c < s.numPcbs
  parent : ∀ p q c, .forked p c ∈ s.kin.log → .forked q c ∈ s.kin.log → p = q
  exited : ∀ p, s.Kept p → ¬s.Live p → .exited p (s.kin.exitCode p) ∈ s.kin.log
  exited_dead : ∀ p code, .exited p code ∈ s.kin.log → p < s.numPcbs ∧ ¬s.Live p
  code : ∀ p a b, .exited p a ∈ s.kin.log → .exited p b ∈ s.kin.log → a = b
  reaped : ∀ p c, .reaped p c ∈ s.kin.log → s.kin.freed c = true ∧ c < s.numPcbs ∧
    .forked p c ∈ s.kin.log ∧ ∃ code, .exited c code ∈ s.kin.log
  distinct : (s.kin.log.filterMap Event.reapedChild).Nodup

namespace Registry

variable {s t : Kernel} {kids others : Proc → List Proc}

theorem mem_reaped {c : Proc} (hc : c ∈ s.kin.log.filterMap Event.reapedChild) :
    ∃ p, .reaped p c ∈ s.kin.log := by
  obtain ⟨e, hIn, hReaped⟩ := List.mem_filterMap.mp hc
  cases e with
  | reaped p d =>
      obtain rfl : d = c := by simpa [Event.reapedChild] using hReaped
      exact ⟨p, hIn⟩
  | _ => cases hReaped

/-- A control block is created, and freed again when the fork fails. -/
theorem spawn {e : Event} (h : Registry s kids) (hIdle : t.idleProc = s.idleProc)
    (hSize : t.numPcbs = s.numPcbs + 1) (hLog : t.kin.log = s.kin.log ++ [e])
    (hEvent : e = .freed s.numPcbs ∨ ∃ parent, e = .forked parent s.numPcbs)
    (hOthers : ∀ p, ∀ c ∈ others p, c ∈ kids p ∨ e = .forked p c)
    (hFreed : ∀ q, q ≠ s.numPcbs → t.kin.freed q = s.kin.freed q)
    (hCode : ∀ q, q ≠ s.numPcbs → t.kin.exitCode q = s.kin.exitCode q)
    (hLive : ∀ q, q ≠ s.numPcbs → (t.Live q ↔ s.Live q)) (hNew : t.Kept s.numPcbs → t.Live s.numPcbs) :
    Registry t others := by
  have hForked {p c : Proc} (hc : .forked p c ∈ t.kin.log) :
      .forked p c ∈ s.kin.log ∨ e = .forked p c ∧ c = s.numPcbs := by
    rw [hLog] at hc
    rcases List.mem_append.mp hc with hc | hc
    · exact Or.inl hc
    · have hSame : .forked p c = e := List.mem_singleton.mp hc
      rcases hEvent with rfl | ⟨parent, rfl⟩
      · cases hSame
      · cases hSame
        exact Or.inr ⟨rfl, rfl⟩
  have hExits {p : Proc} {a : Word} (hp : .exited p a ∈ t.kin.log) : .exited p a ∈ s.kin.log := by
    rw [hLog] at hp
    rcases hEvent with rfl | ⟨parent, rfl⟩ <;> simpa using hp
  have hUnused (p : Proc) : .forked p s.numPcbs ∉ s.kin.log := fun hOld =>
    Nat.lt_irrefl _ (h.forked_lt p _ hOld)
  have hNever (a : Word) : .exited s.numPcbs a ∉ s.kin.log := fun hOld =>
    Nat.lt_irrefl _ (h.exited_dead _ a hOld).1
  have hKeep {d : Event} (hd : d ∈ s.kin.log) : d ∈ t.kin.log := by
    rw [hLog]
    exact List.mem_append_left _ hd
  constructor
  · intro p c hc
    rcases hOthers p c hc with hc | rfl
    · exact hKeep (h.forked p c hc)
    · rw [hLog]
      exact List.mem_append_right _ (List.mem_singleton_self _)
  · intro p c hc
    rw [hSize]
    rcases hForked hc with hc | ⟨-, rfl⟩
    · exact Nat.lt_succ_of_lt (h.forked_lt p c hc)
    · exact Nat.lt_succ_self _
  · intro p q c hp hq
    rcases hForked hp with hp | ⟨hp, hNew⟩ <;> rcases hForked hq with hq | ⟨hq, hNew'⟩
    · exact h.parent p q c hp hq
    · exact absurd (hNew' ▸ hp) (hUnused p)
    · exact absurd (hNew ▸ hq) (hUnused q)
    · exact (Event.forked.inj (hp.symm.trans hq)).1
  · intro p hp hGone
    by_cases hn : p = s.numPcbs
    · subst hn
      exact absurd (hNew hp) hGone
    · rw [hCode p hn]
      have hLt : p < s.numPcbs + 1 := hSize ▸ hp.lt
      have hKept : s.Kept p := ⟨hIdle ▸ hp.ne_idle, Nat.lt_of_le_of_ne (Nat.le_of_lt_succ hLt) hn,
        (hFreed p hn).symm.trans hp.freed⟩
      exact hKeep (h.exited p hKept fun hOne => hGone ((hLive p hn).mpr hOne))
  · intro p a hp
    obtain ⟨hLt, hDead⟩ := h.exited_dead p a (hExits hp)
    rw [hSize, hLive p (Nat.ne_of_lt hLt)]
    exact ⟨Nat.lt_succ_of_lt hLt, hDead⟩
  · exact fun p a b ha hb => h.code p a b (hExits ha) (hExits hb)
  · intro p c hc
    have hOld : .reaped p c ∈ s.kin.log := by
      rw [hLog] at hc
      rcases hEvent with rfl | ⟨parent, rfl⟩ <;> simpa using hc
    obtain ⟨hGone, hLt, hFork, a, hExited⟩ := h.reaped p c hOld
    rw [hFreed c (Nat.ne_of_lt hLt), hSize]
    exact ⟨hGone, Nat.lt_succ_of_lt hLt, hKeep hFork, a, hKeep hExited⟩
  · have hNone : [e].filterMap Event.reapedChild = [] := by
      rcases hEvent with rfl | ⟨parent, rfl⟩ <;> rfl
    rw [hLog, List.filterMap_append, hNone, List.append_nil]
    exact h.distinct

theorem step {label : Label} (h : Registry s kids)
    (hFamily : Family s kids) (hIdle : t.idleProc = s.idleProc) (hStep : TreeStep label s t kids others) :
    Registry t others := by
  cases hStep with
  | same hKin hLive hSize =>
      have hKept {p : Proc} (hp : t.Kept p) : s.Kept p :=
        ⟨hIdle ▸ hp.ne_idle, hSize ▸ hp.lt, (congrFun (congrArg Kin.freed hKin) p).symm.trans hp.freed⟩
      constructor
      · rw [hKin]
        exact h.forked
      · rw [hKin, hSize]
        exact h.forked_lt
      · rw [hKin]
        exact h.parent
      · intro p hp
        rw [hKin, hLive]
        exact h.exited p (hKept hp)
      · rw [hKin, hLive, hSize]
        exact h.exited_dead
      · rw [hKin]
        exact h.code
      · rw [hKin, hSize]
        exact h.reaped
      · rw [hKin]
        exact h.distinct
  | @reap parent child i r hParent _ hChild hDead hHas hKin hLive hSize =>
      have hMem := List.mem_of_getElem? hChild
      have hKeptChild := (hFamily.child parent child hMem).1
      have hLog : t.kin.log = s.kin.log ++ [.freed child, .reaped parent child] := by rw [hKin]
      have hFreed : t.kin.freed = Function.update s.kin.freed child true := by rw [hKin]
      have hCode : t.kin.exitCode = s.kin.exitCode := by rw [hKin]
      have hOld {p : Proc} {l : List Proc} (hl : l = (kids parent).eraseIdx i) {c : Proc}
          (hc : c ∈ Function.update kids parent l p) : c ∈ kids p := by
        by_cases hp : p = parent
        · rw [hp, Function.update_self, hl] at hc
          exact hp ▸ List.mem_of_mem_eraseIdx hc
        · rwa [Function.update_of_ne hp] at hc
      have hKept {p : Proc} (hp : t.Kept p) : s.Kept p := by
        have hNot : Function.update s.kin.freed child true p = false := hFreed ▸ hp.freed
        by_cases hc : p = child
        · simp [hc] at hNot
        · rw [Function.update_of_ne hc] at hNot
          exact ⟨hIdle ▸ hp.ne_idle, hSize ▸ hp.lt, hNot⟩
      constructor
      · intro p c hc
        rw [hLog]
        exact List.mem_append_left _ (h.forked p c (hOld rfl hc))
      · intro p c hc
        rw [hLog] at hc
        rw [hSize]
        exact h.forked_lt p c (by simpa using hc)
      · intro p q c hp hq
        rw [hLog] at hp hq
        exact h.parent p q c (by simpa using hp) (by simpa using hq)
      · intro p hp hGone
        rw [hLive] at hGone
        rw [hLog, hCode]
        exact List.mem_append_left _ (h.exited p (hKept hp) hGone)
      · intro p code hp
        rw [hLog] at hp
        rw [hLive, hSize]
        exact h.exited_dead p code (by simpa using hp)
      · intro p a b ha hb
        rw [hLog] at ha hb
        exact h.code p a b (by simpa using ha) (by simpa using hb)
      · intro p c hc
        have hCases : .reaped p c ∈ s.kin.log ∨ p = parent ∧ c = child := by
          rw [hLog] at hc
          simpa using hc
        rw [hSize, hLog, hFreed]
        rcases hCases with hc | ⟨rfl, rfl⟩
        · obtain ⟨hGone, hLt, hForked, code, hExited⟩ := h.reaped p c hc
          refine ⟨?_, hLt, List.mem_append_left _ hForked, code, List.mem_append_left _ hExited⟩
          by_cases he : c = child
          · simp [he]
          · rwa [Function.update_of_ne he]
        · exact ⟨Function.update_self _ _ _, hKeptChild.lt, List.mem_append_left _ (h.forked p c hMem), _,
            List.mem_append_left _ (h.exited c hKeptChild hDead)⟩
      · rw [hLog, List.filterMap_append]
        refine List.nodup_append.mpr ⟨h.distinct, List.nodup_singleton child, ?_⟩
        intro c hc d hd he
        have hd : d = child := List.mem_singleton.mp hd
        subst hd he
        obtain ⟨p, hIn⟩ := mem_reaped hc
        have hGone := (h.reaped p c hIn).1
        have hStill : s.kin.freed c = false := hKeptChild.freed
        rw [hStill] at hGone
        cases hGone
  | @exit x code hx hKin hLive hSize =>
      obtain ⟨tail, hLog⟩ : ∃ tail : List Proc, t.kin.log = s.kin.log ++ .exited x code :: tail.map .freed := by
        refine ⟨((kids x).filter fun q => ¬s.Live q) ++
          if (s.kin.relations x).hasParent then [] else [x], ?_⟩
        rw [hKin]
        cases (s.kin.relations x).hasParent <;> simp
      have hFreed {q : Proc} (hq : s.kin.freed q = true) : t.kin.freed q = true := by
        rw [hKin]
        simp [hq]
      have hKept {p : Proc} (hp : t.Kept p) : s.Kept p := by
        refine ⟨hIdle ▸ hp.ne_idle, hSize ▸ hp.lt, ?_⟩
        by_contra hOld
        have hGone := hFreed (Bool.eq_true_of_not_eq_false hOld)
        rw [show t.kin.freed p = false from hp.freed] at hGone
        cases hGone
      have hExits {p : Proc} {a : Word} (hp : .exited p a ∈ t.kin.log) :
          .exited p a ∈ s.kin.log ∨ p = x ∧ a = code := by
        rw [hLog] at hp
        simpa using hp
      have hFirst (a : Word) : .exited x a ∉ s.kin.log := fun hOld => (h.exited_dead x a hOld).2 hx
      constructor
      · intro p c hc
        have hNe : p ≠ x := by
          rintro rfl
          simp at hc
        rw [Function.update_of_ne hNe] at hc
        rw [hLog]
        exact List.mem_append_left _ (h.forked p c hc)
      · intro p c hc
        rw [hLog] at hc
        rw [hSize]
        exact h.forked_lt p c (by simpa using hc)
      · intro p q c hp hq
        rw [hLog] at hp hq
        exact h.parent p q c (by simpa using hp) (by simpa using hq)
      · intro p hp hGone
        rw [hLog, hKin]
        by_cases he : p = x
        · subst he
          simp
        · dsimp only
          rw [Function.update_of_ne he]
          have hOld : ¬s.Live p := fun hOne => hGone ((hLive p).mpr ⟨he, hOne⟩)
          exact List.mem_append_left _ (h.exited p (hKept hp) hOld)
      · intro p a hp
        rw [hLive, hSize]
        rcases hExits hp with hOld | ⟨rfl, -⟩
        · obtain ⟨hLt, hDead⟩ := h.exited_dead p a hOld
          exact ⟨hLt, fun hOne => hDead hOne.2⟩
        · exact ⟨hx.2.1, fun hOne => hOne.1 rfl⟩
      · intro p a b ha hb
        rcases hExits ha with ha | ⟨rfl, rfl⟩ <;> rcases hExits hb with hb | ⟨hp, rfl⟩
        · exact h.code p a b ha hb
        · exact absurd (hp ▸ ha) (hFirst a)
        · exact absurd hb (hFirst b)
        · rfl
      · intro p c hc
        rw [hLog] at hc
        obtain ⟨hGone, hLt, hForked, a, hExited⟩ := h.reaped p c (by simpa using hc)
        rw [hSize, hLog]
        exact ⟨hFreed hGone, hLt, List.mem_append_left _ hForked, a, List.mem_append_left _ hExited⟩
      · have hNone : (.exited x code :: tail.map .freed).filterMap Event.reapedChild = [] := by
          rw [List.filterMap_eq_nil_iff]
          intro e he
          rcases List.mem_cons.mp he with rfl | he
          · rfl
          · obtain ⟨q, -, rfl⟩ := List.mem_map.mp he
            rfl
        rw [hLog, List.filterMap_append, hNone, List.append_nil]
        exact h.distinct
  | @failed code hKin hLive hSize =>
      refine h.spawn (e := .freed s.numPcbs) hIdle hSize (by rw [hKin]) (Or.inl rfl)
        (fun p c hc => Or.inl hc) ?_ ?_ (fun q _ => by rw [hLive]) fun hKept => ?_
      · intro q hq
        rw [hKin]
        exact Function.update_of_ne hq _ _
      · intro q hq
        rw [hKin]
        exact Function.update_of_ne hq _ _
      · have hNot : t.kin.freed s.numPcbs = false := hKept.freed
        rw [hKin] at hNot
        simp at hNot
  | @fork parent code r joined hParent hJoined hSame hKin hLive hSize =>
      refine h.spawn (e := .forked parent s.numPcbs) hIdle hSize (by rw [hKin]) (Or.inr ⟨parent, rfl⟩)
        ?_ ?_ ?_ (fun q hq => by rw [hLive]; simp [hq]) fun _ => (hLive _).mpr (Or.inr rfl)
      · intro p c hc
        by_cases hp : p = parent
        · subst hp
          rw [Function.update_self] at hc
          rcases hJoined with rfl | ⟨rfl, -⟩
          · rcases List.mem_append.mp hc with hc | hc
            · exact Or.inl hc
            · exact Or.inr (by rw [List.mem_singleton.mp hc])
          · exact Or.inl hc
        · rw [Function.update_of_ne hp] at hc
          exact Or.inl hc
      · intro q hq
        rw [hKin]
        exact Function.update_of_ne hq _ _
      · intro q hq
        rw [hKin]
        exact Function.update_of_ne hq _ _

end Registry
/-- The tree, as it is and as the trace tells it. -/
def Kernel.Lineage (s : Kernel) : Prop := ∃ kids, Family s kids ∧ Registry s kids

theorem Kernel.Lineage.effect [Hardware] {label : Label} {s t : Kernel} (h : s.Lineage) (hSound : KernelStart.Sound s)
    (hEffect : Effect label s t) : t.Lineage := by
  obtain ⟨kids, hFamily, hRegistry⟩ := h
  obtain ⟨others, hNext, hStep⟩ := hFamily.effect hSound hEffect
  exact ⟨others, hNext, hRegistry.step hFamily (Kernel.size_effect hEffect).1 hStep⟩

theorem Kernel.Lineage.same {s t : Kernel} (h : s.Lineage) (hKin : t.kin = s.kin) (hLive : t.Live = s.Live)
    (hIdle : t.idleProc = s.idleProc) (hSize : t.numPcbs = s.numPcbs) : t.Lineage := by
  obtain ⟨kids, hFamily, hRegistry⟩ := h
  exact ⟨kids, hFamily.same hKin hLive hIdle hSize,
    hRegistry.step hFamily hIdle (.same hKin hLive hSize : TreeStep .math s t kids kids)⟩

theorem Kernel.Lineage.read [Hardware] {s : Kernel} (h : s.Lineage) (id len : Nat) : (s.read id len).Lineage := by
  have hKin := Kernel.kin_of_records (Kernel.records_read s id len)
  obtain ⟨ttys, lines, trace, hRead⟩ := Kernel.read_eq s id len
  rw [hRead] at hKin ⊢
  exact h.same hKin rfl rfl rfl

namespace KernelStart

open Kernel

variable [Hardware]

theorem registry_kernelStart (uctxt : UserContext) (early late : List Word) :
    Registry (kernelStart uctxt early late) fun _ => [] := by
  have hKin : (kernelStart uctxt early late).kin = (bootPcbs uctxt).kin :=
    kin_of_records (records_kernelStart uctxt early late)
  have hLog : (kernelStart uctxt early late).kin.log = [] := by rw [hKin]; rfl
  obtain ⟨kc, -, hCpu⟩ := cpu_kernelStart uctxt early late
  have hIdle : (kernelStart uctxt early late).idleProc = 0 := congrArg Cpu.idleProc hCpu
  have hSize : (kernelStart uctxt early late).numPcbs = 2 := congrArg Cpu.numPcbs hCpu
  have hReady : ((kernelStart uctxt early late).pcb 1).state = .ready := by
    have hState : ((((bootPcbs uctxt).setMem (bootMemory (bootPcbs uctxt).mem early late)).scheduleProcess 1).pcb 1).state =
        .ready := rfl
    unfold kernelStart
    dsimp only
    split_ifs
    · exact (pcb_modifyPcb (v := Pcb.state) (f := fun p => { p with kc := some .boot }) rfl 1).trans hState
    · exact hState
  constructor <;> try simp [hLog]
  -- the only process there is has not exited
  intro p hKept
  have hLt := hKept.lt
  have hNe := hKept.ne_idle
  rw [hSize] at hLt
  rw [hIdle] at hNe
  obtain rfl : p = 1 := Nat.le_antisymm (Nat.le_of_lt_succ hLt) (Nat.pos_of_ne_zero hNe)
  refine ⟨hKept.ne_idle, hKept.lt, hKept.freed, ?_⟩
  rw [hReady]
  simp

theorem lineage_reachable {s : Kernel} (run : system.Reachable s) : s.Lineage :=
  invariant (I := Lineage) (fun uctxt early late =>
      ⟨_, (family_kernelStart uctxt early late).1, registry_kernelStart uctxt early late⟩)
    (fun _ _ _ hSound h hEffect => h.effect hSound hEffect) (fun _ id len _ h => h.read id len)
    (fun _ _ _ h _ _ => h.same rfl rfl rfl rfl) run

end KernelStart
end Yalnix
