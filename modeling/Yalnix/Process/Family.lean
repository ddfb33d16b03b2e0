import Yalnix.Process.KinSteps

/-! The parent-child relation over whole runs. Every control block that has a
parent stands in the children array of one live process, and it is freed once:
by that parent, or by its own exit when it is an orphan. -/
namespace Yalnix

open Apart Hardware

/-- The children arrays of the live processes are the lists `kids`. What an
exited process leaves behind in its array is freed or an orphan. -/
structure Family (s : Kernel) (kids : Proc → List Proc) : Prop where
  placed : Placed kids
  holds : ∀ p, s.Live p → (s.kin.relations p).Holds (kids p)
  dead : ∀ p, ¬s.Live p → kids p = []
  child : ∀ p, ∀ c ∈ kids p, s.Kept c ∧ p < c ∧ (s.kin.relations c).hasParent = true
  orphan : ∀ p, s.Kept p → (s.kin.relations p).hasParent = false → s.Live p
  stale : ∀ p, p < s.numPcbs → ¬s.Live p → ∀ i < (s.kin.relations p).numChildren,
    ∀ c, (s.kin.relations p).children i = some c →
      c < s.numPcbs ∧ (s.kin.freed c = true ∨ (s.kin.relations c).hasParent = false)
  idle : (s.kin.relations s.idleProc).numChildren = 0

namespace Family

variable {s t : Kernel} {kids : Proc → List Proc}

theorem live_of_mem (h : Family s kids) {p c : Proc} (hc : c ∈ kids p) : s.Live p := by
  by_contra hDead
  rw [h.dead p hDead] at hc
  cases hc

theorem same (h : Family s kids) (hKin : t.kin = s.kin) (hLive : t.Live = s.Live)
    (hIdle : t.idleProc = s.idleProc) (hSize : t.numPcbs = s.numPcbs) : Family t kids := by
  have hFreed (p : Proc) : (t.pcb p).freed = (s.pcb p).freed := congrFun (congrArg Kin.freed hKin) p
  have hKept (p : Proc) : t.Kept p ↔ s.Kept p := by
    constructor <;> intro hOne
    · exact ⟨hIdle ▸ hOne.ne_idle, hSize ▸ hOne.lt, hFreed p ▸ hOne.freed⟩
    · exact ⟨hIdle ▸ hOne.ne_idle, hSize ▸ hOne.lt, (hFreed p).trans hOne.freed⟩
  constructor
  · exact h.placed
  · rw [hLive, hKin]
    exact h.holds
  · rw [hLive]
    exact h.dead
  · intro p c hc
    rw [hKept, hKin]
    exact h.child p c hc
  · intro p hp
    rw [hLive, hKin]
    exact h.orphan p ((hKept p).mp hp)
  · rw [hLive, hKin, hSize]
    exact h.stale
  · rw [hKin, hIdle]
    exact h.idle

/-- A parent takes an exited child out of its array and frees it. -/
theorem reap {parent c : Proc} {i : Nat} {r : Relations} {log : List Event} (h : Family s kids)
    (hParent : s.Live parent) (hChild : (kids parent)[i]? = some c)
    (hHolds : r.Holds ((kids parent).eraseIdx i)) (hHas : r.hasParent = (s.kin.relations parent).hasParent)
    (hKin : t.kin = { s.kin with
      relations := Function.update s.kin.relations parent r
      freed := Function.update s.kin.freed c true
      log := log })
    (hLive : t.Live = s.Live) (hIdle : t.idleProc = s.idleProc) (hSize : t.numPcbs = s.numPcbs) :
    Family t (Function.update kids parent ((kids parent).eraseIdx i)) := by
  obtain ⟨hi, rfl⟩ := List.getElem?_eq_some_iff.mp hChild
  have hPerm : (kids parent).Perm ((kids parent)[i] :: (kids parent).eraseIdx i) :=
    (List.getElem_cons_eraseIdx_perm hi).symm
  have hMem := h.placed.mem_remove hPerm
  have hFreed : t.kin.freed = Function.update s.kin.freed (kids parent)[i] true := by rw [hKin]
  have hKept {p : Proc} (hp : t.Kept p) : s.Kept p := by
    have hNot : Function.update s.kin.freed (kids parent)[i] true p = false := hFreed ▸ hp.freed
    by_cases hc : p = (kids parent)[i]
    · simp [hc] at hNot
    · rw [Function.update_of_ne hc] at hNot
      exact ⟨hIdle ▸ hp.ne_idle, hSize ▸ hp.lt, hNot⟩
  have hHasParent (p : Proc) : (t.kin.relations p).hasParent = (s.kin.relations p).hasParent := by
    rw [hKin]
    by_cases hp : p = parent
    · simp [hp, hHas]
    · simp [Function.update_of_ne hp]
  have hOther {p : Proc} (hp : p ≠ parent) : t.kin.relations p = s.kin.relations p := by
    rw [hKin]
    exact Function.update_of_ne hp _ _
  constructor
  · exact (h.placed.remove hPerm).1
  · intro p hp
    rw [hLive] at hp
    by_cases hSelf : p = parent
    · rw [hKin, hSelf, Function.update_self]
      simpa using hHolds
    · rw [hOther hSelf, Function.update_of_ne hSelf]
      exact h.holds p hp
  · intro p hp
    rw [hLive] at hp
    have hSelf : p ≠ parent := fun he => hp (he ▸ hParent)
    rw [Function.update_of_ne hSelf]
    exact h.dead p hp
  · intro p d hd
    obtain ⟨hNe, hd⟩ := (hMem p d).mp hd
    obtain ⟨hKeptD, hLt, hHasD⟩ := h.child p d hd
    refine ⟨⟨hIdle ▸ hKeptD.ne_idle, hSize ▸ hKeptD.lt, ?_⟩, hLt, (hHasParent d).trans hHasD⟩
    exact (congrFun hFreed d).trans ((Function.update_of_ne hNe _ _).trans hKeptD.freed)
  · intro p hp hNone
    rw [hLive]
    exact h.orphan p (hKept hp) ((hHasParent p).symm.trans hNone)
  · intro p hLt hp j hj d hd
    rw [hLive] at hp
    have hSelf : p ≠ parent := fun he => hp (he ▸ hParent)
    rw [hOther hSelf] at hj hd
    obtain ⟨hBound, hGone⟩ := h.stale p (hSize ▸ hLt) hp j hj d hd
    rw [hHasParent, hSize]
    refine ⟨hBound, hGone.imp_left fun hOld => ?_⟩
    rw [hFreed]
    by_cases hc : d = (kids parent)[i]
    · simp [hc]
    · rwa [Function.update_of_ne hc]
  · have hSelf : s.idleProc ≠ parent := hParent.1.symm
    rw [hIdle, hOther hSelf]
    exact h.idle

theorem not_mem_self (h : Family s kids) (p : Proc) : p ∉ kids p :=
  fun hp => Nat.lt_irrefl p (h.child p p hp).2.1

/-- A process exits: the children that have exited are freed, the others become
orphans, and an orphan is freed itself. -/
theorem exit {x : Proc} (h : Family s kids) (hx : s.Live x)
    (hRelations : t.kin.relations = fun q =>
      if q ∈ kids x ∧ s.Live q then (s.kin.relations q).detach else s.kin.relations q)
    (hFreed : t.kin.freed = fun q => s.kin.freed q || decide (q ∈ kids x ∧ ¬s.Live q) ||
      decide (q = x ∧ (s.kin.relations q).hasParent = false))
    (hLive : ∀ p, t.Live p ↔ p ≠ x ∧ s.Live p) (hIdle : t.idleProc = s.idleProc)
    (hSize : t.numPcbs = s.numPcbs) : Family t (Function.update kids x []) := by
  have hOther {q : Proc} (hq : q ∉ kids x) : t.kin.relations q = s.kin.relations q := by
    rw [hRelations]
    exact if_neg fun hIn => hq hIn.1
  have hSlots (q : Proc) : (t.kin.relations q).numChildren = (s.kin.relations q).numChildren ∧
      (t.kin.relations q).children = (s.kin.relations q).children := by
    rw [hRelations]
    dsimp only
    split_ifs <;> exact ⟨rfl, rfl⟩
  have hDetached {q : Proc} (hNone : (s.kin.relations q).hasParent = false) :
      (t.kin.relations q).hasParent = false := by
    rw [hRelations]
    dsimp only
    split_ifs
    · rfl
    · exact hNone
  have hGone {q : Proc} (hq : s.kin.freed q = true) : t.kin.freed q = true := by
    rw [hFreed]
    simp [hq]
  constructor
  · exact h.placed.clear x
  · intro p hp
    obtain ⟨hNe, hOld⟩ := (hLive p).mp hp
    rw [Function.update_of_ne hNe]
    exact ⟨(hSlots p).1.trans (h.holds p hOld).count, fun i hi => by
      rw [(hSlots p).2]
      exact (h.holds p hOld).slot i hi⟩
  · intro p hp
    by_cases he : p = x
    · rw [he, Function.update_self]
    · rw [Function.update_of_ne he]
      exact h.dead p fun hOld => hp ((hLive p).mpr ⟨he, hOld⟩)
  · intro p c hc
    have hNe : p ≠ x := by
      rintro rfl
      simp at hc
    rw [Function.update_of_ne hNe] at hc
    obtain ⟨hKept, hLt, hHas⟩ := h.child p c hc
    have hOut : c ∉ kids x := h.placed.not_mem_of_ne hc hNe.symm
    rw [hOther hOut]
    refine ⟨⟨hIdle ▸ hKept.ne_idle, hSize ▸ hKept.lt, ?_⟩, hLt, hHas⟩
    have hStill : s.kin.freed c = false := hKept.freed
    have hFreedC : t.kin.freed c = false := by
      rw [hFreed]
      simp [hStill, hOut, hHas]
    exact hFreedC
  · intro p hKept hNone
    have hNot : t.kin.freed p = false := hKept.freed
    rw [hFreed] at hNot
    simp only [Bool.or_eq_false_iff, decide_eq_false_iff_not, not_and, not_not] at hNot
    obtain ⟨⟨hStill, hChild⟩, hSelf⟩ := hNot
    rw [hLive]
    by_cases hp : p ∈ kids x
    · exact ⟨fun he => h.not_mem_self x (he ▸ hp), hChild hp⟩
    · rw [hOther hp] at hNone
      exact ⟨fun he => hSelf he hNone, h.orphan p ⟨hIdle ▸ hKept.ne_idle, hSize ▸ hKept.lt, hStill⟩ hNone⟩
  · intro p hLt hp i hi c hc
    rw [(hSlots p).1] at hi
    rw [(hSlots p).2] at hc
    rw [hSize] at hLt ⊢
    by_cases he : p = x
    · subst he
      have hMem : c ∈ kids p := ((h.holds p hx).mem_iff c).mpr ⟨i, hi, hc⟩
      refine ⟨(h.child p c hMem).1.lt, ?_⟩
      by_cases hAlive : s.Live c
      · refine Or.inr ?_
        rw [hRelations]
        simp [hMem, hAlive, Relations.detach]
      · refine Or.inl ?_
        rw [hFreed]
        simp [hMem, hAlive]
    · obtain ⟨hBound, hOld⟩ := h.stale p hLt (fun hOld => hp ((hLive p).mpr ⟨he, hOld⟩)) i hi c hc
      exact ⟨hBound, hOld.imp hGone hDetached⟩
  · rw [hIdle, (hSlots s.idleProc).1]
    exact h.idle

/-- A control block is created and, when the fork succeeds, entered in the array
of the parent. -/
theorem spawn {parent : Proc} {r : Relations} {b : Bool} {joined : List Proc} (h : Family s kids)
    (hParent : s.Live parent) (hHolds : r.Holds joined)
    (hJoined : joined = kids parent ∨ joined = kids parent ++ [s.numPcbs] ∧ b = false)
    (hHas : r.hasParent = (s.kin.relations parent).hasParent)
    (hRelations : t.kin.relations = Function.update (Function.update s.kin.relations s.numPcbs
      ⟨true, fun _ => none, 0, Kernel.childArrSize⟩) parent r)
    (hFreed : t.kin.freed = Function.update s.kin.freed s.numPcbs b)
    (hLive : ∀ p, t.Live p ↔ s.Live p ∨ p = s.numPcbs ∧ b = false)
    (hIdle : t.idleProc = s.idleProc) (hNew : s.numPcbs ≠ s.idleProc) (hSize : t.numPcbs = s.numPcbs + 1) :
    Family t (Function.update kids parent joined) := by
  have hParentNe : parent ≠ s.numPcbs := Nat.ne_of_lt hParent.2.1
  have hFresh (k : Proc) : s.numPcbs ∉ kids k := fun hk => Nat.lt_irrefl _ (h.child k _ hk).1.lt
  have hMem {p d : Proc} (hd : d ∈ Function.update kids parent joined p) :
      d ∈ kids p ∨ d = s.numPcbs ∧ p = parent ∧ b = false := by
    by_cases hp : p = parent
    · rw [hp, Function.update_self] at hd
      rw [hp]
      rcases hJoined with rfl | ⟨rfl, hOk⟩
      · exact Or.inl hd
      · rcases List.mem_append.mp hd with hd | hd
        · exact Or.inl hd
        · exact Or.inr ⟨List.mem_singleton.mp hd, rfl, hOk⟩
    · rw [Function.update_of_ne hp] at hd
      exact Or.inl hd
  have hOld {q : Proc} (hq : q ≠ s.numPcbs) : (t.kin.relations q).hasParent = (s.kin.relations q).hasParent := by
    rw [hRelations]
    by_cases hp : q = parent
    · simp [hp, hHas]
    · rw [Function.update_of_ne hp, Function.update_of_ne hq]
  have hOther {q : Proc} (hp : q ≠ parent) (hq : q ≠ s.numPcbs) : t.kin.relations q = s.kin.relations q := by
    rw [hRelations, Function.update_of_ne hp, Function.update_of_ne hq]
  have hStart : t.kin.relations s.numPcbs = ⟨true, fun _ => none, 0, Kernel.childArrSize⟩ := by
    rw [hRelations, Function.update_of_ne hParentNe.symm, Function.update_self]
  have hBefore {q : Proc} (hLt : q < t.numPcbs) (hq : q ≠ s.numPcbs) : q < s.numPcbs := by
    rw [hSize] at hLt
    exact Nat.lt_of_le_of_ne (Nat.le_of_lt_succ hLt) hq
  have hKeptIff {q : Proc} (hq : q ≠ s.numPcbs) : t.Kept q ↔ s.Kept q := by
    have hSame : (t.pcb q).freed = (s.pcb q).freed := (congrFun hFreed q).trans (Function.update_of_ne hq _ _)
    constructor <;> intro hOne
    · exact ⟨hIdle ▸ hOne.ne_idle, hBefore hOne.lt hq, hSame ▸ hOne.freed⟩
    · exact ⟨hIdle ▸ hOne.ne_idle, hSize ▸ Nat.lt_succ_of_lt hOne.lt, hSame.trans hOne.freed⟩
  have hKeptNew (hOk : b = false) : t.Kept s.numPcbs :=
    ⟨hIdle ▸ hNew, by rw [hSize]; exact Nat.lt_succ_self _,
      (congrFun hFreed s.numPcbs).trans ((Function.update_self _ _ _).trans hOk)⟩
  constructor
  · rcases hJoined with rfl | ⟨rfl, -⟩
    · rw [Function.update_eq_self]
      exact h.placed
    · exact h.placed.add hFresh List.perm_append_comm
  · intro p hp
    by_cases hSelf : p = parent
    · rw [hRelations, hSelf, Function.update_self, Function.update_self]
      exact hHolds
    · rw [Function.update_of_ne hSelf]
      rcases (hLive p).mp hp with hOne | ⟨rfl, -⟩
      · rw [hOther hSelf (Nat.ne_of_lt hOne.2.1)]
        exact h.holds p hOne
      · rw [hStart, h.dead s.numPcbs fun hOne => Nat.lt_irrefl _ hOne.2.1]
        exact .nil rfl
  · intro p hp
    have hDead : ¬s.Live p := fun hOne => hp ((hLive p).mpr (Or.inl hOne))
    have hSelf : p ≠ parent := fun he => hDead (he ▸ hParent)
    rw [Function.update_of_ne hSelf]
    exact h.dead p hDead
  · intro p c hc
    rcases hMem hc with hc | ⟨rfl, rfl, hOk⟩
    · obtain ⟨hKept, hLt, hHasC⟩ := h.child p c hc
      have hNe := Nat.ne_of_lt hKept.lt
      exact ⟨(hKeptIff hNe).mpr hKept, hLt, (hOld hNe).trans hHasC⟩
    · exact ⟨hKeptNew hOk, hParent.2.1, by rw [hStart]⟩
  · intro p hKept hNone
    by_cases hp : p = s.numPcbs
    · rw [hp, hStart] at hNone
      cases hNone
    · exact (hLive p).mpr (Or.inl (h.orphan p ((hKeptIff hp).mp hKept) ((hOld hp).symm.trans hNone)))
  · intro p hLt hp i hi c hc
    have hDead : ¬s.Live p := fun hOne => hp ((hLive p).mpr (Or.inl hOne))
    have hSelf : p ≠ parent := fun he => hDead (he ▸ hParent)
    by_cases hq : p = s.numPcbs
    · rw [hq, hStart] at hi
      exact absurd hi (Nat.not_lt_zero _)
    · rw [hOther hSelf hq] at hi hc
      obtain ⟨hBound, hGone⟩ := h.stale p (hBefore hLt hq) hDead i hi c hc
      have hNe := Nat.ne_of_lt hBound
      rw [hOld hNe, hFreed, Function.update_of_ne hNe, hSize]
      exact ⟨Nat.lt_succ_of_lt hBound, hGone⟩
  · rw [hIdle, hOther hParent.1.symm hNew.symm]
    exact h.idle

end Family

/-- The relations of a new control block. -/
def Relations.fresh : Relations := ⟨true, fun _ => none, 0, Kernel.childArrSize⟩

/-- The steps of the family tree, with the lists after them. -/
inductive TreeStep (label : Label) (s t : Kernel) (kids : Proc → List Proc) : (Proc → List Proc) → Prop where
  | same (hKin : t.kin = s.kin) (hLive : t.Live = s.Live) (hSize : t.numPcbs = s.numPcbs) :
      TreeStep label s t kids kids
  | reap {parent child : Proc} {i : Nat} {r : Relations} (hParent : s.Live parent)
      (hWho : parent = s.runningProc ∧ s.inUser ∨ s.Woken t parent)
      (hChild : (kids parent)[i]? = some child) (hDead : ¬s.Live child)
      (hHas : r.hasParent = (s.kin.relations parent).hasParent)
      (hKin : t.kin = { s.kin with
        relations := Function.update s.kin.relations parent r
        freed := Function.update s.kin.freed child true
        log := s.kin.log ++ [.freed child, .reaped parent child] })
      (hLive : t.Live = s.Live) (hSize : t.numPcbs = s.numPcbs) :
      TreeStep label s t kids (Function.update kids parent ((kids parent).eraseIdx i))
  | exit {x : Proc} {code : Word} (hx : s.Live x)
      (hKin : t.kin =
        { relations := fun q =>
            if q ∈ kids x ∧ s.Live q then (s.kin.relations q).detach else s.kin.relations q
          exitCode := Function.update s.kin.exitCode x code
          freed := fun q => s.kin.freed q || decide (q ∈ kids x ∧ ¬s.Live q) ||
            decide (q = x ∧ (s.kin.relations q).hasParent = false)
          log := s.kin.log ++ [.exited x code] ++ ((kids x).filter fun q => ¬s.Live q).map .freed ++
            if (s.kin.relations x).hasParent then [] else [.freed x] })
      (hLive : ∀ p, t.Live p ↔ p ≠ x ∧ s.Live p) (hSize : t.numPcbs = s.numPcbs) :
      TreeStep label s t kids (Function.update kids x [])
  | failed {code : Word}
      (hKin : t.kin =
        { relations := Function.update s.kin.relations s.numPcbs .fresh
          exitCode := Function.update s.kin.exitCode s.numPcbs code
          freed := Function.update s.kin.freed s.numPcbs true
          log := s.kin.log ++ [.freed s.numPcbs] })
      (hLive : t.Live = s.Live) (hSize : t.numPcbs = s.numPcbs + 1) : TreeStep label s t kids kids
  | fork {parent : Proc} {code : Word} {r : Relations} {joined : List Proc} (hParent : s.Live parent)
      (hJoined : joined = kids parent ++ [s.numPcbs] ∨
        joined = kids parent ∧ ∃ o, label.forks = some o ∧ o.alloc 4 = false)
      (hHas : r.hasParent = (s.kin.relations parent).hasParent)
      (hKin : t.kin =
        { relations := Function.update (Function.update s.kin.relations s.numPcbs .fresh) parent r
          exitCode := Function.update s.kin.exitCode s.numPcbs code
          freed := Function.update s.kin.freed s.numPcbs false
          log := s.kin.log ++ [.forked parent s.numPcbs] })
      (hLive : ∀ p, t.Live p ↔ s.Live p ∨ p = s.numPcbs) (hSize : t.numPcbs = s.numPcbs + 1) :
      TreeStep label s t kids (Function.update kids parent joined)

namespace Family

variable [Hardware] {s t : Kernel} {kids : Proc → List Proc} {label : Label}

theorem effect_fork {o : Outcomes} (h : Family s kids) (hSound : KernelStart.Sound s) (hUser : s.inUser)
    (hFork : s.kernelFork o = .ok t) (hCall : label.forks = some o) (hIdle : t.idleProc = s.idleProc)
    (hSize : t.numPcbs = s.numPcbs + 1) : ∃ others, Family t others ∧ TreeStep label s t kids others := by
  have hParent := hSound.settled.live_running hUser
  have hNew : s.numPcbs ≠ s.idleProc := (Nat.ne_of_lt hSound.contexts.idle_lt).symm
  have hNotNew : ¬s.Live s.numPcbs := fun hOne => Nat.lt_irrefl _ hOne.2.1
  have hOther {p : Proc} (hp : p ≠ s.numPcbs) := Settled.live_kernelFork hFork hp
  obtain ⟨code, r, hKin | ⟨hKin, hAdd, hState⟩⟩ :=
    Kernel.kin_kernelFork hFork (Nat.ne_of_lt hParent.2.1) hNew
  · have hFreed : t.kin.freed = Function.update s.kin.freed s.numPcbs true := by rw [hKin]
    have hGone : ¬t.Live s.numPcbs := by
      intro hOne
      have hNot : t.kin.freed s.numPcbs = false := hOne.2.2.1
      rw [hFreed, Function.update_self] at hNot
      cases hNot
    have hLive : t.Live = s.Live := by
      funext p
      by_cases hp : p = s.numPcbs
      · rw [hp]
        exact propext (iff_of_false hGone hNotNew)
      · exact propext (hOther hp)
    refine ⟨kids, ?_, .failed hKin hLive hSize⟩
    have hSpawn := h.spawn (r := s.kin.relations s.runningProc) hParent (h.holds _ hParent) (Or.inl rfl) rfl
      (by
        rw [hKin, Function.update_comm (Nat.ne_of_lt hParent.2.1).symm, Function.update_eq_self]) hFreed
      (fun p => by simp [hLive]) hIdle hNew hSize
    rwa [Function.update_eq_self] at hSpawn
  · have hFreed : t.kin.freed = Function.update s.kin.freed s.numPcbs false := by rw [hKin]
    have hLive (p : Proc) : t.Live p ↔ s.Live p ∨ p = s.numPcbs := by
      by_cases hp : p = s.numPcbs
      · rw [hp]
        refine iff_of_true ⟨hIdle ▸ hNew, by rw [hSize]; exact Nat.lt_succ_self _, ?_, ?_⟩ (Or.inr rfl)
        · exact (congrFun hFreed s.numPcbs).trans (Function.update_self _ _ _)
        · rw [hState]
          simp
      · rw [hOther hp]
        simp [hp]
    obtain ⟨joined, hJoined, hHolds, hHas⟩ : ∃ joined, (joined = kids s.runningProc ++ [s.numPcbs] ∨
        joined = kids s.runningProc ∧ ∃ o, label.forks = some o ∧ o.alloc 4 = false) ∧ r.Holds joined ∧
        r.hasParent = (s.kin.relations s.runningProc).hasParent := by
      rcases hAdd with hAdd | ⟨hFull, rfl⟩
      · exact ⟨_, Or.inl rfl, (h.holds _ hParent).addChild hAdd⟩
      · refine ⟨_, Or.inr ⟨rfl, o, hCall, ?_⟩, h.holds _ hParent, rfl⟩
        by_contra hOk
        rw [Bool.not_eq_false] at hOk
        rw [hOk] at hFull
        exact Relations.addChild_ne_none _ _ hFull
    refine ⟨_, ?_, .fork hParent hJoined hHas hKin hLive hSize⟩
    exact h.spawn (b := false) hParent hHolds
      (hJoined.symm.imp (fun hSame => hSame.1) fun hNext => ⟨hNext, rfl⟩) hHas (by rw [hKin]) hFreed
      (fun p => by rw [hLive]; simp) hIdle hNew hSize

theorem effect (h : Family s kids) (hSound : KernelStart.Sound s) (hEffect : Effect label s t) :
    ∃ others, Family t others ∧ TreeStep label s t kids others := by
  obtain ⟨hIdle, hSize⟩ := Kernel.size_effect hEffect
  have hFork {o : Outcomes} (hUser : s.inUser) (hFork : s.kernelFork o = .ok t) (hCall : label.forks = some o) :
      ∃ others, Family t others ∧ TreeStep label s t kids others := by
    obtain ⟨kc, -, hCpu⟩ := Kernel.cpu_kernelFork hFork
    exact h.effect_fork hSound hUser hFork hCall hIdle (congrArg Cpu.numPcbs hCpu)
  rcases hSize with hSize | ⟨o, hUser, hCall, hForked, -⟩
  · cases Kernel.kin_effect hSound hEffect with
    | same hKin hLive => exact ⟨kids, h.same hKin hLive hIdle hSize, .same hKin hLive hSize⟩
    | @reap parent u shrinkOk code hParent hWho hFound hKin hLive =>
        obtain ⟨i, child, r, hChild, hExited, -, hHolds, hHas, rfl⟩ :=
          Kernel.findExitedChild_some (h.holds parent hParent) hFound
        have hKept := (h.child parent child (List.mem_of_getElem? hChild)).1
        rw [Kernel.kin_emit_kin _ rfl, Kernel.kin_setRelations, Kernel.kin_freePcb] at hKin
        simp only [List.append_assoc, List.cons_append, List.nil_append] at hKin
        exact ⟨_, h.reap hParent hChild hHolds hHas hKin hLive hIdle hSize,
          .reap hParent hWho hChild (hKept.exited_iff.mp hExited) hHas hKin hLive hSize⟩
    | exit hUser hExit hLive =>
        have hx := hSound.settled.live_running hUser
        have hKin := Kernel.kin_kernelExit hExit hLive (h.holds _ hx) (fun c hc => (h.child _ c hc).1)
          (h.not_mem_self _)
        exact ⟨_, h.exit hx (by rw [hKin]) (by rw [hKin]) hLive hIdle hSize, .exit hx hKin hLive hSize⟩
    | fork hUser hForked hCall => exact hFork hUser hForked hCall
  · exact hFork hUser hForked hCall

/-- Every control block with a parent is in an array; the first user process,
which nobody forked, is not. -/
def Adopted (s : Kernel) (kids : Proc → List Proc) : Prop :=
  ∀ p, s.Kept p → p ≠ 1 → (s.kin.relations p).hasParent = true → ∃ q, p ∈ kids q

/-- Freed control blocks were freed once, the others never. -/
def FreedOnce (s : Kernel) : Prop :=
  ∀ p, s.kin.log.count (.freed p) = (decide (p < s.numPcbs) && s.kin.freed p).toNat

omit [Hardware] in
theorem Adopted.step {others : Proc → List Proc} (hAdopted : Adopted s kids) (h : Family s kids)
    (hGrow : ∀ o, label.forks = some o → o.alloc 4 = true) (hIdle : t.idleProc = s.idleProc)
    (hStep : TreeStep label s t kids others) : Adopted t others := by
  intro p hp hInit hHas
  have hFreed : t.kin.freed p = false := hp.freed
  have hNeIdle : p ≠ s.idleProc := hIdle ▸ hp.ne_idle
  cases hStep with
  | same hKin hLive hSize =>
      rw [hKin] at hFreed hHas
      exact hAdopted p ⟨hNeIdle, hSize ▸ hp.lt, hFreed⟩ hInit hHas
  | @reap parent child i r hParent _ hChild hDead hSame hKin hLive hSize =>
      obtain ⟨hi, rfl⟩ := List.getElem?_eq_some_iff.mp hChild
      rw [hKin] at hFreed hHas
      dsimp only at hFreed hHas
      by_cases hc : p = (kids parent)[i]
      · simp [hc] at hFreed
      · rw [Function.update_of_ne hc] at hFreed
        have hOld : (s.kin.relations p).hasParent = true := by
          by_cases hSelf : p = parent
          · rw [hSelf, Function.update_self, hSame] at hHas
            rw [hSelf]
            exact hHas
          · rwa [Function.update_of_ne hSelf] at hHas
        obtain ⟨q, hq⟩ := hAdopted p ⟨hNeIdle, hSize ▸ hp.lt, hFreed⟩ hInit hOld
        exact ⟨q, (h.placed.mem_remove (List.getElem_cons_eraseIdx_perm hi).symm q p).mpr ⟨hc, hq⟩⟩
  | @exit x code hx hKin hLive hSize =>
      rw [hKin] at hFreed hHas
      simp only [Bool.or_eq_false_iff, decide_eq_false_iff_not, not_and, not_not] at hFreed
      obtain ⟨⟨hStill, hChild⟩, -⟩ := hFreed
      have hOut : p ∉ kids x := by
        intro hIn
        simp [hIn, hChild hIn, Relations.detach] at hHas
      dsimp only at hHas
      rw [if_neg fun hIn => hOut hIn.1] at hHas
      obtain ⟨q, hq⟩ := hAdopted p ⟨hNeIdle, hSize ▸ hp.lt, hStill⟩ hInit hHas
      have hNe : q ≠ x := fun he => hOut (he ▸ hq)
      refine ⟨q, ?_⟩
      rwa [Function.update_of_ne hNe]
  | failed hKin hLive hSize =>
      rw [hKin] at hFreed hHas
      dsimp only at hFreed hHas
      by_cases hn : p = s.numPcbs
      · simp [hn] at hFreed
      · rw [Function.update_of_ne hn] at hFreed hHas
        have hLt : p < s.numPcbs + 1 := hSize ▸ hp.lt
        exact hAdopted p ⟨hNeIdle, Nat.lt_of_le_of_ne (Nat.le_of_lt_succ hLt) hn, hFreed⟩ hInit hHas
  | @fork parent code r joined hParent hJoined hSame hKin hLive hSize =>
      have hAdd : joined = kids parent ++ [s.numPcbs] := by
        refine hJoined.resolve_right fun hFail => ?_
        obtain ⟨-, o, hCall, hNot⟩ := hFail
        simp [hGrow o hCall] at hNot
      by_cases hn : p = s.numPcbs
      · exact ⟨parent, by simp [hAdd, hn]⟩
      · rw [hKin] at hFreed hHas
        dsimp only at hFreed hHas
        rw [Function.update_of_ne hn] at hFreed
        have hOld : (s.kin.relations p).hasParent = true := by
          by_cases hSelf : p = parent
          · rw [hSelf, Function.update_self, hSame] at hHas
            rw [hSelf]
            exact hHas
          · rwa [Function.update_of_ne hSelf, Function.update_of_ne hn] at hHas
        have hLt : p < s.numPcbs + 1 := hSize ▸ hp.lt
        obtain ⟨q, hq⟩ := hAdopted p ⟨hNeIdle, Nat.lt_of_le_of_ne (Nat.le_of_lt_succ hLt) hn, hFreed⟩ hInit hOld
        refine ⟨q, ?_⟩
        by_cases hSelf : q = parent
        · rw [hSelf] at hq ⊢
          simp [hAdd, hq]
        · rwa [Function.update_of_ne hSelf]

omit [Hardware] in
theorem count_freed_map (l : List Proc) (p : Proc) : (l.map Event.freed).count (.freed p) = l.count p :=
  List.count_map_of_injective l Event.freed (fun _ _ he => Event.freed.inj he) p

omit [Hardware] in
theorem FreedOnce.step {others : Proc → List Proc} (hOnce : FreedOnce s) (h : Family s kids)
    (hStep : TreeStep label s t kids others) : FreedOnce t := by
  have hNever {p : Proc} (hp : s.Kept p) : s.kin.log.count (.freed p) = 0 := by
    have hNot : s.kin.freed p = false := hp.freed
    simp [hOnce p, hNot]
  have hUnused : s.kin.log.count (.freed s.numPcbs) = 0 := by simp [hOnce s.numPcbs]
  have hBefore {p : Proc} (hp : p ≠ s.numPcbs) : decide (p < s.numPcbs + 1) = decide (p < s.numPcbs) :=
    decide_eq_decide.mpr ⟨fun hLt => Nat.lt_of_le_of_ne (Nat.le_of_lt_succ hLt) hp, Nat.lt_succ_of_lt⟩
  intro p
  cases hStep with
  | same hKin _ hSize => rw [hKin, hSize, hOnce p]
  | @reap parent child i r _ _ hChild _ _ hKin _ hSize =>
      have hKept := (h.child parent child (List.mem_of_getElem? hChild)).1
      rw [hKin, hSize]
      dsimp only
      rw [List.count_append]
      by_cases hc : p = child
      · subst hc
        rw [hNever hKept]
        simp [hKept.lt]
      · rw [Function.update_of_ne hc, hOnce p]
        simp [Ne.symm hc]
  | @exit x code hx hKin _ hSize =>
      rw [hKin, hSize]
      dsimp only
      rw [List.count_append, List.count_append, List.count_append, count_freed_map]
      have hMark : [Event.exited x code].count (.freed p) = 0 := by simp
      rw [hMark]
      have hLast (hp : p ≠ x) :
          (if (s.kin.relations x).hasParent then [] else [Event.freed x]).count (.freed p) = 0 := by
        split_ifs <;> simp [hp.symm]
      by_cases hIn : p ∈ kids x
      · have hKept := (h.child x p hIn).1
        have hNot : s.kin.freed p = false := hKept.freed
        have hNe : p ≠ x := fun he => h.not_mem_self x (he ▸ hIn)
        rw [hNever hKept, hLast hNe]
        by_cases hAlive : s.Live p
        · rw [List.count_eq_zero_of_not_mem (by simp [hAlive])]
          simp [hNot, hAlive, hNe]
        · rw [List.count_eq_one_of_mem ((h.placed.nodup x).filter _) (by simp [hIn, hAlive])]
          simp [hIn, hAlive, hKept.lt]
      · rw [List.count_eq_zero_of_not_mem fun hMem => hIn (List.mem_filter.mp hMem).1]
        by_cases hp : p = x
        · subst hp
          have hNot : s.kin.freed p = false := hx.kept.freed
          rw [hNever hx.kept]
          cases hHas : (s.kin.relations p).hasParent with
          | true => simp [hNot, hIn]
          | false => simp [hx.2.1]
        · rw [hLast hp, hOnce p]
          simp [hIn, hp]
  | failed hKin _ hSize =>
      rw [hKin, hSize]
      dsimp only
      rw [List.count_append]
      by_cases hp : p = s.numPcbs
      · subst hp
        rw [hUnused]
        simp
      · rw [Function.update_of_ne hp, hOnce p, hBefore hp]
        simp [Ne.symm hp]
  | fork _ _ _ hKin _ hSize =>
      rw [hKin, hSize]
      dsimp only
      rw [List.count_append]
      by_cases hp : p = s.numPcbs
      · subst hp
        rw [hUnused]
        simp
      · rw [Function.update_of_ne hp, hOnce p, hBefore hp]
        simp

end Family

namespace KernelStart

open Kernel

variable [Hardware]

/-- The family tree at boot. -/
theorem kin_bootPcbs (uctxt : UserContext) (p : Proc) :
    ((bootPcbs uctxt).kin.relations p).numChildren = 0 ∧ (bootPcbs uctxt).kin.freed p = false ∧
      (p = 1 → ((bootPcbs uctxt).kin.relations p).hasParent = true) := by
  by_cases h1 : p = 1
  · subst h1
    exact ⟨rfl, rfl, fun _ => rfl⟩
  · refine ⟨?_, ?_, fun hp => absurd hp h1⟩ <;>
    by_cases h0 : p = 0 <;>
      simp [kin, bootPcbs, createNewPcb, bootOutcomes, image, Pcb.blank, h0, h1]

theorem family_kernelStart (uctxt : UserContext) (early late : List Word) :
    Family (kernelStart uctxt early late) (fun _ => []) ∧
      Family.Adopted (kernelStart uctxt early late) (fun _ => []) ∧
      Family.FreedOnce (kernelStart uctxt early late) := by
  have hKin : (kernelStart uctxt early late).kin = (bootPcbs uctxt).kin :=
    kin_of_records (records_kernelStart uctxt early late)
  obtain ⟨kc, -, hCpu⟩ := cpu_kernelStart uctxt early late
  have hIdle : (kernelStart uctxt early late).idleProc = 0 := congrArg Cpu.idleProc hCpu
  have hSize : (kernelStart uctxt early late).numPcbs = 2 := congrArg Cpu.numPcbs hCpu
  have hCount (p : Proc) := (kin_bootPcbs uctxt p).1
  have hInit {p : Proc} (hp : (kernelStart uctxt early late).Kept p) : p = 1 := by
    have hLt := hp.lt
    have hNe := hp.ne_idle
    rw [hSize] at hLt
    rw [hIdle] at hNe
    exact Nat.le_antisymm (Nat.le_of_lt_succ hLt) (Nat.pos_of_ne_zero hNe)
  refine ⟨⟨⟨fun _ => List.nodup_nil, by simp⟩, fun p _ => .nil ?_, fun _ _ => rfl, by simp, fun p hp hNone => ?_,
    fun p _ _ i hi => ?_, ?_⟩, fun p hp hNe => absurd (hInit hp) hNe, fun p => ?_⟩
  · rw [hKin, hCount]
  · rw [hKin, (kin_bootPcbs uctxt p).2.2 (hInit hp)] at hNone
    cases hNone
  · rw [hKin, hCount] at hi
    exact absurd hi (Nat.not_lt_zero _)
  · rw [hKin, hCount]
  · rw [hKin, (kin_bootPcbs uctxt p).2.1]
    simp [kin, bootPcbs, createNewPcb, bootOutcomes, image]

/-- The invariant rule for the tree: what holds at boot and survives every step
of the tree holds in every state of a run. Conditions on a run may only concern
the outcomes of its forks. -/
theorem family_reach {grants : Outcomes → Prop} {P : Kernel → (Proc → List Proc) → Prop}
    (hInitial : ∀ uctxt early late, P (kernelStart uctxt early late) fun _ => [])
    (hStep : ∀ label s t kids others, (∀ o ∈ label.forks, grants o) → Family s kids →
      t.idleProc = s.idleProc → TreeStep label s t kids others → P s kids → P t others)
    {s : Kernel} (run : system.Reach (fun _ label => ∀ o ∈ label.forks, grants o) s) :
    ∃ kids, Family s kids ∧ P s kids := by
  have hSame {s t : Kernel} (h : ∃ kids, Family s kids ∧ P s kids) (hKin : t.kin = s.kin)
      (hLive : t.Live = s.Live) (hIdle : t.idleProc = s.idleProc) (hSize : t.numPcbs = s.numPcbs) :
      ∃ kids, Family t kids ∧ P t kids := by
    obtain ⟨kids, hFamily, hHolds⟩ := h
    refine ⟨kids, hFamily.same hKin hLive hIdle hSize, ?_⟩
    exact hStep .math s t kids kids (by simp [Label.forks]) hFamily hIdle (.same hKin hLive hSize) hHolds
  refine invariant_of_labels (I := fun s => ∃ kids, Family s kids ∧ P s kids) ?_ ?_ ?_ ?_ run
  · intro uctxt early late
    exact ⟨_, (family_kernelStart uctxt early late).1, hInitial uctxt early late⟩
  · rintro label s t hGrants hSound ⟨kids, hFamily, hHolds⟩ hEffect
    obtain ⟨others, hNext, hTree⟩ := hFamily.effect hSound hEffect
    exact ⟨others, hNext, hStep label s t kids others hGrants hFamily (size_effect hEffect).1 hTree hHolds⟩
  · intro s id len _ h
    have hKin := kin_of_records (records_read s id len)
    obtain ⟨ttys, lines, trace, hRead⟩ := read_eq s id len
    rw [hRead] at hKin ⊢
    exact hSame h hKin rfl rfl rfl
  · intro s id _ h _ _
    exact hSame h rfl rfl rfl rfl

end KernelStart

/-- The `i`-th entry of a children array. -/
def Kernel.childAt (s : Kernel) (p : Proc) (i : Nat) : Option Proc :=
  if i < (s.pcb p).relations.numChildren then (s.pcb p).relations.children i else none

namespace Family

variable {s : Kernel} {kids : Proc → List Proc} {p q : Proc} {i : Nat}

theorem childAt_eq (h : Family s kids) (hLive : s.Live p) : s.childAt p i = (kids p)[i]? := by
  have hHolds := h.holds p hLive
  unfold Kernel.childAt
  split_ifs with hi
  · exact hHolds.slot i (hHolds.count ▸ hi)
  · exact (List.getElem?_eq_none (by rw [← hHolds.count]; exact Nat.le_of_not_lt hi)).symm

theorem childAt_idle (h : Family s kids) : s.childAt s.idleProc i = none := by
  have hNone : (s.pcb s.idleProc).relations.numChildren = 0 := h.idle
  simp [Kernel.childAt, hNone]

/-- An entry of any array is an entry of the owner's list, or freed, or an orphan. -/
theorem childAt_some (h : Family s kids) (hq : q < s.numPcbs) (hAt : s.childAt q i = some p) :
    s.Live q ∧ (kids q)[i]? = some p ∨
      ¬s.Live q ∧ ((s.pcb p).freed = true ∨ (s.pcb p).relations.hasParent = false) := by
  by_cases hLive : s.Live q
  · exact Or.inl ⟨hLive, (h.childAt_eq hLive).symm.trans hAt⟩
  · unfold Kernel.childAt at hAt
    split_ifs at hAt with hi
    exact Or.inr ⟨hLive, (h.stale q hq hLive i hi p hAt).2⟩

/-- Only a process that is kept and has a parent is in the array of a process
that has not exited. -/
theorem child_of_childAt (h : Family s kids) (hq : q < s.numPcbs) (hFreed : (s.pcb q).freed = false)
    (hState : (s.pcb q).state ≠ .exited) (hAt : s.childAt q i = some p) :
    s.Kept p ∧ (s.pcb p).relations.hasParent = true := by
  by_cases hIdle : q = s.idleProc
  · rw [hIdle, h.childAt_idle] at hAt
    cases hAt
  · have hLive : s.Live q := ⟨hIdle, hq, hFreed, hState⟩
    rw [h.childAt_eq hLive] at hAt
    obtain ⟨hKept, -, hHas⟩ := h.child q p (List.mem_of_getElem? hAt)
    exact ⟨hKept, hHas⟩

end Family

namespace KernelStart

/-- The lifetime of control blocks when every fork can enlarge the children
array of the parent. -/
theorem family_lifetimes [Hardware] {s : Kernel}
    (run : system.Reach (fun _ label => ∀ o ∈ label.forks, o.alloc 4 = true) s) :
    (∀ p, p < s.numPcbs → p ≠ s.idleProc → p ≠ 1 → (s.pcb p).freed = false →
      (s.pcb p).relations.hasParent = true →
        ∃ q i, s.Live q ∧ s.childAt q i = some p ∧
          ∀ r j, r < s.numPcbs → s.childAt r j = some p → r = q ∧ j = i) ∧
    (∀ p, p < s.numPcbs → p ≠ s.idleProc → p ≠ 1 → (s.pcb p).freed = false →
      (s.pcb p).relations.hasParent = false →
        (s.pcb p).state ≠ .exited ∧ ∀ q i, q < s.numPcbs → (s.pcb q).freed = false →
          (s.pcb q).state ≠ .exited → s.childAt q i ≠ some p) ∧
    (∀ p, s.trace.count (.freed p) ≤ 1) ∧
    ∀ p, p < s.numPcbs → (s.pcb p).freed = true →
      (∀ q i, q < s.numPcbs → (s.pcb q).freed = false → (s.pcb q).state ≠ .exited →
        s.childAt q i ≠ some p) ∧ ∀ place, p ∉ s.contents place := by
  obtain ⟨kids, h, hAdopted, hOnce⟩ := family_reach (P := fun s kids => Family.Adopted s kids ∧ Family.FreedOnce s)
    (fun uctxt early late => (family_kernelStart uctxt early late).2)
    (fun label s t kids others hGrow hFamily hIdle hStep hHolds =>
      ⟨hHolds.1.step hFamily hGrow hIdle hStep, hHolds.2.step hFamily hStep⟩) run
  refine ⟨?_, ?_, ?_, ?_⟩
  · intro p hLt hIdle hInit hFreed hHas
    obtain ⟨q, hq⟩ := hAdopted p ⟨hIdle, hLt, hFreed⟩ hInit hHas
    have hLive := h.live_of_mem hq
    obtain ⟨i, hi⟩ := List.mem_iff_getElem?.mp hq
    refine ⟨q, i, hLive, (h.childAt_eq hLive).trans hi, fun r j hr hAt => ?_⟩
    rcases h.childAt_some hr hAt with ⟨-, hj⟩ | ⟨-, hGone | hNone⟩
    · have hOwner : r = q := by
        by_contra hNe
        exact h.placed.not_mem_of_ne hq hNe (List.mem_of_getElem? hj)
      subst hOwner
      obtain ⟨hBound, -⟩ := List.getElem?_eq_some_iff.mp hj
      exact ⟨rfl, (List.getElem?_inj hBound (h.placed.nodup r)).mp (hj.trans hi.symm)⟩
    · rw [hFreed] at hGone
      cases hGone
    · rw [hHas] at hNone
      cases hNone
  · intro p hLt hIdle _ hFreed hNone
    refine ⟨(h.orphan p ⟨hIdle, hLt, hFreed⟩ hNone).2.2.2, fun q i hq hKept hState hAt => ?_⟩
    have hHas := (h.child_of_childAt hq hKept hState hAt).2
    rw [hNone] at hHas
    cases hHas
  · intro p
    have hCount : s.trace.count (.freed p) = s.kin.log.count (.freed p) := (List.count_filter rfl).symm
    rw [hCount, hOnce p]
    exact Bool.toNat_le _
  · intro p _ hGone
    refine ⟨fun q i hq hKept hState hAt => ?_, fun place hMem => ?_⟩
    · have hFreed := (h.child_of_childAt hq hKept hState hAt).1.freed
      rw [hGone] at hFreed
      cases hFreed
    · have hLive := (sound_reachable run.reachable).settled.placement.live_of_mem hMem
      have hFreed := hLive.2.2.1
      rw [hGone] at hFreed
      cases hFreed

open Sample in
/-- A parent and its child. -/
theorem family_lifetimes_child : ∃ s : Kernel,
    system.Reach (fun _ label => ∀ o ∈ label.forks, o.alloc 4 = true) s ∧
      (s.pcb 2).relations.hasParent = true ∧ ∃ q i, s.Live q ∧ s.childAt q i = some 2 ∧
        ∀ r j, r < s.numPcbs → s.childAt r j = some 2 → r = q ∧ j = i := by
  obtain ⟨s, run, hLt, hIdle, hFreed, hHas⟩ : ∃ s : Kernel,
      system.Reach (fun _ label => ∀ o ∈ label.forks, o.alloc 4 = true) s ∧ 2 < s.numPcbs ∧ 2 ≠ s.idleProc ∧
        (s.pcb 2).freed = false ∧ (s.pcb 2).relations.hasParent = true :=
    Transition.System.exists_reach (turn ++ [call .fork []]) initial_booted (by decide +kernel)
  exact ⟨s, run, hHas, (family_lifetimes run).1 2 hLt hIdle (by decide) hFreed hHas⟩

end KernelStart
end Yalnix
