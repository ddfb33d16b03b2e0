import Yalnix.Process.Record

/-! The children array of a control block as a list, and what `pcb.c` does to
the family tree in terms of it. -/
namespace Yalnix

namespace Relations

variable {r grown : Relations} {l : List Proc}

/-- The occupied part of the array, in order. -/
structure Holds (r : Relations) (l : List Proc) : Prop where
  count : r.numChildren = l.length
  slot : ∀ i, i < l.length → r.children i = l[i]?

theorem Holds.nil (hNone : r.numChildren = 0) : r.Holds [] := ⟨hNone, fun _ hi => absurd hi (Nat.not_lt_zero _)⟩

theorem Holds.slots (h : r.Holds l) : (List.range r.numChildren).map r.children = l.map some := by
  apply List.ext_getElem
  · simp [h.count]
  · intro i hLeft hRight
    have hi : i < l.length := by simpa using hRight
    rw [List.getElem_map, List.getElem_map, List.getElem_range, h.slot i hi, List.getElem?_eq_getElem hi]

theorem Holds.mem_iff (h : r.Holds l) (c : Proc) : c ∈ l ↔ ∃ i < r.numChildren, r.children i = some c := by
  have hMem : c ∈ l ↔ some c ∈ (List.range r.numChildren).map r.children := by simp [h.slots]
  rw [hMem]
  simp

/-- `add_child_proc` appends. -/
theorem Holds.addChild {child : Proc} {growOk : Bool} (h : r.Holds l)
    (hAdd : r.addChild child growOk = some grown) :
    grown.Holds (l ++ [child]) ∧ grown.hasParent = r.hasParent := by
  have hAppend {children : Nat → Option Proc} (hSame : ∀ i < l.length, children i = r.children i) (i : Nat)
      (hi : i < (l ++ [child]).length) :
      Function.update children r.numChildren (some child) i = (l ++ [child])[i]? := by
    rw [h.count]
    by_cases hLast : i = l.length
    · subst hLast
      simp
    · have hLt : i < l.length := by
        rw [List.length_append, List.length_singleton] at hi
        omega
      rw [Function.update_of_ne hLast, hSame i hLt, h.slot i hLt, List.getElem?_append_left hLt]
  unfold Relations.addChild at hAdd
  split_ifs at hAdd with hFull hGrow
  · obtain rfl := Option.some.inj hAdd
    exact ⟨⟨by simp [h.count], hAppend fun i hi => if_pos (h.count.symm ▸ hi)⟩, rfl⟩
  · obtain rfl := Option.some.inj hAdd
    exact ⟨⟨by simp [h.count], hAppend fun _ _ => rfl⟩, rfl⟩

/-- The relations of an orphan. -/
def detach (r : Relations) : Relations := { r with hasParent := false }

/-- With the allocation granted a child is always added. -/
theorem addChild_ne_none (r : Relations) (child : Proc) : r.addChild child true ≠ none := by
  unfold addChild
  split <;> simp

/-- The loop that moves the later slots down by one. -/
theorem foldl_shift (children : Nat → Option Proc) (i count j : Nat) :
    (List.range' i count).foldl (fun children j => Function.update children j (children (j + 1))) children j =
      if i ≤ j ∧ j < i + count then children (j + 1) else children j := by
  induction count generalizing j with
  | zero =>
      rw [if_neg (by omega)]
      rfl
  | succ count ih =>
      rw [List.range'_concat, List.foldl_append, List.foldl_cons, List.foldl_nil, Nat.one_mul]
      by_cases hj : j = i + count
      · subst hj
        rw [Function.update_self, ih, if_neg (by omega), if_pos (by omega)]
      · rw [Function.update_of_ne hj, ih]
        by_cases hIn : i ≤ j ∧ j < i + count
        · rw [if_pos hIn, if_pos (by omega)]
        · rw [if_neg hIn, if_neg (by omega)]

/-- The compaction closes the gap. -/
theorem Holds.compact {i j : Nat} (h : r.Holds l) (hi : i < l.length) (hj : j + 1 < l.length) :
    Relations.compact r.children i r.numChildren j = (l.eraseIdx i)[j]? := by
  unfold Relations.compact
  rw [h.count, Function.update_of_ne (by omega), foldl_shift, List.getElem?_eraseIdx]
  by_cases hBefore : j < i
  · rw [if_neg (by omega), if_pos hBefore, h.slot j (by omega)]
  · rw [if_pos (by omega), if_neg hBefore, h.slot (j + 1) hj]

/-- Removing a slot removes it from the list. -/
theorem Holds.removeChild {i : Nat} (h : r.Holds l) (hi : i < l.length) (shrinkOk : Bool) :
    (r.removeChild i shrinkOk).Holds (l.eraseIdx i) ∧
      (r.removeChild i shrinkOk).hasParent = r.hasParent := by
  have hLength : (l.eraseIdx i).length = l.length - 1 := List.length_eraseIdx_of_lt hi
  have hCount : r.numChildren - 1 = (l.eraseIdx i).length := by rw [hLength, h.count]
  unfold Relations.removeChild
  dsimp only
  split_ifs
  · refine ⟨⟨hCount, fun j hj => ?_⟩, rfl⟩
    dsimp only
    rw [if_pos (by rw [h.count]; omega), h.compact hi (by omega)]
  · exact ⟨⟨hCount, fun j hj => h.compact hi (by omega)⟩, rfl⟩

end Relations

namespace Kernel

variable {s t : Kernel} {p parent : Proc} {l : List Proc}

section Kin

theorem kin_emit_kin (s : Kernel) {e : Event} (he : e.isKin = true) :
    (s.emit e).kin = { s.kin with log := s.kin.log ++ [e] } := by
  simp [kin, emit, he]

/-- A change of one control block as a change of its kin. -/
theorem kin_modifyPcb_eq (s : Kernel) (p : Proc) (f : Pcb → Pcb) : (s.modifyPcb p f).kin = { s.kin with
    relations := Function.update s.kin.relations p (f (s.pcb p)).relations
    exitCode := Function.update s.kin.exitCode p (f (s.pcb p)).exitCode
    freed := Function.update s.kin.freed p (f (s.pcb p)).freed } := by
  have hView {α : Type} (v : Pcb → α) : (fun q => v ((s.modifyPcb p f).pcb q)) =
      Function.update (fun q => v (s.pcb q)) p (v (f (s.pcb p))) := by
    funext q
    by_cases hq : q = p
    · subst hq
      simp [modifyPcb]
    · simp [modifyPcb, Function.update_of_ne hq]
  simp only [kin, hView]
  rfl

theorem kin_setRelations (s : Kernel) (p : Proc) (r : Relations) :
    (s.setRelations p r).kin = { s.kin with relations := Function.update s.kin.relations p r } := by
  have hCode : Function.update s.kin.exitCode p (s.pcb p).exitCode = s.kin.exitCode := Function.update_eq_self _ _
  have hFreed : Function.update s.kin.freed p (s.pcb p).freed = s.kin.freed := Function.update_eq_self _ _
  rw [setRelations, kin_modifyPcb_eq, hCode, hFreed]

theorem kin_freePcb (s : Kernel) (p : Proc) : (s.freePcb p).kin = { s.kin with
    freed := Function.update s.kin.freed p true, log := s.kin.log ++ [.freed p] } := by
  have hCode : Function.update s.kin.exitCode p (s.pcb p).exitCode = s.kin.exitCode := Function.update_eq_self _ _
  have hRelations : Function.update s.kin.relations p (s.pcb p).relations = s.kin.relations :=
    Function.update_eq_self _ _
  rw [freePcb, kin_emit_kin _ rfl, kin_modifyPcb_eq, hCode, hRelations]

end Kin

/-- `find_exited_child` frees an exited child and takes it out of the array. -/
theorem findExitedChild_some {shrinkOk : Bool} {code : Word} (h : (s.pcb parent).relations.Holds l)
    (hFound : s.findExitedChild parent shrinkOk = some (t, code)) :
    ∃ i child relations, l[i]? = some child ∧ (s.pcb child).state = .exited ∧
      code = (s.pcb child).exitCode ∧ relations.Holds (l.eraseIdx i) ∧
      relations.hasParent = (s.pcb parent).relations.hasParent ∧
      t = ((s.freePcb child).setRelations parent relations).emit (.reaped parent child) := by
  simp only [findExitedChild, Option.bind_eq_bind, Option.bind_eq_some_iff, Option.some.injEq,
    Prod.mk.injEq] at hFound
  obtain ⟨i, hIdx, child, hChild, rfl, rfl⟩ := hFound
  have hLt : i < l.length := by
    have hMem := List.mem_of_find?_eq_some hIdx
    rw [List.mem_range, h.count] at hMem
    exact hMem
  have hExited : (s.pcb child).state = .exited := by
    have hTest := List.find?_some hIdx
    simpa [hChild, isExited] using hTest
  have hSame : ((s.freePcb child).pcb parent).relations = (s.pcb parent).relations :=
    pcb_modifyPcb (v := Pcb.relations) (f := fun p => { p with freed := true }) rfl parent
  obtain ⟨hHolds, hParent⟩ := h.removeChild hLt shrinkOk
  refine ⟨i, child, (s.pcb parent).relations.removeChild i shrinkOk, ?_, hExited, rfl, hHolds, hParent, ?_⟩
  · rw [← h.slot i hLt, hChild]
  · rw [hSame]

/-- It fails only when no child has exited. -/
theorem findExitedChild_none {shrinkOk : Bool} (h : (s.pcb parent).relations.Holds l)
    (hNone : s.findExitedChild parent shrinkOk = none) : ∀ c ∈ l, (s.pcb c).state ≠ .exited := by
  intro c hc hExited
  obtain ⟨i, hi, hChild⟩ := (h.mem_iff c).mp hc
  have hSome : (s.exitedChildIdx parent).isSome := by
    rw [exitedChildIdx, List.find?_isSome]
    refine ⟨i, List.mem_range.mpr hi, ?_⟩
    simp [hChild, isExited, hExited]
  obtain ⟨j, hj⟩ := Option.isSome_iff_exists.mp hSome
  have hMem : j < (s.pcb parent).relations.numChildren := List.mem_range.mp (List.mem_of_find?_eq_some hj)
  have hSlot : ∃ d, (s.pcb parent).relations.children j = some d := by
    rw [h.slot j (h.count ▸ hMem), List.getElem?_eq_getElem (h.count ▸ hMem)]
    exact ⟨_, rfl⟩
  obtain ⟨d, hd⟩ := hSlot
  simp [findExitedChild, hj, hd] at hNone

section Retire

/-- The loop of `retire_pcb`. -/
def orphans (s : Kernel) (l : List Proc) : Kernel := l.foldl (fun s c => s.orphan (some c)) s

theorem retirePcb_eq_orphans (h : (s.pcb p).relations.Holds l) : s.retirePcb p =
    if ((s.orphans l).pcb p).relations.hasParent then s.orphans l else (s.orphans l).freePcb p := by
  have hFold (r : Relations) (hr : r.Holds l) :
      (List.range r.numChildren).foldl (fun s i => s.orphan (r.children i)) s = s.orphans l := by
    rw [orphans, ← List.foldl_map (g := fun s slot => orphan s slot), hr.slots, List.foldl_map]
  unfold retirePcb
  dsimp only
  rw [hFold _ h]

theorem quiet_orphans (s : Kernel) (l : List Proc) : Quiet s (s.orphans l) := by
  induction l generalizing s with
  | nil => exact .refl s
  | cons c l ih => exact (Quiet.orphan s (some c)).trans (ih _)

/-- The loop frees the children that have exited and detaches the others. -/
theorem kin_orphans (s : Kernel) (l : List Proc) : (s.orphans l).kin =
    { s.kin with
      relations := fun q => if q ∈ l ∧ (s.pcb q).state ≠ .exited then
        (s.kin.relations q).detach else s.kin.relations q
      freed := fun q => s.kin.freed q || decide (q ∈ l ∧ (s.pcb q).state = .exited)
      log := s.kin.log ++ (l.filter fun q => (s.pcb q).state = .exited).map .freed } := by
  induction l generalizing s with
  | nil => simp [orphans]
  | cons c l ih =>
      have hStep : s.orphans (c :: l) = (s.orphan (some c)).orphans l := rfl
      have hState (q : Proc) : ((s.orphan (some c)).pcb q).state = (s.pcb q).state :=
        (Quiet.orphan s (some c)).state q
      rw [hStep, ih]
      simp only [hState]
      by_cases hExited : (s.pcb c).state = .exited
      · have hKin : (s.orphan (some c)).kin = (s.freePcb c).kin := by
          simp [orphan, hExited]
        rw [hKin, kin_freePcb]
        simp only [Kin.mk.injEq, true_and]
        refine ⟨funext fun q => ?_, funext fun q => ?_, ?_⟩
        · by_cases hq : q = c
          · subst hq
            simp [hExited]
          · simp [hq]
        · by_cases hq : q = c
          · subst hq
            simp [hExited]
          · simp [hq]
        · simp [hExited]
      · have hKin : (s.orphan (some c)).kin =
            { s.kin with relations := Function.update s.kin.relations c (s.kin.relations c).detach } := by
          have hOrphan : s.orphan (some c) = s.setRelations c (s.pcb c).relations.detach := by
            unfold orphan
            dsimp only
            rw [if_neg hExited]
            rfl
          rw [hOrphan, kin_setRelations]
          rfl
        rw [hKin]
        simp only [Kin.mk.injEq, true_and]
        refine ⟨funext fun q => ?_, funext fun q => ?_, ?_⟩
        · by_cases hq : q = c
          · subst hq
            simp [hExited, Relations.detach]
          · simp [hq]
        · by_cases hq : q = c
          · subst hq
            simp [hExited]
          · simp [hq]
        · simp [hExited]

end Retire

end Kernel
end Yalnix
