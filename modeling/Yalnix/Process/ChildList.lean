import Yalnix.Process.Children
import Yalnix.Sample

/-! The children array refines a list. The list grows at its end, and the earliest
child that has exited is taken out of it. -/
namespace Yalnix

/-- The array stands for this list of distinct children. -/
structure Relations.Represents (r : Relations) (l : List Proc) : Prop extends r.Holds l where
  size : 1 ≤ r.arrSize
  room : r.numChildren ≤ r.arrSize
  nodup : l.Nodup

namespace Relations

variable {r grown : Relations} {l : List Proc}

theorem Represents.addChild {child : Proc} {growOk : Bool} (h : r.Represents l) (hNew : child ∉ l)
    (hAdd : r.addChild child growOk = some grown) : grown.Represents (l ++ [child]) := by
  have hSize := h.size
  have hRoom := h.room
  refine ⟨(h.toHolds.addChild hAdd).1, ?_, ?_, List.nodup_append.mpr ⟨h.nodup, List.nodup_singleton child, ?_⟩⟩
  · unfold Relations.addChild at hAdd
    split_ifs at hAdd with hFull
    · obtain rfl := Option.some.inj hAdd
      show 1 ≤ r.arrSize * 2
      omega
    · obtain rfl := Option.some.inj hAdd
      exact hSize
  · unfold Relations.addChild at hAdd
    split_ifs at hAdd with hFull
    · obtain rfl := Option.some.inj hAdd
      show r.numChildren + 1 ≤ r.arrSize * 2
      omega
    · obtain rfl := Option.some.inj hAdd
      show r.numChildren + 1 ≤ r.arrSize
      omega
  · rintro c hc d hd rfl
    exact hNew (List.mem_singleton.mp hd ▸ hc)

/-- The array is halved only when it has room for the children that are left. -/
theorem Represents.removeChild {i : Nat} (h : r.Represents l) (hi : i < l.length) (shrinkOk : Bool) :
    (r.removeChild i shrinkOk).Represents (l.eraseIdx i) := by
  have hSize := h.size
  have hRoom := h.room
  have hCount := h.count
  refine ⟨(h.toHolds.removeChild hi shrinkOk).1, ?_, ?_, h.nodup.eraseIdx i⟩
  · unfold Relations.removeChild
    dsimp only
    split_ifs with hHalf
    · show 1 ≤ r.arrSize / 2
      omega
    · exact hSize
  · unfold Relations.removeChild
    dsimp only
    split_ifs with hHalf
    · show r.numChildren - 1 ≤ r.arrSize / 2
      omega
    · show r.numChildren - 1 ≤ r.arrSize
      omega

end Relations

namespace Kernel

variable {s t : Kernel} {parent child : Proc} {l : List Proc}

/-- The children array of `parent`, apart from the parent's own flag. -/
def SameChildren (s t : Kernel) (parent : Proc) : Prop :=
  (t.pcb parent).relations = { (s.pcb parent).relations with hasParent := (t.pcb parent).relations.hasParent }

/-- The history of a children array, with the list of children that were added and
not yet found to have exited. In between, anything else may happen to the kernel. -/
inductive Tracks [Hardware] (parent : Proc) : Kernel → List Proc → Prop where
  | created {s t : Kernel} {uc : UserContext} {o : Outcomes} (h : s.createNewPcb uc o = (t, some parent)) :
      Tracks parent t []
  | added {s t : Kernel} {l : List Proc} {child : Proc} {growOk : Bool} (prior : Tracks parent s l)
      (hNew : child ∉ l) (h : s.addChildProc parent child growOk = (t, true)) : Tracks parent t (l ++ [child])
  | refused {s t : Kernel} {l : List Proc} {child : Proc} {growOk : Bool} (prior : Tracks parent s l)
      (h : s.addChildProc parent child growOk = (t, false)) : Tracks parent t l
  | reaped {s t : Kernel} {l : List Proc} {shrinkOk : Bool} {code : Word} (prior : Tracks parent s l)
      (h : s.findExitedChild parent shrinkOk = some (t, code)) :
      Tracks parent t (l.eraseP fun c => (s.pcb c).state = .exited)
  | other {s t : Kernel} {l : List Proc} (prior : Tracks parent s l) (hSame : s.SameChildren t parent) :
      Tracks parent t l

/-- `add_child_proc` appends the child, or changes nothing. -/
theorem addChildProc_represents (growOk : Bool) (h : (s.pcb parent).relations.Represents l) (hNew : child ∉ l) :
    (∃ t, s.addChildProc parent child growOk = (t, true) ∧ (t.pcb parent).relations.Represents (l ++ [child])) ∨
      s.addChildProc parent child growOk = (s, false) := by
  unfold addChildProc
  split
  · exact Or.inr rfl
  · rename_i grown hAdd
    refine Or.inl ⟨_, rfl, ?_⟩
    have hGrown := h.addChild hNew hAdd
    simpa [setRelations, modifyPcb] using hGrown

theorem isExited_some (c : Proc) : s.isExited (some c) = decide ((s.pcb c).state = .exited) := rfl

/-- The search stops at the earliest child that has exited. -/
theorem exitedChildIdx_some {i : Nat} (h : (s.pcb parent).relations.Holds l) (hIdx : s.exitedChildIdx parent = some i) :
    ∃ before c after, l = before ++ c :: after ∧ before.length = i ∧
      (∀ d ∈ before, (s.pcb d).state ≠ .exited) ∧ (s.pcb c).state = .exited := by
  unfold exitedChildIdx at hIdx
  obtain ⟨hExited, hLess, hEarlier⟩ := List.find?_range_eq_some.mp hIdx
  rw [List.mem_range, h.count] at hLess
  have hSlot (j : Nat) (hj : j < l.length) : (s.pcb parent).relations.children j = some l[j] := by
    rw [h.slot j hj, List.getElem?_eq_getElem hj]
  refine ⟨l.take i, l[i], l.drop (i + 1), ?_, ?_, ?_, ?_⟩
  · rw [← List.drop_eq_getElem_cons hLess, List.take_append_drop]
  · rw [List.length_take, Nat.min_eq_left hLess.le]
  · intro d hd
    obtain ⟨j, hj, rfl⟩ := List.mem_iff_getElem.mp hd
    rw [List.length_take] at hj
    have hNot := hEarlier j (by omega)
    rw [hSlot j (by omega), isExited_some] at hNot
    rw [List.getElem_take]
    simpa using hNot
  · rw [hSlot i hLess, isExited_some] at hExited
    simpa using hExited

/-- `find_exited_child` takes the earliest child that has exited out of the list. -/
theorem findExitedChild_represents {shrinkOk : Bool} {code : Word} (h : (s.pcb parent).relations.Represents l)
    (hFound : s.findExitedChild parent shrinkOk = some (t, code)) :
    ∃ before c after, l = before ++ c :: after ∧ (∀ d ∈ before, (s.pcb d).state ≠ .exited) ∧
      (s.pcb c).state = .exited ∧ code = (s.pcb c).exitCode ∧
      (t.pcb parent).relations.Represents (before ++ after) := by
  simp only [findExitedChild, Option.bind_eq_bind, Option.bind_eq_some_iff, Option.some.injEq,
    Prod.mk.injEq] at hFound
  obtain ⟨i, hIdx, child, hChild, rfl, rfl⟩ := hFound
  obtain ⟨before, c, after, rfl, rfl, hBefore, hExited⟩ := exitedChildIdx_some h.toHolds hIdx
  have hLess : before.length < (before ++ c :: after).length := by simp
  obtain rfl : child = c := by
    have hSlot := h.slot before.length hLess
    rw [hChild] at hSlot
    simpa using hSlot
  refine ⟨before, child, after, rfl, hBefore, hExited, rfl, ?_⟩
  have hRemoved := h.removeChild hLess shrinkOk
  have hErased : (before ++ child :: after).eraseIdx before.length = before ++ after := by
    rw [List.eraseIdx_append_of_length_le le_rfl, Nat.sub_self, List.eraseIdx_cons_zero]
  have hSame : ((s.freePcb child).pcb parent).relations = (s.pcb parent).relations :=
    pcb_modifyPcb (v := Pcb.relations) (f := fun p => { p with freed := true }) rfl parent
  rw [hErased] at hRemoved
  simp only [setRelations, modifyPcb, emit, Function.update_self]
  rw [show ((s.freePcb child).pcb parent).relations = _ from hSame]
  exact hRemoved

theorem findExitedChild_none_iff (h : (s.pcb parent).relations.Represents l) (shrinkOk : Bool) :
    s.findExitedChild parent shrinkOk = none ↔ ∀ c ∈ l, (s.pcb c).state ≠ .exited := by
  constructor
  · exact findExitedChild_none h.toHolds
  · intro hNone
    by_contra hSome
    obtain ⟨⟨t, code⟩, hFound⟩ := Option.ne_none_iff_exists'.mp hSome
    obtain ⟨before, c, after, rfl, -, hExited, -⟩ := findExitedChild_represents h hFound
    exact hNone c (by simp) hExited

/-- Whatever its history, the array stands for the list of children that are left. -/
theorem Tracks.represents [Hardware] (h : Tracks parent s l) : (s.pcb parent).relations.Represents l := by
  induction h with
  | @created s t uc o h =>
      unfold createNewPcb at h
      dsimp only at h
      split_ifs at h
      · obtain ⟨rfl, hSome⟩ := Prod.mk.inj h
        obtain rfl := Option.some.inj hSome
        refine ⟨⟨?_, fun i hi => absurd hi (Nat.not_lt_zero i)⟩, ?_, ?_, List.nodup_nil⟩
        all_goals simp [childArrSize]
      · cases h
  | @added s t l child growOk prior hNew h ih =>
      rcases addChildProc_represents growOk ih hNew with ⟨u, hAdd, hGrown⟩ | hFail
      · rw [hAdd] at h
        obtain rfl := (Prod.mk.inj h).1
        exact hGrown
      · rw [hFail] at h
        cases h
  | @refused s t l child growOk prior h ih =>
      unfold addChildProc at h
      split at h
      · obtain rfl := (Prod.mk.inj h).1
        exact ih
      · cases h
  | @reaped s t l shrinkOk code prior h ih =>
      obtain ⟨before, c, after, rfl, hBefore, hExited, -, hLeft⟩ := findExitedChild_represents ih h
      rw [List.eraseP_append_right _ (by simpa using hBefore), List.eraseP_cons_of_pos (by simpa using hExited)]
      exact hLeft
  | @other s t l prior hSame ih =>
      unfold SameChildren at hSame
      rw [hSame]
      exact { ih with }

/-- The children array of a control block stands for the list of its children in the
order of their forks, after every history. `add_child_proc` appends or changes nothing;
`find_exited_child` takes out the earliest child that has exited, and fails only if
there is none. -/
theorem children_refine_list [Hardware] (h : Tracks parent s l) : (s.pcb parent).relations.Represents l ∧
    (∀ child growOk, child ∉ l →
      (∃ t, s.addChildProc parent child growOk = (t, true) ∧
        (t.pcb parent).relations.Represents (l ++ [child])) ∨
      s.addChildProc parent child growOk = (s, false)) ∧
    ∀ shrinkOk,
      (s.findExitedChild parent shrinkOk = none ↔ ∀ c ∈ l, (s.pcb c).state ≠ .exited) ∧
      ∀ t code, s.findExitedChild parent shrinkOk = some (t, code) → ∃ before c after,
        l = before ++ c :: after ∧ (∀ d ∈ before, (s.pcb d).state ≠ .exited) ∧
        (s.pcb c).state = .exited ∧ code = (s.pcb c).exitCode ∧
        (t.pcb parent).relations.Represents (before ++ after) := by
  have hArray := h.represents
  refine ⟨hArray, fun child growOk hNew => addChildProc_represents growOk hArray hNew, fun shrinkOk => ⟨?_, ?_⟩⟩
  · exact findExitedChild_none_iff hArray shrinkOk
  · exact fun t code hFound => findExitedChild_represents hArray hFound

open Sample in
/-- A new process with one child. -/
theorem children_refine_list_one : ∃ s : Kernel, (s.pcb 2).relations.Represents [1] := by
  have hCreate : (booted.createNewPcb (context []) outcomes).2 = some 2 := by decide +kernel
  have hNew : Tracks 2 (booted.createNewPcb (context []) outcomes).1 [] := .created (Prod.ext rfl hCreate)
  have hAdd : ((booted.createNewPcb (context []) outcomes).1.addChildProc 2 1 true).2 = true := by decide +kernel
  exact ⟨_, (children_refine_list (.added hNew (by simp) (Prod.ext rfl hAdd))).1⟩

end Kernel
end Yalnix
