import Yalnix.Memory.LoadProgram
import Mathlib.Logic.Relation

/-! What the functions of `user_memory.c` and the loader do to the memory: they
are sequences of five operations on the address space of the active process. -/
namespace Yalnix.UserMemory

open Hardware Relation

variable [Hardware]

/-- One operation on the region 1 table of the active process, on its context
or on the contents of frames. -/
inductive Step : Memory → Memory → Prop where
  | alloc {m : Memory} (vpn : Int) (prot : Prot) : Step m (allocPage m vpn prot).1
  | dealloc {m : Memory} (vpn : Int) : Step m (deallocPage m vpn).1
  | protect {m : Memory} (vpn : Int) (prot : Prot) : Step m (changeProt m vpn prot)
  | bounds {m : Memory} (ctx : MemCtx) (hTable : ctx.region1Pt = m.region1Pt) :
      Step m { m with ctx := Function.update m.ctx m.active ctx }
  | write {m : Memory} (addr : Int) (byte : Byte) (hPerms : m.hasPerms addr true = true) :
      Step m (m.pokeByte addr byte)

/-- Any number of operations. -/
abbrev Steps : Memory → Memory → Prop := ReflTransGen Step

variable {m m' : Memory}

theorem steps_foldl {body : Memory → Int → Memory} (hBody : ∀ m vpn, Steps m (body m vpn)) (m : Memory)
    (pages : List Int) : Steps m (pages.foldl body m) := by
  induction pages generalizing m with
  | nil => exact .refl
  | cons vpn pages ih => exact (hBody m vpn).trans (ih _)

theorem steps_undoAllocation (m : Memory) (firstVpn lastVpn : Int) :
    Steps m (undoAllocation m firstVpn lastVpn) :=
  steps_foldl (fun _ vpn => .single (.dealloc vpn)) m _

theorem steps_deallocateRegion1 (m : Memory) : Steps m (deallocateRegion1 m) := steps_undoAllocation m _ _

theorem steps_protRegion (m : Memory) (startVpn endVpn : Int) (prot : Prot) :
    Steps m (protRegion m startVpn endVpn prot) := by
  unfold protRegion
  split_ifs
  · exact .refl
  · exact steps_foldl (fun _ vpn => .single (.protect vpn prot)) m _

theorem steps_allocPages (m : Memory) (firstVpn : Int) (prot : Prot) (pages : List Int) :
    Steps m (allocPages m firstVpn prot pages).1 := by
  induction pages generalizing m with
  | nil => exact .refl
  | cons vpn pages ih =>
      have hPage : Steps m (allocPage m vpn prot).1 := .single (.alloc vpn prot)
      unfold allocPages
      split
      · rename_i next hAlloc
        rw [hAlloc] at hPage
        exact hPage.trans (ih next)
      · rename_i next hAlloc
        rw [hAlloc] at hPage
        exact hPage.trans (steps_undoAllocation next firstVpn vpn)

theorem steps_allocRegion (m : Memory) (startVpn endVpn : Int) (prot : Prot) :
    Steps m (allocRegion m startVpn endVpn prot).1 := by
  unfold allocRegion
  split_ifs
  · exact .refl
  · exact steps_allocPages m _ _ _

theorem steps_setCurrBrkPage (m : Memory) (page : Int) : Steps m (setCurrBrkPage m page) :=
  .single (.bounds { m.ctx m.active with currBrkPage := page } rfl)

theorem steps_kernelBrkImpl (m : Memory) (addr sp : Word) : Steps m (kernelBrkImpl m addr sp).1 := by
  unfold kernelBrkImpl
  dsimp only
  split_ifs
  · exact .refl
  · have hPages := steps_allocPages m (m.ctx m.active).currBrkPage .readWrite
      (pageRange (m.ctx m.active).currBrkPage (pageNumber (upToPage addr)))
    split
    · rename_i next hAlloc
      rwa [hAlloc] at hPages
    · rename_i next hAlloc
      rw [hAlloc] at hPages
      exact hPages.trans (steps_setCurrBrkPage next _)
  · exact (steps_undoAllocation m _ _).trans (steps_setCurrBrkPage _ _)

theorem steps_growStack (m : Memory) (pages : List Int) : Steps m (growStack m pages) := by
  induction pages generalizing m with
  | nil => exact .refl
  | cons vpn pages ih =>
      unfold growStack
      split_ifs
      · exact .refl
      · exact .trans (.single (.alloc vpn .readWrite)) (ih _)

theorem steps_expandStack (m : Memory) (sp : Word) : Steps m (expandStack m sp).1 := by
  unfold expandStack
  dsimp only
  split_ifs
  · exact .refl
  · exact .refl
  · exact steps_growStack m _

theorem steps_storeBytes {addr : Int} {bytes : List Byte} (h : m.storeBytes addr bytes = .ok m') : Steps m m' := by
  induction bytes generalizing m addr with
  | nil =>
      obtain rfl := Except.ok.inj h
      exact .refl
  | cons byte rest ih =>
      simp only [Memory.storeBytes] at h
      split_ifs at h with hPerms
      exact .head (.write addr byte hPerms) (ih h)

end Yalnix.UserMemory

namespace Yalnix.LoadProgram

open UserMemory

variable [Hardware] {m m' : Memory}

theorem steps_store {addr : Int} {bytes : List Byte} (h : store m addr bytes = .ok m') : Steps m m' := by
  unfold store at h
  cases hStore : m.storeBytes addr bytes with
  | error e => simp [hStore, Except.mapError] at h
  | ok stored =>
      obtain rfl : stored = m' := by simpa [hStore, Except.mapError] using h
      exact steps_storeBytes hStore

theorem steps_buildArgs {cpp cp : Int} {args : List (List Byte)} (h : buildArgs m cpp cp args = .ok m') :
    Steps m m' := by
  induction args generalizing m cpp cp with
  | nil => exact steps_store h
  | cons arg rest ih =>
      obtain ⟨first, hFirst, h⟩ := Transition.bind_eq_ok.mp h
      obtain ⟨second, hSecond, h⟩ := Transition.bind_eq_ok.mp h
      exact (steps_store hFirst).trans ((steps_store hSecond).trans (ih h))

theorem steps_readSegment (m : Memory) (vaddr : Word) (npg : Nat) (bytes : List Byte) :
    Steps m (readSegment m vaddr npg bytes).1 := by
  unfold readSegment
  dsimp only
  split
  · exact .refl
  · rename_i stored hStore
    exact steps_storeBytes hStore

theorem steps_finish {uc : UserContext} {li : LoadInfo} {lay : Layout} {args : List (List Byte)}
    {loaded : Memory × UserContext} (h : finish m uc li lay args = .ok loaded) : Steps m loaded.1 := by
  obtain ⟨bss, hBss, h⟩ := Transition.bind_eq_ok.mp h
  obtain ⟨cleared, hCleared, h⟩ := Transition.bind_eq_ok.mp h
  obtain ⟨counted, hCounted, h⟩ := Transition.bind_eq_ok.mp h
  obtain ⟨built, hBuilt, h⟩ := Transition.bind_eq_ok.mp h
  obtain rfl := Except.ok.inj h
  have hBounds : Steps bss _ := .single (.bounds { bss.ctx bss.active with
    txtStartPage := lay.textPg1 + region1BaseVpn
    dataStartPage := lay.dataPg1 + region1BaseVpn
    origBrkPage := lay.dataPg1 + region1BaseVpn + lay.dataNpg
    currBrkPage := lay.dataPg1 + region1BaseVpn + lay.dataNpg } rfl)
  have hBss : Steps m bss := (steps_protRegion m _ _ _).trans (steps_store hBss)
  exact (hBss.trans hBounds).trans ((steps_store hCleared).trans ((steps_store hCounted).trans
    (steps_buildArgs hBuilt)))

theorem steps_allocSegments (m : Memory) (li : LoadInfo) (lay : Layout) :
    Steps m (allocSegments m li lay).1 := by
  have hAlloc (m : Memory) {first last : Int} {next : Memory} {ok : Bool}
      (h : allocRegion m first last .readWrite = (next, ok)) : Steps m next := by
    have hRegion := steps_allocRegion m first last .readWrite
    rwa [h] at hRegion
  unfold allocSegments
  dsimp only
  split
  · rename_i hText
    exact hAlloc m hText
  · rename_i hText
    split
    · rename_i hData
      exact (hAlloc m hText).trans (hAlloc _ hData)
    · rename_i hData
      split
      · rename_i hStack
        exact (hAlloc m hText).trans ((hAlloc _ hData).trans (hAlloc _ hStack))
      · rename_i hStack
        exact (hAlloc m hText).trans ((hAlloc _ hData).trans (hAlloc _ hStack))

theorem steps_loadProgram {uc : UserContext} {file : File} {args : List (List Byte)} {argsOk : Bool}
    {loaded : Outcome} (h : loadProgram m uc file args argsOk = .ok loaded) : Steps m loaded.mem := by
  cases file with
  | missing =>
      obtain rfl := Except.ok.inj h
      exact .refl
  | malformed =>
      obtain rfl := Except.ok.inj h
      exact .refl
  | image li text data =>
      have hSegments := (steps_deallocateRegion1 m).trans
        (steps_allocSegments (deallocateRegion1 m) li (layout li args))
      unfold loadProgram at h
      dsimp only at h
      split_ifs at h
      · obtain rfl := Except.ok.inj h
        exact .refl
      · obtain rfl := Except.ok.inj h
        exact .refl
      · obtain rfl := Except.ok.inj h
        exact .refl
      split at h
      · rename_i mapped hMapped
        rw [hMapped] at hSegments
        have hText := steps_readSegment mapped li.tVaddr li.tNpg text
        split at h
        · rename_i read hRead
          obtain rfl := Except.ok.inj h
          rw [hRead] at hText
          exact hSegments.trans hText
        · rename_i read hRead
          rw [hRead] at hText
          have hData := steps_readSegment read li.idVaddr li.idNpg data
          split at h
          · rename_i filled hFilled
            obtain rfl := Except.ok.inj h
            rw [hFilled] at hData
            exact hSegments.trans (hText.trans hData)
          · rename_i filled hFilled
            rw [hFilled] at hData
            obtain ⟨finished, hFinish, h⟩ := Transition.bind_eq_ok.mp h
            obtain rfl := Except.ok.inj h
            exact hSegments.trans (hText.trans (hData.trans (steps_finish hFinish)))
      · rename_i mapped hMapped
        obtain rfl := Except.ok.inj h
        rwa [hMapped] at hSegments
      · rename_i mapped count _ _ hMapped
        obtain rfl := Except.ok.inj h
        rwa [hMapped] at hSegments

end Yalnix.LoadProgram
