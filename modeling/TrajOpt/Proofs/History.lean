import Mathlib.Data.List.Basic
import Mathlib.Data.List.Induction
import TrajOpt.History

/-!
# Entries of one stage

A stage adds its entries one after the other. A history that keeps everything has all of them in the
end, and any other one has the last of them, where the first one may have taken the place of an
earlier entry of the same stage.

## Main definitions

* `History.extend` - a history with entries of one stage added.
* `History.HasRoom` - whether more entries of a stage fit in.
* `History.latest` - the last entry of each stage.
* `History.Parallel` - histories of the same run that differ in what they keep.

## Main statements

* `History.eq_extend_of_append` - one entry more is one more to extend the history by.
* `History.append_extend` - a history with room for the entries of a stage takes them all.
* `History.Parallel.extend` - a history that does not keep everything goes on having the last entry
  of each stage of one that does.
-/

namespace TrajOpt

namespace History

variable {ε ν : Type} {h h' : History ε} {stage : Stage} {entry : ε} {es : List ε}

/-- Whether an entry of the stage takes the place of the last one. -/
def replaces (h : History ε) (stage : Stage) : Bool :=
  !h.keepsAll && (h.entries.getLast?.map Prod.fst == some stage)

/-- The entries that stay when one of the stage is added. -/
def remaining (h : History ε) (stage : Stage) : List (Stage × ε) :=
  if h.replaces stage then h.entries.dropLast else h.entries

/-- The entries that the history keeps of those that a stage adds. -/
def kept (h : History ε) (es : List ε) : List ε :=
  if h.keepsAll then es else es.getLast?.toList

/-- The history after a stage added its entries one after the other. -/
def extend (h : History ε) (stage : Stage) (es : List ε) : History ε :=
  if es.isEmpty then h
  else { h with entries := h.remaining stage ++ (h.kept es).map (Prod.mk stage) }

@[simp] theorem entries_empty (capacity : Int) (keepsAll : Bool) :
    (empty capacity keepsAll : History ε).entries = [] := rfl

@[simp] theorem stages_empty (capacity : Int) (keepsAll : Bool) :
    (empty capacity keepsAll : History ε).stages = [] := rfl

/-- A history that keeps everything has all entries, after those that it had before. -/
theorem entries_extend (hkeeps : h.keepsAll = true) :
    (h.extend stage es).entries = h.entries ++ es.map (Prod.mk stage) := by
  cases es <;> simp [extend, remaining, replaces, kept, hkeeps]

theorem append_eq_ok (happend : (h.append stage entry : Except (Error ν) _) = .ok h') :
    h' = { h with entries := h.remaining stage ++ [(stage, entry)] } := by
  unfold append at happend
  dsimp only at happend
  unfold remaining replaces
  split at happend
  next hreplaces =>
    cases happend
    rw [if_pos hreplaces]
  next hreplaces =>
    split at happend
    · cases happend
    · cases happend
      rw [if_neg hreplaces]

/-- After entries of a stage, an entry of the same stage adds to those that are kept, and takes the
place of the last one if only one is. -/
theorem remaining_extend :
    (h.extend stage es).remaining stage =
      h.remaining stage ++ if h.keepsAll then es.map (Prod.mk stage) else [] := by
  cases es using List.reverseRecOn with
  | nil => simp [extend]
  | append_singleton es e =>
    cases hkeeps : h.keepsAll <;> simp [extend, remaining, replaces, kept, hkeeps]

/-- One entry more is one more to extend the history by. -/
theorem eq_extend_of_append
    (happend : ((h.extend stage es).append stage entry : Except (Error ν) _) = .ok h') :
    h' = h.extend stage (es ++ [entry]) := by
  rw [append_eq_ok happend, remaining_extend]
  cases es using List.reverseRecOn <;> cases hkeeps : h.keepsAll <;> simp [extend, kept, hkeeps]

@[simp] theorem capacity_extend : (h.extend stage es).capacity = h.capacity := by
  unfold extend
  split <;> rfl

@[simp] theorem keepsAll_extend : (h.extend stage es).keepsAll = h.keepsAll := by
  unfold extend
  split <;> rfl

/-- The last entry of a stage is kept in any case. -/
theorem getLast?_entries_extend (hlast : es.getLast? = some entry) :
    (h.extend stage es).entries.getLast? = some (stage, entry) := by
  obtain ⟨es, rfl⟩ := List.getLast?_eq_some_iff.1 hlast
  cases hkeeps : h.keepsAll <;> simp [extend, kept, hkeeps]

/-- What a history keeps does not depend on its capacity. -/
theorem extend_withCapacity (capacity : Int) :
    ({ h with capacity } : History ε).extend stage es = { h.extend stage es with capacity } := by
  unfold extend
  split <;> rfl

theorem length_remaining_le : (h.remaining stage).length ≤ h.entries.length := by
  unfold remaining
  split <;> simp

theorem length_kept_le : (h.kept es).length ≤ es.length := by
  unfold kept
  split
  · exact Nat.le_refl _
  · cases es using List.reverseRecOn <;> simp

section Room

/-- Whether there is room for so many entries of a stage after those that stay. -/
def HasRoom (h : History ε) (stage : Stage) (count : Nat) : Prop :=
  (h.remaining stage).length + count ≤ h.capacity

theorem HasRoom.mono {count more : Nat} (hroom : h.HasRoom stage more) (hle : count ≤ more) :
    h.HasRoom stage count := by
  unfold HasRoom at *
  omega

theorem hasRoom_of_length {count : Nat} (hroom : h.entries.length + count ≤ h.capacity) :
    h.HasRoom stage count := by
  have hremaining : (h.remaining stage).length ≤ h.entries.length := length_remaining_le
  unfold HasRoom
  omega

theorem append_of_room (hroom : h.HasRoom stage 1) :
    (h.append stage entry : Except (Error ν) _) =
      .ok { h with entries := h.remaining stage ++ [(stage, entry)] } := by
  unfold HasRoom remaining replaces at *
  unfold append
  dsimp only
  split at hroom
  next hreplaces => rw [if_pos hreplaces, if_pos hreplaces]
  next hreplaces =>
    rw [if_neg hreplaces, if_neg hreplaces, if_neg (by omega)]

/-- A history with room for all entries of a stage takes each of them. -/
theorem append_extend (hroom : h.HasRoom stage (es.length + 1)) :
    ((h.extend stage es).append stage entry : Except (Error ν) _) =
      .ok (h.extend stage (es ++ [entry])) := by
  have hlength : (h.extend stage es).HasRoom stage 1 := by
    have hle : ((h.extend stage es).remaining stage).length ≤
        (h.remaining stage).length + es.length := by
      rw [remaining_extend]
      split <;> simp
    unfold HasRoom at *
    rw [capacity_extend]
    omega
  have happend : ((h.extend stage es).append stage entry : Except (Error ν) _) = _ :=
    append_of_room hlength
  rw [happend, eq_extend_of_append happend]

theorem length_entries_extend_le :
    (h.extend stage es).entries.length ≤ h.entries.length + es.length := by
  unfold extend
  split
  · simp
  · have hkept : (h.kept es).length ≤ es.length := length_kept_le
    have hremaining : (h.remaining stage).length ≤ h.entries.length := length_remaining_le
    simp only [List.length_append, List.length_map]
    omega

end Room

section Stages

/-- A stage adds its entries to those of other stages. -/
theorem entries_extend_of_notMem (hstage : stage ∉ h.stages) :
    (h.extend stage es).entries = h.entries ++ (h.kept es).map (Prod.mk stage) := by
  have hreplaces : h.replaces stage = false := by
    unfold replaces
    have hlast : h.entries.getLast?.map Prod.fst ≠ some stage := by
      intro hlast
      obtain ⟨e, he, rfl⟩ := Option.map_eq_some_iff.1 hlast
      exact hstage (List.mem_map_of_mem (List.mem_of_getLast? he))
    simp [hlast]
  unfold extend remaining
  rw [hreplaces]
  cases es with
  | nil => simp [kept]
  | cons e es => rfl

theorem stages_extend (hstage : stage ∉ h.stages) :
    (h.extend stage es).stages = h.stages ++ List.replicate (h.kept es).length stage := by
  simp [stages, entries_extend_of_notMem hstage, Function.comp_def, List.map_const']

theorem notMem_stages_extend {other : Stage} (hstage : stage ∉ h.stages) (hother : other ≠ stage)
    (hnew : other ∉ h.stages) : other ∉ (h.extend stage es).stages := by
  rw [stages_extend hstage]
  simp [hnew, hother]

/-- The last entry of each stage, in the order of the stages. -/
def latest (h : History ε) : List (Stage × ε) :=
  h.distinctStages.filterMap fun stage => h.last? (some stage)

theorem mem_distinctStages : stage ∈ h.distinctStages ↔ stage ∈ h.stages := by
  have mem_foldl : ∀ (l seen : List Stage), stage ∈ l.foldl
      (fun seen s => if seen.contains s then seen else seen ++ [s]) seen ↔
        stage ∈ seen ∨ stage ∈ l := by
    intro l
    induction l with
    | nil => simp
    | cons s l ih =>
      intro seen
      rw [List.foldl_cons, ih]
      split <;> grind
  rw [distinctStages, mem_foldl]
  simp

/-- Entries of a new stage add one stage, however many they are. -/
theorem distinctStages_extend (hstage : stage ∉ h.stages) (hes : es ≠ []) :
    (h.extend stage es).distinctStages = h.distinctStages ++ [stage] := by
  obtain ⟨count, hcount⟩ : ∃ count, (h.kept es).length = count + 1 := by
    refine Nat.exists_eq_add_one.2 ?_
    unfold kept
    cases es using List.reverseRecOn with
    | nil => exact absurd rfl hes
    | append_singleton es e => split <;> simp
  have hnew : stage ∉ h.distinctStages := fun hmem => hstage (mem_distinctStages.1 hmem)
  have repeated : ∀ count (seen : List Stage), stage ∈ seen → (List.replicate count stage).foldl
      (fun seen s => if seen.contains s then seen else seen ++ [s]) seen = seen := by
    intro count seen hseen
    induction count with
    | zero => rfl
    | succ count ih => simpa [List.replicate_succ, hseen] using ih
  rw [distinctStages, stages_extend hstage, hcount, List.foldl_append, List.replicate_succ,
    List.foldl_cons]
  show (List.replicate count stage).foldl _ (if h.distinctStages.contains stage then _ else _) = _
  rw [if_neg (by simpa using hnew), repeated _ _ (by simp)]
  rfl

theorem last?_extend_self (hstage : stage ∉ h.stages) (hes : es ≠ []) :
    (h.extend stage es).last? (some stage) = es.getLast?.map (Prod.mk stage) := by
  cases es using List.reverseRecOn with
  | nil => exact absurd rfl hes
  | append_singleton es e =>
    rw [last?, entries_extend_of_notMem hstage]
    cases hkeeps : h.keepsAll <;> simp [kept, hkeeps]

theorem last?_extend_of_ne (hstage : stage ∉ h.stages) {other : Stage} (hother : other ≠ stage) :
    (h.extend stage es).last? (some other) = h.last? (some other) := by
  have hnone : ((h.kept es).map (Prod.mk stage)).reverse.find? (fun e => other == e.1) = none := by
    simp [List.find?_eq_none, hother]
  rw [last?, entries_extend_of_notMem hstage, List.reverse_append, List.find?_append]
  simp only [Option.all_some]
  rw [hnone, Option.none_or]
  rfl

/-- A new stage adds its last entry to those of the other stages. -/
theorem latest_extend (hstage : stage ∉ h.stages) :
    (h.extend stage es).latest = h.latest ++ es.getLast?.toList.map (Prod.mk stage) := by
  cases es using List.reverseRecOn with
  | nil => simp [extend]
  | append_singleton es e =>
    have hes : es ++ [e] ≠ [] := by simp
    rw [latest, distinctStages_extend hstage hes, List.filterMap_append]
    congr 1
    · refine List.filterMap_congr fun other hmem => last?_extend_of_ne hstage ?_
      rintro rfl
      exact hstage (mem_distinctStages.1 hmem)
    · simp [last?_extend_self hstage hes]

/-- A history that does not keep everything has the last entry of each stage of one that does, also
after another stage. -/
theorem entries_extend_latest (hkeeps : h'.keepsAll = false)
    (hlatest : h'.entries = h.latest) (hstage : stage ∉ h.stages) (hstage' : stage ∉ h'.stages) :
    (h'.extend stage es).entries = (h.extend stage es).latest := by
  rw [entries_extend_of_notMem hstage', latest_extend hstage, hlatest]
  simp [kept, hkeeps]

/-- Two histories of the same stages, where one that does not keep everything has the latest entries
of one that does. -/
structure Parallel (h h' : History ε) : Prop where
  distinctStages : h'.distinctStages = h.distinctStages
  latest : h.keepsAll = true → h'.keepsAll = false → h'.entries = h.latest

theorem parallel_empty (capacity capacity' : Int) (keepsAll keepsAll' : Bool) :
    (empty capacity keepsAll : History ε).Parallel (empty capacity' keepsAll') :=
  ⟨rfl, fun _ _ => rfl⟩

theorem Parallel.notMem_stages (hparallel : h.Parallel h') (hstage : stage ∉ h.stages) :
    stage ∉ h'.stages := by
  rwa [← mem_distinctStages, hparallel.distinctStages, mem_distinctStages]

/-- Histories stay parallel when a new stage adds the same entries to both. -/
theorem Parallel.extend (hparallel : h.Parallel h') (hstage : stage ∉ h.stages) :
    (h.extend stage es).Parallel (h'.extend stage es) := by
  have hstage' := hparallel.notMem_stages hstage
  constructor
  · by_cases hes : es = []
    · subst hes
      exact hparallel.distinctStages
    · rw [distinctStages_extend hstage hes, distinctStages_extend hstage' hes,
        hparallel.distinctStages]
  · intro hkeeps hkeeps'
    rw [keepsAll_extend] at hkeeps hkeeps'
    exact entries_extend_latest hkeeps' (hparallel.latest hkeeps hkeeps') hstage hstage'

end Stages

end History

end TrajOpt
