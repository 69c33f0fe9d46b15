import TrajOpt.Proofs.Function.Affine
import TrajOpt.Proofs.Objective.Constraints

/-!
# The layout of constraint vectors

The rows of a constraint vector come in blocks: the bounds of the control, the bounds of the state,
the inequalities and the equalities, and at the final state the goal. Whatever is asked of each row
is therefore a sequence of blocks, too. So the values, the derivatives and the kinds of the entries
are concatenations in the same order, and the equalities follow all inequalities.

## Main statements

* `ConstraintSet.map_stageRows`, `ConstraintSet.map_terminalRows` - the blocks of whatever is asked
  of each row.
* `ConstraintSet.toList_stage`, `ConstraintSet.toList_terminal` - the blocks of the values.
* `ConstraintSet.toList_stageJacobians`, `ConstraintSet.toList_terminalJacobian` - the blocks of the
  derivatives.
* `ConstraintSet.getElem_isEquality`, `ConstraintSet.getElem_isEqualityN` - which entries are
  equalities.
* `ConstraintSet.p_eq`, `ConstraintSet.q_eq` - how many rows there are.
-/

namespace TrajOpt

variable {α : Type} {n m k : Nat}

theorem Vec.toList_mapList {β γ : Type} (f : β → γ) (l : List β) :
    (mapList f l).toList = l.map f := by
  simp [mapList]

/-- The entries of an array by their places. -/
theorem map_range_getD {β : Type} (a : Array β) (b : β) :
    (List.range a.size).map (fun j => a[j]?.getD b) = a.toList := by
  refine List.ext_getElem (by simp) fun j hj hj' => ?_
  simp only [List.length_map, List.length_range] at hj
  simp [hj]

namespace ConstraintSet

section Bounds

variable {β γ : Type} {bounds : Vec (Option α) k}

theorem map_boundRows (φ : β → γ) (row : Fin k → α → β) :
    (boundRows row bounds).map φ = boundRows (fun i a => φ (row i a)) bounds := by
  simp [boundRows, List.map_filterMap, Function.comp_def]

theorem length_boundRows (row : Fin k → α → β) (bounds : Vec (Option α) k) :
    (boundRows row bounds).length = bounds.countP Option.isSome := by
  have hbounds : bounds.toList = (List.finRange k).map bounds.get := by
    refine List.ext_getElem (by simp) fun i hi hi' => ?_
    simp [Vec.get_eq]
  rw [boundRows, List.length_filterMap_eq_countP, ← Vector.countP_toList, hbounds, List.countP_map]
  simp [Function.comp_def]

/-- What is the same for every bound is repeated for those that restrict something. -/
theorem boundRows_const (b : β) :
    boundRows (fun _ _ => b) bounds = List.replicate (bounds.countP Option.isSome) b := by
  refine List.eq_replicate_iff.2 ⟨length_boundRows _ _, fun c hc => ?_⟩
  obtain ⟨-, -, -, rfl⟩ := mem_boundRows.1 hc
  rfl

end Bounds

section Rows

variable {β : Type} {cs : ConstraintSet α n m}

/-- A function on the rows of a stage goes through the bounds of the control, the bounds of the
state, the inequalities and the equalities. -/
theorem map_stageRows (φ : ConstraintRow α n m → β) : cs.stageRows.map φ =
    boundRows (fun i a => φ (.controlAbove i a)) cs.uMax ++
      boundRows (fun i a => φ (.controlBelow i a)) cs.uMin ++
      boundRows (fun i a => φ (.stateAbove i a)) cs.xMax ++
      boundRows (fun i a => φ (.stateBelow i a)) cs.xMin ++
      (List.range (sizeOf cs.cI)).map (fun j => φ (.inequality j)) ++
      (List.range (sizeOf cs.cE)).map fun j => φ (.equality j) := by
  simp [stageRows, stateRows, map_boundRows, Function.comp_def]

/-- At the final state there are no bounds of the control, and the goal comes last. -/
theorem map_terminalRows (φ : ConstraintRow α n 0 → β) : cs.terminalRows.map φ =
    boundRows (fun i a => φ (.stateAbove i a)) cs.xMax ++
      boundRows (fun i a => φ (.stateBelow i a)) cs.xMin ++
      (List.range (sizeOf cs.cIN)).map (fun j => φ (.inequality j)) ++
      (List.range (sizeOf cs.cEN)).map (fun j => φ (.equality j)) ++
      if cs.useTerminal then (List.finRange n).map fun i => φ (.goal i (cs.goal.get i))
      else [] := by
  cases huse : cs.useTerminal <;>
    simp [terminalRows, stateRows, map_boundRows, Function.comp_def, huse]

/-- There is a row for every bound that restricts something and for every value of a function. -/
theorem p_eq (cs : ConstraintSet α n m) : cs.p =
    cs.uMax.countP Option.isSome + cs.uMin.countP Option.isSome + cs.xMax.countP Option.isSome +
      cs.xMin.countP Option.isSome + sizeOf cs.cI + sizeOf cs.cE := by
  simp [p, stageRows, stateRows, length_boundRows, add_assoc]

theorem q_eq (cs : ConstraintSet α n m) : cs.q =
    cs.xMax.countP Option.isSome + cs.xMin.countP Option.isSome + sizeOf cs.cIN + sizeOf cs.cEN +
      if cs.useTerminal then n else 0 := by
  cases huse : cs.useTerminal <;>
    simp [q, terminalRows, stateRows, length_boundRows, add_assoc, huse]

end Rows

section Kinds

/-- Where the inequalities come first, an entry is an equality if it comes after as many entries as
there are inequalities. -/
theorem getElem_isEquality_of_blocks {rows : List (ConstraintRow α n k)} {a b : Nat}
    (h : rows.map ConstraintRow.isEquality = List.replicate a false ++ List.replicate b true) :
    inequalities rows = a ∧ ∀ (i : Nat) (hi : i < rows.length),
      (Vec.mapList ConstraintRow.isEquality rows)[i] = decide (a ≤ i) := by
  constructor
  · have hcount : inequalities rows =
        (rows.map ConstraintRow.isEquality).countP fun kind => !kind := by
      rw [List.countP_map]
      rfl
    rw [hcount, h, List.countP_append, List.countP_replicate, List.countP_replicate]
    simp
  · intro i hi
    have hentry := List.getElem_of_eq h (by simpa using hi)
    rw [List.getElem_map, List.getElem_append] at hentry
    rw [Vec.getElem_mapList, hentry]
    obtain hia | hai := Nat.lt_or_ge i a
    · simp [hia, Nat.not_le.2 hia]
    · simp [hai, Nat.not_lt.2 hai]

/-- The number of inequalities of a stage, which come first. -/
theorem getElem_isEquality (cs : ConstraintSet α n m) :
    inequalities cs.stageRows =
      cs.uMax.countP Option.isSome + cs.uMin.countP Option.isSome + cs.xMax.countP Option.isSome +
        cs.xMin.countP Option.isSome + sizeOf cs.cI ∧
    ∀ (i : Nat) (hi : i < cs.p), cs.isEquality[i] = decide (inequalities cs.stageRows ≤ i) := by
  have hblocks : cs.stageRows.map ConstraintRow.isEquality =
      List.replicate (cs.uMax.countP Option.isSome + cs.uMin.countP Option.isSome +
        cs.xMax.countP Option.isSome + cs.xMin.countP Option.isSome + sizeOf cs.cI) false ++
      List.replicate (sizeOf cs.cE) true := by
    simp [map_stageRows, ConstraintRow.isEquality, boundRows_const, List.map_const',
      ← List.replicate_append_replicate]
  obtain ⟨hcount, hkinds⟩ := getElem_isEquality_of_blocks hblocks
  exact ⟨hcount, fun i hi => by rw [hcount]; exact hkinds i hi⟩

/-- The same at the final state, where the goal is an equality. -/
theorem getElem_isEqualityN (cs : ConstraintSet α n m) :
    inequalities cs.terminalRows =
      cs.xMax.countP Option.isSome + cs.xMin.countP Option.isSome + sizeOf cs.cIN ∧
    ∀ (i : Nat) (hi : i < cs.q), cs.isEqualityN[i] = decide (inequalities cs.terminalRows ≤ i) := by
  have hblocks : cs.terminalRows.map ConstraintRow.isEquality =
      List.replicate (cs.xMax.countP Option.isSome + cs.xMin.countP Option.isSome +
        sizeOf cs.cIN) false ++
      List.replicate (sizeOf cs.cEN + if cs.useTerminal then n else 0) true := by
    cases huse : cs.useTerminal <;>
      simp [map_terminalRows, huse, ConstraintRow.isEquality, boundRows_const, List.map_const',
        ← List.replicate_append_replicate]
  obtain ⟨hcount, hkinds⟩ := getElem_isEquality_of_blocks hblocks
  exact ⟨hcount, fun i hi => by rw [hcount]; exact hkinds i hi⟩

end Kinds

section Blocks

variable [Scalar α] {cs : ConstraintSet α n m} {x : Vec α n} {u : Vec α m}

theorem map_valuesOf (f : Option (Adapted α)) (args : Args α) :
    (List.range (sizeOf f)).map (fun j => (valuesOf f args)[j]?.getD 0) =
      (valuesOf f args).toList := by
  rw [← size_valuesOf f args, map_range_getD]

/-- There are as many derivatives as there are values. -/
theorem length_jacobian {f : Adapted α} {args : Args α} {varying : List Nat}
    (hk : k < args.length) : (f.jacobian args varying k).length = f.size := by
  have harg : args[k]? = some args[k] := List.getElem?_eq_getElem hk
  unfold Adapted.jacobian
  split
  · simp [Args.jacobian, harg, Mat.toLists]
  · simp [Args.differences, Args.at?_of_place? (Args.place?_natCast hk), harg, Mat.toLists]

theorem map_derivativesOf (f : Option (Adapted α)) {args : Args α} (varying : List Nat)
    {size : Nat} (hk : k < args.length) :
    (List.range (sizeOf f)).map
        (fun j => (derivativesOf f args varying k size)[j]?.getD (Vec.zero size)) =
      (derivativesOf f args varying k size).toList := by
  have hsize : (derivativesOf f args varying k size).size = sizeOf f := by
    cases f with
    | none => rfl
    | some f => simp [derivativesOf, sizeOf, length_jacobian hk]
  rw [← hsize, map_range_getD]

/-- The constraint vector of a stage: how far the control and the state lie outside of their bounds,
the values of the inequalities, and those of the equalities. -/
theorem toList_stage : (cs.stage x u).toList =
    boundRows (fun i a => u.get i - a) cs.uMax ++ boundRows (fun i a => a - u.get i) cs.uMin ++
      boundRows (fun i a => x.get i - a) cs.xMax ++ boundRows (fun i a => a - x.get i) cs.xMin ++
      (valuesOf cs.cI (stageArgs x u)).toList ++ (valuesOf cs.cE (stageArgs x u)).toList := by
  rw [stage, Vec.toList_mapList, map_stageRows]
  simp only [ConstraintRow.value, map_valuesOf]

/-- The constraint vector of the final state ends with the distance from the goal. -/
theorem toList_terminal : (cs.terminal x).toList =
    boundRows (fun i a => x.get i - a) cs.xMax ++ boundRows (fun i a => a - x.get i) cs.xMin ++
      (valuesOf cs.cIN (terminalArgs x)).toList ++ (valuesOf cs.cEN (terminalArgs x)).toList ++
      if cs.useTerminal then (List.finRange n).map fun i => x.get i - cs.goal.get i else [] := by
  rw [terminal, Vec.toList_mapList, map_terminalRows]
  simp only [ConstraintRow.value, map_valuesOf]

/-- The derivatives along the state and along the control have the same blocks. Those of the bounds
are rows of the identity, and zero for the bounds of the other argument. -/
theorem toList_stageJacobians :
    (cs.stageJacobians x u).1.toList =
      List.replicate (cs.uMax.countP Option.isSome) (Vec.zero n) ++
        List.replicate (cs.uMin.countP Option.isSome) (Vec.zero n) ++
        boundRows (fun i _ => ConstraintRow.unit i) cs.xMax ++
        boundRows (fun i _ => -ConstraintRow.unit i) cs.xMin ++
        (derivativesOf cs.cI (stageArgs x u) [0, 1] 0 n).toList ++
        (derivativesOf cs.cE (stageArgs x u) [0, 1] 0 n).toList ∧
    (cs.stageJacobians x u).2.toList =
      boundRows (fun i _ => ConstraintRow.unit i) cs.uMax ++
        boundRows (fun i _ => -ConstraintRow.unit i) cs.uMin ++
        List.replicate (cs.xMax.countP Option.isSome) (Vec.zero m) ++
        List.replicate (cs.xMin.countP Option.isSome) (Vec.zero m) ++
        (derivativesOf cs.cI (stageArgs x u) [0, 1] 1 m).toList ++
        (derivativesOf cs.cE (stageArgs x u) [0, 1] 1 m).toList := by
  have hstate : 0 < (stageArgs x u).length := by simp [stageArgs]
  have hcontrol : 1 < (stageArgs x u).length := by simp [stageArgs]
  constructor
  · simp only [stageJacobians, Vec.toList_mapList, map_stageRows, ConstraintRow.stateDerivative,
      boundRows_const, map_derivativesOf _ _ hstate]
  · simp only [stageJacobians, Vec.toList_mapList, map_stageRows, ConstraintRow.controlDerivative,
      boundRows_const, map_derivativesOf _ _ hcontrol]

/-- The derivative along the final state, which ends with the identity. -/
theorem toList_terminalJacobian : (cs.terminalJacobian x).toList =
    boundRows (fun i _ => ConstraintRow.unit i) cs.xMax ++
      boundRows (fun i _ => -ConstraintRow.unit i) cs.xMin ++
      (derivativesOf cs.cIN (terminalArgs x) [0] 0 n).toList ++
      (derivativesOf cs.cEN (terminalArgs x) [0] 0 n).toList ++
      if cs.useTerminal then (List.finRange n).map ConstraintRow.unit else [] := by
  have hstate : 0 < (terminalArgs x).length := by simp [terminalArgs]
  rw [terminalJacobian, Vec.toList_mapList, map_terminalRows]
  simp only [ConstraintRow.stateDerivative, map_derivativesOf _ _ hstate]

end Blocks

end ConstraintSet

end TrajOpt
