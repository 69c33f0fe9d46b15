import TrajOpt.Lagrangian
import TrajOpt.Proofs.Scalar.Laws

/-!
# Constraints that are met within a tolerance

The violation along a path is a maximum over the entries of all constraint vectors, and each entry
belongs to a row. A violation below a tolerance thus says something of every row, and a row says
what the constraint set asks for: a bound, a general constraint or the goal.

## Main definitions

* `ConstraintSet.StageWithin`, `ConstraintSet.TerminalWithin` - the constraints on a knot and on the
  final state, up to a tolerance.

## Main statements

* `ConstraintValues.violation_iff` - a violation below a bound, entry by entry.
* `ConstraintSet.forall_stageRows`, `ConstraintSet.forall_terminalRows` - rows by their kinds.
* `ConstraintSet.stageWithin_of_lt`, `ConstraintSet.terminalWithin_of_lt` - what small entries mean.
-/

namespace TrajOpt

variable {α : Type} {n m : Nat}

namespace ConstraintSet

/-- The rows of bounds are those of the bounds that restrict something. -/
theorem mem_boundRows {k : Nat} {β : Type} {row : Fin k → α → β} {bounds : Vec (Option α) k}
    {b : β} : b ∈ boundRows row bounds ↔ ∃ i a, bounds.get i = some a ∧ row i a = b := by
  simp [boundRows, Option.map_eq_some_iff]

variable [Scalar α]

theorem size_valuesOf (f : Option (Adapted α)) (args : Args α) :
    (valuesOf f args).size = sizeOf f := by
  cases f <;> simp [valuesOf, sizeOf]

end ConstraintSet

section Violation

variable [Scalar α] {p q : Nat} {eps : α}

theorem violationOf_true_lt {c : α} : violationOf true c < eps ↔ Scalar.abs c < eps := by
  simp [violationOf]

theorem violationOf_true_le {c : α} : violationOf true c ≤ eps ↔ Scalar.abs c ≤ eps := by
  simp [violationOf]

variable [LawfulScalar α] {P : α → Prop}

theorem violationOf_false_iff (hP : Arith.IsLower P) {c : α} :
    P (violationOf false c) ↔ P c ∧ P 0 := by
  simp [violationOf, hP.maximum_iff]

theorem violationOf_false_lt {c : α} : violationOf false c < eps ↔ c < eps ∧ 0 < eps :=
  violationOf_false_iff (Arith.isLower_lt eps)

theorem violationOf_false_le {c : α} : violationOf false c ≤ eps ↔ c ≤ eps ∧ 0 ≤ eps :=
  violationOf_false_iff (Arith.isLower_le eps)

theorem largestViolation_iff (hP : Arith.IsLower P) {isEquality : Vec Bool p} {v : Vec α p} :
    P (largestViolation isEquality v) ↔
      P 0 ∧ ∀ i (h : i < p), P (violationOf isEquality[i] v[i]) := by
  simp [largestViolation, Vec.maximum_iff hP]

theorem largestViolation_lt {isEquality : Vec Bool p} {v : Vec α p} :
    largestViolation isEquality v < eps ↔
      0 < eps ∧ ∀ i (h : i < p), violationOf isEquality[i] v[i] < eps :=
  largestViolation_iff (Arith.isLower_lt eps)

/-- The violation along a path has a property of smaller numbers if that of every entry has it. -/
theorem ConstraintValues.violation_iff (hP : Arith.IsLower P) {values : ConstraintValues α p q}
    {isEquality : Vec Bool p} {isEqualityN : Vec Bool q} :
    P (values.violation isEquality isEqualityN) ↔
      P 0 ∧
      (∀ v ∈ values.stages, ∀ i (h : i < p), P (violationOf isEquality[i] v[i])) ∧
      ∀ i (h : i < q), P (violationOf isEqualityN[i] values.terminal[i]) := by
  simp only [violation, hP.maximum_iff, hP.foldl_maximum_iff, List.forall_mem_map,
    largestViolation_iff hP]
  constructor
  · rintro ⟨⟨heps, hstages⟩, -, hterminal⟩
    exact ⟨heps, fun v hv => (hstages v hv).2, hterminal⟩
  · rintro ⟨heps, hstages, hterminal⟩
    exact ⟨⟨heps, fun v hv => ⟨heps, hstages v hv⟩⟩, heps, hterminal⟩

theorem ConstraintValues.violation_lt {values : ConstraintValues α p q}
    {isEquality : Vec Bool p} {isEqualityN : Vec Bool q} :
    values.violation isEquality isEqualityN < eps ↔
      0 < eps ∧
      (∀ v ∈ values.stages, ∀ i (h : i < p), violationOf isEquality[i] v[i] < eps) ∧
      ∀ i (h : i < q), violationOf isEqualityN[i] values.terminal[i] < eps :=
  violation_iff (Arith.isLower_lt eps)

end Violation

section Rows

namespace ConstraintSet

variable {cs : ConstraintSet α n m}

theorem forall_boundRows {k : Nat} {β : Type} {row : Fin k → α → β} {bounds : Vec (Option α) k}
    {Q : β → Prop} :
    (∀ b ∈ boundRows row bounds, Q b) ↔ ∀ i a, bounds.get i = some a → Q (row i a) := by
  simp only [mem_boundRows]
  grind

theorem forall_stateRows {k : Nat} {Q : ConstraintRow α n k → Prop} :
    (∀ row ∈ cs.stateRows, Q row) ↔
      (∀ i a, cs.xMax.get i = some a → Q (.stateAbove i a)) ∧
      ∀ i a, cs.xMin.get i = some a → Q (.stateBelow i a) := by
  rw [stateRows, List.forall_mem_append, forall_boundRows, forall_boundRows]

/-- What holds of all rows of a stage holds of each kind of them. -/
theorem forall_stageRows {Q : ConstraintRow α n m → Prop} :
    (∀ row ∈ cs.stageRows, Q row) ↔
      (∀ i a, cs.uMax.get i = some a → Q (.controlAbove i a)) ∧
      (∀ i a, cs.uMin.get i = some a → Q (.controlBelow i a)) ∧
      (∀ row ∈ cs.stateRows, Q row) ∧
      (∀ j < sizeOf cs.cI, Q (.inequality j)) ∧
      ∀ j < sizeOf cs.cE, Q (.equality j) := by
  simp only [stageRows, List.forall_mem_append, forall_boundRows, List.forall_mem_map,
    List.mem_range, and_assoc]

theorem forall_terminalRows {Q : ConstraintRow α n 0 → Prop} :
    (∀ row ∈ cs.terminalRows, Q row) ↔
      (∀ row ∈ cs.stateRows, Q row) ∧
      (∀ j < sizeOf cs.cIN, Q (.inequality j)) ∧
      (∀ j < sizeOf cs.cEN, Q (.equality j)) ∧
      (cs.useTerminal = true → ∀ i, Q (.goal i (cs.goal.get i))) := by
  have hgoal : (∀ row ∈ (if cs.useTerminal then
        (List.finRange n).map fun i => ConstraintRow.goal i (cs.goal.get i) else []), Q row) ↔
      (cs.useTerminal = true → ∀ i, Q (.goal i (cs.goal.get i))) := by
    cases cs.useTerminal <;> simp
  simp only [terminalRows, List.forall_mem_append, List.forall_mem_map, List.mem_range, hgoal,
    and_assoc]

variable [Scalar α] {P : α → Prop}

theorem forall_valuesOf {f : Option (Adapted α)} {args : Args α} :
    (∀ j < sizeOf f, P ((valuesOf f args)[j]?.getD 0)) ↔ ∀ a ∈ valuesOf f args, P a := by
  rw [← size_valuesOf f args]
  constructor
  · intro h a ha
    obtain ⟨j, hj, rfl⟩ := Array.mem_iff_getElem.1 ha
    simpa [hj] using h j hj
  · intro h j hj
    simpa [hj] using h _ (Array.getElem_mem hj)

theorem forall_stage {x : Vec α n} {u : Vec α m} :
    (∀ i (h : i < cs.p), P (violationOf cs.isEquality[i] (cs.stage x u)[i])) ↔
      ∀ row ∈ cs.stageRows, P (violationOf row.isEquality
        (row.value x u (valuesOf cs.cI (stageArgs x u)) (valuesOf cs.cE (stageArgs x u)))) := by
  simp [isEquality, stage, List.forall_mem_iff_getElem]

theorem forall_terminal {x : Vec α n} :
    (∀ i (h : i < cs.q), P (violationOf cs.isEqualityN[i] (cs.terminal x)[i])) ↔
      ∀ row ∈ cs.terminalRows, P (violationOf row.isEquality
        (row.value x Vec.empty (valuesOf cs.cIN (terminalArgs x))
          (valuesOf cs.cEN (terminalArgs x)))) := by
  simp [isEqualityN, terminal, List.forall_mem_iff_getElem]

end ConstraintSet

end Rows

namespace ConstraintSet

variable [Scalar α] [LawfulScalar α] {cs : ConstraintSet α n m} {eps : α}

open Arith

/-- The state is within its bounds up to `eps`, which is added without rounding. -/
structure StateWithin (cs : ConstraintSet α n m) (eps : α) (x : Vec α n) : Prop where
  above (i : Fin n) (b : α) : cs.xMax.get i = some b → LtAdd (x.get i) b eps
  below (i : Fin n) (b : α) : cs.xMin.get i = some b → LtAdd b (x.get i) eps

/-- The constraints on a state and a control hold up to `eps`. -/
structure StageWithin (cs : ConstraintSet α n m) (eps : α) (x : Vec α n) (u : Vec α m) : Prop
    extends cs.StateWithin eps x where
  controlAbove (i : Fin m) (b : α) : cs.uMax.get i = some b → LtAdd (u.get i) b eps
  controlBelow (i : Fin m) (b : α) : cs.uMin.get i = some b → LtAdd b (u.get i) eps
  inequality : ∀ a ∈ valuesOf cs.cI (stageArgs x u), a < eps
  equality : ∀ a ∈ valuesOf cs.cE (stageArgs x u), Scalar.abs a < eps

/-- The constraints on the final state hold up to `eps`, and so does the goal if it is one of
them. -/
structure TerminalWithin (cs : ConstraintSet α n m) (eps : α) (x : Vec α n) : Prop
    extends cs.StateWithin eps x where
  inequality : ∀ a ∈ valuesOf cs.cIN (terminalArgs x), a < eps
  equality : ∀ a ∈ valuesOf cs.cEN (terminalArgs x), Scalar.abs a < eps
  goal : cs.useTerminal = true →
    ∀ i : Fin n, LtAdd (x.get i) (cs.goal.get i) eps ∧ LtAdd (cs.goal.get i) (x.get i) eps

theorem stateWithin_of_lt {k : Nat} {x : Vec α n} {u : Vec α k} {vI vE : Array α}
    (h : ∀ row ∈ cs.stateRows, violationOf row.isEquality (row.value x u vI vE) < eps) :
    cs.StateWithin eps x := by
  obtain ⟨habove, hbelow⟩ := forall_stateRows.1 h
  exact ⟨fun i b hb => ltAdd_of_sub_lt (violationOf_false_lt.1 (habove i b hb)).1,
    fun i b hb => ltAdd_of_sub_lt (violationOf_false_lt.1 (hbelow i b hb)).1⟩

/-- Small entries of the constraint vector of a stage. -/
theorem stageWithin_of_lt {x : Vec α n} {u : Vec α m}
    (h : ∀ i (hi : i < cs.p), violationOf cs.isEquality[i] (cs.stage x u)[i] < eps) :
    cs.StageWithin eps x u := by
  obtain ⟨habove, hbelow, hstate, hinequality, hequality⟩ :=
    forall_stageRows.1 ((forall_stage (P := (· < eps))).1 h)
  refine ⟨stateWithin_of_lt hstate, fun i b hb => ?_, fun i b hb => ?_, ?_, ?_⟩
  · exact ltAdd_of_sub_lt (violationOf_false_lt.1 (habove i b hb)).1
  · exact ltAdd_of_sub_lt (violationOf_false_lt.1 (hbelow i b hb)).1
  · exact forall_valuesOf.1 fun j hj => (violationOf_false_lt.1 (hinequality j hj)).1
  · exact forall_valuesOf.1 fun j hj => violationOf_true_lt.1 (hequality j hj)

theorem terminalWithin_of_lt {x : Vec α n}
    (h : ∀ i (hi : i < cs.q), violationOf cs.isEqualityN[i] (cs.terminal x)[i] < eps) :
    cs.TerminalWithin eps x := by
  obtain ⟨hstate, hinequality, hequality, hgoal⟩ :=
    forall_terminalRows.1 ((forall_terminal (P := (· < eps))).1 h)
  refine ⟨stateWithin_of_lt hstate, ?_, ?_, fun huse i => ?_⟩
  · exact forall_valuesOf.1 fun j hj => (violationOf_false_lt.1 (hinequality j hj)).1
  · exact forall_valuesOf.1 fun j hj => violationOf_true_lt.1 (hequality j hj)
  · exact ltAdd_of_abs_sub_lt (violationOf_true_lt.1 (hgoal huse i))

end ConstraintSet

end TrajOpt
