import Mathlib
import TrajOpt.Proofs.History
import TrajOpt.Proofs.Outcome
import TrajOpt.Proofs.Options
import TrajOpt.Solve.Outer

/-!
# Rounds of the outer loop

An outer iteration makes a round: an inner solve from the workspace, and the workspace of the path
that it led to, still with the multipliers and penalties of the inner solve. Unless the loop ends
with the round, the next one starts after an update of both. A history has the rounds of its stage
as far as it keeps them.

## Main definitions

* `Outer.Round`, `Outer.round` - what an iteration makes, and from which workspace.
* `Outer.solveRounds` - all rounds of a solve, in order.

## Main statements

* `Outer.outcome_iteration`, `Outer.outcome_loop` - an iteration makes a round, and the loop goes on
  from there.
* `Outer.outcome_loop_of_room` - where the history has room, only the round can fail.
* `Outer.solve_induction` - what every round preserves holds at the end of a solve.
* `Outer.history_of_solve` - the history of a solve has its rounds.
* `Outer.counts_of_solve`, `Outer.workspace_of_solve` - what else a solve returns of its rounds.
-/

namespace TrajOpt

namespace Outer

variable {α : Type} [Scalar α] {n m p q : Nat}

/-- An inner solve and the workspace of the path that it led to. -/
structure Round (α : Type) (n m p q : Nat) where
  inner : Descent.Result α n m
  workspace : Workspace α n m p q

/-- What a history keeps of a round. -/
def Round.snapshot (x : Round α n m p q) : Snapshot α :=
  x.workspace.snapshot x.inner.iterations x.inner.status

/-- Whether the loop ends with a round. -/
def Round.ends (o : Options α) (x : Round α n m p q) : Bool :=
  meets o x.workspace.violation x.inner.final.decrease

/-- The round from a workspace. -/
def round (problem : StageProblem α n m p q) (o : Options α) (w : Workspace α n m p q) :
    Except (Error α) (Round α n m p q) :=
  (descend problem o w).outcome.map fun inner =>
    ⟨inner, .ofPath problem inner.final.path w.multipliers inner.final.gains⟩

/-- The iterate after a round, with the history that has it. -/
def Iterate.next (problem : StageProblem α n m p q) (o : Options α) (s : Iterate α n m p q)
    (x : Round α n m p q) (history : History (Snapshot α)) : Iterate α n m p q where
  workspace := if x.ends o then x.workspace else update problem o s.previous x.workspace
  previous := x.workspace.violation
  innerIterations := s.innerIterations + x.inner.iterations
  decrease := x.inner.final.decrease
  history

/-- The rounds of a loop with the given budget, in order. -/
def rounds (problem : StageProblem α n m p q) (o : Options α) :
    Nat → α → Workspace α n m p q → List (Round α n m p q)
  | 0, _, _ => []
  | left + 1, previous, w =>
    match round problem o w with
    | .error _ => []
    | .ok x =>
      if x.ends o then [x]
      else x :: rounds problem o left x.workspace.violation (update problem o previous x.workspace)

/-- The rounds of a solve from a workspace. -/
def solveRounds (problem : StageProblem α n m p q) (o : Options α) (w : Workspace α n m p q) :
    List (Round α n m p q) :=
  rounds problem o (o.budgetNat .outer) w.violation w

variable {problem : StageProblem α n m p q} {o : Options α} {w : Workspace α n m p q}
  {history : History (Snapshot α)} {stage : Stage} {r : Result α n m p q}

theorem round_eq_ok {x : Round α n m p q} :
    round problem o w = .ok x ↔ ∃ inner, (descend problem o w).outcome = .ok inner ∧
      x = ⟨inner, .ofPath problem inner.final.path w.multipliers inner.final.gains⟩ := by
  unfold round
  cases (descend problem o w).outcome <;> simp [Except.map, eq_comm]

/-- A round works with the multipliers and penalties of its workspace. -/
theorem multipliers_of_round {x : Round α n m p q} (h : round problem o w = .ok x) :
    x.workspace.multipliers = w.multipliers := by
  obtain ⟨inner, -, rfl⟩ := round_eq_ok.1 h
  rfl

/-- An iteration makes a round and adds it to the history. -/
theorem outcome_iteration (number : Nat) (s : Iterate α n m p q) :
    (iteration problem o stage number s).outcome = round problem o s.workspace >>= fun x =>
      (s.history.append stage x.snapshot).map fun history =>
        (s.next problem o x history, x.ends o) := by
  rw [iteration, round, Run.outcome_bind]
  cases (descend problem o s.workspace).outcome with
  | error e => rfl
  | ok inner =>
    set x : Round α n m p q :=
      ⟨inner, .ofPath problem inner.final.path s.workspace.multipliers inner.final.gains⟩
    simp only [Except.map, ok_bind, Run.outcome_bind, Run.outcome_ofExcept, Run.outcome_reportIf]
    show (s.history.append stage x.snapshot >>= fun _ => _) = _
    cases (s.history.append stage x.snapshot : Except (Error α) _) <;> rfl

/-- A loop goes on from what its first round leads to, unless it ends with it. -/
theorem outcome_loop (left done : Nat) (s : Iterate α n m p q) :
    (loop problem o stage (left + 1) done s).outcome = round problem o s.workspace >>= fun x =>
      s.history.append stage x.snapshot >>= fun history =>
        if x.ends o then .ok ((s.next problem o x history).result .solved (done + 1))
        else (loop problem o stage left (done + 1) (s.next problem o x history)).outcome := by
  rw [loop, Run.outcome_bind, outcome_iteration]
  cases round problem o s.workspace with
  | error e => rfl
  | ok x =>
    simp only [ok_bind]
    cases (s.history.append stage x.snapshot : Except (Error α) _) with
    | error e => rfl
    | ok history =>
      simp only [Except.map, ok_bind]
      cases x.ends o <;> rfl

/-- A history with room for another round takes it, so the loop goes on from there. -/
theorem outcome_loop_of_room {entries : List (Snapshot α)} {s : Iterate α n m p q}
    (hs : s.history = history.extend stage entries)
    (hroom : history.HasRoom stage (entries.length + 1)) (left done : Nat) :
    (loop problem o stage (left + 1) done s).outcome = round problem o s.workspace >>= fun x =>
      let t := s.next problem o x (history.extend stage (entries ++ [x.snapshot]))
      if x.ends o then .ok (t.result .solved (done + 1))
      else (loop problem o stage left (done + 1) t).outcome := by
  rw [outcome_loop]
  congr 1
  funext x
  rw [hs, History.append_extend hroom]
  rfl

theorem length_rounds_le (left : Nat) (previous : α) (w : Workspace α n m p q) :
    (rounds problem o left previous w).length ≤ left := by
  induction left generalizing previous w with
  | zero => exact Nat.le_refl _
  | succ left ih =>
    rw [rounds]
    split
    · simp
    · split
      · simp
      · simpa using ih _ _

theorem length_solveRounds_le : (solveRounds problem o w).length ≤ o.budgetNat .outer :=
  length_rounds_le _ _ _

/-- Every round starts from some workspace. -/
theorem exists_of_mem_rounds {left : Nat} {previous : α} {x : Round α n m p q}
    (hx : x ∈ rounds problem o left previous w) : ∃ v, round problem o v = .ok x := by
  induction left generalizing previous w with
  | zero => cases hx
  | succ left ih =>
    rw [rounds] at hx
    split at hx
    next => cases hx
    next y hround =>
      split at hx
      next =>
        obtain rfl := List.mem_singleton.1 hx
        exact ⟨w, hround⟩
      next =>
        obtain rfl | hx := List.mem_cons.1 hx
        · exact ⟨w, hround⟩
        · exact ih hx

section Induction

/- While a loop goes on, `Going` holds of the rounds so far and the iterate that they led to; `Done`
holds of all rounds, the last iterate and the status of the loop. -/
variable (Going : List (Round α n m p q) → Iterate α n m p q → Prop)
  (Done : List (Round α n m p q) → Iterate α n m p q → Status → Prop)
  (going : ∀ xs s x history, Going xs s → round problem o s.workspace = .ok x →
    (s.history.append stage x.snapshot : Except (Error α) _) = .ok history →
    x.ends o = false → Going (xs ++ [x]) (s.next problem o x history))
  (stop : ∀ xs s x history, Going xs s → round problem o s.workspace = .ok x →
    (s.history.append stage x.snapshot : Except (Error α) _) = .ok history →
    x.ends o = true → Done (xs ++ [x]) (s.next problem o x history) .solved)
  (used : ∀ xs s, Going xs s → Done xs s .maxIterations)

include going stop used

/-- What every round preserves holds at the end of a loop. -/
theorem loop_induction (xs : List (Round α n m p q)) {left done : Nat} {s : Iterate α n m p q}
    (h : (loop problem o stage left done s).outcome = .ok r) (hs : Going xs s) :
    ∃ t, Done (xs ++ rounds problem o left s.previous s.workspace) t r.status ∧
      r = t.result r.status r.iterations ∧
      r.iterations = done + (rounds problem o left s.previous s.workspace).length := by
  -- Each round adds to those before it, so the rounds so far vary with the iterate.
  induction left generalizing done s xs with
  | zero =>
    cases h
    rw [rounds, List.append_nil]
    exact ⟨s, used xs s hs, rfl, rfl⟩
  | succ left ih =>
    rw [outcome_loop, bind_eq_ok] at h
    obtain ⟨x, hround, h⟩ := h
    obtain ⟨history, happend, h⟩ := bind_eq_ok.1 h
    cases hends : x.ends o with
    | true =>
      rw [hends] at h
      cases h
      have hrounds : rounds problem o (left + 1) s.previous s.workspace = [x] := by
        simp [rounds, hround, hends]
      rw [hrounds]
      exact ⟨_, stop xs s x history hs hround happend hends, rfl, rfl⟩
    | false =>
      rw [hends] at h
      obtain ⟨t, hdone, hr, hcount⟩ := ih _ h (going xs s x history hs hround happend hends)
      have hrounds : rounds problem o (left + 1) s.previous s.workspace = x ::
          rounds problem o left (s.next problem o x history).previous
            (s.next problem o x history).workspace := by
        simp [rounds, hround, hends, Iterate.next]
      rw [hrounds, List.append_cons, List.length_cons]
      exact ⟨t, hdone, hr, by omega⟩

/-- The rounds of a solve are those of its budget. -/
theorem solve_induction (h : (solve problem o w history stage).outcome = .ok r)
    (hstart : Going [] ⟨w, w.violation, 0, none, history⟩) :
    ∃ t, Done (solveRounds problem o w) t r.status ∧ r = t.result r.status r.iterations ∧
      r.iterations = (solveRounds problem o w).length := by
  simp only [solve, Run.outcome_bind_eq_ok, Run.outcome_ofExcept] at h
  obtain ⟨budget, hbudget, h⟩ := h
  obtain rfl := Options.eq_budgetNat_of_counted hbudget
  simpa [solveRounds] using loop_induction Going Done going stop used [] h hstart

end Induction

/-- What every round preserves, however the loop goes on after it, holds at the end of a solve. -/
theorem solve_invariant {P : List (Round α n m p q) → Iterate α n m p q → Prop}
    (hnext : ∀ xs s x history, P xs s → round problem o s.workspace = .ok x →
      (s.history.append stage x.snapshot : Except (Error α) _) = .ok history →
      P (xs ++ [x]) (s.next problem o x history))
    (h : (solve problem o w history stage).outcome = .ok r)
    (hstart : P [] ⟨w, w.violation, 0, none, history⟩) :
    ∃ t, P (solveRounds problem o w) t ∧ r = t.result r.status r.iterations := by
  obtain ⟨t, ht, hr, -⟩ := solve_induction P (fun xs s _ => P xs s)
    (fun xs s x history' hs hround happend _ => hnext xs s x history' hs hround happend)
    (fun xs s x history' hs hround happend _ => hnext xs s x history' hs hround happend)
    (fun _ _ hs => hs) h hstart
  exact ⟨t, ht, hr⟩

/-- The history of a solve has its rounds. -/
theorem history_of_solve (h : (solve problem o w history stage).outcome = .ok r) :
    r.history = history.extend stage ((solveRounds problem o w).map Round.snapshot) := by
  obtain ⟨t, ht, hr⟩ := solve_invariant
    (P := fun xs s => s.history = history.extend stage (xs.map Round.snapshot)) (by
      intro xs s x history' hs _ happend
      rw [hs] at happend
      rw [List.map_append]
      exact History.eq_extend_of_append happend) h rfl
  rw [hr]
  exact ht

/-- A solve counts its rounds and their iterations, and it reports whether it met its conditions. -/
theorem counts_of_solve (h : (solve problem o w history stage).outcome = .ok r) :
    r.iterations = (solveRounds problem o w).length ∧
      r.innerIterations = ((solveRounds problem o w).map fun x => x.inner.iterations).sum ∧
      (r.status = .solved ∨ r.status = .maxIterations) := by
  obtain ⟨t, ⟨hinner, hstatus⟩, hr, hcount⟩ := solve_induction
    (fun xs s => s.innerIterations = (xs.map fun x => x.inner.iterations).sum)
    (fun xs t status => t.innerIterations = (xs.map fun x => x.inner.iterations).sum ∧
      (status = .solved ∨ status = .maxIterations))
    (fun xs s x _ hs _ _ _ => by simp [Iterate.next, hs])
    (fun xs s x _ hs _ _ _ => by simp [Iterate.next, hs])
    (fun xs s hs => ⟨hs, .inr rfl⟩) h rfl
  refine ⟨hcount, ?_, hstatus⟩
  rw [hr]
  exact hinner

/-- A solve returns the path of its last round with the values along it; only the multipliers may
have been updated. -/
theorem workspace_of_solve (h : (solve problem o w history stage).outcome = .ok r)
    {x : Round α n m p q} (hx : (solveRounds problem o w).getLast? = some x) :
    r.workspace.path = x.workspace.path ∧ r.workspace.cost = x.workspace.cost ∧
      r.workspace.violation = x.workspace.violation := by
  obtain ⟨t, ht, hr⟩ := solve_invariant
    (P := fun xs s => ∀ x ∈ xs.getLast?, s.workspace.path = x.workspace.path ∧
      s.workspace.cost = x.workspace.cost ∧ s.workspace.violation = x.workspace.violation) (by
      intro xs s x history' _ _ _ y hy
      obtain rfl : x = y := by simpa using hy
      simp only [Iterate.next]
      split <;> exact ⟨rfl, rfl, rfl⟩) h (by simp)
  rw [hr]
  exact ht x hx

/-- A solve with a budget makes a round. -/
theorem solveRounds_ne_nil (hbudget : 0 < o.budgetNat .outer)
    (h : (solve problem o w history stage).outcome = .ok r) : solveRounds problem o w ≠ [] := by
  simp only [solve, Run.outcome_bind_eq_ok, Run.outcome_ofExcept] at h
  obtain ⟨budget, hcounted, h⟩ := h
  obtain rfl := Options.eq_budgetNat_of_counted hcounted
  obtain ⟨left, hleft⟩ := Nat.exists_eq_add_one.2 hbudget
  rw [hleft, outcome_loop, bind_eq_ok] at h
  obtain ⟨x, hround, -⟩ := h
  rw [solveRounds, hleft, rounds, hround]
  dsimp only
  split <;> exact List.cons_ne_nil _ _

/-- A solve that reports success ends with a round that may end it, and with its workspace. -/
theorem exists_round_of_solved (h : (solve problem o w history stage).outcome = .ok r)
    (hsolved : r.status = .solved) :
    ∃ v x, round problem o v = .ok x ∧ x.ends o = true ∧ r.workspace = x.workspace ∧
      r.decrease = x.inner.final.decrease := by
  obtain ⟨t, ht, hr, -⟩ := solve_induction (fun _ _ => True)
    (fun _ t status => status = .solved → ∃ v x, round problem o v = .ok x ∧
      x.ends o = true ∧ t.workspace = x.workspace ∧ t.decrease = x.inner.final.decrease)
    (fun _ _ _ _ _ _ _ _ => trivial)
    (fun _ s x _ _ hround _ hends _ => ⟨s.workspace, x, hround, hends, if_pos hends, rfl⟩)
    (fun _ _ _ => nofun) h trivial
  rw [hr]
  exact ht hsolved

/-- The single inner solve of a problem without constraints is a round, too. -/
theorem outcome_solveUnconstrained (hroom : history.HasRoom .unconstrained 1) :
    (solveUnconstrained problem o w history).outcome = (round problem o w).map fun x =>
      ⟨x.workspace, x.inner.status, 1, x.inner.iterations, x.inner.final.decrease,
        history.extend .unconstrained [x.snapshot]⟩ := by
  rw [solveUnconstrained, round, Run.outcome_bind]
  cases (descend problem o w).outcome with
  | error e => rfl
  | ok inner =>
    set x : Round α n m p q :=
      ⟨inner, .ofPath problem inner.final.path w.multipliers inner.final.gains⟩
    have happend : (history.append .unconstrained x.snapshot : Except (Error α) _) =
        .ok (history.extend .unconstrained [x.snapshot]) := by
      have hstart : history = history.extend .unconstrained [] := rfl
      rw [hstart, History.append_extend (by simpa using hroom)]
      rfl
    simp only [ok_bind, Run.outcome_bind, Run.outcome_ofExcept, Run.outcome_reportIf]
    show (history.append .unconstrained x.snapshot >>= fun _ => _) = _
    rw [happend]
    rfl

end Outer

end TrajOpt
