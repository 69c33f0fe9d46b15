import TrajOpt.Path

/-!
# Paths of the dynamics

A path is one of the dynamics when its states are what the dynamics make of its controls. The path
of given controls is one, and so is every path under gains, however many gains there are: controls
that react to a deviation are controls all the same.

## Main definitions

* `Path.IsRollout` - the states of a path follow from its controls.
-/

namespace TrajOpt

namespace Path

variable {α : Type} {n m : Nat}

/-- The states of the path are what the dynamics make of its first state and its controls. -/
def IsRollout (step : Vec α n → Vec α m → Vec α n) (path : Path α n m) : Prop :=
  rollout step path.first path.controls = path

@[simp] theorem first_cons (knot : Knot α n m) (path : Path α n m) :
    (cons knot path).first = knot.state := rfl

@[simp] theorem controls_cons (knot : Knot α n m) (path : Path α n m) :
    (cons knot path).controls = knot.control :: path.controls := rfl

@[simp] theorem length_controls (path : Path α n m) :
    path.controls.length = path.knots.length := by
  simp [controls]

@[simp] theorem length_states (path : Path α n m) :
    path.states.length = path.knots.length + 1 := by
  simp [states]

@[simp] theorem first_rollout (step : Vec α n → Vec α m → Vec α n) (x : Vec α n)
    (us : List (Vec α m)) : (rollout step x us).first = x := by
  cases us <;> rfl

@[simp] theorem controls_rollout (step : Vec α n → Vec α m → Vec α n) (x : Vec α n)
    (us : List (Vec α m)) : (rollout step x us).controls = us := by
  induction us generalizing x with
  | nil => rfl
  | cons u us ih => simp [rollout, ih]

@[simp] theorem length_knots_rollout (step : Vec α n → Vec α m → Vec α n) (x : Vec α n)
    (us : List (Vec α m)) : (rollout step x us).knots.length = us.length := by
  rw [← length_controls, controls_rollout]

theorem isRollout_rollout (step : Vec α n → Vec α m → Vec α n) (x : Vec α n)
    (us : List (Vec α m)) : (rollout step x us).IsRollout step := by
  rw [IsRollout, first_rollout, controls_rollout]

theorem controls_of_ofLists? {xs : List (Vec α n)} {us : List (Vec α m)} {path : Path α n m}
    (h : ofLists? xs us = some path) : path.controls = us := by
  fun_induction ofLists? xs us generalizing path with
  | case1 x => cases h; rfl
  | case2 x xs u us ih =>
    obtain ⟨rest, hrest, rfl⟩ := Option.map_eq_some_iff.1 h
    rw [controls_cons, ih hrest]
  | case3 => cases h

/-- States and controls make a path when there is one state more than controls. -/
theorem exists_ofLists? {xs : List (Vec α n)} {us : List (Vec α m)}
    (h : xs.length = us.length + 1) : ∃ path, ofLists? xs us = some path := by
  induction us generalizing xs with
  | nil =>
    obtain ⟨x, rfl⟩ := List.length_eq_one_iff.1 h
    exact ⟨_, rfl⟩
  | cons u us ih =>
    obtain ⟨x, xs, rfl⟩ := List.exists_cons_of_length_eq_add_one h
    obtain ⟨path, hpath⟩ := ih (Nat.succ.inj h)
    exact ⟨path.cons ⟨x, u⟩, by simp [ofLists?, hpath]⟩

@[simp] theorem length_knots_setFirst (x : Vec α n) (path : Path α n m) :
    (path.setFirst x).knots.length = path.knots.length := by
  unfold setFirst
  split <;> simp_all

@[simp] theorem first_setFirst (x : Vec α n) (path : Path α n m) : (path.setFirst x).first = x := by
  unfold setFirst
  split <;> rfl

@[simp] theorem controls_setFirst (x : Vec α n) (path : Path α n m) :
    (path.setFirst x).controls = path.controls := by
  unfold setFirst
  split <;> simp_all [controls]

theorem states_setFirst (x : Vec α n) (path : Path α n m) :
    (path.setFirst x).states = x :: path.states.tail := by
  unfold setFirst
  split <;> simp_all [states]

theorem setFirst_first (path : Path α n m) : path.setFirst path.first = path := by
  obtain ⟨knots, final⟩ := path
  cases knots <;> rfl

/-- A path is known by its states and its controls. -/
theorem eq_of_states {path path' : Path α n m} (hstates : path.states = path'.states)
    (hcontrols : path.controls = path'.controls) : path = path' := by
  obtain ⟨knots, final⟩ := path
  obtain ⟨knots', final'⟩ := path'
  have hknots : ∀ ks : List (Knot α n m),
      List.zipWith Knot.mk (ks.map Knot.state) (ks.map Knot.control) = ks := by
    intro ks
    induction ks with
    | nil => rfl
    | cons k ks ih => simp [ih]
  obtain ⟨hstate, hlast⟩ := List.append_inj' hstates rfl
  have hstate : knots.map Knot.state = knots'.map Knot.state := hstate
  have hcontrol : knots.map Knot.control = knots'.map Knot.control := hcontrols
  have hfinal : final = final' := (List.cons.inj hlast).1
  rw [← hknots knots, hstate, hcontrol, hknots, hfinal]

theorem slacks_cons [Sub α] (step : Vec α n → Vec α m → Vec α n) (knot : Knot α n m)
    (path : Path α n m) : (cons knot path).slacks step =
      (path.first - step knot.state knot.control) :: path.slacks step := by
  obtain ⟨knots, final⟩ := path
  cases knots <;> rfl

@[simp] theorem length_slacks [Sub α] (step : Vec α n → Vec α m → Vec α n) (path : Path α n m) :
    (path.slacks step).length = path.knots.length := by
  simp [slacks]

section ClosedLoop

variable [Arith α] (step : Vec α n → Vec α m → Vec α n) (size : α)

theorem first_closedLoopFrom (x : Vec α n) (l : List (Knot α n m × Gain α n m)) :
    (closedLoopFrom step size x l).first = x := by
  cases l <;> rfl

theorem rollout_closedLoopFrom (x : Vec α n) (l : List (Knot α n m × Gain α n m)) :
    rollout step x (closedLoopFrom step size x l).controls = closedLoopFrom step size x l := by
  induction l generalizing x with
  | nil => rfl
  | cons pair l ih => simp [closedLoopFrom, rollout, ih]

@[simp] theorem first_closedLoop (path : Path α n m) (gains : List (Gain α n m)) :
    (closedLoop step size path gains).first = path.first :=
  first_closedLoopFrom step size _ _

theorem isRollout_closedLoop (path : Path α n m) (gains : List (Gain α n m)) :
    (closedLoop step size path gains).IsRollout step := by
  rw [IsRollout, first_closedLoop]
  exact rollout_closedLoopFrom step size _ _

theorem length_knots_closedLoop (path : Path α n m) {gains : List (Gain α n m)}
    (h : gains.length = path.knots.length) :
    (closedLoop step size path gains).knots.length = path.knots.length := by
  have length_from : ∀ (l : List (Knot α n m × Gain α n m)) (x : Vec α n),
      (closedLoopFrom step size x l).knots.length = l.length := by
    intro l
    induction l with
    | nil => intro x; rfl
    | cons pair l ih => intro x; simp [closedLoopFrom, cons, ih]
  rw [closedLoop, length_from]
  simp [h]

end ClosedLoop

section Finite

variable [Scalar α] {path : Path α n m}

theorem isFinite_cons {knot : Knot α n m} : (cons knot path).isFinite = true ↔
    (∀ i (hi : i < n), Scalar.isFinite knot.state[i] = true) ∧ path.isFinite = true := by
  simp [isFinite, states, cons]

theorem isFinite_first (h : path.isFinite = true) :
    ∀ i (hi : i < n), Scalar.isFinite path.first[i] = true := by
  obtain ⟨knots, final⟩ := path
  cases knots with
  | nil => simpa [isFinite, states, first] using h
  | cons knot knots =>
    have hcons : (cons knot ⟨knots, final⟩).isFinite = true := h
    exact (isFinite_cons.1 hcons).1

end Finite

end Path

end TrajOpt
