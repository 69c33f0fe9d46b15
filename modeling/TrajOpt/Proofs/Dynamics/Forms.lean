import TrajOpt.Dynamics.Model
import TrajOpt.Path
import TrajOpt.Proofs.Function.Forms
import TrajOpt.Proofs.Number.Numeral

/-!
# Models in either calling form

The step of a model depends on what its dynamics compute and not on how they are written. A vector
field or a discrete step that is given by expressions can be a pure function, traced or not, or an
in-place one; the model is built, and its step is the one that the integration scheme makes of the
expressions.

## Main definitions

* `Model.lengths` - the lengths of the arguments of the dynamics.
* `Model.stepOf` - the step that a scheme makes of expressions.
* `Model.probe` - the arguments at which the dynamics are tried out.

## Main statements

* `Model.exists_create` - a model of dynamics in either form has that step.
* `Model.step_interchangeable` - models of the same expressions in different forms have the same
  steps and the same paths.
-/

namespace TrajOpt

variable {α ν : Type} {n m : Nat}

theorem Scheme.ofText?_text (s : Scheme) : Scheme.ofText? s.text = some s := by cases s <;> decide

namespace Model

/-- The lengths of the arguments of the dynamics: the state and the control, and for a discrete step
the time step. -/
def lengths (n m : Nat) (scheme : Option Scheme) : List (Option Nat) :=
  [some n, some m] ++ if scheme.isNone then [none] else []

variable [Scalar α]

/-- The step that the scheme makes of the expressions, or which they are for a discrete step. -/
def stepOf (scheme : Option Scheme) (es : Vec (Expr α) n) (x : Vec α n) (u : Vec α m) (dt : α) :
    Vec α n :=
  match scheme with
  | none => es.map (Expr.eval id [.vector x.toList, .vector u.toList, .number dt])
  | some s => s.step (fun x u => es.map (Expr.eval id [.vector x.toList, .vector u.toList])) x u dt

/-- A positive integer is a dimension. -/
theorem dimension_int (what : String) {k : Nat} (hk : 0 < k) :
    (dimension what (.int k) : Except (Error ν) Nat) = .ok k := by
  have hself := Double.beq_self (Double.isNumber_ofInt k)
  have hpos : (1 : Int) ≤ k := by omega
  simp [dimension, Numeral.truncate, Numeral.toFloat, hself, hpos]

/-- The arguments at which the dynamics are tried out. -/
def probe (n m : Nat) (scheme : Option Scheme) : Args α :=
  let stage := [.vector (List.replicate n 0), .vector (List.replicate m 0)]
  if scheme.isNone then stage ++ [.number 0.1] else stage

theorem length_probe (scheme : Option Scheme) :
    (probe n m scheme : Args α).map Arg.length? = lengths n m scheme := by
  cases scheme <;> simp [probe, lengths, Arg.length?]

/-- With positive dimensions and a known scheme, a model is built as soon as its dynamics are
adapted. -/
theorem outcome_create (hn : 0 < n) (hm : 0 < m) {scheme : Option Scheme} {integration : String}
    (hintegration : ∀ s, scheme = some s → integration = s.text) {f : UserFunction α}
    {g : Adapted α} (hsize : g.size = n)
    (hg : (adapt f (probe n m scheme) "dynamics" (some n) :
      Run (Event α) (Error ν) _).outcome = .ok g) :
    (create f (.int n) (.int m) scheme.isNone integration none :
      Run (Event α) (Error ν) _).outcome = .ok ⟨n, m, ⟨g, hsize, scheme, none⟩⟩ := by
  cases scheme with
  | none =>
    simp only [create, dimension_int _ hn, dimension_int _ hm, Option.isSome_none,
      Option.isNone_none, Bool.not_true, Bool.and_self, Bool.false_eq_true, ↓reduceIte,
      List.cons_append, List.nil_append, Run.outcome_bind, Run.outcome_ofExcept, Run.outcome_pure,
      ok_bind]
    refine (congrArg (· >>= _) hg).trans ?_
    simp [hsize]
  | some s =>
    obtain rfl := hintegration s rfl
    simp only [create, dimension_int _ hn, dimension_int _ hm, Option.isSome_none,
      Option.isNone_some, Bool.not_false, Bool.and_true, Bool.false_eq_true, ↓reduceIte,
      Scheme.ofText?_text, Run.outcome_bind, Run.outcome_ofExcept, Run.outcome_pure, ok_bind]
    refine (congrArg (· >>= _) hg).trans ?_
    simp [hsize]

/-- A model of dynamics in either form is built, and its step is the one that the scheme makes of
the expressions. -/
theorem exists_create (hn : 0 < n) (hm : 0 < m) {scheme : Option Scheme} {integration : String}
    (hintegration : ∀ s, scheme = some s → integration = s.text) {es : Vec (Expr α) n}
    (hreads : ∀ e ∈ es.toList, e.outOfRange? (lengths n m scheme) = none) {f : UserFunction α}
    (hf : f.Renders (lengths n m scheme) es.toList) :
    ∃ model : Model α n m, (create f (.int n) (.int m) scheme.isNone integration none :
        Run (Event α) (Error ν) _).outcome = .ok ⟨n, m, model⟩ ∧
      ∀ x u dt, model.step x u dt = stepOf scheme es x u dt := by
  rw [← length_probe (α := α)] at hreads hf
  obtain ⟨g, hg, hsize, hvalue⟩ := hf.exists_adapt (ν := ν) hreads "dynamics"
  rw [Vector.length_toList] at hg hsize
  have hdynamics : ∀ args : Args α, (g.value id args).cast hsize = es.map (Expr.eval id args) := by
    intro args
    ext i hi
    simp [hvalue α id args i (by omega) (by simpa using hi)]
  refine ⟨_, outcome_create hn hm hintegration hsize hg, fun x u dt => ?_⟩
  cases scheme <;> simp [step, stepOver, stepOf, arguments, discrete, hdynamics]

/-- A traced function, a pure function on plain numbers, and an in-place function of the same
expressions are all accepted, with the given dimensions. The three models have the same step, which
is the one that the scheme makes of the expressions, and lead every state along the same path. The
in-place function may assign in any order, from either end, and more than once to the same entry. -/
theorem step_interchangeable (hn : 0 < n) (hm : 0 < m) {scheme : Option Scheme}
    {integration : String} (hintegration : ∀ s, scheme = some s → integration = s.text)
    {es : Vec (Expr α) n} (hreads : ∀ e ∈ es.toList, e.outOfRange? (lengths n m scheme) = none)
    {traced plain inPlace : UserFunction α}
    (htraced : traced.traced = true ∧ traced.Returns (lengths n m scheme).length es.toList)
    (hplain : plain.traced = false ∧ plain.Returns (lengths n m scheme).length es.toList)
    (hinPlace : inPlace.Assigns (lengths n m scheme) es.toList) :
    ∃ M₁ M₂ M₃ : Model α n m,
      ((create traced (.int n) (.int m) scheme.isNone integration none :
          Run (Event α) (Error ν) _).outcome = .ok ⟨n, m, M₁⟩ ∧
        (create plain (.int n) (.int m) scheme.isNone integration none :
          Run (Event α) (Error ν) _).outcome = .ok ⟨n, m, M₂⟩ ∧
        (create inPlace (.int n) (.int m) scheme.isNone integration none :
          Run (Event α) (Error ν) _).outcome = .ok ⟨n, m, M₃⟩) ∧
      (∀ x u dt, M₁.step x u dt = stepOf scheme es x u dt ∧ M₂.step x u dt = M₁.step x u dt ∧
        M₃.step x u dt = M₁.step x u dt) ∧
      ∀ dt x0 us,
        Path.rollout (fun x u => M₂.step x u dt) x0 us =
          Path.rollout (fun x u => M₁.step x u dt) x0 us ∧
        Path.rollout (fun x u => M₃.step x u dt) x0 us =
          Path.rollout (fun x u => M₁.step x u dt) x0 us := by
  obtain ⟨M₁, h₁, hstep₁⟩ := exists_create (ν := ν) hn hm hintegration hreads (.pure htraced.2)
  obtain ⟨M₂, h₂, hstep₂⟩ := exists_create (ν := ν) hn hm hintegration hreads (.pure hplain.2)
  obtain ⟨M₃, h₃, hstep₃⟩ := exists_create (ν := ν) hn hm hintegration hreads (.inPlace hinPlace)
  have h₂₁ : ∀ x u dt, M₂.step x u dt = M₁.step x u dt := fun x u dt =>
    (hstep₂ x u dt).trans (hstep₁ x u dt).symm
  have h₃₁ : ∀ x u dt, M₃.step x u dt = M₁.step x u dt := fun x u dt =>
    (hstep₃ x u dt).trans (hstep₁ x u dt).symm
  refine ⟨M₁, M₂, M₃, ⟨h₁, h₂, h₃⟩, fun x u dt => ⟨hstep₁ x u dt, h₂₁ x u dt, h₃₁ x u dt⟩, ?_⟩
  intro dt x0 us
  simp only [h₂₁, h₃₁, and_self]

/-- The acceleration of a pendulum, with the torque as its control. -/
def pendulumAcceleration : Expr Float :=
  .sub (.entry 1 0) (.mul (.const 9.81) (.apply .sin (.entry 0 0)))

/-- The vector field of the pendulum. -/
def pendulumField : Vec (Expr Float) 2 := #v[.entry 0 1, pendulumAcceleration]

/-- The vector field as the values of a function of the state and the control. -/
def pendulumReturning (arrangement : Arrangement) (traced : Bool) : UserFunction Float where
  parameters := .names ["x", "u"]
  inspectable := true
  traced
  failure := none
  body := .returns arrangement pendulumField.toList

/-- The vector field as an in-place function that first leaves the acceleration in the entry of the
velocity, which it counts from the end of the buffer. -/
def pendulumAssigning : UserFunction Float where
  parameters := .names ["dx", "x", "u"]
  inspectable := true
  traced := false
  failure := none
  body := .assigns [(-2, pendulumAcceleration), (1, pendulumAcceleration), (0, .entry 0 1)]

/-- The three forms of the pendulum, integrated in four stages. -/
theorem step_pendulum :
    (∀ e ∈ pendulumField.toList, e.outOfRange? (lengths 2 1 (some .rk4)) = none) ∧
    (pendulumReturning .vector true).Returns 2 pendulumField.toList ∧
    (pendulumReturning .list false).Returns 2 pendulumField.toList ∧
    pendulumAssigning.Assigns (lengths 2 1 (some .rk4)) pendulumField.toList ∧
    ∃ M₁ M₂ M₃ : Model Float 2 1,
      ((create (pendulumReturning .vector true) (.int 2) (.int 1) false "rk4" none :
          Run (Event Float) (Error Float) _).outcome = .ok ⟨2, 1, M₁⟩ ∧
        (create (pendulumReturning .list false) (.int 2) (.int 1) false "rk4" none :
          Run (Event Float) (Error Float) _).outcome = .ok ⟨2, 1, M₂⟩ ∧
        (create pendulumAssigning (.int 2) (.int 1) false "rk4" none :
          Run (Event Float) (Error Float) _).outcome = .ok ⟨2, 1, M₃⟩) ∧
      (∀ x u dt, M₁.step x u dt = stepOf (some .rk4) pendulumField x u dt ∧
        M₂.step x u dt = M₁.step x u dt ∧ M₃.step x u dt = M₁.step x u dt) ∧
      ∀ dt x0 us,
        Path.rollout (fun x u => M₂.step x u dt) x0 us =
          Path.rollout (fun x u => M₁.step x u dt) x0 us ∧
        Path.rollout (fun x u => M₃.step x u dt) x0 us =
          Path.rollout (fun x u => M₁.step x u dt) x0 us := by
  have hreads : ∀ e ∈ pendulumField.toList, e.outOfRange? (lengths 2 1 (some .rk4)) = none := by
    decide
  have htraced : (pendulumReturning .vector true).Returns 2 pendulumField.toList :=
    ⟨rfl, rfl, .inl rfl⟩
  have hplain : (pendulumReturning .list false).Returns 2 pendulumField.toList :=
    ⟨rfl, rfl, .inr rfl⟩
  have hinPlace : pendulumAssigning.Assigns (lengths 2 1 (some .rk4)) pendulumField.toList :=
    { takesBuffer := ⟨rfl, rfl⟩
      failure := rfl
      body := rfl
      reads := by decide
      places := by decide
      leaves := by
        intro i hi
        match i, hi with
        | 0, _ => rfl
        | 1, _ => rfl }
  exact ⟨hreads, htraced, hplain, hinPlace,
    step_interchangeable (by decide) (by decide) (by simp [Scheme.text]) hreads ⟨rfl, htraced⟩
      ⟨rfl, hplain⟩ hinPlace⟩

end Model

end TrajOpt
