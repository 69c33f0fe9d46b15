import Mathlib
import TrajOpt.Function.Adapted
import TrajOpt.Proofs.Outcome

/-!
# The number of values of an in-place function

An in-place function says nowhere how many values it has. They are counted at the probe: the
function runs on a buffer of undefined numbers, and the values end with the last entry that is a
number afterwards. Which of the buffers is the first that is long enough does not matter, nor do
gaps between the entries and entries that are assigned twice.

An entry that is assigned is not always counted. Where the last value is itself undefined at the
probe, the count stops short of it, and with it the buffer of every later evaluation.

## Main definitions

* `UserFunction.lastAssigned?` - the value that a call leaves in an entry of its buffer.
* `UserFunction.lastWrite?` - the expression that does, where entries are counted from either end.
* `UserFunction.TakesBuffer` - the parameters of an in-place function.
* `UserFunction.Fills` - a call assigns to entries below some number, up to the last one of them.
* `UserFunction.NoNumberFrom` - no entry from some place on holds a number at the probe.

## Main statements

* `UserFunction.getElem?_written` - what a call leaves in its buffer.
* `isLeast_countWritten` - what is counted in a buffer.
* `UserFunction.Fills.countOutputs_eq_ok` - the count, whatever buffers are tried.
* `adapt_of_fills` - what an in-place function without a required number of values is adapted to.
* `size_of_slope` - an entry that is left out because it is undefined at the probe.
-/

namespace TrajOpt

namespace UserFunction

variable {α β : Type}

/-- The value that a call leaves in entry `i` of its buffer, if it assigns to that entry: the one
that is assigned last. -/
def lastAssigned? [Scalar β] (f : UserFunction α) (embed : α → β) (args : Args β) (i : Nat) :
    Option β :=
  (f.assignments.reverse.find? fun a => a.1 == (i : Int)).map fun a => a.2.eval embed args

/-- The expression that a call on a buffer of `size` entries assigns to entry `i` last, if it
assigns to that entry, whether this is counted from the start of the buffer or from its end. -/
def lastWrite? (f : UserFunction α) (size i : Nat) : Option (Expr α) :=
  (f.assignments.reverse.find? fun a => place? size a.1 == some i).map Prod.snd

/-- The function has one parameter more than there are arguments, which is the buffer. -/
def TakesBuffer (f : UserFunction α) (count : Nat) : Prop :=
  f.parameters.accepts count = false ∧ f.parameters.accepts (count + 1) = true

/-- A call with arguments of these lengths assigns to entries below `size`, the last of them among
others, and raises nothing on a buffer that has that many entries. -/
structure Fills (f : UserFunction α) (lengths : List (Option Nat)) (size : Nat) : Prop where
  index_nonneg : ∀ a ∈ f.assignments, 0 ≤ a.1
  index_lt : ∀ a ∈ f.assignments, a.1 < size
  last : size = 0 ∨ ∃ a ∈ f.assignments, a.1 + 1 = size
  fault_eq_none : ∀ k, size ≤ k → f.fault? (some k :: lengths) = none

/-- No entry from `count` on holds a number after a call with these arguments. -/
def NoNumberFrom [Scalar α] (f : UserFunction α) (args : Args α) (count : Nat) : Prop :=
  ∀ i v, count ≤ i → f.lastAssigned? id args i = some v → Arith.isNumber v = false

theorem place?_of_nonneg {index : Int} (h : 0 ≤ index) (size : Nat) :
    place? size index = if index < size then some index.toNat else none := by
  simp [place?, not_lt.2 h, h]

section Written

variable [Scalar β] {embed : α → β} {args : Args β}

theorem size_foldl_assign (l : List (Int × Expr α)) (buffer : Array β) :
    (l.foldl (fun b (index, e) => assign b index (e.eval embed args)) buffer).size =
      buffer.size := by
  induction l using List.reverseRecOn with
  | nil => rfl
  | append_singleton l a ih => rw [List.foldl_concat, size_assign, ih]

omit [Scalar β] in
theorem getElem?_assign (buffer : Array β) (index : Int) (value : β) {i : Nat}
    (hi : i < buffer.size) : (assign buffer index value)[i]? =
      if place? buffer.size index = some i then some value else buffer[i]? := by
  unfold assign
  split
  next j hj =>
    rw [hj, Array.getElem?_setIfInBounds]
    grind
  next hj => simp [hj]

/-- An entry of the buffer holds what was assigned to it last, and what it held before if nothing
was. -/
theorem getElem?_written_eq (f : UserFunction α) (buffer : Array β) {i : Nat}
    (hi : i < buffer.size) : (f.written embed buffer args)[i]? =
      some (((f.lastWrite? buffer.size i).map (Expr.eval embed args)).getD buffer[i]) := by
  unfold written lastWrite?
  generalize f.assignments = l
  -- The last assignment decides, so the induction takes the assignments from the end.
  induction l using List.reverseRecOn with
  | nil => simp [hi]
  | append_singleton l a ih =>
    rw [List.foldl_concat, getElem?_assign _ _ _ (by rwa [size_foldl_assign]), size_foldl_assign,
      ih, List.reverse_concat, List.find?_cons]
    by_cases ha : place? buffer.size a.1 = some i
    · simp [ha]
    · simp [ha, beq_eq_false_iff_ne.2 ha]

theorem lastAssigned?_eq {f : UserFunction α} (h : ∀ a ∈ f.assignments, 0 ≤ a.1) {size i : Nat}
    (hi : i < size) :
    f.lastAssigned? embed args i = (f.lastWrite? size i).map (Expr.eval embed args) := by
  have hplace : ∀ a ∈ f.assignments.reverse,
      (a.1 == (i : Int)) = (place? size a.1 == some i) := by
    intro a ha
    have hnonneg := h a (List.mem_reverse.1 ha)
    rw [place?_of_nonneg hnonneg, Bool.eq_iff_iff]
    grind
  rw [lastAssigned?, lastWrite?, List.find?_congr hplace, Option.map_map]
  rfl

/-- Where no entry is counted from the end of the buffer, the indices are those of the entries. -/
theorem getElem?_written {f : UserFunction α} (h : ∀ a ∈ f.assignments, 0 ≤ a.1)
    (buffer : Array β) {i : Nat} (hi : i < buffer.size) :
    (f.written embed buffer args)[i]? = some ((f.lastAssigned? embed args i).getD buffer[i]) := by
  rw [getElem?_written_eq f buffer hi, lastAssigned?_eq h hi]

end Written

section Fault

variable {f : UserFunction α} {lengths : List (Option Nat)} {size : Nat}

/-- A function that takes a buffer is called with one, be its parameters known or not. -/
theorem TakesBuffer.callForm_eq {ν : Type} (h : f.TakesBuffer lengths.length) (name : String) :
    (callForm f name lengths : Except (Error ν) CallForm) = .ok .inplace := by
  obtain ⟨hpure, hbuffer⟩ := h
  unfold callForm
  split
  · simp [hpure, hbuffer]
  · -- The trial in the pure form misses an argument.
    cases hparameters : f.parameters with
    | any => simp [hparameters, Parameters.accepts] at hpure
    | names l =>
      have hlength : l.length = lengths.length + 1 := by
        simpa [hparameters, Parameters.accepts] using hbuffer
      simp [fault?, callFault?, hparameters, Parameters.misfit?, hlength]

/-- What a call raises on a buffer that is long enough does not depend on the buffer. -/
theorem fills_of_assigns {l : List (Int × Expr α)} (hbody : f.body = .assigns l)
    (hcall : f.callFault? (lengths.length + 1) = none)
    (hexpression : ∀ a ∈ l, expressionFault? lengths a.2 = none) (hnonneg : ∀ a ∈ l, 0 ≤ a.1)
    (hlt : ∀ a ∈ l, a.1 < size) (hlast : size = 0 ∨ ∃ a ∈ l, a.1 + 1 = size) :
    f.Fills lengths size := by
  have hassignments : f.assignments = l := by simp [assignments, hbody]
  refine ⟨hassignments ▸ hnonneg, hassignments ▸ hlt, hassignments ▸ hlast, fun k hk => ?_⟩
  simp only [fault?, List.length_cons, hcall, Option.none_or, hbody, List.head?_cons,
    Option.join_some, Option.getD_some, List.tail_cons, List.findSome?_eq_none_iff]
  intro a ha
  have hplace : (place? k a.1).isSome = true := by
    rw [place?_of_nonneg (hnonneg a ha), if_pos ((hlt a ha).trans_le (by exact_mod_cast hk))]
    rfl
  simp [hexpression a ha, hplace]

/-- A call on a buffer that is too short runs out of it. -/
theorem Fills.fault?_of_lt (h : f.Fills lengths size) {k : Nat} (hk : k < size) :
    ∃ fault, f.fault? (some k :: lengths) = some fault ∧ fault.isIndexError = true := by
  obtain ⟨last, hmem, hlast⟩ := h.last.resolve_left (by omega)
  have hnone := h.fault_eq_none size le_rfl
  unfold fault? at hnone ⊢
  cases hbody : f.body with
  | returns arrangement values => simp [assignments, hbody] at hmem
  | assigns l =>
    have hassignments : f.assignments = l := by simp [assignments, hbody]
    simp only [hbody, Option.or_eq_none_iff, List.findSome?_eq_none_iff, List.head?_cons,
      Option.join_some, Option.getD_some, List.tail_cons] at hnone ⊢
    obtain ⟨hcall, hentries⟩ := hnone
    rw [show (some k :: lengths).length = (some size :: lengths).length from rfl, hcall,
      Option.none_or]
    have hexpression : ∀ a ∈ l, expressionFault? lengths a.2 = none := fun a ha =>
      (hentries a ha).1
    cases hfound : l.findSome? fun (index, e) => (expressionFault? lengths e).or
        (if (place? k index).isSome then none else some (Fault.outOfRange index k)) with
    | none =>
      have hplace := (Option.or_eq_none_iff.1 (List.findSome?_eq_none_iff.1 hfound last
        (hassignments ▸ hmem))).2
      rw [place?_of_nonneg (h.index_nonneg last hmem),
        if_neg (show ¬ last.1 < (k : Int) by omega)] at hplace
      cases hplace
    | some fault =>
      obtain ⟨a, ha, hfault⟩ := List.exists_of_findSome?_eq_some hfound
      refine ⟨fault, hfound, ?_⟩
      simp only [hexpression a ha, Option.none_or] at hfault
      split at hfault
      · cases hfault
      · cases hfault
        exact Fault.isIndexError_outOfRange _ _

/-- A call runs out of its buffer exactly if that is too short. -/
theorem Fills.fault?_eq_none_iff (h : f.Fills lengths size) {k : Nat} :
    f.fault? (some k :: lengths) = none ↔ size ≤ k := by
  refine ⟨fun hnone => ?_, h.fault_eq_none k⟩
  by_contra hk
  obtain ⟨fault, hfault, -⟩ := h.fault?_of_lt (not_le.1 hk)
  rw [hfault] at hnone
  cases hnone

end Fault

end UserFunction

section Count

variable {α : Type} [Scalar α]

/-- What is counted in a buffer is the least place from which on it holds no number. -/
theorem isLeast_countWritten (buffer : Array α) :
    IsLeast {c | ∀ (i : Nat) (a : α), c ≤ i → buffer[i]? = some a → Arith.isNumber a = false}
      (countWritten buffer) := by
  obtain ⟨l⟩ := buffer
  simp only [countWritten, List.getElem?_toArray]
  induction l using List.reverseRecOn with
  | nil => exact ⟨fun i a _ h => by simp at h, fun c _ => Nat.zero_le c⟩
  | append_singleton l a ih =>
    rw [List.reverse_concat, List.dropWhile_cons]
    cases ha : Arith.isNumber a with
    | false =>
      simp only [Bool.not_false, if_true]
      -- One entry more that is no number changes nothing.
      refine ⟨fun i b hi hb => ?_, fun c hc => ih.2 fun i b hi hb => hc i b hi ?_⟩
      · by_cases hil : i < l.length
        · exact ih.1 i b hi (List.getElem?_append_left hil ▸ hb)
        · rw [List.getElem?_append_right (not_lt.1 hil), List.getElem?_singleton] at hb
          split at hb
          · exact Option.some.inj hb ▸ ha
          · cases hb
      · rw [List.getElem?_append_left (List.getElem?_eq_some_iff.1 hb).1, hb]
    | true =>
      simp only [Bool.not_true, Bool.false_eq_true, if_false]
      refine ⟨fun i b hi hb => ?_, fun c hc => ?_⟩
      · rw [List.getElem?_eq_none (by simpa using hi)] at hb
        cases hb
      · by_contra hlt
        have hlast := hc l.length a (by simpa using hlt) (by simp)
        rw [ha] at hlast
        cases hlast

end Count

namespace UserFunction

variable {α : Type} [Scalar α] {f : UserFunction α} {args : Args α} {size : Nat}

omit [Scalar α] in
/-- Nothing is assigned to the entries from the number of values on. -/
theorem Fills.lastAssigned?_eq_none {β : Type} [Scalar β] {lengths : List (Option Nat)}
    (h : f.Fills lengths size) (embed : α → β) (args : Args β) {i : Nat} (hi : size ≤ i) :
    f.lastAssigned? embed args i = none := by
  rw [lastAssigned?, Option.map_eq_none_iff, List.find?_eq_none]
  intro a ha
  have hlt := h.index_lt a (List.mem_reverse.1 ha)
  simp only [beq_iff_eq]
  omega

/-- A buffer that is long enough shows every entry that holds a number. -/
theorem Fills.isLeast_countWritten (h : f.Fills (args.map Arg.length?) size)
    (hundefined : Arith.isNumber (undefinedNumber : α) = false) {k : Nat} (hk : size ≤ k) :
    IsLeast {c | f.NoNumberFrom args c}
      (countWritten (f.written id (Array.replicate k undefinedNumber) args)) := by
  have hentry : ∀ i (hi : i < k), (f.written id (Array.replicate k undefinedNumber) args)[i]? =
      some ((f.lastAssigned? id args i).getD undefinedNumber) := by
    intro i hi
    rw [getElem?_written h.index_nonneg _ (by simpa using hi), Array.getElem_replicate]
  have hsize : (f.written id (Array.replicate k undefinedNumber) args).size = k := by
    rw [written, size_foldl_assign, Array.size_replicate]
  convert TrajOpt.isLeast_countWritten _ using 2
  ext c
  constructor
  · intro hc i a hi ha
    have hik : i < k := hsize ▸ (Array.getElem?_eq_some_iff.1 ha).1
    rw [hentry i hik, Option.some_inj] at ha
    cases hlast : f.lastAssigned? id args i with
    | none => simpa [← ha, hlast] using hundefined
    | some v => simpa [← ha, hlast] using hc i v hi hlast
  · intro hc i v hi hv
    have hik : i < k := by
      by_contra hle
      rw [h.lastAssigned?_eq_none id args (by omega)] at hv
      cases hv
    exact hc i v hi (by rw [hentry i hik, hv, Option.getD_some])

variable {ν : Type}

/-- The count does not depend on the buffers that are tried, as long as one of them is long
enough. -/
theorem Fills.countOutputs_eq_ok (h : f.Fills (args.map Arg.length?) size)
    (hundefined : Arith.isNumber (undefinedNumber : α) = false) (name : String) {sizes : List Nat}
    (hsizes : ∃ k ∈ sizes, size ≤ k) :
    ∃ c, (countOutputs f name args sizes : Except (Error ν) Nat) = .ok c ∧
      IsLeast {c | f.NoNumberFrom args c} c := by
  induction sizes with
  | nil => simp at hsizes
  | cons k larger ih =>
    unfold countOutputs
    by_cases hk : size ≤ k
    · rw [h.fault_eq_none k hk]
      exact ⟨_, rfl, h.isLeast_countWritten hundefined hk⟩
    · obtain ⟨fault, hfault, hindex⟩ := h.fault?_of_lt (not_le.1 hk)
      simp only [hfault, hindex, if_true]
      exact ih (by simpa [hk] using hsizes)

omit ν in
theorem Fills.le_of_isLeast (h : f.Fills (args.map Arg.length?) size) {c : Nat}
    (hc : IsLeast {c | f.NoNumberFrom args c} c) : c ≤ size := by
  refine hc.2 fun i v hi hv => ?_
  rw [h.lastAssigned?_eq_none id args hi] at hv
  cases hv

omit ν in
/-- All values are counted exactly if the last one is a number. -/
theorem Fills.eq_of_isLeast_iff (h : f.Fills (args.map Arg.length?) size) {c : Nat}
    (hc : IsLeast {c | f.NoNumberFrom args c} c) :
    c = size ↔ size = 0 ∨
      ∃ v, f.lastAssigned? id args (size - 1) = some v ∧ Arith.isNumber v = true := by
  have hle := h.le_of_isLeast hc
  constructor
  · rintro rfl
    by_contra hnone
    rw [not_or, not_exists] at hnone
    have hbefore : f.NoNumberFrom args (c - 1) := by
      intro i v hi hv
      obtain rfl | hi := hi.eq_or_lt
      · simpa [hv] using hnone.2 v
      · exact hc.1 i v (by omega) hv
    have := hc.2 hbefore
    omega
  · rintro (hzero | ⟨v, hv, hnumber⟩)
    · omega
    · by_contra hne
      have := hc.1 (size - 1) v (by omega) hv
      rw [hnumber] at this
      cases this

end UserFunction

theorem isNumber_undefinedNumber : Arith.isNumber (undefinedNumber : Float) = false := by decide

/-- The values of an in-place function are what it leaves in a buffer of zeros. -/
theorem Adapted.getElem_value {α β : Type} [Scalar β] {g : Adapted α} (hform : g.form = .inplace)
    (hindex : ∀ a ∈ g.source.assignments, 0 ≤ a.1) (embed : α → β) (args : Args β) {i : Nat}
    (hi : i < g.size) :
    (g.value embed args)[i] = (g.source.lastAssigned? embed args i).getD 0 := by
  have hentry : (g.source.written embed (Array.replicate g.size 0) args)[i]? = _ :=
    UserFunction.getElem?_written hindex _ (by simpa using hi)
  simp only [value, hform, Vector.getElem_ofFn, hentry, Option.getD_some, Array.getElem_replicate]

section Adapt

variable {ν : Type} {f : UserFunction Float} {probe : Args Float} {size : Nat}

/-- An in-place function is adapted, with the values that are counted at the probe. -/
theorem exists_adapt_of_fills (hbuffer : f.TakesBuffer probe.length)
    (hfills : f.Fills (probe.map Arg.length?) size) (hsize : size ≤ 100000) (name : String) :
    ∃ c, (adapt f probe name none : Run (Event Float) (Error ν) _).outcome =
        .ok ⟨name, .inplace, false, c, f⟩ ∧ IsLeast {c | f.NoNumberFrom probe c} c := by
  have hlong : ∃ k ∈ bufferSizes, size ≤ k := ⟨100000, by simp [bufferSizes], hsize⟩
  obtain ⟨c, hcount, hc⟩ :=
    hfills.countOutputs_eq_ok (ν := ν) isNumber_undefinedNumber name hlong
  rw [← List.length_map (f := Arg.length?)] at hbuffer
  exact ⟨c, by simp [adapt, hbuffer.callForm_eq, measure, hcount], hc⟩

/-- The number of values of an in-place function that assigns to entries below `size`, up to the
last of them, is the least place from which on the probe shows no number. It is `size` exactly if
the last entry holds a number at the probe; the values are then what the entries hold in the end,
and zero in the gaps. Otherwise the entries behind are left out, and a call on a buffer of the size
that was counted runs out of it. If nothing was counted, no call is made, and the function has no
values. -/
theorem adapt_of_fills (hbuffer : f.TakesBuffer probe.length)
    (hfills : f.Fills (probe.map Arg.length?) size) (hsize : size ≤ 100000) (name : String) :
    ∃ g : Adapted Float, (adapt f probe name none : Run (Event Float) (Error ν) _).outcome = .ok g ∧
      g.form = .inplace ∧ g.source = f ∧ IsLeast {c | f.NoNumberFrom probe c} g.size ∧
      (g.size = size ↔ size = 0 ∨
        ∃ v, f.lastAssigned? id probe (size - 1) = some v ∧ Arith.isNumber v = true) ∧
      ∀ args : Args Float, f.Fills (args.map Arg.length?) size →
        (f.fault? (some g.size :: args.map Arg.length?) = none ↔ g.size = size) ∧
        (g.size = size → ∀ i (hi : i < g.size),
          (g.value id args)[i] = (f.lastAssigned? id args i).getD 0) := by
  obtain ⟨c, hadapt, hc⟩ := exists_adapt_of_fills (ν := ν) hbuffer hfills hsize name
  refine ⟨_, hadapt, rfl, rfl, hc, hfills.eq_of_isLeast_iff hc, fun args hargs => ⟨?_, ?_⟩⟩
  · rw [hargs.fault?_eq_none_iff]
    exact ⟨fun hle => (hfills.le_of_isLeast hc).antisymm hle, ge_of_eq⟩
  · intro _ i hi
    exact Adapted.getElem_value rfl hfills.index_nonneg id args hi

/-- A function that assigns to entry 100, skips those before it, and assigns to entry 0 twice. -/
def gapped : UserFunction Float where
  parameters := .names ["c", "x", "u"]
  inspectable := true
  traced := false
  failure := none
  body := .assigns
    [(100, .sub (.entry 0 0) (.const 1.0)), (0, .entry 1 0), (0, .mul (.entry 0 0) (.entry 1 0))]

theorem fills_gapped : gapped.Fills [some 1, some 1] 101 :=
  UserFunction.fills_of_assigns rfl rfl (by decide) (by decide) (by decide) (by decide)

/-- The first buffer is too short for it, and the entry that is assigned twice has the later
value. -/
theorem adapt_gapped : gapped.TakesBuffer 2 ∧ gapped.Fills [some 1, some 1] 101 ∧
    ∃ g : Adapted Float, (adapt gapped [.vector [0], .vector [0]] "cI" none :
        Run (Event Float) (Error Float) _).outcome = .ok g ∧ g.size = 101 ∧
      ∀ i (hi : i < g.size), (g.value id [.vector [2.0], .vector [3.0]])[i] =
        if i = 0 then 6.0 else if i = 100 then 1.0 else 0 := by
  have hbuffer : gapped.TakesBuffer 2 := ⟨rfl, rfl⟩
  obtain ⟨g, hg, -, -, -, hsize, hvalue⟩ := @adapt_of_fills Float gapped
    [.vector [0], .vector [0]] 101 hbuffer fills_gapped (by decide) "cI"
  have hall : g.size = 101 := hsize.2 (.inr ⟨_, rfl, by decide⟩)
  refine ⟨hbuffer, fills_gapped, g, hg, hall, fun i hi => ?_⟩
  rw [(hvalue [.vector [2.0], .vector [3.0]] fills_gapped).2 hall i hi]
  by_cases hfirst : i = 0
  · subst hfirst
    decide
  · by_cases hlast : i = 100
    · subst hlast
      decide
    · have hgap : gapped.lastAssigned? id [.vector [2.0], .vector [3.0]] i = none := by
        rw [UserFunction.lastAssigned?, Option.map_eq_none_iff, List.find?_eq_none]
        simp [UserFunction.assignments, gapped]
        omega
      rw [hgap, if_neg hfirst, if_neg hlast]
      rfl

/-- The slope of a line through the origin, for which there is no number at the origin itself. -/
def slope : UserFunction Float where
  parameters := .names ["c", "x", "u"]
  inspectable := true
  traced := false
  failure := none
  body := .assigns [(0, .div (.entry 0 1) (.entry 0 0))]

/-- The slope is undefined at the probe, so the one value of the function is not counted, and the
adapted function has no values anywhere. -/
theorem size_of_slope : slope.TakesBuffer 2 ∧ slope.Fills [some 2, some 1] 1 ∧
    slope.lastAssigned? id [.vector [2.0, 3.0], .vector [0]] 0 = some 1.5 ∧
    ∃ g : Adapted Float, (adapt slope [.vector [0, 0], .vector [0]] "cI" none :
        Run (Event Float) (Error Float) _).outcome = .ok g ∧ g.size = 0 ∧
      (g.value id [.vector [2.0, 3.0], .vector [0]]).toList = [] := by
  have hbuffer : slope.TakesBuffer 2 := ⟨rfl, rfl⟩
  have hfills : slope.Fills [some 2, some 1] 1 :=
    UserFunction.fills_of_assigns rfl rfl (by decide) (by decide) (by decide) (by decide)
  obtain ⟨c, hadapt, hc⟩ := @exists_adapt_of_fills Float slope
    [.vector [0, 0], .vector [0]] 1 hbuffer hfills (by decide) "cI"
  have hundefined : slope.lastAssigned? id [.vector [0, 0], .vector [0]] 0 =
      some undefinedNumber := rfl
  have hzero : c = 0 := by
    have hle : c ≤ 1 := hfills.le_of_isLeast hc
    have hne : c ≠ 1 := by
      rw [Ne, hfills.eq_of_isLeast_iff hc, hundefined]
      simp [isNumber_undefinedNumber]
    omega
  subst hzero
  exact ⟨hbuffer, hfills, by decide +kernel, _, hadapt, rfl, rfl⟩

end Adapt

end TrajOpt
