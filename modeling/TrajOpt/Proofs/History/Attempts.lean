import Mathlib.Data.List.DropRight
import Mathlib.Data.List.SplitBy
import TrajOpt.Proofs.History

/-!
# Attempts to append

Entries are offered to a history one after the other, and some of them are refused. What the history
holds is known from the accepted entries alone: all of them, or the last one of each run of entries
of the same stage. A stage may return later, so a run is not the same as a stage.

## Main definitions

* `History.attempt`, `History.attempts` - a history after attempts, with the entries it accepted.
* `History.lastOfRuns` - the last entry of each maximal run of entries of one stage.

## Main statements

* `History.append_eq` - which entries are accepted.
* `History.lastOfRuns_concat` - one entry more replaces the last one or begins a run.
* `History.attempts_holds` - what a history holds after any attempts.
-/

namespace TrajOpt

namespace History

variable {ε ν : Type} {h : History ε} {e : Stage × ε} {l : List (Stage × ε)}

/-- Whether there is a place for an entry of the stage: that of the last entry, or a new one. -/
def accepts (h : History ε) (stage : Stage) : Bool :=
  h.replaces stage || decide (h.entries.length < h.capacity)

theorem append_eq (h : History ε) (stage : Stage) (entry : ε) :
    (h.append stage entry : Except (Error ν) _) =
      if h.accepts stage then .ok { h with entries := h.remaining stage ++ [(stage, entry)] }
      else .error (.logFull h.capacity) := by
  unfold append accepts remaining replaces
  grind

theorem accepts_iff {stage : Stage} : h.accepts stage = true ↔
    h.entries.length < h.capacity ∨
      h.keepsAll = false ∧ h.entries.getLast?.map Prod.fst = some stage := by
  unfold accepts replaces
  grind

theorem exists_append_eq_ok {stage : Stage} {entry : ε} :
    (∃ h', (h.append stage entry : Except (Error ν) _) = .ok h') ↔ h.accepts stage = true := by
  rw [append_eq]
  split <;> simp_all

theorem accepts_of_append_eq_error {stage : Stage} {entry : ε} {error : Error ν}
    (happend : h.append stage entry = .error error) : h.accepts stage = false := by
  rw [append_eq] at happend
  split at happend
  next => cases happend
  next haccepts => exact Bool.eq_false_iff.2 haccepts

/-- A history and the entries it accepted so far, after one entry more was offered to it. An entry
that is refused changes neither. -/
def attempt (s : History ε × List (Stage × ε)) (e : Stage × ε) :
    History ε × List (Stage × ε) :=
  match (s.1.append e.1 e.2 : Except (Error Empty) (History ε)) with
  | .ok h => (h, s.2 ++ [e])
  | .error _ => s

/-- A history to which the given entries were offered in order, and those that it accepted. -/
def attempts (capacity : Int) (keepsAll : Bool) (es : List (Stage × ε)) :
    History ε × List (Stage × ε) :=
  es.foldl attempt (empty capacity keepsAll, [])

/-- The last entry of each maximal run of entries of the same stage. -/
def lastOfRuns (l : List (Stage × ε)) : List (Stage × ε) :=
  (l.splitBy fun a b => a.1 == b.1).filterMap List.getLast?

section Runs

/-- A last run of entries of one stage has its last entry. -/
theorem lastOfRuns_append {before run : List (Stage × ε)} {stage : Stage}
    (hrun : ∀ a ∈ run, a.1 = stage) (hbefore : ∀ a ∈ before.getLast?, a.1 ≠ stage) :
    lastOfRuns (before ++ run) = lastOfRuns before ++ run.getLast?.toList := by
  have hsplit : (before ++ run).splitBy (fun a b => a.1 == b.1) =
      before.splitBy (fun a b => a.1 == b.1) ++ run.splitBy fun a b => a.1 == b.1 := by
    refine List.splitBy_append fun a ha b hb => ?_
    simpa [hrun b (List.mem_of_mem_head? hb)] using hbefore a ha
  rw [lastOfRuns, hsplit, List.filterMap_append]
  cases run with
  | nil => rfl
  | cons a run =>
    have hchain : (a :: run).IsChain fun a b => (a.1 == b.1) = true := by
      refine List.Pairwise.isChain (List.pairwise_of_forall_mem_list fun b hb c hc => ?_)
      simp [hrun b hb, hrun c hc]
    rw [List.splitBy_of_isChain (by simp) hchain, List.filterMap_cons_some
      (List.getLast?_eq_some_getLast (by simp)), List.getLast?_eq_some_getLast (by simp)]
    rfl

/-- An entry takes the place of the last one if that is of the same stage, and begins a run
otherwise. -/
theorem lastOfRuns_concat (l : List (Stage × ε)) (e : Stage × ε) :
    lastOfRuns (l ++ [e]) =
      (if l.getLast?.map Prod.fst = some e.1 then (lastOfRuns l).dropLast else lastOfRuns l) ++
        [e] := by
  obtain ⟨before, run, rfl, hrun, hbefore⟩ : ∃ before run, l = before ++ run ∧
      (∀ a ∈ run, a.1 = e.1) ∧ ∀ a ∈ before.getLast?, a.1 ≠ e.1 := by
    refine ⟨l.rdropWhile fun a => a.1 == e.1, l.rtakeWhile fun a => a.1 == e.1,
      List.rdropWhile_append_rtakeWhile.symm, fun a ha => ?_, fun a ha => ?_⟩
    · simpa using List.mem_rtakeWhile_imp ha
    · obtain ⟨hne, rfl⟩ := List.mem_getLast?_eq_getLast ha
      simpa using List.rdropWhile_last_not _ _ hne
  have hlonger : ∀ a ∈ run ++ [e], a.1 = e.1 := by simpa [or_imp, forall_and] using hrun
  rw [List.append_assoc, lastOfRuns_append hlonger hbefore, lastOfRuns_append hrun hbefore]
  cases run using List.reverseRecOn with
  | nil =>
    have hne : before.getLast?.map Prod.fst ≠ some e.1 := by
      rw [Ne, Option.map_eq_some_iff]
      rintro ⟨a, ha, hstage⟩
      exact hbefore a ha hstage
    simp [hne]
  | append_singleton run a => simp [hrun]

/-- A stage that returns begins another run. -/
example : lastOfRuns [(.infeasible, 1), (.infeasible, 2), (.feasible, 3), (.infeasible, 4)] =
    [(.infeasible, 2), (.feasible, 3), (.infeasible, 4)] := rfl

theorem getLast?_lastOfRuns (l : List (Stage × ε)) : (lastOfRuns l).getLast? = l.getLast? := by
  cases l using List.reverseRecOn with
  | nil => rfl
  | append_singleton l e => rw [lastOfRuns_concat, List.getLast?_concat, List.getLast?_concat]

/-- Neighbours among the last entries of runs are of different stages. -/
theorem isChain_lastOfRuns (l : List (Stage × ε)) :
    (lastOfRuns l).IsChain fun a b => a.1 ≠ b.1 := by
  induction l using List.reverseRecOn with
  | nil => exact List.isChain_nil
  | append_singleton l e ih =>
    rw [lastOfRuns_concat]
    split
    next hlast =>
      -- The entry before the last one differs from it, and the new one is of its stage.
      obtain ⟨a, ha, hstage⟩ := Option.map_eq_some_iff.1 hlast
      rw [← getLast?_lastOfRuns] at ha
      obtain ⟨rest, hrest⟩ := List.getLast?_eq_some_iff.1 ha
      rw [hrest, List.isChain_append] at ih
      rw [hrest, List.dropLast_concat, List.isChain_append]
      simpa [hstage] using ih
    next hlast =>
      refine List.isChain_append.2 ⟨ih, List.isChain_singleton e, fun a ha b hb => ?_⟩
      rw [getLast?_lastOfRuns] at ha
      obtain rfl : e = b := by simpa using hb
      exact fun hstage => hlast (Option.map_eq_some_iff.2 ⟨a, ha, hstage⟩)

/-- The last entry of a stage is the last one of its last run. -/
theorem getLast?_filter_lastOfRuns (l : List (Stage × ε)) (stage : Stage) :
    ((lastOfRuns l).filter fun a => a.1 == stage).getLast? =
      (l.filter fun a => a.1 == stage).getLast? := by
  induction l using List.reverseRecOn with
  | nil => rfl
  | append_singleton l e ih =>
    rw [lastOfRuns_concat, List.filter_append, List.filter_append]
    by_cases hstage : e.1 = stage
    · simp [hstage]
    · have hnone : [e].filter (fun a => a.1 == stage) = [] := by simp [hstage]
      rw [hnone, List.append_nil, List.append_nil, ← ih]
      split
      next hlast =>
        -- What makes place for the new entry is not of the stage either.
        obtain ⟨a, ha, hsame⟩ := Option.map_eq_some_iff.1 hlast
        rw [← getLast?_lastOfRuns] at ha
        obtain ⟨rest, hrest⟩ := List.getLast?_eq_some_iff.1 ha
        simp [hrest, hsame, hstage]
      next => rfl

end Runs

/-- What is known of a history from the entries that it accepted. -/
structure Holds (h : History ε) (accepted : List (Stage × ε)) : Prop where
  entries : h.entries = if h.keepsAll then accepted else lastOfRuns accepted
  length_le : h.entries.length ≤ max h.capacity 0

namespace Holds

variable {accepted : List (Stage × ε)}

theorem getLast?_entries (hholds : h.Holds accepted) : h.entries.getLast? = accepted.getLast? := by
  rw [hholds.entries]
  split
  · rfl
  · exact getLast?_lastOfRuns accepted

theorem last?_some (hholds : h.Holds accepted) (stage : Stage) :
    h.last? (some stage) = (accepted.filter fun a => a.1 == stage).getLast? := by
  have hlast : h.last? (some stage) = (h.entries.filter fun a => a.1 == stage).getLast? := by
    rw [List.getLast?_filter, last?]
    simp [Bool.beq_comm]
  rw [hlast, hholds.entries]
  split
  · rfl
  · exact getLast?_filter_lastOfRuns accepted stage

theorem last?_none (hholds : h.Holds accepted) : h.last? none = accepted.getLast? := by
  rw [← hholds.getLast?_entries, last?, ← List.head?_reverse]
  cases h.entries.reverse <;> rfl

/-- What is known of an entry more that was accepted. -/
theorem append (hholds : h.Holds accepted) (haccepts : h.accepts e.1 = true) :
    ({ h with entries := h.remaining e.1 ++ [e] } : History ε).Holds (accepted ++ [e]) := by
  constructor
  · simp only [remaining, replaces, hholds.getLast?_entries, lastOfRuns_concat]
    rw [hholds.entries]
    cases h.keepsAll with
    | true => rfl
    | false => simp only [Bool.not_false, Bool.true_and, beq_iff_eq, Bool.false_eq_true, if_false]
  · have hlength := hholds.length_le
    simp only [List.length_append, List.length_singleton]
    unfold remaining
    cases hreplaces : h.replaces e.1 with
    | true =>
      have hne : h.entries ≠ [] := by
        intro hnil
        simp [replaces, hnil] at hreplaces
      have hpos := List.length_pos_iff.2 hne
      simp
      omega
    | false =>
      simp [accepts, hreplaces] at haccepts ⊢
      omega

end Holds

theorem attempt_eq (h : History ε) (accepted : List (Stage × ε)) (e : Stage × ε) :
    attempt (h, accepted) e =
      if h.accepts e.1 then ({ h with entries := h.remaining e.1 ++ [e] }, accepted ++ [e])
      else (h, accepted) := by
  unfold attempt
  dsimp only
  rw [append_eq]
  cases h.accepts e.1 <;> rfl

theorem attempts_concat (capacity : Int) (keepsAll : Bool) (es : List (Stage × ε))
    (e : Stage × ε) :
    attempts capacity keepsAll (es ++ [e]) = attempt (attempts capacity keepsAll es) e := by
  simp [attempts]

/-- What is known of a history after any attempts. -/
theorem holds_attempts (capacity : Int) (keepsAll : Bool) (es : List (Stage × ε)) :
    (attempts capacity keepsAll es).1.Holds (attempts capacity keepsAll es).2 ∧
      (attempts capacity keepsAll es).1.capacity = capacity ∧
      (attempts capacity keepsAll es).1.keepsAll = keepsAll := by
  induction es using List.reverseRecOn with
  | nil =>
    refine ⟨⟨?_, ?_⟩, rfl, rfl⟩
    · cases keepsAll <;> rfl
    · exact Int.le_max_right capacity 0
  | append_singleton es e ih =>
    obtain ⟨hholds, hcapacity, hkeeps⟩ := ih
    rw [attempts_concat, attempt_eq]
    split
    next haccepts => exact ⟨hholds.append haccepts, hcapacity, hkeeps⟩
    next => exact ⟨hholds, hcapacity, hkeeps⟩

/-- After any attempts to append, failed ones included, a history is no longer than its capacity,
and an attempt that fails changes nothing; it fails exactly if there is no room and no entry to
replace. A history that keeps everything holds the accepted entries. Any other one holds the last
entry of each run of accepted entries of one stage, so neighbours are of different stages, and an
entry of the stage of the last one never fails. In both cases the last entry, and the last entry of
each stage, are those that were accepted last. -/
theorem attempts_holds (capacity : Int) (keepsAll : Bool) (es : List (Stage × ε)) :
    let (h, accepted) := attempts capacity keepsAll es
    h.entries.length ≤ max capacity 0 ∧
    (∀ (e : Stage × ε) (error : Error ν), h.append e.1 e.2 = .error error →
      attempts capacity keepsAll (es ++ [e]) = (h, accepted)) ∧
    (∀ e : Stage × ε, (∃ h', (h.append e.1 e.2 : Except (Error ν) _) = .ok h') ↔
      h.entries.length < capacity ∨
        keepsAll = false ∧ h.entries.getLast?.map Prod.fst = some e.1) ∧
    (keepsAll = true → h.entries = accepted) ∧
    (keepsAll = false → h.entries = lastOfRuns accepted ∧
      (h.entries.IsChain fun a b => a.1 ≠ b.1) ∧
      ∀ e : Stage × ε, h.entries.getLast?.map Prod.fst = some e.1 →
        ∃ h', (h.append e.1 e.2 : Except (Error ν) _) = .ok h') ∧
    (∀ stage, h.last? (some stage) = (accepted.filter fun a => a.1 == stage).getLast?) ∧
    h.last? none = accepted.getLast? := by
  obtain ⟨hholds, hcapacity, hkeeps⟩ := holds_attempts capacity keepsAll es
  have hconcat := attempts_concat capacity keepsAll es
  generalize attempts capacity keepsAll es = s at hholds hcapacity hkeeps hconcat
  obtain ⟨h, accepted⟩ := s
  dsimp only at hholds hcapacity hkeeps hconcat ⊢
  have hok : ∀ e : Stage × ε, (∃ h', (h.append e.1 e.2 : Except (Error ν) _) = .ok h') ↔
      h.entries.length < capacity ∨
        keepsAll = false ∧ h.entries.getLast?.map Prod.fst = some e.1 := by
    intro e
    rw [exists_append_eq_ok, accepts_iff, hcapacity, hkeeps]
  refine ⟨hcapacity ▸ hholds.length_le, fun e error herror => ?_, hok, fun hall => ?_,
    fun hall => ⟨?_, ?_, fun e he => (hok e).2 (.inr ⟨hall, he⟩)⟩, hholds.last?_some,
    hholds.last?_none⟩
  · rw [hconcat, attempt_eq, accepts_of_append_eq_error herror]
    rfl
  · simpa [hkeeps, hall] using hholds.entries
  · simpa [hkeeps, hall] using hholds.entries
  · have hentries : h.entries = lastOfRuns accepted := by
      simpa [hkeeps, hall] using hholds.entries
    rw [hentries]
    exact isChain_lastOfRuns accepted

end History

end TrajOpt
