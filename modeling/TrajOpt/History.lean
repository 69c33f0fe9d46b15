import TrajOpt.Error
import TrajOpt.Event

/-!
# Histories

A history keeps what each outer iteration left, up to a capacity. Every entry belongs to a stage. A
history that does not keep everything replaces its last entry by a new one of the same stage, so
that the latest entry of each stage remains.

## Main definitions

* `History.append` - adds an entry or replaces the last one.
* `History.last?`, `History.get`, `History.slice` - the entries that are left.
-/

namespace TrajOpt

/-- Entries of stages, in order. -/
structure History (ε : Type) where
  capacity : Int
  keepsAll : Bool
  entries : List (Stage × ε)

namespace History

variable {ε ν : Type}

/-- The history without entries. -/
def empty (capacity : Int) (keepsAll : Bool) : History ε := ⟨capacity, keepsAll, []⟩

/-- The history with an entry added. -/
def append (h : History ε) (stage : Stage) (entry : ε) : Except (Error ν) (History ε) :=
  let replaces := !h.keepsAll && (h.entries.getLast?.map Prod.fst == some stage)
  if replaces then .ok { h with entries := h.entries.dropLast ++ [(stage, entry)] }
  else if h.capacity ≤ h.entries.length then .error (.logFull h.capacity)
  else .ok { h with entries := h.entries ++ [(stage, entry)] }

/-- The latest entry, or the latest one of a stage. -/
def last? (h : History ε) (stage : Option Stage) : Option (Stage × ε) :=
  h.entries.reverse.find? fun e => stage.all (· == e.1)

/-- The position that an index denotes; negative ones count from the end. -/
def position (size : Nat) (index : Int) : Int := if index < 0 then index + size else index

/-- The entry at an index. -/
def get (h : History ε) (index : Int) : Except (Error ν) (Stage × ε) :=
  let i := position h.entries.length index
  match if i < 0 then none else h.entries[i.toNat]? with
  | some e => .ok e
  | none => .error .logIndex

/-- The entries from one index to before another, where indices outside are moved to the nearest
end. -/
def slice (h : History ε) (start stop : Option Int) : List (Stage × ε) :=
  let size := h.entries.length
  let clamp (i : Int) : Nat := min (position size i).toNat size
  let a := (start.map clamp).getD 0
  let b := (stop.map clamp).getD size
  (h.entries.take b).drop a

/-- The stages of the entries. -/
def stages (h : History ε) : List Stage := h.entries.map Prod.fst

/-- The stages that occur, in the order in which they first do. -/
def distinctStages (h : History ε) : List Stage :=
  h.stages.foldl (fun seen s => if seen.contains s then seen else seen ++ [s]) []

/-- One line that describes the history. -/
def text (h : History ε) : String :=
  let size := h.entries.length
  let capacity := h.capacity
  s!"ResultsLog({size}/{capacity} entries)"

end History

end TrajOpt
