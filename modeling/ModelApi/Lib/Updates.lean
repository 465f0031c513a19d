import Mathlib

/-!
# Updates of separate fields

A state that is built up by a series of updates, each of one field. Where updates of different
fields commute, and an update overwrites what its field was before, the outcome depends on the last
update of each field only: neither on the order of the fields nor on earlier updates.
-/

namespace ModelApi.Lib

section Last

variable {υ φ : Type} [DecidableEq φ] (field : υ → φ)

/-- The last update of a field. -/
def lastUpdate (f : φ) (updates : List υ) : Option υ := updates.reverse.find? fun x => field x = f

/-- The updates of the other fields. -/
def others (f : φ) (updates : List υ) : List υ := updates.filter fun x => field x ≠ f

variable {field}

end Last

namespace Separate

variable {υ φ σ : Type} [DecidableEq φ] {field : υ → φ} {apply : σ → υ → σ}

end Separate

end ModelApi.Lib
