/-! # Nesting limits

    How deeply a program or a reply may be nested, stage by stage.  Every stage goes down its
    input by calls, and only so many calls may be open at once.  The stages differ in how many
    calls they make on the way from one level to the next.

    A form that is built from `forms` levels of groups is at most one level deeper than these.
    Building makes the most calls to a level, so such a form stays below `scripts` and below
    `census`: what is read can be written and counted.
-/

namespace SexpScript.Nesting

/-- Calls that may be open at once. -/
def calls : Nat := 1000

/-- Calls that are kept for whoever asks for a stage. -/
def reserve : Nat := 40

/-- Levels that a stage can go down when each takes so many calls. -/
def levels (each : Nat) : Nat := (calls - reserve) / each

/-- Groups that may be open at once while brackets are read.  A group is one call. -/
def brackets : Nat := levels 1

/-- Levels of groups from which a form is built.  A level is four calls: for the group, for its
    kind of form, for the items behind its head and for one of these. -/
def forms : Nat := levels 4

/-- Levels of forms for which a script is written.  A level is three calls: for the form, for
    its kind and for the forms in it. -/
def scripts : Nat := levels 3

/-- Levels of forms that are counted.  A level is one call. -/
def census : Nat := levels 1

/-- Levels of arrays and objects that are read from a reply.  A level is one call. -/
def replies : Nat := levels 1

/-! ### The order of the stages -/

/-- A stage with fewer calls to a level goes down more levels, if there are calls enough to tell
    the two apart. -/
theorem levels_lt_levels {few many : Nat} (hfew : 0 < few) (hless : few < many)
    (hroom : few * many ≤ calls - reserve) : levels many < levels few := by
  unfold levels
  have hdown : few ≤ (calls - reserve) / many :=
    (Nat.le_div_iff_mul_le (Nat.zero_lt_of_lt hless)).mpr hroom
  have hcalls : (calls - reserve) / many * many ≤ calls - reserve := Nat.div_mul_le_self _ _
  -- Every level down gives back a call, and at least `few` of them make one level more.
  apply (Nat.le_div_iff_mul_le hfew).mpr
  calc ((calls - reserve) / many + 1) * few
      = (calls - reserve) / many * few + few := Nat.succ_mul _ _
    _ ≤ (calls - reserve) / many * few + (calls - reserve) / many := Nat.add_le_add_left hdown _
    _ = (calls - reserve) / many * (few + 1) := (Nat.mul_succ _ _).symm
    _ ≤ (calls - reserve) / many * many := Nat.mul_le_mul_left _ hless
    _ ≤ calls - reserve := hcalls

theorem forms_lt_brackets : forms < brackets :=
  levels_lt_levels (by decide) (by decide) (by decide)

theorem forms_lt_scripts : forms < scripts :=
  levels_lt_levels (by decide) (by decide) (by decide)

theorem forms_lt_census : forms < census :=
  levels_lt_levels (by decide) (by decide) (by decide)

end SexpScript.Nesting
