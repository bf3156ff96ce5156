import NoteQuery.Query.Aggregate
import NoteQuery.Value.Key

/-!
Groups: the rows whose values at some paths agree. Groups stand in the order of their first rows, and
rows in a group in the order in which they came.
-/

namespace NoteQuery
set_option autoImplicit false

/-- Rows with one key. The record holds the values at the paths in the first row. -/
structure Group where
  record : Record
  key : List Key
  first : Row
  others : List Row

namespace Group

def rows (g : Group) : List Row := g.first :: g.others

/-- The values of a row at some paths, each path once. -/
def recordOf (paths : List String) (r : Row) : Outcome Record := do
  return Record.ofList (← paths.mapM fun p => do return (p, ← r.lookup p))

/-- The group of one row. -/
def ofRow (paths : List String) (r : Row) : Outcome Group := do
  let record ← recordOf paths r
  let key ← liftM (Value.itemKeys (record.map (·.2)))
  return ⟨record, key, r, []⟩

/-- Puts the row of a new group into the first group with its key, or the group at the end. -/
def add (g : Group) : List Group → List Group
  | [] => [g]
  | h :: hs =>
    if Key.agreeAll h.key g.key then { h with others := h.others ++ g.rows } :: hs
    else h :: add g hs

/-- The groups of rows. -/
def ofRows (paths : List String) (rows : List Row) : Outcome (List Group) :=
  rows.foldlM (fun groups r => do return (← ofRow paths r).add groups) []

/-- The aggregates of a group under their names. -/
def aggregates (g : Group) (as : List Aggregate) : Outcome Record := do
  return Record.ofList (← as.mapM fun a => do return (a.name, ← a.compute g.rows))

end Group
end NoteQuery
