import Eden.Manifest.Insert

/-!
# Runs of calls

A tree answers a run of `get` and `insert` calls (`Tree.run`) as its view does
(`View.run`), where a `get` leaves the view as it is and an `insert` changes it by
`View.insert`:

* `run_eq_view_run`: every run of calls on any tree gets the answers that the same run gets on
  the view of the tree, whatever nodes the store holds and whichever cells are filled. The
  walks of `Link.get` and `Link.insert`, the cells they fill and the durable nodes `insert`
  makes ephemeral on the way are never seen.
-/

namespace Eden.Manifest

variable {K Node FileType E : Type} [LinearOrder K]

/-- A call on a tree. -/
inductive Op (K Node FileType : Type) where
  | get (path : List K)
  | insert (path : List K) (fileMetadata : FileMetadata Node FileType)

/-- The answer to a call. -/
inductive Reply (Node FileType : Type) where
  | get (result : Except String (Option (FileMetadata Node FileType)))
  | insert (result : Except String Unit)

/-- The answers of a tree to a run of calls, each call made on the tree the one before left. -/
def Tree.run (t : Tree K Node FileType E) : List (Op K Node FileType) → List (Reply Node FileType)
  | [] => []
  | .get path :: ops => .get (t.get path).1 :: (t.get path).2.run ops
  | .insert path fileMetadata :: ops =>
    .insert (t.insert path fileMetadata).1 :: (t.insert path fileMetadata).2.run ops

/-- The answers of a view to a run of calls. -/
def View.run (v : View K Node FileType) : List (Op K Node FileType) → List (Reply Node FileType)
  | [] => []
  | .get path :: ops => .get (v.get path) :: v.run ops
  | .insert path fileMetadata :: ops =>
    .insert (v.insertResult path) :: (v.insert path fileMetadata).2.run ops

/-- A tree refines its view: on every run of calls it gives the answers of its view. -/
theorem Tree.run_eq_view_run (t : Tree K Node FileType E) (ops : List (Op K Node FileType)) :
    t.run ops = t.view.run ops := by
  induction ops generalizing t with
  | nil => rfl
  | cons op ops ih =>
    cases op with
    | get path => rw [run, View.run, get_fst, ih, view_get_snd]
    | insert path fileMetadata => rw [run, View.run, insert_fst, ih, view_insert_snd]

end Eden.Manifest
