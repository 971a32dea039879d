import Mathlib

/-!
# The C bindings of the backing store

`raw/backingstore.rs` gives the `BackingStore` to C: each binding takes pointers with
lengths, checks them (`stringpiece_to_slice`), calls the store and converts what it returns,
and hands C a `CFallible`, the value or the error. A null store pointer fails its `assert!`,
a panic (`none`). The store itself, the conversions and `CFallible` are outside these
sources: the store is a structure of its calls (`BackingStore`).

* `backingstoreGetBlob_eq_ok_iff`, `backingstoreGetTree_eq_ok_iff`: a binding returns a value
  exactly when its pointers are not null and the store returns one;
* `backingstoreGetBlob_eq_error_iff`, `backingstoreGetTree_eq_error_iff`: a binding fails
  with `"string ptr is null"` on a null pointer, before the store is called, and otherwise
  with the error of the store, or `"no blob found"` when the store has no blob.
-/

namespace Eden.Backingstore

/-- The error of `stringpiece_to_slice` on a null pointer. -/
def stringPtrIsNull : String := "string ptr is null"

/-- The error of `backingstore_get_blob` when the store has no blob. -/
def noBlobFound : String := "no blob found"

/-- `stringpiece_to_slice`: the items a pointer and a length give, a null pointer being
    `none`. -/
def stringpieceToSlice {α : Type} : Option (List α) → Except String (List α)
  | none => .error stringPtrIsNull
  | some slice => .ok slice

/-- A `BackingStore` as the bindings call it: `get_blob` by path and node, and `get_tree`
    by node, converted (`try_into`) to the `Tree` handed to C. -/
structure BackingStore (Tree : Type) where
  getBlob : List UInt8 → List UInt8 → Except String (Option (List UInt8))
  getTree : List UInt8 → Except String Tree

variable {Tree : Type}

/-- `backingstore_get_blob` -/
def backingstoreGetBlob (store : Option (BackingStore Tree)) (name node : Option (List UInt8)) :
    Option (Except String (List UInt8)) :=
  store.map fun store => do
    let path ← stringpieceToSlice name
    let node ← stringpieceToSlice node
    let blob ← store.getBlob path node
    match blob with
    | some blob => pure blob
    | none => throw noBlobFound

/-- `backingstore_get_tree` -/
def backingstoreGetTree (store : Option (BackingStore Tree)) (node : Option (List UInt8)) :
    Option (Except String Tree) :=
  store.map fun store => do
    let node ← stringpieceToSlice node
    store.getTree node

@[simp] theorem stringpieceToSlice_eq_ok_iff {α : Type} (ptr : Option (List α)) (slice : List α) :
    stringpieceToSlice ptr = .ok slice ↔ ptr = some slice := by
  cases ptr <;> simp [stringpieceToSlice]

/-- A blob comes back exactly when both pointers are not null and the store has it. -/
theorem backingstoreGetBlob_eq_ok_iff (store : BackingStore Tree) (name node : Option (List UInt8))
    (blob : List UInt8) :
    backingstoreGetBlob (some store) name node = some (.ok blob) ↔
      ∃ path node', name = some path ∧ node = some node' ∧
        store.getBlob path node' = .ok (some blob) := by
  rcases node with _ | node'
  · cases name <;> simp [backingstoreGetBlob, stringpieceToSlice, bind, Except.bind]
  rcases name with _ | path
  · simp [backingstoreGetBlob, stringpieceToSlice, bind, Except.bind]
  · rcases h : store.getBlob path node' with e | _ | b <;>
      simp [backingstoreGetBlob, stringpieceToSlice, bind, Except.bind, h, pure, Except.pure,
        throw, throwThe, MonadExceptOf.throw]

/-- A tree comes back exactly when the node pointer is not null and the store returns it. -/
theorem backingstoreGetTree_eq_ok_iff (store : BackingStore Tree) (node : Option (List UInt8))
    (tree : Tree) :
    backingstoreGetTree (some store) node = some (.ok tree) ↔
      ∃ node', node = some node' ∧ store.getTree node' = .ok tree := by
  rcases node with _ | node' <;> simp [backingstoreGetTree, stringpieceToSlice, bind, Except.bind]

/-- A blob binding fails with `"string ptr is null"` when a pointer is null, before the store
    is called; otherwise with the error of the store, or with `"no blob found"` when the
    store has no blob. -/
theorem backingstoreGetBlob_eq_error_iff (store : BackingStore Tree)
    (name node : Option (List UInt8)) (e : String) :
    backingstoreGetBlob (some store) name node = some (.error e) ↔
      ((name = none ∨ node = none) ∧ e = stringPtrIsNull) ∨
        ∃ path node', name = some path ∧ node = some node' ∧
          (store.getBlob path node' = .error e ∨
            store.getBlob path node' = .ok none ∧ e = noBlobFound) := by
  rcases node with _ | node'
  · cases name <;> simp [backingstoreGetBlob, stringpieceToSlice, bind, Except.bind, eq_comm]
  rcases name with _ | path
  · simp [backingstoreGetBlob, stringpieceToSlice, bind, Except.bind, eq_comm]
  · rcases h : store.getBlob path node' with e' | _ | b <;>
      simp [backingstoreGetBlob, stringpieceToSlice, bind, Except.bind, h, pure, Except.pure,
        throw, throwThe, MonadExceptOf.throw, eq_comm]

/-- A tree binding fails with `"string ptr is null"` when the node pointer is null, before the
    store is called, and otherwise with the error of the store. -/
theorem backingstoreGetTree_eq_error_iff (store : BackingStore Tree) (node : Option (List UInt8))
    (e : String) :
    backingstoreGetTree (some store) node = some (.error e) ↔
      (node = none ∧ e = stringPtrIsNull) ∨
        ∃ node', node = some node' ∧ store.getTree node' = .error e := by
  rcases node with _ | node' <;>
    simp [backingstoreGetTree, stringpieceToSlice, bind, Except.bind, eq_comm]

end Eden.Backingstore
