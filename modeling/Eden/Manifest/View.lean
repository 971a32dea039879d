import Eden.Manifest.Tree

/-!
# Views

What a tree shows to `get` and `insert`: at every path, a file, a directory, nothing (a
directory on the way lacks the next component), or the error that stops the walk there. A
view is the abstract state of a tree, and `get` and `insert` are operations on views
(`View.get`, `View.insert`) that the walks of `Link.get` and `Link.insert` implement:

* `get_fst`, `insert_fst`: the answers of `get` and `insert` are read off the view;
* `view_get_snd`: the cells a `get` fills leave the view as it was;
* `view_insert_snd`: the view after an `insert` is `View.insert` of the view before, the
  view as it was after a failure, and after a success the file at its path, the
  directories above it and the view as it was beside it (`View.overlay`).
-/

namespace Eden.Manifest

/-- What a path leads to: a file, or a directory, which `insert` replaces by a file only
    when it is an empty ephemeral one, a `placeholder` as `or_insert_with` makes them. -/
inductive Kind (Node FileType : Type) where
  | file (fileMetadata : FileMetadata Node FileType)
  | directory (placeholder : Bool)
  deriving DecidableEq

/-- What every path leads to; `none` where a directory on the way lacks the next
    component. -/
abbrev View (K Node FileType : Type) := List K → Except String (Option (Kind Node FileType))

variable {K Node FileType E : Type} [LinearOrder K]

namespace View

variable (v : View K Node FileType)

/-- The answer of `get` at `path`, read off the view. -/
def get (path : List K) : Except String (Option (FileMetadata Node FileType)) :=
  match v path with
  | .error e => .error e
  | .ok none => .ok none
  | .ok (some (.file fileMetadata)) => .ok (some fileMetadata)
  | .ok (some (.directory _)) => .error directoryWhereFileExpected

/-- The answer of `insert` at `path`: it fails where the walk stops, and on a directory that
    is not a placeholder. -/
def insertResult (path : List K) : Except String Unit :=
  match v path with
  | .error e => .error e
  | .ok (some (.directory false)) => .error metadataOnDirectory
  | .ok _ => .ok ()

/-- The view once the file `fileMetadata` is set at `path`: the file at `path`, a file in the
    way below it, directories above it, and the view as it was beside it. -/
def overlay (path : List K) (fileMetadata : FileMetadata Node FileType) :
    View K Node FileType := fun q =>
  if q = path then .ok (some (.file fileMetadata))
  else if path <+: q then .error fileWhereDirectoryExpected
  else if q <+: path then .ok (some (.directory false))
  else v q

/-- `insert` on views: its answer, and the view after it. -/
def insert (path : List K) (fileMetadata : FileMetadata Node FileType) :
    Except String Unit × View K Node FileType :=
  match v.insertResult path with
  | .ok () => (.ok (), v.overlay path fileMetadata)
  | .error e => (.error e, v)

theorem overlay_self (path : List K) (fileMetadata : FileMetadata Node FileType) :
    v.overlay path fileMetadata path = .ok (some (.file fileMetadata)) := by
  simp [overlay]

/-- Beside the path of the file, the view is as it was. -/
theorem overlay_of_not_prefix {path q : List K} (fileMetadata : FileMetadata Node FileType)
    (h₁ : ¬q <+: path) (h₂ : ¬path <+: q) : v.overlay path fileMetadata q = v q := by
  have hne : q ≠ path := fun h => h₁ (h ▸ List.prefix_refl q)
  simp [overlay, hne, h₁, h₂]

/-- An overlay does not read the view on the prefixes of its path. -/
theorem overlay_congr {w : View K Node FileType} {path : List K}
    (h : ∀ q, ¬q <+: path → v q = w q) (fileMetadata : FileMetadata Node FileType) :
    v.overlay path fileMetadata = w.overlay path fileMetadata := by
  funext q
  by_cases hq : q <+: path
  · simp only [overlay]; split_ifs <;> rfl
  · simp only [overlay, h q hq]

@[simp] theorem overlay_cons_nil (c : K) (path : List K)
    (fileMetadata : FileMetadata Node FileType) :
    v.overlay (c :: path) fileMetadata [] = .ok (some (.directory false)) := by
  simp [overlay]

@[simp] theorem overlay_nil_cons (c : K) (q : List K) (fileMetadata : FileMetadata Node FileType) :
    v.overlay [] fileMetadata (c :: q) = .error fileWhereDirectoryExpected := by
  simp [overlay]

/-- Below a first component, an overlay is the overlay of the view below it. -/
theorem overlay_cons_cons (c : K) (path q : List K) (fileMetadata : FileMetadata Node FileType) :
    v.overlay (c :: path) fileMetadata (c :: q) =
      View.overlay (fun q => v (c :: q)) path fileMetadata q := by
  simp [overlay, List.prefix_cons_inj]

theorem overlay_cons_of_ne {c c' : K} (hc : c ≠ c') (path q : List K)
    (fileMetadata : FileMetadata Node FileType) :
    v.overlay (c :: path) fileMetadata (c' :: q) = v (c' :: q) :=
  overlay_of_not_prefix v fileMetadata (by simp [List.cons_prefix_cons, Ne.symm hc])
    (by simp [List.cons_prefix_cons, hc])

end View

namespace Link

/-- The kind of a node. -/
def kind : Link K Node FileType → Kind Node FileType
  | .leaf fileMetadata => .file fileMetadata
  | .ephemeral links => .directory links.isEmpty
  | .durable _ _ => .directory false

/-- The view of the node `l` at `parentPath`: the walk of `get` and `insert`, down each
    path, reading the cell of a durable node or else the store. -/
def view (store : Store K Node FileType E) (parentPath : List K) (l : Link K Node FileType) :
    List K → Except String (Option (Kind Node FileType))
  | [] => .ok (some l.kind)
  | component :: path =>
    match l with
    | .leaf _ => .error fileWhereDirectoryExpected
    | .ephemeral links =>
      match BTreeMap.get links component with
      | none => .ok none
      | some child => child.view store (parentPath ++ [component]) path
    | .durable node cell =>
      match getLinks store parentPath node cell with
      | .error e => .error e
      | .ok links =>
        match BTreeMap.get links component with
        | none => .ok none
        | some child => child.view store (parentPath ++ [component]) path

variable (store : Store K Node FileType E)

@[simp] theorem view_nil (P : List K) (l : Link K Node FileType) :
    l.view store P [] = .ok (some l.kind) := rfl

/-- The view of an ephemeral directory below itself. -/
theorem view_ephemeral_cons (P : List K) (links : Links K Node FileType) (c : K)
    (path : List K) :
    (Link.ephemeral links).view store P (c :: path) =
      match BTreeMap.get links c with
      | none => .ok none
      | some child => child.view store (P ++ [c]) path := rfl

/-- A durable node is seen through what `getLinks` reads. -/
theorem view_durable_cons (P : List K) (node : Node) (cell) (c : K) (path : List K) :
    (Link.durable node cell).view store P (c :: path) =
      match getLinks store P node cell with
      | .error e => .error e
      | .ok links => (Link.ephemeral links).view store P (c :: path) := by
  simp only [view]

/-- The answer of `get` is read off the view. -/
theorem get_fst (P : List K) (l : Link K Node FileType) (path : List K) :
    (l.get store P path).1 = View.get (l.view store P) path := by
  induction path generalizing P l with
  | nil => cases l <;> rfl
  | cons c path ih =>
    cases l with
    | leaf => rfl
    | ephemeral links =>
      rcases h : BTreeMap.get links c with _ | child <;> simp [get, View.get, view, h, ih]
    | durable node cell =>
      rcases hl : getLinks store P node cell with e | links
      · simp [get, View.get, view, hl]
      · rcases h : BTreeMap.get links c with _ | child <;> simp [get, View.get, view, hl, h, ih]

theorem kind_ephemeral_insert (links : Links K Node FileType) (c : K) (x : Link K Node FileType) :
    (Link.ephemeral (BTreeMap.insert links c x)).kind = .directory false := by
  simp [kind, BTreeMap.insert_ne_nil]

theorem kind_ephemeral_of_get {links : Links K Node FileType} {c : K} {x : Link K Node FileType}
    (h : BTreeMap.get links c = some x) : (Link.ephemeral links).kind = .directory false := by
  simp [kind, BTreeMap.ne_nil_of_get_eq_some h]

/-- Replacing a child by one that looks the same leaves a directory looking the same. -/
theorem view_ephemeral_insert {links : Links K Node FileType} {c : K} {child child' : Link K Node FileType}
    {P : List K} (h : BTreeMap.get links c = some child)
    (hv : child'.view store (P ++ [c]) = child.view store (P ++ [c])) :
    (Link.ephemeral (BTreeMap.insert links c child')).view store P =
      (Link.ephemeral links).view store P := by
  funext q
  cases q with
  | nil => simp [kind_ephemeral_insert, kind_ephemeral_of_get h]
  | cons c' q =>
    simp only [view_ephemeral_cons, BTreeMap.get_insert]
    by_cases hc : c = c'
    · subst hc; simp [h, hv]
    · simp [hc]

/-- Below itself, a durable node looks like the ephemeral directory of what `getLinks`
    reads. -/
theorem view_durable_of_getLinks {P : List K} {node : Node} {cell} {links : Links K Node FileType}
    (hl : getLinks store P node cell = .ok links) (c : K) (q : List K) :
    (Link.durable node cell).view store P (c :: q) = (Link.ephemeral links).view store P (c :: q) := by
  rw [view_durable_cons, hl]

/-- Below itself, a durable node already read looks like the ephemeral directory of its
    cell. -/
theorem view_durable_ok (P : List K) (node : Node) (links : Links K Node FileType) (c : K)
    (q : List K) :
    (Link.durable node (some (.ok links))).view store P (c :: q) =
      (Link.ephemeral links).view store P (c :: q) :=
  view_durable_of_getLinks store (getLinks_some store P node _) c q

/-- The answer of `get` is read off the view. -/
theorem view_get_snd (P : List K) (l : Link K Node FileType) (path : List K) :
    (l.get store P path).2.view store P = l.view store P := by
  induction path generalizing P l with
  | nil => cases l <;> rfl
  | cons c path ih =>
    cases l with
    | leaf => rfl
    | ephemeral links =>
      rcases h : BTreeMap.get links c with _ | child
      · simp [get, h]
      · simpa [get, h] using view_ephemeral_insert store h (ih _ child)
    | durable node cell =>
      rcases hl : getLinks store P node cell with e | links
      · funext q
        cases q with
        | nil => simp [get, hl, kind]
        | cons c' q => simp [get, hl, view_durable_cons]
      · rcases h : BTreeMap.get links c with _ | child
        · funext q
          cases q with
          | nil => simp [get, hl, h, kind]
          | cons c' q => simp [get, hl, h, view_durable_cons]
        · funext q
          cases q with
          | nil => simp [get, hl, h, kind]
          | cons c' q =>
            simp only [get, hl, h]
            rw [view_durable_cons, view_durable_cons, getLinks_some, hl]
            exact congrFun (view_ephemeral_insert store h (ih _ child)) _

/-- `insert` in a directory goes through the ephemeral copy of its children. -/
theorem insert_durable_cons (fileMetadata : FileMetadata Node FileType) (P : List K)
    (node : Node) (cell) (c : K) (path : List K) :
    (Link.durable node cell).insert store fileMetadata P (c :: path) =
      match getLinks store P node cell with
      | .error e => (.error e, .durable node (some (.error e)))
      | .ok links => (Link.ephemeral links).insert store fileMetadata P (c :: path) := by
  rcases h : getLinks store P node cell <;> simp [insert, h]

/-- A new empty directory takes a file anywhere below it. -/
theorem insertResult_placeholder (P path : List K) :
    View.insertResult ((Link.ephemeral [] : Link K Node FileType).view store P) path = .ok () := by
  cases path <;> rfl

/-- The answer of `insert` is read off the view. -/
theorem insert_fst (fileMetadata : FileMetadata Node FileType) (P : List K)
    (l : Link K Node FileType) (path : List K) :
    (l.insert store fileMetadata P path).1 = View.insertResult (l.view store P) path := by
  induction path generalizing P l with
  | nil =>
    cases l with
    | ephemeral links => cases h : links.isEmpty <;> simp [insert, View.insertResult, kind, h]
    | _ => rfl
  | cons c path ih =>
    have eph : ∀ links : Links K Node FileType,
        ((Link.ephemeral links).insert store fileMetadata P (c :: path)).1 =
          View.insertResult ((Link.ephemeral links).view store P) (c :: path) := by
      intro links
      rcases h : BTreeMap.get links c with _ | child
      · simpa [insert, entryOrEmpty, h, View.insertResult, view_ephemeral_cons] using
          (ih (P ++ [c]) (.ephemeral [])).trans (insertResult_placeholder store _ path)
      · simpa [insert, entryOrEmpty, h, View.insertResult, view_ephemeral_cons] using
          ih (P ++ [c]) child
    cases l with
    | leaf => rfl
    | ephemeral links => exact eph links
    | durable node cell =>
      rw [insert_durable_cons]
      rcases hl : getLinks store P node cell with e | links
      · simp [View.insertResult, view_durable_cons, hl]
      · simp only [View.insertResult, view_durable_of_getLinks store hl]
        exact eph links

/-- A new empty directory takes a file anywhere below it. -/
theorem insert_placeholder_fst (fileMetadata : FileMetadata Node FileType) (P path : List K) :
    ((Link.ephemeral [] : Link K Node FileType).insert store fileMetadata P path).1 = .ok () :=
  (insert_fst store fileMetadata P _ path).trans (insertResult_placeholder store P path)

/-- A failed `insert` leaves the view as it was: the durable nodes it made ephemeral on its
    way hold what they read, and it adds no directory before it fails. -/
theorem view_insert_snd_of_error (fileMetadata : FileMetadata Node FileType) (P : List K)
    (l : Link K Node FileType) (path : List K) {e : String}
    (he : (l.insert store fileMetadata P path).1 = .error e) :
    (l.insert store fileMetadata P path).2.view store P = l.view store P := by
  induction path generalizing P l with
  | nil =>
    cases l with
    | ephemeral links => cases h : links.isEmpty <;> simp_all [insert]
    | _ => simp_all [insert]
  | cons c path ih =>
    -- The child the walk enters exists: below a new directory, `insert` cannot fail.
    have eph : ∀ links : Links K Node FileType,
        ((Link.ephemeral links).insert store fileMetadata P (c :: path)).1 = .error e →
        ((Link.ephemeral links).insert store fileMetadata P (c :: path)).2.view store P =
          (Link.ephemeral links).view store P := by
      intro links he
      rcases h : BTreeMap.get links c with _ | child
      · simp [insert, entryOrEmpty, h, insert_placeholder_fst] at he
      · simp only [insert, entryOrEmpty, h, Option.getD_some] at he ⊢
        exact view_ephemeral_insert store h (ih _ child he)
    cases l with
    | leaf => rfl
    | ephemeral links => exact eph links he
    | durable node cell =>
      rw [insert_durable_cons] at he ⊢
      rcases hl : getLinks store P node cell with e' | links
      · funext q
        cases q with
        | nil => rfl
        | cons c' q => simp [view_durable_cons, hl]
      · rw [hl] at he
        simp only [hl, eph links he]
        funext q
        cases q with
        | nil =>
          rcases h : BTreeMap.get links c with _ | child
          · simp [insert, entryOrEmpty, h, insert_placeholder_fst] at he
          · simp [kind, BTreeMap.ne_nil_of_get_eq_some h]
        | cons c' q => rw [view_durable_of_getLinks store hl]

/-- After a successful `insert`, the view is the overlay of the file on the view before. -/
theorem view_insert_snd_of_ok (fileMetadata : FileMetadata Node FileType) (P : List K)
    (l : Link K Node FileType) (path : List K)
    (hok : (l.insert store fileMetadata P path).1 = .ok ()) :
    (l.insert store fileMetadata P path).2.view store P =
      View.overlay (l.view store P) path fileMetadata := by
  induction path generalizing P l with
  | nil =>
    have leaf : (l.insert store fileMetadata P []).2 = .leaf fileMetadata := by
      cases l with
      | ephemeral links => cases h : links.isEmpty <;> simp_all [insert]
      | _ => simp_all [insert]
    rw [leaf]
    funext q
    cases q <;> simp [View.overlay, view, kind]
  | cons c path ih =>
    have eph : ∀ links : Links K Node FileType,
        ((Link.ephemeral links).insert store fileMetadata P (c :: path)).1 = .ok () →
        ((Link.ephemeral links).insert store fileMetadata P (c :: path)).2.view store P =
          View.overlay ((Link.ephemeral links).view store P) (c :: path) fileMetadata := by
      intro links hok
      simp only [insert] at hok ⊢
      funext q
      cases q with
      | nil => simp [kind_ephemeral_insert]
      | cons c' q =>
        rw [view_ephemeral_cons, BTreeMap.get_insert]
        by_cases hc : c = c'
        · rw [if_pos hc]
          subst hc
          dsimp only
          rw [ih _ _ hok, View.overlay_cons_cons]
          -- The child entered is the one there, or a new empty directory, which looks
          -- like a missing one below itself.
          refine congrFun (View.overlay_congr _ (fun q hq => ?_) fileMetadata) q
          rcases h : BTreeMap.get links c with _ | child
          · cases q with
            | nil => exact absurd List.nil_prefix hq
            | cons d q => simp [entryOrEmpty, h, view_ephemeral_cons]
          · simp [entryOrEmpty, h, view_ephemeral_cons]
        · rw [if_neg hc, View.overlay_cons_of_ne _ hc, view_ephemeral_cons]
    cases l with
    | leaf => simp [insert] at hok
    | ephemeral links => exact eph links hok
    | durable node cell =>
      rw [insert_durable_cons] at hok ⊢
      rcases hl : getLinks store P node cell with e | links
      · simp [hl] at hok
      · simp only [hl] at hok ⊢
        rw [eph links hok]
        refine View.overlay_congr _ (fun q hq => ?_) fileMetadata
        cases q with
        | nil => exact absurd List.nil_prefix hq
        | cons c' q => exact (view_durable_of_getLinks store hl c' q).symm

/-- `insert` implements `View.insert`: the view after it is the view that `View.insert`
    gives. -/
theorem view_insert_snd (fileMetadata : FileMetadata Node FileType) (P : List K)
    (l : Link K Node FileType) (path : List K) :
    (l.insert store fileMetadata P path).2.view store P =
      (View.insert (l.view store P) path fileMetadata).2 := by
  rcases h : (l.insert store fileMetadata P path).1 with e | u
  · rw [view_insert_snd_of_error store fileMetadata P l path h]
    simp [View.insert, ← insert_fst store fileMetadata P l path, h]
  · rw [view_insert_snd_of_ok store fileMetadata P l path h]
    simp [View.insert, ← insert_fst store fileMetadata P l path, h]

end Link

end Eden.Manifest
