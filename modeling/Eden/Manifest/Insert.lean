import Eden.Manifest.View

/-!
# Inserting into a tree

The operations of a tree (`Tree.get`, `Tree.insert`) through its view (`Tree.view`), and the
trees that runs of them reach from `Tree::ephemeral` and `Tree::durable` (`Reachable`).

* `insert_get`: after a successful insert the file is there, and every path beside it reads
  as before;
* `get_insert_of_prefix`: below it, `get` fails on a file where a directory was expected,
  and above it on a directory where a file was expected;
* `get_insert_of_error`: after a failed insert every path reads as before;
* `insert_error_iff`: an insert fails exactly where a `get` fails, except on an empty
  ephemeral directory, which it replaces by the file;
* `Reachable.view_ne_placeholder`: in a reachable tree only the root can be such a
  directory, an empty root as `Tree::ephemeral` makes it (`insert_empty_root`);
* `insert_error_iff_get_error`: so in a reachable tree an insert fails exactly where a `get`
  fails, the empty path of an empty root apart.

Two inserts one after the other, on every tree:

* `insert_comm`: at paths neither of which lies on the way to the other, in either order, the
  second answers as it would alone and the trees after both show one view;
* `insert_insert_self`: at one path, after a first that succeeds, the second succeeds and the
  last write wins.
-/

namespace Eden.Manifest

variable {K Node FileType E : Type} [LinearOrder K]

/-- Whether a view shows a placeholder at `q`: an empty ephemeral directory. -/
def View.IsPlaceholder (v : View K Node FileType) (q : List K) : Prop :=
  v q = .ok (some (.directory true))

/-- A view shows no placeholder below the root. -/
def View.NoPlaceholderBelowRoot (v : View K Node FileType) : Prop :=
  ∀ q, q ≠ [] → ¬v.IsPlaceholder q

/-- `View.insert` adds no placeholder: the directories above the file it sets are not
    empty. -/
theorem View.noPlaceholderBelowRoot_insert {v : View K Node FileType}
    (hv : v.NoPlaceholderBelowRoot) (path : List K) (fileMetadata : FileMetadata Node FileType) :
    (v.insert path fileMetadata).2.NoPlaceholderBelowRoot := by
  intro q hq
  rcases h : v.insertResult path with e | u
  · simpa [View.insert, h] using hv q hq
  · simp only [View.insert, h, View.IsPlaceholder, View.overlay]
    split_ifs
    · simp
    · simp
    · simp
    · exact hv q hq

namespace Link

omit [LinearOrder K] in
theorem kind_eq_placeholder (l : Link K Node FileType) :
    l.kind = .directory true ↔ l = .ephemeral [] := by
  cases l <;> simp [kind]

/-- Below a durable node not read yet there is no placeholder: the store holds leaves and
    durable nodes only. -/
theorem view_durable_not_placeholder (store : Store K Node FileType E) (P : List K)
    (node : Node) (q : List K) : ¬View.IsPlaceholder ((Link.durable node none).view store P) q := by
  induction q generalizing P node with
  | nil => simp [View.IsPlaceholder, kind]
  | cons c q ih =>
    rw [View.IsPlaceholder, view_durable_cons]
    rcases hl : getLinks store P node none with e | links
    · simp
    · rcases h : BTreeMap.get links c with _ | x
      · simp [view_ephemeral_cons, h]
      · obtain ⟨entry, -, hentry⟩ := getLinks_none_eq_ok hl
        obtain ⟨element, rfl⟩ := storeEntryToLinks_get hentry h
        simp only [view_ephemeral_cons, h]
        unfold Element.toLink
        split
        · cases q <;> simp [view, kind]
        · exact ih _ _

end Link

namespace Tree

/-- The view of a tree, from its root. -/
def view (t : Tree K Node FileType E) : View K Node FileType :=
  t.root.view t.store []

theorem get_fst (t : Tree K Node FileType E) (path : List K) :
    (t.get path).1 = t.view.get path :=
  Link.get_fst t.store [] t.root path

@[simp] theorem view_get_snd (t : Tree K Node FileType E) (path : List K) :
    (t.get path).2.view = t.view :=
  Link.view_get_snd t.store [] t.root path

theorem insert_fst (t : Tree K Node FileType E) (path : List K)
    (fileMetadata : FileMetadata Node FileType) :
    (t.insert path fileMetadata).1 = t.view.insertResult path :=
  Link.insert_fst t.store fileMetadata [] t.root path

theorem view_insert_snd (t : Tree K Node FileType E) (path : List K)
    (fileMetadata : FileMetadata Node FileType) :
    (t.insert path fileMetadata).2.view = (t.view.insert path fileMetadata).2 :=
  Link.view_insert_snd t.store fileMetadata [] t.root path

/-- After a successful insert of `fileMetadata` at `p`, `get p` finds it, and every path `q`
    beside `p` (neither a prefix of the other) reads as it did before. -/
theorem insert_get (t : Tree K Node FileType E) (p : List K)
    (fileMetadata : FileMetadata Node FileType) (hok : (t.insert p fileMetadata).1 = .ok ()) :
    ((t.insert p fileMetadata).2.get p).1 = .ok (some fileMetadata) ∧
      ∀ q, ¬q <+: p → ¬p <+: q → ((t.insert p fileMetadata).2.get q).1 = (t.get q).1 := by
  have hv : (t.insert p fileMetadata).2.view = t.view.overlay p fileMetadata := by
    rw [view_insert_snd, View.insert, ← insert_fst, hok]
  refine ⟨?_, fun q h₁ h₂ => ?_⟩
  · rw [get_fst, hv, View.get, View.overlay_self]
  · rw [get_fst, get_fst, hv, View.get, View.get, View.overlay_of_not_prefix _ _ h₁ h₂]

/-- A store holding nothing, over natural numbers as components and nodes. -/
def emptyStore : Store ℕ ℕ Unit Unit :=
  ⟨fun _ _ => .error "not found", fun _ => [], fun _ => .ok ()⟩

theorem insert_get_ephemeral :
    ((Tree.ephemeral emptyStore).insert [1, 2] ⟨3, ()⟩).1 = .ok () ∧
      (((Tree.ephemeral emptyStore).insert [1, 2] ⟨3, ()⟩).2.get [1, 2]).1 = .ok (some ⟨3, ()⟩) ∧
      ∀ q, ¬q <+: [1, 2] → ¬[1, 2] <+: q →
        (((Tree.ephemeral emptyStore).insert [1, 2] ⟨3, ()⟩).2.get q).1 =
          ((Tree.ephemeral emptyStore).get q).1 :=
  ⟨rfl, insert_get _ _ _ rfl⟩

/-- After a successful insert at `p`, `get` fails on every path through the new file, which
    is a file where a directory was expected, and on every path above it, which is a directory
    where a file was expected. -/
theorem get_insert_of_prefix (t : Tree K Node FileType E) {p : List K}
    {fileMetadata : FileMetadata Node FileType} (hok : (t.insert p fileMetadata).1 = .ok ())
    {q : List K} (hq : q ≠ p) :
    (p <+: q → ((t.insert p fileMetadata).2.get q).1 = .error fileWhereDirectoryExpected) ∧
      (q <+: p → ((t.insert p fileMetadata).2.get q).1 = .error directoryWhereFileExpected) := by
  have hv : (t.insert p fileMetadata).2.view = t.view.overlay p fileMetadata := by
    rw [view_insert_snd, View.insert, ← insert_fst, hok]
  refine ⟨fun hpq => ?_, fun hqp => ?_⟩
  · simp [get_fst, hv, View.get, View.overlay, hq, hpq]
  · have hpq : ¬p <+: q := fun hpq =>
      hq (hqp.sublist.eq_of_length (le_antisymm hqp.length_le hpq.length_le))
    simp [get_fst, hv, View.get, View.overlay, hq, hpq, hqp]

theorem get_insert_of_prefix_ephemeral :
    ((Tree.ephemeral emptyStore).insert [1] ⟨3, ()⟩).1 = .ok () ∧ ([1, 2] : List ℕ) ≠ [1] ∧
      (([1] : List ℕ) <+: [1, 2] → (((Tree.ephemeral emptyStore).insert [1] ⟨3, ()⟩).2.get [1, 2]).1 =
        .error fileWhereDirectoryExpected) ∧
      (([1, 2] : List ℕ) <+: [1] → (((Tree.ephemeral emptyStore).insert [1] ⟨3, ()⟩).2.get [1, 2]).1 =
        .error directoryWhereFileExpected) :=
  have hok : ((Tree.ephemeral emptyStore).insert [1] ⟨3, ()⟩).1 = .ok () := rfl
  ⟨hok, by decide, get_insert_of_prefix _ hok (by decide)⟩

/-- After a failed insert every path reads as it did before. -/
theorem get_insert_of_error (t : Tree K Node FileType E) (p : List K)
    (fileMetadata : FileMetadata Node FileType) {e : String}
    (he : (t.insert p fileMetadata).1 = .error e) (q : List K) :
    ((t.insert p fileMetadata).2.get q).1 = (t.get q).1 := by
  rw [get_fst, get_fst, view_insert_snd, View.insert, ← insert_fst, he]

theorem get_insert_of_error_below_file :
    (((Tree.ephemeral emptyStore).insert [1] ⟨3, ()⟩).2.insert [1, 2] ⟨4, ()⟩).1 =
        .error fileWhereDirectoryExpected ∧
      ((((Tree.ephemeral emptyStore).insert [1] ⟨3, ()⟩).2.insert [1, 2] ⟨4, ()⟩).2.get [1]).1 =
        (((Tree.ephemeral emptyStore).insert [1] ⟨3, ()⟩).2.get [1]).1 :=
  have he : (((Tree.ephemeral emptyStore).insert [1] ⟨3, ()⟩).2.insert [1, 2] ⟨4, ()⟩).1 =
      .error fileWhereDirectoryExpected := rfl
  ⟨he, get_insert_of_error _ _ _ he _⟩

/-- An insert fails exactly where a `get` fails, except on an empty ephemeral directory,
    which it replaces by the file. -/
theorem insert_error_iff (t : Tree K Node FileType E) (p : List K)
    (fileMetadata : FileMetadata Node FileType) :
    (∃ e, (t.insert p fileMetadata).1 = .error e) ↔
      (∃ e, (t.get p).1 = .error e) ∧ ¬t.view.IsPlaceholder p := by
  rw [insert_fst, get_fst]
  simp only [View.insertResult, View.get, View.IsPlaceholder]
  rcases t.view p with e | _ | _ | _ | _ <;> simp

/-- On the empty path, an insert into the empty root of `Tree::ephemeral` succeeds where
    `get` fails, and the root becomes a file. -/
theorem insert_empty_root (store : Store K Node FileType E)
    (fileMetadata : FileMetadata Node FileType) :
    ((Tree.ephemeral store).get []).1 = .error directoryWhereFileExpected ∧
      ((Tree.ephemeral store).insert [] fileMetadata).1 = .ok () ∧
      ((Tree.ephemeral store).insert [] fileMetadata).2.root = .leaf fileMetadata :=
  ⟨rfl, rfl, rfl⟩

/-- The trees that runs of `insert` and `get` reach from `Tree::ephemeral` and
    `Tree::durable`. -/
inductive Reachable : Tree K Node FileType E → Prop
  | ephemeral (store : Store K Node FileType E) : Reachable (Tree.ephemeral store)
  | durable (store : Store K Node FileType E) (node : Node) : Reachable (Tree.durable store node)
  | insert {t : Tree K Node FileType E} (path : List K) (fileMetadata : FileMetadata Node FileType) :
      Reachable t → Reachable (t.insert path fileMetadata).2
  | get {t : Tree K Node FileType E} (path : List K) : Reachable t → Reachable (t.get path).2

/-- In a reachable tree, no directory below the root is an empty ephemeral one. -/
theorem Reachable.view_ne_placeholder {t : Tree K Node FileType E} (ht : Reachable t) :
    t.view.NoPlaceholderBelowRoot := by
  induction ht with
  | ephemeral store =>
    rintro (_ | ⟨c, q⟩) hq
    · exact absurd rfl hq
    · simp [View.IsPlaceholder, view, Tree.ephemeral, Link.view_ephemeral_cons]
  | durable store node => exact fun q _ => Link.view_durable_not_placeholder store [] node q
  | insert path fileMetadata _ ih =>
    rw [view_insert_snd]; exact View.noPlaceholderBelowRoot_insert ih path fileMetadata
  | get path _ ih => rwa [view_get_snd]

/-- In a reachable tree, an insert fails exactly where a `get` fails, the empty path of an
    empty root apart. -/
theorem insert_error_iff_get_error {t : Tree K Node FileType E} (ht : Reachable t) {p : List K}
    (hp : ¬(p = [] ∧ t.root = .ephemeral [])) (fileMetadata : FileMetadata Node FileType) :
    (∃ e, (t.insert p fileMetadata).1 = .error e) ↔ ∃ e, (t.get p).1 = .error e := by
  rw [insert_error_iff, and_iff_left_iff_imp]
  intro _
  rcases p with _ | ⟨c, q⟩
  · simpa [View.IsPlaceholder, view, Link.kind_eq_placeholder] using hp
  · exact ht.view_ne_placeholder _ (List.cons_ne_nil c q)

theorem insert_error_iff_get_error_durable :
    Reachable (Tree.durable emptyStore 0) ∧ ¬([5] = [] ∧ (Tree.durable emptyStore 0).root = .ephemeral []) ∧
      ((∃ e, ((Tree.durable emptyStore 0).insert [5] ⟨3, ()⟩).1 = .error e) ↔
        ∃ e, ((Tree.durable emptyStore 0).get [5]).1 = .error e) :=
  ⟨.durable _ _, by simp, insert_error_iff_get_error (.durable _ _) (by simp) _⟩

end Tree

/-! ## Inserts one after the other -/

namespace View

variable (v : View K Node FileType)

/-- An insert whose answer is `Ok` sets the file over the view. -/
theorem insert_of_ok {path : List K} (h : v.insertResult path = .ok ())
    (fileMetadata : FileMetadata Node FileType) :
    v.insert path fileMetadata = (.ok (), v.overlay path fileMetadata) := by
  rw [insert, h]

/-- Once a file is set at a path, an insert there succeeds. -/
theorem insertResult_overlay_self (path : List K) (fileMetadata : FileMetadata Node FileType) :
    (v.overlay path fileMetadata).insertResult path = .ok () := by
  rw [insertResult, overlay_self]

/-- After an overlay, `insert` answers at a path beside it as before. -/
theorem insertResult_overlay_of_not_prefix {p p' : List K} (h₁ : ¬p' <+: p) (h₂ : ¬p <+: p')
    (fileMetadata : FileMetadata Node FileType) :
    (v.overlay p fileMetadata).insertResult p' = v.insertResult p' := by
  rw [insertResult, insertResult, overlay_of_not_prefix v fileMetadata h₁ h₂]

/-- A second overlay at a path replaces the first. -/
theorem overlay_overlay_self (path : List K) (fileMetadata fileMetadata' : FileMetadata Node FileType) :
    (v.overlay path fileMetadata).overlay path fileMetadata' = v.overlay path fileMetadata' := by
  funext q
  simp only [overlay]
  split_ifs <;> rfl

/-- Overlays at paths neither of which lies on the way to the other commute. -/
theorem overlay_comm {p p' : List K} (h₁ : ¬p' <+: p) (h₂ : ¬p <+: p')
    (fileMetadata fileMetadata' : FileMetadata Node FileType) :
    (v.overlay p fileMetadata).overlay p' fileMetadata' =
      (v.overlay p' fileMetadata').overlay p fileMetadata := by
  -- no path has both on its way, nor one on its way and the other below it
  have hboth : ∀ q, p' <+: q → ¬p <+: q := fun q h h' =>
    (List.prefix_or_prefix_of_prefix h h').elim h₁ h₂
  have hbelow : ∀ q, p' <+: q → ¬q <+: p := fun q h h' => h₁ (h.trans h')
  have hbelow' : ∀ q, p <+: q → ¬q <+: p' := fun q h h' => h₂ (h.trans h')
  have hne : p ≠ p' := fun h => h₂ (h ▸ List.prefix_refl p)
  funext q
  simp only [overlay]
  split_ifs <;> simp_all

end View

namespace Tree

/-- Two inserts at paths neither of which lies on the way to the other can be made in either
    order: the second answers as it would alone, and the tree after both shows the same view,
    so that every later call answers the same. -/
theorem insert_comm (t : Tree K Node FileType E) {p p' : List K} (h₁ : ¬p' <+: p)
    (h₂ : ¬p <+: p') (fileMetadata fileMetadata' : FileMetadata Node FileType) :
    ((t.insert p fileMetadata).2.insert p' fileMetadata').1 = (t.insert p' fileMetadata').1 ∧
      ((t.insert p fileMetadata).2.insert p' fileMetadata').2.view =
        ((t.insert p' fileMetadata').2.insert p fileMetadata).2.view := by
  simp only [insert_fst, view_insert_snd]
  rcases ha : t.view.insertResult p with e | ⟨⟩ <;> rcases hb : t.view.insertResult p' with e' | ⟨⟩ <;>
    simp only [View.insert, ha, hb, View.insertResult_overlay_of_not_prefix _ h₁ h₂,
      View.insertResult_overlay_of_not_prefix _ h₂ h₁, View.overlay_comm _ h₁ h₂, and_self]

theorem insert_comm_ephemeral :
    ¬[2] <+: [1] ∧ ¬[1] <+: [2] ∧
      (((Tree.ephemeral emptyStore).insert [1] ⟨3, ()⟩).2.insert [2] ⟨4, ()⟩).1 =
          ((Tree.ephemeral emptyStore).insert [2] ⟨4, ()⟩).1 ∧
        (((Tree.ephemeral emptyStore).insert [1] ⟨3, ()⟩).2.insert [2] ⟨4, ()⟩).2.view =
          (((Tree.ephemeral emptyStore).insert [2] ⟨4, ()⟩).2.insert [1] ⟨3, ()⟩).2.view :=
  ⟨by decide, by decide, insert_comm _ (by decide) (by decide) _ _⟩

/-- Once an insert at a path has succeeded, a second insert there succeeds too, and the tree
    after both shows the view that the second alone gives: the last write wins. -/
theorem insert_insert_self (t : Tree K Node FileType E) {path : List K}
    {fileMetadata : FileMetadata Node FileType} (h : (t.insert path fileMetadata).1 = .ok ())
    (fileMetadata' : FileMetadata Node FileType) :
    ((t.insert path fileMetadata).2.insert path fileMetadata').1 = .ok () ∧
      ((t.insert path fileMetadata).2.insert path fileMetadata').2.view =
        (t.insert path fileMetadata').2.view := by
  rw [insert_fst] at h
  simp only [insert_fst, view_insert_snd, View.insert_of_ok _ h, View.insertResult_overlay_self,
    View.insert_of_ok _ (View.insertResult_overlay_self _ _ _), View.overlay_overlay_self, and_self]

theorem insert_insert_self_ephemeral :
    ((Tree.ephemeral emptyStore).insert [1] ⟨3, ()⟩).1 = .ok () ∧
      (((Tree.ephemeral emptyStore).insert [1] ⟨3, ()⟩).2.insert [1] ⟨4, ()⟩).1 = .ok () ∧
      (((Tree.ephemeral emptyStore).insert [1] ⟨3, ()⟩).2.insert [1] ⟨4, ()⟩).2.view =
        ((Tree.ephemeral emptyStore).insert [1] ⟨4, ()⟩).2.view :=
  have h : ((Tree.ephemeral emptyStore).insert [1] ⟨3, ()⟩).1 = .ok () := rfl
  ⟨h, insert_insert_self _ h _⟩

end Tree

end Eden.Manifest
