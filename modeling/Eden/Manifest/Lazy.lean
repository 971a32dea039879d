import Eden.Manifest.Insert
import Eden.Manifest.StoreEntry

/-!
# Lazy durable nodes

A durable node reads its children from the store on first access and keeps them in its cell,
failures included. The cell hides nothing as long as it holds what the store holds
(`Consistent`): runs of `insert` and `get` keep it so (`Reachable.consistent`), as they fill a
cell only with what the store gives at the path of its node.

Loading a durable node eagerly, replacing it by the ephemeral directory of its children
(`Tree.loadAt`), is then seen only at its own path, and only by `insert`: an empty stored
directory refuses a file, while an empty ephemeral one takes it (`view_loadAt`).

* `get_loadAt`: every `get` answers as before, and so does every `insert` except one at the
  path of an empty stored directory, and every `get` after that insert;
* `insert_loadAt_empty`: that insert succeeds on the eager tree and fails on the lazy one, at
  the root and below it.
-/

namespace Eden.Manifest

variable {K Node FileType E : Type} [LinearOrder K]

/-- The cells of the durable nodes of `l` (at `parentPath`), and of those inside their cells,
    hide nothing: each such node looks as it would before it was read. -/
inductive Consistent (store : Store K Node FileType E) : List K → Link K Node FileType → Prop
  | leaf (parentPath : List K) (fileMetadata : FileMetadata Node FileType) :
      Consistent store parentPath (.leaf fileMetadata)
  | ephemeral (parentPath : List K) (links : Links K Node FileType) :
      (∀ c x, BTreeMap.get links c = some x → Consistent store (parentPath ++ [c]) x) →
      Consistent store parentPath (.ephemeral links)
  | durable (parentPath : List K) (node : Node) (cell) :
      (Link.durable node cell).view store parentPath =
        (Link.durable node none).view store parentPath →
      (∀ links, cell = some (.ok links) →
        ∀ c x, BTreeMap.get links c = some x → Consistent store (parentPath ++ [c]) x) →
      Consistent store parentPath (.durable node cell)

variable {store : Store K Node FileType E}

/-- Durable nodes whose cells read the same look the same. -/
theorem Link.view_durable_congr {P : List K} {node : Node} {cell cell'}
    (h : getLinks store P node cell = getLinks store P node cell') :
    (Link.durable node cell).view store P = (Link.durable node cell').view store P := by
  funext q
  cases q with
  | nil => rfl
  | cons c q => rw [view_durable_cons, view_durable_cons, h]

namespace Consistent

theorem unread (P : List K) (node : Node) :
    Consistent store P (.durable node none) :=
  .durable P node none rfl fun _ h => nomatch h

/-- What a consistent durable node reads holds consistent children. -/
theorem getLinks_children {P : List K} {node : Node} {cell}
    (h : Consistent store P (.durable node cell)) {links : Links K Node FileType}
    (hl : getLinks store P node cell = .ok links) {c : K} {x : Link K Node FileType}
    (hx : BTreeMap.get links c = some x) : Consistent store (P ++ [c]) x := by
  cases h with
  | durable _ _ _ _ children =>
    cases cell with
    | some r => exact children links (by rw [← hl]; rfl) c x hx
    | none =>
      obtain ⟨entry, -, hentry⟩ := getLinks_none_eq_ok hl
      obtain ⟨element, rfl⟩ := storeEntryToLinks_get hentry hx
      unfold Element.toLink
      split
      · exact .leaf _ _
      · exact unread _ _

/-- Inserting a consistent child into consistent children keeps them consistent. -/
theorem children_insert {P : List K} {links : Links K Node FileType}
    (h : ∀ c x, BTreeMap.get links c = some x → Consistent store (P ++ [c]) x) {c : K}
    {x : Link K Node FileType} (hx : Consistent store (P ++ [c]) x) :
    ∀ c' x', BTreeMap.get (BTreeMap.insert links c x) c' = some x' →
      Consistent store (P ++ [c']) x' := by
  intro c' x' hx'
  rw [BTreeMap.get_insert] at hx'
  split_ifs at hx' with hc
  · subst hc; cases hx'; exact hx
  · exact h c' x' hx'

theorem ephemeral_insert {P : List K} {links : Links K Node FileType}
    (h : ∀ c x, BTreeMap.get links c = some x → Consistent store (P ++ [c]) x) {c : K}
    {x : Link K Node FileType} (hx : Consistent store (P ++ [c]) x) :
    Consistent store P (.ephemeral (BTreeMap.insert links c x)) :=
  .ephemeral P _ (children_insert h hx)

/-- `insert` keeps a node consistent: it fills a cell only with a failure the store gives. -/
theorem insert {P : List K} {l : Link K Node FileType} (h : Consistent store P l)
    (fileMetadata : FileMetadata Node FileType) (path : List K) :
    Consistent store P (l.insert store fileMetadata P path).2 := by
  induction path generalizing P l with
  | nil =>
    cases l with
    | ephemeral links => cases he : links.isEmpty <;> simp [Link.insert, he, h, Consistent.leaf]
    | _ => simp [Link.insert, h, Consistent.leaf]
  | cons c path ih =>
    have eph : ∀ links : Links K Node FileType,
        (∀ c x, BTreeMap.get links c = some x → Consistent store (P ++ [c]) x) →
        Consistent store P ((Link.ephemeral links).insert store fileMetadata P (c :: path)).2 := by
      intro links hlinks
      refine ephemeral_insert hlinks (ih ?_)
      rcases hc : BTreeMap.get links c with _ | x
      · rw [entryOrEmpty, hc]
        exact .ephemeral _ _ fun _ _ h => by simp at h
      · simpa [entryOrEmpty, hc] using hlinks c x hc
    cases l with
    | leaf => exact h
    | ephemeral links => cases h with | ephemeral _ _ hlinks => exact eph links hlinks
    | durable node cell =>
      rw [Link.insert_durable_cons]
      rcases hl : getLinks store P node cell with e | links
      · refine .durable P node _ ?_ fun _ h => nomatch h
        cases h with
        | durable _ _ _ hview _ => rw [← hview]; exact Link.view_durable_congr (by simpa using hl.symm)
      · exact eph links fun c x hx => h.getLinks_children hl hx

/-- `get` keeps a node consistent: the cells it fills look as the nodes did. -/
theorem get {P : List K} {l : Link K Node FileType} (h : Consistent store P l)
    (path : List K) : Consistent store P (l.get store P path).2 := by
  induction path generalizing P l with
  | nil => cases l <;> exact h
  | cons c path ih =>
    cases l with
    | leaf => exact h
    | ephemeral links =>
      cases h with
      | ephemeral _ _ hlinks =>
        rcases hc : BTreeMap.get links c with _ | x
        · simpa [Link.get, hc] using Consistent.ephemeral P links hlinks
        · simpa [Link.get, hc] using ephemeral_insert hlinks (ih (hlinks c x hc))
    | durable node cell =>
      have hview := Link.view_get_snd store P (.durable node cell) (c :: path)
      have hold : (Link.durable node cell).view store P = (Link.durable node none).view store P := by
        cases h with | durable _ _ _ hview _ => exact hview
      rcases hl : getLinks store P node cell with e | links
      · simp only [Link.get, hl] at hview ⊢
        exact .durable P node _ (hview.trans hold) fun _ h => nomatch h
      · rcases hc : BTreeMap.get links c with _ | x
        · simp only [Link.get, hl, hc] at hview ⊢
          refine .durable P node _ (hview.trans hold) fun links' hcell => ?_
          cases hcell
          exact fun c x hx => h.getLinks_children hl hx
        · simp only [Link.get, hl, hc] at hview ⊢
          refine .durable P node _ (hview.trans hold) fun links' hcell => ?_
          cases hcell
          exact children_insert (fun c x hx => h.getLinks_children hl hx)
            (ih (h.getLinks_children hl hc))

end Consistent

/-- Every reachable tree is consistent. -/
theorem Tree.Reachable.consistent {t : Tree K Node FileType E} (ht : t.Reachable) :
    Consistent t.store [] t.root := by
  induction ht with
  | ephemeral store => exact .ephemeral _ _ fun _ _ h => by simp at h
  | durable store node => exact .unread _ _
  | insert path fileMetadata _ ih => exact ih.insert fileMetadata path
  | get path _ ih => exact ih.get path

namespace Link

/-- The node at `path` below `l`, through ephemeral directories and the cells of durable
    nodes already read. -/
def nodeAt (l : Link K Node FileType) : List K → Option (Link K Node FileType)
  | [] => some l
  | c :: path =>
    match l with
    | .ephemeral links => (BTreeMap.get links c).bind fun x => x.nodeAt path
    | .durable _ (some (.ok links)) => (BTreeMap.get links c).bind fun x => x.nodeAt path
    | _ => none

/-- `l` with the node at `path` replaced by `new`. -/
def replace (l new : Link K Node FileType) : List K → Link K Node FileType
  | [] => new
  | c :: path =>
    match l with
    | .ephemeral links =>
      match BTreeMap.get links c with
      | some x => .ephemeral (BTreeMap.insert links c (x.replace new path))
      | none => l
    | .durable node (some (.ok links)) =>
      match BTreeMap.get links c with
      | some x => .durable node (some (.ok (BTreeMap.insert links c (x.replace new path))))
      | none => l
    | _ => l

/-- Below a directory, a child replaced by one whose view changed at `path` only changes the
    view at `c :: path` only. -/
theorem view_ephemeral_insert_update {B : List K} {links : Links K Node FileType} {c : K}
    {x x' : Link K Node FileType} (hx : BTreeMap.get links c = some x) {path : List K}
    {d : Except String (Option (Kind Node FileType))}
    (h : x'.view store (B ++ [c]) = Function.update (x.view store (B ++ [c])) path d)
    (c' : K) (q : List K) :
    (Link.ephemeral (BTreeMap.insert links c x')).view store B (c' :: q) =
      Function.update ((Link.ephemeral links).view store B) (c :: path) d (c' :: q) := by
  rw [view_ephemeral_cons, BTreeMap.get_insert, Function.update_apply]
  by_cases hc : c = c'
  · subst hc
    simp [h, Function.update_apply, view_ephemeral_cons, hx]
  · simp [hc, Ne.symm hc, view_ephemeral_cons]

/-- Loading the durable node at `path` eagerly changes the view at `path` only, where it
    shows an ephemeral directory instead of a stored one. -/
theorem view_replace {B : List K} {l : Link K Node FileType} (hl : Consistent store B l)
    {path : List K} {node : Node} {cell} (hnode : l.nodeAt path = some (.durable node cell))
    {links : Links K Node FileType} (hload : getLinks store (B ++ path) node none = .ok links) :
    (l.replace (.ephemeral links) path).view store B =
        Function.update (l.view store B) path (.ok (some (.directory links.isEmpty))) ∧
      l.view store B path = .ok (some (.directory false)) := by
  induction path generalizing B l with
  | nil =>
    cases hnode
    refine ⟨funext fun q => ?_, rfl⟩
    cases q with
    | nil => simp [replace, kind]
    | cons c q =>
      cases hl with
      | durable _ _ _ hview _ =>
        simp only [replace, ne_eq, reduceCtorEq, not_false_eq_true, Function.update_noteq]
        rw [hview, view_durable_of_getLinks store (by simpa using hload)]
  | cons c path ih =>
    have hload' : getLinks store ((B ++ [c]) ++ path) node none = .ok links := by simpa using hload
    cases l with
    | leaf => cases hnode
    | ephemeral ls =>
      cases hl with
      | ephemeral _ _ children =>
        rcases hx : BTreeMap.get ls c with _ | x
        · simp [nodeAt, hx] at hnode
        · simp only [nodeAt, hx, Option.bind_some] at hnode
          obtain ⟨ih₁, ih₂⟩ := ih (children c x hx) hnode hload'
          refine ⟨funext fun q => ?_, by rw [view_ephemeral_cons, hx]; exact ih₂⟩
          cases q with
          | nil => simp [replace, hx, kind_ephemeral_insert, kind_ephemeral_of_get hx]
          | cons c' q =>
            simp only [replace, hx]
            exact view_ephemeral_insert_update hx ih₁ c' q
    | durable node' cell' =>
      rcases cell' with _ | _ | ls
      · cases hnode
      · cases hnode
      · cases hl with
        | durable _ _ _ _ children =>
          rcases hx : BTreeMap.get ls c with _ | x
          · simp [nodeAt, hx] at hnode
          · simp only [nodeAt, hx, Option.bind_some] at hnode
            obtain ⟨ih₁, ih₂⟩ := ih (children ls rfl c x hx) hnode hload'
            refine ⟨funext fun q => ?_, ?_⟩
            · cases q with
              | nil => simp [replace, hx, kind]
              | cons c' q =>
                have h := view_ephemeral_insert_update hx ih₁ c' q
                rw [Function.update_apply] at h ⊢
                simp only [replace, hx]
                rw [view_durable_ok, view_durable_ok, h]
            · rw [view_durable_ok, view_ephemeral_cons, hx]; exact ih₂

end Link

namespace View

variable {v w : View K Node FileType}

/-- Views that differ at most in whether the directory at `path` is a placeholder answer
    every `get` alike. -/
theorem get_update_directory {path : List K} (hv : v path = .ok (some (.directory false)))
    (b : Bool) : View.get (Function.update v path (.ok (some (.directory b)))) = View.get v := by
  funext q
  by_cases hq : q = path
  · subst hq; simp [View.get, hv]
  · simp [View.get, Function.update_noteq hq]

theorem get_overlay (path : List K) (fileMetadata : FileMetadata Node FileType) (q : List K) :
    View.get (v.overlay path fileMetadata) q =
      if q = path then .ok (some fileMetadata)
      else if path <+: q then .error fileWhereDirectoryExpected
      else if q <+: path then .error directoryWhereFileExpected
      else View.get v q := by
  simp only [View.get, overlay]
  split_ifs <;> rfl

/-- Views that answer every `get` alike still do after the same file is set. -/
theorem get_overlay_congr (h : View.get v = View.get w) (path : List K)
    (fileMetadata : FileMetadata Node FileType) :
    View.get (v.overlay path fileMetadata) = View.get (w.overlay path fileMetadata) := by
  funext q
  simp only [get_overlay, h]

end View

namespace Tree

/-- The tree with the durable node at `path` loaded eagerly: replaced by the ephemeral
    directory of the children `links` it reads. -/
def loadAt (t : Tree K Node FileType E) (path : List K) (links : Links K Node FileType) :
    Tree K Node FileType E :=
  { t with root := t.root.replace (.ephemeral links) path }

theorem view_loadAt {t : Tree K Node FileType E} (ht : t.Reachable) {path : List K}
    {node : Node} {cell} (hnode : t.root.nodeAt path = some (.durable node cell))
    {links : Links K Node FileType} (hload : getLinks t.store path node none = .ok links) :
    (t.loadAt path links).view =
        Function.update t.view path (.ok (some (.directory links.isEmpty))) ∧
      t.view path = .ok (some (.directory false)) :=
  Link.view_replace ht.consistent hnode (by simpa using hload)

/-- Loading a durable node eagerly, in a reachable tree, changes no answer of `get`, nor of an
    `insert` and of a `get` after it, unless the insert is at the node and the node is an
    empty directory. -/
theorem get_loadAt {t : Tree K Node FileType E} (ht : t.Reachable) {P : List K}
    {node : Node} {cell} (hnode : t.root.nodeAt P = some (.durable node cell))
    {links : Links K Node FileType} (hload : getLinks t.store P node none = .ok links)
    (p : List K) (fileMetadata : FileMetadata Node FileType) :
    ((t.loadAt P links).get p).1 = (t.get p).1 ∧
      (¬(p = P ∧ links = []) →
        ((t.loadAt P links).insert p fileMetadata).1 = (t.insert p fileMetadata).1 ∧
        ∀ q, (((t.loadAt P links).insert p fileMetadata).2.get q).1 =
          ((t.insert p fileMetadata).2.get q).1) := by
  obtain ⟨hv, hP⟩ := view_loadAt ht hnode hload
  have hget : View.get (t.loadAt P links).view = View.get t.view := by
    rw [hv]; exact View.get_update_directory hP _
  refine ⟨by rw [get_fst, get_fst, hget], fun hne => ?_⟩
  have hres : (t.loadAt P links).view.insertResult p = t.view.insertResult p := by
    rw [hv]
    by_cases hp : p = P
    · subst hp
      have : links.isEmpty = false := by simpa using fun h => hne ⟨rfl, h⟩
      simp [View.insertResult, hP, this]
    · simp [View.insertResult, Function.update_noteq hp]
  refine ⟨by rw [insert_fst, insert_fst, hres], fun q => ?_⟩
  rw [get_fst, get_fst, view_insert_snd, view_insert_snd, View.insert, View.insert, hres]
  rcases t.view.insertResult p with e | u
  · exact congrFun hget q
  · exact congrFun (View.get_overlay_congr hget p fileMetadata) q

theorem get_loadAt_durable :
    Reachable (Tree.durable listStore 0) ∧ (Tree.durable listStore 0).root.nodeAt [] =
      some (.durable 0 none) ∧ getLinks listStore [] 0 none = .ok [] ∧
      ((((Tree.durable listStore 0).loadAt [] []).get [1]).1 =
        ((Tree.durable listStore 0).get [1]).1 ∧
      (¬([1] = [] ∧ ([] : Links ℕ ℕ Unit) = []) →
        (((Tree.durable listStore 0).loadAt [] []).insert [1] ⟨2, ()⟩).1 =
          ((Tree.durable listStore 0).insert [1] ⟨2, ()⟩).1 ∧
        ∀ q, ((((Tree.durable listStore 0).loadAt [] []).insert [1] ⟨2, ()⟩).2.get q).1 =
          (((Tree.durable listStore 0).insert [1] ⟨2, ()⟩).2.get q).1)) :=
  have hnode : (Tree.durable listStore 0).root.nodeAt [] = some (.durable 0 none) := rfl
  have hload : getLinks listStore [] 0 none = .ok [] := rfl
  ⟨.durable _ _, hnode, hload, get_loadAt (.durable _ _) hnode hload [1] ⟨2, ()⟩⟩

/-- A store whose root directory, the node `0`, holds the directory `1`, the node `5`, which
    is empty. -/
def nestedStore : Store ℕ ℕ Unit (List (Except String (Element ℕ ℕ Unit))) :=
  ⟨fun _ node => .ok (if node = 0 then [.ok ⟨1, 5, .directory⟩] else []), id, listFromElements⟩

/-- An empty stored directory refuses a file that the same directory loaded eagerly takes: at
    the root, and below it, in a tree whose root a `get` has read. -/
theorem insert_loadAt_empty :
    ((Tree.durable listStore 0).root.nodeAt [] = some (.durable 0 none) ∧
      getLinks listStore [] 0 none = .ok [] ∧
      ((Tree.durable listStore 0).insert [] ⟨1, ()⟩).1 = .error metadataOnDirectory ∧
      (((Tree.durable listStore 0).loadAt [] []).insert [] ⟨1, ()⟩).1 = .ok ()) ∧
    (Reachable ((Tree.durable nestedStore 0).get [1]).2 ∧
      ((Tree.durable nestedStore 0).get [1]).2.root.nodeAt [1] = some (.durable 5 none) ∧
      getLinks nestedStore [1] 5 none = .ok [] ∧
      (((Tree.durable nestedStore 0).get [1]).2.insert [1] ⟨1, ()⟩).1 =
        .error metadataOnDirectory ∧
      ((((Tree.durable nestedStore 0).get [1]).2.loadAt [1] []).insert [1] ⟨1, ()⟩).1 = .ok ()) :=
  ⟨⟨rfl, rfl, rfl, rfl⟩, .get _ (.durable _ _), rfl, rfl, rfl, rfl⟩

end Tree

end Eden.Manifest
