import Eden.Manifest.BTreeMap

/-!
# Tree manifests

The tree implementation of a manifest (`manifest/src/tree/mod.rs`): an inner node for each
directory of the repository and a leaf for each file. An inner node is *ephemeral*, a map
held in memory and changed in place, or *durable*, a node of the store whose children are
read on first access and then kept in a cell, failures included.

* `Link.get` and `Link.insert` walk a path from a node, as `Tree::get` and `Tree::insert` walk
  it from the root with a cursor, `parentPath` being the path of the cursor.
* The cell of a durable node is written through shared references: a `get` fills the cells
  of the durable nodes it reads, so `Link.get` also returns the node it leaves behind.
* On its way down, `insert` turns every durable node it enters into an ephemeral copy of its
  children and adds the missing directories; these changes stay when it then fails.

The store (`tree/store.rs`) and the types `FileMetadata`, `Node` and `PathComponentBuf` are
declared outside these sources: a path component is any linearly ordered `K`, a node any
`Node`, a file type any `FileType`, and a stored entry any `E`, read and built through
`Store`.
-/

namespace Eden.Manifest

/-- `FileMetadata`: the node of a file and its type. -/
structure FileMetadata (Node FileType : Type) where
  node : Node
  fileType : FileType
  deriving DecidableEq, Repr

/-- The flag of a stored element (`store::Flag`): a file of some type, or a directory. -/
inductive Flag (FileType : Type) where
  | file (fileType : FileType)
  | directory
  deriving DecidableEq, Repr

/-- An element of a stored directory (`store::Element`). -/
structure Element (K Node FileType : Type) where
  component : K
  node : Node
  flag : Flag FileType
  deriving DecidableEq, Repr

/-- The store of a tree (the `Store` trait and `store::Entry`): `get` the entry stored for
    a directory node at a path, `elements` what an entry yields, and `fromElements` the
    entry made of some elements, failing on a failed one as the store decides. -/
structure Store (K Node FileType E : Type) where
  get : List K → Node → Except String E
  elements : E → List (Except String (Element K Node FileType))
  fromElements : List (Except String (Element K Node FileType)) → Except String E

/-- `Link`: a node of the tree. A durable node holds its `DurableEntry`: the node in the
    store and the `OnceCell` of its children, `none` until they are first read. The maps
    of children are `BTreeMap`s, written out as lists for the kernel to see the nesting. -/
inductive Link (K Node FileType : Type) where
  | leaf (fileMetadata : FileMetadata Node FileType)
  | ephemeral (links : List (K × Link K Node FileType))
  | durable (node : Node) (links : Option (Except String (List (K × Link K Node FileType))))

/-- The children of a directory. -/
abbrev Links (K Node FileType : Type) := BTreeMap K (Link K Node FileType)

/-- `format_err!` of a walk that reaches a file where it needs a directory. -/
def fileWhereDirectoryExpected : String := "Encountered file where a directory was expected."

/-- `format_err!` of `get` ending on a directory. -/
def directoryWhereFileExpected : String := "Encountered directory where file was expected"

/-- `bail!` of `insert` ending on a directory it cannot replace. -/
def metadataOnDirectory : String := "Asked to set file metadata on a directory."

/-- `format_err!` of `links_to_store_entry` on an ephemeral child. -/
def ephemeralNotStorable : String := "cannot store ephemeral manifest nodes"

variable {K Node FileType E : Type} [LinearOrder K]

/-- The link a stored element stands for: a leaf for a file, a durable node not read yet
    (`Link::durable`) for a directory. -/
def Element.toLink (element : Element K Node FileType) : Link K Node FileType :=
  match element.flag with
  | .file fileType => .leaf ⟨element.node, fileType⟩
  | .directory => .durable element.node none

/-- `store_entry_to_links`: the children of a stored entry, inserted one by one into an
    empty map; the first element that fails to read fails the whole. -/
def storeEntryToLinks (store : Store K Node FileType E) (storeEntry : E) :
    Except String (Links K Node FileType) :=
  (store.elements storeEntry).foldlM
    (fun links elementResult => elementResult.map fun element =>
      BTreeMap.insert links element.component element.toLink) []

/-- The stored element a child stands for in `links_to_store_entry`: an ephemeral child has
    none. -/
def linkToElement (component : K) :
    Link K Node FileType → Except String (Element K Node FileType)
  | .leaf fileMetadata => .ok ⟨component, fileMetadata.node, .file fileMetadata.fileType⟩
  | .durable node _ => .ok ⟨component, node, .directory⟩
  | .ephemeral _ => .error ephemeralNotStorable

/-- `links_to_store_entry`: the entry made of the elements of the children, in key order. -/
def linksToStoreEntry (store : Store K Node FileType E) (links : Links K Node FileType) :
    Except String E :=
  store.fromElements (links.map fun e => linkToElement e.1 e.2)

/-- `DurableEntry::get_links` of the durable node `node` at `path` whose cell holds `links`:
    what the cell holds, or else what the store holds. The cell holds this result after
    the call (`get_or_init`). -/
def getLinks (store : Store K Node FileType E) (path : List K) (node : Node) :
    Option (Except String (Links K Node FileType)) → Except String (Links K Node FileType)
  | some result => result
  | none => (store.get path node).bind (storeEntryToLinks store)

/-- What `store_entry_to_links` reads are the links of stored elements: leaves, and durable
    nodes not read yet. -/
theorem storeEntryToLinks_get {store : Store K Node FileType E} {storeEntry : E}
    {links : Links K Node FileType} (h : storeEntryToLinks store storeEntry = .ok links)
    {c : K} {x : Link K Node FileType} (hx : BTreeMap.get links c = some x) :
    ∃ element : Element K Node FileType, x = element.toLink := by
  suffices ∀ (rs : List (Except String (Element K Node FileType))) (acc : Links K Node FileType),
      (∀ c x, BTreeMap.get acc c = some x → ∃ element : Element K Node FileType, x = element.toLink) →
      rs.foldlM (fun links elementResult => elementResult.map fun element =>
        BTreeMap.insert links element.component element.toLink) acc = .ok links →
      ∃ element : Element K Node FileType, x = element.toLink from
    this _ [] (by simp) h
  intro rs
  induction rs with
  | nil =>
    intro acc hacc hfold
    cases hfold
    exact hacc c x hx
  | cons r rs ih =>
    intro acc hacc hfold
    cases r with
    | error => cases hfold
    | ok element =>
      refine ih _ (fun c' x' h' => ?_) hfold
      rw [BTreeMap.get_insert] at h'
      split_ifs at h' with hc
      · exact ⟨element, (Option.some.inj h').symm⟩
      · exact hacc c' x' h'

@[simp] theorem getLinks_some (store : Store K Node FileType E) (path : List K) (node : Node)
    (result : Except String (Links K Node FileType)) :
    getLinks store path node (some result) = result := rfl

/-- A durable node not read yet reads the children of its stored entry. -/
theorem getLinks_none_eq_ok {store : Store K Node FileType E} {path : List K} {node : Node}
    {links : Links K Node FileType} (h : getLinks store path node none = .ok links) :
    ∃ entry, store.get path node = .ok entry ∧ storeEntryToLinks store entry = .ok links := by
  cases he : store.get path node with
  | error e => simp [getLinks, he, Except.bind] at h
  | ok entry => exact ⟨entry, rfl, by simpa [getLinks, he, Except.bind] using h⟩

/-- `links.entry(component).or_insert_with(|| Ephemeral(BTreeMap::new()))`: the child at
    `component`, or a new empty ephemeral directory. -/
def entryOrEmpty (links : Links K Node FileType) (component : K) : Link K Node FileType :=
  (BTreeMap.get links component).getD (.ephemeral [])

namespace Link

/-- `Tree::get` from the node `cursor` at `parentPath`, down `path`: the metadata of the
    file there, `none` when a directory on the way lacks the next component, and the node
    with the cells the walk filled. -/
def get (store : Store K Node FileType E) (parentPath : List K) (cursor : Link K Node FileType) :
    List K → Except String (Option (FileMetadata Node FileType)) × Link K Node FileType
  | [] =>
    match cursor with
    | .leaf fileMetadata => (.ok (some fileMetadata), cursor)
    | _ => (.error directoryWhereFileExpected, cursor)
  | component :: path =>
    match cursor with
    | .leaf _ => (.error fileWhereDirectoryExpected, cursor)
    | .ephemeral links =>
      match BTreeMap.get links component with
      | none => (.ok none, cursor)
      | some child =>
        let r := child.get store (parentPath ++ [component]) path
        (r.1, .ephemeral (BTreeMap.insert links component r.2))
    | .durable node cell =>
      match getLinks store parentPath node cell with
      | .error e => (.error e, .durable node (some (.error e)))
      | .ok links =>
        match BTreeMap.get links component with
        | none => (.ok none, .durable node (some (.ok links)))
        | some child =>
          let r := child.get store (parentPath ++ [component]) path
          (r.1, .durable node (some (.ok (BTreeMap.insert links component r.2))))

/-- `Tree::insert` from the node `cursor` at `parentPath`, down `path`: whether the file
    metadata was set, and the node after the walk, also when it failed. -/
def insert (store : Store K Node FileType E) (fileMetadata : FileMetadata Node FileType)
    (parentPath : List K) (cursor : Link K Node FileType) :
    List K → Except String Unit × Link K Node FileType
  | [] =>
    match cursor with
    | .leaf _ => (.ok (), .leaf fileMetadata)
    | .ephemeral links =>
      if links.isEmpty then (.ok (), .leaf fileMetadata)
      else (.error metadataOnDirectory, cursor)
    | .durable _ _ => (.error metadataOnDirectory, cursor)
  | component :: path =>
    match cursor with
    | .leaf _ => (.error fileWhereDirectoryExpected, cursor)
    | .ephemeral links =>
      let r := (entryOrEmpty links component).insert store fileMetadata
        (parentPath ++ [component]) path
      (r.1, .ephemeral (BTreeMap.insert links component r.2))
    | .durable node cell =>
      match getLinks store parentPath node cell with
      | .error e => (.error e, .durable node (some (.error e)))
      | .ok links =>
        -- `*cursor = Ephemeral(durable_links.clone())`, then as for an ephemeral node
        let r := (entryOrEmpty links component).insert store fileMetadata
          (parentPath ++ [component]) path
        (r.1, .ephemeral (BTreeMap.insert links component r.2))

end Link

/-- `Tree`: a store and the root node. -/
structure Tree (K Node FileType E : Type) where
  store : Store K Node FileType E
  root : Link K Node FileType

namespace Tree

/-- `Tree::durable`: the tree stored with the node `node`, nothing read yet. -/
def durable (store : Store K Node FileType E) (node : Node) : Tree K Node FileType E :=
  ⟨store, .durable node none⟩

/-- `Tree::ephemeral`: a new tree with no history. -/
def ephemeral (store : Store K Node FileType E) : Tree K Node FileType E :=
  ⟨store, .ephemeral []⟩

/-- `Manifest::get` of a tree: its answer, and the tree with the cells it filled. -/
def get (t : Tree K Node FileType E) (path : List K) :
    Except String (Option (FileMetadata Node FileType)) × Tree K Node FileType E :=
  let r := t.root.get t.store [] path
  (r.1, { t with root := r.2 })

/-- `Manifest::insert` of a tree: its answer, and the tree after it. -/
def insert (t : Tree K Node FileType E) (path : List K)
    (fileMetadata : FileMetadata Node FileType) : Except String Unit × Tree K Node FileType E :=
  let r := t.root.insert t.store fileMetadata [] path
  (r.1, { t with root := r.2 })

end Tree

end Eden.Manifest
