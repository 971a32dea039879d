import Eden.Manifest.Tree

/-!
# Stored entries

`links_to_store_entry` writes the children of a directory as an entry of the store, and
`store_entry_to_links` reads them back. For a store whose entries yield the elements they were
made of, and whose `from_elements` fails exactly on a failed element
(`storeEntryToLinks_linksToStoreEntry`):

* writing fails exactly when a child is ephemeral;
* otherwise reading the entry back gives every child at its key, a leaf as it was and a
  durable node not read yet (`Link.reload`).
-/

namespace Eden.Manifest

variable {K Node FileType E : Type} [LinearOrder K]

/-- A child as it comes back from the store: a durable node with its cell empty. -/
def Link.reload : Link K Node FileType → Link K Node FileType
  | .durable node _ => .durable node none
  | l => l

/-- Whether a child is ephemeral. -/
def Link.IsEphemeral : Link K Node FileType → Prop
  | .ephemeral _ => True
  | _ => False

omit [LinearOrder K] in
/-- A child that is not ephemeral is written as the element that reads back as its reload. -/
theorem linkToElement_of_not_ephemeral (component : K) {l : Link K Node FileType}
    (h : ¬l.IsEphemeral) :
    ∃ element, linkToElement component l = .ok element ∧ element.component = component ∧
      element.toLink = l.reload := by
  cases l with
  | leaf fileMetadata => exact ⟨_, rfl, rfl, rfl⟩
  | ephemeral => exact absurd trivial h
  | durable node cell => exact ⟨_, rfl, rfl, rfl⟩

omit [LinearOrder K] in
/-- Writing a child fails exactly when it is ephemeral. -/
theorem linkToElement_error_iff (component : K) (l : Link K Node FileType) :
    (∃ err, linkToElement component l = .error err) ↔ l.IsEphemeral := by
  cases l <;> simp [linkToElement, Link.IsEphemeral]

/-- Reading back the elements of children none of which is ephemeral inserts their reloads
    one by one. -/
theorem foldlM_linkToElement (links acc : Links K Node FileType)
    (h : ∀ e ∈ links, ¬e.2.IsEphemeral) :
    (links.map fun e => linkToElement e.1 e.2).foldlM
        (fun links elementResult => elementResult.map fun element =>
          BTreeMap.insert links element.component element.toLink) acc =
      .ok ((links.map fun e => (e.1, e.2.reload)).foldl
        (fun acc e => BTreeMap.insert acc e.1 e.2) acc) := by
  induction links generalizing acc with
  | nil => rfl
  | cons e links ih =>
    obtain ⟨element, he, hc, hl⟩ :=
      linkToElement_of_not_ephemeral e.1 (h e (List.mem_cons_self _ _))
    simp only [List.map_cons, List.foldlM_cons, he, List.foldl_cons, Except.map, hc, hl]
    exact ih _ fun e' he' => h e' (List.mem_cons_of_mem _ he')

/-- The round trip of the children of a directory through the store. -/
theorem storeEntryToLinks_linksToStoreEntry (store : Store K Node FileType E)
    (h_elements : ∀ rs entry, store.fromElements rs = .ok entry → store.elements entry = rs)
    (h_from : ∀ rs, (∃ err, store.fromElements rs = .error err) ↔
      ∃ r ∈ rs, ∃ err, r = .error err)
    (links : Links K Node FileType) (hord : BTreeMap.Ordered links) :
    ((∃ err, linksToStoreEntry store links = .error err) ↔ ∃ e ∈ links, e.2.IsEphemeral) ∧
      ∀ entry, linksToStoreEntry store links = .ok entry →
        storeEntryToLinks store entry = .ok (links.map fun e => (e.1, e.2.reload)) := by
  have written : (∃ r ∈ links.map (fun e => linkToElement e.1 e.2), ∃ err, r = .error err) ↔
      ∃ e ∈ links, e.2.IsEphemeral := by
    simp only [List.mem_map, exists_exists_and_eq_and, linkToElement_error_iff]
  refine ⟨(h_from _).trans written, fun entry hentry => ?_⟩
  have none_ephemeral : ∀ e ∈ links, ¬e.2.IsEphemeral := by
    intro e he heph
    obtain ⟨err, herr⟩ := (h_from _).2 (written.2 ⟨e, he, heph⟩)
    rw [linksToStoreEntry, herr] at hentry
    cases hentry
  rw [storeEntryToLinks, h_elements _ _ hentry, foldlM_linkToElement _ _ none_ephemeral,
    BTreeMap.foldl_insert_of_ordered _ _ _ (by simp)]
  · rfl
  · simpa [BTreeMap.Ordered, List.pairwise_map] using hord

/-- The elements of a stored entry kept as they were given, failing on the first failed
    one, as a store that keeps entries in memory does. -/
def listFromElements :
    List (Except String (Element K Node FileType)) →
      Except String (List (Except String (Element K Node FileType)))
  | [] => .ok []
  | .error err :: _ => .error err
  | .ok element :: rs => (listFromElements rs).map (.ok element :: ·)

omit [LinearOrder K] in
theorem listFromElements_eq_ok {rs entry : List (Except String (Element K Node FileType))}
    (h : listFromElements rs = .ok entry) : entry = rs := by
  induction rs generalizing entry with
  | nil => cases h; rfl
  | cons r rs ih =>
    rcases r with err | element
    · cases h
    · rcases hrs : listFromElements rs with err | entry'
      · simp [listFromElements, hrs, Except.map] at h
      · simp only [listFromElements, hrs, Except.map, Except.ok.injEq] at h
        rw [← h, ih hrs]

omit [LinearOrder K] in
theorem listFromElements_error_iff (rs : List (Except String (Element K Node FileType))) :
    (∃ err, listFromElements rs = .error err) ↔ ∃ r ∈ rs, ∃ err, r = .error err := by
  induction rs with
  | nil => simp [listFromElements]
  | cons r rs ih =>
    rcases r with err | element
    · simp [listFromElements]
    · rcases hrs : listFromElements rs with err | entry
      · simpa [listFromElements, hrs, Except.map] using ih.1 ⟨err, hrs⟩
      · simpa [listFromElements, hrs, Except.map] using ih

/-- A store keeping each entry as the list of its elements, over natural numbers as
    components and nodes; it holds an empty entry for every directory. -/
def listStore : Store ℕ ℕ Unit (List (Except String (Element ℕ ℕ Unit))) :=
  ⟨fun _ _ => .ok [], id, listFromElements⟩

/-- A leaf and a durable directory already read. -/
def sampleLinks : Links ℕ ℕ Unit := [(1, .leaf ⟨3, ()⟩), (2, .durable 4 (some (.ok [])))]

theorem storeEntryToLinks_linksToStoreEntry_listStore :
    (∀ rs entry, listStore.fromElements rs = .ok entry → listStore.elements entry = rs) ∧
      (∀ rs, (∃ err, listStore.fromElements rs = .error err) ↔
        ∃ r ∈ rs, ∃ err, r = .error err) ∧
      BTreeMap.Ordered sampleLinks ∧
      ((∃ err, linksToStoreEntry listStore sampleLinks = .error err) ↔
        ∃ e ∈ sampleLinks, e.2.IsEphemeral) ∧
      ∀ entry, linksToStoreEntry listStore sampleLinks = .ok entry →
        storeEntryToLinks listStore entry = .ok [(1, .leaf ⟨3, ()⟩), (2, .durable 4 none)] := by
  have h_elements : ∀ rs entry, listStore.fromElements rs = .ok entry →
      listStore.elements entry = rs := fun _ _ h => listFromElements_eq_ok h
  have hord : BTreeMap.Ordered sampleLinks := by simp [BTreeMap.Ordered, sampleLinks]
  exact ⟨h_elements, listFromElements_error_iff, hord,
    storeEntryToLinks_linksToStoreEntry listStore h_elements listFromElements_error_iff _ hord⟩

end Eden.Manifest
