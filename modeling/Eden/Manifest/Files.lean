import Eden.Manifest.Run

/-!
# A manifest as its files

What a manifest is for: files, each at a path with its metadata, none of them on the path to
another (`Files`, `Files.Wf`). `get` finds the file at a path, fails on the way through a
file and on a directory, and finds nothing elsewhere; `insert` sets a file, failing on the
way through a file and on a directory that holds files (`Files.get`, `Files.insert`). The
root is a directory, empty while there are no files, and the empty path is a path like any
other: a file set there lies on the path to every other.

The view of the files (`Files.view`) shows each file at its path, a directory above each
file and an error below it:

* `view_insert`: `View.insert` on the view of some files is `Files.insert` on the files;
* `Tree.run_eq_files_run`: on a tree whose view is that of some files, every run of `get`
  and `insert` calls gets the answers the run on the files gets;
* `Tree.run_ephemeral`: `Tree::ephemeral` is the manifest with no files: whatever the store,
  every run of calls on it gets the answers of the run on the files.
-/

namespace Eden.Manifest

variable {K Node FileType E : Type} [LinearOrder K]

/-- A manifest as its files: the path of each file, with its metadata. -/
abbrev Files (K Node FileType : Type) := List (List K × FileMetadata Node FileType)

namespace Files

variable (files : Files K Node FileType)

/-- No file lies on the path to another, and no path holds two files. -/
def Wf : Prop :=
  files.Pairwise fun a b => ¬a.1 <+: b.1 ∧ ¬b.1 <+: a.1

/-- What the files show at a path: the file there, an error below a file, a directory above
    a file, and the empty root while there are no files. -/
def view : View K Node FileType := fun q =>
  match files.find? (·.1 = q) with
  | some f => .ok (some (.file f.2))
  | none =>
    if files.any (·.1 <+: q) then .error fileWhereDirectoryExpected
    else if files.any (q <+: ·.1) then .ok (some (.directory false))
    else if q = [] then .ok (some (.directory true))
    else .ok none

/-- `get` on the files. -/
def get (path : List K) : Except String (Option (FileMetadata Node FileType)) :=
  match files.find? (·.1 = path) with
  | some f => .ok (some f.2)
  | none =>
    if files.any (·.1 <+: path) then .error fileWhereDirectoryExpected
    else if files.any (path <+: ·.1) || path = [] then .error directoryWhereFileExpected
    else .ok none

/-- `insert` on the files: its answer, and the files after it. -/
def insert (path : List K) (fileMetadata : FileMetadata Node FileType) :
    Except String Unit × Files K Node FileType :=
  if files.any fun f => f.1 <+: path ∧ f.1 ≠ path then (.error fileWhereDirectoryExpected, files)
  else if files.any fun f => path <+: f.1 ∧ f.1 ≠ path then (.error metadataOnDirectory, files)
  else (.ok (), (path, fileMetadata) :: files.filter (·.1 ≠ path))

/-- The answers of the files to a run of calls, each call made on the files the one before
    left. -/
def run : Files K Node FileType → List (Op K Node FileType) → List (Reply Node FileType)
  | _, [] => []
  | files, .get path :: ops => .get (files.get path) :: run files ops
  | files, .insert path fileMetadata :: ops =>
    .insert (files.insert path fileMetadata).1 :: run (files.insert path fileMetadata).2 ops

variable {files}

/-- An insert succeeds exactly when no other file lies on the way to its path, nor its path
    on the way to another file. -/
theorem insert_fst_eq_ok {path : List K} {fileMetadata : FileMetadata Node FileType} :
    (files.insert path fileMetadata).1 = .ok () ↔
      (∀ f ∈ files, f.1 <+: path → f.1 = path) ∧ ∀ f ∈ files, path <+: f.1 → f.1 = path := by
  simp only [insert, List.any_eq_true, decide_eq_true_eq]
  split_ifs with h₁ h₂
  · obtain ⟨f, hf, hpre, hne⟩ := h₁
    exact iff_of_false nofun fun h => hne (h.1 f hf hpre)
  · obtain ⟨f, hf, hpre, hne⟩ := h₂
    exact iff_of_false nofun fun h => hne (h.2 f hf hpre)
  · push_neg at h₁ h₂
    exact iff_of_true rfl ⟨h₁, h₂⟩

theorem insert_snd_of_error {path : List K} {fileMetadata : FileMetadata Node FileType}
    (h : (files.insert path fileMetadata).1 ≠ .ok ()) : (files.insert path fileMetadata).2 = files := by
  unfold insert at h ⊢
  split_ifs at h ⊢
  · rfl
  · rfl
  · exact absurd rfl h

theorem insert_snd_of_ok {path : List K} {fileMetadata : FileMetadata Node FileType}
    (h : (files.insert path fileMetadata).1 = .ok ()) :
    (files.insert path fileMetadata).2 = (path, fileMetadata) :: files.filter (·.1 ≠ path) := by
  unfold insert at h ⊢
  split_ifs at h ⊢
  rfl

/-- A successful insert sets its file over the view as `View.overlay` does. -/
theorem view_insert_of_ok {path : List K} {fileMetadata : FileMetadata Node FileType}
    (h : (files.insert path fileMetadata).1 = .ok ()) :
    (files.insert path fileMetadata).2.view = files.view.overlay path fileMetadata := by
  obtain ⟨h₁, h₂⟩ := insert_fst_eq_ok.1 h
  rw [insert_snd_of_ok h]
  funext q
  simp only [view, View.overlay, List.find?_cons, List.any_cons, List.find?_filter,
    List.any_filter, decide_eq_true_eq]
  by_cases hq : q = path
  · subst hq
    simp
  have hpq' : decide (path = q) = false := decide_eq_false (Ne.symm hq)
  by_cases hpq : path <+: q
  · -- Below the new file: no file is at `q`, which has the new file on its way.
    have hnone : files.find? (fun a => decide (a.1 ≠ path ∧ a.1 = q)) = none :=
      List.find?_eq_none.2 fun f hf h => by
        obtain ⟨hne, rfl⟩ := of_decide_eq_true h
        exact hne (h₂ f hf hpq)
    rw [hpq', hnone, decide_eq_true hpq]
    simp [hq, hpq]
  by_cases hqp : q <+: path
  · -- Above the new file: a directory, with no file at `q` or on the way to it.
    have hnone : files.find? (fun a => decide (a.1 ≠ path ∧ a.1 = q)) = none :=
      List.find?_eq_none.2 fun f hf h => by
        obtain ⟨hne, rfl⟩ := of_decide_eq_true h
        exact hne (h₁ f hf hqp)
    have hany : (files.any fun a => decide (a.1 ≠ path) && decide (a.1 <+: q)) = false :=
      List.any_eq_false.2 fun f hf h => by
        simp only [Bool.and_eq_true, decide_eq_true_eq] at h
        exact h.1 (h₁ f hf (h.2.trans hqp))
    rw [hpq', hnone, decide_eq_false hpq, hany, decide_eq_true hqp]
    simp [hq, hpq, hqp]
  · -- Beside the new file: as before.
    have hfind : (fun a : List K × FileMetadata Node FileType => decide (a.1 ≠ path ∧ a.1 = q)) =
        fun a => decide (a.1 = q) :=
      funext fun a => by by_cases ha : a.1 = q <;> simp [ha, hq]
    have hfile : (fun a : List K × FileMetadata Node FileType =>
        decide (a.1 ≠ path) && decide (a.1 <+: q)) = fun a => decide (a.1 <+: q) :=
      funext fun a => by by_cases ha : a.1 = path <;> simp [ha, hpq]
    have hdir : (fun a : List K × FileMetadata Node FileType =>
        decide (a.1 ≠ path) && decide (q <+: a.1)) = fun a => decide (q <+: a.1) :=
      funext fun a => by by_cases ha : a.1 = path <;> simp [ha, hqp]
    rw [hpq', hfind, hfile, hdir, decide_eq_false hpq, decide_eq_false hqp, Bool.false_or,
      Bool.false_or, if_neg hq, if_neg hpq, if_neg hqp]

omit [LinearOrder K] in
/-- Two files of well-formed files one of which lies on the way to the other are one. -/
theorem Wf.eq_of_prefix (hwf : files.Wf) {f g : List K × FileMetadata Node FileType}
    (hf : f ∈ files) (hg : g ∈ files) (h : f.1 <+: g.1) : f = g := by
  by_contra hne
  exact (hwf.forall (fun _ _ hab => ⟨hab.2, hab.1⟩) hf hg hne).1 h

/-- Every insert keeps the files well formed. -/
theorem Wf.insert (hwf : files.Wf) (path : List K) (fileMetadata : FileMetadata Node FileType) :
    (files.insert path fileMetadata).2.Wf := by
  by_cases h : (files.insert path fileMetadata).1 = .ok ()
  · obtain ⟨h₁, h₂⟩ := insert_fst_eq_ok.1 h
    rw [insert_snd_of_ok h]
    refine List.Pairwise.cons (fun f hf => ?_) (hwf.filter _)
    obtain ⟨hf, hne⟩ := List.mem_filter.1 hf
    have hne : f.1 ≠ path := of_decide_eq_true hne
    exact ⟨fun hp => hne (h₂ f hf hp), fun hp => hne (h₁ f hf hp)⟩
  · rwa [insert_snd_of_error h]

/-- In well-formed files, no file is at a path that another file lies on the way to, or
    below. -/
theorem Wf.find?_eq_none (hwf : files.Wf) {f : List K × FileMetadata Node FileType}
    (hf : f ∈ files) {path : List K} (hpre : f.1 <+: path ∨ path <+: f.1) (hne : f.1 ≠ path) :
    files.find? (·.1 = path) = none :=
  List.find?_eq_none.2 fun g hg hgp => by
    obtain rfl : g.1 = path := of_decide_eq_true hgp
    rcases hpre with hpre | hpre
    · exact hne (congrArg Prod.fst (hwf.eq_of_prefix hf hg hpre))
    · exact hne (congrArg Prod.fst (hwf.eq_of_prefix hg hf hpre)).symm

/-- On well-formed files, the answer of `View.insert` on the view is that of `insert`. -/
theorem insertResult_view (hwf : files.Wf) (path : List K)
    (fileMetadata : FileMetadata Node FileType) :
    files.view.insertResult path = (files.insert path fileMetadata).1 := by
  by_cases h₁ : ∃ f ∈ files, f.1 <+: path ∧ f.1 ≠ path
  · -- a file on the way
    obtain ⟨f, hf, hpre, hne⟩ := h₁
    have hins : (files.insert path fileMetadata).1 = .error fileWhereDirectoryExpected := by
      simp only [insert, List.any_eq_true, decide_eq_true_eq]
      rw [if_pos ⟨f, hf, hpre, hne⟩]
    simp only [hins, View.insertResult, view, hwf.find?_eq_none hf (.inl hpre) hne, List.any_eq_true,
      decide_eq_true_eq]
    rw [if_pos ⟨f, hf, hpre⟩]
  push_neg at h₁
  by_cases h₂ : ∃ f ∈ files, path <+: f.1 ∧ f.1 ≠ path
  · -- a directory holding files
    obtain ⟨f, hf, hpre, hne⟩ := h₂
    have hins : (files.insert path fileMetadata).1 = .error metadataOnDirectory := by
      simp only [insert, List.any_eq_true, decide_eq_true_eq]
      rw [if_neg (by push_neg; exact h₁), if_pos ⟨f, hf, hpre, hne⟩]
    have hnone := hwf.find?_eq_none hf (.inr hpre) hne
    have hfile : ¬∃ g ∈ files, g.1 <+: path := fun ⟨g, hg, hgp⟩ =>
      List.find?_eq_none.1 hnone g hg (decide_eq_true (h₁ g hg hgp))
    simp only [hins, View.insertResult, view, hnone, List.any_eq_true, decide_eq_true_eq]
    rw [if_neg hfile, if_pos ⟨f, hf, hpre⟩]
  push_neg at h₂
  -- the insert succeeds, and the view shows a file, an empty root or nothing at `path`
  have hins : (files.insert path fileMetadata).1 = .ok () :=
    insert_fst_eq_ok.2 ⟨h₁, h₂⟩
  rw [hins]
  rcases hg : files.find? (·.1 = path) with _ | g
  · have hfile : ¬∃ g ∈ files, g.1 <+: path := fun ⟨g, hg', hgp⟩ =>
      List.find?_eq_none.1 hg g hg' (decide_eq_true (h₁ g hg' hgp))
    have hdir : ¬∃ g ∈ files, path <+: g.1 := fun ⟨g, hg', hgp⟩ =>
      List.find?_eq_none.1 hg g hg' (decide_eq_true (h₂ g hg' hgp))
    simp only [View.insertResult, view, hg, List.any_eq_true, decide_eq_true_eq]
    rw [if_neg hfile, if_neg hdir]
    split_ifs <;> rfl
  · simp only [View.insertResult, view, hg]

/-- `get` on the files answers as `get` on their view. -/
theorem get_eq_view_get (path : List K) : files.get path = files.view.get path := by
  simp only [get, view, View.get]
  split
  · rfl
  · split_ifs <;> simp_all

/-- On well-formed files, `View.insert` on the view is `insert` on the files. -/
theorem view_insert (hwf : files.Wf) (path : List K) (fileMetadata : FileMetadata Node FileType) :
    files.view.insert path fileMetadata =
      ((files.insert path fileMetadata).1, (files.insert path fileMetadata).2.view) := by
  rw [View.insert, insertResult_view hwf path fileMetadata]
  by_cases h : (files.insert path fileMetadata).1 = .ok ()
  · rw [h, view_insert_of_ok h]
  · rw [insert_snd_of_error h]
    rcases h' : (files.insert path fileMetadata).1 with e | u
    · rfl
    · exact absurd h' h

end Files

/-- A tree whose view is that of well-formed files answers every run of calls as the files
    do. -/
theorem Tree.run_eq_files_run {t : Tree K Node FileType E} {files : Files K Node FileType}
    (hwf : files.Wf) (hview : t.view = files.view) (ops : List (Op K Node FileType)) :
    t.run ops = files.run ops := by
  induction ops generalizing t files with
  | nil => rfl
  | cons op ops ih =>
    cases op with
    | get path =>
      rw [run, Files.run, get_fst, hview, ← Files.get_eq_view_get,
        ih hwf (by rw [view_get_snd, hview])]
    | insert path fileMetadata =>
      have hnext : (t.insert path fileMetadata).2.view = (files.insert path fileMetadata).2.view := by
        rw [view_insert_snd, hview, Files.view_insert hwf]
      rw [run, Files.run, insert_fst, hview, Files.insertResult_view hwf path fileMetadata,
        ih (hwf.insert path fileMetadata) hnext]

/-- A new tree shows its empty root and nothing below it: the view of no files. -/
theorem Tree.view_ephemeral (store : Store K Node FileType E) :
    (Tree.ephemeral store).view = Files.view ([] : Files K Node FileType) := by
  funext q
  cases q <;> rfl

/-- `Tree::ephemeral` is the manifest with no files: whatever the store, every run of `get`
    and `insert` calls on it gets the answers the run on the files gets. -/
theorem Tree.run_ephemeral (store : Store K Node FileType E) (ops : List (Op K Node FileType)) :
    (Tree.ephemeral store).run ops = Files.run [] ops :=
  Tree.run_eq_files_run List.Pairwise.nil (Tree.view_ephemeral store) ops

/-- A file set at the empty path, the root, lies on the way to every other path. -/
example : Files.run ([] : Files ℕ ℕ Unit) [.insert [] ⟨1, ()⟩, .get [2], .insert [2] ⟨3, ()⟩] =
    [.insert (.ok ()), .get (.error fileWhereDirectoryExpected),
      .insert (.error fileWhereDirectoryExpected)] := rfl

end Eden.Manifest
