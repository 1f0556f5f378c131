import Panackelty.Packages.Paths
import Panackelty.Packages.TarCuts

/-!
# What an archive leaves in the stage

The entries of an archive and what is in the stage agree at every moment, apart from the file that
is being written (`ArchiveIndex.Tree`, `TarStream.Sound`).  Every round keeps this, whatever the
headers say, so that the stage of an accepted archive is a tree of its entries (`unpack_tree`). -/

namespace Panackelty.Packages

open List Option

variable {entry entry' : ArchiveEntry} {path : Bytes}

/-- What an entry is in the stage. -/
def ArchiveEntry.holds (entry : ArchiveEntry) : Node → Bool
  | .directory => entry.directory
  | .file data => !entry.directory && data.length == entry.size

/-- A directory of this path is among the entries. -/
def HasDirectory (entries : List ArchiveEntry) (path : Bytes) : Prop :=
  ∃ entry ∈ entries, entry.path = path ∧ entry.directory = true

/-- The entries make a tree, and the stage is that tree; a file that is not written as a whole yet
is pending. -/
structure ArchiveIndex.Tree (index : ArchiveIndex) (stage : Stage) (pending : Option Bytes) :
    Prop where
  keyed : ∀ {position entry}, index.entries[position]? = some entry →
    index.keys.lookup (foldPath index.folder entry.path) = some position
  positions : ∀ {key position}, index.keys.lookup key = some position →
    ∃ entry, index.entries[position]? = some entry ∧ foldPath index.folder entry.path = key
  paths : ∀ entry ∈ index.entries, WellFormedPath entry.path
  ancestors : ∀ entry ∈ index.entries, ∀ path rest, entry.path = path ++ 47 :: rest →
    HasDirectory index.entries path
  staged : ∀ {components node}, stage.get components = some node →
    ∃ entry ∈ index.entries, segments entry.path = components
  listed : ∀ entry ∈ index.entries, pending ≠ some entry.path →
    ∃ node, stage.get (segments entry.path) = some node ∧ entry.holds node = true

namespace ArchiveIndex.Tree

variable {index : ArchiveIndex} {stage : Stage} {pending : Option Bytes}

/-- No two entries have paths that differ only in letter case. -/
theorem eq_of_foldPath (h : index.Tree stage pending) (hent : entry ∈ index.entries)
    (hent' : entry' ∈ index.entries)
    (hfold : foldPath index.folder entry.path = foldPath index.folder entry'.path) :
    entry = entry' := by
  obtain ⟨pos, hpos⟩ := mem_iff_getElem?.mp hent
  obtain ⟨pos', hpos'⟩ := mem_iff_getElem?.mp hent'
  have hsame := h.keyed hpos
  rw [hfold, h.keyed hpos'] at hsame
  obtain rfl := some.inj hsame
  rw [hpos] at hpos'
  exact some.inj hpos'

theorem pairwise (h : index.Tree stage pending) : index.entries.Pairwise fun entry entry' =>
    foldPath index.folder entry.path ≠ foldPath index.folder entry'.path := by
  rw [pairwise_iff_getElem]
  intro i j hi hj hlt hfold
  have hfirst := h.keyed (getElem?_eq_getElem hi)
  rw [hfold, h.keyed (getElem?_eq_getElem hj)] at hfirst
  have := some.inj hfirst
  omega

theorem eq_of_path (h : index.Tree stage pending) (hent : entry ∈ index.entries)
    (hent' : entry' ∈ index.entries) (hpath : entry.path = entry'.path) : entry = entry' :=
  h.eq_of_foldPath hent hent' (by rw [hpath])

theorem get_eq_none (h : index.Tree stage pending) {name : Bytes}
    (hkey : index.keys.lookup (foldPath index.folder name) = none) :
    stage.get (segments name) = none := by
  rcases hget : stage.get (segments name) with _ | node
  · rfl
  obtain ⟨entry, hent, hsegs⟩ := h.staged hget
  obtain ⟨pos, hpos⟩ := mem_iff_getElem?.mp hent
  have hlook := h.keyed hpos
  rw [segments_injective hsegs, hkey] at hlook
  cases hlook

end ArchiveIndex.Tree

theorem tree_new (folder : CaseFolder) : (tarStreamNew folder).index.Tree [] none where
  keyed h := by cases h
  positions h := by cases h
  paths _ h := by cases h
  ancestors _ h := by cases h
  staged h := by cases h
  listed _ h := by cases h

/-! ## Adding an entry -/

theorem pathFromText_eq {value : Bytes} (h : pathFromText value = some path) : path = value := by
  unfold pathFromText at h
  split_ifs at h
  · exact (some.inj h).symm

theorem stageDirectory_ok {stage stage' : Stage} (hpath : WellFormedPath path)
    (h : stageDirectory stage path = .ok stage') :
    stage' = stage.put (segments path) .directory := by
  unfold stageDirectory at h
  split at h
  · cases h
  rename_i parent leaf hpar
  simp only [stageParent_eq hpath hpar] at h
  split at h
  · cases h
  · exact (Except.ok.inj h).symm

section Add

variable {index index' : ArchiveIndex} {stage stage' : Stage} {name : Bytes} {size : ℕ}
  {directory explicit : Bool}

/-- What a new entry puts into the stage: nothing yet, where data is to come. -/
theorem createEntry_ok (hname : WellFormedPath name)
    (h : createEntry stage name size directory = .ok stage') :
    stage' = if directory then stage.put (segments name) .directory
      else if size = 0 then stage.put (segments name) (.file [])
      else stage := by
  unfold createEntry at h
  rcases hpath : pathFromText name with _ | relative
  · rw [hpath] at h
    cases h
  obtain rfl := pathFromText_eq hpath
  simp only [hpath] at h
  cases directory with
  | true =>
    cases hcre : stageDirectory stage relative with
    | error code =>
      simp only [hcre] at h
      cases h
    | ok next =>
      simp only [hcre] at h
      cases h
      exact stageDirectory_ok hname hcre
  | false =>
    by_cases hsize : size = 0
    · simp only [hsize, Bool.false_eq_true, ↓reduceIte] at h ⊢
      rcases hcre : stageWrite stage relative [] 0 with code | next
      · rw [hcre] at h
        cases h
      rw [hcre] at h
      cases h
      obtain ⟨parent, leaf, hpar, hcases⟩ := stageWrite_ok hcre
      rw [← stageParent_eq hname hpar]
      rcases hcases with ⟨_, _, hput⟩ | ⟨_, hoff, _⟩
      · exact hput
      · exact absurd rfl hoff
    · simp only [hsize, Bool.false_eq_true, ↓reduceIte] at h ⊢
      cases h
      rfl

theorem createEntry_get (hname : WellFormedPath name)
    (h : createEntry stage name size directory = .ok stage') (components : List Bytes) :
    stage'.get components = if components = segments name ∧ (directory = true ∨ size = 0) then
        some (if directory then .directory else .file [])
      else stage.get components := by
  rw [createEntry_ok hname h]
  cases directory with
  | true => simp [Stage.get_put]
  | false =>
    by_cases hsize : size = 0
    · simp [hsize, Stage.get_put]
    · simp [hsize]

theorem ArchiveIndex.Tree.replace (h : index.Tree stage none) {position : ℕ}
    (hent : index.entries[position]? = some entry) (hpath : entry'.path = entry.path)
    (hdir : entry.directory) (hdir' : entry'.directory = true) :
    ({ index with entries := index.entries.set position entry' } : ArchiveIndex).Tree stage
      none := by
  have hlt : position < index.entries.length := (List.getElem?_eq_some_iff.mp hent).1
  have hget : ∀ i, (index.entries.set position entry')[i]? =
      if i = position then some entry' else index.entries[i]? := by
    intro i
    rw [getElem?_set]
    by_cases hi : position = i
    · rw [if_pos hi, if_pos hi.symm, if_pos (hi ▸ hlt)]
    · rw [if_neg hi, if_neg (Ne.symm hi)]
  -- every old entry has one of the same path and kind
  have hkept : ∀ {old}, old ∈ index.entries → ∃ new ∈ index.entries.set position entry',
      new.path = old.path ∧ new.directory = old.directory := by
    intro old hold
    obtain ⟨i, hi⟩ := mem_iff_getElem?.mp hold
    by_cases heq : i = position
    · subst heq
      cases hent.symm.trans hi
      exact ⟨entry', mem_iff_getElem?.mpr ⟨i, by rw [hget, if_pos rfl]⟩, hpath,
        hdir'.trans hdir.symm⟩
    · exact ⟨old, mem_iff_getElem?.mpr ⟨i, by rw [hget, if_neg heq, hi]⟩, rfl, rfl⟩
  -- and every new entry comes from one
  have hold : ∀ {new}, new ∈ index.entries.set position entry' →
      new ∈ index.entries ∨ new = entry' := fun hnew => mem_or_eq_of_mem_set hnew
  have hmem : entry ∈ index.entries := mem_of_getElem? hent
  constructor
  · intro i found hfound
    rw [hget] at hfound
    split at hfound
    · rename_i hi
      cases hfound
      rw [hi]
      rw [hpath]
      exact h.keyed hent
    · exact h.keyed hfound
  · intro key i hkey
    obtain ⟨found, hfound, hfold⟩ := h.positions hkey
    by_cases hi : i = position
    · subst hi
      cases hent.symm.trans hfound
      refine ⟨entry', by rw [hget, if_pos rfl], ?_⟩
      rw [hpath]
      exact hfold
    · exact ⟨found, by rw [hget, if_neg hi, hfound], hfold⟩
  · intro new hnew
    rcases hold hnew with hnew | rfl
    · exact h.paths new hnew
    · rw [hpath]
      exact h.paths entry hmem
  · intro new hnew path rest hnewPath
    have hpar : HasDirectory index.entries path := by
      rcases hold hnew with hnew | rfl
      · exact h.ancestors new hnew path rest hnewPath
      · exact h.ancestors entry hmem path rest (hpath ▸ hnewPath)
    obtain ⟨parent, hpar, hparentPath, hparentDirectory⟩ := hpar
    obtain ⟨parent', hpar', hpath', hdir'⟩ := hkept hpar
    exact ⟨parent', hpar', hpath'.trans hparentPath, hdir'.trans hparentDirectory⟩
  · intro comps node hnode
    obtain ⟨old, hold, hsegs⟩ := h.staged hnode
    obtain ⟨new, hnew, hpath', _⟩ := hkept hold
    exact ⟨new, hnew, by rw [hpath', hsegs]⟩
  · intro new hnew _
    rcases hold hnew with hnew | rfl
    · exact h.listed new hnew nofun
    obtain ⟨node, hnode, hholds⟩ := h.listed entry hmem nofun
    refine ⟨node, by rw [hpath, hnode], ?_⟩
    cases node with
    | directory => exact hdir'
    | file data =>
      rw [ArchiveEntry.holds, hdir] at hholds
      cases hholds

/-- The path of a file whose data is to come. -/
def pendingPath (name : Bytes) (size : ℕ) (directory : Bool) : Option Bytes :=
  if directory = true ∨ size = 0 then none else some name

theorem ArchiveIndex.Tree.append (h : index.Tree stage none) (hname : WellFormedPath name)
    (hancs : ∀ path rest, name = path ++ 47 :: rest → HasDirectory index.entries path)
    (hkey : index.keys.lookup (foldPath index.folder name) = none)
    (hcreate : createEntry stage name size directory = .ok stage') : ({ index with
      entries := index.entries ++ [⟨name, size, directory, explicit⟩]
      keys := (foldPath index.folder name, index.entries.length) ::
        index.keys } : ArchiveIndex).Tree
      stage' (pendingPath name size directory) := by
  have hget : ∀ {i found}, (index.entries ++ [⟨name, size, directory, explicit⟩])[i]? = some found →
      index.entries[i]? = some found ∨
        i = index.entries.length ∧ found = ⟨name, size, directory, explicit⟩ := by
    intro i found hfound
    rcases Nat.lt_trichotomy i index.entries.length with hi | hi | hi
    · rw [getElem?_append_left hi] at hfound
      exact .inl hfound
    · rw [hi, getElem?_concat_length] at hfound
      exact .inr ⟨hi, (some.inj hfound).symm⟩
    · rw [getElem?_eq_none (by rw [length_append, length_singleton]; omega)] at hfound
      cases hfound
  have hkeep : ∀ {path}, HasDirectory index.entries path →
      HasDirectory (index.entries ++ [⟨name, size, directory, explicit⟩]) path :=
    fun ⟨entry, hent, hdir⟩ => ⟨entry, mem_append_left _ hent, hdir⟩
  -- no entry has the path yet
  have hoth : ∀ entry ∈ index.entries,
      foldPath index.folder entry.path ≠ foldPath index.folder name := by
    intro entry hent hfold
    obtain ⟨i, hi⟩ := mem_iff_getElem?.mp hent
    have hlook := h.keyed hi
    rw [hfold, hkey] at hlook
    cases hlook
  constructor
  · intro i found hfound
    rw [lookup_cons]
    rcases hget hfound with hfound | ⟨rfl, rfl⟩
    · rw [beq_false_of_ne (hoth found (mem_of_getElem? hfound))]
      exact h.keyed hfound
    · rw [beq_self_eq_true]
  · intro key i hlook
    rw [lookup_cons] at hlook
    split at hlook
    · rename_i hsame
      cases hlook
      exact ⟨_, getElem?_concat_length, (beq_iff_eq.mp hsame).symm⟩
    · obtain ⟨found, hfound, hfold⟩ := h.positions hlook
      refine ⟨found, ?_, hfold⟩
      rw [List.getElem?_append_left (List.getElem?_eq_some_iff.mp hfound).1]
      exact hfound
  · intro entry hent
    rcases mem_append.mp hent with hent | hent
    · exact h.paths entry hent
    · obtain rfl := mem_singleton.mp hent
      exact hname
  · intro entry hent path rest hpath
    rcases mem_append.mp hent with hent | hent
    · exact hkeep (h.ancestors entry hent path rest hpath)
    · obtain rfl := mem_singleton.mp hent
      exact hkeep (hancs path rest hpath)
  · intro comps node hnode
    rw [createEntry_get hname hcreate] at hnode
    split at hnode
    · rename_i hhere
      exact ⟨_, mem_append_right _ mem_cons_self, hhere.1.symm⟩
    · obtain ⟨entry, hent, hsegs⟩ := h.staged hnode
      exact ⟨entry, mem_append_left _ hent, hsegs⟩
  · intro entry hent hpend
    rw [createEntry_get hname hcreate]
    rcases mem_append.mp hent with hent | hent
    · have hsegs : segments entry.path ≠ segments name := fun hsame =>
        hoth entry hent (by rw [segments_injective hsame])
      rw [if_neg fun hboth => hsegs hboth.1]
      exact h.listed entry hent nofun
    obtain rfl := mem_singleton.mp hent
    have hcre : directory = true ∨ size = 0 := by
      by_contra hdata
      exact hpend (by rw [pendingPath, if_neg hdata])
    rw [if_pos ⟨rfl, hcre⟩]
    refine ⟨_, rfl, ?_⟩
    cases directory with
    | true => rfl
    | false =>
      rcases hcre with hcre | rfl
      · cases hcre
      · rfl

/-- What adding an entry leads to. -/
structure Added (index index' : ArchiveIndex) (stage' : Stage) (name : Bytes) (size : ℕ)
    (directory : Bool) : Prop where
  tree : index'.Tree stage' (pendingPath name size directory)
  folder : index'.folder = index.folder
  keeps : ∀ {path}, HasDirectory index.entries path → HasDirectory index'.entries path
  entry : ∃ entry ∈ index'.entries, entry.path = name ∧ entry.directory = directory ∧
    (directory = false → entry.size = size ∧ (size ≠ 0 → stage'.get (segments name) = none))

theorem addArchiveEntry_added (h : index.Tree stage none) (hname : WellFormedPath name)
    (hancs : ∀ path rest, name = path ++ 47 :: rest → HasDirectory index.entries path)
    (hadd : addArchiveEntry stage index name size directory explicit = .ok (index', stage')) :
    Added index index' stage' name size directory := by
  unfold addArchiveEntry at hadd
  cases hlook : index.keys.lookup (foldPath index.folder name) with
  | some position =>
    obtain ⟨entry, hent, hfold⟩ := h.positions hlook
    simp only [hlook, getD_eq_getElem?_getD, hent, getD_some] at hadd
    split at hadd
    · cases hadd
    rename_i hpath
    split at hadd
    · cases hadd
    rename_i hkind
    split at hadd
    · cases hadd
    rename_i hdir
    -- only a directory can be there already
    have hpath : entry.path = name := not_not.mp hpath
    have hkind : entry.directory = directory := not_not.mp hkind
    have hdir : entry.directory := by
      cases hcase : entry.directory with
      | true => rfl
      | false =>
        rw [hcase] at hdir
        exact absurd rfl hdir
    rw [hdir] at hkind
    have hpend : pendingPath name size directory = none := by
      rw [pendingPath, if_pos (.inl hkind.symm)]
    have hmem := mem_of_getElem? hent
    split at hadd
    · cases hadd
      have htree : ({ index with
          entries := index.entries.set position ⟨name, size, directory, true⟩ } :
          ArchiveIndex).Tree stage none :=
        h.replace hent hpath.symm hdir hkind.symm
      have hnew : (⟨name, size, directory, true⟩ : ArchiveEntry) ∈
          index.entries.set position ⟨name, size, directory, true⟩ :=
        List.mem_set (List.getElem?_eq_some_iff.mp hent).1 _
      refine ⟨hpend ▸ htree, rfl, ?_, _, hnew, rfl, rfl, fun hfalse => ?_⟩
      · rintro path ⟨old, hold, holdPath, holdDirectory⟩
        by_cases hsame : old = entry
        · exact ⟨_, hnew, by rw [← holdPath, hsame, hpath], hkind.symm⟩
        obtain ⟨i, hi⟩ := mem_iff_getElem?.mp hold
        refine ⟨old, mem_iff_getElem?.mpr ⟨i, ?_⟩, holdPath, holdDirectory⟩
        rw [getElem?_set_ne, hi]
        rintro rfl
        rw [hent] at hi
        exact hsame (some.inj hi).symm
      · rw [← hkind] at hfalse
        cases hfalse
    · cases hadd
      refine ⟨hpend ▸ h, rfl, id, entry, hmem, hpath, hdir.trans hkind, fun hfalse => ?_⟩
      rw [← hkind] at hfalse
      cases hfalse
  | none =>
    simp only [hlook] at hadd
    split_ifs at hadd
    split at hadd
    · cases hadd
    rename_i next hcre
    cases hadd
    refine ⟨h.append hname hancs hlook hcre, rfl, ?_, _,
      mem_append_right _ mem_cons_self, rfl, rfl, fun hfalse => ⟨rfl, fun hsize => ?_⟩⟩
    · rintro path ⟨entry, hent, hdir⟩
      exact ⟨entry, mem_append_left _ hent, hdir⟩
    · rw [createEntry_get hname hcre, if_neg, h.get_eq_none hlook]
      rintro ⟨_, htrue | hzero⟩
      · cases hfalse.symm.trans htrue
      · exact hsize hzero

end Add

/-! ## The directories of an entry -/

theorem parents_pairwise (path : Bytes) :
    (parents path).Pairwise fun parent later => parent.length < later.length := by
  unfold parents
  rw [pairwise_map]
  refine List.Pairwise.imp_of_mem ?_ (pairwise_lt_range.filter _)
  intro i j hi hj hlt
  have hi := mem_range.mp (mem_of_mem_filter hi)
  rw [length_take, length_take]
  omega

/-- The directories that are still to be added come after those that they lie in. -/
theorem addParents_tree {index index' : ArchiveIndex} {stage stage' : Stage} {left : List Bytes}
    (hpath : WellFormedPath path) (h : index.Tree stage none)
    (hleft : ∀ parent ∈ left, parent ∈ parents path)
    (hsort : left.Pairwise fun parent later => parent.length < later.length)
    (hdone : ∀ parent ∈ parents path, parent ∉ left → HasDirectory index.entries parent)
    (hadd : addParents stage index left = .ok (index', stage')) :
    index'.Tree stage' none ∧ index'.folder = index.folder ∧
      ∀ parent ∈ parents path, HasDirectory index'.entries parent := by
  induction left generalizing index stage with
  | nil =>
    cases hadd
    exact ⟨h, rfl, fun parent hpar => hdone parent hpar not_mem_nil⟩
  | cons parent left ih =>
    rw [addParents] at hadd
    obtain ⟨hshorter, hsort⟩ := pairwise_cons.mp hsort
    obtain ⟨rest, hrest⟩ := mem_parents.mp (hleft parent mem_cons_self)
    have hancs : ∀ outer inner, parent = outer ++ 47 :: inner →
        HasDirectory index.entries outer := by
      intro outer inner houter
      refine hdone outer (mem_parents.mpr ⟨inner ++ 47 :: rest, ?_⟩) ?_
      · rw [hrest, houter, append_assoc, cons_append]
      have hlen : outer.length < parent.length := by
        rw [houter, length_append, length_cons]
        omega
      intro hmem
      rcases mem_cons.mp hmem with rfl | hmem
      · omega
      · have := hshorter outer hmem
        omega
    split at hadd
    · cases hadd
    rename_i index₁ stage₁ hent
    have hadded := addArchiveEntry_added h (hrest ▸ hpath).ancestor hancs hent
    have hdone₁ : ∀ other ∈ parents path, other ∉ left → HasDirectory index₁.entries other := by
      intro other hoth hnot
      by_cases hsame : other = parent
      · subst hsame
        obtain ⟨entry, hmem, hentryPath, hdir, _⟩ := hadded.entry
        exact ⟨entry, hmem, hentryPath, hdir⟩
      · exact hadded.keeps (hdone other hoth fun hmem => (mem_cons.mp hmem).elim hsame hnot)
    obtain ⟨htree, hfold, hall⟩ := ih hadded.tree
      (fun other hoth => hleft other (mem_cons_of_mem _ hoth)) hsort hdone₁ hadd
    exact ⟨htree, hfold.trans hadded.folder, hall⟩

theorem prepareArchiveEntry_tree {index index' : ArchiveIndex} {stage stage' : Stage}
    {hdr : TarHeader} (hpath : WellFormedPath hdr.path) (h : index.Tree stage none)
    (hprep : prepareArchiveEntry stage index hdr = .ok (index', stage')) :
    index'.folder = index.folder ∧
      index'.Tree stage' (pendingPath hdr.path hdr.size (hdr.kind == .directory)) ∧
      ∃ entry ∈ index'.entries, entry.path = hdr.path ∧ entry.directory = (hdr.kind == .directory) ∧
        ((hdr.kind == .directory) = false → entry.size = hdr.size ∧
          (hdr.size ≠ 0 → stage'.get (segments hdr.path) = none)) := by
  unfold prepareArchiveEntry at hprep
  split at hprep
  · cases hprep
  rename_i index₁ stage₁ hparents
  obtain ⟨htree, hfold, hall⟩ := addParents_tree hpath h (fun _ => id)
    (parents_pairwise hdr.path) (fun _ hpar hnot => absurd hpar hnot) hparents
  have hadded := addArchiveEntry_added htree hpath
    (fun path rest hrest => hall path (mem_parents.mpr ⟨rest, hrest⟩)) hprep
  exact ⟨hadded.folder.trans hfold, hadded.tree, hadded.entry⟩

/-! ## The rounds -/

/-- How much of the current file is in the stage. -/
def TarStream.Written (state : TarStream) (stage : Stage) : Prop :=
  state.remaining = state.current.size ∧ stage.get (segments state.current.path) = none ∨
    ∃ data, stage.get (segments state.current.path) = some (.file data) ∧ data ≠ [] ∧
      data.length + state.remaining = state.current.size

/-- The stage is the tree of the entries, apart from the file that is being read. -/
structure TarStream.Sound (folder : CaseFolder) (state : TarStream) (stage : Stage) : Prop where
  folder : state.index.folder = folder
  tree : state.index.Tree stage (if state.mode = .file then some state.current.path else none)
  file : state.mode = .file → state.Written stage ∧
    ∃ entry ∈ state.index.entries, entry.path = state.current.path ∧ entry.directory = false ∧
      entry.size = state.current.size

section Sound

variable {folder : CaseFolder} {stage stage' : Stage} {state state' : TarStream}

theorem tarStreamNew_sound : (tarStreamNew folder).Sound folder [] :=
  ⟨rfl, tree_new folder, nofun⟩

theorem TarStream.Sound.of_tree (hfold : state.index.folder = folder) (hmode : state.mode ≠ .file)
    (htree : state.index.Tree stage none) : state.Sound folder stage :=
  ⟨hfold, by rwa [if_neg hmode], fun h => absurd h hmode⟩

theorem TarStream.Sound.tree_none (h : state.Sound folder stage) (hmode : state.mode ≠ .file) :
    state.index.Tree stage none := by
  have htree := h.tree
  rwa [if_neg hmode] at htree

theorem takeEntry_sound {hdr : TarHeader} (h : state.index.Tree stage none)
    (hfold : state.index.folder = folder)
    (htake : takeEntry stage state hdr = .ok (state', stage')) : state'.Sound folder stage' := by
  unfold takeEntry at htake
  split at htake
  · split at htake
    · cases htake
    split_ifs at htake
    cases htake
    refine .of_tree hfold ?_ h
    show (if _ then _ else _) ≠ _
    split <;> decide
  · split at htake
    · cases htake
    rename_i name hname
    split_ifs at htake with hdir
    split at htake
    · cases htake
    rename_i index next hprep
    cases htake
    obtain ⟨hsame, htree, entry, hent, hpath, hkind, hfile⟩ :=
      prepareArchiveEntry_tree (tarNormalizePath_wellFormed hname) h hprep
    by_cases hsize : hdr.size = 0
    · refine .of_tree (hsame.trans hfold) ?_ ?_
      · show (if hdr.size = 0 then _ else _) ≠ _
        rw [if_pos hsize]
        decide
      · rwa [pendingPath, if_pos (.inr hsize)] at htree
    · have hreg : (hdr.kind == .directory) = false := by
        rw [beq_eq_false_iff_ne]
        exact fun hkind => hdir ⟨hkind, hsize⟩
      have hmode : (TarStream.expect { state with index } .file { hdr with path := name }).mode =
          .file := by
        show (if hdr.size = 0 then _ else _) = _
        rw [if_neg hsize]
      obtain ⟨hentrySize, hnone⟩ := hfile hreg
      refine ⟨hsame.trans hfold, ?_, fun _ => ⟨.inl ⟨rfl, hnone hsize⟩, entry, hent, hpath, ?_,
        hentrySize⟩⟩
      · rw [if_pos hmode]
        rwa [pendingPath, if_neg] at htree
        rintro (htrue | hzero)
        · cases hreg.symm.trans htrue
        · exact hsize hzero
      · rw [hkind, hreg]

theorem takeBlock_sound {block : Bytes} (h : state.Sound folder stage)
    (hmode : state.mode = .header)
    (htake : takeBlock stage state block = .ok (state', stage')) : state'.Sound folder stage' := by
  have htree : state.index.Tree stage none := h.tree_none (by rw [hmode]; decide)
  unfold takeBlock at htake
  split at htake
  · cases htake
    refine .of_tree h.folder ?_ htree
    show (if _ then _ else _) ≠ _
    split <;> decide
  split at htake
  · cases htake
  split at htake
  · cases htake
  split at htake
  · cases htake
  unfold takeHeader at htake
  split at htake
  · split at htake
    · cases htake
    split_ifs at htake
    cases htake
    refine .of_tree h.folder ?_ htree
    show (if _ then _ else _) ≠ _
    split <;> decide
  · exact takeEntry_sound (by exact htree) (by exact h.folder) htake

theorem afterData_mode_ne (state : TarStream) : state.afterData.mode ≠ .file := by
  show (if _ then _ else _) ≠ _
  split <;> decide

theorem ArchiveIndex.Tree.put_pending {index : ArchiveIndex} {path data : Bytes}
    {entry : ArchiveEntry} (h : index.Tree stage (some path)) (hent : entry ∈ index.entries)
    (hpath : entry.path = path) :
    index.Tree (stage.put (segments path) (.file data)) (some path) := by
  refine ⟨h.keyed, h.positions, h.paths, h.ancestors, ?_, ?_⟩
  · intro comps node hnode
    rw [Stage.get_put] at hnode
    split at hnode
    · rename_i hhere
      exact ⟨entry, hent, by rw [hpath, hhere]⟩
    · exact h.staged hnode
  · intro other hoth hpend
    have hne : segments other.path ≠ segments path := fun hsame =>
      hpend (by rw [segments_injective hsame])
    rw [Stage.get_put, if_neg hne]
    exact h.listed other hoth hpend

theorem ArchiveIndex.Tree.finish_pending {index : ArchiveIndex} {data : Bytes}
    (h : index.Tree stage (some path)) (hent : entry ∈ index.entries) (hpath : entry.path = path)
    (hkind : entry.directory = false) (hget : stage.get (segments path) = some (.file data))
    (hsize : data.length = entry.size) : index.Tree stage none := by
  refine ⟨h.keyed, h.positions, h.paths, h.ancestors, h.staged, ?_⟩
  intro other hoth _
  by_cases hsame : other.path = path
  · obtain rfl := h.eq_of_path hoth hent (hsame.trans hpath.symm)
    refine ⟨_, by rw [hpath, hget], ?_⟩
    rw [ArchiveEntry.holds, hkind, hsize, beq_self_eq_true]
    rfl
  · exact h.listed other hoth fun hpend => hsame (some.inj hpend).symm

theorem filePiece_sound {piece : Bytes} (h : state.Sound folder stage) (hmode : state.mode = .file)
    (hpiece : piece ≠ []) (hle : piece.length ≤ state.remaining)
    (hnext : filePiece stage state piece = .ok (state', stage')) : state'.Sound folder stage' := by
  obtain ⟨hwrt, entry, hent, hpath, hkind, hsize⟩ := h.file hmode
  have htree := h.tree
  rw [if_pos hmode] at htree
  have hwf : WellFormedPath state.current.path := hpath ▸ htree.paths entry hent
  unfold filePiece at hnext
  rcases hwrite :
      writePiece stage state.current (state.current.size - state.remaining) piece with prob | next
  · rw [hwrite] at hnext
    cases hnext
  -- the write puts the next part of the file behind what is there
  have hput : ∃ data, next = stage.put (segments state.current.path) (.file data) ∧ data ≠ [] ∧
      data.length + state.remaining = state.current.size + piece.length := by
    obtain ⟨parent, leaf, hpar, hcases⟩ := stageWrite_ok (writePiece_ok hwrite)
    rw [stageParent_eq hwf hpar] at hcases
    rcases hwrt with ⟨hstart, hnone⟩ | ⟨data, hget, hne, hlen⟩
    · rcases hcases with ⟨_, _, hput⟩ | ⟨_, _, hget, _⟩
      · exact ⟨piece, hput, hpiece, by omega⟩
      · cases hnone.symm.trans hget
    rcases hcases with ⟨_, hnone, _⟩ | ⟨found, _, hfound, _, hput⟩
    · cases hget.symm.trans hnone
    cases hget.symm.trans hfound
    refine ⟨data ++ piece, hput, fun hnil => hpiece (append_eq_nil_iff.mp hnil).2, ?_⟩
    rw [length_append]
    omega
  obtain ⟨data, rfl, hne, hlen⟩ := hput
  have hnew := @ArchiveIndex.Tree.put_pending _ _ _ data _ htree hent hpath
  have hget : (stage.put (segments state.current.path) (.file data)).get
      (segments state.current.path) = some (.file data) := by rw [Stage.get_put, if_pos rfl]
  simp only [hwrite] at hnext
  by_cases hleft : state.remaining - piece.length = 0
  · rw [if_pos hleft] at hnext
    cases hnext
    refine .of_tree h.folder (afterData_mode_ne _) ?_
    exact hnew.finish_pending hent hpath hkind hget (by omega)
  rw [if_neg hleft] at hnext
  cases hnext
  refine ⟨h.folder, ?_, fun _ => ⟨.inr ⟨data, hget, hne, ?_⟩, entry, hent, hpath, hkind, hsize⟩⟩
  · rw [if_pos hmode]
    exact hnew
  · show data.length + (state.remaining - piece.length) = state.current.size
    omega

theorem tarStep_sound {s s' : TarStream × Stage} {input rest : Bytes}
    (h : s.1.Ready ∧ s.1.Sound folder s.2) (hinp : input ≠ [])
    (hstep : tarStep s input = .ok (s', rest)) : s'.1.Ready ∧ s'.1.Sound folder s'.2 := by
  obtain ⟨hready, hsnd⟩ := h
  refine ⟨(tarStep_keeps hready hinp hstep).1, ?_⟩
  obtain ⟨state, stage⟩ := s
  cases hmode : state.mode with
  | header =>
    have hbuf : state.buffer.length < 512 := hready.buffer (by rw [hmode]; decide)
    rw [tarStep_header input hmode] at hstep
    obtain ⟨hpiece, _⟩ := of_map_drop (by omega) hinp hstep
    unfold blockPiece at hpiece
    split at hpiece
    · exact takeBlock_sound hsnd hmode hpiece
    cases hpiece
    exact .of_tree hsnd.folder (by rw [hmode]; decide) (hsnd.tree_none (by rw [hmode]; decide))
  | pax =>
    have htree : state.index.Tree stage none := hsnd.tree_none (by rw [hmode]; decide)
    rw [tarStep_pax input hmode] at hstep
    obtain ⟨hpiece, _⟩ := of_map_drop (hready.pax hmode) hinp hstep
    unfold paxPiece at hpiece
    simp only at hpiece
    split at hpiece
    · split at hpiece
      · cases hpiece
      · cases hpiece
        exact .of_tree hsnd.folder (afterData_mode_ne _) htree
    · cases hpiece
      exact .of_tree hsnd.folder (by rw [hmode]; decide) htree
  | file =>
    have hrem := (hready.file hmode).1
    rw [tarStep_file input hmode] at hstep
    obtain ⟨hpiece, _⟩ := of_map_drop hrem hinp hstep
    refine filePiece_sound hsnd hmode ?_ (length_take_le _ _) hpiece
    refine ne_nil_of_length_pos ?_
    rw [length_take]
    omega
  | padding =>
    have htree : state.index.Tree stage none := hsnd.tree_none (by rw [hmode]; decide)
    rw [tarStep_padding input hmode] at hstep
    obtain ⟨hpiece, _⟩ := of_map_drop (hready.padding hmode) hinp hstep
    unfold paddingPiece at hpiece
    split_ifs at hpiece
    cases hpiece
    refine .of_tree hsnd.folder ?_ htree
    show (if _ then _ else _) ≠ _
    split <;> decide
  | finished =>
    rw [tarStep_finished input hmode] at hstep
    split_ifs at hstep
    · cases hstep
      exact hsnd

end Sound

theorem tarStreamFinish_ok {state : TarStream} {entries : List ArchiveEntry}
    (h : tarStreamFinish state = .ok entries) :
    state.mode = .finished ∧
      (∃ entry ∈ state.index.entries, entry.path = Str.asciiBytes "panack.json" ∧
        entry.directory = false) ∧ state.index.entries = entries := by
  unfold tarStreamFinish at h
  split at h
  · cases h
  split at h
  · cases h
  rename_i hmode
  split at h
  · rename_i hman
    obtain ⟨entry, hent, htest⟩ := any_eq_true.mp hman
    rw [Bool.and_eq_true, beq_iff_eq, Bool.not_eq_true'] at htest
    exact ⟨not_not.mp hmode, ⟨entry, hent, htest⟩, Except.ok.inj h⟩
  · cases h

/-- The stage of an accepted archive is a tree of its entries: the paths are relative, without
empty, `.` and `..` segments and without NUL, backslash and colon; what an entry lies in is a
directory of the archive; no two paths are the same after case folding, which is the lookup of each
character in the table; the stage has what is listed and nothing else; and there is exactly one
manifest. -/
theorem unpack_tree {folder : CaseFolder} {pieces : List Bytes} {entries : List ArchiveEntry}
    {stage : Stage} (htable : folder.Table) (h : unpack folder pieces = .ok (entries, stage)) :
    (∀ entry ∈ entries, entry.path.head? ≠ some 47 ∧ WellFormedPath entry.path) ∧
      (∀ entry ∈ entries, ∀ path rest, entry.path = path ++ 47 :: rest →
        HasDirectory entries path) ∧
      (entries.Pairwise fun entry entry' =>
        foldPath folder entry.path ≠ foldPath folder entry'.path) ∧
      (∀ chars, foldPath folder (encodeUtf8 chars) = chars.flatMap folder.fold) ∧
      (∀ entry ∈ entries, ∃ node, stage.get (segments entry.path) = some node ∧
        entry.holds node = true) ∧
      (∀ components node, stage.get components = some node →
        ∃ entry ∈ entries, segments entry.path = components ∧ entry.holds node = true) ∧
      ∃! entry, entry ∈ entries ∧ entry.path = Str.asciiBytes "panack.json" ∧
        entry.directory = false := by
  unfold unpack at h
  split at h
  · cases h
  rename_i state stage' hfeed
  split at h
  · cases h
  rename_i found hfin
  cases h
  obtain ⟨hmode, hman, rfl⟩ := tarStreamFinish_ok hfin
  rw [feedAll_eq] at hfeed
  obtain ⟨_, hsnd⟩ := @Library.feedAll_invariant _ _ _ tarStep _ _
    (fun s => s.1.Ready ∧ s.1.Sound folder s.2) tarStep_sound _
      ⟨tarStreamNew_ready folder, tarStreamNew_sound⟩ hfeed
  have htree : state.index.Tree stage none := hsnd.tree_none (by rw [hmode]; decide)
  refine ⟨fun entry hent => ⟨(htree.paths entry hent).head?_ne, htree.paths entry hent⟩,
    htree.ancestors, ?_, foldPath_encodeUtf8 htable,
      fun entry hent => htree.listed entry hent nofun,
    ?_, ?_⟩
  · rw [← hsnd.folder]
    exact htree.pairwise
  · intro components node hnode
    obtain ⟨entry, hent, rfl⟩ := htree.staged hnode
    obtain ⟨found, hfound, hholds⟩ := htree.listed entry hent nofun
    cases hnode.symm.trans hfound
    exact ⟨entry, hent, rfl, hholds⟩
  · obtain ⟨entry, hent, hpath, hfile⟩ := hman
    exact ⟨entry, ⟨hent, hpath, hfile⟩, fun other ⟨hoth, hotherPath, _⟩ =>
      htree.eq_of_path hoth hent (hotherPath.trans hpath.symm)⟩

/-- The file in the directory is staged with its data. -/
theorem unpack_tree_treeArchive : ∃ entries stage,
    unpack letterFolder [treeArchive] = .ok (entries, stage) ∧ entries.length = 3 ∧
      HasDirectory entries (Str.asciiBytes "A") ∧
      (∃ node, stage.get [Str.asciiBytes "A", Str.asciiBytes "b"] = some node) ∧
      ∃! entry, entry ∈ entries ∧ entry.path = Str.asciiBytes "panack.json" ∧
        entry.directory = false := by
  obtain ⟨-, hancestors, -, -, hlisted, -, hmanifest⟩ :=
    unpack_tree letterFolder_table unpack_treeArchive
  obtain ⟨node, hnode, -⟩ := hlisted ⟨Str.asciiBytes "A/b", 1, false, true⟩ (by decide)
  exact ⟨_, _, unpack_treeArchive, rfl, hancestors ⟨Str.asciiBytes "A/b", 1, false, true⟩
    (by decide)
    (Str.asciiBytes "A") (Str.asciiBytes "b") rfl, ⟨node, hnode⟩, hmanifest⟩

end Panackelty.Packages
