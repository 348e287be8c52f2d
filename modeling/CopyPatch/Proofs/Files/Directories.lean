import CopyPatch.Proofs.Files.Places

/-! The directories of a tree. They alone decide which paths can be followed, and no operation takes
one away. So what was performed once can be performed again: the directories are there by then, and
replacing a file needs no more than that no directory stands in its place. -/
namespace CopyPatch.Files

theorem join_ne_empty {name : String} (named : IsFileName name) (directory : String) :
    join directory name ≠ "" := by
  intro empty
  have parts := names_join named directory
  rw [empty] at parts
  have nameless : names "" = [] := rfl
  exact List.cons_ne_nil _ _ (List.append_eq_nil_iff.1 (parts.symm.trans nameless)).2

namespace Tree

variable {tree next other : Tree} {path : String} {place : Place}

/-- Every directory of one tree is a directory of another. -/
def DirsWithin (tree next : Tree) : Prop :=
  ∀ place, tree.get? place = some .directory → next.get? place = some .directory

def SameDirs (tree next : Tree) : Prop := DirsWithin tree next ∧ DirsWithin next tree

theorem DirsWithin.trans (first : DirsWithin tree next) (second : DirsWithin next other) :
    DirsWithin tree other :=
  fun place there => second place (first place there)

theorem SameDirs.refl (tree : Tree) : SameDirs tree tree := ⟨fun _ => id, fun _ => id⟩

theorem SameDirs.symm (same : SameDirs tree next) : SameDirs next tree := ⟨same.2, same.1⟩

theorem SameDirs.trans (first : SameDirs tree next) (second : SameDirs next other) :
    SameDirs tree other :=
  ⟨first.1.trans second.1, second.2.trans first.2⟩

theorem SameDirs.free_iff (same : SameDirs tree next) :
    next.get? place ≠ some .directory ↔ tree.get? place ≠ some .directory :=
  ⟨fun free there => free (same.1 place there), fun free there => free (same.2 place there)⟩

theorem directory_of_enter {name : String} {found : Place}
    (entered : tree.enter place name = .ok found) : tree.get? place = some .directory := by
  rw [enter] at entered
  cases here : tree.get? place with
  | none =>
    rw [here] at entered
    cases entered
  | some entry =>
    cases entry with
    | file contents =>
      rw [here] at entered
      cases entered
    | directory => rfl

theorem enter_mono (grown : DirsWithin tree next) {name : String} {found : Place}
    (entered : tree.enter place name = .ok found) : next.enter place name = .ok found := by
  have there := directory_of_enter entered
  rw [enter, there] at entered
  rw [enter, grown place there]
  exact entered

theorem foldlM_enter_mono (grown : DirsWithin tree next) {steps : List String} {start : Place}
    (followed : steps.foldlM tree.enter start = .ok place) :
    steps.foldlM next.enter start = .ok place := by
  induction steps generalizing start with
  | nil => exact followed
  | cons step rest ih =>
    rw [List.foldlM_cons] at followed ⊢
    obtain ⟨found, entered, followed⟩ := Outcome.bind_eq_ok.1 followed
    exact Outcome.bind_eq_ok.2 ⟨found, enter_mono grown entered, ih followed⟩

theorem locate_mono (grown : DirsWithin tree next) (located : tree.locate path = .ok place) :
    next.locate path = .ok place := by
  obtain ⟨steps, named, located⟩ := Outcome.bind_eq_ok.1 located
  obtain ⟨found, followed, located⟩ := Outcome.bind_eq_ok.1 located
  refine Outcome.bind_eq_ok.2 ⟨steps, named, Outcome.bind_eq_ok.2 ⟨found,
    foldlM_enter_mono grown followed, ?_⟩⟩
  split at located
  · rename_i closed
    rw [if_pos closed]
    exact enter_mono grown located
  · rename_i closed
    rw [if_neg closed]
    exact located

theorem slot_mono (grown : DirsWithin tree next) {found : Option Place}
    (slotted : tree.slot path = .ok found) : next.slot path = .ok found := by
  obtain ⟨steps, named, slotted⟩ := Outcome.bind_eq_ok.1 slotted
  obtain ⟨last, followed, slotted⟩ := Outcome.bind_eq_ok.1 slotted
  exact Outcome.bind_eq_ok.2 ⟨steps, named, Outcome.bind_eq_ok.2 ⟨last,
    foldlM_enter_mono grown followed, slotted⟩⟩

theorem isDirectory_iff : tree.isDirectory path = true ↔
    ∃ place, tree.locate path = .ok place ∧ tree.get? place = some .directory := by
  rw [isDirectory]
  cases tree.locate path with
  | ok place => simp
  | error cause => simp

theorem isDirectory_mono (grown : DirsWithin tree next) (there : tree.isDirectory path = true) :
    next.isDirectory path = true := by
  obtain ⟨place, located, directory⟩ := isDirectory_iff.1 there
  exact isDirectory_iff.2 ⟨place, locate_mono grown located, grown place directory⟩

theorem sameDirs_update {entry : Option Entry} (free : tree.get? place ≠ some .directory)
    (filled : entry ≠ some .directory)
    (changed : next.get? = Function.update tree.get? place entry) : SameDirs tree next := by
  constructor
  · intro spot there
    have elsewhere : spot ≠ place := by
      rintro rfl
      exact free there
    rw [changed, Function.update_of_ne elsewhere]
    exact there
  · intro spot there
    rw [changed] at there
    by_cases here : spot = place
    · subst here
      rw [Function.update_self] at there
      exact absurd there filled
    · rwa [Function.update_of_ne here] at there

theorem sameDirs_put (free : tree.get? place ≠ some .directory) (contents : Bytes) :
    SameDirs tree (tree.put place (.file contents)) :=
  sameDirs_update free (by simp) (get?_put (isUpward_of_get? free) _)

theorem sameDirs_erase (free : tree.get? place ≠ some .directory) :
    SameDirs tree (tree.erase place) :=
  sameDirs_update free (by simp) (get?_erase (isUpward_of_get? free))

theorem write_sameDirs {contents : Bytes} (written : tree.write path contents = .ok next) :
    SameDirs tree next := by
  obtain ⟨_, free, rfl⟩ := write_eq_ok_iff.1 written
  exact sameDirs_put free contents

theorem rename_sameDirs {source target : String} (moved : tree.rename source target = .ok next) :
    SameDirs tree next := by
  obtain ⟨contents, _, _, found, _, free, rfl⟩ := rename_eq_ok_iff.1 moved
  have erased : SameDirs tree (tree.erase (placeOf source)) :=
    sameDirs_erase (by rw [found]; simp)
  exact erased.trans (sameDirs_put (erased.free_iff.2 free) contents)

theorem after_eq_ok {change : Except Cause Tree} :
    tree.after change = (.ok (), next) ↔ change = .ok next := by
  cases change with
  | ok made => simp [after]
  | error cause => simp [after]

/-- A path that leads to a directory, or leads nowhere at all and so to the working directory. -/
def Opened (tree : Tree) (path : String) : Prop := path = "" ∨ tree.isDirectory path = true

theorem Opened.mono (grown : DirsWithin tree next) (opened : tree.Opened path) :
    next.Opened path :=
  opened.imp_right (isDirectory_mono grown)

theorem createDir_dirs (made : tree.createDir path = .ok next) :
    next.get? = Function.update tree.get? (placeOf path) (some .directory) ∧
      DirsWithin tree next := by
  obtain ⟨_, empty, rfl⟩ := createDir_eq_ok_iff.1 made
  have changed : (tree.put (placeOf path) .directory).get? =
      Function.update tree.get? (placeOf path) (some .directory) :=
    get?_put (isUpward_of_get? (by rw [empty]; simp)) _
  refine ⟨changed, fun place there => ?_⟩
  rw [changed]
  by_cases here : place = placeOf path
  · subst here
    exact Function.update_self ..
  · rw [Function.update_of_ne here]
    exact there

theorem isDirectory_of_createDir (made : tree.createDir path = .ok next) :
    next.isDirectory path = true := by
  obtain ⟨changed, grown⟩ := createDir_dirs made
  obtain ⟨slotted, _, _⟩ := createDir_eq_ok_iff.1 made
  have directory : next.get? (placeOf path) = some .directory := by
    rw [changed, Function.update_self]
  obtain ⟨steps, named, slotted⟩ := Outcome.bind_eq_ok.1 slotted
  obtain ⟨last, followed, slotted⟩ := Outcome.bind_eq_ok.1 slotted
  split at slotted
  · cases slotted
  · cases slotted
    refine isDirectory_iff.2 ⟨placeOf path, ?_, directory⟩
    refine Outcome.bind_eq_ok.2 ⟨steps, named, Outcome.bind_eq_ok.2 ⟨_,
      foldlM_enter_mono grown followed, ?_⟩⟩
    split
    · rw [enter, directory]
      rfl
    · rfl

theorem ensureDir_dirs (made : tree.ensureDir path = .ok next) :
    DirsWithin tree next ∧ next.isDirectory path = true := by
  rw [ensureDir] at made
  split at made
  · split at made
    · rename_i there
      cases made
      exact ⟨fun _ => id, there⟩
    · cases made
  · exact ⟨(createDir_dirs made).2, isDirectory_of_createDir made⟩

theorem createEach_dirs {paths : List String} (made : createEach paths tree = (.ok (), next)) :
    DirsWithin tree next ∧ ∀ path ∈ paths.head?, next.isDirectory path = true := by
  induction paths generalizing next with
  | nil =>
    cases made
    exact ⟨fun _ => id, by simp⟩
  | cons path above ih =>
    rw [createEach] at made
    split at made
    · cases higher : createEach above tree with
      | mk outcome between =>
        rw [higher] at made
        cases outcome with
        | error cause => cases made
        | ok _ =>
          obtain ⟨grown, there⟩ := ensureDir_dirs (after_eq_ok.1 made)
          exact ⟨(ih higher).1.trans grown, by simpa using there⟩
    · obtain ⟨grown, there⟩ := ensureDir_dirs (after_eq_ok.1 made)
      exact ⟨grown, by simpa using there⟩

theorem ancestry_eq (named : path ≠ "") : ∃ above, ancestry path = path :: above := by
  rw [ancestry]
  exact ⟨_, List.filter_cons_of_pos (by simpa using named)⟩

theorem createDirs_dirs (made : tree.createDirs path = (.ok (), next)) :
    DirsWithin tree next ∧ next.Opened path := by
  obtain ⟨grown, first⟩ := createEach_dirs made
  refine ⟨grown, ?_⟩
  by_cases named : path = ""
  · exact Or.inl named
  · obtain ⟨above, ancestors⟩ := ancestry_eq named
    exact Or.inr (first path (by rw [ancestors]; rfl))

theorem ensureDir_of_isDirectory (there : tree.isDirectory path = true) :
    tree.ensureDir path = .ok tree := by
  rw [ensureDir]
  split
  · exact if_pos there
  · rename_i made
    -- nothing is made where a directory stands
    cases created : tree.createDir path with
    | error cause => exact absurd created (made cause)
    | ok next =>
      obtain ⟨_, empty, _⟩ := createDir_eq_ok_iff.1 created
      obtain ⟨place, located, directory⟩ := isDirectory_iff.1 there
      rw [locate_eq_ok located, empty] at directory
      cases directory

/-- Directories that are there already are not made again. -/
theorem createDirs_of_opened (opened : tree.Opened path) :
    tree.createDirs path = (.ok (), tree) := by
  rcases opened with rfl | there
  · rfl
  · have named : path ≠ "" := by
      rintro rfl
      obtain ⟨place, located, _⟩ := isDirectory_iff.1 there
      cases located
    obtain ⟨above, ancestors⟩ := ancestry_eq named
    rw [createDirs, ancestors, createEach, ensureDir_of_isDirectory there]
    rfl

/-- Where a name leads in an open directory. -/
theorem foldlM_enter_opened (opened : tree.Opened path) (name : String) :
    (names path ++ [name]).foldlM tree.enter [] = tree.enter (placeOf path) name ∧
      tree.get? (placeOf path) = some .directory := by
  have followed : (names path).foldlM tree.enter [] = .ok (placeOf path) ∧
      tree.get? (placeOf path) = some .directory := by
    rcases opened with rfl | there
    · exact ⟨rfl, rfl⟩
    · obtain ⟨place, located, directory⟩ := isDirectory_iff.1 there
      obtain rfl := locate_eq_ok located
      obtain ⟨steps, named, located⟩ := Outcome.bind_eq_ok.1 located
      obtain ⟨found, followed, _⟩ := Outcome.bind_eq_ok.1 located
      have same : found = placeOf path := by
        rw [foldlM_enter_eq_ok followed, namesOf_eq_ok named, placeOf]
      rw [← same, ← namesOf_eq_ok named]
      exact ⟨followed, same ▸ directory⟩
  refine ⟨?_, followed.2⟩
  rw [List.foldlM_append, followed.1]
  exact bind_pure (tree.enter (placeOf path) name)

theorem slot_ne_notFound (opened : tree.Opened path) {name : String} (named : IsFileName name) :
    tree.slot (join path name) ≠ .error .notFound := by
  intro missing
  rcases Outcome.bind_eq_error.1 missing with unnamed | ⟨steps, found, missing⟩
  · rw [namesOf, if_neg (join_ne_empty named path)] at unnamed
    split at unnamed
    · cases unnamed
    · split at unnamed <;> cases unnamed
  · rcases Outcome.bind_eq_error.1 missing with lost | ⟨_, _, missing⟩
    · obtain ⟨entered, directory⟩ := foldlM_enter_opened opened name
      rw [namesOf_eq_ok found, names_join named, entered, enter, directory] at lost
      simp only at lost
      split at lost
      · cases lost
      · split at lost
        · cases lost
        · split at lost <;> cases lost
    · cases missing

theorem createDir_ne_notFound (opened : tree.Opened path) {name : String}
    (named : IsFileName name) : tree.createDir (join path name) ≠ .error .notFound := by
  intro missing
  rcases Outcome.bind_eq_error.1 missing with lost | ⟨slotted, _, missing⟩
  · exact slot_ne_notFound opened named lost
  · cases slotted with
    | none => cases missing
    | some found =>
      simp only at missing
      split at missing <;> cases missing

/-- In an open directory at most one directory is made. -/
theorem createDirs_join (opened : tree.Opened path) {name : String} (named : IsFileName name)
    (made : tree.createDirs (join path name) = (.ok (), next))
    (there : next.get? place = some .directory) :
    tree.get? place = some .directory ∨ place = placeOf (join path name) := by
  have ensured : tree.ensureDir (join path name) = .ok next := by
    obtain ⟨above, ancestors⟩ := ancestry_eq (join_ne_empty named path)
    rw [createDirs, ancestors, createEach] at made
    split at made
    · rename_i missing
      rw [ensureDir] at missing
      split at missing
      · rename_i cause failed
        split at missing <;> cases missing
        exact absurd failed (createDir_ne_notFound opened named)
      · rename_i created
        exact absurd missing (created _)
    · exact after_eq_ok.1 made
  rw [ensureDir] at ensured
  split at ensured
  · split at ensured <;> cases ensured
    exact Or.inl there
  · rw [(createDir_dirs ensured).1] at there
    by_cases here : place = placeOf (join path name)
    · exact Or.inr here
    · rw [Function.update_of_ne here] at there
      exact Or.inl there

/-- A file can be replaced at a path: the path and the one beside it can be followed, and no
directory stands in either place. -/
structure Replaceable (tree : Tree) (path : String) : Prop where
  located : tree.locate (temporary path) = .ok (placeOf (temporary path))
  aside : tree.slot (temporary path) = .ok (some (placeOf (temporary path)))
  target : tree.slot path = .ok (some (placeOf path))
  closed : endsWithStroke path = false
  freeAside : tree.get? (placeOf (temporary path)) ≠ some .directory
  free : tree.get? (placeOf path) ≠ some .directory

theorem Replaceable.grow (ready : tree.Replaceable path) (grown : DirsWithin tree next)
    (freeAside : next.get? (placeOf (temporary path)) ≠ some .directory)
    (free : next.get? (placeOf path) ≠ some .directory) : next.Replaceable path where
  located := locate_mono grown ready.located
  aside := slot_mono grown ready.aside
  target := slot_mono grown ready.target
  closed := ready.closed
  freeAside := freeAside
  free := free

theorem Replaceable.congr (ready : tree.Replaceable path) (same : SameDirs tree next) :
    next.Replaceable path :=
  ready.grow same.1 (same.free_iff.2 ready.freeAside) (same.free_iff.2 ready.free)

/-- What stands at a path where files are replaced can be read there. -/
theorem Replaceable.read (ready : tree.Replaceable path) {contents : Bytes}
    (file : tree.fileAt (placeOf path) = some contents) : tree.read path = .ok contents := by
  have located : tree.locate path = .ok (placeOf path) := by
    obtain ⟨steps, named, slotted⟩ := Outcome.bind_eq_ok.1 ready.target
    obtain ⟨last, followed, slotted⟩ := Outcome.bind_eq_ok.1 slotted
    refine Outcome.bind_eq_ok.2 ⟨steps, named, Outcome.bind_eq_ok.2 ⟨last, followed, ?_⟩⟩
    split at slotted
    · cases slotted
    · rw [if_neg (by simp [ready.closed])]
      cases slotted
      rfl
  obtain ⟨entry, found, holds⟩ := Option.bind_eq_some_iff.1 file
  cases entry with
  | directory => cases holds
  | file held =>
    cases holds
    rw [Tree.read, located]
    simp only [bind, Except.bind, found]
    rfl

end Tree

open Operation (replace effects effects_append effects_replace effects_of_not_touched
  touched_of_mem_replace)

variable {tree next : Tree} {path : String}

theorem perform_cons_eq_ok {op : Operation} {rest : List Operation} :
    perform (op :: rest) tree = (.ok (), next) ↔
      ∃ between, op.apply tree = (.ok (), between) ∧ perform rest between = (.ok (), next) := by
  rw [perform]
  rcases applied : op.apply tree with ⟨cause | _, between⟩
  · simp
  · simp

theorem perform_append_eq_ok {first second : List Operation} :
    perform (first ++ second) tree = (.ok (), next) ↔ ∃ between,
      perform first tree = (.ok (), between) ∧ perform second between = (.ok (), next) := by
  induction first generalizing tree with
  | nil => simp [perform]
  | cons op rest ih =>
    simp only [List.cons_append, perform_cons_eq_ok, ih]
    constructor
    · rintro ⟨before, applied, between, done, later⟩
      exact ⟨between, ⟨before, applied, done⟩, later⟩
    · rintro ⟨between, ⟨before, applied, done⟩, later⟩
      exact ⟨before, applied, between, done, later⟩

theorem perform_replace_eq_ok {contents : Bytes}
    (done : perform (replace path contents) tree = (.ok (), next)) :
    tree.Replaceable path ∧ Tree.SameDirs tree next := by
  obtain ⟨between, written, done⟩ := perform_cons_eq_ok.1 done
  obtain ⟨_, moved, done⟩ := perform_cons_eq_ok.1 done
  cases done
  have written := Tree.after_eq_ok.1 written
  have moved := Tree.after_eq_ok.1 moved
  have same := Tree.write_sameDirs written
  obtain ⟨located, freeAside, _⟩ := Tree.write_eq_ok_iff.1 written
  obtain ⟨_, aside, target, _, closed, free, _⟩ := Tree.rename_eq_ok_iff.1 moved
  exact ⟨⟨located, Tree.slot_mono same.2 aside, Tree.slot_mono same.2 target, closed, freeAside,
    same.free_iff.1 free⟩, same.trans (Tree.rename_sameDirs moved)⟩

theorem Tree.Replaceable.perform (ready : tree.Replaceable path) (contents : Bytes) :
    ∃ next, perform (replace path contents) tree = (.ok (), next) ∧ Tree.SameDirs tree next := by
  have same := Tree.sameDirs_put ready.freeAside contents
  have written : tree.write (temporary path) contents =
      .ok (tree.put (placeOf (temporary path)) (.file contents)) :=
    Tree.write_eq_ok_iff.2 ⟨ready.located, ready.freeAside, rfl⟩
  have held : (tree.put (placeOf (temporary path)) (.file contents)).get?
      (placeOf (temporary path)) = some (.file contents) := by
    rw [Tree.get?_put (Tree.isUpward_of_get? ready.freeAside), Function.update_self]
  have later := ready.congr same
  have moved := Tree.rename_eq_ok_iff.2
    ⟨contents, later.aside, later.target, held, later.closed, later.free, rfl⟩
  refine ⟨_, ?_, same.trans (Tree.rename_sameDirs moved)⟩
  exact perform_cons_eq_ok.2 ⟨_, Tree.after_eq_ok.2 written,
    perform_cons_eq_ok.2 ⟨_, Tree.after_eq_ok.2 moved, rfl⟩⟩

/-- Replace files one after another. -/
def replaceAll (files : List (String × Bytes)) : List Operation :=
  files.flatMap fun f => replace f.1 f.2

/-- Replace files one after another, and make sure each time of the directory they lie in. -/
def publish (directory : String) (files : List (String × Bytes)) : List Operation :=
  files.flatMap fun f => .createDirs directory :: replace f.1 f.2

theorem perform_replaceAll_eq_ok {files : List (String × Bytes)}
    (done : perform (replaceAll files) tree = (.ok (), next)) :
    Tree.SameDirs tree next ∧ ∀ f ∈ files, tree.Replaceable f.1 := by
  induction files generalizing tree with
  | nil =>
    cases done
    exact ⟨.refl _, by simp⟩
  | cons first rest ih =>
    obtain ⟨between, replaced, done⟩ := perform_append_eq_ok.1 done
    obtain ⟨ready, same⟩ := perform_replace_eq_ok replaced
    obtain ⟨sameLater, others⟩ := ih done
    refine ⟨same.trans sameLater, List.forall_mem_cons.2 ⟨ready, fun f member => ?_⟩⟩
    exact (others f member).congr same.symm

theorem perform_replaceAll {files : List (String × Bytes)}
    (ready : ∀ f ∈ files, tree.Replaceable f.1) :
    ∃ next, perform (replaceAll files) tree = (.ok (), next) ∧ Tree.SameDirs tree next := by
  induction files generalizing tree with
  | nil => exact ⟨tree, rfl, .refl tree⟩
  | cons first rest ih =>
    obtain ⟨first, others⟩ := List.forall_mem_cons.1 ready
    obtain ⟨between, replaced, same⟩ := first.perform _
    obtain ⟨next, done, sameLater⟩ := ih fun f member => (others f member).congr same
    exact ⟨next, perform_append_eq_ok.2 ⟨between, replaced, done⟩, same.trans sameLater⟩

/-- A directory that is there does not have to be made. -/
theorem perform_publish_eq_ok {directory : String} (opened : tree.Opened directory)
    {files : List (String × Bytes)} :
    perform (publish directory files) tree = (.ok (), next) ↔
      perform (replaceAll files) tree = (.ok (), next) := by
  induction files generalizing tree with
  | nil => rfl
  | cons first rest ih =>
    have made : (Operation.createDirs directory).apply tree = (.ok (), tree) :=
      Tree.createDirs_of_opened opened
    have skipped : perform (.createDirs directory :: replace first.1 first.2) tree =
        perform (replace first.1 first.2) tree := by rw [perform, made]
    rw [publish, replaceAll, List.flatMap_cons, List.flatMap_cons, perform_append_eq_ok,
      perform_append_eq_ok, skipped]
    refine exists_congr fun between => and_congr_right fun replaced => ?_
    exact ih (opened.mono (perform_replace_eq_ok replaced).2.1)

/-- Of the files that were replaced in one place, the contents of one stand there. -/
theorem effects_publish {directory : String} {files : List (String × Bytes)} {place : Place}
    (aside : ∀ f ∈ files, place ≠ placeOf (temporary f.1))
    (member : place ∈ files.map fun f => placeOf f.1) (start : Place → Option Bytes) :
    ∃ f ∈ files, placeOf f.1 = place ∧
      effects (publish directory files) start place = some f.2 := by
  induction files generalizing start with
  | nil => cases member
  | cons first rest ih =>
    obtain ⟨asideFirst, asideRest⟩ := List.forall_mem_cons.1 aside
    rw [publish, List.flatMap_cons, ← publish, effects_append]
    by_cases later : place ∈ rest.map fun f => placeOf f.1
    · obtain ⟨f, inside, here, holds⟩ := ih asideRest later
        (effects (.createDirs directory :: replace first.1 first.2) start)
      exact ⟨f, List.mem_cons_of_mem _ inside, here, holds⟩
    · obtain rfl : place = placeOf first.1 := (List.mem_cons.1 member).resolve_right later
      refine ⟨first, List.mem_cons_self, rfl, ?_⟩
      rw [effects_of_not_touched]
      · have nothing : ∀ op ∈ ([] : List Operation), placeOf first.1 ∉ op.touched := by simp
        exact effects_replace nothing [.createDirs directory] first.2 start
      · intro op published touches
        obtain ⟨f, inside, published⟩ := List.mem_flatMap.1 published
        rcases touched_of_mem_replace published touches with same | same
        · exact later (same ▸ List.mem_map_of_mem inside)
        · exact asideRest f inside same

/-- Once the directory is there, nothing but files changes. -/
theorem perform_publish_cases {directory : String} {files : List (String × Bytes)}
    (filled : files ≠ []) (done : perform (publish directory files) tree = (.ok (), next)) :
    ∃ inside, tree.createDirs directory = (.ok (), inside) ∧ Tree.SameDirs inside next ∧
      inside.Opened directory ∧ ∀ f ∈ files, inside.Replaceable f.1 := by
  obtain ⟨first, rest, rfl⟩ := List.exists_cons_of_ne_nil filled
  obtain ⟨inside, made, done⟩ := perform_cons_eq_ok.1 done
  have opened := (Tree.createDirs_dirs made).2
  have remade : perform (publish directory (first :: rest)) inside = (.ok (), next) :=
    perform_cons_eq_ok.2 ⟨inside, Tree.createDirs_of_opened opened, done⟩
  obtain ⟨same, ready⟩ := perform_replaceAll_eq_ok ((perform_publish_eq_ok opened).1 remade)
  exact ⟨inside, made, same, opened, ready⟩

/-- Files are replaced in a directory and in one that it holds. What went through once goes through
again, unless the inner directory has come to stand where one of the outer files is put together. -/
theorem perform_again {outer name : String} (named : IsFileName name)
    {files inner : List (String × Bytes)} (filled : inner ≠ []) {operations : List Operation}
    (planned : operations = .createDirs outer :: (replaceAll files ++
      publish (join outer name) inner))
    (apart : ∀ f ∈ files, placeOf f.1 ≠ placeOf (join outer name) ∧
      placeOf (temporary f.1) ≠ placeOf (join outer name))
    (done : perform operations tree = (.ok (), next)) :
    ∃ final, perform operations next = (.ok (), final) := by
  subst planned
  obtain ⟨outside, madeOuter, done⟩ := perform_cons_eq_ok.1 done
  obtain ⟨replaced, replacing, published⟩ := perform_append_eq_ok.1 done
  obtain ⟨sameOuter, readyOuter⟩ := perform_replaceAll_eq_ok replacing
  obtain ⟨inside, madeInner, sameInner, openInner, readyInner⟩ :=
    perform_publish_cases filled published
  have openOuter : replaced.Opened outer := (Tree.createDirs_dirs madeOuter).2.mono sameOuter.1
  have grown := (Tree.createDirs_dirs madeInner).1.trans sameInner.1
  -- the one directory that was made since is the inner one
  have kept {place : Place} (free : outside.get? place ≠ some .directory)
      (elsewhere : place ≠ placeOf (join outer name)) : next.get? place ≠ some .directory := by
    intro there
    rcases Tree.createDirs_join openOuter named madeInner (sameInner.2 _ there) with old | new
    · exact free (sameOuter.2 _ old)
    · exact elsewhere new
  have again : ∀ f ∈ files, next.Replaceable f.1 := by
    intro f member
    have before := readyOuter f member
    exact before.grow (sameOuter.1.trans grown) (kept before.freeAside (apart f member).2)
      (kept before.free (apart f member).1)
  obtain ⟨between, replacing, same⟩ := perform_replaceAll again
  have againInner : ∀ f ∈ inner, between.Replaceable f.1 :=
    fun f member => (readyInner f member).congr (sameInner.trans same)
  obtain ⟨final, publishing, _⟩ := perform_replaceAll againInner
  refine ⟨final, perform_cons_eq_ok.2 ⟨next, ?_, perform_append_eq_ok.2 ⟨between, replacing, ?_⟩⟩⟩
  · exact Tree.createDirs_of_opened (openOuter.mono grown)
  · exact (perform_publish_eq_ok (openInner.mono (sameInner.1.trans same.1))).2 publishing

end CopyPatch.Files
