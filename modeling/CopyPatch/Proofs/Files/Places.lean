import CopyPatch.Files.Operation
import CopyPatch.Proofs.Outcome
import Mathlib.Logic.Function.Basic

/-! Where paths lead, and what operations do to the files there. Which place a path leads to does
not depend on the tree; the tree only decides whether it can be followed. So a tree can be seen as
the contents of the files at its places, and an operation that succeeds as a change of them. -/
namespace CopyPatch

namespace Text

variable {mark : Char}

theorem split_ne_nil (mark : Char) (text : List Char) : split mark text ≠ [] := by
  cases text with
  | nil => simp [split]
  | cons c rest =>
    rw [split]
    split
    · simp
    · split <;> simp

theorem split_append_mark (before after : List Char) :
    split mark (before ++ mark :: after) = split mark before ++ split mark after := by
  induction before with
  | nil => simp [split]
  | cons c rest ih =>
    rw [List.cons_append, split, split, ih]
    by_cases same : c = mark
    · simp [same]
    · obtain ⟨first, others, pieces⟩ := List.exists_cons_of_ne_nil (split_ne_nil mark rest)
      simp [same, pieces]

theorem split_of_not_mem {text : List Char} (whole : mark ∉ text) : split mark text = [text] := by
  induction text with
  | nil => rfl
  | cons c rest ih =>
    rw [List.mem_cons, not_or] at whole
    rw [split, if_neg (Ne.symm whole.1), ih whole.2]

/-- Text without marks lengthens the last piece. -/
theorem split_append (mark : Char) (before : List Char) : ∃ front last, ∀ after, mark ∉ after →
    split mark (before ++ after) = front ++ [last ++ after] := by
  induction before with
  | nil => exact ⟨[], [], fun after whole => split_of_not_mem whole⟩
  | cons c rest ih =>
    obtain ⟨front, last, pieces⟩ := ih
    by_cases same : c = mark
    · refine ⟨[] :: front, last, fun after whole => ?_⟩
      rw [List.cons_append, split, if_pos same, pieces after whole, List.cons_append]
    · cases front with
      | nil =>
        refine ⟨[], c :: last, fun after whole => ?_⟩
        rw [List.cons_append, split, if_neg same, pieces after whole]
        rfl
      | cons first others =>
        refine ⟨(c :: first) :: others, last, fun after whole => ?_⟩
        rw [List.cons_append, split, if_neg same, pieces after whole]
        rfl

end Text

namespace Files

/-- A name that stands for something in the directory it is looked up in. -/
def IsFileName (name : String) : Prop := name ≠ "" ∧ '/' ∉ name.toList ∧ isPoints name = false

instance (name : String) : Decidable (IsFileName name) :=
  inferInstanceAs (Decidable (_ ∧ _ ∧ _))

/-- Where a name leads from a directory. -/
def lead (place : Place) (name : String) : Place :=
  if name = "." then place
  else if name = ".." then if Tree.isUpward place then place ++ [".."] else place.dropLast
  else place ++ [name]

/-- The place a path leads to if it can be followed. -/
def placeOf (path : String) : Place := (names path).foldl lead []

theorem lead_eq_append {name : String} (solid : isPoints name = false) (place : Place) :
    lead place name = place ++ [name] := by
  rw [isPoints, Bool.or_eq_false_iff, decide_eq_false_iff_not, decide_eq_false_iff_not] at solid
  rw [lead, if_neg solid.1, if_neg solid.2]

theorem placeOf_of_names {path name : String} {front : List String}
    (named : names path = front ++ [name]) (solid : isPoints name = false) :
    placeOf path = front.foldl lead [] ++ [name] := by
  rw [placeOf, named, List.foldl_append, List.foldl_cons, List.foldl_nil, lead_eq_append solid]

/-- The last name of a path ends as the path does. -/
theorem names_append {ending : String} (some : ending ≠ "") (whole : '/' ∉ ending.toList)
    (path : String) : ∃ front start, names (path ++ ending) = front ++ [start ++ ending] := by
  obtain ⟨front, last, pieces⟩ := Text.split_append '/' path.toList
  refine ⟨(front.map String.ofList).filter (· ≠ ""), String.ofList last, ?_⟩
  have joined : String.ofList (last ++ ending.toList) = String.ofList last ++ ending := by
    rw [String.ofList_append, String.ofList_toList]
  have filled : String.ofList last ++ ending ≠ "" := by
    intro empty
    exact some (String.append_eq_empty_iff.1 empty).2
  rw [names, Text.splitText, String.toList_append, pieces _ whole, List.map_append,
    List.filter_append, List.map_singleton, joined]
  rw [List.filter_cons_of_pos (a := String.ofList last ++ ending) (decide_eq_true filled),
    List.filter_nil]

theorem names_stroke (directory path : String) :
    names (directory ++ "/" ++ path) = names directory ++ names path := by
  rw [names, Text.splitText, String.toList_append, String.toList_append, List.append_assoc]
  rw [show "/".toList ++ path.toList = '/' :: path.toList from rfl, Text.split_append_mark,
    List.map_append, List.filter_append]
  rfl

theorem names_of_isFileName {name : String} (named : IsFileName name) : names name = [name] := by
  rw [names, Text.splitText, Text.split_of_not_mem named.2.1, List.map_singleton,
    String.ofList_toList, List.filter_cons_of_pos (by simpa using named.1)]
  rfl

theorem names_join {name : String} (named : IsFileName name) (directory : String) :
    names (join directory name) = names directory ++ [name] := by
  have relative : name.toList.head? ≠ some '/' := by
    intro first
    exact named.2.1 (List.mem_of_mem_head? first)
  rw [join, if_neg relative]
  by_cases here : directory = ""
  · subst here
    rw [if_pos rfl, names_of_isFileName named]
    rfl
  · rw [if_neg here]
    split
    · rename_i closed
      -- The stroke at the end of the directory is the one that divides it from the name.
      obtain ⟨front, ends⟩ := List.getLast?_eq_some_iff.1 closed
      have cut : directory = String.ofList front ++ "/" ++ "" := by
        rw [← String.ofList_toList (s := directory), ends, String.ofList_append,
          String.append_empty]
      have tail : names "" = [] := rfl
      rw [cut, names_stroke, tail, List.append_nil, String.append_empty, names_stroke,
        names_of_isFileName named]
    · rw [names_stroke, names_of_isFileName named]

theorem placeOf_join {name : String} (named : IsFileName name) (directory : String) :
    placeOf (join directory name) = placeOf directory ++ [name] :=
  placeOf_of_names (names_join named directory) named.2.2

theorem join_append {name : String} (some : name ≠ "") (directory ending : String) :
    join directory name ++ ending = join directory (name ++ ending) := by
  have first : (name ++ ending).toList.head? = name.toList.head? := by
    rw [String.toList_append]
    exact List.head?_append_of_ne_nil _ (by simpa using some)
  rw [join, join, first]
  split
  · rfl
  · split
    · rfl
    · split <;> simp only [String.append_assoc]

theorem isPoints_of_getLast? {text : String} {c : Char} (ends : text.toList.getLast? = some c)
    (solid : c ≠ '.') : isPoints text = false := by
  rw [isPoints, Bool.or_eq_false_iff, decide_eq_false_iff_not, decide_eq_false_iff_not]
  constructor
  · rintro rfl
    exact solid (Option.some.inj ends).symm
  · rintro rfl
    exact solid (Option.some.inj ends).symm

theorem getLast?_append {ending : String} {c : Char} (ends : ending.toList.getLast? = some c)
    (start : String) : (start ++ ending).toList.getLast? = some c := by
  rw [String.toList_append, List.getLast?_append, ends]
  rfl

theorem IsFileName.append {name ending : String} {c : Char} (named : IsFileName name)
    (whole : '/' ∉ ending.toList) (ends : ending.toList.getLast? = some c) (solid : c ≠ '.') :
    IsFileName (name ++ ending) := by
  refine ⟨?_, ?_, isPoints_of_getLast? (getLast?_append ends name) solid⟩
  · intro empty
    exact named.1 (String.append_eq_empty_iff.1 empty).1
  · rw [String.toList_append, List.mem_append, not_or]
    exact ⟨named.2.1, whole⟩

theorem join_ends (directory name ending : String) :
    ∃ start, join directory (name ++ ending) = start ++ ending := by
  rw [join]
  split
  · exact ⟨name, rfl⟩
  · split
    · exact ⟨name, rfl⟩
    · split
      · exact ⟨directory ++ name, by simp only [String.append_assoc]⟩
      · exact ⟨directory ++ "/" ++ name, by simp only [String.append_assoc]⟩

/-- Paths that end in different letters lead to different places. -/
theorem placeOf_append_ne {ending name : String} {c d : Char} (whole : '/' ∉ ending.toList)
    (ends : ending.toList.getLast? = some c) (solid : c ≠ '.')
    (endsName : name.toList.getLast? = some d) (differ : c ≠ d) (path : String) (place : Place) :
    placeOf (path ++ ending) ≠ place ++ [name] := by
  intro same
  have filled : ending ≠ "" := by
    rintro rfl
    cases ends
  obtain ⟨front, start, named⟩ := names_append filled whole path
  have last := getLast?_append ends start
  rw [placeOf_of_names named (isPoints_of_getLast? last solid)] at same
  obtain ⟨_, same⟩ := List.append_inj' same rfl
  rw [List.cons.inj same |>.1, endsName] at last
  exact differ (Option.some.inj last).symm

theorem placeOf_temporary {name : String} (named : IsFileName name) (directory : String) :
    placeOf (temporary (join directory name)) = placeOf directory ++ [name ++ ".tmp"] := by
  rw [temporary, join_append named.1, placeOf_join (named.append (by decide) rfl (by decide))]

theorem placeOf_ne_temporary {name : String} (named : IsFileName name) (directory : String) :
    placeOf (join directory name) ≠ placeOf (temporary (join directory name)) := by
  rw [placeOf_join named, placeOf_temporary named]
  intro same
  have longer := congrArg String.length (List.cons.inj (List.append_cancel_left same)).1
  rw [String.length_append] at longer
  have : ".tmp".length = 4 := rfl
  omega

def Entry.contents? : Entry → Option Bytes
  | file contents => some contents
  | directory => none

namespace Tree

theorem enter_eq_ok {tree : Tree} {place next : Place} {name : String}
    (entered : tree.enter place name = .ok next) : next = lead place name := by
  rw [enter] at entered
  cases found : tree.get? place with
  | none =>
    rw [found] at entered
    cases entered
  | some entry =>
    cases entry with
    | file contents =>
      rw [found] at entered
      cases entered
    | directory =>
      simp only [found] at entered
      rw [lead]
      split at entered <;> rename_i first
      · cases entered
        rw [if_pos first]
      · rw [if_neg first]
        split at entered <;> rename_i second
        · cases entered
          rw [if_pos second]
        · rw [if_neg second]
          split at entered
          · cases entered
            rfl
          · cases entered

theorem foldlM_enter_eq_ok {tree : Tree} {steps : List String} {start place : Place}
    (followed : steps.foldlM tree.enter start = .ok place) : place = steps.foldl lead start := by
  induction steps generalizing start with
  | nil =>
    cases followed
    rfl
  | cons step rest ih =>
    rw [List.foldlM_cons] at followed
    obtain ⟨next, entered, followed⟩ := Outcome.bind_eq_ok.1 followed
    rw [List.foldl_cons, ← enter_eq_ok entered]
    exact ih followed

theorem namesOf_eq_ok {path : String} {steps : List String} (found : namesOf path = .ok steps) :
    steps = names path := by
  rw [namesOf] at found
  split at found
  · cases found
  · split at found
    · cases found
    · split at found
      · cases found; rfl
      · cases found

theorem locate_eq_ok {tree : Tree} {path : String} {place : Place}
    (located : tree.locate path = .ok place) : place = placeOf path := by
  obtain ⟨steps, named, located⟩ := Outcome.bind_eq_ok.1 located
  obtain ⟨found, followed, located⟩ := Outcome.bind_eq_ok.1 located
  have same : found = placeOf path := by
    rw [foldlM_enter_eq_ok followed, namesOf_eq_ok named, placeOf]
  split at located
  · rw [enter_eq_ok located, same]
    rfl
  · cases located
    exact same

theorem slot_eq_ok {tree : Tree} {path : String} {place : Place}
    (found : tree.slot path = .ok (some place)) : place = placeOf path := by
  obtain ⟨steps, named, found⟩ := Outcome.bind_eq_ok.1 found
  obtain ⟨last, followed, found⟩ := Outcome.bind_eq_ok.1 found
  split at found
  · cases found
  · cases found
    rw [foldlM_enter_eq_ok followed, namesOf_eq_ok named, placeOf]

/-- The contents of the file at a place. -/
def fileAt (tree : Tree) (place : Place) : Option Bytes := (tree.get? place).bind Entry.contents?

theorem read_eq_ok {tree : Tree} {path : String} {contents : Bytes}
    (found : tree.read path = .ok contents) : tree.fileAt (placeOf path) = some contents := by
  obtain ⟨place, located, found⟩ := Outcome.bind_eq_ok.1 found
  rw [← locate_eq_ok located, fileAt]
  split at found <;> cases found
  rename_i entry
  rw [entry]
  rfl

theorem get?_put {tree : Tree} {place : Place} (below : isUpward place = false) (entry : Entry) :
    (tree.put place entry).get? = Function.update tree.get? place (some entry) := by
  funext other
  by_cases here : other = place
  · subst here
    rw [get?, if_neg (by simp [below]), Function.update_self, put, List.lookup_cons]
    simp
  · have differs : (other == place) = false := by simpa using here
    rw [Function.update_of_ne here, get?, get?, put, List.lookup_cons, differs, lookup_filter,
      if_neg here]

theorem get?_erase {tree : Tree} {place : Place} (below : isUpward place = false) :
    (tree.erase place).get? = Function.update tree.get? place none := by
  funext other
  by_cases here : other = place
  · subst here
    rw [get?, if_neg (by simp [below]), Function.update_self, erase, lookup_filter, if_pos rfl]
  · rw [Function.update_of_ne here, get?, get?, erase, lookup_filter, if_neg here]

theorem isUpward_of_get? {tree : Tree} {place : Place} (other : tree.get? place ≠ some .directory) :
    isUpward place = false := by
  by_contra upward
  rw [get?, if_pos (by simpa using upward)] at other
  exact other rfl

theorem fileAt_of_get? {tree next : Tree} {place : Place} {entry : Option Entry}
    (changed : next.get? = Function.update tree.get? place entry) :
    next.fileAt = Function.update tree.fileAt place (entry.bind Entry.contents?) := by
  funext other
  by_cases here : other = place
  · subst here
    rw [fileAt, changed, Function.update_self, Function.update_self]
  · rw [fileAt, changed, Function.update_of_ne here, Function.update_of_ne here, fileAt]

theorem write_eq_ok_iff {tree next : Tree} {path : String} {contents : Bytes} :
    tree.write path contents = .ok next ↔
      tree.locate path = .ok (placeOf path) ∧ tree.get? (placeOf path) ≠ some .directory ∧
        next = tree.put (placeOf path) (.file contents) := by
  constructor
  · intro written
    obtain ⟨place, located, written⟩ := Outcome.bind_eq_ok.1 written
    obtain rfl := locate_eq_ok located
    split at written <;> rename_i free <;> cases written
    exact ⟨located, free, rfl⟩
  · rintro ⟨located, free, rfl⟩
    rw [write, located]
    exact if_neg free

theorem write_eq_ok {tree next : Tree} {path : String} {contents : Bytes}
    (written : tree.write path contents = .ok next) :
    next.fileAt = Function.update tree.fileAt (placeOf path) (some contents) := by
  obtain ⟨_, free, rfl⟩ := write_eq_ok_iff.1 written
  rw [fileAt_of_get? (get?_put (isUpward_of_get? free) _)]
  rfl

theorem rename_eq_ok_iff {tree next : Tree} {source target : String} :
    tree.rename source target = .ok next ↔ ∃ contents,
      tree.slot source = .ok (some (placeOf source)) ∧
      tree.slot target = .ok (some (placeOf target)) ∧
      tree.get? (placeOf source) = some (.file contents) ∧ endsWithStroke target = false ∧
      tree.get? (placeOf target) ≠ some .directory ∧
      next = (tree.erase (placeOf source)).put (placeOf target) (.file contents) := by
  constructor
  · intro moved
    obtain ⟨old, foundOld, moved⟩ := Outcome.bind_eq_ok.1 moved
    obtain ⟨new, foundNew, moved⟩ := Outcome.bind_eq_ok.1 moved
    cases old with
    | none => cases moved
    | some old =>
      cases new with
      | none => cases moved
      | some new =>
        obtain rfl := slot_eq_ok foundOld
        obtain rfl := slot_eq_ok foundNew
        simp only at moved
        cases found : tree.get? (placeOf source) with
        | none =>
          rw [found] at moved
          cases moved
        | some entry =>
          rw [found] at moved
          cases entry with
          | directory => cases moved
          | file contents =>
            simp only at moved
            split at moved
            · cases moved
            · rename_i closed
              split at moved <;> rename_i free <;> cases moved
              exact ⟨contents, foundOld, foundNew, rfl, by simpa using closed, free, rfl⟩
  · rintro ⟨contents, foundOld, foundNew, found, closed, free, rfl⟩
    rw [rename, foundOld, foundNew]
    simp only [bind, Except.bind, found, closed]
    exact if_neg free

theorem rename_eq_ok {tree next : Tree} {source target : String}
    (moved : tree.rename source target = .ok next) :
    next.fileAt = Function.update (Function.update tree.fileAt (placeOf source) none)
      (placeOf target) (tree.fileAt (placeOf source)) := by
  obtain ⟨contents, _, _, found, _, free, rfl⟩ := rename_eq_ok_iff.1 moved
  have solid : tree.get? (placeOf source) ≠ some .directory := by
    rw [found]
    simp
  rw [fileAt_of_get? (get?_put (isUpward_of_get? free) _),
    fileAt_of_get? (get?_erase (isUpward_of_get? solid)), fileAt, found]
  rfl

/-- A directory is made only where nothing stands. -/
theorem createDir_eq_ok_iff {tree next : Tree} {path : String} :
    tree.createDir path = .ok next ↔ tree.slot path = .ok (some (placeOf path)) ∧
      tree.get? (placeOf path) = none ∧ next = tree.put (placeOf path) .directory := by
  constructor
  · intro made
    obtain ⟨place, found, made⟩ := Outcome.bind_eq_ok.1 made
    cases place with
    | none => cases made
    | some place =>
      obtain rfl := slot_eq_ok found
      simp only at made
      split at made <;> rename_i free <;> cases made
      exact ⟨found, by simpa using free, rfl⟩
  · rintro ⟨found, free, rfl⟩
    rw [createDir, found]
    simp only [bind, Except.bind, free]
    rfl

theorem createDir_eq_ok {tree next : Tree} {path : String}
    (made : tree.createDir path = .ok next) : next.fileAt = tree.fileAt := by
  obtain ⟨_, empty, rfl⟩ := createDir_eq_ok_iff.1 made
  have below : isUpward (placeOf path) = false := isUpward_of_get? (by rw [empty]; simp)
  rw [fileAt_of_get? (get?_put below _)]
  exact Function.update_eq_self_iff.2 (by rw [fileAt, empty]; rfl)

theorem ensureDir_eq_ok {tree next : Tree} {path : String}
    (made : tree.ensureDir path = .ok next) : next.fileAt = tree.fileAt := by
  rw [ensureDir] at made
  split at made
  · split at made <;> cases made
    rfl
  · exact createDir_eq_ok made

theorem fileAt_after {tree : Tree} {change : Except Cause Tree}
    (kept : ∀ next, change = .ok next → next.fileAt = tree.fileAt) :
    (tree.after change).2.fileAt = tree.fileAt := by
  cases change with
  | ok next => exact kept next rfl
  | error cause => rfl

theorem fileAt_createEach (paths : List String) (tree : Tree) :
    (createEach paths tree).2.fileAt = tree.fileAt := by
  induction paths with
  | nil => rfl
  | cons path above ih =>
    rw [createEach]
    split
    · split
      · rename_i next made
        rw [made] at ih
        rw [fileAt_after fun _ => ensureDir_eq_ok]
        exact ih
      · exact ih
    · exact fileAt_after fun _ => ensureDir_eq_ok

theorem fileAt_createDirs (tree : Tree) (path : String) :
    (tree.createDirs path).2.fileAt = tree.fileAt :=
  fileAt_createEach (ancestry path) tree

end Tree

namespace Operation

/-- What an operation that succeeds does to the files. -/
def effect : Operation → (Place → Option Bytes) → Place → Option Bytes
  | createDirs _, files => files
  | write path contents, files => Function.update files (placeOf path) (some contents)
  | rename source target, files =>
    Function.update (Function.update files (placeOf source) none) (placeOf target)
      (files (placeOf source))

/-- The places where an operation may change a file. -/
def touched : Operation → List Place
  | createDirs _ => []
  | write path _ => [placeOf path]
  | rename source target => [placeOf source, placeOf target]

theorem effect_of_not_touched {op : Operation} {place : Place} (apart : place ∉ op.touched)
    (files : Place → Option Bytes) : op.effect files place = files place := by
  cases op with
  | createDirs path => rfl
  | write path contents =>
    rw [touched, List.mem_singleton] at apart
    exact Function.update_of_ne apart _ _
  | rename source target =>
    simp only [touched, List.mem_cons, List.not_mem_nil, or_false, not_or] at apart
    rw [effect, Function.update_of_ne apart.2, Function.update_of_ne apart.1]

theorem after_cases {tree : Tree} {change : Except Cause Tree} {files : Place → Option Bytes}
    (changed : ∀ next, change = .ok next → next.fileAt = files) :
    (∃ next, tree.after change = (.ok (), next) ∧ next.fileAt = files) ∨
      ∃ cause next, tree.after change = (.error cause, next) ∧ next.fileAt = tree.fileAt := by
  cases change with
  | ok next => exact Or.inl ⟨next, rfl, changed next rfl⟩
  | error cause => exact Or.inr ⟨cause, tree, rfl, rfl⟩

/-- An operation has its effect on the files, or it fails and changes none. -/
theorem apply_cases (op : Operation) (tree : Tree) :
    (∃ next, op.apply tree = (.ok (), next) ∧ next.fileAt = op.effect tree.fileAt) ∨
      ∃ cause next, op.apply tree = (.error cause, next) ∧ next.fileAt = tree.fileAt := by
  cases op with
  | createDirs path =>
    have kept := tree.fileAt_createDirs path
    rw [apply]
    rcases made : tree.createDirs path with ⟨cause | _, next⟩ <;> rw [made] at kept
    · exact Or.inr ⟨cause, next, rfl, kept⟩
    · exact Or.inl ⟨next, rfl, kept⟩
  | write path contents => exact after_cases fun _ => Tree.write_eq_ok
  | rename source target => exact after_cases fun _ => Tree.rename_eq_ok

theorem touched_of_mem_replace {directory path : String} {contents : Bytes} {op : Operation}
    (member : op ∈ .createDirs directory :: replace path contents) {place : Place}
    (touches : place ∈ op.touched) : place = placeOf path ∨ place = placeOf (temporary path) := by
  simp only [replace, List.mem_cons, List.not_mem_nil, or_false] at member
  rcases member with rfl | rfl | rfl
  · cases touches
  · exact Or.inr (List.mem_singleton.1 touches)
  · simp only [touched, List.mem_cons, List.not_mem_nil, or_false] at touches
    exact touches.symm

/-- Replacing one file of a directory leaves the others alone. -/
theorem replace_apart {name other above : String} {contents : Bytes} {op : Operation}
    (named : IsFileName name) (namedOther : IsFileName other) (differs : other ≠ name)
    (differsAside : other ≠ name ++ ".tmp") (directory : String)
    (member : op ∈ .createDirs above :: replace (join directory name) contents) :
    placeOf (join directory other) ∉ op.touched := by
  intro touches
  have place := placeOf_join namedOther directory
  rcases touched_of_mem_replace member touches with same | same
  · rw [place, placeOf_join named] at same
    exact differs (List.cons.inj (List.append_cancel_left same)).1
  · rw [place, placeOf_temporary named] at same
    exact differsAside (List.cons.inj (List.append_cancel_left same)).1

/-- What operations that all succeed do to the files. -/
def effects (ops : List Operation) (files : Place → Option Bytes) : Place → Option Bytes :=
  ops.foldl (fun files op => op.effect files) files

theorem effects_append (first second : List Operation) (files : Place → Option Bytes) :
    effects (first ++ second) files = effects second (effects first files) :=
  List.foldl_append

theorem effects_of_not_touched {ops : List Operation} {place : Place}
    (apart : ∀ op ∈ ops, place ∉ op.touched) (files : Place → Option Bytes) :
    effects ops files place = files place := by
  induction ops generalizing files with
  | nil => rfl
  | cons op rest ih =>
    have later := ih (fun other member => apart other (List.mem_cons_of_mem _ member))
      (op.effect files)
    rw [effects, List.foldl_cons, ← effects, later]
    exact effect_of_not_touched (apart op List.mem_cons_self) files

/-- A place that only one of some operations touches changes with that one. -/
theorem effects_take {before after : List Operation} {op : Operation} {place : Place}
    (first : ∀ other ∈ before, place ∉ other.touched)
    (last : ∀ other ∈ after, place ∉ other.touched) (count : Nat)
    (files : Place → Option Bytes) :
    effects ((before ++ op :: after).take count) files place =
      if count ≤ before.length then files place else op.effect (effects before files) place := by
  split
  · rename_i early
    rw [List.take_append_of_le_length early]
    exact effects_of_not_touched
      (fun other member => first other (List.mem_of_mem_take member)) files
  · rename_i late
    obtain ⟨more, rfl⟩ : ∃ more, count = before.length + (more + 1) :=
      ⟨count - before.length - 1, by omega⟩
    rw [List.take_length_add_append, List.take_succ_cons, effects_append]
    exact effects_of_not_touched (fun other member => last other (List.mem_of_mem_take member)) _

/-- A file is replaced when its new contents are moved over it. -/
theorem effects_take_replace {before after : List Operation} {path : String}
    (first : ∀ other ∈ before, placeOf path ∉ other.touched)
    (last : ∀ other ∈ after, placeOf path ∉ other.touched)
    (apart : placeOf path ≠ placeOf (temporary path)) (contents : Bytes) (count : Nat)
    (files : Place → Option Bytes) :
    effects ((before ++ replace path contents ++ after).take count) files (placeOf path) =
      if count ≤ before.length + 1 then files (placeOf path) else some contents := by
  have split : before ++ replace path contents ++ after =
      (before ++ [write (temporary path) contents]) ++ rename (temporary path) path :: after := by
    simp [replace]
  have written : ∀ other ∈ before ++ [write (temporary path) contents],
      placeOf path ∉ other.touched := by
    intro other member
    rcases List.mem_append.1 member with member | member
    · exact first other member
    · rw [List.mem_singleton.1 member, touched, List.mem_singleton]
      exact apart
  have moved : (rename (temporary path) path).effect
      (effects (before ++ [write (temporary path) contents]) files) (placeOf path) =
      some contents := by
    rw [effect, Function.update_self, effects_append]
    exact Function.update_self _ _ _
  rw [split, effects_take written last, moved, List.length_append, List.length_singleton]

/-- What is moved to a place stays there if nothing touches it afterwards. -/
theorem effects_replace {after : List Operation} {path : String}
    (last : ∀ other ∈ after, placeOf path ∉ other.touched) (before : List Operation)
    (contents : Bytes) (files : Place → Option Bytes) :
    effects (before ++ replace path contents ++ after) files (placeOf path) = some contents := by
  rw [effects_append, effects_of_not_touched last, effects_append]
  refine (Function.update_self ..).trans ?_
  exact Function.update_self ..

end Operation

open Operation (effects)

/-- How many operations succeed before the first that fails. -/
def performed : List Operation → Tree → Nat
  | [], _ => 0
  | op :: rest, tree =>
    match op.apply tree with
    | (.ok _, next) => performed rest next + 1
    | (.error _, _) => 0

theorem performed_le (ops : List Operation) (tree : Tree) : performed ops tree ≤ ops.length := by
  induction ops generalizing tree with
  | nil => exact Nat.le_refl 0
  | cons op rest ih =>
    rcases op.apply_cases tree with ⟨next, applied, _⟩ | ⟨cause, next, applied, _⟩
    · have := ih next
      simp only [performed, applied, List.length_cons]
      omega
    · simp [performed, applied]

/-- Performing operations succeeds exactly if each of them does. -/
theorem perform_eq_ok (ops : List Operation) (tree : Tree) :
    (perform ops tree).1 = .ok () ↔ performed ops tree = ops.length := by
  induction ops generalizing tree with
  | nil => simp [perform, performed]
  | cons op rest ih =>
    rcases op.apply_cases tree with ⟨next, applied, _⟩ | ⟨cause, next, applied, _⟩
    · simp [perform, performed, applied, ih next]
    · simp [perform, performed, applied]

/-- The files after performing operations are those that the successful ones make. -/
theorem fileAt_perform (ops : List Operation) (tree : Tree) :
    (perform ops tree).2.fileAt = effects (ops.take (performed ops tree)) tree.fileAt := by
  induction ops generalizing tree with
  | nil => rfl
  | cons op rest ih =>
    rcases op.apply_cases tree with ⟨next, applied, changed⟩ | ⟨cause, next, applied, kept⟩
    · simp only [perform, performed, applied, List.take_succ_cons]
      rw [ih next, changed]
      rfl
    · simp only [perform, performed, applied, List.take_zero]
      exact kept

theorem fileAt_of_perform {ops : List Operation} {tree next : Tree}
    (done : perform ops tree = (.ok (), next)) : next.fileAt = effects ops tree.fileAt := by
  have files := fileAt_perform ops tree
  rw [(perform_eq_ok ops tree).1 (congrArg Prod.fst done), List.take_length, done] at files
  exact files

/-- Operations that are broken off after a number of them. -/
theorem fileAt_perform_take (ops : List Operation) (count : Nat) (tree : Tree) :
    (perform (ops.take count) tree).2.fileAt =
      effects (ops.take (performed (ops.take count) tree)) tree.fileAt := by
  have within : performed (ops.take count) tree ≤ count :=
    Nat.le_trans (performed_le _ tree) (List.length_take_le count ops)
  rw [fileAt_perform, List.take_take, Nat.min_eq_left within]

end Files

end CopyPatch
