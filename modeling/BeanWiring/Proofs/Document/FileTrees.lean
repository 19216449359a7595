/-
# Directories of a file tree

A file tree lists its files and directories by their places.  What a directory holds is put together
from these lists, and the files in it are those whose places lie below, since a tree that is built
up has all directories on the way to what it has.

Main statements:

* `Made.isClosed` : however a tree was made, the directories on the way are there;
* `hasFile_entriesOf_iff` : the files in a directory;
* `exists_locate_eq_ok` : what a locator finds in a tree.
-/
import BeanWiring.Document.FileTree
import BeanWiring.Proofs.Keyed
import BeanWiring.Proofs.Project.Locating

namespace BeanWiring.FileTree

/-! ## Directories on the way -/

/-- All directories on the way to a file or a directory are there. -/
structure IsClosed (t : FileTree) : Prop where
  directories : ∀ place ∈ t.directories, ∀ front, front <+: place → front ∈ t.directories
  files : ∀ file ∈ t.files, ∀ front, front <+: file.1 → front ≠ file.1 → front ∈ t.directories

/-- The walk along some steps sets out from its place. -/
theorem mem_placesAlong_self (place : Place) (steps : List String) :
    place ∈ placesAlong place steps := by
  cases steps <;> exact List.mem_cons_self

/-- It arrives at its last place. -/
theorem foldl_placeAfter_mem (place : Place) (steps : List String) :
    steps.foldl placeAfter place ∈ placesAlong place steps := by
  induction steps generalizing place with
  | nil => exact List.mem_cons_self
  | cons step steps ih => exact List.mem_cons_of_mem _ (ih _)

/-- Before the place that a step leads to come those before the place that it starts from. -/
theorem prefix_of_prefix_placeAfter {place front : Place} {step : String}
    (before : front <+: placeAfter place step) :
    front = placeAfter place step ∨ front <+: place := by
  rw [placeAfter] at before ⊢
  split
  · rename_i idle
    rw [if_pos idle] at before
    exact .inr before
  · rename_i moving
    rw [if_neg moving] at before
    split
    · rename_i up
      rw [if_pos up] at before
      exact .inr (before.trans (List.dropLast_prefix place))
    · rename_i down
      rw [if_neg down] at before
      exact List.prefix_concat_iff.1 before

/-- Steps lead through all places on the way. -/
theorem mem_placesAlong_of_prefix {start place front : Place} {steps : List String}
    (through : place ∈ placesAlong start steps) (before : front <+: place) :
    front ∈ placesAlong start steps ∨ front <+: start := by
  induction steps generalizing start with
  | nil =>
    rw [placesAlong, List.mem_singleton] at through
    exact .inr (through ▸ before)
  | cons step steps ih =>
    rcases List.mem_cons.1 through with rfl | later
    · exact .inr before
    · rcases ih later with there | before
      · exact .inl (List.mem_cons_of_mem _ there)
      · rcases prefix_of_prefix_placeAfter before with rfl | before
        · exact .inl (List.mem_cons_of_mem _ (mem_placesAlong_self _ _))
        · exact .inr before

/-- Making directories adds those along the path. -/
theorem mem_directories_makeDirectories {t : FileTree} {path : List String} {place : Place} :
    place ∈ (t.makeDirectories path).directories ↔
      place ∈ t.directories ∨ place ∈ placesAlong [] path := by
  rw [makeDirectories, Keyed.mem_distinct, List.mem_append]

/-- In an empty tree there is nothing on the way. -/
theorem isClosed_empty (root : String) : (empty root).IsClosed where
  directories := by
    intro place listed front before
    rw [List.mem_singleton.1 listed, List.prefix_nil] at before
    exact List.mem_singleton.2 before
  files := nofun

namespace IsClosed

variable {t : FileTree}

/-- Making directories keeps a tree closed. -/
theorem makeDirectories (closed : t.IsClosed) (path : List String) :
    (t.makeDirectories path).IsClosed where
  directories := by
    intro place listed front before
    rw [mem_directories_makeDirectories] at listed ⊢
    rcases listed with old | along
    · exact .inl (closed.directories place old front before)
    · rcases mem_placesAlong_of_prefix along before with there | atRoot
      · exact .inr there
      · rw [List.prefix_nil.1 atRoot]
        exact .inr (mem_placesAlong_self _ _)
  files := fun file listed front before proper =>
    mem_directories_makeDirectories.2 (.inl (closed.files file listed front before proper))

/-- Adding a directory keeps a tree closed. -/
theorem addDirectory (closed : t.IsClosed) (path : String) : (t.addDirectory path).IsClosed :=
  closed.makeDirectories (steps path)

/-- Writing a file keeps a tree closed. -/
theorem writeFile (closed : t.IsClosed) (path : String) (content : FileContent) :
    (t.writeFile path content).IsClosed := by
  have made := closed.makeDirectories (steps path).dropLast
  refine ⟨made.directories, fun file listed front before proper => ?_⟩
  rcases Keyed.eq_or_mem_of_mem_put listed with rfl | old
  · -- The steps before the last one lead to a directory that was made.
    have nonempty : steps path ≠ [] := by
      rw [steps]
      exact fun none => Text.splitBy_ne_nil _ _ (List.map_eq_nil_iff.1 none)
    obtain ⟨last, split⟩ : ∃ last, steps path = (steps path).dropLast ++ [last] :=
      ⟨_, (List.dropLast_append_getLast nonempty).symm⟩
    rw [split, List.foldl_concat] at before proper
    rcases prefix_of_prefix_placeAfter before with same | before
    · exact absurd same proper
    · exact made.directories _ (mem_directories_makeDirectories.2
        (.inr (foldl_placeAfter_mem _ _))) front before
  · exact made.files file old front before proper

end IsClosed

/-- A tree that was made of nothing by adding directories and writing files. -/
inductive Made : FileTree → Prop
  | empty (root : String) : Made (FileTree.empty root)
  | addDirectory {t : FileTree} (before : Made t) (path : String) : Made (t.addDirectory path)
  | writeFile {t : FileTree} (before : Made t) (path : String) (content : FileContent) :
      Made (t.writeFile path content)

/-- In such a tree all directories on the way are there. -/
theorem Made.isClosed {t : FileTree} (made : t.Made) : t.IsClosed := by
  induction made with
  | empty root => exact isClosed_empty root
  | addDirectory _ path ih => exact ih.addDirectory path
  | writeFile _ path content ih => exact ih.writeFile path content

/-! ## Files below a directory -/

/-- A place has a name in a directory if it is right below. -/
theorem nameIn?_eq_some_iff {directory place : Place} {name : String} :
    nameIn? directory place = some name ↔ place = directory ++ [name] := by
  rw [nameIn?]
  constructor
  · intro found
    split at found
    · rename_i same
      obtain ⟨front, rfl⟩ := List.getLast?_eq_some_iff.1 found
      rw [← same, List.dropLast_concat]
    · cases found
  · rintro rfl
    rw [if_pos List.dropLast_concat, List.getLast?_concat]

/-- Files listed one after the other are found at their names. -/
theorem hasFile_files_iff {names : List String} {path : List FileName} :
    (names.foldr (fun name => .file (.text name)) Directory.empty).HasFile path ↔
      ∃ name ∈ names, path = [.text name] := by
  induction names with
  | nil => simp
  | cons name names ih => simp [ih]

/-- Directories listed one after the other hold what stands inside each. -/
theorem hasFile_directories_iff {names : List String} {inside : String → Directory}
    {rest : Directory} {path : List FileName} :
    (names.foldr (fun name => .directory (.text name) (inside name)) rest).HasFile path ↔
      (∃ name ∈ names, ∃ below, path = .text name :: below ∧ (inside name).HasFile below) ∨
        rest.HasFile path := by
  induction names with
  | nil => simp
  | cons name names ih => simp [ih, or_assoc]

variable {t : FileTree}

/-- Down to a depth, a directory has the files whose places lie so far below at most. -/
theorem hasFile_entriesWithin_iff (closed : t.IsClosed) {depth : Nat} {place : Place}
    {path : List FileName} : (t.entriesWithin depth place).HasFile path ↔
      ∃ names : List String, path = names.map .text ∧ names ≠ [] ∧ names.length ≤ depth ∧
        ∃ content, (place ++ names, content) ∈ t.files := by
  induction depth generalizing place path with
  | zero =>
    rw [entriesWithin]
    refine ⟨nofun, ?_⟩
    rintro ⟨names, -, nonempty, short, -⟩
    exact absurd (List.length_eq_zero_iff.1 (Nat.le_zero.1 short)) nonempty
  | succ depth ih =>
    rw [entriesWithin, hasFile_directories_iff, hasFile_files_iff]
    simp only [List.mem_filterMap, nameIn?_eq_some_iff, ih]
    constructor
    · rintro (⟨name, -, _, rfl, names, rfl, -, short, content, listed⟩ |
        ⟨name, ⟨⟨_, content⟩, listed, rfl⟩, rfl⟩)
      · refine ⟨name :: names, rfl, List.cons_ne_nil _ _, Nat.succ_le_succ short, content, ?_⟩
        rwa [List.append_assoc] at listed
      · exact ⟨[name], rfl, List.cons_ne_nil _ _, Nat.succ_le_succ (Nat.zero_le _), content, listed⟩
    · rintro ⟨names, rfl, nonempty, short, content, listed⟩
      obtain ⟨name, rest, rfl⟩ := List.exists_cons_of_ne_nil nonempty
      by_cases last : rest = []
      · subst last
        exact .inr ⟨name, ⟨_, listed, rfl⟩, rfl⟩
      · have split : place ++ name :: rest = (place ++ [name]) ++ rest := by
          rw [List.append_assoc]
          rfl
        have there : place ++ [name] ∈ t.directories := by
          refine closed.files _ listed _ (split ▸ List.prefix_append _ _) fun same => last ?_
          rw [split] at same
          exact List.append_right_eq_self.1 same.symm
        exact .inl ⟨name, ⟨_, there, rfl⟩, _, rfl, rest, rfl, last, Nat.le_of_succ_le_succ short,
          content, split ▸ listed⟩

/-- No file stands deeper than the tree is high. -/
theorem length_le_height {place : Place} {content : FileContent}
    (listed : (place, content) ∈ t.files) : place.length ≤ t.height := by
  refine List.le_max?_getD_of_mem (List.mem_map_of_mem (List.mem_append_left _ ?_))
  exact List.mem_map_of_mem listed

/-- A directory has the files whose places lie below. -/
theorem hasFile_entriesOf_iff (closed : t.IsClosed) {place : Place} {path : List FileName} :
    (t.entriesOf place).HasFile path ↔
      ∃ names : List String, path = names.map .text ∧ names ≠ [] ∧
        ∃ content, (place ++ names, content) ∈ t.files := by
  rw [entriesOf, hasFile_entriesWithin_iff closed]
  refine exists_congr fun names => and_congr_right fun _ => and_congr_right fun _ => ?_
  refine and_iff_right_of_imp ?_
  rintro ⟨content, listed⟩
  have deep := length_le_height listed
  rw [List.length_append] at deep
  omega

/-- However a tree was made, a locator on a directory of it finds the paths, seen from the
directory, of the files below it that are config documents and in no excluded directory. -/
theorem exists_locate_eq_ok (made : t.Made) (settings : ProjectSettings) {locator : Locator}
    {place : Place} (known : t.directory? locator.directory = some place) :
    ∃ names, t.locate settings locator = .ok names ∧ ∀ name, name ∈ names ↔
      ∃ directories file content, (place ++ (directories ++ [file]), content) ∈ t.files ∧
        (∀ n ∈ directories, n ∉ locator.excluded) ∧
        name = String.intercalate "/" (directories ++ [file]) ∧
        settings.isConfigName name = true := by
  refine ⟨settings.locateIn locator.excluded (t.entriesOf place), by rw [locate, known],
    fun name => ?_⟩
  have offers : ∀ {directories : List String} {file : String},
      (t.entriesOf place).Offers locator.excluded directories file ↔
        (∃ content, (place ++ (directories ++ [file]), content) ∈ t.files) ∧
          ∀ n ∈ directories, n ∉ locator.excluded := by
    intro directories file
    refine and_congr_left fun _ =>
      (hasFile_entriesOf_iff made.isClosed).trans ⟨?_, fun listed => ?_⟩
    · rintro ⟨names, same, -, listed⟩
      have texts : Function.Injective FileName.text := fun _ _ => FileName.text.inj
      rwa [List.map_injective_iff.2 texts same]
    · exact ⟨_, rfl, by simp, listed⟩
  rw [ProjectSettings.mem_locateIn_iff]
  constructor
  · rintro ⟨directories, file, offered, named⟩
    obtain ⟨⟨content, listed⟩, entered⟩ := offers.1 offered
    exact ⟨directories, file, content, listed, entered, named⟩
  · rintro ⟨directories, file, content, listed, entered, named⟩
    exact ⟨directories, file, offers.2 ⟨⟨content, listed⟩, entered⟩, named⟩

end BeanWiring.FileTree
