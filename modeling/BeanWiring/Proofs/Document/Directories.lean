/-
# Files in directories

Which files a walk through a directory meets, and by what names they are known: the files on whose
path all directories are entered, each once.  A file is known by its path if all names on the path
are texts, and two files are never known by one name, because names have no slashes.

Main statements:

* `mem_walk_file_iff` : the files that a walk meets;
* `pairwise_walk` : a walk meets nothing twice;
* `mem_names_iff`, `nodup_names` : the paths of the files that are not in excluded directories.
-/
import Mathlib.Data.List.Basic
import BeanWiring.Document.Directory
import BeanWiring.Proofs.Config.Locations

namespace BeanWiring

/-! ## Paths as texts -/

namespace FileName

/-- A name that a file can have: as a text it is not empty and has no slash. -/
def IsProper : FileName → Prop
  | text name => name ≠ "" ∧ '/' ∉ name.toList
  | bytes _ => True

instance (name : FileName) : Decidable name.IsProper :=
  match name with
  | text _ => inferInstanceAs (Decidable (_ ∧ _))
  | bytes _ => inferInstanceAs (Decidable True)

/-- A text is not among others exactly if they do not list it. -/
theorem isAmong_eq_false_iff {texts : List String} {name : String} :
    (text name).isAmong texts = false ↔ name ∉ texts := by
  rw [isAmong, ← Bool.not_eq_true, List.contains_iff_mem]

theorem text?_eq_some_iff {name : FileName} {t : String} : name.text? = some t ↔ name = text t := by
  cases name <;> simp [text?]

/-- The names on a path are all texts if the path is made of texts. -/
theorem mapM_text?_eq_some_iff {path : List FileName} {names : List String} :
    path.mapM text? = some names ↔ path = names.map text := by
  induction path generalizing names with
  | nil => cases names <;> simp
  | cons name path ih =>
    simp only [List.mapM_cons, Option.bind_eq_bind, Option.bind_eq_some_iff, Option.pure_def,
      Option.some.injEq, text?_eq_some_iff, ih]
    constructor
    · rintro ⟨first, rfl, rest, rfl, rfl⟩
      rfl
    · intro split
      cases names with
      | nil => cases split
      | cons first rest =>
        obtain ⟨rfl, rfl⟩ := List.cons.inj split
        exact ⟨first, rfl, rest, rfl, rfl⟩

/-- A path has a name if it is made of texts, and then that is these with slashes between them. -/
theorem pathText?_eq_some_iff {path : List FileName} {name : String} :
    pathText? path = some name ↔
      ∃ names : List String, path = names.map text ∧ name = String.intercalate "/" names := by
  rw [pathText?, Option.map_eq_some_iff]
  simp only [mapM_text?_eq_some_iff]
  exact exists_congr fun names => and_congr_right fun _ => eq_comm

/-- Paths of proper names are determined by their texts. -/
theorem intercalate_inj {names names' : List String} (proper : ∀ n ∈ names, (text n).IsProper)
    (proper' : ∀ n ∈ names', (text n).IsProper) :
    String.intercalate "/" names = String.intercalate "/" names' ↔ names = names' := by
  have segments : ∀ {ns : List String}, (∀ n ∈ ns, (text n).IsProper) →
      ∀ step ∈ ns.map String.toList, step ≠ [] ∧ '/' ∉ step := by
    intro ns all step listed
    obtain ⟨n, there, rfl⟩ := List.mem_map.1 listed
    exact ⟨fun empty => (all n there).1 (String.toList_inj.1 empty), (all n there).2⟩
  have name : ∀ ns : List String, pathName (ns.map String.toList) = String.intercalate "/" ns := by
    intro ns
    rw [pathName, List.map_map]
    congr 1
    exact List.map_congr_left (fun _ _ => String.ofList_toList) |>.trans (List.map_id ns)
  rw [← name, ← name, pathName_inj (segments proper) (segments proper')]
  exact (List.map_injective_iff.2 fun _ _ => String.toList_inj.1).eq_iff

end FileName

namespace Directory

/-! ## Files on their paths -/

/-- In the directory is a file, the names on the path to it being the given ones. -/
inductive HasFile : Directory → List FileName → Prop
  | here (name : FileName) (rest : Directory) : HasFile (.file name rest) [name]
  | inside {name : FileName} {inside rest : Directory} {path : List FileName}
      (found : HasFile inside path) : HasFile (.directory name inside rest) (name :: path)
  | pastFile {name : FileName} {rest : Directory} {path : List FileName}
      (found : HasFile rest path) : HasFile (.file name rest) path
  | pastOther {name : FileName} {rest : Directory} {path : List FileName}
      (found : HasFile rest path) : HasFile (.other name rest) path
  | pastDirectory {name : FileName} {inside rest : Directory} {path : List FileName}
      (found : HasFile rest path) : HasFile (.directory name inside rest) path

/-- The names of the entries of a directory. -/
def entryNames : Directory → List FileName
  | empty => []
  | file name rest | other name rest | directory name _ rest => name :: entryNames rest

/-- In the directory and in each one inside, entries have proper and different names. -/
def IsTree : Directory → Prop
  | empty => True
  | file name rest | other name rest => name.IsProper ∧ name ∉ rest.entryNames ∧ rest.IsTree
  | directory name inside rest =>
    name.IsProper ∧ name ∉ rest.entryNames ∧ inside.IsTree ∧ rest.IsTree

instance decidableIsTree : (d : Directory) → Decidable d.IsTree
  | empty => inferInstanceAs (Decidable True)
  | file name rest | other name rest =>
    have := decidableIsTree rest
    inferInstanceAs (Decidable (name.IsProper ∧ name ∉ rest.entryNames ∧ rest.IsTree))
  | directory name inside rest =>
    have := decidableIsTree inside
    have := decidableIsTree rest
    inferInstanceAs (Decidable
      (name.IsProper ∧ name ∉ rest.entryNames ∧ inside.IsTree ∧ rest.IsTree))

section Files

variable {name : FileName} {inside rest d : Directory} {path above : List FileName}
  {enters : FileName → Bool}

@[simp] theorem not_hasFile_empty : ¬HasFile .empty path := nofun

/-- A file is found at its name, and the rest is found behind it. -/
@[simp] theorem hasFile_file_iff :
    HasFile (.file name rest) path ↔ path = [name] ∨ rest.HasFile path := by
  constructor
  · rintro (_ | _ | found)
    · exact .inl rfl
    · exact .inr found
  · rintro (rfl | found)
    · exact .here name rest
    · exact .pastFile found

/-- What is neither file nor directory is passed by. -/
@[simp] theorem hasFile_other_iff : HasFile (.other name rest) path ↔ rest.HasFile path :=
  ⟨fun | .pastOther found => found, .pastOther⟩

/-- A directory holds the files inside of it, below its name. -/
@[simp] theorem hasFile_directory_iff : HasFile (.directory name inside rest) path ↔
    (∃ below, path = name :: below ∧ inside.HasFile below) ∨ rest.HasFile path := by
  constructor
  · rintro (_ | found | _ | _ | found)
    · exact .inl ⟨_, rfl, found⟩
    · exact .inr found
  · rintro (⟨below, rfl, found⟩ | found)
    · exact .inside found
    · exact .pastDirectory found

/-- No file stands at the empty path. -/
theorem HasFile.ne_nil (found : d.HasFile path) : path ≠ [] := by
  induction found with
  | here | inside => exact List.cons_ne_nil _ _
  | pastFile _ ih | pastOther _ ih | pastDirectory _ ih => exact ih

/-- In a tree, all names on the path to a file are proper. -/
theorem HasFile.isProper (found : d.HasFile path) (tree : d.IsTree) : ∀ n ∈ path, n.IsProper := by
  induction found with
  | here => exact List.forall_mem_singleton.2 tree.1
  | inside _ ih => exact List.forall_mem_cons.2 ⟨tree.1, ih tree.2.2.1⟩
  | pastFile _ ih | pastOther _ ih => exact ih tree.2.2
  | pastDirectory _ ih => exact ih tree.2.2.2

/-! ## What a walk meets -/

/-- A walk meets the files on whose path all directories are entered. -/
theorem mem_walk_file_iff : ⟨path, .file⟩ ∈ d.walk enters above ↔ ∃ below, path = above ++ below ∧
    d.HasFile below ∧ ∀ n ∈ below.dropLast, enters n = true := by
  induction d generalizing above with
  | empty => simp [walk]
  | file name rest ih =>
    rw [walk, List.mem_cons, ih]
    constructor
    · rintro (here | ⟨below, rfl, found, entered⟩)
      · cases here
        exact ⟨[name], rfl, .here name rest, nofun⟩
      · exact ⟨below, rfl, .pastFile found, entered⟩
    · rintro ⟨below, rfl, found, entered⟩
      rcases hasFile_file_iff.1 found with rfl | found
      · exact .inl rfl
      · exact .inr ⟨below, rfl, found, entered⟩
  | other name rest ih =>
    rw [walk, List.mem_cons, ih]
    simp
  | directory name inside rest ihInside ihRest =>
    rw [walk, List.mem_append, ihRest]
    constructor
    · rintro (met | ⟨below, rfl, found, entered⟩)
      · split at met
        · rename_i enter
          rcases List.mem_cons.1 met with itself | met
          · cases itself
          · obtain ⟨below, rfl, found, entered⟩ := ihInside.1 met
            refine ⟨name :: below, by simp, .inside found, ?_⟩
            rw [List.dropLast_cons_of_ne_nil found.ne_nil]
            exact List.forall_mem_cons.2 ⟨enter, entered⟩
        · cases met
      · exact ⟨below, rfl, .pastDirectory found, entered⟩
    · rintro ⟨path, rfl, found, entered⟩
      rcases hasFile_directory_iff.1 found with ⟨below, rfl, deeper⟩ | found
      · rw [List.dropLast_cons_of_ne_nil deeper.ne_nil] at entered
        obtain ⟨enter, entered⟩ := List.forall_mem_cons.1 entered
        rw [if_pos enter]
        exact .inl (List.mem_cons_of_mem _ (ihInside.2 ⟨below, by simp, deeper, entered⟩))
      · exact .inr ⟨path, rfl, found, entered⟩

/-- What a walk meets is one of the entries or inside of one. -/
theorem exists_entry_of_mem_walk {e : WalkEntry} (met : e ∈ d.walk enters above) :
    ∃ n ∈ d.entryNames, ∃ below, e.path = above ++ n :: below := by
  induction d generalizing above with
  | empty => cases met
  | file name rest ih | other name rest ih =>
    rw [walk] at met
    rcases List.mem_cons.1 met with rfl | later
    · exact ⟨name, List.mem_cons_self, [], rfl⟩
    · obtain ⟨n, listed, below, leads⟩ := ih later
      exact ⟨n, List.mem_cons_of_mem _ listed, below, leads⟩
  | directory name inside rest ihInside ihRest =>
    rw [walk] at met
    rcases List.mem_append.1 met with here | later
    · split at here
      · refine ⟨name, List.mem_cons_self, ?_⟩
        rcases List.mem_cons.1 here with rfl | deeper
        · exact ⟨[], rfl⟩
        · obtain ⟨n, -, below, leads⟩ := ihInside deeper
          exact ⟨n :: below, by rw [leads, List.append_assoc]; rfl⟩
      · cases here
    · obtain ⟨n, listed, below, leads⟩ := ihRest later
      exact ⟨n, List.mem_cons_of_mem _ listed, below, leads⟩

/-- What lies behind an entry with a new name is not met behind other entries. -/
theorem path_ne_of_mem_walk {e : WalkEntry} (met : e ∈ d.walk enters above)
    (new : name ∉ d.entryNames) (below : List FileName) : above ++ name :: below ≠ e.path := by
  obtain ⟨n, listed, below', leads⟩ := exists_entry_of_mem_walk met
  rw [leads]
  intro same
  obtain ⟨rfl, -⟩ := List.cons.inj (List.append_cancel_left same)
  exact new listed

/-- A walk through a tree meets nothing twice. -/
theorem pairwise_walk (tree : d.IsTree) :
    (d.walk enters above).Pairwise fun a b => a.path ≠ b.path := by
  induction d generalizing above with
  | empty => exact List.Pairwise.nil
  | file name rest ih | other name rest ih =>
    obtain ⟨-, new, tree⟩ := tree
    exact List.pairwise_cons.2 ⟨fun e met => path_ne_of_mem_walk met new [], ih tree⟩
  | directory name inside rest ihInside ihRest =>
    obtain ⟨-, new, treeInside, treeRest⟩ := tree
    rw [walk]
    split
    · -- The directory itself, what is inside of it, and what comes after it.
      refine List.pairwise_append.2
        ⟨List.pairwise_cons.2 ⟨fun e met => ?_, ihInside treeInside⟩, ihRest treeRest, ?_⟩
      · obtain ⟨n, -, below, leads⟩ := exists_entry_of_mem_walk met
        rw [leads]
        simp
      · intro e here e' later
        rcases List.mem_cons.1 here with rfl | deeper
        · exact path_ne_of_mem_walk later new []
        · obtain ⟨n, -, below, leads⟩ := exists_entry_of_mem_walk deeper
          rw [leads, List.append_assoc]
          exact path_ne_of_mem_walk later new (n :: below)
    · exact ihRest treeRest

/-! ## The names of the files -/

/-- There is a file in the directory, below directories that are not excluded. -/
def Offers (d : Directory) (excluded directories : List String) (file : String) : Prop :=
  d.HasFile ((directories ++ [file]).map .text) ∧ ∀ n ∈ directories, n ∉ excluded

/-- The names of files are their paths, where all names on them are texts. -/
theorem mem_names_iff {excluded : List String} {name : String} :
    name ∈ d.names excluded ↔ ∃ directories file, d.Offers excluded directories file ∧
      name = String.intercalate "/" (directories ++ [file]) := by
  have entered : ∀ directories : List String,
      (∀ n ∈ directories.map FileName.text, (!n.isAmong excluded) = true) ↔
        ∀ n ∈ directories, n ∉ excluded := fun directories => by
    simp only [List.forall_mem_map, Bool.not_eq_true', FileName.isAmong_eq_false_iff]
  rw [names, List.mem_filterMap]
  constructor
  · rintro ⟨⟨path, kind⟩, met, named⟩
    split at named
    · rename_i isFile
      cases isFile
      obtain ⟨names, rfl, rfl⟩ := FileName.pathText?_eq_some_iff.1 named
      obtain ⟨_, rfl, found, enters⟩ := mem_walk_file_iff.1 met
      rcases List.eq_nil_or_concat names with rfl | ⟨directories, file, rfl⟩
      · exact absurd rfl found.ne_nil
      · rw [List.concat_eq_append] at found enters ⊢
        rw [← List.map_dropLast, List.dropLast_concat, entered] at enters
        exact ⟨directories, file, ⟨found, enters⟩, rfl⟩
    · cases named
  · rintro ⟨directories, file, ⟨found, enters⟩, rfl⟩
    refine ⟨⟨(directories ++ [file]).map .text, .file⟩, ?_, ?_⟩
    · refine mem_walk_file_iff.2 ⟨_, rfl, found, ?_⟩
      rwa [← List.map_dropLast, List.dropLast_concat, entered]
    · rw [if_pos rfl]
      exact FileName.pathText?_eq_some_iff.2 ⟨_, rfl, rfl⟩

/-- In a tree, the names of what is offered are proper. -/
theorem Offers.isProper {excluded directories : List String} {file : String}
    (offers : d.Offers excluded directories file) (tree : d.IsTree) :
    ∀ n ∈ directories ++ [file], (FileName.text n).IsProper := fun _ listed =>
  offers.1.isProper tree _ (List.mem_map_of_mem listed)

/-- In a tree, a file is determined by its name. -/
theorem Offers.unique {excluded excluded' directories directories' : List String}
    {file file' : String} (tree : d.IsTree) (offers : d.Offers excluded directories file)
    (offers' : d.Offers excluded' directories' file')
    (same : String.intercalate "/" (directories ++ [file])
      = String.intercalate "/" (directories' ++ [file'])) :
    directories = directories' ∧ file = file' := by
  have names := (FileName.intercalate_inj (offers.isProper tree) (offers'.isProper tree)).1 same
  exact ⟨(List.append_inj' names rfl).1, List.singleton_inj.1 (List.append_inj' names rfl).2⟩

/-- In a tree, no name is given twice. -/
theorem nodup_names (tree : d.IsTree) (excluded : List String) : (d.names excluded).Nodup := by
  -- What has a name is a file, with proper names on its path.
  have named : ∀ {e : WalkEntry} {name : String},
      e ∈ d.walk (fun name => !name.isAmong excluded) [] →
      (if e.kind = .file then FileName.pathText? e.path else none) = some name →
      ∃ names : List String, e.path = names.map .text ∧ name = String.intercalate "/" names ∧
        ∀ n ∈ names, (FileName.text n).IsProper := by
    rintro ⟨path, kind⟩ name met named
    split at named
    · rename_i isFile
      cases isFile
      obtain ⟨names, rfl, rfl⟩ := FileName.pathText?_eq_some_iff.1 named
      obtain ⟨_, rfl, found, -⟩ := mem_walk_file_iff.1 met
      exact ⟨names, rfl, rfl, fun n listed =>
        found.isProper tree _ (List.mem_map_of_mem listed)⟩
    · cases named
  refine List.pairwise_filterMap.2 ((pairwise_walk tree).imp_of_mem ?_)
  rintro e e' met met' differ name has name' has' rfl
  obtain ⟨names, path, rfl, proper⟩ := named met has
  obtain ⟨names', path', same, proper'⟩ := named met' has'
  rw [FileName.intercalate_inj proper proper'] at same
  exact differ (by rw [path, path', same])

end Files

end Directory

end BeanWiring
