/-
# Locating config documents

Which files of a directory are located as config documents.  By its name, a file is one if it has
something, a dot and a configured suffix.  What is looked at instead is the whole path, and on a
path there is something before the last name as soon as the file lies in a directory inside.  So
there a name that is nothing but a dot and a suffix is enough.

Main statements:

* `hasSuffix_iff` : what it means for a text to have a suffix;
* `hasSuffix_path_iff` : what it means for the last name on a path;
* `locateIn_by_fileName_iff` : what is located in a directory tree.
-/
import BeanWiring.Project.Settings
import BeanWiring.Proofs.Config.Classes
import BeanWiring.Proofs.Document.Directories
import BeanWiring.Proofs.Text.Searching

namespace BeanWiring

open Text

/-! ## Suffixes -/

theorem stem?_eq_some_iff {name suffix : String} {stem : List Char} :
    stem? name suffix = some stem ↔ name.toList = stem ++ suffix.toList := by
  rw [stem?, Option.map_eq_some_iff]
  simp only [stripStart?_eq_some_iff]
  constructor
  · rintro ⟨front, split, rfl⟩
    rw [← List.reverse_inj, split, List.reverse_append, List.reverse_reverse]
  · intro split
    exact ⟨stem.reverse, by rw [split, List.reverse_append], List.reverse_reverse stem⟩

theorem endsWith_iff {tail s : List Char} : endsWith tail s = true ↔ tail <:+ s := by
  rw [endsWith, startsWith_iff, List.reverse_prefix]

/-- A text has a suffix if there is something before the dot. -/
theorem hasSuffix_iff {name suffix : String} :
    hasSuffix name suffix = true ↔ ∃ stem, stem ≠ "" ∧ name = stem ++ "." ++ suffix := by
  rw [hasSuffix]
  constructor
  · intro has
    split at has
    · rename_i stem found
      rw [Bool.and_eq_true, endsWith_iff, decide_eq_true_iff] at has
      obtain ⟨⟨front, rfl⟩, long⟩ := has
      refine ⟨String.ofList front, ?_, ?_⟩
      · intro empty
        rw [← String.toList_inj, String.toList_ofList] at empty
        rw [empty] at long
        exact absurd long (by decide)
      · rw [← String.toList_inj, stem?_eq_some_iff.1 found]
        simp
    · cases has
  · rintro ⟨stem, nonempty, rfl⟩
    have split : stem? (stem ++ "." ++ suffix) suffix = some (stem.toList ++ ['.']) := by
      rw [stem?_eq_some_iff, String.toList_append, String.toList_append]
      rfl
    obtain ⟨c, front, chars⟩ := List.exists_cons_of_ne_nil
      fun empty => nonempty (String.toList_inj.1 empty)
    have positive := c.utf8Size_pos
    rw [split]
    show (endsWith ['.'] _ && decide _) = true
    rw [Bool.and_eq_true, endsWith_iff, decide_eq_true_iff, byteLength_append, chars,
      byteLength_cons]
    refine ⟨List.suffix_append _ _, ?_⟩
    show 1 < _ + 1
    omega

/-- What stands at the end of a text and has no slash stands behind its last slash. -/
theorem append_slash_append_eq_iff {front file stem tail : List Char} (whole : '/' ∉ tail) :
    front ++ '/' :: file = stem ++ tail ↔
      ∃ stem', stem = front ++ '/' :: stem' ∧ file = stem' ++ tail := by
  constructor
  · intro same
    rcases List.append_eq_append_iff.1 same with ⟨more, rfl, rest⟩ | ⟨more, rfl, rfl⟩
    · cases more with
      | nil =>
        rw [List.nil_append] at rest
        exact absurd (rest ▸ List.mem_cons_self) whole
      | cons c more =>
        obtain ⟨rfl, rfl⟩ := List.cons.inj rest
        exact ⟨more, rfl, rfl⟩
    · exact absurd (List.mem_append_right more List.mem_cons_self) whole
  · rintro ⟨stem', rfl, rfl⟩
    rw [List.append_assoc]
    rfl

/-- On a path, the last name has the suffix, and there is something before the dot or before the
name. -/
theorem hasSuffix_path_iff {directories : List String} {file suffix : String}
    (plain : '/' ∉ suffix.toList) :
    hasSuffix (String.intercalate "/" (directories ++ [file])) suffix = true ↔
      ∃ stem, file = stem ++ "." ++ suffix ∧ (stem ≠ "" ∨ directories ≠ []) := by
  rw [hasSuffix_iff]
  by_cases top : directories = []
  · subst top
    rw [List.nil_append, String.intercalate_singleton]
    refine exists_congr fun stem => ?_
    rw [and_comm]
    exact and_congr_right fun _ => (or_iff_left (not_not_intro rfl)).symm
  · have whole : '/' ∉ '.' :: suffix.toList := by
      rw [List.mem_cons, not_or]
      exact ⟨by decide, plain⟩
    have dotted : ∀ a b : String, a = b ++ "." ++ suffix ↔
        a.toList = b.toList ++ '.' :: suffix.toList := fun a b => by
      rw [← String.toList_inj, String.append_assoc, String.toList_append, String.toList_append]
      rfl
    have path : (String.intercalate "/" (directories ++ [file])).toList
        = (String.intercalate "/" directories).toList ++ '/' :: file.toList := by
      rw [String.intercalate_append_of_ne_nil top (List.cons_ne_nil _ _),
        String.intercalate_singleton, String.append_assoc, String.toList_append,
        String.toList_append]
      rfl
    simp only [dotted, path, append_slash_append_eq_iff whole]
    constructor
    · rintro ⟨_, -, stem, -, same⟩
      exact ⟨String.ofList stem, by rw [String.toList_ofList, same], .inr top⟩
    · rintro ⟨stem, same, -⟩
      refine ⟨String.intercalate "/" directories ++ "/" ++ stem, ?_, stem.toList, ?_, same⟩
      · intro empty
        simpa using congrArg String.toList empty
      · rw [String.append_assoc, String.toList_append, String.toList_append]
        rfl

/-! ## Located files -/

namespace ProjectSettings

/-- By its name, a file is a config document: it has something, a dot and a configured suffix. -/
def IsConfigFile (s : ProjectSettings) (file : String) : Prop :=
  ∃ suffix ∈ s.suffixes, ∃ stem, stem ≠ "" ∧ file = stem ++ "." ++ suffix

/-- The name of a file is nothing but a dot and a configured suffix. -/
def IsBareSuffix (s : ProjectSettings) (file : String) : Prop :=
  ∃ suffix ∈ s.suffixes, file = "." ++ suffix

variable {s : ProjectSettings} {d : Directory}

/-- A path is taken for that of a config document if the last name on it is the name of one, or if
it leads into a directory and on to a bare suffix. -/
theorem isConfigName_path_iff (plain : ∀ suffix ∈ s.suffixes, '/' ∉ suffix.toList)
    {directories : List String} {file : String} :
    s.isConfigName (String.intercalate "/" (directories ++ [file])) = true ↔
      s.IsConfigFile file ∨ directories ≠ [] ∧ s.IsBareSuffix file := by
  rw [isConfigName, List.any_eq_true]
  constructor
  · rintro ⟨suffix, listed, has⟩
    obtain ⟨stem, rfl, inside⟩ := (hasSuffix_path_iff (plain suffix listed)).1 has
    by_cases empty : stem = ""
    · refine .inr ⟨inside.resolve_left (not_not_intro empty), suffix, listed, ?_⟩
      rw [empty, String.empty_append]
    · exact .inl ⟨suffix, listed, stem, empty, rfl⟩
  · rintro (⟨suffix, listed, stem, nonempty, rfl⟩ | ⟨inside, suffix, listed, rfl⟩)
    · exact ⟨suffix, listed, (hasSuffix_path_iff (plain suffix listed)).2
        ⟨stem, rfl, .inl nonempty⟩⟩
    · refine ⟨suffix, listed, (hasSuffix_path_iff (plain suffix listed)).2
        ⟨"", ?_, .inr inside⟩⟩
      rw [String.empty_append]

theorem mem_locateIn_iff {excluded : List String} {name : String} :
    name ∈ s.locateIn excluded d ↔ ∃ directories file, d.Offers excluded directories file ∧
      name = String.intercalate "/" (directories ++ [file]) ∧ s.isConfigName name = true := by
  rw [locateIn, mem_locateNames, Directory.mem_names_iff]
  constructor
  · rintro ⟨⟨directories, file, offers, named⟩, isConfig⟩
    exact ⟨directories, file, offers, named, isConfig⟩
  · rintro ⟨directories, file, offers, named, isConfig⟩
    exact ⟨⟨directories, file, offers, named⟩, isConfig⟩

theorem pairwise_locateIn (tree : d.IsTree) (excluded : List String) :
    (s.locateIn excluded d).Pairwise (· < ·) :=
  pairwise_sortStrings ((Directory.nodup_names tree excluded).filter _)

/-- **Located config documents.**  In a directory tree, the names that are located are strictly
increasing.  They are the paths of the files below no excluded directory that are config documents
by their names, and besides these of the files in directories inside whose names are bare suffixes.
So it is by the names of files alone that they are located, exactly if no such file has a bare
suffix for a name that is not the name of a config document as well. -/
theorem locateIn_by_fileName_iff (tree : d.IsTree)
    (plain : ∀ suffix ∈ s.suffixes, '/' ∉ suffix.toList) (excluded : List String) :
    (s.locateIn excluded d).Pairwise (· < ·) ∧
    (∀ name, name ∈ s.locateIn excluded d ↔ ∃ directories file,
      d.Offers excluded directories file ∧
      name = String.intercalate "/" (directories ++ [file]) ∧
      (s.IsConfigFile file ∨ directories ≠ [] ∧ s.IsBareSuffix file)) ∧
    ((∀ name, name ∈ s.locateIn excluded d ↔ ∃ directories file,
        d.Offers excluded directories file ∧
        name = String.intercalate "/" (directories ++ [file]) ∧ s.IsConfigFile file) ↔
      ∀ directories file, d.Offers excluded directories file → directories ≠ [] →
        s.IsBareSuffix file → s.IsConfigFile file) := by
  have located : ∀ name, name ∈ s.locateIn excluded d ↔ ∃ directories file,
      d.Offers excluded directories file ∧
      name = String.intercalate "/" (directories ++ [file]) ∧
      (s.IsConfigFile file ∨ directories ≠ [] ∧ s.IsBareSuffix file) := fun name => by
    rw [mem_locateIn_iff]
    refine exists₂_congr fun directories file => and_congr_right fun _ =>
      and_congr_right fun named => ?_
    rw [named, isConfigName_path_iff plain]
  refine ⟨pairwise_locateIn tree excluded, located, ?_, fun harmless name => ?_⟩
  · -- A bare suffix inside is located, so by the rule its path is that of a config document; and
    -- that is the same file, since a path leads to one file.
    intro byName directories file offers inside bare
    obtain ⟨directories', file', offers', same, isConfig⟩ :=
      (byName _).1 ((located _).2 ⟨directories, file, offers, rfl, .inr ⟨inside, bare⟩⟩)
    obtain ⟨-, rfl⟩ := offers.unique tree offers' same
    exact isConfig
  · rw [located]
    refine exists₂_congr fun directories file => and_congr_right fun offers =>
      and_congr_right fun _ => ⟨fun isConfig => ?_, .inl⟩
    exact isConfig.elim id fun bare => harmless directories file offers bare.1 bare.2

/-- A directory with files of one name, a bare suffix, in it and in a directory inside; with an
excluded directory, a link, and a directory whose name is no text. -/
def bareSuffixes : Directory :=
  .file (.text ".xml") <|
  .directory (.text "conf") (.file (.text ".xml") <| .file (.text "app.xml") .empty) <|
  .directory (.text "target") (.file (.text "copy.xml") .empty) <|
  .other (.text "link.xml") <|
  .directory (.bytes [0xff]) (.file (.text "lost.xml") .empty) .empty

/-- The file with the bare suffix is located in the directory inside, and not at the top. -/
theorem locateIn_bareSuffixes :
    bareSuffixes.IsTree ∧ (∀ suffix ∈ ["xml"], '/' ∉ suffix.toList) ∧
      "conf/.xml" ∈ locateIn {} ["target"] bareSuffixes ∧
      ".xml" ∉ locateIn {} ["target"] bareSuffixes := by
  have tree : bareSuffixes.IsTree := by decide
  have plain : ∀ suffix ∈ ["xml"], '/' ∉ suffix.toList := by decide
  obtain ⟨-, located, -⟩ :=
    @locateIn_by_fileName_iff {} bareSuffixes tree plain ["target"]
  refine ⟨tree, plain, (located "conf/.xml").2 ⟨["conf"], ".xml", ⟨?_, by decide⟩, rfl,
    .inr ⟨by decide, "xml", by decide, rfl⟩⟩, fun listed => ?_⟩
  · exact .pastFile (.inside (.here _ _))
  · obtain ⟨-, -, -, -, isConfig⟩ := mem_locateIn_iff.1 listed
    exact absurd isConfig (by decide)

end ProjectSettings

end BeanWiring
