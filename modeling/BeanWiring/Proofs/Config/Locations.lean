/-
# Where import locations lead

An import location is a path: it starts in the directory of the importing document, or at the root
if it says so, and each of its steps stays, goes up or enters something.  Above the root there is
the root again, so a path always leads to a place below it.

The name that an import leads to is put together from what the steps leave of the directory, taken
as it is written, and from what they enter.  Where the directory is plain this is the name of the
place; where steps `.` or `..` are left in it, it is not.

Main statements:

* `walksTo_iff` : entering segments is walking along them;
* `enterSegments_eq` : what is left of the start, and what is entered;
* `pathName_inj` : places with one name are one;
* `resolveImport_isCanonical_iff` : when an import leads to the name of its place;
* `IsCanonical.resolveImport` : below canonical names it always does.
-/
import Mathlib.Data.List.Basic
import BeanWiring.Config.Path

namespace BeanWiring

open Text

/-! ## Splitting at slashes -/

namespace Text

variable {p : Char → Bool}

/-- No piece has one of the characters that it was split at. -/
theorem eq_false_of_mem_splitBy {s piece : List Char} (listed : piece ∈ splitBy p s) {c : Char}
    (there : c ∈ piece) : p c = false := by
  induction s generalizing piece with
  | nil =>
    rw [splitBy, List.mem_singleton] at listed
    cases listed
    cases there
  | cons d s ih =>
    rw [splitBy] at listed
    split at listed
    · rcases List.mem_cons.1 listed with rfl | later
      · cases there
      · exact ih later there
    · rename_i other
      have own : p d = false := by simpa using other
      split at listed
      · rename_i empty
        exact absurd empty (splitBy_ne_nil p s)
      · rename_i first rest split
        rcases List.mem_cons.1 listed with rfl | later
        · rcases List.mem_cons.1 there with rfl | inside
          · exact own
          · exact ih (split ▸ List.mem_cons_self) inside
        · exact ih (split ▸ List.mem_cons_of_mem first later) there

/-- A text that is not split is its own only piece. -/
theorem splitBy_of_forall {s : List Char} (whole : ∀ c ∈ s, p c = false) : splitBy p s = [s] := by
  induction s with
  | nil => rfl
  | cons c s ih =>
    obtain ⟨first, rest⟩ := List.forall_mem_cons.1 whole
    rw [splitBy, first, ih rest]
    rfl

/-- What stands before and behind a character to split at is split on its own. -/
theorem splitBy_append_cons {d : Char} (ends : p d = true) (s t : List Char) :
    splitBy p (s ++ d :: t) = splitBy p s ++ splitBy p t := by
  induction s with
  | nil =>
    show splitBy p (d :: t) = [[]] ++ splitBy p t
    rw [splitBy, if_pos ends]
    rfl
  | cons c s ih =>
    rw [List.cons_append, splitBy, splitBy, ih]
    by_cases cut : p c = true
    · rw [if_pos cut, if_pos cut, List.cons_append]
    · rw [if_neg cut, if_neg cut]
      cases split : splitBy p s with
      | nil => exact absurd split (splitBy_ne_nil p s)
      | cons piece rest => rfl

end Text

/-! ## Places -/

/-- Something that a step can enter: not empty, neither `.` nor `..`, and without a slash. -/
structure IsPlainStep (step : List Char) : Prop where
  nonempty : step ≠ []
  notHere : step ≠ ['.']
  notUp : step ≠ ['.', '.']
  whole : '/' ∉ step

/-- The name of the place that is reached from the root by entering the given segments. -/
def pathName (place : List (List Char)) : String :=
  String.intercalate "/" (place.map String.ofList)

/-- A canonical name: plain segments joined by single slashes. -/
def IsCanonical (name : String) : Prop :=
  ∃ place, (∀ step ∈ place, IsPlainStep step) ∧ name = pathName place

/-- The segments of a name, empty ones left out. -/
def pathSteps (name : List Char) : List (List Char) :=
  (splitBy (· = '/') name).filter (· ≠ [])

/-- The segments of a text have no slashes. -/
theorem slash_notMem_of_mem_splitBy {s piece : List Char}
    (listed : piece ∈ splitBy (· = '/') s) : '/' ∉ piece := fun there => by
  simpa using eq_false_of_mem_splitBy listed there

/-- The name of a place is its segments with slashes between them. -/
theorem toList_pathName (place : List (List Char)) :
    (pathName place).toList = ['/'].intercalate place := by
  rw [pathName, String.toList_intercalate, List.map_map]
  have same : String.toList ∘ String.ofList = id := funext fun s => String.toList_ofList
  rw [same, List.map_id]
  rfl

/-- The segments of the name of a place are those that lead there. -/
theorem pathSteps_pathName {place : List (List Char)}
    (segments : ∀ step ∈ place, step ≠ [] ∧ '/' ∉ step) :
    pathSteps (pathName place).toList = place := by
  rw [toList_pathName, pathSteps]
  have filled : ∀ {steps : List (List Char)}, (∀ step ∈ steps, step ≠ [] ∧ '/' ∉ step) →
      steps.filter (· ≠ []) = steps := fun all =>
    List.filter_eq_self.2 fun step listed => decide_eq_true (all step listed).1
  induction place with
  | nil => rfl
  | cons step place ih =>
    obtain ⟨⟨nonempty, whole⟩, rest⟩ := List.forall_mem_cons.1 segments
    have unsplit : ∀ c ∈ step, decide (c = '/') = false := by
      intro c there
      exact decide_eq_false fun slash => whole (slash ▸ there)
    cases place with
    | nil =>
      rw [List.intercalate_singleton, splitBy_of_forall unsplit]
      exact filled segments
    | cons next place =>
      have joined : ['/'].intercalate (step :: next :: place)
          = step ++ '/' :: ['/'].intercalate (next :: place) := by
        rw [List.intercalate_cons_cons, List.append_assoc]
        rfl
      rw [joined, splitBy_append_cons rfl, splitBy_of_forall unsplit, List.singleton_append,
        List.filter_cons_of_pos (by simpa using nonempty), ih rest]

/-- Places with one name are one. -/
theorem pathName_inj {place place' : List (List Char)}
    (segments : ∀ step ∈ place, step ≠ [] ∧ '/' ∉ step)
    (segments' : ∀ step ∈ place', step ≠ [] ∧ '/' ∉ step) :
    pathName place = pathName place' ↔ place = place' := by
  refine ⟨fun same => ?_, congrArg pathName⟩
  rw [← pathSteps_pathName segments, same, pathSteps_pathName segments']

/-! ## Walking -/

/-- Where one step of a path leads: it stays, goes up, or enters something.  There is nothing above
the root. -/
inductive StepsTo : (place : List (List Char)) → (step : List Char) → List (List Char) → Prop
  | blank (place : List (List Char)) : StepsTo place [] place
  | stay (place : List (List Char)) : StepsTo place ['.'] place
  | up (place : List (List Char)) (last : List Char) : StepsTo (place ++ [last]) ['.', '.'] place
  | top : StepsTo [] ['.', '.'] []
  | enter (place : List (List Char)) {step : List Char} (plain : IsPlainStep step) :
      StepsTo place step (place ++ [step])

/-- Where the steps of a path lead, one after the other. -/
inductive WalksTo : (place : List (List Char)) → (steps : List (List Char)) →
    List (List Char) → Prop
  | done (place : List (List Char)) : WalksTo place [] place
  | step {place next last : List (List Char)} {step : List Char} {steps : List (List Char)}
      (first : StepsTo place step next) (rest : WalksTo next steps last) :
      WalksTo place (step :: steps) last

/-- One more segment, as `enterSegments` takes it. -/
def enterSegment (entered : List (List Char)) (segment : List Char) : List (List Char) :=
  if segment = [] ∨ segment = ['.'] then entered
  else if segment = ['.', '.'] then entered.dropLast
  else entered ++ [segment]

section Walks

variable {place last start entered : List (List Char)} {step : List Char}
  {steps : List (List Char)}

theorem enterSegments_cons (entered : List (List Char)) (segment : List Char)
    (rest : List (List Char)) :
    enterSegments entered (segment :: rest)
      = enterSegments (enterSegment entered segment) rest := by
  rw [enterSegments, enterSegment]
  split
  · rfl
  · split <;> rfl

/-- Segments may be entered in two goes. -/
theorem enterSegments_append (entered steps more : List (List Char)) :
    enterSegments entered (steps ++ more) = enterSegments (enterSegments entered steps) more := by
  induction steps generalizing entered with
  | nil => rfl
  | cons step steps ih => rw [List.cons_append, enterSegments_cons, enterSegments_cons, ih]

/-- A plain segment is entered behind the others. -/
theorem enterSegment_of_isPlainStep (plain : IsPlainStep step) :
    enterSegment entered step = entered ++ [step] := by
  have moves : ¬(step = [] ∨ step = ['.']) := by
    rintro (empty | here)
    · exact plain.nonempty empty
    · exact plain.notHere here
  rw [enterSegment, if_neg moves, if_neg plain.notUp]

/-- A segment that neither stays nor goes up is plain. -/
theorem isPlainStep_of_enters (moves : ¬(step = [] ∨ step = ['.'])) (onward : step ≠ ['.', '.'])
    (whole : '/' ∉ step) : IsPlainStep step :=
  ⟨fun empty => moves (.inl empty), fun here => moves (.inr here), onward, whole⟩

/-- A step leads where `enterSegment` does. -/
theorem stepsTo_iff (whole : '/' ∉ step) :
    StepsTo place step last ↔ enterSegment place step = last := by
  constructor
  · rintro (_ | _ | _ | _ | ⟨_, plain⟩)
    · rfl
    · rfl
    · exact List.dropLast_concat
    · rfl
    · exact enterSegment_of_isPlainStep plain
  · rintro rfl
    rw [enterSegment]
    split
    · rename_i idle
      rcases idle with rfl | rfl
      · exact .blank place
      · exact .stay place
    · rename_i moves
      split
      · rename_i up
        subst up
        rcases List.eq_nil_or_concat place with rfl | ⟨outer, last, rfl⟩
        · exact .top
        · rw [List.concat_eq_append, List.dropLast_concat]
          exact .up outer last
      · rename_i onward
        exact .enter place (isPlainStep_of_enters moves onward whole)

/-- **Walking.**  Entering segments one after the other is walking along them. -/
theorem walksTo_iff (whole : ∀ step ∈ steps, '/' ∉ step) :
    WalksTo place steps last ↔ enterSegments place steps = last := by
  induction steps generalizing place with
  | nil =>
    constructor
    · rintro ⟨⟩
      rfl
    · rintro rfl
      exact .done place
  | cons step steps ih =>
    obtain ⟨first, rest⟩ := List.forall_mem_cons.1 whole
    rw [enterSegments_cons, ← ih rest]
    constructor
    · intro walk
      cases walk with
      | step first' rest' => rwa [(stepsTo_iff first).1 first']
    · intro rest'
      exact .step ((stepsTo_iff first).2 rfl) rest'

/-- What is entered is plain. -/
theorem isPlainStep_of_mem_enterSegments (whole : ∀ step ∈ steps, '/' ∉ step)
    (before : ∀ step ∈ entered, IsPlainStep step) :
    ∀ step ∈ enterSegments entered steps, IsPlainStep step := by
  induction steps generalizing entered with
  | nil => exact before
  | cons step steps ih =>
    obtain ⟨first, rest⟩ := List.forall_mem_cons.1 whole
    rw [enterSegments_cons]
    refine ih rest ?_
    rw [enterSegment]
    split
    · exact before
    · rename_i moves
      split
      · exact fun step listed => before step (List.dropLast_subset entered listed)
      · rename_i onward
        intro other listed
        rcases List.mem_append.1 listed with listed | new
        · exact before other listed
        · rw [List.mem_singleton.1 new]
          exact isPlainStep_of_enters moves onward first

/-- Plain segments are entered as they are. -/
theorem enterSegments_of_isPlainStep (plain : ∀ step ∈ steps, IsPlainStep step) :
    enterSegments entered steps = entered ++ steps := by
  induction steps generalizing entered with
  | nil => exact (List.append_nil _).symm
  | cons step steps ih =>
    obtain ⟨first, rest⟩ := List.forall_mem_cons.1 plain
    rw [enterSegments_cons, enterSegment_of_isPlainStep first, ih rest, List.append_assoc]
    rfl

/-- What is left of the segments that a walk starts with, when it has entered `depth` further
ones. -/
def leftOf : (start : List (List Char)) → (depth : Nat) → (steps : List (List Char)) →
    List (List Char)
  | start, _, [] => start
  | start, depth, step :: rest =>
    if step = [] ∨ step = ['.'] then leftOf start depth rest
    else if step = ['.', '.'] then
      leftOf (if depth = 0 then start.dropLast else start) (depth - 1) rest
    else leftOf start (depth + 1) rest

/-- What is left is the beginning of what there was. -/
theorem leftOf_isPrefix (start : List (List Char)) (depth : Nat) (steps : List (List Char)) :
    leftOf start depth steps <+: start := by
  induction steps generalizing start depth with
  | nil => exact List.prefix_rfl
  | cons step steps ih =>
    rw [leftOf]
    split
    · exact ih start depth
    · split
      · refine (ih _ (depth - 1)).trans ?_
        split
        · exact List.dropLast_prefix start
        · exact List.prefix_rfl
      · exact ih start (depth + 1)

/-- **Two parts.**  A walk ends with what it leaves of the start, and then what it enters from
there. -/
theorem enterSegments_eq (start entered steps : List (List Char)) :
    enterSegments (start ++ entered) steps
      = leftOf start entered.length steps ++ enterSegments entered steps := by
  induction steps generalizing start entered with
  | nil => rfl
  | cons step steps ih =>
    rw [enterSegments_cons, enterSegments_cons, enterSegment, enterSegment, leftOf]
    split
    · exact ih start entered
    · split
      · rcases List.eq_nil_or_concat entered with rfl | ⟨outer, last, rfl⟩
        · -- Nothing has been entered, so the step leaves the start.
          have above := ih start.dropLast []
          rw [List.append_nil] at above ⊢
          exact above
        · rw [List.concat_eq_append, ← List.append_assoc, List.dropLast_concat,
            List.dropLast_concat, List.length_append]
          exact ih start outer
      · have deeper := ih start (entered ++ [step])
        rwa [← List.append_assoc, List.length_append] at deeper

end Walks

/-! ## Import locations -/

/-- Whether a location starts at the root. -/
def isRooted (location : String) : Bool :=
  rootMarks.any (fun mark => startsWith mark.toList location.toList) ||
    startsWith ['/'] location.toList

/-- The segments that a location starts from: none at the root, or else those of the directory of
the importing document, as they are written. -/
def startOf (importing location : String) : List (List Char) :=
  if isRooted location then [] else pathSteps (directoryOf importing.toList)

/-- The segments of a location after its mark. -/
def stepsOf (location : String) : List (List Char) :=
  splitBy (· = '/')
    ((rootMarks.findSome? fun mark => stripStart? mark.toList location.toList).getD
      location.toList)

/-- What is left of the segments that a location starts from. -/
def keptOf (importing location : String) : List (List Char) :=
  leftOf (startOf importing location) 0 (stepsOf location)

/-- The place that an import location leads to, seen from the importing document. -/
def SpellsPlace (importing location : String) (place : List (List Char)) : Prop :=
  WalksTo [] (startOf importing location ++ stepsOf location) place

section Locations

variable {importing location : String}

/-- Slashes in front of a path change nothing. -/
theorem enterSegments_dropWhile (entered : List (List Char)) (s : List Char) :
    enterSegments entered (splitBy (· = '/') (s.dropWhile (· = '/')))
      = enterSegments entered (splitBy (· = '/') s) := by
  induction s with
  | nil => rfl
  | cons c s ih =>
    by_cases slash : c = '/'
    · subst slash
      rw [List.dropWhile_cons_of_pos rfl, ih]
      rfl
    · rw [List.dropWhile_cons_of_neg (by simpa using slash)]

/-- The segments of a name are not empty and have no slashes. -/
theorem slash_notMem_of_mem_pathSteps {name step : List Char} (listed : step ∈ pathSteps name) :
    step ≠ [] ∧ '/' ∉ step := by
  obtain ⟨there, filled⟩ := List.mem_filter.1 listed
  exact ⟨by simpa using filled, slash_notMem_of_mem_splitBy there⟩

/-- The same holds of the segments that a location starts from. -/
theorem slash_notMem_of_mem_startOf {step : List Char}
    (listed : step ∈ startOf importing location) :
    step ≠ [] ∧ '/' ∉ step := by
  rw [startOf] at listed
  split at listed
  · cases listed
  · exact slash_notMem_of_mem_pathSteps listed

/-- An import leads to the name that is made of the segments entered from its start. -/
theorem resolveImport_eq (importing location : String) : resolveImport importing location
    = pathName (enterSegments (startOf importing location) (stepsOf location)) := by
  have root : pathSteps [] = [] := rfl
  unfold resolveImport importBase stepsOf startOf isRooted
  cases marked : rootMarks.findSome? fun mark => stripStart? mark.toList location.toList with
  | some rest =>
    obtain ⟨mark, listed, stripped⟩ := List.exists_of_findSome?_eq_some marked
    have rooted : rootMarks.any (fun mark => startsWith mark.toList location.toList) = true := by
      refine List.any_eq_true.2 ⟨mark, listed, ?_⟩
      rw [startsWith, stripped]
      rfl
    rw [rooted, Bool.true_or, if_pos rfl, Option.getD_some]
    dsimp only
    rw [enterSegments_dropWhile]
    rfl
  | none =>
    have unmarked : rootMarks.any (fun mark => startsWith mark.toList location.toList) = false := by
      refine List.any_eq_false.2 fun mark listed => ?_
      rw [startsWith, List.findSome?_eq_none_iff.1 marked mark listed]
      exact Bool.false_ne_true
    rw [unmarked, Bool.false_or, Option.getD_none]
    by_cases slash : startsWith ['/'] location.toList = true
    · rw [if_pos slash, if_pos slash]
      dsimp only
      rw [enterSegments_dropWhile]
      rfl
    · rw [if_neg slash, if_neg slash]
      rfl

/-- The name that an import leads to has two parts: what is left of its start, and the plain
segments entered from there. -/
theorem resolveImport_eq_append (importing location : String) :
    resolveImport importing location
      = pathName (keptOf importing location ++ enterSegments [] (stepsOf location)) := by
  have parts := enterSegments_eq (startOf importing location) [] (stepsOf location)
  rw [List.append_nil] at parts
  rw [resolveImport_eq, parts]
  rfl

/-- What is entered from the root is plain. -/
theorem isPlainStep_of_mem_entered :
    ∀ step ∈ enterSegments [] (stepsOf location), IsPlainStep step :=
  isPlainStep_of_mem_enterSegments (fun _ listed => slash_notMem_of_mem_splitBy listed)
    (List.forall_mem_nil _)

/-- All segments of the name that an import leads to are segments, if not plain ones. -/
theorem slash_notMem_of_mem_parts :
    ∀ step ∈ keptOf importing location ++ enterSegments [] (stepsOf location),
      step ≠ [] ∧ '/' ∉ step := by
  intro step listed
  rcases List.mem_append.1 listed with kept | entered
  · exact slash_notMem_of_mem_startOf ((leftOf_isPrefix _ _ _).subset kept)
  · have plain := isPlainStep_of_mem_entered step entered
    exact ⟨plain.nonempty, plain.whole⟩

/-- The name of a place is canonical if no segment of it is `.` or `..`. -/
theorem isCanonical_pathName_iff {place : List (List Char)}
    (segments : ∀ step ∈ place, step ≠ [] ∧ '/' ∉ step) :
    IsCanonical (pathName place) ↔ ∀ step ∈ place, step ≠ ['.'] ∧ step ≠ ['.', '.'] := by
  constructor
  · rintro ⟨place', plain, same⟩
    have segments' : ∀ step ∈ place', step ≠ [] ∧ '/' ∉ step := fun step listed =>
      ⟨(plain step listed).nonempty, (plain step listed).whole⟩
    rw [(pathName_inj segments segments').1 same]
    exact fun step listed => ⟨(plain step listed).notHere, (plain step listed).notUp⟩
  · intro moves
    refine ⟨place, fun step listed => ?_, rfl⟩
    obtain ⟨nonempty, whole⟩ := segments step listed
    exact ⟨nonempty, (moves step listed).1, (moves step listed).2, whole⟩

/-- The place that a location leads to, from what is left of the place of its start. -/
theorem spellsPlace_iff {place : List (List Char)} : SpellsPlace importing location place ↔
    place = leftOf (enterSegments [] (startOf importing location)) 0 (stepsOf location)
      ++ enterSegments [] (stepsOf location) := by
  have whole : ∀ step ∈ startOf importing location ++ stepsOf location, '/' ∉ step := by
    intro step listed
    rcases List.mem_append.1 listed with start | further
    · exact (slash_notMem_of_mem_startOf start).2
    · exact slash_notMem_of_mem_splitBy further
  have parts := enterSegments_eq (enterSegments [] (startOf importing location)) []
    (stepsOf location)
  rw [List.append_nil] at parts
  rw [SpellsPlace, walksTo_iff whole, enterSegments_append, parts, eq_comm]
  rfl

/-- What a location starts from is plain: it starts at the root, or no segment of the directory of
the importing document is `.` or `..`. -/
def StartsPlain (importing location : String) : Prop :=
  ∀ step ∈ startOf importing location, IsPlainStep step

/-- From a plain start, an import leads to the name of its place. -/
theorem StartsPlain.resolveImport_eq {place : List (List Char)}
    (plain : StartsPlain importing location) (spells : SpellsPlace importing location place) :
    resolveImport importing location = pathName place := by
  rw [resolveImport_eq_append, spellsPlace_iff.1 spells, enterSegments_of_isPlainStep plain]
  rfl

/-- A location leads to one place, and it is entered from the root. -/
theorem SpellsPlace.isPlainStep {place : List (List Char)}
    (spells : SpellsPlace importing location place) : ∀ step ∈ place, IsPlainStep step := by
  rw [spellsPlace_iff.1 spells]
  intro step listed
  rcases List.mem_append.1 listed with kept | entered
  · refine isPlainStep_of_mem_enterSegments ?_ ?_ step ((leftOf_isPrefix _ _ _).subset kept)
    · exact fun _ listed => (slash_notMem_of_mem_startOf listed).2
    · exact List.forall_mem_nil _
  · exact isPlainStep_of_mem_entered step entered

/-- The segments of the place that is spelled are not empty and have no slashes. -/
theorem SpellsPlace.segments {place : List (List Char)}
    (spells : SpellsPlace importing location place) : ∀ step ∈ place, step ≠ [] ∧ '/' ∉ step :=
  fun step listed =>
    have plain := spells.isPlainStep step listed
    ⟨plain.nonempty, plain.whole⟩

/-- Every location spells a place. -/
theorem exists_spellsPlace (importing location : String) :
    ∃ place, SpellsPlace importing location place :=
  ⟨_, spellsPlace_iff.2 rfl⟩

/-- A location spells one place only. -/
theorem SpellsPlace.unique {place place' : List (List Char)}
    (spells : SpellsPlace importing location place)
    (spells' : SpellsPlace importing location place') : place = place' :=
  (spellsPlace_iff.1 spells).trans (spellsPlace_iff.1 spells').symm

/-- **Locations.**  Every import location spells one place below the root, and what the import
leads to is always segments joined by single slashes, none of them empty.  It is canonical exactly
if no `.` or `..` is left of the directory that the location starts from, and it is the name of
the place exactly if what is left of that directory is what is left of the place that the directory
spells.  From plain starts two locations lead to one name exactly if they spell one place. -/
theorem resolveImport_isCanonical_iff (importing location : String) :
    ∃ place, (∀ other, SpellsPlace importing location other ↔ other = place) ∧
      (∀ step ∈ place, IsPlainStep step) ∧
      (∃ segments, (∀ step ∈ segments, step ≠ [] ∧ '/' ∉ step) ∧
        resolveImport importing location = pathName segments) ∧
      (IsCanonical (resolveImport importing location) ↔
        ∀ step ∈ keptOf importing location, step ≠ ['.'] ∧ step ≠ ['.', '.']) ∧
      (resolveImport importing location = pathName place ↔ keptOf importing location
        = leftOf (enterSegments [] (startOf importing location)) 0 (stepsOf location)) ∧
      (StartsPlain importing location → IsCanonical (resolveImport importing location) ∧
        ∀ importing' location', StartsPlain importing' location' →
          (resolveImport importing location = resolveImport importing' location' ↔
            SpellsPlace importing' location' place)) := by
  have spells : SpellsPlace importing location
      (leftOf (enterSegments [] (startOf importing location)) 0 (stepsOf location)
        ++ enterSegments [] (stepsOf location)) := spellsPlace_iff.2 rfl
  have parts := resolveImport_eq_append importing location
  have whole : ∀ step ∈ keptOf importing location ++ enterSegments [] (stepsOf location),
      step ≠ [] ∧ '/' ∉ step := slash_notMem_of_mem_parts
  refine ⟨_, fun other => spellsPlace_iff, spells.isPlainStep,
    ⟨_, whole, parts⟩, ?_, ?_, fun plain => ⟨?_, ?_⟩⟩
  · rw [parts, isCanonical_pathName_iff whole]
    refine ⟨fun all step kept => all step (List.mem_append_left _ kept), fun all step listed => ?_⟩
    rcases List.mem_append.1 listed with kept | entered
    · exact all step kept
    · have own := isPlainStep_of_mem_entered step entered
      exact ⟨own.notHere, own.notUp⟩
  · rw [parts, pathName_inj whole spells.segments, List.append_cancel_right_eq]
  · exact ⟨_, spells.isPlainStep, plain.resolveImport_eq spells⟩
  · intro importing' location' plain'
    obtain ⟨place', spells'⟩ := exists_spellsPlace importing' location'
    rw [plain.resolveImport_eq spells, plain'.resolveImport_eq spells',
      pathName_inj spells.segments spells'.segments]
    exact ⟨fun same => same ▸ spells', fun here => here.unique spells'⟩

/-! ### A start with `..` -/

/-- Below a name with `..` in its directory, what is left of the directory stays as it is written.
The import and `other.xml` from the root are spellings of one place, but have two names. -/
theorem resolveImport_climbing :
    resolveImport "conf/../main.xml" "other.xml" = "conf/../other.xml" ∧
      ¬ IsCanonical (resolveImport "conf/../main.xml" "other.xml") ∧
      resolveImport "main.xml" "other.xml" = "other.xml" ∧
      ∃ place, SpellsPlace "conf/../main.xml" "other.xml" place ∧
        SpellsPlace "main.xml" "other.xml" place := by
  obtain ⟨place, spells, -, -, canonical, -, -⟩ :=
    resolveImport_isCanonical_iff "conf/../main.xml" "other.xml"
  refine ⟨rfl, fun plain => ?_, rfl, place, (spells place).2 rfl, ?_⟩
  · have kept : keptOf "conf/../main.xml" "other.xml" = ["conf".toList, "..".toList] := rfl
    exact (canonical.1 plain "..".toList (kept ▸ by decide)).2 rfl
  · have here := (spells place).2 rfl
    rw [spellsPlace_iff] at here ⊢
    exact here

/-! ## Names along imports -/

/-- The text before the last slash is empty, or followed by that slash. -/
theorem directoryOf_cases (name : List Char) :
    directoryOf name = [] ∨ ∃ rest, name = directoryOf name ++ '/' :: rest := by
  have split : dropRightWhile (· ≠ '/') name ++ (name.reverse.takeWhile (· ≠ '/')).reverse
      = name := by
    rw [dropRightWhile, ← List.reverse_append, List.takeWhile_append_dropWhile,
      List.reverse_reverse]
  rw [directoryOf]
  rcases List.eq_nil_or_concat (dropRightWhile (· ≠ '/') name) with none | ⟨front, last, some⟩
  · rw [none]
    exact .inl rfl
  · have slash : last = '/' := by
      have turned : name.reverse.dropWhile (· ≠ '/') = last :: front.reverse := by
        rw [← List.reverse_inj, List.reverse_cons, List.reverse_reverse]
        exact some.trans List.concat_eq_append
      have nonempty : name.reverse.dropWhile (· ≠ '/') ≠ [] := by
        rw [turned]
        exact List.cons_ne_nil last front.reverse
      have stops := List.head_dropWhile_not (· ≠ '/') nonempty
      simp only [turned, List.head_cons] at stops
      simpa using stops
    refine .inr ⟨(name.reverse.takeWhile (· ≠ '/')).reverse, ?_⟩
    rw [some, slash] at split
    rw [some, List.concat_eq_append, List.dropLast_concat]
    simpa using split.symm

/-- The directory of a name has no segments that the name does not have. -/
theorem pathSteps_directoryOf_subset (name : List Char) :
    pathSteps (directoryOf name) ⊆ pathSteps name := by
  rcases directoryOf_cases name with none | ⟨rest, split⟩
  · rw [none]
    exact List.nil_subset _
  · intro step listed
    rw [split, pathSteps, splitBy_append_cons rfl, List.filter_append]
    exact List.mem_append_left _ listed

/-- A document with a canonical name imports documents with canonical names. -/
theorem IsCanonical.resolveImport (canonical : IsCanonical importing) (location : String) :
    IsCanonical (resolveImport importing location) := by
  obtain ⟨place, plain, rfl⟩ := canonical
  obtain ⟨place', spells⟩ := exists_spellsPlace (pathName place) location
  have start : StartsPlain (pathName place) location := by
    intro step listed
    rw [startOf] at listed
    split at listed
    · cases listed
    · have there := pathSteps_directoryOf_subset _ listed
      rw [pathSteps_pathName fun step listed =>
        ⟨(plain step listed).nonempty, (plain step listed).whole⟩] at there
      exact plain step there
  exact ⟨place', spells.isPlainStep, start.resolveImport_eq spells⟩

end Locations

end BeanWiring
