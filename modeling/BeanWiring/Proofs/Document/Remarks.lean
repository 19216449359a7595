/-
# Remarks inside bean elements

A document reports a name that is in use with a message of its own.  Reading a bean element down to
its last value takes no names into use: whatever is wrong inside is remarked on with other messages,
and the beans in values claim no names.

Main statements:

* `reportedName?_eq_some_iff` : the messages that report a name;
* `remarks_readParts` : reading the children of a bean element only leaves remarks.
-/
import Mathlib.Data.List.Infix
import BeanWiring.Document.Beans

namespace BeanWiring

open Markup

/-! ## Reports of names -/

/-- The message that a name is in use. -/
def usedMessage (name : String) : String :=
  "Bean name '" ++ name ++ "' is already used in this <beans> element"

/-- The name that an error reports as in use. -/
def Problem.reportedName? (p : Problem) : Option String :=
  if p.severity = .error then
    ((p.message.toList.dropPrefix? "Bean name '".toList).bind fun rest =>
      rest.dropSuffix? "' is already used in this <beans> element".toList).map String.ofList
  else none

/-- Exactly the errors with the message that a name is in use report it. -/
theorem Problem.reportedName?_eq_some_iff {p : Problem} {name : String} :
    p.reportedName? = some name ↔ p.severity = .error ∧ p.message = usedMessage name := by
  unfold reportedName?
  constructor
  · intro reported
    split at reported
    · rename_i severe
      obtain ⟨inside, cut, rfl⟩ := Option.map_eq_some_iff.1 reported
      obtain ⟨rest, front, back⟩ := Option.bind_eq_some_iff.1 cut
      obtain ⟨start, message, same⟩ := List.dropPrefix?_eq_some_iff.1 front
      obtain ⟨stop, rfl, same'⟩ := List.dropSuffix?_eq_some_iff.1 back
      refine ⟨severe, String.toList_inj.1 ?_⟩
      rw [message, beq_iff_eq.1 same, beq_iff_eq.1 same', usedMessage, String.toList_append,
        String.toList_append, String.toList_ofList (l := inside), List.append_assoc]
    · cases reported
  · rintro ⟨severe, message⟩
    rw [if_pos severe, message, Option.map_eq_some_iff]
    refine ⟨name.toList, Option.bind_eq_some_iff.2 ⟨_, List.dropPrefix?_eq_some_iff.2 ⟨_, ?_,
      beq_self_eq_true _⟩, List.dropSuffix?_eq_some_iff.2 ⟨_, rfl, beq_self_eq_true _⟩⟩,
      String.ofList_toList⟩
    rw [usedMessage, String.toList_append, String.toList_append, List.append_assoc]

namespace Document

/-- A message that begins unlike a report of a name. -/
def IsRemark (message : String) : Prop :=
  message.toList.head?.any (· ≠ 'B') = true

instance (message : String) : Decidable (IsRemark message) :=
  inferInstanceAs (Decidable (_ = true))

/-- What follows a message does not keep it from being a remark. -/
theorem IsRemark.append {message : String} (remark : IsRemark message) (more : String) :
    IsRemark (message ++ more) := by
  unfold IsRemark at *
  rw [String.toList_append, List.head?_append]
  cases first : message.toList.head? with
  | none => simp [first] at remark
  | some c => simpa [first] using remark

/-- A remark reports no name as in use. -/
theorem IsRemark.reportedName? {p : Problem} (remark : IsRemark p.message) :
    p.reportedName? = none := by
  refine Option.eq_none_iff_forall_ne_some.2 fun name reported => ?_
  rw [(Problem.reportedName?_eq_some_iff.1 reported).2] at remark
  have first : (usedMessage name).toList.head? = some 'B' := by
    rw [usedMessage, String.toList_append, String.toList_append]
    rfl
  rw [IsRemark, first] at remark
  cases remark

/-! ## Readers that remark -/

section Readers

variable {A B : Type} {good : A → Prop} {good' : B → Prop}

/-- A reader that takes no names into use, leaves nothing but remarks, and ends with something
good. -/
def Remarks (good : A → Prop) (m : Reader A) : Prop :=
  ∀ r, good (m.run r).1 ∧ ∃ remarks : List Problem, (∀ p ∈ remarks, IsRemark p.message) ∧
    (m.run r).2 = ⟨r.events ++ remarks.map .problem, r.used⟩

/-- A reader that takes no names into use and leaves nothing but remarks. -/
abbrev OnlyRemarks (m : Reader A) : Prop := Remarks (fun _ => True) m

theorem Remarks.pure {a : A} (h : good a) : Remarks good (pure a) := by
  intro r
  refine ⟨h, [], List.forall_mem_nil _, ?_⟩
  rw [List.map_nil, List.append_nil]
  rfl

/-- Two readers in a row leave remarks only if both do, the second one given that the first ends
well. -/
theorem Remarks.bind {m : Reader A} {f : A → Reader B} (first : Remarks good m)
    (further : ∀ a, good a → Remarks good' (f a)) : Remarks good' (m >>= f) := by
  intro r
  obtain ⟨h, remarks, all, run⟩ := first r
  obtain ⟨h', remarks', all', run'⟩ := further _ h (m.run r).2
  refine ⟨h', remarks ++ remarks', List.forall_mem_append.2 ⟨all, all'⟩, ?_⟩
  rw [StateT.run_bind]
  show ((f (m.run r).1).run (m.run r).2).2 = _
  rw [run', run, List.map_append, List.append_assoc]

theorem Remarks.weaken {m : Reader A} (h : Remarks good m) : OnlyRemarks m := fun r =>
  ⟨trivial, (h r).2⟩

theorem Remarks.done (a : A) : OnlyRemarks (Pure.pure a) := .pure trivial

/-- A reader that leaves remarks only may come before one that ends well. -/
theorem Remarks.followedBy {m : Reader A} {f : A → Reader B} (first : OnlyRemarks m)
    (further : ∀ a, Remarks good' (f a)) : Remarks good' (m >>= f) :=
  first.bind fun a _ => further a

/-- An error whose message is a remark takes no name into use. -/
theorem remarks_reportError (resource : String) (e : Element) {message : String}
    (remark : IsRemark message) : OnlyRemarks (reportError resource e message) := fun _ =>
  ⟨trivial, [⟨.error, message, locationOf resource e⟩], List.forall_mem_singleton.2 remark, rfl⟩

/-- A remark may be left out. -/
theorem Remarks.remarkingIf {c : Prop} [Decidable c] {m : Reader Unit} {f : Unit → Reader B}
    (first : OnlyRemarks m) (further : ∀ u, Remarks good' (f u)) :
    Remarks good' (if c then m >>= f else f ()) := by
  split
  · exact first.followedBy further
  · exact further ()

end Readers

/-! ## Definitions and values -/

section Values

variable (resource : String)

/-- Nothing else changes the base for made-up names. -/
theorem nameBase_addProperty {V : Type} (p : Property V) (d : Definition V) :
    nameBase (d.addProperty p) = nameBase d := rfl

/-- Reading an argument leaves remarks, and keeps the shell from which names are made. -/
theorem remarks_addArgument (e : Element) (value : Value Declaration)
    (d : Definition (Value Declaration)) :
    Remarks (fun d' => nameBase d' = nameBase d) (addArgument resource e value d) := by
  unfold addArgument
  dsimp only
  split
  · exact .pure rfl
  · split
    · exact (remarks_reportError resource e (by decide)).followedBy fun _ => .pure rfl
    · split
      · exact (remarks_reportError resource e (IsRemark.append (by decide) _)).followedBy
          fun _ => .pure rfl
      · exact .pure rfl

/-- Reading an override leaves remarks, and keeps the shell from which names are made. -/
theorem remarks_readOverride (kind : OverrideKind) {tag key : String} (e : Element)
    (d : Definition (Value Declaration)) :
    Remarks (fun d' => nameBase d' = nameBase d) (readOverride resource kind tag key e d) := by
  have remark : IsRemark
      ("Tag '" ++ tag ++ "' requires 'name' and '" ++ key ++ "' attributes") :=
    (((IsRemark.append (by decide) tag).append _).append key).append _
  unfold readOverride
  split
  · exact .pure rfl
  · exact (remarks_reportError resource e remark).followedBy fun _ => .pure rfl

/-- An inner bean claims no names. -/
theorem remarks_nameBean (e : Element) (d : Definition (Value Declaration)) :
    OnlyRemarks (nameBean resource true e d) := by
  unfold nameBean
  dsimp only
  split
  · exact (Remarks.done _).followedBy fun _ => .done _
  · exact (Remarks.done _).followedBy fun _ => .done _
  · exact (Remarks.done _).followedBy fun _ => .done _

/-- An entry of a map with its key: what `readEntry` goes on with. -/
def entryFrom (e : Element) (children : List Element) (key : Value Declaration) :
    Reader (Value Declaration × Value Declaration) := do
  let value ← match e.attribute? "value", e.filledAttribute? "value-ref" with
    | some value, _ => pure (.literal value none)
    | none, some bean => pure (.reference bean false)
    | none, none =>
      match ← readFirst resource (fun c => !isBeansElement "key" c) children with
      | some value => pure value
      | none =>
        reportError resource e "<entry> element must specify a value"
        pure .null
  return (key, value)

mutual

/-- Reading the children of a bean element only leaves remarks, and keeps the base for a made-up
name. -/
theorem remarks_readParts (d : Definition (Value Declaration)) : (es : List Element) →
    Remarks (fun d' => nameBase d' = nameBase d) (readParts resource d es)
  | [] => .pure rfl
  | e :: rest => by
    have further : ∀ d', nameBase d' = nameBase d →
        Remarks (fun d'' => nameBase d'' = nameBase d) (readParts resource d' rest) := by
      intro d' same
      have later := remarks_readParts d' rest
      rwa [same] at later
    rw [readParts]
    split
    · exact (remarks_readContent (by decide) e).followedBy fun value =>
        (remarks_addArgument resource e value d).bind further
    split
    · split
      · exact (remarks_reportError resource e (by decide)).followedBy fun _ => further d rfl
      · rename_i name _
        split
        · exact (remarks_reportError resource e
            ((IsRemark.append (by decide) name).append _)).followedBy fun _ => further d rfl
        · exact (remarks_readContent ((IsRemark.append (by decide) name).append _) e).followedBy
            fun value => further _ (nameBase_addProperty _ d)
    split
    · exact (remarks_readOverride resource _ e d).bind further
    split
    · exact (remarks_readOverride resource _ e d).bind further
    · exact further d rfl

/-- Reading what stands inside a property or an argument leaves remarks only. -/
theorem remarks_readContent {what : String} (remark : IsRemark what) : (e : Element) →
    OnlyRemarks (readContent resource what e)
  | ⟨a, b, c, children, f, g, h⟩ => by
    rw [readContent]
    generalize (⟨a, b, c, children, f, g, h⟩ : Element) = e
    refine .remarkingIf (remarks_reportError resource e ((remark.append _).append _)) fun _ => ?_
    dsimp only
    split
    · split
      · exact .done _
      · exact (remarks_reportError resource e (remark.append _)).followedBy fun _ => .done _
    · split
      · exact .done _
      · refine (remarks_readFirst isValuePart children).followedBy fun value => ?_
        split
        · exact .done _
        · exact (remarks_reportError resource e (remark.append _)).followedBy fun _ => .done _

theorem remarks_readFirst (p : Element → Bool) : (es : List Element) →
    OnlyRemarks (readFirst resource p es)
  | [] => .done none
  | e :: rest => by
    rw [readFirst]
    split
    · exact (remarks_readValue e).followedBy fun value => .done (some value)
    · exact remarks_readFirst p rest

/-- Reading a value leaves remarks only: the beans inside of it take no names. -/
theorem remarks_readValue : (e : Element) → OnlyRemarks (readValue resource e)
  | ⟨localName, b, c, children, f, g, h⟩ => by
    rw [readValue]
    generalize (⟨localName, b, c, children, f, g, h⟩ : Element) = e
    have nothing : OnlyRemarks (Pure.pure (Value.null (B := Declaration))) := .done _
    split
    · exact nothing
    split
    · exact (remarks_readParts _ children).weaken.followedBy fun definition =>
        (remarks_nameBean resource e definition).followedBy fun bean => .done _
    · split
      · exact .done _
      · exact .done _
      · exact (remarks_reportError resource e (by decide)).followedBy fun _ => nothing
    · split
      · exact .done _
      · exact (remarks_reportError resource e (by decide)).followedBy fun _ => nothing
    · exact .done _
    · exact nothing
    · exact (remarks_readItems children).followedBy fun values => .done _
    · exact (remarks_readItems children).followedBy fun values => .done _
    · exact (remarks_readItems children).followedBy fun values => .done _
    · exact (remarks_readEntries children).followedBy fun entries => .done _
    · exact .done _
    · exact (remarks_reportError resource e ((IsRemark.append (by decide) _).append _)).followedBy
        fun _ => nothing

/-- Reading the items of a list leaves remarks only. -/
theorem remarks_readItems : (es : List Element) → OnlyRemarks (readItems resource es)
  | [] => .done []
  | e :: rest => by
    rw [readItems]
    split
    · exact remarks_readItems rest
    · exact (remarks_readValue e).followedBy fun value =>
        (remarks_readItems rest).followedBy fun values => .done _

/-- Reading the entries of a map leaves remarks only. -/
theorem remarks_readEntries : (es : List Element) → OnlyRemarks (readEntries resource es)
  | [] => .done []
  | e :: rest => by
    rw [readEntries]
    split
    · exact (remarks_readEntry e).followedBy fun entry =>
        (remarks_readEntries rest).followedBy fun entries => .done _
    · exact remarks_readEntries rest

/-- Reading an entry of a map leaves remarks only. -/
theorem remarks_readEntry : (e : Element) → OnlyRemarks (readEntry resource e)
  | ⟨a, b, c, children, f, g, h⟩ => by
    rw [readEntry]
    generalize (⟨a, b, c, children, f, g, h⟩ : Element) = e
    have value : ∀ key, OnlyRemarks (entryFrom resource e children key) := by
      intro key
      unfold entryFrom
      dsimp only
      split
      · exact .done _
      · exact .done _
      · refine (remarks_readFirst _ children).followedBy fun value => ?_
        split
        · exact .done _
        · exact (remarks_reportError resource e (by decide)).followedBy fun _ => .done _
    split
    · exact value _
    · exact value _
    · refine (remarks_readKey children).followedBy fun key => ?_
      split
      · exact value _
      · exact (remarks_reportError resource e (by decide)).followedBy fun _ => value .null

/-- Reading the key of an entry leaves remarks only. -/
theorem remarks_readKey : (es : List Element) → OnlyRemarks (readKey resource es)
  | [] => .done none
  | e@⟨_, _, _, children, _, _, _⟩ :: rest => by
    rw [readKey]
    split
    · exact remarks_readFirst _ children
    · exact remarks_readKey rest

end

end Values

end Document

end BeanWiring
