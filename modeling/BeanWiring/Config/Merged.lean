/-
# Merged config sets

The one namespace that the members of a config set form together.  Policies say whether
a later bean or alias of a name takes the place of an earlier one; the place itself is
always that of the first.

Main statements: `get?_addEntry_allowed` and `get?_addEntry_forbidden`, how each policy treats
a name that is taken.
-/
import BeanWiring.Config.Tree

namespace BeanWiring

/-- What a config set is made of: its members by name, in order, and its policies. -/
structure SetSettings where
  members : List String := []
  allowAliasOverriding : Bool := true
  allowBeanOverriding : Bool := true
  /-- An incomplete set does not declare every bean that its members refer to. -/
  isIncomplete : Bool := false
deriving DecidableEq

/-- The merged view of a config set, over what its members are known as. -/
structure MergedSet (C : Type) where
  members : List C := []
  beans : List Bean := []
  aliases : List BeanAlias := []
  components : List Component := []
  classIndex : ClassIndex := {}

namespace MergedSet

variable {C : Type}

/-- Adds an entry, over the one of its key if that is allowed. -/
def addEntry {κ α : Type} [DecidableEq κ] (key : α → κ) (allowed : Bool) (xs : List α) (x : α) :
    List α :=
  if allowed then Keyed.put key x xs else Keyed.putNew key x xs

/-- Adds a member with everything that its config declares. -/
def addMember (settings : SetSettings) (m : MergedSet C) (member : C) (t : ConfigTree) :
    MergedSet C where
  members := m.members ++ [member]
  beans := t.beans.foldl (addEntry Bean.name settings.allowBeanOverriding) m.beans
  aliases := t.aliases.foldl (addEntry BeanAlias.name settings.allowAliasOverriding) m.aliases
  components := m.components ++ t.components
  classIndex := t.classes.foldl (fun index c => index.extend c (t.beansOfClass c)) m.classIndex

/-- Merges members in order. -/
def ofMembers (settings : SetSettings) (members : List (C × ConfigTree)) : MergedSet C :=
  members.foldl (fun m p => m.addMember settings p.1 p.2) {}

/-- The bean of a name. -/
def bean? (m : MergedSet C) (name : String) : Option Bean :=
  Keyed.get? Bean.name name m.beans

/-- The alias of a name. -/
def aliasOf? (m : MergedSet C) (name : String) : Option BeanAlias :=
  Keyed.get? BeanAlias.name name m.aliases

/-- The classes that have beans, sorted. -/
def classes (m : MergedSet C) : List String :=
  sortStrings m.classIndex.classes

/-- The merged view of a set as a context in which names are looked up. -/
def toContext (name : String) (m : MergedSet C) : Context :=
  ⟨name, .configSet, m.beans, m.aliases, m.components⟩

/-! ## Laws of policies -/

/-- Where overriding is allowed, the entry added last answers. -/
theorem get?_addEntry_allowed {κ α : Type} [DecidableEq κ] (key : α → κ) (k : κ) (xs : List α)
    (x : α) : Keyed.get? key k (addEntry key true xs x)
      = if key x = k then some x else Keyed.get? key k xs :=
  Keyed.get?_put key k x xs

/-- Where overriding is not allowed, the entry added first answers. -/
theorem get?_addEntry_forbidden {κ α : Type} [DecidableEq κ] (key : α → κ) (k : κ) (xs : List α)
    (x : α) : Keyed.get? key k (addEntry key false xs x)
      = (Keyed.get? key k xs).or (if key x = k then some x else none) :=
  Keyed.get?_putNew key k x xs

end MergedSet

end BeanWiring
