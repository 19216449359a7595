/-
# Keys of a property name

What is left of a property name when it is taken apart into the name proper and its keys, and put
together again.  A key is what stands between `[` and the next `]`, so it has no `]`, and the name
proper has no `[` if there are keys.  That is why the canonical name, in which the keys stand in
brackets again, is taken apart into the same name and the same texts between brackets.

A pair of equal quotes around such a text is dropped, once.  What is left may be enclosed in quotes
again, which then belong to the key; as part of the canonical name they are dropped as well.

Main statements:

* `Tokens.isRegular_ofName` : what the parts of a property name look like;
* `Tokens.ofName_canonicalName` : the canonical name taken apart;
* `Tokens.canonicalName_fixed_iff` : when it is its own canonical name.
-/
import Mathlib.Data.List.Forall2
import BeanWiring.PropertyPath
import BeanWiring.Proofs.Text.Searching

namespace BeanWiring.PropertyPath

open Text

/-! ## Quotes -/

/-- The text is enclosed in a pair of equal quotes. -/
def IsQuoted (key : List Char) : Prop :=
  ∃ quote inner, (quote = '\'' ∨ quote = '"') ∧ key = quote :: (inner ++ [quote])

/-- What is left of a text without one pair of equal quotes, if it is enclosed in one. -/
inductive DropsQuotes : List Char → List Char → Prop
  | quoted {quote : Char} (isQuote : quote = '\'' ∨ quote = '"') (inner : List Char) :
      DropsQuotes (quote :: (inner ++ [quote])) inner
  | plain {key : List Char} (plain : ¬IsQuoted key) : DropsQuotes key key

/-- Quotes of either kind are taken off. -/
theorem unquote_quoted {quote : Char} (isQuote : quote = '\'' ∨ quote = '"')
    (inner : List Char) : unquote (quote :: (inner ++ [quote])) = inner := by
  have ends : (quote :: (inner ++ [quote])).head? = some quote ∧
      (quote :: (inner ++ [quote])).getLast? = some quote := by
    refine ⟨rfl, ?_⟩
    rw [← List.cons_append, List.getLast?_concat]
  rw [unquote, if_pos]
  · rw [List.tail_cons, List.dropLast_concat]
  · refine ⟨by simp, ?_⟩
    rcases isQuote with rfl | rfl
    · exact .inl ends
    · exact .inr ends

/-- A key of two characters or more that begins and ends with one quote is quoted. -/
theorem isQuoted_of_ends {key : List Char} {quote : Char}
    (isQuote : quote = '\'' ∨ quote = '"') (long : 2 ≤ key.length)
    (first : key.head? = some quote) (last : key.getLast? = some quote) : IsQuoted key := by
  obtain ⟨rest, rfl⟩ := List.head?_eq_some_iff.1 first
  rcases List.eq_nil_or_concat rest with rfl | ⟨inner, c, rfl⟩
  · simp at long
  · rw [List.concat_eq_append, ← List.cons_append, List.getLast?_concat] at last
    cases last
    exact ⟨quote, inner, isQuote, by rw [List.concat_eq_append]⟩

/-- A key that is not quoted stays as it is. -/
theorem unquote_of_not_isQuoted {key : List Char} (plain : ¬IsQuoted key) : unquote key = key := by
  rw [unquote, if_neg]
  rintro ⟨long, ⟨first, last⟩ | ⟨first, last⟩⟩
  · exact plain (isQuoted_of_ends (.inl rfl) long first last)
  · exact plain (isQuoted_of_ends (.inr rfl) long first last)

/-- Taking off quotes takes off one pair at most. -/
theorem dropsQuotes_unquote (key : List Char) : DropsQuotes key (unquote key) := by
  by_cases quoted : IsQuoted key
  · obtain ⟨quote, inner, isQuote, rfl⟩ := quoted
    rw [unquote_quoted isQuote]
    exact .quoted isQuote inner
  · rw [unquote_of_not_isQuoted quoted]
    exact .plain quoted

/-- A key stays as it is exactly if it is not quoted. -/
theorem unquote_eq_self_iff {key : List Char} : unquote key = key ↔ ¬IsQuoted key := by
  refine ⟨?_, unquote_of_not_isQuoted⟩
  rintro same ⟨quote, inner, isQuote, rfl⟩
  rw [unquote_quoted isQuote] at same
  have shorter := congrArg List.length same
  simp at shorter
  omega

/-- What is left of a key is a part of it. -/
theorem unquote_subset (key : List Char) : unquote key ⊆ key := by
  rw [unquote]
  split
  · exact List.Subset.trans (List.dropLast_subset _) (List.tail_subset _)
  · exact List.Subset.refl _

/-! ## Texts between brackets -/

/-- Outside of keys, a text is cut where a key is opened. -/
theorem rawKeys_none_eq (s : List Char) :
    rawKeys none s = match cutAt? '[' s with
      | some (_, rest) => rawKeys (some []) rest
      | none => [] := by
  induction s with
  | nil => rfl
  | cons c s ih =>
    rw [rawKeys, cutAt?]
    by_cases opens : c = '['
    · rw [if_pos opens, if_pos opens]
    · rw [if_neg opens, if_neg opens, ih]
      cases cutAt? '[' s <;> rfl

/-- Inside a key, a text is cut where the key is closed; an open key at the end is none. -/
theorem rawKeys_some_eq (begun s : List Char) :
    rawKeys (some begun) s = match cutAt? ']' s with
      | some (key, rest) => (begun ++ key) :: rawKeys none rest
      | none => [] := by
  induction s generalizing begun with
  | nil => rfl
  | cons c s ih =>
    rw [rawKeys, cutAt?]
    by_cases closes : c = ']'
    · rw [if_pos closes, if_pos closes]
      simp
    · rw [if_neg closes, if_neg closes, ih]
      cases cutAt? ']' s with
      | none => rfl
      | some p => simp

/-- Up to the first bracket there is no key. -/
theorem rawKeys_open {before : List Char} (first : '[' ∉ before) (s : List Char) :
    rawKeys none (before ++ '[' :: s) = rawKeys (some []) s := by
  rw [rawKeys_none_eq, cutAt?_append first]

/-- A key ends at the first closing bracket. -/
theorem rawKeys_close {key : List Char} (first : ']' ∉ key) (s : List Char) :
    rawKeys (some []) (key ++ ']' :: s) = key :: rawKeys none s := by
  rw [rawKeys_some_eq, cutAt?_append first]
  rfl

/-- Keys end at the first bracket that closes them. -/
theorem notMem_of_mem_rawKeys {current : Option (List Char)} {s : List Char}
    (begun : ∀ key, current = some key → ']' ∉ key) : ∀ key ∈ rawKeys current s, ']' ∉ key := by
  induction s generalizing current with
  | nil => cases current <;> exact nofun
  | cons c s ih =>
    cases current with
    | none =>
      rw [rawKeys]
      split
      · exact ih fun key h => by
          cases h
          exact List.not_mem_nil
      · exact ih nofun
    | some key =>
      rw [rawKeys]
      split
      · exact List.forall_mem_cons.2 ⟨begun key rfl, ih nofun⟩
      · rename_i other
        refine ih fun more h => ?_
        cases h
        rw [List.mem_append, List.mem_singleton, not_or]
        exact ⟨begun key rfl, Ne.symm other⟩

/-- Keys in brackets, one after the other. -/
def bracketed (keys : List (List Char)) : List Char :=
  keys.flatMap fun key => '[' :: (key ++ [']'])

theorem bracketed_cons (key : List Char) (keys : List (List Char)) :
    bracketed (key :: keys) = '[' :: (key ++ ']' :: bracketed keys) := by
  rw [bracketed, List.flatMap_cons, ← bracketed, List.cons_append, List.append_assoc]
  rfl

/-- Between the brackets are the keys again. -/
theorem rawKeys_bracketed {keys : List (List Char)} (closed : ∀ key ∈ keys, ']' ∉ key) :
    rawKeys none (bracketed keys) = keys := by
  induction keys with
  | nil => rfl
  | cons key keys ih =>
    obtain ⟨first, rest⟩ := List.forall_mem_cons.1 closed
    rw [bracketed_cons, ← List.nil_append ('[' :: _), rawKeys_open List.not_mem_nil,
      rawKeys_close first, ih rest]

/-- A name is cut off where the first key is opened, if it is closed at all. -/
theorem nameBeforeKeys_open {before : List Char} (first : '[' ∉ before) (s : List Char) :
    nameBeforeKeys (before ++ '[' :: s) = if ']' ∈ s then before else before ++ '[' :: s := by
  rw [nameBeforeKeys, cutAt?_append first]
  simp only [List.contains_iff_mem]

/-- A name is either whole, with nothing between brackets, or it stands before the first key. -/
theorem nameBeforeKeys_cases (s : List Char) :
    rawKeys none s = [] ∧ nameBeforeKeys s = s ∨
      rawKeys none s ≠ [] ∧ '[' ∉ nameBeforeKeys s := by
  cases opened : cutAt? '[' s with
  | none =>
    refine .inl ⟨?_, ?_⟩
    · rw [rawKeys_none_eq, opened]
    · rw [nameBeforeKeys, opened]
  | some p =>
    have first := notMem_of_cutAt? opened
    rw [eq_of_cutAt? opened, rawKeys_open first, rawKeys_some_eq, nameBeforeKeys_open first]
    cases closed : cutAt? ']' p.2 with
    | none =>
      rw [if_neg (cutAt?_eq_none_iff.1 closed)]
      exact .inl ⟨rfl, rfl⟩
    | some q =>
      have ends : ']' ∈ p.2 := by
        rw [eq_of_cutAt? closed]
        exact List.mem_append_right _ List.mem_cons_self
      rw [if_pos ends]
      exact .inr ⟨List.cons_ne_nil _ _, first⟩

/-! ## Canonical names -/

namespace Tokens

/-- Parts that a property name can be put together from: no key has a bracket that would close it,
and before keys the name has none that would open one; without keys it has nothing between
brackets. -/
structure IsRegular (t : Tokens) : Prop where
  closed : ∀ key ∈ t.keys, ']' ∉ key.toList
  name : t.keys = [] ∧ rawKeys none t.actualName.toList = [] ∧
      nameBeforeKeys t.actualName.toList = t.actualName.toList ∨
    t.keys ≠ [] ∧ '[' ∉ t.actualName.toList

/-- The tokens of a name are regular. -/
theorem isRegular_ofName (name : String) : (ofName name).IsRegular := by
  refine ⟨fun key listed => ?_, ?_⟩
  · obtain ⟨raw, there, rfl⟩ := List.mem_map.1 listed
    rw [String.toList_ofList]
    have nothing : ∀ key, (none : Option (List Char)) = some key → ']' ∉ key := nofun
    exact fun closes => notMem_of_mem_rawKeys nothing raw there (unquote_subset raw closes)
  · rcases nameBeforeKeys_cases name.toList with ⟨none, whole⟩ | ⟨some, first⟩
    · refine .inl ⟨by rw [ofName, none, List.map_nil], ?_⟩
      rw [ofName, whole, String.toList_ofList]
      exact ⟨none, whole⟩
    · refine .inr ⟨fun h => some (List.map_eq_nil_iff.1 h), ?_⟩
      rw [ofName, String.toList_ofList]
      exact first

/-- The canonical name is the actual name, then every key in brackets. -/
theorem toList_canonicalName (t : Tokens) :
    t.canonicalName.toList = t.actualName.toList ++ bracketed (t.keys.map String.toList) := by
  rw [canonicalName, String.toList_append, String.toList_join, List.flatMap_map, bracketed,
    List.flatMap_map]
  congr 2
  funext key
  simp

/-- Between the brackets of a canonical name are the keys. -/
theorem IsRegular.rawKeys {t : Tokens} (regular : t.IsRegular) :
    rawKeys none t.canonicalName.toList = t.keys.map String.toList := by
  have closed : ∀ key ∈ t.keys.map String.toList, ']' ∉ key := by
    intro key listed
    obtain ⟨key, there, rfl⟩ := List.mem_map.1 listed
    exact regular.closed key there
  rw [toList_canonicalName]
  rcases regular.name with ⟨empty, none, -⟩ | ⟨some, first⟩
  · rw [empty, List.map_nil]
    show PropertyPath.rawKeys .none (_ ++ []) = []
    rw [List.append_nil, none]
  · obtain ⟨key, keys, split⟩ := List.exists_cons_of_ne_nil some
    rw [split, List.map_cons] at closed ⊢
    rw [bracketed_cons, rawKeys_open first, ← rawKeys_open List.not_mem_nil, List.nil_append,
      ← bracketed_cons, rawKeys_bracketed closed]

/-- Before the keys of a canonical name is the name proper. -/
theorem IsRegular.nameBeforeKeys {t : Tokens} (regular : t.IsRegular) :
    nameBeforeKeys t.canonicalName.toList = t.actualName.toList := by
  rw [toList_canonicalName]
  rcases regular.name with ⟨empty, -, whole⟩ | ⟨some, first⟩
  · rw [empty, List.map_nil]
    show PropertyPath.nameBeforeKeys (_ ++ []) = _
    rw [List.append_nil, whole]
  · obtain ⟨key, keys, split⟩ := List.exists_cons_of_ne_nil some
    rw [split, List.map_cons, bracketed_cons, nameBeforeKeys_open first, if_pos (by simp)]

/-- The canonical name is taken apart into the same name and the same keys, out of their quotes. -/
theorem ofName_canonicalName {t : Tokens} (regular : t.IsRegular) :
    ofName t.canonicalName
      = ⟨t.actualName, t.keys.map fun key => String.ofList (unquote key.toList)⟩ := by
  rw [ofName, regular.rawKeys, regular.nameBeforeKeys, String.ofList_toList, List.map_map]
  rfl

/-- Regular parts are determined by the name that they are put together to. -/
theorem canonicalName_inj {t t' : Tokens} (regular : t.IsRegular) (regular' : t'.IsRegular) :
    t.canonicalName = t'.canonicalName ↔ t = t' := by
  refine ⟨fun same => ?_, congrArg canonicalName⟩
  have name : t.actualName = t'.actualName := by
    rw [← String.toList_inj, ← regular.nameBeforeKeys, same, regular'.nameBeforeKeys]
  have keys : t.keys = t'.keys := by
    refine List.map_injective_iff.2 (fun _ _ => String.toList_inj.1) ?_
    rw [← regular.rawKeys, same, regular'.rawKeys]
  cases t
  cases t'
  cases name
  cases keys
  rfl

/-- **Canonical names.**  Taken apart, the canonical name of a property name has the same name
proper and the same keys, each out of another pair of quotes if it is still enclosed in one.  It is
its own canonical name, with the same keys, exactly if no key is. -/
theorem canonicalName_fixed_iff (name : String) :
    (ofName (ofName name).canonicalName).actualName = (ofName name).actualName ∧
    List.Forall₂ (fun key key' => DropsQuotes key.toList key'.toList) (ofName name).keys
      (ofName (ofName name).canonicalName).keys ∧
    ((ofName (ofName name).canonicalName).canonicalName = (ofName name).canonicalName ↔
      ∀ key ∈ (ofName name).keys, ¬IsQuoted key.toList) ∧
    ((ofName (ofName name).canonicalName).keys = (ofName name).keys ↔
      ∀ key ∈ (ofName name).keys, ¬IsQuoted key.toList) := by
  have regular := isRegular_ofName name
  have again := ofName_canonicalName regular
  have keys : (ofName (ofName name).canonicalName).keys = (ofName name).keys ↔
      ∀ key ∈ (ofName name).keys, ¬IsQuoted key.toList := by
    rw [again]
    nth_rewrite 2 [← List.map_id (ofName name).keys]
    rw [List.map_inj_left]
    refine forall₂_congr fun key _ => ?_
    rw [← unquote_eq_self_iff, ← String.toList_inj, String.toList_ofList, id]
  refine ⟨by rw [again], ?_, ?_, keys⟩
  · rw [again, List.forall₂_map_right_iff, List.forall₂_same]
    intro key _
    rw [String.toList_ofList]
    exact dropsQuotes_unquote key.toList
  · rw [canonicalName_inj (isRegular_ofName _) regular, ← keys]
    refine ⟨congrArg Tokens.keys, fun same => ?_⟩
    rw [again] at same ⊢
    exact congrArg (Tokens.mk _) same

/-- Quotes within quotes are dropped one after the other. -/
theorem canonicalName_not_fixed :
    (ofName (ofName "map[\"'a.b'\"]").canonicalName).keys ≠ (ofName "map[\"'a.b'\"]").keys ∧
      (ofName (ofName "map[\"'a.b'\"]").canonicalName).canonicalName
        ≠ (ofName "map[\"'a.b'\"]").canonicalName := by
  decide

end Tokens

end BeanWiring.PropertyPath
