/-
# Separators of a property path

The dots of a path that stand outside of its keys.  Brackets of either direction switch between the
outside and the inside of a key, so a dot separates if the number of brackets before it is even.
Where the path has an even number of brackets in all, this is the same as an even number of them
behind the dot, and a scan from the end meets the same dots as a scan from the start.

Main statements:

* `mem_separatorsOf_iff` : what is in the list of separators that a scan from the start meets;
* `separators_reverse` : a scan from the other end meets the same list in the other order;
* `separators_agree` : the first and the last separator are the least and the greatest of one set.
-/
import Mathlib.Algebra.Group.Nat.Even
import Mathlib.Data.String.Basic
import Mathlib.Order.Bounds.Basic
import BeanWiring.PropertyPath

namespace BeanWiring.PropertyPath

open Text

/-! ## Inside and outside of keys -/

/-- Whether a key is open behind a character. -/
def toggle (inKey : Bool) (c : Char) : Bool := if isBracket c then !inKey else inKey

/-- Whether a key is open behind a text. -/
def openAfter (inKey : Bool) (s : List Char) : Bool := s.foldl toggle inKey

/-- A character met twice changes nothing: a bracket opens what it closes. -/
theorem toggle_toggle (inKey : Bool) (c : Char) : toggle (toggle inKey c) c = inKey := by
  cases bracket : isBracket c <;> simp [toggle, bracket]

/-- Going back over a text undoes what it switched. -/
theorem openAfter_reverse (inKey : Bool) (s : List Char) :
    openAfter (openAfter inKey s) s.reverse = inKey := by
  rw [openAfter, openAfter, List.foldl_reverse]
  induction s generalizing inKey with
  | nil => rfl
  | cons c s ih =>
    rw [List.foldl_cons, List.foldr_cons, ih]
    exact toggle_toggle inKey c

/-- No key is open behind a text if none was open before it and its brackets are even in number, or
if one was open and they are odd. -/
theorem openAfter_eq_false_iff {inKey : Bool} {s : List Char} :
    openAfter inKey s = false ↔ (Even (s.countP isBracket) ↔ inKey = false) := by
  induction s generalizing inKey with
  | nil => simp [openAfter]
  | cons c s ih =>
    rw [openAfter, List.foldl_cons, ← openAfter, ih, List.countP_cons, toggle]
    cases isBracket c with
    | false => simp
    | true =>
      rw [if_pos rfl, if_pos rfl, Nat.even_add_one, Bool.not_eq_false', ← Bool.not_eq_false]
      exact iff_not_comm.trans Iff.comm

/-! ## Offsets -/

/-- The places of the second text begin behind the bytes of the first. -/
theorem positions_append (offset : Nat) (s t : List Char) :
    positions offset (s ++ t) = positions offset s ++ positions (offset + byteLength s) t := by
  induction s generalizing offset with
  | nil => rfl
  | cons c s ih =>
    rw [List.cons_append, positions, positions, ih, byteLength_cons, Nat.add_assoc,
      List.cons_append]

/-- The places of a text hold its characters in order. -/
theorem map_snd_positions (offset : Nat) (s : List Char) :
    (positions offset s).map Prod.snd = s := by
  induction s generalizing offset with
  | nil => rfl
  | cons c s ih => rw [positions, List.map_cons, ih]

/-- The characters of a text begin within its bytes. -/
theorem fst_of_mem_positions {offset : Nat} {s : List Char} {p : Nat × Char}
    (listed : p ∈ positions offset s) : offset ≤ p.1 ∧ p.1 < offset + byteLength s := by
  induction s generalizing offset with
  | nil => cases listed
  | cons c s ih =>
    have positive := c.utf8Size_pos
    rw [byteLength_cons]
    rcases List.mem_cons.1 listed with rfl | later
    · exact ⟨Nat.le_refl _, by omega⟩
    · have bounds := ih later
      omega

/-- The places of a text are in increasing order. -/
theorem pairwise_positions (offset : Nat) (s : List Char) :
    ((positions offset s).map Prod.fst).Pairwise (· < ·) := by
  induction s generalizing offset with
  | nil => exact List.Pairwise.nil
  | cons c s ih =>
    refine List.pairwise_cons.2 ⟨fun i there => ?_, ih _⟩
    obtain ⟨p, listed, rfl⟩ := List.mem_map.1 there
    have positive := c.utf8Size_pos
    have bound := (fst_of_mem_positions listed).1
    omega

/-! ## The list of separators -/

/-- The offset of a character, if it is a dot outside of keys. -/
def separatorHere (inKey : Bool) (p : Nat × Char) : List Nat :=
  if p.2 = '.' ∧ inKey = false then [p.1] else []

/-- A dot is no bracket, so that a key is open on both sides of it or on none. -/
theorem separatorHere_toggle (inKey : Bool) (p : Nat × Char) :
    separatorHere (toggle inKey p.2) p = separatorHere inKey p := by
  by_cases dot : p.2 = '.'
  · rw [dot]
    rfl
  · rw [separatorHere, separatorHere, if_neg fun h => dot h.1, if_neg fun h => dot h.1]

theorem reverse_separatorHere (inKey : Bool) (p : Nat × Char) :
    (separatorHere inKey p).reverse = separatorHere inKey p := by
  rw [separatorHere]
  split <;> rfl

/-- The offsets of all dots outside of keys, in the order in which they are met. -/
def separators (inKey : Bool) : List (Nat × Char) → List Nat
  | [] => []
  | p :: rest => separatorHere inKey p ++ separators (toggle inKey p.2) rest

/-- A scan stops at the first separator that it meets. -/
theorem scan_eq_head? (inKey : Bool) (ps : List (Nat × Char)) :
    scan inKey ps = (separators inKey ps).head? := by
  induction ps generalizing inKey with
  | nil => rfl
  | cons p ps ih =>
    rw [scan, separators, separatorHere, toggle]
    by_cases bracket : isBracket p.2 = true
    · have noDot : p.2 ≠ '.' := fun dot => by
        rw [dot] at bracket
        cases bracket
      rw [if_pos bracket, if_pos bracket, if_neg fun h => noDot h.1, ih, List.nil_append]
    · rw [if_neg bracket, if_neg bracket, ih]
      split <;> rfl

/-- The separators of two texts in a row: whether those of the second count depends on the keys open
behind the first. -/
theorem separators_append (inKey : Bool) (ps qs : List (Nat × Char)) :
    separators inKey (ps ++ qs)
      = separators inKey ps ++ separators (openAfter inKey (ps.map Prod.snd)) qs := by
  induction ps generalizing inKey with
  | nil => rfl
  | cons p ps ih =>
    rw [List.cons_append, separators, separators, ih, List.append_assoc]
    rfl

/-- From the other end, with a key open if one is open there, the same separators are met. -/
theorem separators_reverse (inKey : Bool) (ps : List (Nat × Char)) :
    separators (openAfter inKey (ps.map Prod.snd)) ps.reverse = (separators inKey ps).reverse := by
  induction ps generalizing inKey with
  | nil => rfl
  | cons p ps ih =>
    have behind : openAfter inKey ((p :: ps).map Prod.snd)
        = openAfter (toggle inKey p.2) (ps.map Prod.snd) := rfl
    have last : separators (toggle inKey p.2) [p] = separatorHere inKey p := by
      rw [separators, separators, separatorHere_toggle, List.append_nil]
    rw [behind, List.reverse_cons, separators_append, ih, List.map_reverse, openAfter_reverse,
      last, separators, List.reverse_append, reverse_separatorHere]

/-- Separators are places, in their order. -/
theorem separators_sublist (inKey : Bool) (ps : List (Nat × Char)) :
    (separators inKey ps).Sublist (ps.map Prod.fst) := by
  induction ps generalizing inKey with
  | nil => exact List.Sublist.refl _
  | cons p ps ih =>
    rw [separators, separatorHere]
    split
    · exact (ih _).cons_cons p.1
    · exact (ih _).cons p.1

/-- The separators of a text are its dots behind which the keys of the text before are closed. -/
theorem mem_separators_positions {i offset : Nat} {inKey : Bool} {s : List Char} :
    i ∈ separators inKey (positions offset s) ↔ ∃ before after, s = before ++ '.' :: after ∧
      offset + byteLength before = i ∧ openAfter inKey before = false := by
  induction s generalizing offset inKey with
  | nil => simp [positions, separators]
  | cons c s ih =>
    rw [positions, separators, separatorHere, List.mem_append, ih]
    constructor
    · rintro (here | ⟨before, after, rfl, rfl, closed⟩)
      · split at here
        · rename_i dot
          obtain ⟨rfl, rfl⟩ := dot
          exact ⟨[], s, rfl, (List.mem_singleton.1 here).symm, rfl⟩
        · cases here
      · exact ⟨c :: before, after, rfl, by rw [byteLength_cons, Nat.add_assoc], closed⟩
    · rintro ⟨before, after, split, rfl, closed⟩
      cases before with
      | nil =>
        rw [List.nil_append, List.cons.injEq] at split
        have outside : inKey = false := closed
        rw [if_pos ⟨split.1, outside⟩]
        exact .inl (List.mem_singleton.2 rfl)
      | cons d before =>
        rw [List.cons_append, List.cons.injEq] at split
        obtain ⟨rfl, rfl⟩ := split
        exact .inr ⟨before, after, rfl, by rw [byteLength_cons, Nat.add_assoc], closed⟩

/-! ## First and last separator -/

/-- The number of brackets in a text, of either direction. -/
def bracketCount (s : String) : Nat := s.toList.countP isBracket

/-- At byte `i` of the path stands a dot with an even number of brackets before it. -/
def SeparatesAt (path : String) (i : Nat) : Prop :=
  ∃ before after, path = before ++ "." ++ after ∧ before.utf8ByteSize = i ∧
    Even (bracketCount before)

/-- The offsets of the separators of a path, in increasing order. -/
def separatorsOf (path : String) : List Nat := separators false (positions 0 path.toList)

theorem utf8ByteSize_ofList (s : List Char) : (String.ofList s).utf8ByteSize = byteLength s := by
  rw [String.utf8ByteSize_ofList]
  induction s with
  | nil => rfl
  | cons c s ih => rw [String.utf8Len_cons, ih, byteLength_cons, Nat.add_comm]

/-- The listed offsets are those at which a dot separates. -/
theorem mem_separatorsOf_iff {path : String} {i : Nat} :
    i ∈ separatorsOf path ↔ SeparatesAt path i := by
  rw [separatorsOf, mem_separators_positions]
  constructor
  · rintro ⟨before, after, split, rfl, closed⟩
    refine ⟨String.ofList before, String.ofList after, ?_, ?_, ?_⟩
    · rw [← String.toList_inj, split]
      simp
    · rw [utf8ByteSize_ofList, Nat.zero_add]
    · rw [bracketCount, String.toList_ofList]
      exact (openAfter_eq_false_iff.1 closed).2 rfl
  · rintro ⟨before, after, rfl, rfl, even⟩
    refine ⟨before.toList, after.toList, by simp, ?_, openAfter_eq_false_iff.2 ?_⟩
    · rw [Nat.zero_add, ← utf8ByteSize_ofList, String.ofList_toList]
    · exact iff_of_true even rfl

/-- Separators are listed in increasing order. -/
theorem pairwise_separatorsOf (path : String) : (separatorsOf path).Pairwise (· < ·) :=
  (pairwise_positions 0 path.toList).sublist (separators_sublist _ _)

/-- The first separator is the first one of the list. -/
theorem firstSeparator_eq_head? (path : String) :
    firstSeparator path = (separatorsOf path).head? :=
  scan_eq_head? false _

/-- Where the brackets are even in number, the last separator is the last one in the list. -/
theorem lastSeparator_eq_getLast? {path : String} (even : Even (bracketCount path)) :
    lastSeparator path = (separatorsOf path).getLast? := by
  -- No key is open at the end, so the scan from there starts as it has to.
  have closed : openAfter false path.toList = false :=
    openAfter_eq_false_iff.2 (iff_of_true even rfl)
  have reversed := separators_reverse false (positions 0 path.toList)
  rw [map_snd_positions, closed] at reversed
  rw [lastSeparator, scan_eq_head?, reversed, List.head?_reverse, separatorsOf]

/-- The first one of increasing numbers is the least. -/
theorem head?_eq_some_iff_isLeast {is : List Nat} (increasing : is.Pairwise (· < ·)) {i : Nat} :
    is.head? = some i ↔ IsLeast {j | j ∈ is} i := by
  cases is with
  | nil => exact ⟨nofun, fun least => absurd least.1 List.not_mem_nil⟩
  | cons first rest =>
    have least : IsLeast {j | j ∈ first :: rest} first := by
      refine ⟨List.mem_cons_self, fun j listed => ?_⟩
      rcases List.mem_cons.1 listed with rfl | later
      · exact Nat.le_refl _
      · exact Nat.le_of_lt (List.rel_of_pairwise_cons increasing later)
    exact ⟨fun h => Option.some.inj h ▸ least, fun h => congrArg some (least.unique h)⟩

/-- The last one of increasing numbers is the greatest. -/
theorem getLast?_eq_some_iff_isGreatest {is : List Nat} (increasing : is.Pairwise (· < ·))
    {i : Nat} : is.getLast? = some i ↔ IsGreatest {j | j ∈ is} i := by
  rcases List.eq_nil_or_concat is with rfl | ⟨rest, last, rfl⟩
  · exact ⟨nofun, fun greatest => absurd greatest.1 List.not_mem_nil⟩
  · rw [List.concat_eq_append] at increasing ⊢
    have greatest : IsGreatest {j | j ∈ rest ++ [last]} last := by
      refine ⟨List.mem_append_right _ List.mem_cons_self, fun j listed => ?_⟩
      rcases List.mem_append.1 listed with earlier | here
      · exact Nat.le_of_lt ((List.pairwise_append.1 increasing).2.2 j earlier last
          List.mem_cons_self)
      · exact Nat.le_of_eq (List.mem_singleton.1 here)
    rw [List.getLast?_concat]
    exact ⟨fun h => Option.some.inj h ▸ greatest, fun h => congrArg some (greatest.unique h)⟩

/-- A separator stands between two characters. -/
theorem SeparatesAt.isValid {path : String} {i : Nat} (h : SeparatesAt path i) :
    String.Pos.Raw.IsValid path ⟨i⟩ := by
  obtain ⟨before, after, rfl, rfl, -⟩ := h
  rw [String.append_assoc]
  exact String.Pos.Raw.isValid_rawEndPos.append_right _

/-- The characters that begin before the end of a front are those of the front. -/
theorem map_snd_filter_positions (s t : List Char) :
    ((positions 0 (s ++ t)).filter fun p => p.1 < byteLength s).map Prod.snd = s := by
  have front : (positions 0 s).filter (fun p => p.1 < byteLength s) = positions 0 s := by
    refine List.filter_eq_self.2 fun p listed => decide_eq_true ?_
    have bounds := fst_of_mem_positions listed
    omega
  have back : (positions (byteLength s) t).filter (fun p => p.1 < byteLength s) = [] := by
    refine List.filter_eq_nil_iff.2 fun p listed => ?_
    have bounds := fst_of_mem_positions listed
    simpa using bounds.1
  rw [positions_append, List.filter_append, front, Nat.zero_add, back, List.append_nil,
    map_snd_positions]

/-- What is cut off at the first separator is the text before it. -/
theorem head?_eq_some_iff {path before : String} :
    head? path = some before ↔
      firstSeparator path = some before.utf8ByteSize ∧ ∃ after, path = before ++ "." ++ after := by
  have cut : ∀ {front back : String}, path = front ++ "." ++ back →
      String.ofList (((positions 0 path.toList).filter
        fun p => p.1 < front.utf8ByteSize).map (·.2)) = front := by
    rintro front back rfl
    have size : front.utf8ByteSize = byteLength front.toList := by
      rw [← utf8ByteSize_ofList, String.ofList_toList]
    rw [String.append_assoc, String.toList_append, size, map_snd_filter_positions,
      String.ofList_toList]
  rw [head?, Option.map_eq_some_iff]
  constructor
  · rintro ⟨i, first, rfl⟩
    have listed : i ∈ separatorsOf path := by
      rw [firstSeparator_eq_head?] at first
      exact List.mem_of_head? first
    obtain ⟨front, back, split, rfl, -⟩ := mem_separatorsOf_iff.1 listed
    rw [cut split]
    exact ⟨first, back, split⟩
  · rintro ⟨first, after, split⟩
    exact ⟨_, first, cut split⟩

/-- **First and last separator.**  On a path with an even number of brackets, the first separator
and the last one are the least and the greatest offset of a dot with an even number of brackets
before it, both are missing if there is no such dot, and a path can be cut at either of them; what
is cut off at the first one is the text before it. -/
theorem separators_agree {path : String} (even : Even (bracketCount path)) :
    (∀ i, firstSeparator path = some i ↔ IsLeast {j | SeparatesAt path j} i) ∧
    (∀ i, lastSeparator path = some i ↔ IsGreatest {j | SeparatesAt path j} i) ∧
    (firstSeparator path = none ↔ ∀ i, ¬SeparatesAt path i) ∧
    (lastSeparator path = none ↔ ∀ i, ¬SeparatesAt path i) ∧
    (∀ i, firstSeparator path = some i ∨ lastSeparator path = some i →
      String.Pos.Raw.IsValid path ⟨i⟩) ∧
    (∀ before, head? path = some before ↔
      firstSeparator path = some before.utf8ByteSize ∧ ∃ after, path = before ++ "." ++ after) ∧
    (firstSeparator path).isSome = (lastSeparator path).isSome := by
  have first := firstSeparator_eq_head? path
  have last := lastSeparator_eq_getLast? even
  have increasing := pairwise_separatorsOf path
  have same : {j | j ∈ separatorsOf path} = {j | SeparatesAt path j} :=
    Set.ext fun _ => mem_separatorsOf_iff
  have least : ∀ i, firstSeparator path = some i ↔ IsLeast {j | SeparatesAt path j} i := by
    intro i
    rw [first, ← same, head?_eq_some_iff_isLeast increasing]
  have greatest : ∀ i, lastSeparator path = some i ↔ IsGreatest {j | SeparatesAt path j} i := by
    intro i
    rw [last, ← same, getLast?_eq_some_iff_isGreatest increasing]
  have empty : separatorsOf path = [] ↔ ∀ i, ¬SeparatesAt path i := by
    rw [List.eq_nil_iff_forall_not_mem]
    exact forall_congr' fun _ => not_congr mem_separatorsOf_iff
  have noFirst : firstSeparator path = none ↔ separatorsOf path = [] := by
    rw [first, List.head?_eq_none_iff]
  have noLast : lastSeparator path = none ↔ separatorsOf path = [] := by
    rw [last, List.getLast?_eq_none_iff]
  refine ⟨least, greatest, noFirst.trans empty, noLast.trans empty, fun i h => ?_,
    fun _ => head?_eq_some_iff, ?_⟩
  · rcases h with h | h
    · exact ((least i).1 h).1.isValid
    · exact ((greatest i).1 h).1.isValid
  · rw [Bool.eq_iff_iff, Option.isSome_iff_ne_none, Option.isSome_iff_ne_none, Ne, Ne, noFirst,
      noLast]

/-- Brackets the wrong way round, with a dot between them that does not separate. -/
theorem separators_agree_malformed :
    Even (bracketCount "é.a]b.c[.d.e") ∧ IsLeast {j | SeparatesAt "é.a]b.c[.d.e" j} 2 ∧
      IsGreatest {j | SeparatesAt "é.a]b.c[.d.e" j} 11 := by
  have even : Even (bracketCount "é.a]b.c[.d.e") := by decide
  obtain ⟨least, greatest, -⟩ := separators_agree even
  exact ⟨even, (least 2).1 (by decide), (greatest 11).1 (by decide)⟩

end BeanWiring.PropertyPath
