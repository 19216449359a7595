/-
# Pieces of markup

Where a piece of markup ends: at a bracket that is found without looking behind it, and what kind of
piece it is is told by what stands before the bracket.  So a piece stays the same, whatever follows.

Main statements:

* `exists_isPiece` : a piece that is found is found again whatever follows;
* `isPiece_commentBody` : a comment may contain anything but its end.
-/
import Mathlib.Data.List.TakeWhile
import BeanWiring.Proofs.Text.Searching
import BeanWiring.Markup.Token

namespace BeanWiring.Markup

open Text

/-! ## Ends of pieces -/

/-- A way to cut that leaves out one `>`, whatever stands behind it. -/
def CutsAtBracket (cut : List Char → Option (List Char × List Char)) : Prop :=
  ∀ s body rest, cut s = some (body, rest) →
    s = body ++ '>' :: rest ∧ ∀ more, cut (body ++ '>' :: more) = some (body, more)

/-- Whoever goes through a text in states, and cuts where a state stops at a `>`. -/
theorem cutsAtBracket_of_states {S : Type} {cut : S → List Char → Option (List Char × List Char)}
    {stops : S → Char → Prop} [∀ q c, Decidable (stops q c)] {next : S → Char → S}
    (nil : ∀ q, cut q [] = none)
    (cons : ∀ q c s, cut q (c :: s) =
      if stops q c then some ([], s) else (cut (next q c) s).map fun p => (c :: p.1, p.2))
    (bracket : ∀ q c, stops q c → c = '>') (q : S) : CutsAtBracket (cut q) := by
  intro s
  induction s generalizing q with
  | nil =>
    intro body rest found
    rw [nil] at found
    cases found
  | cons c s ih =>
    intro body rest found
    rw [cons] at found
    split at found
    · rename_i here
      cases found
      obtain rfl := bracket q c here
      refine ⟨rfl, fun more => ?_⟩
      rw [List.nil_append, cons, if_pos here]
    · rename_i inside
      obtain ⟨⟨body, rest⟩, further, same⟩ := Option.map_eq_some_iff.1 found
      cases same
      obtain ⟨split, again⟩ := ih _ _ _ further
      refine ⟨congrArg (c :: ·) split, fun more => ?_⟩
      rw [List.cons_append, cons, if_neg inside, again more]
      rfl

/-- A tag is cut at a bracket outside of quotes. -/
theorem cutTag_cutsAtBracket (quote : Option Char) : CutsAtBracket (cutTag quote) :=
  cutsAtBracket_of_states (fun _ => rfl) (fun _ _ _ => rfl) (fun _ _ => And.right) quote

/-- A declaration is cut at the bracket that balances those inside. -/
theorem cutBalanced_cutsAtBracket (depth : Nat) : CutsAtBracket (cutBalanced depth) :=
  cutsAtBracket_of_states (fun _ => rfl) (fun _ _ _ => rfl) (fun _ _ => And.left) depth

/-- A text is cut at the first `>` at which it may end. -/
theorem cutWhere_eq_some_iff {ends : List Char → Bool} {seen s body rest : List Char} :
    cutWhere ends seen s = some (body, rest) ↔
      ∃ b, body = seen.reverse ++ b ∧ s = b ++ '>' :: rest ∧ ends (b.reverse ++ seen) = true ∧
        ∀ u v, b = u ++ '>' :: v → ends (u.reverse ++ seen) = false := by
  induction s generalizing seen with
  | nil => simp [cutWhere]
  | cons c s ih =>
    rw [cutWhere]
    split
    · rename_i here
      obtain ⟨rfl, here⟩ := here
      constructor
      · rintro ⟨⟩
        exact ⟨[], (List.append_nil _).symm, rfl, here, by simp⟩
      · rintro ⟨b, rfl, split, -, first⟩
        cases b with
        | nil =>
          cases split
          rw [List.append_nil]
        | cons d b =>
          obtain ⟨rfl, -⟩ := List.cons.inj split
          have := first [] b rfl
          rw [List.reverse_nil, List.nil_append, here] at this
          cases this
    · rename_i inside
      rw [ih]
      constructor
      · rintro ⟨b, rfl, rfl, last, first⟩
        refine ⟨c :: b, by simp, rfl, by simpa using last, ?_⟩
        rintro (_ | ⟨d, u⟩) v split
        · obtain ⟨rfl, -⟩ := List.cons.inj split
          simpa using inside
        · obtain ⟨rfl, inner⟩ := List.cons.inj split
          simpa using first u v inner
      · rintro ⟨_ | ⟨d, b⟩, rfl, split, last, first⟩
        · obtain ⟨rfl, -⟩ := List.cons.inj split
          exact absurd ⟨rfl, by simpa using last⟩ inside
        · obtain ⟨rfl, rfl⟩ := List.cons.inj split
          refine ⟨_, by simp, rfl, by simpa using last, fun u v inner => ?_⟩
          simpa using first (c :: u) v (by rw [inner]; rfl)

/-- A piece whose end is tested at each bracket is cut at a bracket. -/
theorem cutWhere_cutsAtBracket (ends : List Char → Bool) : CutsAtBracket (cutWhere ends []) := by
  intro s body rest cut
  obtain ⟨b, rfl, split, last, first⟩ := cutWhere_eq_some_iff.1 cut
  exact ⟨split, fun more => cutWhere_eq_some_iff.2 ⟨body, rfl, rfl, last, first⟩⟩

/-! ## Pieces -/

/-- A reader of a piece that cuts at a bracket, and tells the piece from what stands before it. -/
def ReadsToBracket (read : List Char → Except Fault Cut) : Prop :=
  ∃ (cut : List Char → Option (List Char × List Char)) (check : List Char → Except Fault Piece)
      (fault : Fault), CutsAtBracket cut ∧ ∀ s, read s =
    match cut s with
    | some (body, rest) => (check body).map (Cut.upTo body rest)
    | none => .error fault

/-- What reads up to a bracket reads the same whatever follows. -/
theorem ReadsToBracket.again {read : List Char → Except Fault Cut} (reads : ReadsToBracket read)
    {s : List Char} {cut : Cut} (found : read s = .ok cut) :
    ∃ body, s = body ++ '>' :: cut.rest ∧ cut = .upTo body cut.rest cut.piece ∧
      ∀ more, read (body ++ '>' :: more) = .ok (.upTo body more cut.piece) := by
  obtain ⟨cutAt, check, fault, cuts, same⟩ := reads
  rw [same] at found
  cases ends : cutAt s with
  | none => rw [ends] at found; cases found
  | some p =>
    obtain ⟨body, rest⟩ := p
    rw [ends] at found
    obtain ⟨split, again⟩ := cuts _ _ _ ends
    cases checked : check body with
    | error fault => simp only [checked] at found; cases found
    | ok piece =>
      simp only [checked] at found
      cases found
      refine ⟨body, split, rfl, fun more => ?_⟩
      rw [same, again]
      simp only [checked]
      rfl

theorem comment_readsToBracket : ReadsToBracket comment := by
  let ends : List Char → Bool := fun seen => 4 < seen.length && startsWith ['-', '-'] seen
  refine ⟨_, fun body =>
    if startsWith ['!', '-', '-'] body then .ok .remark else .error .unclosedComment,
    .unclosedComment, cutWhere_cutsAtBracket ends, fun s => ?_⟩
  rw [comment]
  cases cutWhere ends [] s with
  | none => rfl
  | some p =>
    obtain ⟨body, rest⟩ := p
    dsimp only
    cases startsWith ['!', '-', '-'] body <;> rfl

theorem characterData_readsToBracket : ReadsToBracket characterData := by
  refine ⟨_, fun body =>
    (stripStart? "![CDATA[".toList body).elim (.error .unclosedCharacterData) fun raw =>
      .ok (.characterData (raw.take (raw.length - 2))),
    .unclosedCharacterData, cutWhere_cutsAtBracket (startsWith [']', ']']), fun s => ?_⟩
  rw [characterData]
  cases cutWhere (startsWith [']', ']']) [] s with
  | none => rfl
  | some p =>
    obtain ⟨body, rest⟩ := p
    dsimp only
    cases stripStart? "![CDATA[".toList body <;> rfl

theorem doctype_readsToBracket : ReadsToBracket doctype := by
  refine ⟨_, fun body =>
    if startsWithAnyCase "!DOCTYPE".toList body then
      if (body.drop 8).all isMarkupBlank then .error .namelessDoctype else .ok .remark
    else
      .error .unclosedDoctype,
    .unclosedDoctype, cutBalanced_cutsAtBracket 0, fun s => ?_⟩
  rw [doctype]
  cases cutBalanced 0 s with
  | none => rfl
  | some p =>
    obtain ⟨body, rest⟩ := p
    dsimp only
    cases startsWithAnyCase "!DOCTYPE".toList body with
    | false => rfl
    | true => cases (body.drop 8).all isMarkupBlank <;> rfl

theorem instruction_readsToBracket : ReadsToBracket instruction := by
  refine ⟨_, fun body => if 2 ≤ body.length then .ok .remark else .error .unclosedInstruction,
    .unclosedInstruction, cutWhere_cutsAtBracket (startsWith ['?']), fun s => ?_⟩
  rw [instruction]
  cases cutWhere (startsWith ['?']) [] s with
  | none => rfl
  | some p =>
    obtain ⟨body, rest⟩ := p
    dsimp only
    split <;> rfl

theorem tag_readsToBracket : ReadsToBracket tag := by
  refine ⟨_, fun body =>
    .ok (if body.head? = some '/' then .closing (endTagName body.tail)
      else if body.getLast? = some '/' then .empty body.dropLast else .opening body),
    .unclosedTag, cutTag_cutsAtBracket none, fun s => ?_⟩
  rw [tag]
  split
  · rename_i ends
    rw [ends]
    rfl
  · rename_i body rest other ends
    have noSlash : body.head? ≠ some '/' := by
      intro slash
      obtain ⟨content, rfl⟩ := List.head?_eq_some_iff.1 slash
      exact other content rfl
    simp only [ends, if_neg noSlash]
    rfl
  · rename_i ends
    rw [ends]

/-- What stands between `<` and `>` is a piece of markup, whatever follows it. -/
def IsPiece (body : List Char) (piece : Piece) : Prop :=
  ∀ more, pieceAfterOpen (body ++ '>' :: more) = .ok (.upTo body more piece)

/-- A text that does not begin with a bracket begins before the bracket it is cut at. -/
theorem exists_cons_of_cons_eq_append {c : Char} (other : c ≠ '>') {s body rest : List Char}
    (split : c :: s = body ++ '>' :: rest) : ∃ b, body = c :: b ∧ s = b ++ '>' :: rest := by
  cases body with
  | nil => exact absurd (List.cons.inj split).1 other
  | cons d b =>
    obtain ⟨rfl, rest⟩ := List.cons.inj split
    exact ⟨b, rfl, rest⟩

/-- After `<!`, the next character tells what is read. -/
theorem exists_isPiece_of_second {read : List Char → Except Fault Cut}
    (reads : ReadsToBracket read) {c : Char} (other : c ≠ '>')
    (chosen : ∀ t, pieceAfterOpen ('!' :: c :: t) = read ('!' :: c :: t)) {t : List Char}
    {cut : Cut} (found : read ('!' :: c :: t) = .ok cut) :
    ∃ body, '!' :: c :: t = body ++ '>' :: cut.rest ∧ cut = .upTo body cut.rest cut.piece ∧
      IsPiece body cut.piece := by
  obtain ⟨body, split, same, again⟩ := reads.again found
  obtain ⟨b, rfl, further⟩ := exists_cons_of_cons_eq_append (by decide) split
  obtain ⟨b', rfl, -⟩ := exists_cons_of_cons_eq_append other further
  exact ⟨_, split, same, fun more => (chosen _).trans (again more)⟩

/-- What begins with anything else is a tag. -/
theorem pieceAfterOpen_cons_eq_tag {c : Char} (noDeclaration : c ≠ '!') (noInstruction : c ≠ '?')
    {s : List Char} : pieceAfterOpen (c :: s) = tag (c :: s) := by
  unfold pieceAfterOpen
  split
  case h_7 => rfl
  case h_6 starts => exact absurd (List.cons.inj starts).1 noInstruction
  all_goals
    rename_i starts
    exact absurd (List.cons.inj starts).1 noDeclaration

/-- A piece that is found ends at its bracket, and it is found again whatever follows. -/
theorem exists_isPiece {s : List Char} {cut : Cut} (found : pieceAfterOpen s = .ok cut) :
    ∃ body, s = body ++ '>' :: cut.rest ∧ cut = .upTo body cut.rest cut.piece ∧
      IsPiece body cut.piece := by
  unfold pieceAfterOpen at found
  split at found
  · exact exists_isPiece_of_second characterData_readsToBracket (by decide) (fun _ => rfl) found
  · exact exists_isPiece_of_second comment_readsToBracket (by decide) (fun _ => rfl) found
  · exact exists_isPiece_of_second doctype_readsToBracket (by decide) (fun _ => rfl) found
  · exact exists_isPiece_of_second doctype_readsToBracket (by decide) (fun _ => rfl) found
  · cases found
  · obtain ⟨body, split, same, again⟩ := instruction_readsToBracket.again found
    obtain ⟨b, rfl, -⟩ := exists_cons_of_cons_eq_append (by decide) split
    exact ⟨_, split, same, again⟩
  · rename_i noDeclaration noInstruction
    obtain ⟨body, split, same, again⟩ := tag_readsToBracket.again found
    refine ⟨body, split, same, fun more => ?_⟩
    rw [← again more]
    cases body with
    | nil => rfl
    | cons c b =>
      refine pieceAfterOpen_cons_eq_tag ?_ ?_
      · rintro rfl
        exact noDeclaration _ split
      · rintro rfl
        exact noInstruction _ split

/-- What stands between the brackets of a comment. -/
def commentBody (text : List Char) : List Char := '!' :: '-' :: '-' :: (text ++ ['-', '-'])

/-- A comment may contain anything but its end. -/
theorem isPiece_commentBody {text : List Char} (closed : ¬ ['-', '-', '>'] <:+: text) :
    IsPiece (commentBody text) .remark := by
  intro more
  have cut : cutWhere (fun seen => 4 < seen.length && startsWith ['-', '-'] seen) []
      (commentBody text ++ '>' :: more) = some (commentBody text, more) := by
    refine cutWhere_eq_some_iff.2 ⟨_, rfl, rfl, by simp [startsWith, stripStart?], ?_⟩
    intro u v split
    rw [List.append_nil, Bool.eq_false_iff]
    intro ends
    rw [Bool.and_eq_true, decide_eq_true_eq, List.length_reverse, startsWith_iff] at ends
    obtain ⟨long, w, last⟩ := ends
    obtain ⟨w, rfl⟩ : ∃ w, u = w ++ ['-', '-'] :=
      ⟨w.reverse, by simpa using (congrArg List.reverse last).symm⟩
    -- An end inside of the comment lies in its text, behind the three characters that open it.
    obtain ⟨a, b, c, w, rfl⟩ : ∃ a b c w', w = a :: b :: c :: w' := by
      rcases w with _ | ⟨a, _ | ⟨b, _ | ⟨c, w⟩⟩⟩
      case cons.cons.cons => exact ⟨a, b, c, w, rfl⟩
      all_goals exact absurd long (by simp)
    have inner : text ++ ['-', '-'] = w ++ ['-', '-', '>'] ++ v := by
      simpa using (List.cons.inj (List.cons.inj (List.cons.inj split).2).2).2
    rcases List.append_eq_append_iff.1 inner with ⟨tail, ends, rest⟩ | ⟨tail, rfl, -⟩
    · rcases List.eq_nil_or_concat tail with rfl | ⟨tail, d, rfl⟩
      · exact closed ⟨w, [], by simpa using ends⟩
      · have dash : d ∈ ['-', '-'] := by rw [rest]; simp
        obtain rfl : '>' = d := by simpa using congrArg List.getLast? ends
        exact absurd dash (by decide)
    · exact closed ⟨w, tail, rfl⟩
  have starts : startsWith ['!', '-', '-'] (commentBody text) = true := rfl
  show comment _ = _
  rw [comment, cut]
  simp only [starts, if_true]

end BeanWiring.Markup
