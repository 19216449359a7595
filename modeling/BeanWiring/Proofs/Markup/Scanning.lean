/-
# Scanning

What the tokens of a document are, as a relation: texts without the blanks around them, the pieces
of markup between them, and nothing behind the first fault.  A document can be scanned in parts,
since pieces do not depend on what follows them.

Main statements:

* `scan_eq_iff` : scanning finds the tokens of a document;
* `Whole.scans` : whole pieces are scanned apart from what follows;
* `Scans.shift` : a text that stands further back has its tokens further back.
-/
import BeanWiring.Proofs.Markup.Pieces

namespace BeanWiring.Markup

open Text

/-! ## Texts between pieces -/

/-- A text without the blanks of markup around it. -/
def trimMarkup (s : List Char) : List Char :=
  dropRightWhile isMarkupBlank (s.dropWhile isMarkupBlank)

/-- The token of a text that stands between pieces, unless it is blank. -/
def gapTokens (offset : Nat) (gap : List Char) : List Token :=
  if gap.all isMarkupBlank then []
  else
    [⟨.text (trimMarkup gap), offset + byteLength (gap.takeWhile isMarkupBlank),
      offset + byteLength gap⟩]

/-- No text begins here: the document ends, or a piece begins. -/
def Stops (s : List Char) : Prop := ∀ c ∈ s.head?, c = '<'

theorem stops_nil : Stops [] := fun _ => nofun

theorem stops_open (s : List Char) : Stops ('<' :: s) := fun _ first => (Option.some.inj first).symm

/-- Where no text begins, the document ends or a piece begins. -/
theorem Stops.cases {s : List Char} (stops : Stops s) : s = [] ∨ ∃ rest, s = '<' :: rest := by
  cases s with
  | nil => exact .inl rfl
  | cons c s => exact .inr ⟨s, by rw [stops c rfl]⟩

/-- Every text goes on up to the next piece. -/
theorem exists_stops (s : List Char) : ∃ gap tail, s = gap ++ tail ∧ '<' ∉ gap ∧ Stops tail := by
  by_cases first : '<' ∈ s
  · obtain ⟨gap, rest, rfl, noPiece⟩ := List.eq_append_cons_of_mem first
    exact ⟨gap, _, rfl, noPiece, stops_open rest⟩
  · exact ⟨s, [], (List.append_nil s).symm, first, stops_nil⟩

/-- A scan with tokens in front. -/
def Scan.prepend (tokens : List Token) (scan : Scan) : Scan :=
  { scan with tokens := tokens ++ scan.tokens }

theorem Scan.prepend_nil (scan : Scan) : scan.prepend [] = scan := rfl

/-- Tokens go in front of a scan in their order. -/
theorem Scan.prepend_append (tokens tokens' : List Token) (scan : Scan) :
    scan.prepend (tokens ++ tokens') = (scan.prepend tokens').prepend tokens := by
  rw [prepend, prepend, prepend, List.append_assoc]

/-! ## Documents -/

/-- With its brackets, a piece is two bytes longer than without. -/
theorem byteLength_piece (body s : List Char) :
    byteLength ('<' :: (body ++ '>' :: s)) = byteLength body + 2 + byteLength s := by
  have bracket : '<'.utf8Size = 1 ∧ '>'.utf8Size = 1 := ⟨rfl, rfl⟩
  rw [byteLength_cons, byteLength_append, byteLength_cons, bracket.1, bracket.2]
  omega

/-- Where what stands behind a piece ends. -/
theorem add_byteLength_piece (offset : Nat) (gap body s : List Char) :
    offset + byteLength (gap ++ '<' :: (body ++ '>' :: s))
      = offset + byteLength gap + byteLength body + 2 + byteLength s := by
  rw [byteLength_append, byteLength_piece]
  omega

/-- The scan of a text that begins at an offset. -/
inductive Scans : (offset : Nat) → List Char → Scan → Prop
  | last {offset : Nat} {gap : List Char} (noPiece : '<' ∉ gap) :
      Scans offset gap ⟨gapTokens offset gap, none⟩
  | fault {offset : Nat} {gap rest : List Char} {fault : Fault} (noPiece : '<' ∉ gap)
      (faulty : pieceAfterOpen rest = .error fault) :
      Scans offset (gap ++ '<' :: rest)
        ⟨gapTokens offset gap, some ⟨fault, faultOffset (offset + byteLength gap) rest fault⟩⟩
  | piece {offset : Nat} {gap body s : List Char} {piece : Piece} {scan : Scan}
      (noPiece : '<' ∉ gap) (isPiece : IsPiece body piece)
      (rest : Scans (offset + byteLength gap + byteLength body + 2) s scan) :
      Scans offset (gap ++ '<' :: (body ++ '>' :: s))
        (scan.prepend (gapTokens offset gap ++
          [⟨piece, offset + byteLength gap, offset + byteLength gap + byteLength body + 2⟩]))

section Fuel

variable {fuel offset : Nat}

/-- At an angle bracket the scan cuts a piece, or stops with its fault. -/
theorem scanFrom_open (rest : List Char) : scanFrom (fuel + 1) offset ('<' :: rest) =
    match pieceAfterOpen rest with
    | .error fault => ⟨[], some ⟨fault, faultOffset offset rest fault⟩⟩
    | .ok cut => (scanFrom fuel (offset + 1 + cut.size) cut.rest).cons
        ⟨cut.piece, offset, offset + 1 + cut.size⟩ :=
  rfl

/-- Anywhere else the scan takes the text up to the next angle bracket, without the blanks around
it. -/
theorem scanFrom_text {s rest : List Char} {c : Char}
    (drop : s.dropWhile isMarkupBlank = c :: rest) (other : c ≠ '<') :
    scanFrom (fuel + 1) offset s =
      (scanFrom fuel (offset + byteLength (s.takeWhile isMarkupBlank) +
          byteLength ((c :: rest).takeWhile (· ≠ '<'))) ((c :: rest).dropWhile (· ≠ '<'))).cons
        ⟨.text (dropRightWhile isMarkupBlank ((c :: rest).takeWhile (· ≠ '<'))),
          offset + byteLength (s.takeWhile isMarkupBlank),
          offset + byteLength (s.takeWhile isMarkupBlank) +
            byteLength ((c :: rest).takeWhile (· ≠ '<'))⟩ := by
  rw [scanFrom, drop]
  split
  · rename_i none
    cases none
  · rename_i same
    exact absurd (List.cons.inj same).1 other
  · rename_i same
    cases same
    rfl

/-- A text is scanned apart from the pieces behind it. -/
theorem scanFrom_gap {gap tail : List Char} (noPiece : '<' ∉ gap) (stops : Stops tail)
    (enough : (gap ++ tail).length < fuel) :
    ∃ left, tail.length ≤ left ∧ scanFrom fuel offset (gap ++ tail)
      = (scanFrom (left + 1) (offset + byteLength gap) tail).prepend (gapTokens offset gap) := by
  obtain ⟨fuel, rfl⟩ : ∃ n, fuel = n + 1 := ⟨fuel - 1, by omega⟩
  rw [List.length_append] at enough
  by_cases blank : gap.all isMarkupBlank = true
  · refine ⟨fuel, by omega, ?_⟩
    have all : ∀ c ∈ gap, isMarkupBlank c = true := List.all_eq_true.1 blank
    have solid : tail.takeWhile isMarkupBlank = [] ∧ tail.dropWhile isMarkupBlank = tail := by
      rcases stops.cases with rfl | ⟨rest, rfl⟩ <;> exact ⟨rfl, rfl⟩
    rw [gapTokens, if_pos blank, Scan.prepend_nil, scanFrom, scanFrom,
      List.takeWhile_append_of_pos all, List.dropWhile_append_of_pos all, solid.1, solid.2,
      List.append_nil]
    rfl
  · rw [gapTokens, if_neg blank]
    obtain ⟨lead, c, back, rfl, blanks, solid⟩ := exists_first_of_not_all blank
    rw [List.length_append, List.length_cons] at enough
    obtain ⟨fuel, rfl⟩ : ∃ n, fuel = n + 1 := ⟨fuel - 1, by omega⟩
    refine ⟨fuel, by omega, ?_⟩
    have whole : ∀ d ∈ c :: back, decide (d ≠ '<') = true := by
      intro d there
      exact decide_eq_true fun same => noPiece (List.mem_append_right _ (same ▸ there))
    have first : c ≠ '<' := fun same => by simpa [same] using whole c List.mem_cons_self
    have stop : tail.takeWhile (· ≠ '<') = [] ∧ tail.dropWhile (· ≠ '<') = tail := by
      rcases stops.cases with rfl | ⟨rest, rfl⟩ <;> exact ⟨rfl, rfl⟩
    obtain ⟨taken, left⟩ := takeWhile_append_cons blanks solid (back ++ tail)
    obtain ⟨taken', left'⟩ := takeWhile_append_cons blanks solid back
    rw [List.append_assoc, List.cons_append, scanFrom_text left first, taken, ← List.cons_append,
      List.takeWhile_append_of_pos whole, List.dropWhile_append_of_pos whole, stop.1, stop.2,
      List.append_nil, taken', trimMarkup, left', byteLength_append, Nat.add_assoc]
    rfl

/-- The scan with fuel ends with what the relation says, if there is more fuel than text. -/
theorem scanFrom_eq_of_scans {s : List Char} {r : Scan} (h : Scans offset s r)
    (enough : s.length < fuel) : scanFrom fuel offset s = r := by
  induction h generalizing fuel with
  | @last offset gap noPiece =>
    rw [← List.append_nil gap] at enough ⊢
    obtain ⟨left, -, scanned⟩ := scanFrom_gap noPiece stops_nil enough
    rw [scanned, List.append_nil]
    exact congrArg (Scan.mk · none) (List.append_nil _)
  | @fault offset gap rest fault noPiece faulty =>
    obtain ⟨left, -, scanned⟩ := scanFrom_gap noPiece (stops_open rest) enough
    rw [scanned, scanFrom_open, faulty]
    exact congrArg (Scan.mk · _) (List.append_nil _)
  | @piece offset gap body s piece r noPiece isPiece _ ih =>
    obtain ⟨left, more, scanned⟩ := scanFrom_gap noPiece (stops_open _) enough
    rw [List.length_cons, List.length_append, List.length_cons] at more
    have stop : offset + byteLength gap + 1 + (byteLength body + 1)
        = offset + byteLength gap + byteLength body + 2 := by omega
    rw [scanned, scanFrom_open, isPiece, Scan.prepend_append]
    simp only [Cut.upTo, stop]
    rw [ih (by omega)]
    rfl

end Fuel

/-- Every text has a scan. -/
theorem exists_scans (offset : Nat) (s : List Char) : ∃ r, Scans offset s r := by
  obtain ⟨size, full⟩ : ∃ n, s.length = n := ⟨_, rfl⟩
  induction size using Nat.strongRecOn generalizing offset s with
  | _ size ih =>
    obtain ⟨gap, tail, rfl, noPiece, stops⟩ := exists_stops s
    rcases stops.cases with rfl | ⟨rest, rfl⟩
    · rw [List.append_nil]
      exact ⟨_, .last noPiece⟩
    · rw [List.length_append, List.length_cons] at full
      cases found : pieceAfterOpen rest with
      | error fault => exact ⟨_, .fault noPiece found⟩
      | ok cut =>
        obtain ⟨body, rfl, -, isPiece⟩ := exists_isPiece found
        rw [List.length_append, List.length_cons] at full
        obtain ⟨r, scanned⟩ := ih cut.rest.length (by omega)
          (offset + byteLength gap + byteLength body + 2) cut.rest rfl
        exact ⟨_, .piece noPiece isPiece scanned⟩

/-- With fuel enough, the scan of a text is found. -/
theorem scanFrom_eq_iff {fuel offset : Nat} {s : List Char} {r : Scan} (enough : s.length < fuel) :
    scanFrom fuel offset s = r ↔ Scans offset s r := by
  constructor
  · rintro rfl
    obtain ⟨r, scanned⟩ := exists_scans offset s
    rwa [scanFrom_eq_of_scans scanned enough]
  · exact fun scanned => scanFrom_eq_of_scans scanned enough

/-- **Scanning.**  The scan of a document is found. -/
theorem scan_eq_iff {s : List Char} {r : Scan} : scan s = r ↔ Scans 0 s r :=
  scanFrom_eq_iff (Nat.lt_succ_self _)

/-- A text is scanned apart from what follows it. -/
theorem Scans.prepend_gap {offset : Nat} {gap s : List Char} {r : Scan} (noPiece : '<' ∉ gap)
    (stops : Stops s) (later : Scans (offset + byteLength gap) s r) :
    Scans offset (gap ++ s) (r.prepend (gapTokens offset gap)) := by
  have enough := Nat.lt_succ_self (gap ++ s).length
  obtain ⟨fuel, more, scanned⟩ := scanFrom_gap noPiece stops enough
  rw [(scanFrom_eq_iff (Nat.lt_succ_of_le more)).2 later] at scanned
  exact (scanFrom_eq_iff enough).1 scanned

/-! ## Places of tokens -/

/-- A token that stands `n` bytes further back. -/
def Token.shift (n : Nat) (t : Token) : Token :=
  { t with start := t.start + n, stop := t.stop + n }

/-- A scan of what stands `n` bytes further back. -/
def Scan.shift (n : Nat) (r : Scan) : Scan :=
  ⟨r.tokens.map (Token.shift n), r.fault.map fun f => { f with offset := f.offset + n }⟩

/-- Tokens put in front of a scan are shifted along with it. -/
theorem Scan.shift_prepend (n : Nat) (tokens : List Token) (r : Scan) :
    (r.prepend tokens).shift n = (r.shift n).prepend (tokens.map (Token.shift n)) := by
  simp only [shift, prepend, List.map_append]

/-- The token of a gap is shifted along with the gap. -/
theorem gapTokens_add (offset n : Nat) (gap : List Char) :
    gapTokens (offset + n) gap = (gapTokens offset gap).map (Token.shift n) := by
  unfold gapTokens
  split
  · rfl
  · simp only [List.map_cons, List.map_nil, Token.shift, Nat.add_right_comm _ n]

/-- The offset of a fault is shifted along with the text. -/
theorem faultOffset_add (offset n : Nat) (s : List Char) (fault : Fault) :
    faultOffset (offset + n) s fault = faultOffset offset s fault + n := by
  unfold faultOffset
  split
  · split
    · omega
    · rfl
  · rfl

/-- A text that stands further back has its tokens further back. -/
theorem Scans.shift {offset : Nat} {s : List Char} {r : Scan} (h : Scans offset s r) (n : Nat) :
    Scans (offset + n) s (r.shift n) := by
  induction h with
  | @last offset gap noPiece =>
    have last : Scans (offset + n) gap _ := .last noPiece
    rwa [gapTokens_add] at last
  | @fault offset gap rest fault noPiece faulty =>
    have last : Scans (offset + n) (gap ++ '<' :: rest) _ := .fault noPiece faulty
    rwa [gapTokens_add, Nat.add_right_comm, faultOffset_add] at last
  | @piece offset gap body s piece r noPiece isPiece _ ih =>
    rw [Nat.add_right_comm _ 2, Nat.add_right_comm _ (byteLength body),
      Nat.add_right_comm _ (byteLength gap)] at ih
    have all : Scans (offset + n) (gap ++ '<' :: (body ++ '>' :: s)) _ := .piece noPiece isPiece ih
    have own : (⟨piece, offset + n + byteLength gap,
        offset + n + byteLength gap + byteLength body + 2⟩ : Token) = Token.shift n
          ⟨piece, offset + byteLength gap, offset + byteLength gap + byteLength body + 2⟩ := by
      simp only [Token.shift, Token.mk.injEq, true_and]
      omega
    rwa [gapTokens_add, own, ← List.map_singleton, ← List.map_append, ← Scan.shift_prepend] at all

/-- The token of a gap is not empty, and lies within the gap. -/
theorem gapTokens_bounds {offset : Nat} {gap : List Char} {t : Token}
    (there : t ∈ gapTokens offset gap) :
    offset ≤ t.start ∧ t.start < t.stop ∧ t.stop ≤ offset + byteLength gap := by
  unfold gapTokens at there
  split at there
  · cases there
  · rename_i solid
    obtain ⟨lead, c, back, rfl, blanks, first⟩ := exists_first_of_not_all solid
    rw [(takeWhile_append_cons blanks first back).1, List.mem_singleton] at there
    rw [there, byteLength_append, byteLength_cons]
    have := Char.utf8Size_pos c
    simp only
    omega

/-- Tokens stand one after the other in the text they are cut from. -/
theorem Scans.bounds {offset : Nat} {s : List Char} {r : Scan} (h : Scans offset s r) {t : Token}
    (there : t ∈ r.tokens) :
    offset ≤ t.start ∧ t.start < t.stop ∧ t.stop ≤ offset + byteLength s := by
  induction h with
  | last noPiece => exact gapTokens_bounds there
  | fault noPiece faulty =>
    have := gapTokens_bounds there
    rw [byteLength_append]
    omega
  | piece noPiece isPiece _ ih =>
    rw [byteLength_append, byteLength_piece]
    rcases List.mem_append.1 there with front | back
    · rcases List.mem_append.1 front with text | own
      · have := gapTokens_bounds text
        omega
      · rw [List.mem_singleton.1 own]
        simp only
        omega
    · have := ih back
      omega

/-! ## Whole pieces -/

/-- Pieces with texts between them, the last one at the end, with their tokens. -/
inductive Whole : (offset : Nat) → List Char → List Token → Prop
  | nil {offset : Nat} : Whole offset [] []
  | cons {offset : Nat} {gap body s : List Char} {piece : Piece} {tokens : List Token}
      (noPiece : '<' ∉ gap) (isPiece : IsPiece body piece)
      (rest : Whole (offset + byteLength gap + byteLength body + 2) s tokens) :
      Whole offset (gap ++ '<' :: (body ++ '>' :: s))
        (gapTokens offset gap ++
          ⟨piece, offset + byteLength gap, offset + byteLength gap + byteLength body + 2⟩ :: tokens)

/-- Whole pieces are scanned apart from what follows. -/
theorem Whole.scans {offset : Nat} {s : List Char} {tokens : List Token}
    (h : Whole offset s tokens) {more : List Char} {r : Scan}
    (later : Scans (offset + byteLength s) more r) :
    Scans offset (s ++ more) (r.prepend tokens) := by
  induction h with
  | nil => exact later
  | @cons offset gap body s piece tokens noPiece isPiece _ ih =>
    have behind := add_byteLength_piece offset gap body s
    have all := Scans.piece noPiece isPiece (ih (behind ▸ later))
    rw [← Scan.prepend_append, List.append_assoc] at all
    rwa [List.append_assoc, List.cons_append, List.append_assoc, List.cons_append]

theorem Whole.eq_nil {offset : Nat} {tokens : List Token} (h : Whole offset [] tokens) :
    tokens = [] := by
  generalize empty : ([] : List Char) = s at h
  cases h with
  | nil => rfl
  | cons => exact absurd empty.symm (List.append_ne_nil_of_right_ne_nil _ (List.cons_ne_nil _ _))

/-- Tokens of whole pieces are not empty, and lie within the text. -/
theorem Whole.bounds {offset : Nat} {s : List Char} {tokens : List Token}
    (h : Whole offset s tokens) {t : Token} (there : t ∈ tokens) :
    offset ≤ t.start ∧ t.start < t.stop ∧ t.stop ≤ offset + byteLength s := by
  have last : Scans (offset + byteLength s) [] _ := .last List.not_mem_nil
  have bounds := (h.scans last).bounds (List.mem_append_left _ there)
  rwa [List.append_nil] at bounds

/-- Where a scan has found no fault, it stands behind whole pieces, in a text. -/
theorem Scans.exists_whole {offset : Nat} {s : List Char} {r : Scan} (h : Scans offset s r)
    (sound : r.fault = none) :
    ∃ before gap tokens, s = before ++ gap ∧ Whole offset before tokens ∧ '<' ∉ gap := by
  induction h with
  | last noPiece => exact ⟨[], _, [], rfl, .nil, noPiece⟩
  | fault => cases sound
  | @piece offset gap body s piece r noPiece isPiece _ ih =>
    obtain ⟨before, last, tokens, rfl, whole, noPiece'⟩ := ih sound
    exact ⟨_, last, _, by simp, .cons noPiece isPiece whole, noPiece'⟩

end BeanWiring.Markup
