/-
# Tokens of markup

Cutting a document into tags, texts and the other pieces of markup.  Blanks around a
text do not belong to it.  A scan keeps all tokens before the first fault, since
whoever folds the tokens may find an earlier one.
-/
import BeanWiring.Markup.Fault
import BeanWiring.Text.Blank

namespace BeanWiring.Markup

open Text

/-- A piece of markup, with what it says between its delimiters. -/
inductive Piece where
  /-- A start tag. -/
  | opening (content : List Char)
  /-- A tag that is closed at once. -/
  | empty (content : List Char)
  /-- An end tag. -/
  | closing (name : List Char)
  /-- Character data with references. -/
  | text (raw : List Char)
  /-- Character data without references. -/
  | characterData (raw : List Char)
  /-- A comment, a declaration or a processing instruction. -/
  | remark
deriving DecidableEq

/-- A piece at its byte offsets: of its first byte and just behind its last one. -/
structure Token where
  piece : Piece
  start : Nat
  stop : Nat
deriving DecidableEq

/-- A fault at a byte offset. -/
structure FaultAt where
  fault : Fault
  offset : Nat
deriving DecidableEq

/-! ## Ends of pieces -/

/-- Cuts at the first `>` outside quotes. -/
def cutTag (quote : Option Char) : List Char → Option (List Char × List Char)
  | [] => none
  | c :: s =>
    if quote = none ∧ c = '>' then
      some ([], s)
    else
      let quote' := match quote with
        | none => if c = '\'' ∨ c = '"' then some c else none
        | some q => if c = q then none else some q
      (cutTag quote' s).map fun p => (c :: p.1, p.2)

/-- Cuts at the first `>` where the characters before it, last one first, end a piece. -/
def cutWhere (ends : List Char → Bool) (seen : List Char) :
    List Char → Option (List Char × List Char)
  | [] => none
  | c :: s =>
    if c = '>' ∧ ends seen then some (seen.reverse, s) else cutWhere ends (c :: seen) s

/-- Cuts at the first `>` that closes no `<` before it. -/
def cutBalanced (depth : Nat) : List Char → Option (List Char × List Char)
  | [] => none
  | c :: s =>
    if c = '>' ∧ depth = 0 then
      some ([], s)
    else
      let depth' := if c = '<' then depth + 1 else if c = '>' then depth - 1 else depth
      (cutBalanced depth' s).map fun p => (c :: p.1, p.2)

/-- Whether a text starts with `start`, small letters counting as capital ones. -/
def startsWithAnyCase (start s : List Char) : Bool :=
  startsWith start (s.map Char.toUpper)

/-! ## Pieces -/

/-- A piece cut off after its `<`. -/
structure Cut where
  piece : Piece
  /-- Number of bytes that were cut off. -/
  size : Nat
  rest : List Char

/-- Cuts off a piece up to a `>` that follows `body`. -/
def Cut.upTo (body rest : List Char) (piece : Piece) : Cut :=
  ⟨piece, byteLength body + 1, rest⟩

/-- A comment, after `<`. -/
def comment (s : List Char) : Except Fault Cut :=
  match cutWhere (fun seen => 4 < seen.length && startsWith ['-', '-'] seen) [] s with
  | some (body, rest) =>
    if startsWith ['!', '-', '-'] body then .ok (.upTo body rest .remark)
    else .error .unclosedComment
  | none => .error .unclosedComment

/-- Character data without references, after `<`. -/
def characterData (s : List Char) : Except Fault Cut :=
  match cutWhere (startsWith [']', ']']) [] s with
  | some (body, rest) =>
    match stripStart? "![CDATA[".toList body with
    | some raw => .ok (.upTo body rest (.characterData (raw.take (raw.length - 2))))
    | none => .error .unclosedCharacterData
  | none => .error .unclosedCharacterData

/-- A document type declaration, after `<`. -/
def doctype (s : List Char) : Except Fault Cut :=
  match cutBalanced 0 s with
  | some (body, rest) =>
    if startsWithAnyCase "!DOCTYPE".toList body then
      if (body.drop 8).all isMarkupBlank then .error .namelessDoctype
      else .ok (.upTo body rest .remark)
    else
      .error .unclosedDoctype
  | none => .error .unclosedDoctype

/-- A processing instruction, after `<`; its two question marks differ. -/
def instruction (s : List Char) : Except Fault Cut :=
  match cutWhere (startsWith ['?']) [] s with
  | some (body, rest) =>
    if 2 ≤ body.length then .ok (.upTo body rest .remark) else .error .unclosedInstruction
  | none => .error .unclosedInstruction

/-- The name in an end tag: without the blanks at its end, unless there is nothing else. -/
def endTagName (content : List Char) : List Char :=
  if content.all isMarkupBlank then content else dropRightWhile isMarkupBlank content

/-- A tag, after `<`: an end tag starts with a slash, and one that ends with a slash is
closed at once. -/
def tag (s : List Char) : Except Fault Cut :=
  match cutTag none s with
  | some ('/' :: content, rest) =>
    .ok (.upTo ('/' :: content) rest (.closing (endTagName content)))
  | some (content, rest) =>
    .ok (.upTo content rest
      (if content.getLast? = some '/' then .empty content.dropLast else .opening content))
  | none => .error .unclosedTag

/-- The piece after `<`. -/
def pieceAfterOpen (s : List Char) : Except Fault Cut :=
  match s with
  | '!' :: '[' :: _ => characterData s
  | '!' :: '-' :: _ => comment s
  | '!' :: 'D' :: _ => doctype s
  | '!' :: 'd' :: _ => doctype s
  | '!' :: _ => .error .unknownMarkup
  | '?' :: _ => instruction s
  | _ => tag s

/-! ## Scanning -/

/-- The tokens of a document up to the first fault, or all of them. -/
structure Scan where
  tokens : List Token
  fault : Option FaultAt

/-- A scan with a token in front. -/
def Scan.cons (token : Token) (scan : Scan) : Scan :=
  { scan with tokens := token :: scan.tokens }

/-- Where a fault of the piece opened at `start` lies: a declaration without a name is
missed at its closing bracket. -/
def faultOffset (start : Nat) (s : List Char) : Fault → Nat
  | .namelessDoctype =>
    match cutBalanced 0 s with
    | some (body, _) => start + 1 + byteLength body
    | none => start
  | _ => start

/-- Scans from a byte offset on.  Each step takes at least one character, so a fuel above
the length of the text is never used up. -/
def scanFrom (fuel offset : Nat) (s : List Char) : Scan :=
  match fuel with
  | 0 => ⟨[], none⟩
  | fuel + 1 =>
    let start := offset + byteLength (s.takeWhile isMarkupBlank)
    match s.dropWhile isMarkupBlank with
    | [] => ⟨[], none⟩
    | '<' :: rest =>
      match pieceAfterOpen rest with
      | .error fault => ⟨[], some ⟨fault, faultOffset start rest fault⟩⟩
      | .ok cut =>
        let stop := start + 1 + cut.size
        (scanFrom fuel stop cut.rest).cons ⟨cut.piece, start, stop⟩
    | c :: rest =>
      let raw := (c :: rest).takeWhile (· ≠ '<')
      let stop := start + byteLength raw
      (scanFrom fuel stop ((c :: rest).dropWhile (· ≠ '<'))).cons
        ⟨.text (dropRightWhile isMarkupBlank raw), start, stop⟩

/-- The tokens of a document. -/
def scan (s : List Char) : Scan :=
  scanFrom (s.length + 1) 0 s

end BeanWiring.Markup
