import QiForge.Shaper

/-!
# The blocks of a text

The tokens of the Markdown lexer become blocks: raw HTML is reduced to its
text, a reference link is written inline, and a table is a line for each row
unless the surface shows tables.
-/

namespace QiForge
namespace Shaper

open Pieces

inductive TokenType where
  | space | hr | definition
  | heading
  | list (ordered : Bool) (start : Option ℕ)
  | code (lang : Option JsString)
  | codespan
  | table (header : List JsString) (rows : List (List JsString))
  | blockquote
  | html
  | link (image : Bool) (href : JsString) (title : Option JsString)
  | other

/-- What the shaper reads of a token; a list's `tokens` are its items. -/
inductive Token where
  | mk (type : TokenType) (raw text : JsString) (tokens : List Token)

namespace Token

def type : Token → TokenType
  | mk type _ _ _ => type

def raw : Token → JsString
  | mk _ raw _ _ => raw

def text : Token → JsString
  | mk _ _ text _ => text

def tokens : Token → List Token
  | mk _ _ _ tokens => tokens

end Token

/-! ## Replacing in a text -/

/-- `replace` with the flag `g`, with this many characters still to skip.
`matchAt` gives the replacement of the match at the front of a text, and the
match's length. -/
def replaceAll (matchAt : JsString → Option (JsString × ℕ)) :
    ℕ → JsString → JsString
  | _, [] => []
  | skip + 1, _ :: rest => replaceAll matchAt skip rest
  | 0, c :: rest =>
      match matchAt (c :: rest) with
      | some (text, length) => text ++ replaceAll matchAt (length - 1) rest
      | none => c :: replaceAll matchAt 0 rest

def indexOf (part : JsString) : JsString → Option ℕ
  | [] => if part = [] then some 0 else none
  | c :: rest =>
      if part.isPrefixOf (c :: rest) then some 0
      else (indexOf part rest).map (· + 1)

def htmlElements : List JsString :=
  cutOn [32] (utf16 ("a abbr address article aside b bdi bdo blockquote body " ++
    "br button caption center cite code col colgroup dd del details dfn div dl " ++
    "dt em figcaption figure font footer form h1 h2 h3 h4 h5 h6 head header hr " ++
    "html i iframe img input ins kbd label li main mark nav ol p picture pre q " ++
    "s samp script section select small source span strike strong style sub " ++
    "summary sup table tbody td textarea tfoot th thead tr tt u ul var video " ++
    "wbr").toList)

def isLetter (c : UInt16) : Bool := (65 ≤ c && c ≤ 90) || (97 ≤ c && c ≤ 122)

def toLower (c : UInt16) : UInt16 := if 65 ≤ c && c ≤ 90 then c + 32 else c

/-- `<!--[\s\S]*?-->` -/
def commentAt (text : JsString) : Option (JsString × ℕ) :=
  if (utf16 "<!--".toList).isPrefixOf text then
    (indexOf (utf16 "-->".toList) (text.drop 4)).map fun index => ([], index + 7)
  else none

/-- The length of `\/?>` at the front of a text. -/
def tagEnd : JsString → Option ℕ
  | 62 :: _ => some 1
  | 47 :: 62 :: _ => some 2
  | _ => none

/-- `<br\s*\/?>`, in either case -/
def breakAt : JsString → Option (JsString × ℕ)
  | 60 :: b :: r :: rest =>
      if toLower b = 98 && toLower r = 114 then
        (tagEnd (rest.dropWhile isSpace)).map fun length =>
          (newline, 3 + (rest.takeWhile isSpace).length + length)
      else none
  | _ => none

/-- `<\/?([a-zA-Z][a-zA-Z0-9-]*)(\s[^<>]*)?\/?>`, removed if it is an HTML
element's -/
def tagAt (text : JsString) : Option (JsString × ℕ) :=
  match text with
  | 60 :: rest =>
      let slash := if rest.head? = some 47 then 1 else 0
      let name := (rest.drop slash).takeWhile fun c =>
        isLetter c || (48 ≤ c && c ≤ 57) || c = 45
      let after := rest.drop (slash + name.length)
      let attributes :=
        if after.head?.any isSpace then
          after.takeWhile fun c => c ≠ 60 && c ≠ 62
        else []
      if name.head?.any isLetter then
        (tagEnd (after.drop attributes.length)).map fun last =>
          let length := 1 + slash + name.length + attributes.length + last
          (if htmlElements.contains (name.map toLower) then []
            else text.take length, length)
      else none
  | _ => none

def stripHtmlTags (html : JsString) : JsString :=
  replaceAll tagAt 0 (replaceAll breakAt 0 (replaceAll commentAt 0 html))

/-- `[*_#>~]` and a back tick. -/
def isMark (c : UInt16) : Bool :=
  c = 42 || c = 95 || c = 96 || c = 35 || c = 62 || c = 126

def spacesAt (text : JsString) : Option (JsString × ℕ) :=
  let spaces := text.takeWhile isSpace
  if spaces = [] then none else some ([32], spaces.length)

def plainText (text : JsString) : JsString := trim (replaceAll spacesAt 0
    ((stripHtmlTags text).filter fun c => !isMark c))

/-! ## A block's Markdown -/

/-- A link by reference, written inline: its definition is not delivered. -/
def referenceLinkInline (token : Token) : Option JsString :=
  match token.type with
  | .link image href title =>
      let mark : JsString := if image then [33] else []
      if token.raw.getLast? = some 41 ||
          !(mark ++ [91]).isPrefixOf token.raw then none
      else
        let title := (title.filter fun title => title ≠ []).map fun title =>
          [32, 34] ++
            title.flatMap (fun c => if c = 34 then [92, 34] else [c]) ++ [34]
        some (mark ++ [91] ++ token.text ++ [93, 40] ++ href ++
          title.getD [] ++ [41])
  | _ => none

structure Edit where
  start : ℕ
  stop : ℕ
  text : JsString

/-- The edits of a block so far, and how far it is read. -/
structure Edits where
  edits : List Edit
  cursor : ℕ

section ChatMarkdown

variable (raw : JsString)

/-- Read on behind a part, replacing it. -/
def locate (part : JsString) (replacement : Option JsString)
    (state : Edits) : Edits :=
  let found := if part = [] then none else indexOf part (raw.drop state.cursor)
  match found with
  | none => state
  | some skipped =>
      let start := state.cursor + skipped
      let stop := start + part.length
      ⟨state.edits ++ (replacement.map (⟨start, stop, ·⟩)).toList, stop⟩

def replacementOf (node : Token) : Option JsString :=
  match node.type with
  | .html => some (stripHtmlTags node.raw)
  | _ => referenceLinkInline node

mutual

def visit (state : Edits) : Token → Edits
  | .mk type part text children =>
      let node := Token.mk type part text children
      let verbatim := match type with
        | .code _ | .codespan => true
        | _ => false
      if verbatim then locate raw part none state
      else if (replacementOf node).isSome then
        locate raw part (replacementOf node) state
      else if children.isEmpty then locate raw part none state
      else visitAll state children

def visitAll (state : Edits) : List Token → Edits
  | [] => state
  | node :: rest => visitAll (visit state node) rest

end

/-- The text from this index on with its edits made. -/
def editedFrom (start : ℕ) : List Edit → JsString
  | [] => raw.drop start
  | edit :: rest =>
      (raw.drop start).take (edit.start - start) ++ edit.text ++
        editedFrom edit.stop rest

end ChatMarkdown

/-- A block's Markdown for chat: code stays as it is. -/
def chatMarkdown (token : Token) : JsString :=
  editedFrom token.raw 0 (visitAll token.raw ⟨[], 0⟩ token.tokens).edits

def bold (text : JsString) : JsString := [42, 42] ++ text ++ [42, 42]

/-- A table's row in chat. -/
def rowLine (first : JsString) (rest : List JsString) : JsString :=
  let parts := ((if first = [] then [] else [bold first]) ++ rest).filter
    fun part => part ≠ []
  if parts = [] then []
  else [45, 32] ++ List.intercalate [32, 0xB7, 32] parts

/-- A line for each row; a table with no rows is its header. -/
def tableLines (header : List JsString) (rows : List (List JsString)) :
    List JsString :=
  let headers := header.map trim
  let lines :=
    if rows = [] then [rowLine (headers.headD []) headers.tail]
    else rows.map fun row =>
      rowLine (trim (row.headD [])) (row.tail.mapIdx fun index cell =>
          let header := headers.getD (index + 1) []
          if header ≠ [] ∧ trim cell ≠ [] then
            header ++ [58, 32] ++ trim cell
          else trim cell)
  lines.filter fun line => line ≠ []

def tableAsList (header : List JsString) (rows : List (List JsString)) :
    JsString :=
  List.intercalate newline (tableLines header rows)

/-! ## Blocks -/

inductive BlockKind where
  | heading
  | paragraph
  | list
  | code
  | table
  | quote
deriving DecidableEq, Repr

structure Block where
  kind : BlockKind
  md : JsString
  token : Token

structure ChatLimits where
  bubbleTarget : JsReal
  bubbleMax : JsReal
  minBubble : JsReal
  maxBubbles : JsReal
  maxPartsPerRun : JsReal
  spillChars : JsReal
  maxListItems : JsReal
  maxCodeLines : JsReal
  previewItems : JsReal
  tables : Bool

/-- Limits as a delivery profile resolves them: the hard size is at least one
character, and the soft target never exceeds it. -/
structure ResolvedLimits extends ChatLimits where
  one_le : bubbleMax.atLeastOne = true
  target_le : bubbleTarget.le bubbleMax = true

def unlessBlank (kind : BlockKind) (token : Token) (md : JsString) :
    Option Block :=
  if isBlank md then none else some ⟨kind, md, token⟩

def blockOf (limits : ChatLimits) (token : Token) : Option Block :=
  match token.type with
  | .space | .hr | .definition => none
  | .heading =>
      let text := plainText token.text
      if text = [] then none else some ⟨.heading, bold text, token⟩
  | .list _ _ => some ⟨.list, trim (chatMarkdown token), token⟩
  | .code _ => some ⟨.code, trim token.raw, token⟩
  | .table header rows =>
      unlessBlank .table token
        (if limits.tables then trim token.raw else tableAsList header rows)
  | .blockquote => some ⟨.quote, trim (chatMarkdown token), token⟩
  | .html => unlessBlank .paragraph token (trim (stripHtmlTags token.text))
  | .codespan | .link _ _ _ | .other =>
      unlessBlank .paragraph token (trim (chatMarkdown token))

/-- The lexer is a parameter. -/
def toBlocks (lexer : JsString → List Token) (limits : ChatLimits)
    (markdown : JsString) : List Block :=
  (lexer markdown).filterMap (blockOf limits)

end Shaper
end QiForge
