import QiForge.ShaperBlocks

/-!
# The shaper

One model step's blocks become chat messages.  A block too long for a message
is split at its largest boundary, a heading or a lead-in rides on what follows
it, short messages merge forward, and what is left is grouped toward a number
of messages.  A step that is long as a document spills instead, and its lead
and closing text stay in chat.
-/

namespace QiForge
namespace Shaper

open Pieces

def ticks : JsString := [96, 96, 96]

def fenceOf (lang : Option JsString) : JsString := ticks ++ lang.getD []

def fenced (fence piece : JsString) : JsString :=
  fence ++ newline ++ piece ++ newline ++ ticks

def joinBlocks (a b : JsString) : JsString :=
  if a = [] then b else a ++ blankLine ++ b

/-- A paragraph that ends in a colon, white space behind it aside. -/
def endsWithColon (md : JsString) : Bool :=
  (md.rdropWhile isSpace).getLast? = some 58

/-- One message being packed. -/
structure Unit where
  text : JsString
  code : Bool
  opens : Bool

section Pack

variable (segmenters : Segmenters)

/-- A code block too long for one message is fenced again piece by piece. -/
def splitBlock (block : Block) (max : JsReal) : List JsString :=
  if max.fits block.md.length then [block.md]
  else
    match block.token.type with
    | .code lang =>
        let fence := fenceOf lang
        let room := max.minus (fence.length + 5)
        if room.atLeastOne then
          (splitText segmenters block.token.text room).map (fenced fence)
        else splitText segmenters block.md max
    | _ => splitText segmenters block.md max

/-- Two units in one message. -/
def Unit.join (unit next : Unit) : Unit :=
  ⟨joinBlocks unit.text next.text, unit.code || next.code, unit.opens⟩

def fillFrom (max : JsReal) (last : Unit) : List Unit → List Unit
  | [] => [last]
  | unit :: rest =>
      if !last.code && !unit.code && !unit.opens &&
          max.fits (last.text.length + 2 + unit.text.length) then
        fillFrom max (last.join unit) rest
      else last :: fillFrom max unit rest

def fill (max : JsReal) : List Unit → List Unit
  | [] => []
  | unit :: rest => fillFrom max unit rest

def preferFewer (limits : ChatLimits) (units : List Unit) : List Unit :=
  if limits.maxBubbles.fits units.length then units
  else if limits.maxBubbles.fits (fill limits.bubbleTarget units).length then
    fill limits.bubbleTarget units
  else fill limits.bubbleMax units

def isLeadIn (block : Block) : Option Block → Bool
  | none => false
  | some next =>
      block.kind = .paragraph && endsWithColon block.md &&
        (next.kind = .list || next.kind = .code || next.kind = .table)

/-- The carry as messages of its own. -/
def flush (limits : ChatLimits) (carry : JsString) (opens : Bool) :
    List Unit :=
  (splitText segmenters carry limits.bubbleMax).filter
      (fun piece => !isBlank piece)
    |>.map fun piece => ⟨piece, false, opens⟩

/-- The pieces of a block, the carry on the first. -/
def ride (carry : JsString) (code : Bool) (pieces : List JsString) :
    List Unit :=
  ⟨joinBlocks carry (pieces.headD []), code, false⟩ ::
    pieces.tail.map fun piece => ⟨piece, code, false⟩

/-- The units of a block that is not carried on to the next. -/
def blockUnits (limits : ChatLimits) (carry : JsString) (block : Block) :
    List Unit :=
  let code : Bool := block.kind = .code
  let room := limits.bubbleMax.minus (carry.length + 2)
  if carry = [] ∨ limits.bubbleMax.fits (joinBlocks carry block.md).length then
    ride carry code (splitBlock segmenters block limits.bubbleMax)
  else if room.atLeastHalf limits.bubbleMax then
    ride carry code (splitBlock segmenters block room)
  else
    flush segmenters limits carry true ++
      ride [] code (splitBlock segmenters block limits.bubbleMax)

def unitsFrom (limits : ChatLimits) (carry : JsString) : List Block → List Unit
  | [] => if carry = [] then [] else flush segmenters limits carry false
  | block :: rest =>
      if block.kind = .heading ∨ isLeadIn block rest.head? then
        unitsFrom limits (joinBlocks carry block.md) rest
      else blockUnits segmenters limits carry block ++ unitsFrom limits [] rest

/-- Fragments merge forward when the result fits. -/
def mergeFrom (limits : ChatLimits) (unit : Unit) : List Unit → List Unit
  | [] => [unit]
  | next :: rest =>
      if limits.minBubble.below unit.text.length &&
          limits.bubbleMax.fits (joinBlocks unit.text next.text).length then
        mergeFrom limits (unit.join next) rest
      else unit :: mergeFrom limits next rest

def mergeForward (limits : ChatLimits) : List Unit → List Unit
  | [] => []
  | unit :: rest => mergeFrom limits unit rest

def pack (limits : ChatLimits) (blocks : List Block) : List JsString :=
  (preferFewer limits
      (mergeForward limits (unitsFrom segmenters limits [] blocks))).map
    (·.text)

end Pack

/-! ## A spill -/

structure SpillShape where
  title : JsString
  markdown : JsString
  lead : JsString
  closing : Option JsString

section Spill

variable (segmenters : Segmenters) (limits : ChatLimits)

def titleMax : ℕ := 60

/-- A text cut short with an ellipsis, at a word when one is near. -/
def cutWithEllipsis (text : JsString) (max : JsReal) : JsString :=
  let cut := graphemePrefix segmenters text (max.minus 1)
  let space := (cut.findIdxs (· = 32)).getLast?
  let kept :=
    match space.filter fun space => (max.div 2).exceeds space with
    | some space => cut.take space
    | none => cut
  kept.rdropWhile isSpace ++ [0x2026]

def trimToSentence (text : JsString) (max : JsReal) : JsString :=
  if max.fits text.length then text
  else
    let out := trim (prefixFrom max [] (segmenters.sentence.segment text))
    if out = [] then cutWithEllipsis segmenters text max else out

/-- The last sentences, from the last one on, while they fit. -/
def suffixFrom (max : JsReal) (out : JsString) : List JsString → JsString
  | [] => out
  | sentence :: rest =>
      if max.exceeds (trim (sentence ++ out)).length then out
      else suffixFrom max (sentence ++ out) rest

def lastSentences (text : JsString) (max : JsReal) : JsString :=
  trim (suffixFrom max [] (segmenters.sentence.segment text).reverse)

def titleOf (text : JsString) : JsString :=
  let whole := plainText ((segmenters.sentence.segment text).headD text)
  let plain :=
    if whole.getLast? = some 58 ∨ whole.getLast? = some 46 then whole.dropLast
    else whole
  if plain.length ≤ titleMax then plain
  else cutWithEllipsis segmenters plain titleMax

def firstLine (text : JsString) : JsString :=
  trim (text.takeWhile fun c => c ≠ 10)

/-- A list's or a table's items as chat lines. -/
def itemLines (block : Block) : List JsString :=
  match block.token.type with
  | .table header rows => tableLines header rows
  | .list ordered start =>
      block.token.tokens.mapIdx fun index item =>
        (if ordered then
            utf16 (toString (start.getD 1 + index)).toList ++ [46]
          else [45]) ++ [32] ++ firstLine item.text
  | _ => []

/-- What says how many items are not shown. -/
def trailer (more : ℕ) : JsString :=
  if 0 < more then
    newline ++ utf16 ("…and " ++ toString more ++ " more").toList
  else []

def previewText (head : JsString) (lines : List JsString) (total : ℕ) :
    JsString :=
  joinBlocks head
    (List.intercalate newline lines ++ trailer (total - lines.length))

/-- How many items a preview starts with. -/
def previewCount (lines : ℕ) : JsReal → ℕ
  | .nan | .negInf => 0
  | .fin value => min ⌊value⌋.toNat lines
  | .posInf => lines

/-- The first preview that fits, with fewer items each time. -/
def previewFrom (head : JsString) (lines : List JsString) : ℕ → Option JsString
  | 0 => none
  | count + 1 =>
      let text := previewText head (lines.take (count + 1)) lines.length
      if limits.bubbleMax.fits text.length then some text
      else previewFrom head lines count

/-- The first item alone, cut with its lead-in to what there is room for. -/
def cutPreview (head line : JsString) (total : ℕ) : JsString :=
  let max := limits.bubbleMax
  let more := (trailer (total - 1)).length
  let headMax :=
    ((max.minus 2).sub ((max.div 3).minFloor line.length)).minus more
  let fittedHead :=
    if head = [] ∨ headMax.fits head.length then head
    else trimToSentence segmenters head headMax
  let lineMax :=
    (max.minus (if fittedHead = [] then 0 else fittedHead.length + 2)).minus
      more
  let fittedLine :=
    if lineMax.fits line.length then line
    else cutWithEllipsis segmenters line lineMax
  previewText fittedHead [fittedLine] total

/-- A list or a table previewed, after an optional lead-in. -/
def fittedPreview (head : JsString) (block : Block) : JsString :=
  match itemLines block with
  | [] => trimToSentence segmenters head limits.bubbleMax
  | line :: rest =>
      let lines := line :: rest
      (previewFrom limits head lines
          (previewCount lines.length limits.previewItems)).getD
        (cutPreview segmenters limits head line lines.length)

def isItems (block : Block) : Bool := block.kind = .list || block.kind = .table

/-- The lead of the blocks behind the leading code, and how many of them it
uses. -/
def leadOf (afterCode : Bool) : List Block → JsString × ℕ
  | [] => ([], 0)
  | first :: more =>
      if afterCode && more.isEmpty && first.kind = .paragraph then ([], 0)
      else if isItems first then
        (fittedPreview segmenters limits [] first, 1)
      else
        match more.head?.filter fun second =>
            first.kind = .paragraph && endsWithColon first.md &&
              isItems second with
        | some second =>
            (fittedPreview segmenters limits first.md second, 2)
        | none =>
            if first.kind = .paragraph ∨ first.kind = .quote then
              (trimToSentence segmenters first.md limits.bubbleMax, 1)
            else ([], 0)

/-- The closing text: the last block the lead left, with the one before. -/
def closingOf (left : List Block) : Option JsString :=
  left.getLast?.bind fun last =>
    let before := left.dropLast.getLast?.filter (·.kind = .paragraph)
    if isItems last then
      let leadIn := before.filter fun before => endsWithColon before.md
      some (fittedPreview segmenters limits ((leadIn.map (·.md)).getD []) last)
    else if last.kind = .paragraph then
      let pair := ((before.map fun before => joinBlocks before.md last.md).filter
        fun pair => pair ≠ []).filter fun pair =>
          limits.bubbleMax.fits pair.length
      some (pair.getD (if limits.bubbleMax.fits last.md.length then last.md
          else lastSentences segmenters last.md limits.bubbleMax))
    else none

/-- What a spill keeps in chat. -/
def spillOf (markdown : JsString) (blocks : List Block) : SpillShape :=
  let content := blocks.filter (·.kind ≠ .heading)
  let behind := content.dropWhile (·.kind = .code)
  let lead := leadOf segmenters limits (behind.length < content.length) behind
  let titleSource := (blocks.find? (·.kind = .heading)).or
    (content.head?.filter (·.kind = .paragraph))
  let title := (titleSource.map fun block => titleOf segmenters block.md).filter
    fun title => title ≠ []
  { title := title.getD (utf16 "Details".toList)
    markdown := markdown
    lead := lead.1
    closing := (closingOf segmenters limits (behind.drop lead.2)).filter
      fun closing => closing ≠ lead.1 && !isBlank closing }

end Spill

/-! ## One step -/

inductive StepShape where
  | messages (messages : List JsString)
  | spill (spill : SpillShape)

/-- A block too long to read in chat. -/
def tooLongForChat (limits : ChatLimits) (block : Block) : Bool :=
  match block.token.type with
  | .code _ =>
      limits.maxCodeLines.exceeds (cutOn newline block.token.text).length
  | .list _ _ => limits.maxListItems.exceeds block.token.tokens.length
  | .table _ rows => limits.maxListItems.exceeds rows.length
  | _ => false

def renderedLength (blocks : List Block) : ℕ :=
  (List.intercalate blankLine (blocks.map (·.md))).length

def shapeStep (segmenters : Segmenters) (lexer : JsString → List Token)
    (limits : ChatLimits) (canSpill : Bool) (markdown : JsString) :
    StepShape :=
  let blocks := toBlocks lexer limits (trim markdown)
  if canSpill && (limits.spillChars.exceeds (renderedLength blocks) ||
      blocks.any (tooLongForChat limits)) then
    .spill (spillOf segmenters limits (trim markdown) blocks)
  else .messages (pack segmenters limits blocks)

end Shaper
end QiForge
