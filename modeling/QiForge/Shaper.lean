import Mathlib.Data.Rat.Floor
import QiForge.JsonText
import QiForge.Pieces

/-!
# Splitting a text

A text too long for a message is split at its largest boundary: paragraph,
line, sentence, word, and last between graphemes.
-/

namespace QiForge

/-- A JavaScript number, without the sign of zero. -/
inductive JsReal where
  | nan
  | negInf
  | fin (value : ℚ)
  | posInf
deriving DecidableEq

namespace JsReal

instance : Coe ℕ JsReal := ⟨fun n => fin n⟩

/-- A natural number is at most a bound. -/
def fits (n : ℕ) : JsReal → Bool
  | nan | negInf => false
  | fin value => (n : ℚ) ≤ value
  | posInf => true

/-- A natural number is below a bound. -/
def below (n : ℕ) : JsReal → Bool
  | nan | negInf => false
  | fin value => (n : ℚ) < value
  | posInf => true

/-- A natural number is above a bound. -/
def exceeds (n : ℕ) : JsReal → Bool
  | nan | posInf => false
  | negInf => true
  | fin value => value < n

def minus : JsReal → ℕ → JsReal
  | fin value, n => fin (value - n)
  | nan, _ => nan
  | negInf, _ => negInf
  | posInf, _ => posInf

/-- A difference, as floating point has it for the infinities. -/
def sub : JsReal → JsReal → JsReal
  | nan, _ | _, nan | posInf, posInf | negInf, negInf => nan
  | fin a, fin b => fin (a - b)
  | posInf, _ | _, negInf => posInf
  | negInf, _ | _, posInf => negInf

/-- `max / n`. -/
def div : JsReal → ℕ → JsReal
  | fin value, n => fin (value / n)
  | nan, _ => nan
  | negInf, _ => negInf
  | posInf, _ => posInf

/-- `Math.min(n, Math.floor(max))`. -/
def minFloor (n : ℕ) : JsReal → JsReal
  | fin value => if (n : ℤ) ≤ ⌊value⌋ then fin n else fin ⌊value⌋
  | posInf => fin n
  | nan => nan
  | negInf => negInf

/-- `a >= b / 2`. -/
def atLeastHalf : JsReal → JsReal → Bool
  | nan, _ | _, nan => false
  | fin a, fin b => b / 2 ≤ a
  | posInf, _ | _, negInf => true
  | negInf, _ | _, posInf => false

def atLeastOne : JsReal → Bool
  | nan | negInf => false
  | fin value => 1 ≤ value
  | posInf => true

/-- `a <= b`. -/
def le : JsReal → JsReal → Bool
  | nan, _ | _, nan => false
  | negInf, _ | _, posInf => true
  | fin a, fin b => a ≤ b
  | posInf, _ | _, negInf => false

end JsReal

namespace Shaper

open Pieces

/-! ## Characters -/

/-- The code units of `\s`. -/
def isSpace (c : UInt16) : Bool :=
  (9 ≤ c && c ≤ 13) || c = 0x20 || c = 0xA0 || c = 0x1680 ||
    (0x2000 ≤ c && c ≤ 0x200A) || c = 0x2028 || c = 0x2029 || c = 0x202F ||
    c = 0x205F || c = 0x3000 || c = 0xFEFF

/-- White space and zero-width marks. -/
def isInvisible (c : UInt16) : Bool :=
  isSpace c || (0x200B ≤ c && c ≤ 0x200D) || c = 0x2060 || c = 0xFEFF

def visible (text : JsString) : JsString := Pieces.visible isInvisible text

def isBlank (text : JsString) : Bool := visible text = []

def trim (text : JsString) : JsString := Pieces.trim isSpace text

def newline : JsString := [10]

def blankLine : JsString := [10, 10]

/-- `Intl.Segmenter`, by sentence and by grapheme. -/
structure Segmenters where
  sentence : Segmenter UInt16
  grapheme : Segmenter UInt16

/-! ## Splitting a text -/

section Split

variable (segmenters : Segmenters)

/-- The longest prefix of whole segments, behind what is taken already. -/
def prefixFrom (max : JsReal) (out : JsString) : List JsString → JsString
  | [] => out
  | segment :: rest =>
      if max.exceeds (out.length + segment.length) then out
      else prefixFrom max (out ++ segment) rest

def graphemePrefix (text : JsString) (max : JsReal) : JsString :=
  prefixFrom max [] (segmenters.grapheme.segment text)

def firstGrapheme (text : JsString) : JsString :=
  (segmenters.grapheme.segment text).headD []

def hardPiece (size : ℕ) (rest : JsString) : JsString :=
  if graphemePrefix segmenters rest size = [] then
    firstGrapheme segmenters rest
  else graphemePrefix segmenters rest size

theorem firstGrapheme_ne_nil {text : JsString} (htext : text ≠ []) :
    firstGrapheme segmenters text ≠ [] := by
  have hparts := segmenters.grapheme.parts text
  unfold firstGrapheme
  cases hsegment : segmenters.grapheme.segment text with
  | nil =>
      have hflatten := hparts.flatten
      rw [hsegment] at hflatten
      exact absurd hflatten.symm htext
  | cons first rest =>
      exact hparts.nonempty first (by rw [hsegment]; exact List.mem_cons_self)

theorem hardPiece_ne_nil (size : ℕ) {rest : JsString} (hrest : rest ≠ []) :
    hardPiece segmenters size rest ≠ [] := by
  unfold hardPiece
  split
  · exact firstGrapheme_ne_nil segmenters hrest
  · next hne => exact hne

def hardCut (size : ℕ) (rest : JsString) : List JsString :=
  if _hrest : rest = [] then []
  else
    hardPiece segmenters size rest ::
      hardCut size (rest.drop (hardPiece segmenters size rest).length)
termination_by rest.length
decreasing_by
  have hpiece := List.length_pos_of_ne_nil
    (hardPiece_ne_nil segmenters size _hrest)
  have hlength := List.length_pos_of_ne_nil _hrest
  rw [List.length_drop]
  omega

/-- The ways to cut a text, the largest first: what stands between the pieces,
and the pieces. -/
def boundaries (text : JsString) : List (JsString × List JsString) :=
  [(blankLine, cutOn blankLine text), (newline, cutOn newline text),
    ([], segmenters.sentence.segment text), ([], cutAfter isSpace text)]

def boundaryOf (text : JsString) : Option (JsString × List JsString) :=
  (boundaries segmenters text).find? fun boundary => 1 < boundary.2.length

theorem boundaryOf_shorter
    {text separator piece : JsString} {pieces : List JsString}
    (hboundary : boundaryOf segmenters text = some (separator, pieces))
    (hpiece : piece ∈ pieces) :
    piece.length < text.length := by
  have hmany : 1 < pieces.length := by
    simpa using List.find?_some hboundary
  have hmem := List.mem_of_find?_eq_some hboundary
  simp only [boundaries, List.mem_cons, Prod.mk.injEq, List.not_mem_nil,
    or_false] at hmem
  rcases hmem with ⟨-, rfl⟩ | ⟨-, rfl⟩ | ⟨-, rfl⟩ | ⟨-, rfl⟩
  · exact cutOn_shorter (List.cons_ne_nil _ _) hmany hpiece
  · exact cutOn_shorter (List.cons_ne_nil _ _) hmany hpiece
  · exact (segmenters.sentence.parts text).shorter hmany hpiece
  · exact (cutAfter_parts isSpace text).shorter hmany hpiece

/-- What `packPieces` makes of the pieces it has packed. -/
def trimmed (packing : Packing UInt16) : List JsString :=
  (packing.close.map trim).filter fun piece => !isBlank piece

/-- `splitText` for a size of at least one character. -/
def splitSized (size : ℕ) (text : JsString) : List JsString :=
  if text.length ≤ size then [text]
  else
    match _hboundary : boundaryOf segmenters text with
    | some (separator, pieces) =>
        trimmed (pieces.attach.foldl
            (fun packing piece => packing.step separator size piece.1
              (splitSized size piece.1))
            Packing.start)
    | none => hardCut segmenters size text
termination_by text.length
decreasing_by
  exact boundaryOf_shorter segmenters _hboundary piece.2

/-- A size below one character would never move through the text. -/
def sizeOfMax : JsReal → ℕ
  | .fin value => if 1 ≤ value then ⌊value⌋.toNat else 1
  | .nan | .negInf | .posInf => 1

def splitText (text : JsString) (max : JsReal) : List JsString :=
  splitSized segmenters (sizeOfMax max) text

end Split

end Shaper
end QiForge
