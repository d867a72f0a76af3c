/-
# Tether.Lib.Quoted — names between quotes, and the lexer that reads them

A name is written between two quotes, each quote inside it doubled (`enquote`); any
symbol outside quotes is a mark and stands for itself.  The lexer meets a quote inside a
name without knowing whether the name ends there: it is the next symbol that tells
(`Mode.closing`).

Two names side by side would be read as one, and a quote as a mark would open a name.
Apart from that every list of pieces can be written and read back (`lex_text`).
-/
import Mathlib.Data.List.Basic

namespace Tether.Lib.Quoted

set_option autoImplicit false

variable {α : Type}

/-! ## Pieces -/

inductive Piece (α : Type) where
  | name (content : List α)
  | mark (symbol : α)
  deriving DecidableEq

variable (quote : α)

/-- The pieces that can be told apart in their text. -/
inductive Legible : List (Piece α) → Prop
  | nil : Legible []
  | mark {c : α} {pieces : List (Piece α)} (unquoted : c ≠ quote) (rest : Legible pieces) :
      Legible (.mark c :: pieces)
  | last (content : List α) : Legible [.name content]
  | name (content : List α) {c : α} {pieces : List (Piece α)} (unquoted : c ≠ quote)
      (rest : Legible pieces) : Legible (.name content :: .mark c :: pieces)

variable {quote} in
theorem Legible.marks {word : List α} (unquoted : ∀ c ∈ word, c ≠ quote)
    {pieces : List (Piece α)} (rest : Legible quote pieces) :
    Legible quote (word.map .mark ++ pieces) := by
  induction word with
  | nil => exact rest
  | cons c word ih =>
      obtain ⟨first, later⟩ := List.forall_mem_cons.1 unquoted
      exact .mark first (ih later)

/-! ## Writing and reading -/

/-- Where the lexer stands.  In `closing` it has just met a quote inside a name. -/
inductive Mode (α : Type) where
  | outside
  | inside (read : List α)
  | closing (read : List α)

variable [DecidableEq α]

def double (content : List α) : List α :=
  content.flatMap fun c => if c = quote then [quote, quote] else [c]

def enquote (content : List α) : List α := quote :: double quote content ++ [quote]

def Piece.text : Piece α → List α
  | .name content => enquote quote content
  | .mark symbol => [symbol]

def text (pieces : List (Piece α)) : List α := pieces.flatMap (Piece.text quote)

/-- A name that is not closed is an error. -/
def lexFrom : Mode α → List α → Option (List (Piece α))
  | .outside, [] => some []
  | .inside _, [] => none
  | .closing read, [] => some [.name read]
  | .outside, c :: rest =>
      if c = quote then lexFrom (.inside []) rest
      else (lexFrom .outside rest).map fun pieces => .mark c :: pieces
  | .inside read, c :: rest =>
      if c = quote then lexFrom (.closing read) rest else lexFrom (.inside (read ++ [c])) rest
  | .closing read, c :: rest =>
      -- a second quote belongs to the name
      if c = quote then lexFrom (.inside (read ++ [c])) rest
      else (lexFrom .outside rest).map fun pieces => .name read :: .mark c :: pieces

def lex (s : List α) : Option (List (Piece α)) := lexFrom quote .outside s

variable {quote}

theorem text_cons (piece : Piece α) (pieces : List (Piece α)) :
    text quote (piece :: pieces) = piece.text quote ++ text quote pieces := List.flatMap_cons

theorem text_append (pieces pieces' : List (Piece α)) :
    text quote (pieces ++ pieces') = text quote pieces ++ text quote pieces' :=
  List.flatMap_append

theorem text_marks (word : List α) : text quote (word.map .mark) = word := by
  induction word with
  | nil => rfl
  | cons c word ih => rw [List.map_cons, text_cons, ih]; rfl

/-- Inside a name the lexer comes back to where it was after each doubled quote. -/
theorem lexFrom_content (read content rest : List α) :
    lexFrom quote (.inside read) (double quote content ++ rest) =
      lexFrom quote (.inside (read ++ content)) rest := by
  induction content generalizing read with
  | nil => rw [List.append_nil]; rfl
  | cons c content ih =>
      have next := ih (read ++ [c])
      rw [List.append_assoc, List.singleton_append] at next
      rw [double, List.flatMap_cons, List.append_assoc, ← double, ← next]
      by_cases doubled : c = quote
      · subst doubled
        simp [lexFrom]
      · simp [lexFrom, doubled]

/-- From the opening quote to the one that may be the closing one. -/
theorem lexFrom_enquote (content rest : List α) :
    lexFrom quote .outside (enquote quote content ++ rest) =
      lexFrom quote (.closing content) rest := by
  have opening : lexFrom quote .outside (enquote quote content ++ rest) =
      lexFrom quote (.inside []) (double quote content ++ quote :: rest) := by
    simp [enquote, lexFrom]
  rw [opening, lexFrom_content]
  simp [lexFrom]

/-- **Reading back.**  Legible pieces are what the lexer makes of their text. -/
theorem lex_text {pieces : List (Piece α)} (legible : Legible quote pieces) :
    lex quote (text quote pieces) = some pieces := by
  rw [lex]
  induction legible with
  | nil => rfl
  | mark unquoted _ ih =>
      rw [text_cons]
      show lexFrom quote .outside (_ :: text quote _) = _
      rw [lexFrom, if_neg unquoted, ih]
      rfl
  | last content =>
      rw [text_cons]
      show lexFrom quote .outside (enquote quote content ++ []) = _
      rw [lexFrom_enquote]
      rfl
  | name content unquoted _ ih =>
      rw [text_cons, text_cons]
      show lexFrom quote .outside (enquote quote content ++ _ :: text quote _) = _
      rw [lexFrom_enquote, lexFrom, if_neg unquoted, ih]
      rfl

end Tether.Lib.Quoted
