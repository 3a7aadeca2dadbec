import Workflow.Path
import Workflow.Json.Basic

/-! Templates: texts with references of the form `$` and an expression in braces, where the expression is an identifier
followed by `.field` and `[digits]` parts. Everything else, such as shell variables, is literal text. A text is cut into
literals and references; nothing is lost by it. -/

namespace Workflow

/-- A reference inside a template: the expression between the braces, its first name and the path below it. -/
structure Reference where
  expr : String
  base : String
  path : Path
  deriving DecidableEq, Repr

namespace Reference

def ofExpr (expr : String) : Reference :=
  let (base, path) := Path.parse expr
  ⟨expr, base, path⟩

/-- The reference as it is written in a template. -/
def placeholder (r : Reference) : String := "$\x7b" ++ r.expr ++ "\x7d"

end Reference

inductive Token where
  | literal (chars : List Char)
  | reference (r : Reference)
  deriving DecidableEq, Repr

namespace Template

def isLetter (c : Char) : Bool := ('A' ≤ c && c ≤ 'Z') || ('a' ≤ c && c ≤ 'z')

def isNameStart (c : Char) : Bool := isLetter c || c = '_'

def isNameChar (c : Char) : Bool := isNameStart c || c.isDigit || c = '-'

/-- The longest run of field and index parts, with what follows it. -/
def scanParts : List Char → List Char × List Char
  | '.' :: rest =>
    if (rest.takeWhile isNameChar).isEmpty then ([], '.' :: rest)
    else
      let (parts, after) := scanParts (rest.dropWhile isNameChar)
      ('.' :: rest.takeWhile isNameChar ++ parts, after)
  | '[' :: rest =>
    if (rest.takeWhile Char.isDigit).isEmpty ∨ (rest.dropWhile Char.isDigit).head? ≠ some ']' then ([], '[' :: rest)
    else
      let (parts, after) := scanParts ((rest.dropWhile Char.isDigit).drop 1)
      ('[' :: rest.takeWhile Char.isDigit ++ ']' :: parts, after)
  | cs => ([], cs)
termination_by cs => cs.length
decreasing_by
  · exact Nat.lt_succ_of_le (List.dropWhile_sublist _).length_le
  · exact Nat.lt_succ_of_le ((List.drop_sublist 1 _).trans (List.dropWhile_sublist _)).length_le

/-- An expression and its closing brace, with what follows. -/
def scanExpr : List Char → Option (List Char × List Char)
  | c :: rest =>
    if isNameStart c then
      let (parts, after) := scanParts (rest.dropWhile isNameChar)
      match after with
      | '\x7d' :: after => some (c :: rest.takeWhile isNameChar ++ parts, after)
      | _ => none
    else none
  | [] => none

theorem scanParts_append (cs : List Char) : (scanParts cs).1 ++ (scanParts cs).2 = cs := by
  fun_induction scanParts cs with
  | case1 rest h => simp
  | case2 rest h parts after hs ih =>
    simp only [hs] at ih
    simp [List.append_assoc, ih]
  | case3 rest h => simp
  | case4 rest h parts after hs ih =>
    simp only [hs] at ih
    simp only [List.cons_append, List.append_assoc, ih]
    congr 1
    have hd : rest.dropWhile Char.isDigit = ']' :: (rest.dropWhile Char.isDigit).drop 1 := by
      cases hc : rest.dropWhile Char.isDigit with
      | nil => simp [hc] at h
      | cons d t =>
        simp only [hc, List.head?_cons, ne_eq, Option.some.injEq, not_or, Decidable.not_not] at h
        simp [h.2]
    rw [← hd, List.takeWhile_append_dropWhile]
  | case5 => simp

theorem scanExpr_append {cs expr after : List Char} (h : scanExpr cs = some (expr, after)) :
    cs = expr ++ '\x7d' :: after := by
  cases cs with
  | nil => simp [scanExpr] at h
  | cons c rest =>
    simp only [scanExpr] at h
    split at h
    · rename_i hc
      split at h
      · rename_i after' heq
        simp only [Option.some.injEq, Prod.mk.injEq] at h
        obtain ⟨rfl, rfl⟩ := h
        have := scanParts_append (rest.dropWhile isNameChar)
        rw [heq] at this
        simp only [List.cons_append, List.append_assoc]
        rw [this, List.takeWhile_append_dropWhile]
      · simp at h
    · simp at h

theorem scanExpr_length {cs expr after : List Char} (h : scanExpr cs = some (expr, after)) :
    after.length < cs.length := by
  rw [scanExpr_append h]
  simp
  omega

/-- Puts a character in front of the tokens, into the literal they begin with or into a new one. -/
def consLiteral (c : Char) : List Token → List Token
  | .literal cs :: rest => .literal (c :: cs) :: rest
  | tokens => .literal [c] :: tokens

def tokenizeChars : List Char → List Token
  | [] => []
  | '$' :: '\x7b' :: rest =>
    match h : scanExpr rest with
    | some (expr, after) =>
      have : after.length < rest.length := scanExpr_length h
      .reference (.ofExpr (String.ofList expr)) :: tokenizeChars after
    | none => consLiteral '$' (tokenizeChars ('\x7b' :: rest))
  | c :: rest => consLiteral c (tokenizeChars rest)
termination_by cs => cs.length
decreasing_by
  · simp only [List.length_cons]
    omega
  · simp
  · simp

def tokenize (text : String) : List Token := tokenizeChars text.toList

/-- Whether a reference occurs in the characters. -/
def occursInChars : List Char → Bool
  | '$' :: '\x7b' :: rest => (scanExpr rest).isSome || occursInChars ('\x7b' :: rest)
  | _ :: rest => occursInChars rest
  | [] => false

def hasTemplate (text : String) : Bool := occursInChars text.toList

/-- The only reference of a text that is nothing but one. -/
def simpleReference (text : String) : Option Reference :=
  match tokenize text with
  | [.reference r] => some r
  | _ => none

mutual

/-- Whether some text inside a value has a reference. -/
def valueHasTemplate : Json → Bool
  | .str text => hasTemplate text
  | .arr items => itemsHaveTemplate items
  | .obj fields => fieldsHaveTemplate fields
  | _ => false

def itemsHaveTemplate : List Json → Bool
  | [] => false
  | v :: rest => valueHasTemplate v || itemsHaveTemplate rest

def fieldsHaveTemplate : List (String × Json) → Bool
  | [] => false
  | (_, v) :: rest => valueHasTemplate v || fieldsHaveTemplate rest

end

def Token.reference? : Token → Option Reference
  | .reference r => some r
  | .literal _ => none

def textRefs (text : String) : List Reference := (tokenize text).filterMap Token.reference?

mutual

/-- Every reference inside a value with its repetitions, in order of appearance. -/
def allRefs : Json → List Reference
  | .str text => textRefs text
  | .arr items => itemRefs items
  | .obj fields => fieldRefs fields
  | _ => []

def itemRefs : List Json → List Reference
  | [] => []
  | v :: rest => allRefs v ++ itemRefs rest

def fieldRefs : List (String × Json) → List Reference
  | [] => []
  | (_, v) :: rest => allRefs v ++ fieldRefs rest

end

/-- The references inside a value, each once, in order of first appearance. -/
def extractRefs (v : Json) : List Reference := (allRefs v).eraseDups

/-- Byte offsets of the tokens of a text: where each begins and where it ends. -/
def offsets (start : Nat) : List Token → List (Nat × Nat)
  | [] => []
  | token :: rest =>
    let size :=
      match token with
      | .literal cs => (String.ofList cs).utf8ByteSize
      | .reference r => r.placeholder.utf8ByteSize
    (start, start + size) :: offsets (start + size) rest

end Template

end Workflow
