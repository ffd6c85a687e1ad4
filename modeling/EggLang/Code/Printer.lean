import EggLang.Code.Basic
import EggLang.Text.Quoted

/-!
# Writing generated code

The text of a node is laid out at a depth: its first line carries no indentation, and every
further line starts with the indentation unit repeated for its depth. Statements of a sequence
stand on lines of their own, with nested sequences flattened; no semicolons are written.
-/

namespace EggLang.Code

/-- What a generated function throws when it is called with the wrong number of arguments. -/
def arityMessage : String := "Wrong number of arguments"

/-- Whether the node is a function literal, which is put in parentheses as an operand. -/
def isFunction : Code → Bool
  | function .. => true
  | _ => Bool.false

/-- Whether there is no code at all. -/
def isAbsent : Code → Bool
  | absent => true
  | _ => Bool.false

def pad (indent : Bytes) (depth : Nat) : Bytes := Bytes.repeated indent depth

/-- Lines as the contents of a braced block, each indented for the depth and ended. -/
def braced (indent : Bytes) (depth : Nat) (lines : List Bytes) : Bytes :=
  lines.flatMap fun line => pad indent depth ++ line ++ utf8 "\n"

/-- The check of the number of arguments that opens a function body. -/
def arityCheck (indent : Bytes) (depth count : Nat) : Bytes :=
  pad indent depth ++ utf8 "if (arguments.length != " ++ Bytes.ofNat count ++ utf8 ") \x7b\n"
    ++ pad indent (depth + 1) ++ utf8 "throw new TypeError("
    ++ Text.Quoted.encode (utf8 arityMessage) ++ utf8 ")\n"
    ++ pad indent depth ++ utf8 "\x7d\n"

def joined (indent : Bytes) (depth : Nat) (lines : List Bytes) : Bytes :=
  Bytes.join (utf8 "\n" ++ pad indent depth) lines

/-- The text of a node as an operand: a function literal in parentheses, all else as it is. An
operator chain gets none, so nested operations join as plain text. -/
def asOperand (c : Code) (text : Bytes) : Bytes :=
  if c.isFunction then utf8 "(" ++ text ++ utf8 ")" else text

mutual

/-- The statements of a node at a depth as separate texts, nested sequences flattened. A node
that is no sequence is one text. -/
def lines (indent : Bytes) (depth : Nat) : Code → List Bytes
  | absent => [utf8 "undefined"]
  | raw text => [text]
  | operation operator operands =>
    [Bytes.join (utf8 " " ++ operator ++ utf8 " ") (operandTexts indent depth operands)]
  | call callee args =>
    [asOperand callee (joined indent depth (lines indent depth callee)) ++ utf8 "("
      ++ Bytes.join (utf8 ", ") (texts indent depth args) ++ utf8 ")"]
  | function params body =>
    [utf8 "function(" ++ Bytes.join (utf8 ", ") params ++ utf8 ") \x7b\n"
      ++ arityCheck indent (depth + 1) params.length
      ++ braced indent (depth + 1) (lines indent (depth + 1) body)
      ++ pad indent depth ++ utf8 "\x7d"]
  | array elements =>
    [utf8 "[" ++ Bytes.join (utf8 ", ") (texts indent depth elements) ++ utf8 "]"]
  | member object property =>
    [asOperand object (joined indent depth (lines indent depth object)) ++ utf8 "." ++ property]
  | index object i =>
    [asOperand object (joined indent depth (lines indent depth object)) ++ utf8 "["
      ++ joined indent depth (lines indent depth i) ++ utf8 "]"]
  | effect x => [joined indent depth (lines indent depth x)]
  | .return value =>
    if value.isAbsent then [utf8 "return"]
    else [utf8 "return " ++ joined indent depth (lines indent depth value)]
  | .if cond yes no =>
    [utf8 "if (" ++ joined indent depth (lines indent depth cond) ++ utf8 " !== false) \x7b\n"
      ++ braced indent (depth + 1) (lines indent (depth + 1) yes)
      ++ pad indent depth ++ utf8 "\x7d else \x7b\n"
      ++ braced indent (depth + 1) (lines indent (depth + 1) no)
      ++ pad indent depth ++ utf8 "\x7d"]
  | .while cond body =>
    [utf8 "while (" ++ joined indent depth (lines indent depth cond) ++ utf8 " !== false) \x7b\n"
      ++ braced indent (depth + 1) (lines indent (depth + 1) body)
      ++ pad indent depth ++ utf8 "\x7d"]
  | var name value =>
    [utf8 "var " ++ name ++ utf8 " = " ++ joined indent depth (lines indent depth value)]
  | assign name value => [name ++ utf8 " = " ++ joined indent depth (lines indent depth value)]
  | block statements => linesAll indent depth statements

/-- The statements of a list of nodes as separate texts. -/
def linesAll (indent : Bytes) (depth : Nat) : List Code → List Bytes
  | [] => []
  | c :: rest => lines indent depth c ++ linesAll indent depth rest

def texts (indent : Bytes) (depth : Nat) : List Code → List Bytes
  | [] => []
  | c :: rest => joined indent depth (lines indent depth c) :: texts indent depth rest

def operandTexts (indent : Bytes) (depth : Nat) : List Code → List Bytes
  | [] => []
  | c :: rest =>
    asOperand c (joined indent depth (lines indent depth c)) :: operandTexts indent depth rest

end

def render (indent : Bytes) (depth : Nat) (c : Code) : Bytes :=
  joined indent depth (lines indent depth c)

/-- The text of a program with the given indentation unit. -/
def print (indent : Bytes) (c : Code) : Bytes := render indent 0 c

end EggLang.Code
