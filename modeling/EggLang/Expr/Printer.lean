import EggLang.Expr.Basic

/-!
# Canonical source

The source text of a tree without blanks and comments, numbers as they were written. Reading it
gives the same tree up to places.
-/

namespace EggLang.Expr

mutual

def print : Expr → Bytes
  | number _ digits => digits
  | string _ content => utf8 "\"" ++ content ++ utf8 "\""
  | word _ name => name
  | apply _ operator args => operator ++ utf8 "(" ++ printArgs args ++ utf8 ")"
  | closure operator args => print operator ++ utf8 "(" ++ printArgs args ++ utf8 ")"

/-- The canonical source of an argument list, without its parentheses. -/
def printArgs : List Expr → Bytes
  | [] => []
  | [arg] => print arg
  | arg :: rest => print arg ++ utf8 "," ++ printArgs rest

end

end EggLang.Expr
