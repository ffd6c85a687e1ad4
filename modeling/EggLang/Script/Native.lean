import EggLang.Script.Numeric

/-!
# Functions that scripts find

The functions that are there before a script starts, by the object they belong to. Each table gives
the name of a function and the number of arguments it expects.
-/

namespace EggLang.Script

inductive ErrorKind where
  | error
  | typeError
  | rangeError
  | referenceError
  | syntaxError
  | evalError
  | uriError
  deriving DecidableEq, Repr, Inhabited

def ErrorKind.name : ErrorKind → String
  | error => "Error"
  | typeError => "TypeError"
  | rangeError => "RangeError"
  | referenceError => "ReferenceError"
  | syntaxError => "SyntaxError"
  | evalError => "EvalError"
  | uriError => "URIError"

def ErrorKind.all : List ErrorKind :=
  [error, typeError, rangeError, referenceError, syntaxError, evalError, uriError]

/-- The functions of the global object. -/
inductive GlobalFn where
  | parseInt
  | parseFloat
  | isNaN
  | isFinite
  | eval
  | encode
  | encodeComponent
  | decode
  | decodeComponent
  | escape
  | unescape
  deriving DecidableEq, Repr

def GlobalFn.table : List (GlobalFn × String × Nat) :=
  [(parseInt, "parseInt", 2), (parseFloat, "parseFloat", 1), (isNaN, "isNaN", 1),
    (isFinite, "isFinite", 1), (eval, "eval", 1), (encode, "encodeURI", 1),
    (encodeComponent, "encodeURIComponent", 1), (decode, "decodeURI", 1),
    (decodeComponent, "decodeURIComponent", 1), (escape, "escape", 1), (unescape, "unescape", 1)]

inductive ObjectFn where
  | assign
  | create
  | defineProperties
  | defineProperty
  | entries
  | freeze
  | fromEntries
  | getOwnPropertyDescriptor
  | getOwnPropertyDescriptors
  | getOwnPropertyNames
  | getOwnPropertySymbols
  | getPrototypeOf
  | is
  | isExtensible
  | isFrozen
  | isSealed
  | keys
  | preventExtensions
  | closeOff
  | setPrototypeOf
  | values
  deriving DecidableEq, Repr

def ObjectFn.table : List (ObjectFn × String × Nat) :=
  [(assign, "assign", 2), (create, "create", 2), (defineProperties, "defineProperties", 2),
    (defineProperty, "defineProperty", 3), (entries, "entries", 1), (freeze, "freeze", 1),
    (fromEntries, "fromEntries", 1), (getOwnPropertyDescriptor, "getOwnPropertyDescriptor", 2),
    (getOwnPropertyDescriptors, "getOwnPropertyDescriptors", 1),
    (getOwnPropertyNames, "getOwnPropertyNames", 1),
    (getOwnPropertySymbols, "getOwnPropertySymbols", 1), (getPrototypeOf, "getPrototypeOf", 1),
    (is, "is", 2), (isExtensible, "isExtensible", 1), (isFrozen, "isFrozen", 1),
    (isSealed, "isSealed", 1), (keys, "keys", 1), (preventExtensions, "preventExtensions", 1),
    (closeOff, "seal", 1), (setPrototypeOf, "setPrototypeOf", 2), (values, "values", 1)]

inductive ObjectMethod where
  | hasOwnProperty
  | isPrototypeOf
  | propertyIsEnumerable
  | toLocaleString
  | toString
  | valueOf
  | getPrototype
  | setPrototype
  deriving DecidableEq, Repr

/-- The methods of all objects by name, those of the prototype accessor apart. -/
def ObjectMethod.table : List (ObjectMethod × String × Nat) :=
  [(hasOwnProperty, "hasOwnProperty", 1), (isPrototypeOf, "isPrototypeOf", 1),
    (propertyIsEnumerable, "propertyIsEnumerable", 1), (toLocaleString, "toLocaleString", 0),
    (toString, "toString", 0), (valueOf, "valueOf", 0)]

inductive FunctionMethod where
  | apply
  | bind
  | call
  | toString
  | hasInstance
  deriving DecidableEq, Repr

def FunctionMethod.table : List (FunctionMethod × String × Nat) :=
  [(apply, "apply", 2), (bind, "bind", 1), (call, "call", 1), (toString, "toString", 0)]

inductive ArrayFn where
  | isArray
  | of
  | from
  deriving DecidableEq, Repr

def ArrayFn.table : List (ArrayFn × String × Nat) :=
  [(isArray, "isArray", 1), (of, "of", 0), («from», "from", 1)]

inductive ArrayMethod where
  | at
  | concat
  | copyWithin
  | entries
  | every
  | fill
  | filter
  | find
  | findIndex
  | findLast
  | findLastIndex
  | flat
  | flatMap
  | forEach
  | includes
  | indexOf
  | join
  | keys
  | lastIndexOf
  | map
  | pop
  | push
  | reduce
  | reduceRight
  | reverse
  | shift
  | slice
  | some
  | sort
  | splice
  | toLocaleString
  | toString
  | unshift
  | values
  deriving DecidableEq, Repr

def ArrayMethod.table : List (ArrayMethod × String × Nat) :=
  [(.at, "at", 1), (concat, "concat", 1), (copyWithin, "copyWithin", 2), (entries, "entries", 0),
    (every, "every", 1), (fill, "fill", 1), (filter, "filter", 1), (find, "find", 1),
    (findIndex, "findIndex", 1), (findLast, "findLast", 1), (findLastIndex, "findLastIndex", 1),
    (flat, "flat", 0), (flatMap, "flatMap", 1), (forEach, "forEach", 1), (includes, "includes", 1),
    (indexOf, "indexOf", 1), (join, "join", 1), (keys, "keys", 0), (lastIndexOf, "lastIndexOf", 1),
    (map, "map", 1), (pop, "pop", 0), (push, "push", 1), (reduce, "reduce", 1),
    (reduceRight, "reduceRight", 1), (reverse, "reverse", 0), (shift, "shift", 0),
    (slice, "slice", 2), (some, "some", 1), (sort, "sort", 1), (splice, "splice", 2),
    (toLocaleString, "toLocaleString", 0), (toString, "toString", 0), (unshift, "unshift", 1),
    (values, "values", 0)]

inductive StringFn where
  | fromCharCode
  | fromCodePoint
  | raw
  deriving DecidableEq, Repr

def StringFn.table : List (StringFn × String × Nat) :=
  [(fromCharCode, "fromCharCode", 1), (fromCodePoint, "fromCodePoint", 1), (raw, "raw", 1)]

inductive StringMethod where
  | at
  | charAt
  | charCodeAt
  | codePointAt
  | concat
  | endsWith
  | includes
  | indexOf
  | lastIndexOf
  | localeCompare
  | match
  | matchAll
  | normalize
  | padEnd
  | padStart
  | repeat
  | replace
  | replaceAll
  | search
  | slice
  | split
  | startsWith
  | substr
  | substring
  | toLocaleLowerCase
  | toLocaleUpperCase
  | toLowerCase
  | toString
  | toUpperCase
  | trim
  | trimEnd
  | trimStart
  | valueOf
  | iterator
  deriving DecidableEq, Repr

def StringMethod.table : List (StringMethod × String × Nat) :=
  [(.at, "at", 1), (charAt, "charAt", 1), (charCodeAt, "charCodeAt", 1),
    (codePointAt, "codePointAt", 1), (concat, "concat", 1), (endsWith, "endsWith", 1),
    (includes, "includes", 1), (indexOf, "indexOf", 1), (lastIndexOf, "lastIndexOf", 1),
    (localeCompare, "localeCompare", 1), (.match, "match", 1), (matchAll, "matchAll", 1),
    (normalize, "normalize", 0), (padEnd, "padEnd", 1), (padStart, "padStart", 1),
    («repeat», "repeat", 1), (replace, "replace", 2), (replaceAll, "replaceAll", 2),
    (search, "search", 1), (slice, "slice", 2), (split, "split", 2), (startsWith, "startsWith", 1),
    (substr, "substr", 2), (substring, "substring", 2),
    (toLocaleLowerCase, "toLocaleLowerCase", 0), (toLocaleUpperCase, "toLocaleUpperCase", 0),
    (toLowerCase, "toLowerCase", 0), (toString, "toString", 0), (toUpperCase, "toUpperCase", 0),
    (trim, "trim", 0), (trimEnd, "trimEnd", 0), (trimStart, "trimStart", 0),
    (valueOf, "valueOf", 0)]

inductive NumberFn where
  | isFinite
  | isInteger
  | isNaN
  | isSafeInteger
  deriving DecidableEq, Repr

def NumberFn.table : List (NumberFn × String × Nat) :=
  [(isFinite, "isFinite", 1), (isInteger, "isInteger", 1), (isNaN, "isNaN", 1),
    (isSafeInteger, "isSafeInteger", 1)]

inductive NumberMethod where
  | toExponential
  | toFixed
  | toLocaleString
  | toPrecision
  | toString
  | valueOf
  deriving DecidableEq, Repr

def NumberMethod.table : List (NumberMethod × String × Nat) :=
  [(toExponential, "toExponential", 1), (toFixed, "toFixed", 1),
    (toLocaleString, "toLocaleString", 0), (toPrecision, "toPrecision", 1),
    (toString, "toString", 1), (valueOf, "valueOf", 0)]

inductive BooleanMethod where
  | toString
  | valueOf
  deriving DecidableEq, Repr

def BooleanMethod.table : List (BooleanMethod × String × Nat) :=
  [(toString, "toString", 0), (valueOf, "valueOf", 0)]

/-- The functions about symbols and the methods of symbols. -/
inductive SymbolFn where
  | for
  | keyFor
  | toString
  | valueOf
  | description
  deriving DecidableEq, Repr

inductive MathFn where
  | abs
  | acos
  | acosh
  | asin
  | asinh
  | atan
  | atanh
  | atan2
  | cbrt
  | ceil
  | clz32
  | cos
  | cosh
  | exp
  | expm1
  | floor
  | fround
  | hypot
  | imul
  | log
  | log1p
  | log10
  | log2
  | max
  | min
  | pow
  | random
  | round
  | sign
  | sin
  | sinh
  | sqrt
  | tan
  | tanh
  | trunc
  deriving DecidableEq, Repr

def MathFn.table : List (MathFn × String × Nat) :=
  [(abs, "abs", 1), (acos, "acos", 1), (acosh, "acosh", 1), (asin, "asin", 1), (asinh, "asinh", 1),
    (atan, "atan", 1), (atanh, "atanh", 1), (atan2, "atan2", 2), (cbrt, "cbrt", 1),
    (ceil, "ceil", 1), (clz32, "clz32", 1), (cos, "cos", 1), (cosh, "cosh", 1), (exp, "exp", 1),
    (expm1, "expm1", 1), (floor, "floor", 1), (fround, "fround", 1), (hypot, "hypot", 2),
    (imul, "imul", 2), (log, "log", 1), (log1p, "log1p", 1), (log10, "log10", 1),
    (log2, "log2", 1), (max, "max", 2), (min, "min", 2), (pow, "pow", 2), (random, "random", 0),
    (round, "round", 1), (sign, "sign", 1), (sin, "sin", 1), (sinh, "sinh", 1), (sqrt, "sqrt", 1),
    (tan, "tan", 1), (tanh, "tanh", 1), (trunc, "trunc", 1)]

/-- The functions about JSON texts. -/
inductive JsonFn where
  | parse
  | stringify
  deriving DecidableEq, Repr

def JsonFn.table : List (JsonFn × String × Nat) :=
  [(parse, "parse", 2), (stringify, "stringify", 3)]

inductive CollectionMethod where
  | get
  | set
  | add
  | has
  | delete
  | clear
  | size
  | forEach
  | keys
  | values
  | entries
  deriving DecidableEq, Repr

def CollectionMethod.mapTable : List (CollectionMethod × String × Nat) :=
  [(clear, "clear", 0), (delete, "delete", 1), (entries, "entries", 0), (forEach, "forEach", 1),
    (get, "get", 1), (has, "has", 1), (keys, "keys", 0), (set, "set", 2), (values, "values", 0)]

def CollectionMethod.setTable : List (CollectionMethod × String × Nat) :=
  [(add, "add", 1), (clear, "clear", 0), (delete, "delete", 1), (entries, "entries", 0),
    (forEach, "forEach", 1), (has, "has", 1), (values, "values", 0)]

/-- The methods of regular expressions. -/
inductive RegexMethod where
  | exec
  | test
  | toString
  | source
  | flags
  /-- Whether a flag is set. -/
  | flag (letter : Char)
  deriving DecidableEq, Repr

/-- The functions that make objects or convert values. -/
inductive Constructor where
  | object
  | function
  | array
  | string
  | number
  | boolean
  | symbol
  | error (kind : ErrorKind)
  | regex
  | map
  | set
  deriving DecidableEq, Repr

namespace Constructor

def name : Constructor → String
  | object => "Object"
  | function => "Function"
  | array => "Array"
  | string => "String"
  | number => "Number"
  | boolean => "Boolean"
  | symbol => "Symbol"
  | error kind => kind.name
  | regex => "RegExp"
  | map => "Map"
  | set => "Set"

def arity : Constructor → Nat
  | symbol | map | set => 0
  | regex => 2
  | _ => 1

end Constructor

inductive Native where
  /-- Writes its arguments as one line of the console. -/
  | log
  /-- Does nothing, as the prototype of functions does. -/
  | nothing
  /-- Gives its receiver. -/
  | self
  | construct (c : Constructor)
  | global (f : GlobalFn)
  | objectFn (f : ObjectFn)
  | object (f : ObjectMethod)
  | function (f : FunctionMethod)
  | arrayFn (f : ArrayFn)
  | array (f : ArrayMethod)
  | stringFn (f : StringFn)
  | string (f : StringMethod)
  | numberFn (f : NumberFn)
  | number (f : NumberMethod)
  | boolean (f : BooleanMethod)
  | symbolFn (f : SymbolFn)
  | math (f : MathFn)
  | json (f : JsonFn)
  | errorText
  | regex (f : RegexMethod)
  | mapMethod (f : CollectionMethod)
  | setMethod (f : CollectionMethod)
  /-- The next value of an iterator. -/
  | next
  deriving DecidableEq, Repr

/-- The objects that are there before a script starts and that the rules refer to, in the order of
their places. -/
inductive Intrinsic where
  | global
  | objectPrototype
  | functionPrototype
  | arrayPrototype
  | stringPrototype
  | numberPrototype
  | booleanPrototype
  | symbolPrototype
  | errorPrototype
  | typeErrorPrototype
  | rangeErrorPrototype
  | referenceErrorPrototype
  | syntaxErrorPrototype
  | evalErrorPrototype
  | uriErrorPrototype
  | regexPrototype
  | mapPrototype
  | setPrototype
  | iteratorPrototype
  | arrayIteratorPrototype
  | stringIteratorPrototype
  | mapIteratorPrototype
  | setIteratorPrototype
  | matchIteratorPrototype
  deriving DecidableEq, Repr

/-- The place of an object that is there before a script starts. -/
def Intrinsic.ref (i : Intrinsic) : Nat := i.ctorIdx

def ErrorKind.prototype : ErrorKind → Intrinsic
  | error => .errorPrototype
  | typeError => .typeErrorPrototype
  | rangeError => .rangeErrorPrototype
  | referenceError => .referenceErrorPrototype
  | syntaxError => .syntaxErrorPrototype
  | evalError => .evalErrorPrototype
  | uriError => .uriErrorPrototype

def Constructor.prototype : Constructor → Intrinsic
  | object => .objectPrototype
  | function => .functionPrototype
  | array => .arrayPrototype
  | string => .stringPrototype
  | number => .numberPrototype
  | boolean => .booleanPrototype
  | symbol => .symbolPrototype
  | error kind => kind.prototype
  | regex => .regexPrototype
  | map => .mapPrototype
  | set => .setPrototype

end EggLang.Script
