import EggLang.Script.Environment
import EggLang.Script.Library.Number

/-!
# What scripts find at the start

The store in which every script starts: the objects that the rules refer to, in the order of their
places, and the functions that are found under names.
-/

namespace EggLang.Script.Start

/-- The objects that the rules refer to, without members. -/
def object : Intrinsic → Object
  | .objectPrototype => {}
  | .functionPrototype =>
    { kind := .native .nothing, proto := some Intrinsic.objectPrototype.ref
      members := Action.functionMembers 0 [] }
  | .arrayPrototype => { kind := .array #[] 0 false, proto := some Intrinsic.objectPrototype.ref }
  | .stringPrototype =>
    { kind := .boxed (.string []), proto := some Intrinsic.objectPrototype.ref }
  | .numberPrototype =>
    { kind := .boxed (.number .zero), proto := some Intrinsic.objectPrototype.ref }
  | .booleanPrototype =>
    { kind := .boxed (.bool false), proto := some Intrinsic.objectPrototype.ref }
  | .typeErrorPrototype | .rangeErrorPrototype | .referenceErrorPrototype
  | .syntaxErrorPrototype | .evalErrorPrototype | .uriErrorPrototype =>
    { proto := some Intrinsic.errorPrototype.ref }
  | .arrayIteratorPrototype | .stringIteratorPrototype | .mapIteratorPrototype
  | .setIteratorPrototype | .matchIteratorPrototype =>
    { proto := some Intrinsic.iteratorPrototype.ref }
  | _ => { proto := some Intrinsic.objectPrototype.ref }

/-- The objects that the rules refer to, in the order of their places. -/
def intrinsics : List Intrinsic :=
  [.global, .objectPrototype, .functionPrototype, .arrayPrototype, .stringPrototype,
    .numberPrototype, .booleanPrototype, .symbolPrototype, .errorPrototype, .typeErrorPrototype,
    .rangeErrorPrototype, .referenceErrorPrototype, .syntaxErrorPrototype, .evalErrorPrototype,
    .uriErrorPrototype, .regexPrototype, .mapPrototype, .setPrototype, .iteratorPrototype,
    .arrayIteratorPrototype, .stringIteratorPrototype, .mapIteratorPrototype,
    .setIteratorPrototype, .matchIteratorPrototype]

def function (f : Native) (name : String) (arity : Nat) (s : Store) : Nat × Store :=
  s.alloc
    { kind := .native f, proto := some Intrinsic.functionPrototype.ref
      members := Action.functionMembers arity (Units.ofString name) }

/-- Gives an object a member that loops do not show. -/
def give (holder : Nat) (key : Key) (v : Value) (s : Store) : Store :=
  s.put holder key (.hidden v)

def giveFunction (holder : Nat) (key : Key) (f : Native) (name : String) (arity : Nat)
    (s : Store) : Store :=
  let (ref, s) := function f name arity s
  give holder key (.object ref) s

def giveTable {α : Type} (holder : Nat) (make : α → Native) (table : List (α × String × Nat))
    (s : Store) : Store :=
  table.foldl (fun s (f, name, arity) =>
    giveFunction holder (.ofString name) (make f) name arity s) s

/-- Gives an object a member that a function gives. -/
def giveGetter (holder : Nat) (name : String) (f : Native) (s : Store) : Store :=
  let (ref, s) := function f ("get " ++ name) 0 s
  s.put holder (.ofString name) { slot := .accessor (some ref) none, enumerable := false }

/-- Gives an object a member that cannot be changed. -/
def giveConstant (holder : Nat) (key : Key) (v : Value) (s : Store) : Store :=
  s.put holder key (.constant v)

def giveTag (i : Intrinsic) (word : String) (s : Store) : Store :=
  s.put i.ref WellKnown.toStringTag.key (.readOnly (.string (Units.ofString word)))

/-- Makes a constructor and puts it under its global name. -/
def constructor (c : Constructor) (s : Store) : Nat × Store :=
  let (ref, s) := function (.construct c) c.name c.arity s
  let s := giveConstant ref prototypeKey (.object c.prototype.ref) s
  let s := give c.prototype.ref constructorKey (.object ref) s
  (ref, give Intrinsic.global.ref (.ofString c.name) (.object ref) s)

def named (name : String) (s : Store) : Nat × Store :=
  let (ref, s) := s.alloc { proto := some Intrinsic.objectPrototype.ref }
  (ref, give Intrinsic.global.ref (.ofString name) (.object ref) s)

def withObjects (s : Store) : Store :=
  let (object, s) := constructor .object s
  let s := giveTable object .objectFn ObjectFn.table s
  let s := giveTable Intrinsic.objectPrototype.ref .object ObjectMethod.table s
  let (getter, s) := function (.object .getPrototype) "get __proto__" 0 s
  let (setter, s) := function (.object .setPrototype) "set __proto__" 1 s
  let s := s.put Intrinsic.objectPrototype.ref (.ofString "__proto__")
    { slot := .accessor (some getter) (some setter), enumerable := false }
  let (_, s) := constructor .function s
  let s := giveTable Intrinsic.functionPrototype.ref .function FunctionMethod.table s
  let (test, s) := function (.function .hasInstance) "[Symbol.hasInstance]" 1 s
  giveConstant Intrinsic.functionPrototype.ref WellKnown.hasInstance.key (.object test) s

def withArrays (s : Store) : Store :=
  let (array, s) := constructor .array s
  let s := giveTable array .arrayFn ArrayFn.table s
  let s := giveTable Intrinsic.arrayPrototype.ref .array ArrayMethod.table s
  let values := ((s.own? Intrinsic.arrayPrototype.ref (.ofString "values")).bind
    Property.value?).getD .undefined
  give Intrinsic.arrayPrototype.ref WellKnown.iterator.key values s

/-- The functions about texts, numbers, truth values and symbols. -/
def withPrimitives (s : Store) : Store :=
  let (string, s) := constructor .string s
  let s := giveTable string .stringFn StringFn.table s
  let s := giveTable Intrinsic.stringPrototype.ref .string StringMethod.table s
  let s := giveFunction Intrinsic.stringPrototype.ref WellKnown.iterator.key (.string .iterator)
    "[Symbol.iterator]" 0 s
  let (number, s) := constructor .number s
  let s := giveTable number .numberFn NumberFn.table s
  let s := giveTable Intrinsic.numberPrototype.ref .number NumberMethod.table s
  let s := numberConstants.foldl (fun s (name, x) =>
    giveConstant number (.ofString name) (.number x) s) s
  let s := giveFunction number (.ofString "parseInt") (.global .parseInt) "parseInt" 2 s
  let s := giveFunction number (.ofString "parseFloat") (.global .parseFloat) "parseFloat" 1 s
  let (_, s) := constructor .boolean s
  let s := giveTable Intrinsic.booleanPrototype.ref .boolean BooleanMethod.table s
  let (symbol, s) := constructor .symbol s
  let s := WellKnown.table.foldl (fun s (w, name) =>
    giveConstant symbol (.ofString name) (.symbol w.ctorIdx) s) s
  let s := giveTable symbol .symbolFn [(.for, "for", 1), (.keyFor, "keyFor", 1)] s
  let s := giveTable Intrinsic.symbolPrototype.ref .symbolFn
    [(.toString, "toString", 0), (.valueOf, "valueOf", 0)] s
  let s := giveGetter Intrinsic.symbolPrototype.ref "description" (.symbolFn .description) s
  giveTag .symbolPrototype "Symbol" s
where
  /-- The constants of `Number`. -/
  numberConstants : List (String × Numeric) :=
    [("MAX_VALUE", .float (.finite false 9007199254740991 971)),
      ("MIN_VALUE", .float (.finite false 1 (-1074))), ("NaN", .nan),
      ("NEGATIVE_INFINITY", .infinity true), ("POSITIVE_INFINITY", .infinity false),
      ("EPSILON", .ofBinary64 (.ofRatio false 1 4503599627370496)),
      ("MAX_SAFE_INTEGER", .int 9007199254740991), ("MIN_SAFE_INTEGER", .int (-9007199254740991))]

def withErrors (s : Store) : Store :=
  let s := ErrorKind.all.foldl (fun s kind =>
    let (_, s) := constructor (.error kind) s
    let s := give kind.prototype.ref nameKey (.string (Units.ofString kind.name)) s
    give kind.prototype.ref messageKey (.string []) s) s
  giveFunction Intrinsic.errorPrototype.ref (.ofString "toString") .errorText "toString" 0 s

def withCollections (s : Store) : Store :=
  let (_, s) := constructor .regex s
  let s := giveTable Intrinsic.regexPrototype.ref .regex
    [(.exec, "exec", 1), (.test, "test", 1), (.toString, "toString", 0)] s
  let s := giveGetter Intrinsic.regexPrototype.ref "source" (.regex .source) s
  let s := giveGetter Intrinsic.regexPrototype.ref "flags" (.regex .flags) s
  let s := flagNames.foldl (fun s (letter, name) =>
    giveGetter Intrinsic.regexPrototype.ref name (.regex (.flag letter)) s) s
  let (_, s) := constructor .map s
  let s := giveTable Intrinsic.mapPrototype.ref .mapMethod CollectionMethod.mapTable s
  let s := giveGetter Intrinsic.mapPrototype.ref "size" (.mapMethod .size) s
  let s := giveFunction Intrinsic.mapPrototype.ref WellKnown.iterator.key (.mapMethod .entries)
    "entries" 0 s
  let s := giveTag .mapPrototype "Map" s
  let (_, s) := constructor .set s
  let s := giveTable Intrinsic.setPrototype.ref .setMethod CollectionMethod.setTable s
  let s := giveGetter Intrinsic.setPrototype.ref "size" (.setMethod .size) s
  let s := giveFunction Intrinsic.setPrototype.ref WellKnown.iterator.key (.setMethod .values)
    "values" 0 s
  let s := giveFunction Intrinsic.setPrototype.ref (.ofString "keys") (.setMethod .values)
    "values" 0 s
  let s := giveTag .setPrototype "Set" s
  let s := giveFunction Intrinsic.iteratorPrototype.ref WellKnown.iterator.key .self
    "[Symbol.iterator]" 0 s
  iterators.foldl (fun s (i, word) =>
    giveTag i word (giveFunction i.ref (.ofString "next") .next "next" 0 s)) s
where
  /-- The members of regular expressions that tell their flags. -/
  flagNames : List (Char × String) :=
    [('g', "global"), ('i', "ignoreCase"), ('m', "multiline"), ('s', "dotAll"), ('u', "unicode"),
      ('y', "sticky")]
  /-- The prototypes of iterators and the words for them. -/
  iterators : List (Intrinsic × String) :=
    [(.arrayIteratorPrototype, "Array Iterator"), (.stringIteratorPrototype, "String Iterator"),
      (.mapIteratorPrototype, "Map Iterator"), (.setIteratorPrototype, "Set Iterator"),
      (.matchIteratorPrototype, "RegExp String Iterator")]

/-- Mathematics, JSON, the global functions and constants, and the console. -/
def withGlobals (s : Store) : Store :=
  let (math, s) := named "Math" s
  let s := giveTable math .math MathFn.table s
  let s := Library.mathConstants.foldl (fun s (name, x) =>
    giveConstant math (.ofString name) (.number (.ofBinary64 (.ofFloat x))) s) s
  let s := s.put math WellKnown.toStringTag.key (.readOnly (.string (Units.ofString "Math")))
  let (json, s) := named "JSON" s
  let s := giveTable json .json JsonFn.table s
  let s := s.put json WellKnown.toStringTag.key (.readOnly (.string (Units.ofString "JSON")))
  let global := Intrinsic.global.ref
  let s := giveTable global .global GlobalFn.table s
  let s := give global (.ofString "globalThis") (.object global) s
  let s := giveConstant global (.ofString "undefined") .undefined s
  let s := giveConstant global (.ofString "NaN") (.number .nan) s
  let s := giveConstant global (.ofString "Infinity") (.number (.infinity false)) s
  let (log, s) := function .log "log" 0 s
  let (console, s) := s.alloc
    { proto := some Intrinsic.objectPrototype.ref
      members := #[(.ofString "log", .plain (.object log))] }
  s.put global (.ofString "console") (.plain (.object console))

/-- The texts of the symbols that are there at the start. -/
def symbolTexts : List (Option Units) :=
  WellKnown.table.map fun (_, name) => some (Units.ofString ("Symbol." ++ name))

/-- The store in which every script starts. -/
def store : Store :=
  let bare : Store :=
    { objects := (intrinsics.map object).toArray, scopes := #[{}], symbols := symbolTexts.toArray }
  withGlobals (withCollections (withErrors (withPrimitives (withArrays (withObjects bare)))))

end EggLang.Script.Start
