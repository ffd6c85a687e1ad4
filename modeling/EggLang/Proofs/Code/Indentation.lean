import EggLang.Proofs.Cache.Encoding
import EggLang.Proofs.Code.Writing

/-!
# Indentation is layout only

Generated code is one list of lines whatever the indentation unit is: each has a depth and a text,
and is written as the unit repeated for its depth and the text behind it. Where no text of a program
has a brace or a line break in it, the depth of a line is the number of braces that are open before
it, less one if the line starts with a closing brace.

The printer joins texts in which line breaks are followed by indentation. To follow it, a text is
taken apart into marks, which are bytes and starts of lines at a depth.
-/

namespace EggLang.Code

/-! ## Lines -/

/-- A line of a text: how deep it stands, and what follows its indentation. -/
structure IndentedLine where
  depth : Nat
  text : Bytes
  deriving DecidableEq, Repr

/-- Lines as one text with the given indentation unit. -/
def writeLines (indent : Bytes) (ls : List IndentedLine) : Bytes :=
  Bytes.join (utf8 "\n") (ls.map fun l => pad indent l.depth ++ l.text)

/-- Code is written as these lines, whatever the indentation unit is. -/
structure LaidOut (c : Code) (ls : List IndentedLine) : Prop where
  filled : ls ≠ []
  whole : ∀ l ∈ ls, 10 ∉ l.text
  prints : ∀ indent, c.print indent = writeLines indent ls

/-- The texts of some lines. -/
def lineTexts (ls : List IndentedLine) : Bytes := ls.flatMap (·.text)

/-- The depth of each line is the number of braces that the lines before it open, less those that
they close, less one if it starts with a closing brace. -/
def FollowsBraces (ls : List IndentedLine) : Prop :=
  ∀ before l after, ls = before ++ l :: after →
    (l.depth : Int) = (lineTexts before).count 123 - (lineTexts before).count 125
      - if l.text.head? = some 125 then 1 else 0

mutual

/-- The texts that code takes over as they are: raw text, operators, names, parameters and
properties. -/
def spellings : Code → List Bytes
  | absent => []
  | raw text => [text]
  | operation operator cs => operator :: spellingsAll cs
  | array cs | block cs => spellingsAll cs
  | call c cs => c.spellings ++ spellingsAll cs
  | function params c => params ++ c.spellings
  | member c property => property :: c.spellings
  | effect c | .return c => c.spellings
  | var name c | assign name c => name :: c.spellings
  | index c d | .while c d => c.spellings ++ d.spellings
  | .if c d e => c.spellings ++ d.spellings ++ e.spellings

/-- The texts that a list of code takes over. -/
def spellingsAll : List Code → List Bytes
  | [] => []
  | c :: rest => c.spellings ++ spellingsAll rest

end

/-- A text without braces and line breaks. -/
def IsUnbraced (text : Bytes) : Prop := ∀ b ∈ text, b ∉ ([10, 123, 125] : Bytes)

instance (text : Bytes) : Decidable (IsUnbraced text) :=
  List.decidableBAll (· ∉ ([10, 123, 125] : Bytes)) text

/-- No text that the code takes over has a brace or a line break in it. -/
def Unbraced (c : Code) : Prop := ∀ text ∈ c.spellings, IsUnbraced text

instance (c : Code) : Decidable c.Unbraced := List.decidableBAll IsUnbraced c.spellings

/-! ## Marks -/

/-- A byte of a text, or the start of a line at a depth. -/
inductive Mark where
  | byte (b : UInt8)
  | line (depth : Nat)

/-- A mark as it is written. -/
def Mark.written (indent : Bytes) : Mark → Bytes
  | byte b => [b]
  | line depth => utf8 "\n" ++ pad indent depth

/-- Marks as they are written. -/
def inscribe (indent : Bytes) (ms : List Mark) : Bytes := ms.flatMap (Mark.written indent)

/-- The marks of a text without indentation. -/
def verbatim (text : Bytes) : List Mark := text.map .byte

variable {indent text : Bytes} {d e f : Nat} {ms ns : List Mark} {P Q : Prop}
  {write more : Bytes → Bytes} {texts_ others : Bytes → List Bytes} {c : Code} {cs : List Code}

@[simp] theorem inscribe_nil (indent : Bytes) : inscribe indent [] = [] := rfl

@[simp] theorem inscribe_cons (indent : Bytes) (m : Mark) (ms : List Mark) :
    inscribe indent (m :: ms) = m.written indent ++ inscribe indent ms := rfl

@[simp] theorem inscribe_append (indent : Bytes) (ms ns : List Mark) :
    inscribe indent (ms ++ ns) = inscribe indent ms ++ inscribe indent ns := List.flatMap_append

@[simp] theorem inscribe_verbatim (indent text : Bytes) :
    inscribe indent (verbatim text) = text := by
  induction text with
  | nil => rfl
  | cons b text ih =>
    rw [verbatim, List.map_cons, inscribe_cons, ← verbatim, ih]
    rfl

/-- With so many braces open in front of the marks, each line starts at the depth that the braces
tell, and so many are open behind them. -/
inductive Nests : Nat → List Mark → Nat → Prop
  | nil {d : Nat} : Nests d [] d
  | byte {b : UInt8} {ms : List Mark} {d e : Nat} : b ∉ ([10, 123, 125] : Bytes) →
      Nests d ms e → Nests d (.byte b :: ms) e
  | opening {ms : List Mark} {d e : Nat} : Nests (d + 1) ms e → Nests d (.byte 123 :: ms) e
  | closing {ms : List Mark} {d e : Nat} : Nests d ms e → Nests (d + 1) (.byte 125 :: ms) e
  | line {ms : List Mark} {d e : Nat} : ms.head? ≠ some (.byte 125) →
      Nests d ms e → Nests d (.line d :: ms) e
  | outward {ms : List Mark} {d e : Nat} :
      Nests d ms e → Nests (d + 1) (.line d :: .byte 125 :: ms) e

theorem Nests.append (h : Nests d ms e) (g : Nests e ns f) (free : ns.head? ≠ some (.byte 125)) :
    Nests d (ms ++ ns) f := by
  induction h with
  | nil => exact g
  | byte plain _ ih => exact .byte plain (ih g)
  | opening _ ih => exact .opening (ih g)
  | closing _ ih => exact .closing (ih g)
  | @line ms _ _ first _ ih =>
    refine .line ?_ (ih g)
    cases ms with
    | nil => exact free
    | cons => exact first
  | outward _ ih => exact .outward (ih g)

theorem nests_verbatim (plain : IsUnbraced text) : Nests d (verbatim text) d := by
  induction text with
  | nil => exact .nil
  | cons b text ih =>
    exact .byte (plain b List.mem_cons_self) (ih fun b mem => plain b (List.mem_cons_of_mem _ mem))

/-- Marks that leave open what was open before them. -/
structure Steady (d : Nat) (ms : List Mark) : Prop where
  nests : Nests d ms d
  free : ms.head? ≠ some (.byte 125)

theorem steady_verbatim (plain : IsUnbraced text) : Steady d (verbatim text) where
  nests := nests_verbatim plain
  free := by
    cases text with
    | nil => exact nofun
    | cons b text =>
      intro first
      obtain rfl : b = 125 := by simpa [verbatim] using first
      exact plain 125 List.mem_cons_self (by decide)

theorem Steady.append (h : Steady d ms) (g : Steady d ns) : Steady d (ms ++ ns) where
  nests := h.nests.append g.nests g.free
  free := by
    cases ms with
    | nil => exact g.free
    | cons => exact h.free

theorem Steady.line (h : Steady d ms) : Steady d (.line d :: ms) :=
  ⟨.line h.free h.nests, nofun⟩

/-! ## What the printer writes -/

/-- A text is the same marks with each indentation unit, which are steady at the depth under a
condition. -/
def Drawn (d : Nat) (P : Prop) (write : Bytes → Bytes) : Prop :=
  ∃ ms, (∀ indent, write indent = inscribe indent ms) ∧ (P → Steady d ms)

/-- Several texts are so, one by one. -/
def DrawnAll (d : Nat) (P : Prop) (texts : Bytes → List Bytes) : Prop :=
  ∃ mss : List (List Mark), (∀ indent, texts indent = mss.map (inscribe indent))
    ∧ (P → ∀ ms ∈ mss, Steady d ms)

theorem drawn_text (plain : P → IsUnbraced text) : Drawn d P fun _ => text :=
  ⟨verbatim text, fun indent => (inscribe_verbatim indent text).symm,
    fun p => steady_verbatim (plain p)⟩

theorem Drawn.append (h : Drawn d P write) (g : Drawn d P more) :
    Drawn d P fun indent => write indent ++ more indent := by
  obtain ⟨ms, same, steady⟩ := h
  obtain ⟨ns, same', steady'⟩ := g
  refine ⟨ms ++ ns, fun indent => ?_, fun p => (steady p).append (steady' p)⟩
  simp only [same, same', inscribe_append]

theorem Drawn.single (h : Drawn d P write) : DrawnAll d P fun indent => [write indent] := by
  obtain ⟨ms, same, steady⟩ := h
  refine ⟨[ms], fun indent => ?_, fun p => List.forall_mem_singleton.2 (steady p)⟩
  simp only [same, List.map_cons, List.map_nil]

theorem drawnAll_nil : DrawnAll d P fun _ => [] := ⟨[], fun _ => rfl, fun _ => nofun⟩

theorem DrawnAll.append (h : DrawnAll d P texts_) (g : DrawnAll d P others) :
    DrawnAll d P fun indent => texts_ indent ++ others indent := by
  obtain ⟨mss, same, steady⟩ := h
  obtain ⟨nss, same', steady'⟩ := g
  refine ⟨mss ++ nss, fun indent => ?_, fun p ms mem => ?_⟩
  · simp only [same, same', List.map_append]
  rcases List.mem_append.1 mem with here | here
  · exact steady p ms here
  · exact steady' p ms here

theorem drawnAll_texts {ts : List Bytes} (plain : P → ∀ t ∈ ts, IsUnbraced t) :
    DrawnAll d P fun _ => ts := by
  refine ⟨ts.map verbatim, fun indent => by simp [Function.comp_def], fun p ms mem => ?_⟩
  obtain ⟨t, inside, rfl⟩ := List.mem_map.1 mem
  exact steady_verbatim (plain p t inside)

theorem DrawnAll.mono (h : DrawnAll d P texts_) (weaker : Q → P) : DrawnAll d Q texts_ := by
  obtain ⟨mss, same, steady⟩ := h
  exact ⟨mss, same, fun q => steady (weaker q)⟩

/-- Texts with a separator between them that is a text like them. -/
theorem DrawnAll.join (h : DrawnAll d P texts_) (sep : Drawn d P write) :
    Drawn d P fun indent => Bytes.join (write indent) (texts_ indent) := by
  obtain ⟨mss, same, steady⟩ := h
  obtain ⟨ns, same', steady'⟩ := sep
  have between : ∀ mss : List (List Mark), (P → ∀ ms ∈ mss, Steady d ms) →
      Drawn d P fun indent => (mss.map (inscribe indent)).flatMap (inscribe indent ns ++ ·) := by
    intro mss steady
    induction mss with
    | nil => exact drawn_text fun _ => nofun
    | cons ms mss ih =>
      have first : Drawn d P fun indent => inscribe indent ns ++ inscribe indent ms :=
        ⟨ns ++ ms, fun indent => (inscribe_append ..).symm,
          fun p => (steady' p).append (steady p ms List.mem_cons_self)⟩
      exact first.append (ih fun p ms mem => steady p ms (List.mem_cons_of_mem _ mem))
  cases mss with
  | nil =>
    obtain ⟨os, empty, steady⟩ : Drawn d P fun _ => [] := drawn_text fun _ => nofun
    refine ⟨os, fun indent => ?_, steady⟩
    simp only [same, ← empty, List.map_nil, Bytes.join]
  | cons ms mss =>
    have first : Drawn d P fun indent => inscribe indent ms :=
      ⟨ms, fun _ => rfl, fun p => steady p ms List.mem_cons_self⟩
    obtain ⟨os, whole, steady⟩ :=
      first.append (between mss fun p ms mem => steady p ms (List.mem_cons_of_mem _ mem))
    refine ⟨os, fun indent => ?_, steady⟩
    simp only [same, same', ← whole, List.map_cons, join_cons]

theorem DrawnAll.joined (h : DrawnAll d P texts_) :
    Drawn d P fun indent => Code.joined indent d (texts_ indent) :=
  h.join ⟨[.line d], fun _ => by simp [Mark.written], fun _ => ⟨.line nofun .nil, nofun⟩⟩

theorem newline_braced (indent : Bytes) (d : Nat) (mss : List (List Mark)) :
    utf8 "\n" ++ Code.braced indent d (mss.map (inscribe indent))
      = inscribe indent (mss.flatMap (.line d :: ·)) ++ utf8 "\n" := by
  induction mss with
  | nil => rfl
  | cons ms mss ih =>
    have rest := congrArg (pad indent d ++ inscribe indent ms ++ ·) ih
    simp only [Code.braced, List.map_cons, List.flatMap_cons, inscribe_append, inscribe_cons,
      Mark.written, List.append_assoc] at rest ⊢
    rw [rest]

theorem steady_lines {mss : List (List Mark)} (steady : ∀ ms ∈ mss, Steady d ms) :
    Steady d (mss.flatMap (.line d :: ·)) := by
  induction mss with
  | nil => exact ⟨.nil, nofun⟩
  | cons ms mss ih =>
    exact (steady ms List.mem_cons_self).line.append
      (ih fun ms mem => steady ms (List.mem_cons_of_mem _ mem))

/-- Texts on lines of their own between braces. -/
theorem DrawnAll.braced (h : DrawnAll (d + 1) P texts_) :
    Drawn d P fun indent => utf8 "\x7b\n" ++ Code.braced indent (d + 1) (texts_ indent)
      ++ pad indent d ++ utf8 "\x7d" := by
  obtain ⟨mss, same, steady⟩ := h
  refine ⟨.byte 123 :: (mss.flatMap (.line (d + 1) :: ·) ++ [.line d, .byte 125]),
    fun indent => ?_, fun p => ⟨.opening ?_, nofun⟩⟩
  · have first : utf8 "\x7b\n" = utf8 "\x7b" ++ utf8 "\n" := rfl
    have rotated := newline_braced indent (d + 1) mss
    simp only [same, first, List.append_assoc, inscribe_cons, inscribe_append] at rotated ⊢
    rw [← List.append_assoc (utf8 "\n"), rotated]
    simp [Mark.written]
    rfl
  · exact (steady_lines (steady p)).nests.append (.outward .nil) nofun

theorem Drawn.operand (h : Drawn d P write) (c : Code) :
    Drawn d P fun indent => asOperand c (write indent) := by
  cases function : c.isFunction with
  | false =>
    simp only [asOperand, function]
    exact h
  | true =>
    simp only [asOperand, function, if_true]
    exact ((drawn_text fun _ => by decide).append h).append (drawn_text fun _ => by decide)

/-! ## Nodes -/

/-- Braces with texts on lines of their own between them. -/
def blockOf (indent : Bytes) (d : Nat) (ts : List Bytes) : Bytes :=
  utf8 "\x7b\n" ++ braced indent (d + 1) ts ++ pad indent d ++ utf8 "\x7d"

/-- The check of the number of arguments as one more line of a function. -/
def checkLine (indent : Bytes) (d count : Nat) : Bytes :=
  utf8 "if (arguments.length != " ++ Bytes.ofNat count ++ utf8 ") " ++ blockOf indent d
    [utf8 "throw new TypeError(" ++ Text.Quoted.encode (utf8 arityMessage) ++ utf8 ")"]

theorem lines_function (indent : Bytes) (d : Nat) (params : List Bytes) (body : Code) :
    lines indent d (function params body)
      = [utf8 "function(" ++ Bytes.join (utf8 ", ") params ++ utf8 ") " ++ blockOf indent d
          (checkLine indent (d + 1) params.length :: lines indent (d + 1) body)] := by
  have opens : utf8 ") \x7b\n" = utf8 ") " ++ utf8 "\x7b\n" := rfl
  have ends : utf8 ")\n" = utf8 ")" ++ utf8 "\n" := rfl
  have shuts : utf8 "\x7d\n" = utf8 "\x7d" ++ utf8 "\n" := rfl
  simp only [lines, arityCheck, checkLine, blockOf, braced, List.flatMap_cons, List.flatMap_nil,
    opens, ends, shuts, List.append_assoc, List.append_nil]

theorem lines_if (indent : Bytes) (d : Nat) (cond yes no : Code) :
    lines indent d (.if cond yes no)
      = [utf8 "if (" ++ render indent d cond ++ utf8 " !== false) "
          ++ blockOf indent d (lines indent (d + 1) yes) ++ utf8 " else "
          ++ blockOf indent d (lines indent (d + 1) no)] := by
  have guard : utf8 " !== false) \x7b\n" = utf8 " !== false) " ++ utf8 "\x7b\n" := rfl
  have other : utf8 "\x7d else \x7b\n" = utf8 "\x7d" ++ (utf8 " else " ++ utf8 "\x7b\n") := rfl
  simp only [lines, render, blockOf, guard, other, List.append_assoc]

theorem lines_while (indent : Bytes) (d : Nat) (cond body : Code) :
    lines indent d (.while cond body)
      = [utf8 "while (" ++ render indent d cond ++ utf8 " !== false) "
          ++ blockOf indent d (lines indent (d + 1) body)] := by
  have guard : utf8 " !== false) \x7b\n" = utf8 " !== false) " ++ utf8 "\x7b\n" := rfl
  simp only [lines, render, blockOf, guard, List.append_assoc]

theorem unbraced_ofNat (n : Nat) : IsUnbraced (Bytes.ofNat n) := by
  intro b mem
  obtain ⟨c, digit, rfl⟩ := List.mem_map.1 mem
  obtain ⟨value, low, high⟩ := Bytes.toNat_toDigits digit
  intro special
  simp only [List.mem_cons, List.not_mem_nil, or_false] at special
  rcases special with same | same | same <;>
    · rw [same] at value
      simp at value
      omega

theorem check_drawn (count : Nat) : Drawn d P fun indent => checkLine indent d count := by
  have thrown : DrawnAll (d + 1) P fun _ =>
      [utf8 "throw new TypeError(" ++ Text.Quoted.encode (utf8 arityMessage) ++ utf8 ")"] :=
    (drawn_text fun _ => by decide +kernel).single
  exact (((drawn_text fun _ => by decide).append (drawn_text fun _ => unbraced_ofNat count)).append
    (drawn_text fun _ => by decide)).append thrown.braced

theorem texts_eq (indent : Bytes) (d : Nat) (cs : List Code) :
    texts indent d cs = cs.flatMap fun c => [render indent d c] := by
  induction cs with
  | nil => rfl
  | cons c cs ih => rw [texts, ih]; rfl

theorem operandTexts_eq (indent : Bytes) (d : Nat) (cs : List Code) :
    operandTexts indent d cs = cs.flatMap fun c => [asOperand c (render indent d c)] := by
  induction cs with
  | nil => rfl
  | cons c cs ih => rw [operandTexts, ih]; rfl

theorem linesAll_eq (indent : Bytes) (d : Nat) (cs : List Code) :
    linesAll indent d cs = cs.flatMap (lines indent d) := by
  induction cs with
  | nil => rfl
  | cons c cs ih => rw [linesAll, ih]; rfl

/-- The statements of code are the same marks with every indentation unit. -/
def Flat (c : Code) : Prop := ∀ d, DrawnAll d c.Unbraced fun indent => lines indent d c

variable {c₁ c₂ c₃ : Code} {name : Bytes}

theorem Flat.within (h : Flat c₁) (part : ∀ text ∈ c₁.spellings, text ∈ c.spellings) (d : Nat) :
    DrawnAll d c.Unbraced fun indent => lines indent d c₁ :=
  (h d).mono fun plain text mem => plain text (part text mem)

theorem fixed (text : String) (plain : IsUnbraced (utf8 text)) : Drawn d P fun _ => utf8 text :=
  drawn_text fun _ => plain

theorem taken (mem : text ∈ c.spellings) : Drawn d c.Unbraced fun _ => text :=
  drawn_text fun plain => plain text mem

/-- What each node of a list gives in turn. -/
theorem drawnAll_flatMap {given : Code → Bytes → List Bytes}
    (each : ∀ c' ∈ cs, DrawnAll d c'.Unbraced (given c'))
    (part : ∀ text ∈ spellingsAll cs, text ∈ c.spellings) :
    DrawnAll d c.Unbraced fun indent => cs.flatMap (given · indent) := by
  induction cs with
  | nil => exact drawnAll_nil
  | cons c' cs ih =>
    have first : DrawnAll d c.Unbraced (given c') :=
      (each c' List.mem_cons_self).mono fun plain text mem =>
        plain text (part text (List.mem_append_left _ mem))
    exact first.append (ih (fun e mem => each e (List.mem_cons_of_mem c' mem))
      fun text mem => part text (List.mem_append_right _ mem))

theorem flat_operation {operator : Bytes} (each : ∀ c ∈ cs, Flat c) :
    Flat (operation operator cs) := by
  intro d
  simp only [lines, operandTexts_eq]
  have operands := drawnAll_flatMap (c := operation operator cs)
    (fun c mem => ((each c mem d).joined.operand c).single) fun text => List.mem_cons_of_mem _
  have sign : Drawn d (operation operator cs).Unbraced fun _ => operator :=
    taken List.mem_cons_self
  exact (operands.join
    (((fixed " " (by decide)).append sign).append (fixed " " (by decide)))).single

theorem flat_call (callee : Flat c) (each : ∀ c ∈ cs, Flat c) : Flat (call c cs) := by
  intro d
  simp only [lines, texts_eq]
  have called : Drawn d (call c cs).Unbraced _ :=
    (callee.within (fun text => List.mem_append_left _) d).joined.operand c
  have given := drawnAll_flatMap (c := call c cs) (fun c mem => (each c mem d).joined.single)
    fun text => List.mem_append_right _
  exact (((called.append (fixed "(" (by decide))).append
    (given.join (fixed ", " (by decide)))).append (fixed ")" (by decide))).single

theorem flat_function {params : List Bytes} (body : Flat c) : Flat (function params c) := by
  intro d
  simp only [lines_function]
  have names : DrawnAll d (function params c).Unbraced fun _ => params :=
    drawnAll_texts fun plain text mem => plain text (List.mem_append_left _ mem)
  have inner : DrawnAll (d + 1) (function params c).Unbraced _ :=
    body.within (fun text => List.mem_append_right _) (d + 1)
  have statements := ((check_drawn params.length).single.append inner).braced
  exact ((((fixed "function(" (by decide)).append (names.join (fixed ", " (by decide)))).append
    (fixed ") " (by decide))).append statements).single

theorem flat_array (each : ∀ c ∈ cs, Flat c) : Flat (array cs) := by
  intro d
  simp only [lines, texts_eq]
  have given := drawnAll_flatMap (c := array cs) (fun c mem => (each c mem d).joined.single)
    fun text mem => mem
  exact (((fixed "[" (by decide)).append (given.join (fixed ", " (by decide)))).append
    (fixed "]" (by decide))).single

theorem flat_member (object : Flat c) : Flat (member c name) := by
  intro d
  have whole : Drawn d (member c name).Unbraced _ :=
    (object.within (fun text => List.mem_cons_of_mem _) d).joined.operand c
  exact ((whole.append (fixed "." (by decide))).append (taken List.mem_cons_self)).single

theorem flat_index (object : Flat c₁) (place : Flat c₂) : Flat (index c₁ c₂) := by
  intro d
  have whole : Drawn d (index c₁ c₂).Unbraced _ :=
    (object.within (fun text => List.mem_append_left _) d).joined.operand c₁
  have inner := (place.within (c := index c₁ c₂) (fun text => List.mem_append_right _) d).joined
  exact (((whole.append (fixed "[" (by decide))).append inner).append
    (fixed "]" (by decide))).single

theorem flat_return (value : Flat c) : Flat (.return c) := by
  intro d
  cases present : c.isAbsent with
  | true =>
    simp only [lines, present]
    exact (fixed "return" (by decide)).single
  | false =>
    simp only [lines, present]
    exact ((fixed "return " (by decide)).append (value d).joined).single

theorem flat_if (cond : Flat c₁) (yes : Flat c₂) (no : Flat c₃) : Flat (.if c₁ c₂ c₃) := by
  intro d
  simp only [lines_if]
  have tested := (cond.within (c := .if c₁ c₂ c₃)
    (fun text mem => List.mem_append_left _ (List.mem_append_left _ mem)) d).joined
  have first := (yes.within (c := .if c₁ c₂ c₃)
    (fun text mem => List.mem_append_left _ (List.mem_append_right _ mem)) (d + 1)).braced
  have second := (no.within (c := .if c₁ c₂ c₃)
    (fun text mem => List.mem_append_right _ mem) (d + 1)).braced
  exact (((((fixed "if (" (by decide)).append tested).append
    (fixed " !== false) " (by decide))).append first).append
    (fixed " else " (by decide))).append second |>.single

theorem flat_while (cond : Flat c₁) (body : Flat c₂) : Flat (.while c₁ c₂) := by
  intro d
  simp only [lines_while]
  have tested := (cond.within (c := .while c₁ c₂) (fun text => List.mem_append_left _) d).joined
  have inner := (body.within (c := .while c₁ c₂) (fun text => List.mem_append_right _)
    (d + 1)).braced
  exact ((((fixed "while (" (by decide)).append tested).append
    (fixed " !== false) " (by decide))).append inner).single

theorem flat_var (value : Flat c) : Flat (var name c) := by
  intro d
  have given := (value.within (c := var name c) (fun text => List.mem_cons_of_mem _) d).joined
  exact ((((fixed "var " (by decide)).append (taken List.mem_cons_self)).append
    (fixed " = " (by decide))).append given).single

theorem flat_assign (value : Flat c) : Flat (assign name c) := by
  intro d
  have given := (value.within (c := assign name c) (fun text => List.mem_cons_of_mem _) d).joined
  exact (((taken List.mem_cons_self).append (fixed " = " (by decide))).append given).single

theorem flat_block (each : ∀ c ∈ cs, Flat c) : Flat (block cs) := by
  intro d
  simp only [lines, linesAll_eq]
  exact drawnAll_flatMap (c := block cs) (fun c mem => each c mem d) fun text mem => mem

theorem flat (c : Code) : Flat c := by
  have each {cs : List Code} (smaller : sizeOf cs < sizeOf c) : ∀ c' ∈ cs, Flat c' := by
    intro c' mem
    have := List.sizeOf_lt_of_mem mem
    exact flat c'
  match c with
  | absent => exact fun d => (fixed "undefined" (by decide)).single
  | raw text => exact fun d => (taken List.mem_cons_self).single
  | operation operator cs => exact flat_operation (each (by simp))
  | call callee args => exact flat_call (flat callee) (each (by simp))
  | function params body => exact flat_function (flat body)
  | array elements => exact flat_array (each (by simp))
  | member object property => exact flat_member (flat object)
  | index object place => exact flat_index (flat object) (flat place)
  | effect x => exact fun d => (flat x d).joined.single
  | .return value => exact flat_return (flat value)
  | .if cond yes no => exact flat_if (flat cond) (flat yes) (flat no)
  | .while cond body => exact flat_while (flat cond) (flat body)
  | var name value => exact flat_var (flat value)
  | assign name value => exact flat_assign (flat value)
  | block statements => exact flat_block (each (by simp))
termination_by sizeOf c
decreasing_by all_goals simp_wf <;> omega

/-! ## Marks as lines -/

/-- The text in front of the first line break, and the lines behind it. A line break that is not
followed by indentation starts a line that is not indented. -/
def splitLines : List Mark → Bytes × List IndentedLine
  | [] => ([], [])
  | .line d :: ms => ([], ⟨d, (splitLines ms).1⟩ :: (splitLines ms).2)
  | .byte b :: ms =>
    if b = 10 then ([], ⟨0, (splitLines ms).1⟩ :: (splitLines ms).2)
    else (b :: (splitLines ms).1, (splitLines ms).2)

theorem inscribe_splitLines (indent : Bytes) (ms : List Mark) :
    inscribe indent ms = (splitLines ms).1
      ++ (splitLines ms).2.flatMap fun l => utf8 "\n" ++ (pad indent l.depth ++ l.text) := by
  induction ms with
  | nil => rfl
  | cons m ms ih =>
    rw [inscribe_cons, ih]
    cases m with
    | line d => simp [splitLines, Mark.written]
    | byte b =>
      by_cases broken : b = 10
      · subst broken
        simp [splitLines, Mark.written, pad, Bytes.repeated]
        rfl
      · simp [splitLines, Mark.written, broken]

theorem splitLines_whole (ms : List Mark) :
    10 ∉ (splitLines ms).1 ∧ ∀ l ∈ (splitLines ms).2, 10 ∉ l.text := by
  induction ms with
  | nil => exact ⟨nofun, nofun⟩
  | cons m ms ih =>
    cases m with
    | line d => exact ⟨nofun, List.forall_mem_cons.2 ih⟩
    | byte b =>
      by_cases broken : b = 10
      · rw [splitLines, if_pos broken]
        exact ⟨nofun, List.forall_mem_cons.2 ih⟩
      · rw [splitLines, if_neg broken]
        exact ⟨fun mem => (List.mem_cons.1 mem).elim (fun same => broken same.symm) ih.1, ih.2⟩

theorem splitLines_free (free : ms.head? ≠ some (.byte 125)) :
    (splitLines ms).1.head? ≠ some 125 := by
  cases ms with
  | nil => exact nofun
  | cons m ms =>
    cases m with
    | line d => exact nofun
    | byte b =>
      rw [splitLines]
      split
      · exact nofun
      · simpa using free

/-- With so many braces open in front of the text that precedes the lines, each line stands where
the braces tell. -/
def Follows (d : Nat) (text : Bytes) (ls : List IndentedLine) : Prop :=
  ∀ before l after, ls = before ++ l :: after →
    (l.depth : Int) = d + (text ++ lineTexts before).count 123
      - (text ++ lineTexts before).count 125 - if l.text.head? = some 125 then 1 else 0

theorem Follows.line {ls : List IndentedLine} (h : Follows d text ls)
    (free : text.head? ≠ some 125) : Follows d [] (⟨d, text⟩ :: ls) := by
  intro before l after split
  cases before with
  | nil =>
    obtain ⟨rfl, -⟩ := List.cons.inj split
    simp [lineTexts, free]
  | cons first before =>
    obtain ⟨rfl, rest⟩ := List.cons.inj split
    exact h before l after rest

theorem Follows.outward {ls : List IndentedLine} (h : Follows d text ls) :
    Follows (d + 1) [] (⟨d, 125 :: text⟩ :: ls) := by
  intro before l after split
  cases before with
  | nil =>
    obtain ⟨rfl, -⟩ := List.cons.inj split
    simp [lineTexts]
  | cons first before =>
    obtain ⟨rfl, rest⟩ := List.cons.inj split
    have deeper := h before l after rest
    simp only [lineTexts, List.flatMap_cons, List.nil_append, List.count_append,
      List.count_cons] at deeper ⊢
    simp
    omega

theorem Nests.follows (h : Nests d ms e) : Follows d (splitLines ms).1 (splitLines ms).2 := by
  induction h with
  | nil => exact fun before l after split => by simp [splitLines] at split
  | @byte b ms d e plain _ ih =>
    obtain ⟨whole, opens, closes⟩ : b ≠ 10 ∧ b ≠ 123 ∧ b ≠ 125 := by simpa using plain
    intro before l after split
    rw [splitLines, if_neg whole] at split ⊢
    have same := ih before l after split
    simp only [List.cons_append, List.count_cons, beq_iff_eq, opens, closes, if_false] at same ⊢
    omega
  | opening _ ih =>
    intro before l after split
    have same := ih before l after split
    simp [splitLines] at same ⊢
    omega
  | closing _ ih =>
    intro before l after split
    have same := ih before l after split
    simp [splitLines] at same ⊢
    omega
  | line first _ ih => exact ih.line (splitLines_free first)
  | outward _ ih => exact ih.outward

/-- The lines of marks, the first of which is not indented. -/
def linesOf (ms : List Mark) : List IndentedLine := ⟨0, (splitLines ms).1⟩ :: (splitLines ms).2

theorem Steady.followsBraces (h : Steady 0 ms) : FollowsBraces (linesOf ms) := by
  have follows := h.nests.follows.line (splitLines_free h.free)
  intro before l after split
  simpa using follows before l after split

/-! ## The lines of code -/

theorem pad_space (d : Nat) : pad [32] d = List.replicate d 32 := by
  induction d with
  | zero => rfl
  | succ d ih => exact congrArg (32 :: ·) ih

theorem LaidOut.splitOn {ls : List IndentedLine} (h : LaidOut c ls) (indent : Bytes)
    (blank : 10 ∉ indent) :
    Bytes.splitOn 10 (c.print indent) = ls.map fun l => pad indent l.depth ++ l.text := by
  have newline : utf8 "\n" = [10] := rfl
  have clear (d : Nat) : 10 ∉ pad indent d := by
    induction d with
    | zero => exact nofun
    | succ d ih => exact fun mem => (List.mem_append.1 mem).elim blank ih
  rw [h.prints, writeLines, newline, Bytes.splitOn_join (by simpa using h.filled)]
  intro t mem
  obtain ⟨l, inside, rfl⟩ := List.mem_map.1 mem
  exact fun broken => (List.mem_append.1 broken).elim (clear l.depth) (h.whole l inside)

/-- The unit of no bytes shows the texts, and that of one byte the depths. -/
theorem LaidOut.unique {ls ls' : List IndentedLine} (h : LaidOut c ls) (g : LaidOut c ls') :
    ls' = ls := by
  have bare := (g.splitOn [] nofun).symm.trans (h.splitOn [] nofun)
  have spaced := (g.splitOn [32] (by decide)).symm.trans (h.splitOn [32] (by decide))
  clear h g
  induction ls' generalizing ls with
  | nil =>
    exact (List.map_eq_nil_iff.1 bare.symm).symm
  | cons l' ls' ih =>
    cases ls with
    | nil => cases bare
    | cons l ls =>
      obtain ⟨first, rest⟩ := List.cons.inj bare
      obtain ⟨first', rest'⟩ := List.cons.inj spaced
      obtain ⟨d, text⟩ := l
      obtain ⟨d', text'⟩ := l'
      have none (n : Nat) : pad [] n = [] := by
        induction n with
        | zero => rfl
        | succ n ih => exact ih
      simp only [none, List.nil_append] at first
      subst first
      have lengths := congrArg List.length (List.append_cancel_right first')
      simp only [pad_space, List.length_replicate] at lengths
      rw [lengths, ih rest rest']

/-- Code is one list of lines for every indentation unit, each written as the unit repeated for its
depth and the text of the line; where the texts that the code takes over have neither braces nor
line breaks, the depths are those that the braces tell. -/
theorem print_indented (c : Code) :
    ∃ ls, LaidOut c ls ∧ (∀ ls', LaidOut c ls' → ls' = ls) ∧ (c.Unbraced → FollowsBraces ls) := by
  obtain ⟨ms, same, steady⟩ := (flat c 0).joined
  have laid : LaidOut c (linesOf ms) := by
    refine ⟨List.cons_ne_nil _ _, List.forall_mem_cons.2 (splitLines_whole ms), fun indent => ?_⟩
    have written : c.print indent = inscribe indent ms := same indent
    rw [written, inscribe_splitLines, writeLines, linesOf, List.map_cons, join_cons]
    simp [pad, Bytes.repeated, List.flatMap_map]
  exact ⟨linesOf ms, laid, fun ls' other => laid.unique other, fun plain =>
    (steady plain).followsBraces⟩

/-- A loop whose condition is a call of a function literal has two function bodies open at once. -/
def nestedLoop : Code :=
  .while (call (function [utf8 "x"] (.if (ident (utf8 "x")) absent (.return absent)))
      [function [] (block [effect (ident (utf8 "f")), .return Code.false])])
    (block [])

theorem print_indented_nestedLoop :
    nestedLoop.Unbraced ∧ ∃ ls, LaidOut nestedLoop ls ∧ FollowsBraces ls := by
  have plain : nestedLoop.Unbraced := by decide +kernel
  obtain ⟨ls, laid, -, follows⟩ := print_indented nestedLoop
  exact ⟨plain, ls, laid, follows plain⟩

end EggLang.Code
