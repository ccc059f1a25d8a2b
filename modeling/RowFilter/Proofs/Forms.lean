import RowFilter.Proofs.Building

/-!
# Forms of a function

A function that returns the value of an expression can be written with an arrow, with an
arrow and a block, or with the word `function`.  Its parameter may have a type, the function
may have a name, and the semicolon before the closing brace may be missing.

None of this makes a difference: a function in any of these forms is compiled to what the
expression is lowered to, or is refused for the reason for which the expression is
(`compile_forms`).  The expression need not be a condition, so this covers refusals too.
-/

set_option autoImplicit false

namespace RowFilter

open Script Reader Lexeme Grammar

/-- The texts of a function that returns what a body says.  The type of the parameter and the
name of the function stand only in some of them. -/
def forms (parameter type name body : String) : List String :=
  [ "(" ++ parameter ++ ") => " ++ body,
    "(" ++ parameter ++ ": " ++ type ++ ") => " ++ body,
    "(" ++ parameter ++ ") => \x7b return " ++ body ++ "; \x7d",
    "function (" ++ parameter ++ ") \x7b return " ++ body ++ " \x7d",
    "function " ++ name ++ "(" ++ parameter ++ ") \x7b return " ++ body ++ "; \x7d" ]

/-! ## Plain functions -/

/-- A function of one parameter that is neither asynchronous nor a generator. -/
def plain (name : Option String) (parameter : String) (arrow : Bool) : Signature :=
  ⟨name, [parameter], arrow, false, false⟩

/-- What a plain function is compiled to is found in its body. -/
theorem compile_of_plain {source : String} {name : Option String} {parameter : String}
    {arrow : Bool} {b : Body} {e : Expr}
    (read : Compilation.parseInside source =
      .ok [.expression (.function (plain name parameter arrow) b)])
    (body : FilterFunction.returned b = FilterFunction.condition e) (supply : NameSupply) :
    { compile source supply with program := none } =
      Compilation.finish (FilterFunction.condition e) supply none := by
  have found : FilterFunction.ofExpr (.function (plain name parameter arrow) b) =
      FilterFunction.condition e := body
  rw [compile_of_parseInside read, compileExpr, found, finish_program _ _ none]

/-- A text in parentheses that is read as an operand. -/
theorem parseInside_of_primary {source : String} {e : Expr}
    (begins : Begins (source.toList ++ [')'])) (mark : unaryMark (source.toList ++ [')']) = none)
    (read : primary expr block (source.toList ++ [')']) = some (e, [')'])) :
    Compilation.parseInside source = .ok [.expression e] := by
  have closer : Script.Ends [')'] := ends_cons [] rfl
  exact parseInside_of_some (expr_of_primary (unaryMark_open _)
    (primary_parentheses begins (expr_of_primary mark read closer.toSilent) rfl) silent_nil)

/-! ## The forms one by one -/

section Forms

variable {e : Expr} {v : String} (regular : e.isRegular = true) (parameter : isIdentifier v = true)
include regular parameter

theorem parseInside_arrow :
    Compilation.parseInside ("(" ++ v ++ ") => " ++ e.text) =
      .ok [.expression (.function (plain none v true) (.expression e.reread))] := by
  have text : (Expr.function (plain none v true) (.expression e)).text =
      "(" ++ v ++ ") => " ++ e.text := by
    rw [← String.toList_inj]
    simp [Signature.text, plain, String.intercalate_singleton]
  have signature : (plain none v true).isRegular = true := by
    simp [plain, Signature.isRegular, parameter]
  rw [← text]
  exact parseInside_text (isRegular_function signature rfl regular)

/-- The printed text of a function with a block that returns an expression. -/
theorem parseInside_block {name : Option String} {arrow : Bool}
    (named : name.all isIdentifier = true) (fits : arrow = true → name = none) :
    Compilation.parseInside
        (Expr.function (plain name v arrow) (.block [.result (some e)])).text =
      .ok [.expression (.function (plain name v arrow) (.block [.result (some e.reread)]))] := by
  have signature : (plain name v arrow).isRegular = true := by
    cases arrow with
    | true => simp [plain, Signature.isRegular, parameter, fits rfl]
    | false => simp [plain, Signature.isRegular, parameter, named]
  refine parseInside_text (isRegular_function signature (by simp [Body.isBlock]) ?_)
  simpa [Body.every, Statement.everyAll, Statement.every, Statement.isRegularNode] using regular

theorem parseInside_returning :
    Compilation.parseInside ("(" ++ v ++ ") => \x7b return " ++ e.text ++ "; \x7d") =
      .ok [.expression (.function (plain none v true) (.block [.result (some e.reread)]))] := by
  have text : (Expr.function (plain none v true) (.block [.result (some e)])).text =
      "(" ++ v ++ ") => \x7b return " ++ e.text ++ "; \x7d" := by
    rw [← String.toList_inj]
    simp [braced, Signature.text, plain, String.intercalate_singleton]
  rw [← text]
  exact parseInside_block regular parameter rfl fun _ => rfl

theorem parseInside_named {g : String} (name : isIdentifier g = true) :
    Compilation.parseInside
        ("function " ++ g ++ "(" ++ v ++ ") \x7b return " ++ e.text ++ "; \x7d") =
      .ok [.expression
        (.function (plain (some g) v false) (.block [.result (some e.reread)]))] := by
  have text : (Expr.function (plain (some g) v false) (.block [.result (some e)])).text =
      "function " ++ g ++ "(" ++ v ++ ") \x7b return " ++ e.text ++ "; \x7d" := by
    rw [← String.toList_inj]
    simp [braced, Signature.text, plain, String.intercalate_singleton]
  rw [← text]
  exact parseInside_block regular parameter name fun none_named => by cases none_named

theorem parseInside_typed {t : String} (type : isName t = true) :
    Compilation.parseInside ("(" ++ v ++ ": " ++ t ++ ") => " ++ e.text) =
      .ok [.expression (.function (plain none v true) (.expression e.reread))] := by
  have closer : Script.Ends [')'] := ends_cons [] rfl
  have text : ("(" ++ v ++ ": " ++ t ++ ") => " ++ e.text).toList ++ [')'] =
      '(' :: ((v ++ ": " ++ t).toList ++ ')' :: ' ' :: '=' :: '>' :: ' ' ::
        (e.text.toList ++ [')'])) := by simp
  have signature : (plain none v true).isRegular = true := by
    simp [plain, Signature.isRegular, parameter]
  have read := primary_arrow_listing rfl signature (readsBody_expression (e.reads regular))
    (listed_typed parameter type) closer
  apply parseInside_of_primary <;> rw [text]
  · exact begins_cons _ rfl
  · exact unaryMark_open _
  · exact read

theorem parseInside_open :
    Compilation.parseInside ("function (" ++ v ++ ") \x7b return " ++ e.text ++ " \x7d") =
      .ok [.expression (.function (plain none v false) (.block [.result (some e.reread)]))] := by
  let body := '\x7b' :: ' ' :: ("return".toList ++ ' ' :: (e.text.toList ++ ' ' :: '\x7d' :: [')']))
  let called := ' ' :: '(' :: (v.toList ++ ')' :: ' ' :: body)
  have text : ("function (" ++ v ++ ") \x7b return " ++ e.text ++ " \x7d").toList ++ [')'] =
      "function".toList ++ called := by simp [called, body]
  have opening : skipGaps called = '(' :: (v.toList ++ ')' :: ' ' :: body) :=
    (skipGaps_blank _).trans (skipGaps_cons _ rfl (by decide))
  have star : optional (sign '*') called = some (none, called) :=
    optional_of_none (sign_of_skipGaps opening (by decide))
  have anonymous : optional (afterGaps identifier) called = some (none, called) := by
    apply optional_of_none
    rw [afterGaps_apply, opening, identifier_cons_eq_none _ rfl]
  have parameters : afterGaps (listed Grammar.parameter) called = some ([v], ' ' :: body) := by
    have read := @afterGaps_parameters [v] (by simp [parameter]) (' ' :: body)
    rw [String.intercalate_singleton] at read
    exact (afterGaps_blank _ _).trans read
  have statements : afterGaps block (' ' :: body) =
      some ([.result (some e.reread)], [')']) := by
    have noGap : gap body = none := gap_cons_eq_none _ rfl (by decide)
    rw [afterGaps_blank, afterGaps_apply, skipGaps_of_none noGap]
    exact block_result (e.reads regular) [')']
  have boundary : Boundary called := boundary_blank _
  have read : primary expr block ("function".toList ++ called) =
      some (.function (plain none v false) (.block [.result (some e.reread)]), [')']) :=
    primary_word (s := plain none v false) rfl boundary star anonymous parameters statements
  apply parseInside_of_primary <;> rw [text]
  · exact begins_name (by decide) boundary (by decide)
  · exact unaryMark_name rfl _
  · exact read

end Forms

/-- Each of the forms is read as a plain function with the expression in its body. -/
theorem compile_of_mem_forms {e : Expr} (wellFormed : e.isWellFormed = true) {v t g : String}
    (parameter : isIdentifier v = true) (type : isName t = true) (name : isIdentifier g = true)
    (supply : NameSupply) :
    ∀ source ∈ forms v t g e.text, { compile source supply with program := none } =
      Compilation.finish (FilterFunction.condition e) supply none := by
  have regular := Expr.isRegular_of_isWellFormed wellFormed
  have same := Expr.reread_of_isWellFormed wellFormed
  have arrow := parseInside_arrow regular parameter
  have typed := parseInside_typed regular parameter type
  have returning := parseInside_returning regular parameter
  have opened := parseInside_open regular parameter
  have named := parseInside_named regular parameter name
  rw [same] at arrow typed returning opened named
  simp only [forms, List.forall_mem_cons, List.not_mem_nil, false_imp_iff, implies_true, and_true]
  exact ⟨compile_of_plain arrow rfl supply, compile_of_plain typed rfl supply,
    compile_of_plain returning rfl supply, compile_of_plain opened rfl supply,
    compile_of_plain named rfl supply⟩

/-- **All forms of a function are compiled alike.**  If the expression in the body is no
condition, that is the error and no name is bound.  Otherwise the result, the names that are
left and the bindings are those of lowering the condition. -/
theorem compile_forms {e : Expr} (wellFormed : e.isWellFormed = true) {v t g : String}
    (parameter : isIdentifier v = true) (type : isName t = true) (name : isIdentifier g = true)
    (supply : NameSupply) :
    ∀ source ∈ forms v t g e.text, { compile source supply with program := none } =
      match FilterFunction.condition e with
      | .error misfit => ⟨.error (.misfit misfit), supply, none, []⟩
      | .ok found =>
          ⟨(Lowering.lower found supply).1.mapError .unsupported,
            (Lowering.lower found supply).2.supply, none,
            (Lowering.lower found supply).2.bound⟩ := by
  intro source member
  rw [compile_of_mem_forms wellFormed parameter type name supply source member]
  cases FilterFunction.condition e with
  | error misfit => rfl
  | ok found => rfl

section Samples

open Builder

/-- A condition on two columns. -/
def sampleCase : Expr :=
  either (greater (field "a") (constant (.float 2.5))) (equals (field "b") (constant .null))

theorem compile_forms_sample :
    [ "(x) => (x.a > 2.5) || (x.b === null)",
      "(x: Row) => (x.a > 2.5) || (x.b === null)",
      "(x) => \x7b return (x.a > 2.5) || (x.b === null); \x7d",
      "function (x) \x7b return (x.a > 2.5) || (x.b === null) \x7d",
      "function keep(x) \x7b return (x.a > 2.5) || (x.b === null); \x7d" ].map
        (fun source => { compile source .fresh with program := none }) =
      List.replicate 5
        ⟨.ok (.compound
            [ .comparison (.field ⟨"a", none⟩) .greater (.placeholder ⟨"@p0", .float 2.5⟩),
              .connective .or,
              .comparison (.field ⟨"b", none⟩) .equal (.placeholder ⟨"@p1", .null⟩) ]),
          ⟨"@", 2⟩, none, [⟨"@p0", .float 2.5⟩, ⟨"@p1", .null⟩]⟩ := by
  have wellFormed : sampleCase.isWellFormed = true := by decide +kernel
  have text : sampleCase.text = "(x.a > 2.5) || (x.b === null)" := by decide +kernel
  have alike := @compile_forms sampleCase wellFormed "x" "Row" "keep" rfl rfl rfl .fresh
  rw [text] at alike
  exact List.map_eq_replicate_iff.mpr alike

end Samples

end RowFilter
