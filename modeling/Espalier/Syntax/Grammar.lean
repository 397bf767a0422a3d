import Espalier.Peg.Match

/-!
# The surface grammar

The grammar of one logical line, as data for the matcher of `Espalier.Peg`. Block
structure is not here: the reader rebuilds it from the indentation of logical lines.

`Rule` lists the rules that can appear in the match forest and in messages, in the order
messages list them. Rules that never appear (the blank, the alternatives of a compound
header, of a simple statement and of an atom, the forms of string literals and the
character classes) are plain expressions inlined where they are used.
-/

namespace Espalier.Syntax

/-- The named rules of the surface grammar, in message order. -/
inductive Rule where
  | eoi | line | decorator
  | defHeader | classHeader | withHeader | ifHeader | elifHeader | elseHeader | whileHeader
  | forHeader | paramList | simpleStmts
  | importFrom | importSource | relativeDots | dottedName | importNames | importAlias
  | importStmt | returnStmt | passStmt | breakStmt | continueStmt | assertStmt
  | assignStmt | assignOp | augAssignStmt | augOp | exprStmt | exprList
  | expr | lambdaExpr | ternary | orExpr | andExpr | notExpr | comparison | compOp | arith
  | addOp | term | mulOp | factor | unaryOp | postfixExpr | callArgs | index | attr
  | parenExpr | tupleDisplay | listDisplay | number | string | trueLit | falseLit | noneLit
  | identifier | keyword
  | kwAnd | kwAs | kwAssert | kwBreak | kwClass | kwContinue | kwDef | kwElif | kwElse
  | kwFor | kwFrom | kwIf | kwImport | kwIn | kwLambda | kwNot | kwOr | kwPass | kwReturn
  | kwWhile | kwWith
deriving DecidableEq, Repr, Inhabited

namespace Rule

/-- The rule's name as messages spell it. -/
def name : Rule → String
  | .eoi => "EOI" | .line => "line" | .decorator => "decorator"
  | .defHeader => "def_header" | .classHeader => "class_header" | .withHeader => "with_header"
  | .ifHeader => "if_header" | .elifHeader => "elif_header" | .elseHeader => "else_header"
  | .whileHeader => "while_header" | .forHeader => "for_header" | .paramList => "param_list"
  | .simpleStmts => "simple_stmts" | .importFrom => "import_from"
  | .importSource => "import_source" | .relativeDots => "relative_dots"
  | .dottedName => "dotted_name" | .importNames => "import_names"
  | .importAlias => "import_alias" | .importStmt => "import_stmt"
  | .returnStmt => "return_stmt" | .passStmt => "pass_stmt" | .breakStmt => "break_stmt"
  | .continueStmt => "continue_stmt" | .assertStmt => "assert_stmt"
  | .assignStmt => "assign_stmt" | .assignOp => "assign_op"
  | .augAssignStmt => "aug_assign_stmt" | .augOp => "aug_op" | .exprStmt => "expr_stmt"
  | .exprList => "expr_list" | .expr => "expr" | .lambdaExpr => "lambda_expr"
  | .ternary => "ternary" | .orExpr => "or_expr" | .andExpr => "and_expr"
  | .notExpr => "not_expr" | .comparison => "comparison" | .compOp => "comp_op"
  | .arith => "arith" | .addOp => "add_op" | .term => "term" | .mulOp => "mul_op"
  | .factor => "factor" | .unaryOp => "unary_op" | .postfixExpr => "postfix"
  | .callArgs => "call_args" | .index => "index" | .attr => "attr"
  | .parenExpr => "paren_expr" | .tupleDisplay => "tuple_display"
  | .listDisplay => "list_display" | .number => "number" | .string => "string"
  | .trueLit => "true_lit" | .falseLit => "false_lit" | .noneLit => "none_lit"
  | .identifier => "identifier" | .keyword => "keyword"
  | .kwAnd => "kw_and" | .kwAs => "kw_as" | .kwAssert => "kw_assert" | .kwBreak => "kw_break"
  | .kwClass => "kw_class" | .kwContinue => "kw_continue" | .kwDef => "kw_def"
  | .kwElif => "kw_elif" | .kwElse => "kw_else" | .kwFor => "kw_for" | .kwFrom => "kw_from"
  | .kwIf => "kw_if" | .kwImport => "kw_import" | .kwIn => "kw_in" | .kwLambda => "kw_lambda"
  | .kwNot => "kw_not" | .kwOr => "kw_or" | .kwPass => "kw_pass" | .kwReturn => "kw_return"
  | .kwWhile => "kw_while" | .kwWith => "kw_with"

/-- The position of a rule in message order. -/
def rank (r : Rule) : Nat := r.ctorIdx

/-- The keyword tokens: matched, but carrying nothing the reader needs. -/
def isKeyword : Rule → Bool
  | .kwAnd | .kwAs | .kwAssert | .kwBreak | .kwClass | .kwContinue | .kwDef | .kwElif
  | .kwElse | .kwFor | .kwFrom | .kwIf | .kwImport | .kwIn | .kwLambda | .kwNot | .kwOr
  | .kwPass | .kwReturn | .kwWhile | .kwWith => true
  | _ => false

/-- The atomic rules: no blanks between their parts. -/
def isAtomic : Rule → Bool
  | .relativeDots | .dottedName | .assignOp | .augOp | .compOp | .addOp | .mulOp | .unaryOp
  | .number | .string | .trueLit | .falseLit | .noneLit | .identifier | .keyword => true
  | r => r.isKeyword

end Rule

open Peg PExpr

/-- Shorthand for literal text. -/
abbrev t (s : String) : PExpr Rule := PExpr.str s

/-- Shorthand for a use of a rule. -/
abbrev r (x : Rule) : PExpr Rule := .call x

/-- A line break: line feed, carriage return and line feed, or carriage return. -/
def newline : PExpr Rule := alts [t "\n", t "\r\n", t "\r"]

/-- What the grammar skips between tokens: blanks, tabs, line breaks and backslash
continuations. -/
def blank : PExpr Rule := alts [t " ", t "\t", newline, .seq (t "\\") newline]

/-- ASCII letters. -/
def asciiAlpha : PExpr Rule := .alt (.range 'a' 'z') (.range 'A' 'Z')

/-- ASCII letters and digits. -/
def asciiAlphanumeric : PExpr Rule := alts [.range 'a' 'z', .range 'A' 'Z', .range '0' '9']

/-- A character that may continue an identifier. -/
def identChar : PExpr Rule := .alt asciiAlphanumeric (t "_")

/-- A word not followed by an identifier character. -/
def word (w : String) : PExpr Rule := .seq (t w) (.notAhead identChar)

/-- The headers of compound statements. -/
def compoundHeader : PExpr Rule :=
  alts [r .defHeader, r .classHeader, r .withHeader, r .ifHeader, r .elifHeader,
    r .elseHeader, r .whileHeader, r .forHeader]

/-- The simple statements, tried in order. -/
def simpleStmt : PExpr Rule :=
  alts [r .importFrom, r .importStmt, r .returnStmt, r .passStmt, r .breakStmt,
    r .continueStmt, r .assertStmt, r .assignStmt, r .augAssignStmt, r .exprStmt]

/-- The atoms of expressions, tried in order. -/
def atom : PExpr Rule :=
  alts [r .parenExpr, r .tupleDisplay, r .listDisplay, r .number, r .string, r .trueLit,
    r .falseLit, r .noneLit, r .identifier]

/-- A string body character: an escape pair or any character. -/
def stringChar : PExpr Rule := .alt (.seq (t "\\") .any) .any

/-- A triple-quoted string delimited by `q`. -/
def tripleString (q : String) : PExpr Rule :=
  let d := t (q ++ q ++ q)
  seqs [d, .star (.seq (.notAhead d) stringChar), d]

/-- A one-line string delimited by `q`. -/
def lineString (q : String) : PExpr Rule :=
  seqs [t q, .star (.seq (.notAhead (.alt (t q) newline)) stringChar), t q]

/-- A comma-separated list of expressions with an optional trailing comma. -/
def commaExprs : PExpr Rule :=
  seqs [r .expr, .star (.seq (t ",") (r .expr)), .opt (t ",")]

/-- A header's optional inline body. -/
def inlineBody : PExpr Rule := .opt (r .simpleStmts)

/-- The words no identifier may be. -/
def keywords : List String :=
  ["and", "assert", "as", "break", "class", "continue", "def", "elif", "else", "for", "from",
   "if", "import", "in", "lambda", "not", "or", "pass", "return", "while", "with", "True",
   "False", "None"]

/-- What each rule matches. -/
def Rule.body : Rule → PExpr Rule
  | .eoi => .eoi
  | .line => seqs [.soi, alts [r .decorator, compoundHeader, r .simpleStmts], r .eoi]
  | .decorator => .seq (t "@") (r .expr)
  | .defHeader =>
      seqs [r .kwDef, r .identifier, t "(", .opt (r .paramList), t ")", t ":", inlineBody]
  | .classHeader =>
      seqs [r .kwClass, r .identifier, .opt (.seq (t "(") (t ")")), t ":", inlineBody]
  | .withHeader =>
      seqs [r .kwWith, r .expr, .opt (.seq (r .kwAs) (r .identifier)), t ":", inlineBody]
  | .ifHeader => seqs [r .kwIf, r .expr, t ":", inlineBody]
  | .elifHeader => seqs [r .kwElif, r .expr, t ":", inlineBody]
  | .elseHeader => seqs [r .kwElse, t ":", inlineBody]
  | .whileHeader => seqs [r .kwWhile, r .expr, t ":", inlineBody]
  | .forHeader => seqs [r .kwFor, r .identifier, r .kwIn, r .expr, t ":", inlineBody]
  | .paramList => seqs [r .identifier, .star (.seq (t ",") (r .identifier)), .opt (t ",")]
  | .simpleStmts => seqs [simpleStmt, .star (.seq (t ";") simpleStmt), .opt (t ";")]
  | .importFrom =>
      seqs [r .kwFrom, r .importSource, r .kwImport,
        .alt (seqs [t "(", r .importNames, t ")"]) (r .importNames)]
  | .importSource => .alt (.seq (r .relativeDots) (.opt (r .dottedName))) (r .dottedName)
  | .relativeDots => .plus (t ".")
  | .dottedName => .seq (r .identifier) (.star (.seq (t ".") (r .identifier)))
  | .importNames => seqs [r .importAlias, .star (.seq (t ",") (r .importAlias)), .opt (t ",")]
  | .importAlias => .seq (r .identifier) (.opt (.seq (r .kwAs) (r .identifier)))
  | .importStmt => seqs [r .kwImport, r .dottedName, .opt (.seq (r .kwAs) (r .identifier))]
  | .returnStmt => .seq (r .kwReturn) (.opt (r .exprList))
  | .passStmt => r .kwPass
  | .breakStmt => r .kwBreak
  | .continueStmt => r .kwContinue
  | .assertStmt => seqs [r .kwAssert, r .expr, .opt (.seq (t ",") (r .expr))]
  | .assignStmt => seqs [r .postfixExpr, r .assignOp, r .exprList]
  | .assignOp => .seq (t "=") (.notAhead (t "="))
  | .augAssignStmt => seqs [r .postfixExpr, r .augOp, r .expr]
  | .augOp => .seq (alts [t "+", t "-", t "*", t "//", t "/", t "%"]) (t "=")
  | .exprStmt => r .exprList
  | .exprList => commaExprs
  | .expr => .alt (r .lambdaExpr) (r .ternary)
  | .lambdaExpr => seqs [r .kwLambda, .opt (r .paramList), t ":", r .expr]
  | .ternary => .seq (r .orExpr) (.opt (seqs [r .kwIf, r .orExpr, r .kwElse, r .expr]))
  | .orExpr => .seq (r .andExpr) (.star (.seq (r .kwOr) (r .andExpr)))
  | .andExpr => .seq (r .notExpr) (.star (.seq (r .kwAnd) (r .notExpr)))
  | .notExpr => .alt (.seq (r .kwNot) (r .notExpr)) (r .comparison)
  | .comparison => .seq (r .arith) (.star (.seq (r .compOp) (r .arith)))
  | .compOp => alts [t "==", t "!=", t "<=", t ">=", t "<", t ">"]
  | .arith => .seq (r .term) (.star (.seq (r .addOp) (r .term)))
  | .addOp => .alt (t "+") (t "-")
  | .term => .seq (r .factor) (.star (.seq (r .mulOp) (r .factor)))
  | .mulOp => alts [t "//", t "*", t "/", t "%"]
  | .factor => .alt (.seq (r .unaryOp) (r .factor)) (r .postfixExpr)
  | .unaryOp => .alt (t "-") (t "+")
  | .postfixExpr => .seq atom (.star (alts [r .callArgs, r .index, r .attr]))
  | .callArgs => seqs [t "(", .opt commaExprs, t ")"]
  | .index => seqs [t "[", r .exprList, t "]"]
  | .attr => .seq (t ".") (r .identifier)
  | .parenExpr => seqs [t "(", r .expr, t ")"]
  | .tupleDisplay => seqs [t "(", .opt commaExprs, t ")"]
  | .listDisplay => seqs [t "[", .opt commaExprs, t "]"]
  | .number => .seq (.plus (.range '0' '9')) (.notAhead identChar)
  | .string => alts [tripleString "\"", tripleString "'", lineString "\"", lineString "'"]
  | .trueLit => word "True"
  | .falseLit => word "False"
  | .noneLit => word "None"
  | .identifier => seqs [.notAhead (r .keyword), asciiAlpha.alt (t "_"), .star identChar]
  | .keyword => alts (keywords.map word)
  | .kwAnd => word "and" | .kwAs => word "as" | .kwAssert => word "assert"
  | .kwBreak => word "break" | .kwClass => word "class" | .kwContinue => word "continue"
  | .kwDef => word "def" | .kwElif => word "elif" | .kwElse => word "else"
  | .kwFor => word "for" | .kwFrom => word "from" | .kwIf => word "if"
  | .kwImport => word "import" | .kwIn => word "in" | .kwLambda => word "lambda"
  | .kwNot => word "not" | .kwOr => word "or" | .kwPass => word "pass"
  | .kwReturn => word "return" | .kwWhile => word "while" | .kwWith => word "with"

/-- The surface grammar of logical lines. -/
def grammar : Grammar Rule where
  body := Rule.body
  atomic := Rule.isAtomic
  blank := blank
  name := Rule.name
  rank := Rule.rank

end Espalier.Syntax
