import Espalier.Syntax.Walk
import Espalier.Macro.Basic
import Espalier.Diagnostic

/-!
# Splicing a module into a template

A dialect wraps a user's module in a template that holds a *paste marker*, a statement made
of one name (`__paste_here__` by default). `spliceStatements` replaces every marker, at any
depth, by the user's statements.

`spliceDialect` also keeps at the top of the result what has to stay at the top of a module:

  docstring ++ `__all__` assignments ++ template macro-imports ++ body macro-imports
    ++ spliced template

Macro-imports are taken out of both sides at any depth, in source order. Every top-level
template statement is moved to the location of the first body statement, and its nodes
without a location take that one too.
-/

namespace Espalier

mutual
/-- Replaces each statement that `p` selects, at any depth, by `r`, and returns the selected
statements in source order. A selected statement is not searched further. -/
def Stmt.replaceWhere (p : Stmt → Bool) (r : List Stmt) : Stmt → List Stmt × List Stmt
  | .mk k l =>
    if p (.mk k l) then (r, [.mk k l]) else
    match k with
    | .withBlock i a b =>
        let (b', f) := Stmt.replaceWhereList p r b
        ([.mk (.withBlock i a b') l], f)
    | .functionDef n ps b ds =>
        let (b', f) := Stmt.replaceWhereList p r b
        ([.mk (.functionDef n ps b' ds) l], f)
    | .classDef n b ds =>
        let (b', f) := Stmt.replaceWhereList p r b
        ([.mk (.classDef n b' ds) l], f)
    | .ifElse t b o =>
        let (b', f) := Stmt.replaceWhereList p r b
        let (o', g) := Stmt.replaceWhereList p r o
        ([.mk (.ifElse t b' o') l], f ++ g)
    | .whileLoop t b =>
        let (b', f) := Stmt.replaceWhereList p r b
        ([.mk (.whileLoop t b') l], f)
    | .forLoop x i b =>
        let (b', f) := Stmt.replaceWhereList p r b
        ([.mk (.forLoop x i b') l], f)
    | .done b =>
        let (b', f) := Stmt.replaceWhereList p r b
        ([.mk (.done b') l], f)
    | k => ([.mk k l], [])

/-- `Stmt.replaceWhere` over a statement list. -/
def Stmt.replaceWhereList (p : Stmt → Bool) (r : List Stmt) : List Stmt → List Stmt × List Stmt
  | [] => ([], [])
  | s :: ss =>
      let (a, f) := s.replaceWhere p r
      let (b, g) := Stmt.replaceWhereList p r ss
      (a ++ b, f ++ g)
end

/-- The default paste marker. -/
def pasteTag : String := "__paste_here__"

/-- Whether a statement is the paste marker `tag`. -/
def Stmt.isPasteMarker (tag : String) : Stmt → Bool
  | .mk (.expr (.mk (.name n) _)) _ => n == tag
  | _ => false

/-- The error for an empty module body. -/
def emptyBodyError : Error := .plain .importError "expected at least one statement in the module body"

/-- Replaces every paste marker of `template`, at any depth, by `body`. An empty template gives
`body`; otherwise the template must hold a marker. -/
def spliceStatements (body template : List Stmt) (tag : String) : Except Error (List Stmt) :=
  if body.isEmpty then .error emptyBodyError
  else if template.isEmpty then .ok body
  else
    let (out, pasted) := Stmt.replaceWhereList (Stmt.isPasteMarker tag) body template
    if pasted.isEmpty then .error (.plain .internalError ("splice template has no '" ++ tag ++ "' marker"))
    else .ok out

/-- Whether a statement is a string constant, which at the head of a module is its docstring. -/
def Stmt.isDocstring : Stmt → Bool
  | .mk (.expr (.mk (.const (.str _)) _)) _ => true
  | _ => false

/-- Whether a statement assigns the module's export list. -/
def Stmt.isExportList : Stmt → Bool
  | .mk (.assign (.mk (.name n) _) _) _ => n == "__all__"
  | _ => false

/-- Takes the macro-imports out of a statement list, at any depth. -/
def takeMacroImports (ss : List Stmt) : List Stmt × List Stmt :=
  Stmt.replaceWhereList (Stmt.isMagicImport macrosMagic) [] ss

/-- Splices a module body into a dialect template, keeping the module header on top. -/
def spliceDialect (body template : List Stmt) (tag : String) : Except Error (List Stmt) :=
  match body with
  | [] => .error emptyBodyError
  | first :: rest =>
    if template.isEmpty then .ok body
    else
      let anchor := first.loc
      let template := template.map fun s => (Stmt.mk s.kind anchor).fillLocs anchor
      let (doc, body) := if first.isDocstring then ([first], rest) else ([], first :: rest)
      let (exports, body) := body.partition Stmt.isExportList
      let (template, templateImports) := takeMacroImports template
      let (body, bodyImports) := takeMacroImports body
      (doc ++ exports ++ templateImports ++ bodyImports ++ ·) <$> spliceStatements body template tag

end Espalier
