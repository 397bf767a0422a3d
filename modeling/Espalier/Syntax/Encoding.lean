import Espalier.Syntax.Tree
import Espalier.Json

/-!
# Trees as JSON

Trees are written as JSON with every variant tagged by its constructor name: a node is an
object with its `kind` and its `loc` (or `null`); a kind with fields is an object with one
member named after the kind, holding its fields in declaration order; a kind with one
unnamed payload holds that payload directly; a kind without payload is its bare name.
The same form is read back by `Expr.ofJson?` and `Stmt.ofJson?`.
-/

namespace Espalier

/-- A location as JSON. -/
def Loc.toJson (l : Loc) : Json := .obj [("line", .num l.line), ("col", .num l.col)]

/-- A constant as JSON. -/
def Constant.toJson : Constant → Json
  | .none => .str "None"
  | .bool b => .obj [("Bool", .bool b)]
  | .int n => .obj [("Int", .num n)]
  | .str s => .obj [("Str", .str s)]

/-- An optional string as JSON. -/
def optStr (s : Option String) : Json := Json.opt .str s

/-- A list of strings as JSON. -/
def strs (ss : List String) : Json := .arr (ss.map .str)

mutual
/-- An expression as JSON. -/
def Expr.toJson : Expr → Json
  | .mk k l => .obj [("kind", ExprKind.toJson k), ("loc", Json.opt Loc.toJson l)]

/-- An expression kind as JSON. -/
def ExprKind.toJson : ExprKind → Json
  | .name id => .obj [("Name", .str id)]
  | .const c => .obj [("Constant", c.toJson)]
  | .binOp op l r =>
      .obj [("BinOp", .obj [("op", .str op.tag), ("left", l.toJson), ("right", r.toJson)])]
  | .unaryOp op e => .obj [("UnaryOp", .obj [("op", .str op.tag), ("operand", e.toJson)])]
  | .call f args => .obj [("Call", .obj [("func", f.toJson), ("args", .arr (Expr.listToJson args))])]
  | .attribute v a => .obj [("Attribute", .obj [("value", v.toJson), ("attr", .str a)])]
  | .subscript v i => .obj [("Subscript", .obj [("value", v.toJson), ("index", i.toJson)])]
  | .list items => .obj [("List", .arr (Expr.listToJson items))]
  | .tuple items => .obj [("Tuple", .arr (Expr.listToJson items))]
  | .lambda ps b => .obj [("Lambda", .obj [("params", strs ps), ("body", b.toJson)])]
  | .ifExp t b o =>
      .obj [("IfExp", .obj [("test", t.toJson), ("body", b.toJson), ("orelse", o.toJson)])]
  | .done e => .obj [("Done", e.toJson)]

/-- A list of expressions as JSON elements. -/
def Expr.listToJson : List Expr → List Json
  | [] => []
  | e :: es => e.toJson :: Expr.listToJson es
end

/-- An optional expression as JSON. -/
def Expr.optToJson : Option Expr → Json
  | some e => e.toJson
  | none => .null

/-- An import alias as JSON. -/
def Alias.toJson (a : Alias) : Json := .obj [("name", .str a.name), ("asname", optStr a.asname)]

mutual
/-- A statement as JSON. -/
def Stmt.toJson : Stmt → Json
  | .mk k l => .obj [("kind", StmtKind.toJson k), ("loc", Json.opt Loc.toJson l)]

/-- A statement kind as JSON. -/
def StmtKind.toJson : StmtKind → Json
  | .expr e => .obj [("Expr", e.toJson)]
  | .assign t v => .obj [("Assign", .obj [("target", t.toJson), ("value", v.toJson)])]
  | .importModule m a => .obj [("Import", .obj [("module", .str m), ("asname", optStr a)])]
  | .importFrom m lvl ns =>
      .obj [("ImportFrom", .obj [("module", optStr m), ("level", .num lvl),
        ("names", .arr (ns.map Alias.toJson))])]
  | .withBlock i a b =>
      .obj [("With", .obj [("item", i.toJson), ("alias", optStr a),
        ("body", .arr (Stmt.listToJson b))])]
  | .functionDef n ps b ds =>
      .obj [("FunctionDef", .obj [("name", .str n), ("params", strs ps),
        ("body", .arr (Stmt.listToJson b)), ("decorators", .arr (Expr.listToJson ds))])]
  | .classDef n b ds =>
      .obj [("ClassDef", .obj [("name", .str n), ("body", .arr (Stmt.listToJson b)),
        ("decorators", .arr (Expr.listToJson ds))])]
  | .ret v => .obj [("Return", Expr.optToJson v)]
  | .ifElse t b o =>
      .obj [("If", .obj [("test", t.toJson), ("body", .arr (Stmt.listToJson b)),
        ("orelse", .arr (Stmt.listToJson o))])]
  | .whileLoop t b => .obj [("While", .obj [("test", t.toJson), ("body", .arr (Stmt.listToJson b))])]
  | .forLoop x i b =>
      .obj [("For", .obj [("target", .str x), ("iter", i.toJson), ("body", .arr (Stmt.listToJson b))])]
  | .assertion t m => .obj [("Assert", .obj [("test", t.toJson), ("msg", Expr.optToJson m)])]
  | .pass => .str "Pass"
  | .breakLoop => .str "Break"
  | .continueLoop => .str "Continue"
  | .done ss => .obj [("Done", .arr (Stmt.listToJson ss))]

/-- A list of statements as JSON elements. -/
def Stmt.listToJson : List Stmt → List Json
  | [] => []
  | s :: ss => s.toJson :: Stmt.listToJson ss
end

/-- A module as JSON. -/
def Module.toJson (m : Module) : Json := .obj [("body", .arr (Stmt.listToJson m.body))]

/-! ## Reading trees back

A tree is read back only from the form its writer could have produced, with the freedom a
derived decoder allows:

* a record (a node, a location, an alias, a kind with fields) is an object that gives each
  field at most once, in any order, among members it skips; or an array that gives every
  field, in order. An optional field may be left out of an object, and is absent when `null`;
* a kind without payload is its bare name, or an object whose one member is the name and
  holds `null`; any other kind is an object with the name as its only member;
* a line or column is a whole number of 32 bits, a relative-import level one of 64 bits, and
  an integer constant a signed one of 64 bits; a number with a fraction or an exponent is
  none of these, and a string with an unpaired surrogate is not a name or a text.
-/

namespace Json

/-- A string member, for requests read leniently. -/
def getStr? (j : Json) (k : String) : Option String :=
  match j.get? k with
  | some (.str s) => some s
  | _ => none

/-- A non-negative integer member, for requests read leniently. -/
def getNat? (j : Json) (k : String) : Option Nat :=
  match j.get? k with
  | some (.num n) => if n ≥ 0 then some n.toNat else none
  | _ => none

/-- A member holding a list of strings, for requests read leniently. -/
def getStrs? (j : Json) (k : String) : Option (List String) :=
  match j.get? k with
  | some (.arr items) => items.mapM (fun | .str s => some s | _ => none)
  | _ => none

/-- A member holding an array, for requests read leniently. -/
def getArr? (j : Json) (k : String) : Option (List Json) :=
  match j.get? k with
  | some (.arr items) => some items
  | _ => none

/-- The fields of a record named by `names`, in that order: from an object that gives no
field twice, each field's member if it has one; from an array of exactly one element per
field, the elements. -/
def fields? (j : Json) (names : List String) : Option (List (Option Json)) :=
  match j with
  | .obj members =>
      let given := (members.map (·.1)).filter names.contains
      if given.eraseDups.length == given.length then some (names.map fun n => List.lookup n members) else none
  | .arr items => if items.length == names.length then some (items.map some) else none
  | _ => none

/-- A string of characters. -/
def asStr? : Json → Option String
  | .str s => some s
  | _ => none

/-- A Boolean. -/
def asBool? : Json → Option Bool
  | .bool b => some b
  | _ => none

/-- A whole number below `bound`. -/
def asNatBelow? (bound : Nat) : Json → Option Nat
  | .num n => if 0 ≤ n ∧ n < bound then some n.toNat else none
  | _ => none

/-- A whole number of 64 bits, signed. -/
def asInt64? : Json → Option Int
  | .num n => if -Int.pow 2 63 ≤ n ∧ n < Int.pow 2 63 then some n else none
  | _ => none

/-- An array, each element read by `f`. -/
def asList? {α : Type} (f : Json → Option α) : Json → Option (List α)
  | .arr items => items.mapM f
  | _ => none

/-- A field that must be given, read by `f`. -/
def required? {α : Type} (f : Json → Option α) : Option Json → Option α
  | some j => f j
  | none => none

/-- A field that may be left out or `null`, read by `f` otherwise. -/
def optional? {α : Type} (f : Json → Option α) : Option Json → Option (Option α)
  | none | some .null => some none
  | some j => (f j).map some

/-- The elements of a field that must be an array. -/
def elements? : Option Json → Option (List Json)
  | some (.arr items) => some items
  | _ => none

/-- The name of a variant and its payload: none for a bare name. -/
def variant? : Json → Option (String × Option Json)
  | .str s => some (s, none)
  | .obj [(k, v)] => some (k, some v)
  | _ => none

/-- Whether a variant's payload is that of a kind without payload: none, or `null`. -/
def isUnit : Option Json → Bool
  | none | some .null => true
  | _ => false

end Json

open Json

/-- A location read back. -/
def Loc.ofJson? (j : Json) : Option Loc := do
  let [line, col] ← j.fields? ["line", "col"] | none
  pure ⟨← required? (asNatBelow? (Nat.pow 2 32)) line,
    ← required? (asNatBelow? (Nat.pow 2 32)) col⟩

/-- A constant read back. -/
def Constant.ofJson? (j : Json) : Option Constant := do
  let (tag, payload) ← j.variant?
  match tag, payload with
  | "None", p => if isUnit p then some .none else none
  | "Bool", some p => (asBool? p).map .bool
  | "Int", some p => (asInt64? p).map .int
  | "Str", some p => (asStr? p).map .str
  | _, _ => none

/-- An operator read back from its constructor name. -/
def BinOp.ofJson? (j : Json) : Option BinOp := do
  let (tag, payload) ← j.variant?
  if isUnit payload then BinOp.all.find? (·.tag == tag) else none

/-- A prefix operator read back from its constructor name. -/
def UnaryOp.ofJson? (j : Json) : Option UnaryOp := do
  let (tag, payload) ← j.variant?
  if !isUnit payload then none
  else match tag with
    | "Neg" => some .neg | "Pos" => some .pos | "Not" => some .not | _ => none

/-- An import alias read back. -/
def Alias.ofJson? (j : Json) : Option Alias := do
  let [name, asname] ← j.fields? ["name", "asname"] | none
  pure ⟨← required? asStr? name, ← optional? asStr? asname⟩

mutual
/-- An expression read back; `fuel` bounds the nesting. -/
def Expr.ofJson? : Nat → Json → Option Expr
  | 0, _ => none
  | n + 1, j => do
      let [kindField, locField] ← j.fields? ["kind", "loc"] | none
      let loc ← optional? Loc.ofJson? locField
      let (tag, payload) ← (← kindField).variant?
      let sub := fun (k : Option Json) => do Expr.ofJson? n (← k)
      let kind : ExprKind ← match tag, payload with
        | "Name", some p => (asStr? p).map .name
        | "Constant", some p => do pure (.const (← Constant.ofJson? p))
        | "BinOp", some p => do
            let [op, left, right] ← p.fields? ["op", "left", "right"] | none
            pure (.binOp (← required? BinOp.ofJson? op) (← sub left) (← sub right))
        | "UnaryOp", some p => do
            let [op, operand] ← p.fields? ["op", "operand"] | none
            pure (.unaryOp (← required? UnaryOp.ofJson? op) (← sub operand))
        | "Call", some p => do
            let [func, args] ← p.fields? ["func", "args"] | none
            pure (.call (← sub func) (← Expr.listOfJson? n (← elements? args)))
        | "Attribute", some p => do
            let [value, attr] ← p.fields? ["value", "attr"] | none
            pure (.attribute (← sub value) (← required? asStr? attr))
        | "Subscript", some p => do
            let [value, index] ← p.fields? ["value", "index"] | none
            pure (.subscript (← sub value) (← sub index))
        | "List", some p => do pure (.list (← Expr.listOfJson? n (← elements? (some p))))
        | "Tuple", some p => do pure (.tuple (← Expr.listOfJson? n (← elements? (some p))))
        | "Lambda", some p => do
            let [params, body] ← p.fields? ["params", "body"] | none
            pure (.lambda (← required? (asList? asStr?) params) (← sub body))
        | "IfExp", some p => do
            let [test, body, orelse] ← p.fields? ["test", "body", "orelse"] | none
            pure (.ifExp (← sub test) (← sub body) (← sub orelse))
        | "Done", some p => do pure (.done (← Expr.ofJson? n p))
        | _, _ => none
      pure (.mk kind loc)

/-- A list of expressions read back. -/
def Expr.listOfJson? : Nat → List Json → Option (List Expr)
  | _, [] => some []
  | 0, _ :: _ => none
  | n + 1, j :: js => do pure ((← Expr.ofJson? n j) :: (← Expr.listOfJson? (n + 1) js))
end

mutual
/-- A statement read back; `fuel` bounds the nesting. -/
def Stmt.ofJson? : Nat → Json → Option Stmt
  | 0, _ => none
  | n + 1, j => do
      let [kindField, locField] ← j.fields? ["kind", "loc"] | none
      let loc ← optional? Loc.ofJson? locField
      let (tag, payload) ← (← kindField).variant?
      let e := fun (k : Option Json) => do Expr.ofJson? n (← k)
      let block := fun (k : Option Json) => do Stmt.listOfJson? n (← elements? k)
      let decorators := fun (k : Option Json) => do Expr.listOfJson? n (← elements? k)
      let kind : StmtKind ← match tag, payload with
        | "Pass", p => if isUnit p then some .pass else none
        | "Break", p => if isUnit p then some .breakLoop else none
        | "Continue", p => if isUnit p then some .continueLoop else none
        | "Expr", some p => do pure (.expr (← Expr.ofJson? n p))
        | "Assign", some p => do
            let [target, value] ← p.fields? ["target", "value"] | none
            pure (.assign (← e target) (← e value))
        | "Import", some p => do
            let [module, asname] ← p.fields? ["module", "asname"] | none
            pure (.importModule (← required? asStr? module) (← optional? asStr? asname))
        | "ImportFrom", some p => do
            let [module, level, names] ← p.fields? ["module", "level", "names"] | none
            pure (.importFrom (← optional? asStr? module)
              (← required? (asNatBelow? (Nat.pow 2 64)) level)
              (← required? (asList? Alias.ofJson?) names))
        | "With", some p => do
            let [item, asName, body] ← p.fields? ["item", "alias", "body"] | none
            pure (.withBlock (← e item) (← optional? asStr? asName) (← block body))
        | "FunctionDef", some p => do
            let [name, params, body, decos] ← p.fields? ["name", "params", "body", "decorators"]
              | none
            pure (.functionDef (← required? asStr? name) (← required? (asList? asStr?) params)
              (← block body) (← decorators decos))
        | "ClassDef", some p => do
            let [name, body, decos] ← p.fields? ["name", "body", "decorators"] | none
            pure (.classDef (← required? asStr? name) (← block body) (← decorators decos))
        | "Return", some p => do pure (.ret (← optional? (Expr.ofJson? n) (some p)))
        | "If", some p => do
            let [test, body, orelse] ← p.fields? ["test", "body", "orelse"] | none
            pure (.ifElse (← e test) (← block body) (← block orelse))
        | "While", some p => do
            let [test, body] ← p.fields? ["test", "body"] | none
            pure (.whileLoop (← e test) (← block body))
        | "For", some p => do
            let [target, iter, body] ← p.fields? ["target", "iter", "body"] | none
            pure (.forLoop (← required? asStr? target) (← e iter) (← block body))
        | "Assert", some p => do
            let [test, msg] ← p.fields? ["test", "msg"] | none
            pure (.assertion (← e test) (← optional? (Expr.ofJson? n) msg))
        | "Done", some p => do pure (.done (← Stmt.listOfJson? n (← elements? (some p))))
        | _, _ => none
      pure (.mk kind loc)

/-- A list of statements read back. -/
def Stmt.listOfJson? : Nat → List Json → Option (List Stmt)
  | _, [] => some []
  | 0, _ :: _ => none
  | n + 1, j :: js => do pure ((← Stmt.ofJson? n j) :: (← Stmt.listOfJson? (n + 1) js))
end

/-- A module read back. -/
def Module.ofJson? (j : Json) : Option Module := do
  let [body] ← j.fields? ["body"] | none
  pure ⟨← Stmt.listOfJson? (j.depth + 1) (← elements? body)⟩

end Espalier
