/-
**Statements and programs.**

A program is a list of statements.  Event rules and conditionals hold statements in turn.

Main definitions:

* `Stmt`, `Program` — the tree of a program;
* `Stmt.routes`, `Stmt.routesOf` — the route plans of a tree, in source order.
-/
import Waymark.Expr
import Waymark.Route

set_option relaxedAutoImplicit false
set_option autoImplicit false

namespace Waymark

/-- A statement. -/
inductive Stmt where
  /-- A rule for an event, which is named by free text. -/
  | when (event : String) (body : List Stmt)
  /-- A conditional, with or without an alternative. -/
  | branch (test : Expr) (thenBody : List Stmt) (elseBody : Option (List Stmt))
  /-- Show a value. -/
  | display (value : Expr)
  /-- Bind a variable. -/
  | assign (name : String) (value : Expr)
  /-- Collect a route plan. -/
  | route (plan : Route)

/-- A program is what it does, in order. -/
structure Program where
  body : List Stmt

/-- The version of the language. -/
def Program.version : String := "0.2.0"

namespace Stmt

mutual

/-- The route plans in a statement, in source order. -/
def routes (s : Stmt) : List Route :=
  match s with
  | .when _ body => routesOf body
  | .branch _ thenBody none => routesOf thenBody
  | .branch _ thenBody (some elseBody) => routesOf thenBody ++ routesOf elseBody
  | .display _ => []
  | .assign _ _ => []
  | .route plan => [plan]

/-- The route plans in several statements, in source order. -/
def routesOf (body : List Stmt) : List Route :=
  match body with
  | [] => []
  | s :: body => routes s ++ routesOf body

end

end Stmt

end Waymark
