import DualDeployment.Framework.Prog

/-!
# Errors

Go's `error` as the operator uses it: errors of the API clients, of which it
tells `NotFound` and `NoMatch` apart (`apierrors.IsNotFound`,
`meta.IsNoMatchError`), texts of its own, and aggregates
(`kerrors.NewAggregate`).
-/

namespace DDO.Impl

/-- The classes of client errors. -/
inductive ErrClass where
  | notFound
  | noMatch
  | conflict
  | other
  deriving DecidableEq

inductive Err where
  | api (cls : ErrClass) (msg : String)
  | text (msg : String)
  | aggregate (errs : List Err)

namespace Err

mutual

/-- The messages of the errors in an aggregate, nested ones included. -/
def leaves : Err → List String
  | .api _ msg => [msg]
  | .text msg => [msg]
  | .aggregate errs => leavesAll errs

def leavesAll : List Err → List String
  | [] => []
  | e :: es => leaves e ++ leavesAll es

end

/-- The message: an aggregate lists each distinct one once, in brackets
unless there is only one. -/
def error : Err → String
  | .api _ msg => msg
  | .text msg => msg
  | .aggregate errs =>
    match (leavesAll errs).eraseDups with
    | [msg] => msg
    | msgs => "[" ++ ", ".intercalate msgs ++ "]"

def isNotFound : Err → Bool
  | .api .notFound _ => true
  | _ => false

def isNoMatch : Err → Bool
  | .api .noMatch _ => true
  | _ => false

end Err

/-- `client.IgnoreNotFound`. -/
def ignoreNotFound (err : Err) : Option Err := if err.isNotFound then none else some err

/-- `kerrors.NewAggregate`: `nil` errors are dropped, and none left is `nil`. -/
def newAggregate (errs : List (Option Err)) : Option Err :=
  match errs.filterMap id with
  | [] => none
  | errs => some (.aggregate errs)

theorem newAggregate_eq_none {errs : List (Option Err)} :
    newAggregate errs = none ↔ ∀ e ∈ errs, e = none := by
  rw [newAggregate]
  split
  · rename_i h
    simpa [List.filterMap_eq_nil_iff] using h
  · rename_i es h
    simpa [List.filterMap_eq_nil_iff] using h

theorem newAggregate_some_eq_none {errs : List Err} : newAggregate (errs.map some) = none ↔ errs = [] := by
  rw [newAggregate_eq_none]
  cases errs <;> simp

/-- `%v` of an error that may be `nil`. -/
def errText : Option Err → String
  | none => "<nil>"
  | some e => e.error

end DDO.Impl
