/-!
# Request methods

The seven request methods that a route can be registered for.
-/

namespace RouteScribe

inductive Method where
  | get | post | put | patch | delete | options | head
  deriving DecidableEq, Repr, Inhabited

namespace Method

/-- All methods, in the order in which they are listed to users. -/
def all : List Method := [.get, .post, .put, .patch, .delete, .options, .head]

/-- The lower-case name, as routers spell their registration functions. -/
def name : Method → String
  | .get => "get"
  | .post => "post"
  | .put => "put"
  | .patch => "patch"
  | .delete => "delete"
  | .options => "options"
  | .head => "head"

/-- The method with the given lower-case name. -/
def ofName? (s : String) : Option Method :=
  all.find? (·.name == s)

/-- The upper-case name, as it stands in a request line. -/
def label (m : Method) : String := m.name.toUpper

/-- Different methods have different names. -/
theorem name_injective {m n : Method} (h : m.name = n.name) : m = n := by
  cases m <;> cases n <;> first | rfl | (exact absurd h (by decide))

@[simp] theorem ofName?_name (m : Method) : ofName? m.name = some m := by
  cases m <;> decide

end Method

end RouteScribe
